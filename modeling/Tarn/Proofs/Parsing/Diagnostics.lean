import Mathlib.Algebra.Order.Group.Multiset
import Mathlib.Tactic.Abel
import Tarn.Proofs.Grammar.Drafts
import Tarn.Proofs.Parsing.Prefixes

/-! What is said about the mistakes in a program that do not stop parsing: everything is kept, and
each mistake is remarked once. -/
namespace Tarn

open Grammar

namespace Draft

/-! ## Drafts derive -/

section Lists

variable {α : Type} {xs : List α} {x : α}

theorem getElem?_concat (n : Nat) :
    (xs ++ [x])[n]?.toList = xs[n]?.toList ++ if xs.length = n then [x] else [] := by
  obtain hlt | rfl | hgt := Nat.lt_trichotomy xs.length n
  · have hle : (xs ++ [x]).length ≤ n := by
      rw [List.length_append]
      exact hlt
    simp [List.getElem?_eq_none hle, List.getElem?_eq_none hlt.le, hlt.ne]
  · simp
  · simp [List.getElem?_append_left hgt, hgt.ne']

/-- The entry behind `xs` is one too many just if they are as many as there may be. -/
theorem overflow_concat : (overflow (xs ++ [x])).toList =
    (overflow xs).toList ++ if xs.length = maxEntries then [x] else [] := getElem?_concat _

end Lists

theorem excessParams_concat (params : List Param) (p : Param) :
    excessParams (params ++ [p]) = excessParams params ++
      if params.length = maxEntries then [⟨.tooManyParameters, p.span⟩] else [] := by
  rw [excessParams, excessParams, overflow_concat, List.map_append]
  split <;> rfl

theorem repeatedParams_concat (params : List Param) (p : Param) :
    repeatedParams (params ++ [p]) = repeatedParams params ++
      if ∃ q ∈ params, q.name = p.name then [⟨.duplicateParameter, p.span⟩] else [] := by
  have hearlier : (params.zipIdx.filter fun r : Param × Nat =>
      ∃ q ∈ (params ++ [p]).take r.2, q.name = r.1.name) =
        params.zipIdx.filter fun r : Param × Nat => ∃ q ∈ params.take r.2, q.name = r.1.name := by
    refine List.filter_congr fun r hr => ?_
    obtain ⟨-, hi, -⟩ := List.mem_zipIdx hr
    rw [List.take_append_of_le_length (by omega)]
  rw [repeatedParams, List.zipIdx_append, List.filter_append, hearlier, List.map_append]
  simp [repeatedParams, List.filter_cons]
  split <;> rfl

theorem ArgumentList.length_trees : (args : ArgumentList) → args.trees.length = args.items.length
  | .first _ => rfl
  | .more args _ _ => by simp [trees, items, args.length_trees]

theorem ArgumentList.excess_more (args : ArgumentList) (comma : Span)
    (e : Expression .assignment) : (more args comma e).excess = args.excess ++
      if args.trees.length = maxEntries then remarkAt .tooManyArguments e.tokens else [] := by
  rw [excess, items, overflow_concat, List.flatMap_append, args.length_trees, excess]
  split <;> simp

namespace Expression

/-- A variable is one token, and nothing is wrong with it. -/
theorem eq_of_asVariable {l : Level} {name : Name} {place : Span} :
    {e : Expression l} → e.asVariable = some (name, place) →
      e.tokens = [⟨.identifier name, place⟩] ∧ e.remarks = 0
  | .tighter _ e, h => eq_of_asVariable (e := e) h
  | .var _ _, h => by
    obtain ⟨rfl, rfl⟩ := Prod.mk.inj (Option.some.inj h)
    exact ⟨rfl, rfl⟩

/-- But for assignments, just a variable has the tree of one. -/
theorem tree_eq_var_iff {l : Level} {name : Name} {place : Span} (hl : l ≠ .assignment) :
    (e : Expression l) → (e.tree = .var place name ↔ e.asVariable = some (name, place))
  | .tighter hl' e => tree_eq_var_iff (fun h => by subst h; cases l <;> cases hl') e
  | .logical .. | .binary .. | .unary .. | .call .. | .literal .. | .grouping .. => by
    simp [tree, asVariable]
  | .var name' place' => by simp [tree, asVariable, and_comm]
  | .assign .. => absurd rfl hl

end Expression

mutual

theorem Expression.derives {l : Level} : (e : Expression l) →
    ∃ rs : List Remark, Grammar.Expression .lenient l e.tokens e.tree rs ∧ rs = e.remarks
  | .tighter hl e => by
    obtain ⟨rs, h, hrs⟩ := e.derives
    exact ⟨rs, .tighter hl h, hrs⟩
  | .assign target equal value => by
    obtain ⟨rs, h, hrs⟩ := target.derives
    obtain ⟨rs', h', hrs'⟩ := value.derives
    rcases hvar : target.asVariable with _ | ⟨name, place⟩
    · refine ⟨rs ++ (rs' ++ [⟨.invalidTarget, equal⟩]), ?_, ?_⟩
      · simp only [Expression.tokens, Expression.tree, hvar]
        refine .mistarget (by decide) h (fun place name htree => ?_) rfl h'
        rw [target.tree_eq_var_iff (by decide), hvar] at htree
        cases htree
      · simp only [Expression.remarks, hvar, if_true, ← hrs, ← hrs', ← Multiset.coe_add,
          Multiset.coe_singleton, add_assoc]
    · obtain ⟨htokens, hremarks⟩ := Expression.eq_of_asVariable hvar
      refine ⟨rs', ?_, ?_⟩
      · simp only [Expression.tokens, Expression.tree, hvar, htokens]
        exact .assign rfl rfl h'
      · simp [Expression.remarks, hvar, hremarks, hrs']
  | .logical op hop hl left place right => by
    obtain ⟨rs, h, hrs⟩ := left.derives
    obtain ⟨rs', h', hrs'⟩ := right.derives
    exact ⟨_, .logical op hop hl h rfl h', by simp [Expression.remarks, ← hrs, ← hrs']⟩
  | .binary op hop hl left place right => by
    obtain ⟨rs, h, hrs⟩ := left.derives
    obtain ⟨rs', h', hrs'⟩ := right.derives
    exact ⟨_, .binary op hop hl h rfl h', by simp [Expression.remarks, ← hrs, ← hrs']⟩
  | .unary op place operand => by
    obtain ⟨rs, h, hrs⟩ := operand.derives
    exact ⟨rs, .unary op rfl h, hrs⟩
  | .call callee opening args closing => by
    obtain ⟨rs, h, hrs⟩ := callee.derives
    obtain ⟨rs', h', hrs'⟩ := args.derives
    exact ⟨_, .call h rfl h' rfl, by simp [Expression.remarks, ← hrs, ← hrs']⟩
  | .literal value place => ⟨[], .literal value rfl, rfl⟩
  | .var name place => ⟨[], .var rfl, rfl⟩
  | .grouping opening inner closing => by
    obtain ⟨rs, h, hrs⟩ := inner.derives
    exact ⟨rs, .grouping rfl h rfl, hrs⟩

theorem Arguments.derives : (args : Arguments) →
    ∃ rs : List Remark, Grammar.Arguments .lenient args.tokens args.trees rs ∧ rs = args.remarks
  | .none => ⟨[], .none, rfl⟩
  | .some args => by
    obtain ⟨rs, h, hrs⟩ := args.derives
    exact ⟨rs, .some h, hrs⟩

theorem ArgumentList.derives : (args : ArgumentList) →
    ∃ rs : List Remark, Grammar.ArgumentList .lenient args.tokens args.trees rs ∧
      rs = args.remarks + args.excess
  | .first e => by
    obtain ⟨rs, h, hrs⟩ := e.derives
    exact ⟨rs, .first h, by simp [ArgumentList.remarks, ArgumentList.excess, ArgumentList.items,
      overflow, maxEntries, hrs]⟩
  | .more args comma e => by
    obtain ⟨rs, h, hrs⟩ := args.derives
    obtain ⟨rs', h', hrs'⟩ := e.derives
    refine ⟨_, .more h rfl h', ?_⟩
    rw [ArgumentList.excess_more, ArgumentList.remarks, ← hrs']
    simp only [← Multiset.coe_add, hrs]
    abel

end

theorem ParameterList.derives : (params : ParameterList) →
    ∃ rs : List Remark, Grammar.ParameterList params.tokens params.params rs ∧
      (rs : Multiset Remark) = excessParams params.params + repeatedParams params.params
  | .first p => ⟨[], .first rfl, by
      simp [params, excessParams, overflow, maxEntries, repeatedParams]⟩
  | .more params comma p => by
    obtain ⟨rs, h, hrs⟩ := params.derives
    refine ⟨_, .more h rfl rfl, ?_⟩
    rw [ParameterList.params, excessParams_concat, repeatedParams_concat]
    simp only [← Multiset.coe_add, hrs]
    abel

theorem parameters_derive (params : Option ParameterList) :
    ∃ rs : List Remark,
      Parameters (optionalTokens ParameterList.tokens params) (allParams params) rs ∧
        (rs : Multiset Remark) =
          excessParams (allParams params) + repeatedParams (allParams params) := by
  cases params with
  | none => exact ⟨[], .none, rfl⟩
  | some params =>
    obtain ⟨rs, h, hrs⟩ := params.derives
    exact ⟨rs, .some h, hrs⟩

theorem optional_derives (e : Option (Expression .assignment)) :
    ∃ rs : List Remark, OptionalExpression .lenient (optionalTokens Expression.tokens e)
      (e.map (·.tree)) rs ∧ rs = optionalRemarks e := by
  cases e with
  | none => exact ⟨[], .none, rfl⟩
  | some e =>
    obtain ⟨rs, h, hrs⟩ := e.derives
    exact ⟨rs, .some h, hrs⟩

theorem VariableDeclaration.derives (d : VariableDeclaration) :
    ∃ rs : List Remark, Grammar.VariableDeclaration .lenient d.tokens d.tree rs ∧
      rs = d.remarks := by
  obtain ⟨keyword, name, place, value, semicolon⟩ := d
  cases value with
  | none => exact ⟨[], .plain rfl rfl rfl, rfl⟩
  | some value =>
    obtain ⟨rs, h, hrs⟩ := value.2.derives
    exact ⟨rs, .initialized rfl rfl rfl h rfl, hrs⟩

theorem ExpressionStatement.derives (d : ExpressionStatement) :
    ∃ rs : List Remark, Grammar.ExpressionStatement .lenient d.tokens d.tree rs ∧
      rs = d.value.remarks := by
  obtain ⟨rs, h, hrs⟩ := d.value.derives
  exact ⟨rs, .mk h rfl, hrs⟩

theorem Initializer.derives : (d : Initializer) →
    ∃ rs : List Remark, Grammar.Initializer .lenient d.tokens d.tree rs ∧ rs = d.remarks
  | .none semicolon => ⟨[], .none rfl, rfl⟩
  | .var d => by
    obtain ⟨rs, h, hrs⟩ := d.derives
    exact ⟨rs, .var h, hrs⟩
  | .expression d => by
    obtain ⟨rs, h, hrs⟩ := d.derives
    exact ⟨rs, .expression h, hrs⟩

mutual

theorem Declaration.derives (inside : Bool) : (d : Declaration) →
    ∃ rs : List Remark, Grammar.Declaration .lenient inside d.tokens d.tree rs ∧
      rs = d.remarks inside
  | .function keyword name place opening params closing body => by
    obtain ⟨rs, h, hrs⟩ := parameters_derive params
    obtain ⟨rs', h', hrs'⟩ := body.derives true
    exact ⟨_, .function rfl rfl rfl h rfl h', by
      rw [← Multiset.coe_add, hrs, hrs', Declaration.remarks]⟩
  | .var d => by
    obtain ⟨rs, h, hrs⟩ := d.derives
    exact ⟨rs, .var h, hrs⟩
  | .expression d => by
    obtain ⟨rs, h, hrs⟩ := d.derives
    exact ⟨rs, .expression h, hrs⟩
  | .forLoop keyword initializer condition semicolon increment body => by
    obtain ⟨rs, h, hrs⟩ := initializer.derives
    obtain ⟨rs₁, h₁, hrs₁⟩ := optional_derives condition
    obtain ⟨rs₂, h₂, hrs₂⟩ := optional_derives increment
    obtain ⟨rs₃, h₃, hrs₃⟩ := body.derives inside
    exact ⟨_, .forLoop rfl h h₁ rfl h₂ h₃, by
      simp only [← Multiset.coe_add, hrs, hrs₁, hrs₂, hrs₃, Declaration.remarks]⟩
  | .conditional d => by
    obtain ⟨rs, h, hrs⟩ := d.derives inside
    exact ⟨rs, .conditional h, hrs⟩
  | .print keyword value semicolon => by
    obtain ⟨rs, h, hrs⟩ := value.derives
    exact ⟨rs, .print rfl h rfl, hrs⟩
  | .result keyword value semicolon => by
    obtain ⟨rs, h, hrs⟩ := optional_derives value
    refine ⟨_, .result rfl h rfl, ?_⟩
    rw [← Multiset.coe_add, hrs, Declaration.remarks]
    cases inside <;> rfl
  | .whileLoop keyword condition body => by
    obtain ⟨rs, h, hrs⟩ := condition.derives
    obtain ⟨rs', h', hrs'⟩ := body.derives inside
    exact ⟨_, .whileLoop rfl h h', by rw [← Multiset.coe_add, hrs, hrs', Declaration.remarks]⟩
  | .block body => by
    obtain ⟨rs, h, hrs⟩ := body.derives inside
    exact ⟨rs, .block h, hrs⟩

theorem Conditional.derives (inside : Bool) : (d : Conditional) →
    ∃ rs : List Remark, Grammar.Conditional .lenient inside d.tokens d.tree rs ∧
      rs = d.remarks inside
  | .mk keyword condition thenBranch other => by
    obtain ⟨rs, h, hrs⟩ := condition.derives
    obtain ⟨rs₁, h₁, hrs₁⟩ := thenBranch.derives inside
    obtain ⟨rs₂, h₂, hrs₂⟩ := other.derives inside
    exact ⟨_, .mk rfl h h₁ h₂, by
      simp only [← Multiset.coe_add, hrs, hrs₁, hrs₂, Conditional.remarks]⟩

theorem Otherwise.derives (inside : Bool) : (d : Otherwise) →
    ∃ rs : List Remark, Grammar.Otherwise .lenient inside d.tokens d.tree rs ∧
      rs = d.remarks inside
  | .none => ⟨[], .none, rfl⟩
  | .block keyword body => by
    obtain ⟨rs, h, hrs⟩ := body.derives inside
    exact ⟨rs, .block rfl h, hrs⟩
  | .chained keyword d => by
    obtain ⟨rs, h, hrs⟩ := d.derives inside
    exact ⟨rs, .chained rfl h, hrs⟩

theorem Braces.derives (inside : Bool) : (d : Braces) →
    ∃ rs : List Remark, Grammar.Braces .lenient inside d.tokens d.tree rs ∧
      rs = d.remarks inside
  | .mk opening ds closing => by
    obtain ⟨rs, h, hrs⟩ := ds.derives inside
    exact ⟨rs, .mk rfl h rfl, hrs⟩

theorem Declarations.derives (inside : Bool) : (ds : Declarations) →
    ∃ rs : List Remark, Grammar.Declarations .lenient inside ds.tokens ds.trees rs ∧
      rs = ds.remarks inside
  | .nil => ⟨[], .nil, rfl⟩
  | .cons d ds => by
    obtain ⟨rs, h, hrs⟩ := d.derives inside
    obtain ⟨rs', h', hrs'⟩ := ds.derives inside
    exact ⟨_, .cons h h', by rw [← Multiset.coe_add, hrs, hrs', Declarations.remarks]⟩

end

/-- A variable as a disjunction. -/
def Expression.ofVariable (name : Name) (place : Span) : Expression .disjunction :=
  @tighter _ .conjunction rfl <| @tighter _ .equality rfl <| @tighter _ .comparison rfl <|
    @tighter _ .term rfl <| @tighter _ .factor rfl <| @tighter _ .unary rfl <|
    @tighter _ .call rfl <| .tighter rfl (.var name place)

end Draft

/-! ## What derives has a draft -/

/-- A token of a known kind is given by its place. -/
theorem Token.exists_place {t : Token} {kind : TokenKind} (h : t.kind = kind) :
    ∃ place, t = ⟨kind, place⟩ := ⟨t.span, by rw [← h]⟩

namespace Grammar

variable {mode : Mode}

mutual

theorem Expression.exists_draft {l ts e rs} :
    Expression mode l ts e rs → ∃ d : Draft.Expression l, d.tokens = ts
  | .tighter hl h => by
    obtain ⟨d, rfl⟩ := h.exists_draft
    exact ⟨.tighter hl d, rfl⟩
  | .assign ht heq hv => by
    rename_i name _
    obtain ⟨place, rfl⟩ := Token.exists_place ht
    obtain ⟨equal, rfl⟩ := Token.exists_place heq
    obtain ⟨d, rfl⟩ := hv.exists_draft
    exact ⟨.assign (Draft.Expression.ofVariable name place) equal d, rfl⟩
  | .mistarget _ h _ heq hv => by
    obtain ⟨d, rfl⟩ := h.exists_draft
    obtain ⟨equal, rfl⟩ := Token.exists_place heq
    obtain ⟨d', rfl⟩ := hv.exists_draft
    exact ⟨.assign d equal d', rfl⟩
  | .logical op hop hl hleft ht hright => by
    obtain ⟨d, rfl⟩ := hleft.exists_draft
    obtain ⟨place, rfl⟩ := Token.exists_place ht
    obtain ⟨d', rfl⟩ := hright.exists_draft
    exact ⟨.logical op hop hl d place d', rfl⟩
  | .binary op hop hl hleft ht hright => by
    obtain ⟨d, rfl⟩ := hleft.exists_draft
    obtain ⟨place, rfl⟩ := Token.exists_place ht
    obtain ⟨d', rfl⟩ := hright.exists_draft
    exact ⟨.binary op hop hl d place d', rfl⟩
  | .unary op ht h => by
    obtain ⟨place, rfl⟩ := Token.exists_place ht
    obtain ⟨d, rfl⟩ := h.exists_draft
    exact ⟨.unary op place d, rfl⟩
  | .call h ho hargs hc => by
    obtain ⟨d, rfl⟩ := h.exists_draft
    obtain ⟨opening, rfl⟩ := Token.exists_place ho
    obtain ⟨d', rfl⟩ := hargs.exists_draft
    obtain ⟨closing, rfl⟩ := Token.exists_place hc
    exact ⟨.call d opening d' closing, rfl⟩
  | .literal value ht => by
    obtain ⟨place, rfl⟩ := Token.exists_place ht
    exact ⟨.literal value place, rfl⟩
  | .var ht => by
    rename_i name
    obtain ⟨place, rfl⟩ := Token.exists_place ht
    exact ⟨.var name place, rfl⟩
  | .grouping ho h hc => by
    obtain ⟨opening, rfl⟩ := Token.exists_place ho
    obtain ⟨d, rfl⟩ := h.exists_draft
    obtain ⟨closing, rfl⟩ := Token.exists_place hc
    exact ⟨.grouping opening d closing, rfl⟩

theorem Arguments.exists_draft {ts args rs} :
    Arguments mode ts args rs → ∃ d : Draft.Arguments, d.tokens = ts
  | .none => ⟨.none, rfl⟩
  | .some h => by
    obtain ⟨d, rfl⟩ := h.exists_draft
    exact ⟨.some d, rfl⟩

theorem ArgumentList.exists_draft {ts args rs} :
    ArgumentList mode ts args rs → ∃ d : Draft.ArgumentList, d.tokens = ts
  | .first h => by
    obtain ⟨d, rfl⟩ := h.exists_draft
    exact ⟨.first d, rfl⟩
  | .more h hcomma he => by
    obtain ⟨d, rfl⟩ := h.exists_draft
    obtain ⟨comma, rfl⟩ := Token.exists_place hcomma
    obtain ⟨d', rfl⟩ := he.exists_draft
    exact ⟨.more d comma d', rfl⟩

end

theorem ParameterList.exists_draft {ts params rs} :
    ParameterList ts params rs → ∃ d : Draft.ParameterList, d.tokens = ts
  | .first ht => by
    obtain ⟨place, rfl⟩ := Token.exists_place ht
    exact ⟨.first ⟨_, place⟩, rfl⟩
  | .more h hcomma ht => by
    obtain ⟨d, rfl⟩ := h.exists_draft
    obtain ⟨comma, rfl⟩ := Token.exists_place hcomma
    obtain ⟨place, rfl⟩ := Token.exists_place ht
    exact ⟨.more d comma ⟨_, place⟩, rfl⟩

theorem Parameters.exists_draft {ts params rs} : Parameters ts params rs →
    ∃ d : Option Draft.ParameterList, Draft.optionalTokens Draft.ParameterList.tokens d = ts
  | .none => ⟨Option.none, rfl⟩
  | .some h => by
    obtain ⟨d, rfl⟩ := h.exists_draft
    exact ⟨Option.some d, rfl⟩

theorem OptionalExpression.exists_draft {ts e rs} : OptionalExpression mode ts e rs →
    ∃ d : Option (Draft.Expression .assignment),
      Draft.optionalTokens Draft.Expression.tokens d = ts
  | .none => ⟨Option.none, rfl⟩
  | .some h => by
    obtain ⟨d, rfl⟩ := h.exists_draft
    exact ⟨Option.some d, rfl⟩

theorem VariableDeclaration.exists_draft {ts stmt rs} :
    VariableDeclaration mode ts stmt rs → ∃ d : Draft.VariableDeclaration, d.tokens = ts
  | .plain hv hn hs => by
    obtain ⟨keyword, rfl⟩ := Token.exists_place hv
    obtain ⟨place, rfl⟩ := Token.exists_place hn
    obtain ⟨semicolon, rfl⟩ := Token.exists_place hs
    exact ⟨⟨keyword, _, place, none, semicolon⟩, rfl⟩
  | .initialized hv hn heq he hs => by
    obtain ⟨keyword, rfl⟩ := Token.exists_place hv
    obtain ⟨place, rfl⟩ := Token.exists_place hn
    obtain ⟨equal, rfl⟩ := Token.exists_place heq
    obtain ⟨d, rfl⟩ := he.exists_draft
    obtain ⟨semicolon, rfl⟩ := Token.exists_place hs
    exact ⟨⟨keyword, _, place, some (equal, d), semicolon⟩, rfl⟩

theorem ExpressionStatement.exists_draft {ts stmt rs} :
    ExpressionStatement mode ts stmt rs → ∃ d : Draft.ExpressionStatement, d.tokens = ts
  | .mk he hs => by
    obtain ⟨d, rfl⟩ := he.exists_draft
    obtain ⟨semicolon, rfl⟩ := Token.exists_place hs
    exact ⟨⟨d, semicolon⟩, rfl⟩

theorem Initializer.exists_draft {ts stmt rs} :
    Initializer mode ts stmt rs → ∃ d : Draft.Initializer, d.tokens = ts
  | .none hs => by
    obtain ⟨semicolon, rfl⟩ := Token.exists_place hs
    exact ⟨.none semicolon, rfl⟩
  | .var h => by
    obtain ⟨d, rfl⟩ := h.exists_draft
    exact ⟨.var d, rfl⟩
  | .expression h => by
    obtain ⟨d, rfl⟩ := h.exists_draft
    exact ⟨.expression d, rfl⟩

mutual

theorem Declaration.exists_draft {inside ts stmt rs} :
    Declaration .lenient inside ts stmt rs → ∃ d : Draft.Declaration, d.tokens = ts
  | .function hf hn ho hp hc hb => by
    obtain ⟨keyword, rfl⟩ := Token.exists_place hf
    obtain ⟨place, rfl⟩ := Token.exists_place hn
    obtain ⟨opening, rfl⟩ := Token.exists_place ho
    obtain ⟨params, rfl⟩ := hp.exists_draft
    obtain ⟨closing, rfl⟩ := Token.exists_place hc
    obtain ⟨body, rfl⟩ := hb.exists_draft
    exact ⟨.function keyword _ place opening params closing body, rfl⟩
  | .var h => by
    obtain ⟨d, rfl⟩ := h.exists_draft
    exact ⟨.var d, rfl⟩
  | .expression h => by
    obtain ⟨d, rfl⟩ := h.exists_draft
    exact ⟨.expression d, rfl⟩
  | .forLoop hf hi hc hs hn hb => by
    obtain ⟨keyword, rfl⟩ := Token.exists_place hf
    obtain ⟨initializer, rfl⟩ := hi.exists_draft
    obtain ⟨condition, rfl⟩ := hc.exists_draft
    obtain ⟨semicolon, rfl⟩ := Token.exists_place hs
    obtain ⟨increment, rfl⟩ := hn.exists_draft
    obtain ⟨body, rfl⟩ := hb.exists_draft
    exact ⟨.forLoop keyword initializer condition semicolon increment body, rfl⟩
  | .conditional h => by
    obtain ⟨d, rfl⟩ := h.exists_draft
    exact ⟨.conditional d, rfl⟩
  | .print hp he hs => by
    obtain ⟨keyword, rfl⟩ := Token.exists_place hp
    obtain ⟨d, rfl⟩ := he.exists_draft
    obtain ⟨semicolon, rfl⟩ := Token.exists_place hs
    exact ⟨.print keyword d semicolon, rfl⟩
  | .result hr hv hs => by
    obtain ⟨keyword, rfl⟩ := Token.exists_place hr
    obtain ⟨d, rfl⟩ := hv.exists_draft
    obtain ⟨semicolon, rfl⟩ := Token.exists_place hs
    exact ⟨.result keyword d semicolon, rfl⟩
  | .whileLoop hw he hb => by
    obtain ⟨keyword, rfl⟩ := Token.exists_place hw
    obtain ⟨d, rfl⟩ := he.exists_draft
    obtain ⟨body, rfl⟩ := hb.exists_draft
    exact ⟨.whileLoop keyword d body, rfl⟩
  | .block h => by
    obtain ⟨body, rfl⟩ := h.exists_draft
    exact ⟨.block body, rfl⟩

theorem Conditional.exists_draft {inside ts stmt rs} :
    Conditional .lenient inside ts stmt rs → ∃ d : Draft.Conditional, d.tokens = ts
  | .mk hi he hb helse => by
    obtain ⟨keyword, rfl⟩ := Token.exists_place hi
    obtain ⟨d, rfl⟩ := he.exists_draft
    obtain ⟨body, rfl⟩ := hb.exists_draft
    obtain ⟨other, rfl⟩ := helse.exists_draft
    exact ⟨.mk keyword d body other, rfl⟩

theorem Otherwise.exists_draft {inside ts body rs} :
    Otherwise .lenient inside ts body rs → ∃ d : Draft.Otherwise, d.tokens = ts
  | .none => ⟨.none, rfl⟩
  | .block he h => by
    obtain ⟨keyword, rfl⟩ := Token.exists_place he
    obtain ⟨body, rfl⟩ := h.exists_draft
    exact ⟨.block keyword body, rfl⟩
  | .chained he h => by
    obtain ⟨keyword, rfl⟩ := Token.exists_place he
    obtain ⟨d, rfl⟩ := h.exists_draft
    exact ⟨.chained keyword d, rfl⟩

theorem Braces.exists_draft {inside ts body rs} :
    Braces .lenient inside ts body rs → ∃ d : Draft.Braces, d.tokens = ts
  | .mk ho h hc => by
    obtain ⟨opening, rfl⟩ := Token.exists_place ho
    obtain ⟨ds, rfl⟩ := h.exists_draft
    obtain ⟨closing, rfl⟩ := Token.exists_place hc
    exact ⟨.mk opening ds closing, rfl⟩

theorem Declarations.exists_draft {inside ts stmts rs} :
    Declarations .lenient inside ts stmts rs → ∃ d : Draft.Declarations, d.tokens = ts
  | .nil => ⟨.nil, rfl⟩
  | .cons h hs => by
    obtain ⟨d, rfl⟩ := h.exists_draft
    obtain ⟨ds, rfl⟩ := hs.exists_draft
    exact ⟨.cons d ds, rfl⟩
  | .dropped hmode _ _ _ => nomatch hmode

end

/-- The language is what has a draft. -/
theorem lenient_iff_exists_draft {ts : List Token} :
    Lenient ts ↔ ∃ ds : Draft.Declarations, ds.tokens = ts := by
  refine ⟨fun ⟨program, rs, hd⟩ => hd.exists_draft, ?_⟩
  rintro ⟨ds, rfl⟩
  obtain ⟨rs, hd, -⟩ := ds.derives false
  exact ⟨ds.trees, rs, hd⟩

end Grammar

/-- The programs in which assignments may be invalid are those of the drafts. Of every draft all is
kept but the left sides of its invalid assignments, and its mistakes are remarked once each. -/
theorem minor_mistakes_are_exact (names : NameTable) (span : Span) :
    (∀ ts : List Token, Lenient ts ↔ ∃ ds : Draft.Declarations, ds.tokens = ts) ∧
    ∀ ds : Draft.Declarations,
      (parse names (ds.tokens ++ [⟨.eof, span⟩])).statements = ds.trees ∧
        ((parse names (ds.tokens ++ [⟨.eof, span⟩])).errors.map fun e =>
          (⟨e.code, e.span⟩ : Remark) : Multiset Remark) = ds.remarks false := by
  refine ⟨fun ts => lenient_iff_exists_draft, fun ds => ?_⟩
  obtain ⟨rs, hd, hrs⟩ := ds.derives false
  obtain ⟨hstatements, hremarks⟩ := parse_complete names (atEnd_eof span) (by decide) hd
  exact ⟨hstatements, by rw [hremarks, hrs]⟩

end Tarn
