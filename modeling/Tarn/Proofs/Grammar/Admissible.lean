import Tarn.Proofs.Grammar.First

/-! Remarks as properties of derivations and of trees. A derivation without remarks is strict, one
without fatal ones is lenient, and a strict derivation has no remarks just if its tree keeps the
limits that the grammar does not express. -/
namespace Tarn

open Grammar

mutual

/-- No call has too many arguments. -/
def Expr.Admissible : Expr → Prop
  | .literal _ _ | .var _ _ => True
  | .grouping _ inner => inner.Admissible
  | .unary _ _ _ operand => operand.Admissible
  | .binary _ _ _ left right => left.Admissible ∧ right.Admissible
  | .logical _ _ _ left right => left.Admissible ∧ right.Admissible
  | .assign _ _ _ value => value.Admissible
  | .call _ callee _ args =>
      callee.Admissible ∧ args.length ≤ maxEntries ∧ Expr.AllAdmissible args

def Expr.AllAdmissible : List Expr → Prop
  | [] => True
  | e :: es => e.Admissible ∧ Expr.AllAdmissible es

end

/-- There are not too many parameters, and their names differ. -/
def Param.Admissible (params : List Param) : Prop :=
  params.length ≤ maxEntries ∧ (params.map (·.name)).Nodup

def Expr.OptionAdmissible (e : Option Expr) : Prop := ∀ value ∈ e, value.Admissible

mutual

/-- Every call and every list of parameters keeps its limits, and every `return` is in a function;
`inside` tells whether the statement is in one. -/
def Stmt.Admissible (inside : Bool) : Stmt → Prop
  | .block body => body.Admissible inside
  | .expression _ value => value.Admissible
  | .function _ ⟨_, _, params, body⟩ => Param.Admissible params ∧ body.Admissible true
  | .conditional _ condition thenBranch none =>
      condition.Admissible ∧ thenBranch.Admissible inside
  | .conditional _ condition thenBranch (some elseBranch) =>
      condition.Admissible ∧ thenBranch.Admissible inside ∧ elseBranch.Admissible inside
  | .print _ value => value.Admissible
  | .result _ _ value => inside = true ∧ Expr.OptionAdmissible value
  | .loop _ condition body => condition.Admissible ∧ body.Admissible inside
  | .var _ _ _ initializer => Expr.OptionAdmissible initializer

def Block.Admissible (inside : Bool) : Block → Prop
  | ⟨_, stmts⟩ => Stmt.AllAdmissible inside stmts

def Stmt.AllAdmissible (inside : Bool) : List Stmt → Prop
  | [] => True
  | s :: ss => s.Admissible inside ∧ Stmt.AllAdmissible inside ss

end

@[simp] theorem Expr.allAdmissible_append (es es' : List Expr) :
    AllAdmissible (es ++ es') ↔ AllAdmissible es ∧ AllAdmissible es' := by
  induction es with
  | nil => simp [AllAdmissible]
  | cons e es ih => simp [AllAdmissible, ih, and_assoc]

@[simp] theorem Expr.optionAdmissible_none : OptionAdmissible none := nofun

@[simp] theorem Expr.optionAdmissible_some (e : Expr) :
    OptionAdmissible (some e) ↔ e.Admissible := by simp [OptionAdmissible]

theorem Stmt.admissible_conditional (inside : Bool) (span : Span) (condition : Expr)
    (thenBranch : Block) (elseBranch : Option Block) :
    (Stmt.conditional span condition thenBranch elseBranch).Admissible inside ↔
      condition.Admissible ∧ thenBranch.Admissible inside ∧
        ∀ body ∈ elseBranch, body.Admissible inside := by
  cases elseBranch <;> simp [Stmt.Admissible]

theorem Stmt.AllAdmissible.of_mem {inside : Bool} {ss : List Stmt} {s : Stmt}
    (h : AllAdmissible inside ss) (hs : s ∈ ss) : s.Admissible inside := by
  induction ss with
  | nil => cases hs
  | cons s' ss ih =>
    obtain rfl | hs := List.mem_cons.1 hs
    · exact h.1
    · exact ih h.2 hs

/-- A `for` keeps the limits if its parts do. -/
theorem Grammar.admissible_forTree (inside : Bool) (span semicolon : Span)
    (initializer : Option Stmt) (condition increment : Option Expr) (body : Block) :
    (forTree span initializer condition semicolon increment body).Admissible inside ↔
      (∀ stmt ∈ initializer, stmt.Admissible inside) ∧ Expr.OptionAdmissible condition ∧
        Expr.OptionAdmissible increment ∧ body.Admissible inside := by
  have hliteral (span : Span) (value : Literal) : (Expr.literal span value).Admissible := by
    simp [Expr.Admissible]
  cases initializer <;> cases condition <;> cases increment <;>
    simp [forTree, Stmt.Admissible, Block.Admissible, Stmt.AllAdmissible, hliteral] <;> grind

namespace Grammar

theorem remarkAt_eq_nil {code : ErrorCode} {ts : List Token} (h : ts ≠ []) (p : Prop)
    [Decidable p] : (if p then remarkAt code ts else []) = [] ↔ ¬ p := by
  cases ts with
  | nil => exact absurd rfl h
  | cons t ts => simp [remarkAt]

/-- Whether a derivation in this mode may have these remarks. -/
def Mode.Admits : Mode → List Remark → Prop
  | strict, rs => rs = []
  | lenient, rs => ∀ r ∈ rs, r.code.isFatal = false
  | recovering, _ => True

namespace Mode

theorem admits_append {mode : Mode} {rs rs' : List Remark} :
    mode.Admits (rs ++ rs') ↔ mode.Admits rs ∧ mode.Admits rs' := by
  cases mode with
  | strict => exact List.append_eq_nil_iff
  | lenient => exact List.forall_mem_append
  | recovering => simp [Admits]

namespace Admits

variable {mode : Mode} {r : Remark} {rs : List Remark}

theorem tail (h : mode.Admits (r :: rs)) : mode.Admits rs :=
  (admits_append.1 (show mode.Admits ([r] ++ rs) from h)).2

theorem ne_strict (h : mode.Admits (r :: rs)) : mode ≠ .strict := by
  rintro rfl
  exact List.cons_ne_nil _ _ h

theorem eq_recovering (h : mode.Admits (r :: rs)) (hr : r.code.isFatal) : mode = .recovering := by
  cases mode with
  | strict => exact absurd rfl h.ne_strict
  | lenient =>
    have hnot := h r List.mem_cons_self
    rw [hr] at hnot
    cases hnot
  | recovering => rfl

end Admits

end Mode

variable {mode mode' : Mode}

section Restrict

/-! The remarks tell which rules are used, so a derivation is one of every mode that admits them. -/

mutual

theorem Expression.restrict {l ts e rs} :
    Expression mode l ts e rs → mode'.Admits rs → Expression mode' l ts e rs
  | .tighter hl h, hrs => .tighter hl (h.restrict hrs)
  | .assign ht heq hv, hrs => .assign ht heq (hv.restrict hrs)
  | .mistarget _ h hn heq hv, hrs => by
    obtain ⟨h₁, hrs⟩ := Mode.admits_append.1 hrs
    obtain ⟨h₂, h₃⟩ := Mode.admits_append.1 hrs
    exact .mistarget h₃.ne_strict (h.restrict h₁) hn heq (hv.restrict h₂)
  | .logical op hop hl hleft ht hright, hrs => by
    obtain ⟨h, h'⟩ := Mode.admits_append.1 hrs
    exact .logical op hop hl (hleft.restrict h) ht (hright.restrict h')
  | .binary op hop hl hleft ht hright, hrs => by
    obtain ⟨h, h'⟩ := Mode.admits_append.1 hrs
    exact .binary op hop hl (hleft.restrict h) ht (hright.restrict h')
  | .unary op ht h, hrs => .unary op ht (h.restrict hrs)
  | .call hcallee ho hargs hc, hrs => by
    obtain ⟨h, h'⟩ := Mode.admits_append.1 hrs
    exact .call (hcallee.restrict h) ho (hargs.restrict h') hc
  | .literal value ht, _ => .literal value ht
  | .var ht, _ => .var ht
  | .grouping ho h hc, hrs => .grouping ho (h.restrict hrs) hc

theorem Arguments.restrict {ts args rs} :
    Arguments mode ts args rs → mode'.Admits rs → Arguments mode' ts args rs
  | .none, _ => .none
  | .some h, hrs => .some (h.restrict hrs)

theorem ArgumentList.restrict {ts args rs} :
    ArgumentList mode ts args rs → mode'.Admits rs → ArgumentList mode' ts args rs
  | .first h, hrs => .first (h.restrict hrs)
  | .more h hc he, hrs => by
    obtain ⟨h₁, hrs⟩ := Mode.admits_append.1 hrs
    obtain ⟨-, h₂⟩ := Mode.admits_append.1 hrs
    exact .more (h.restrict h₁) hc (he.restrict h₂)

end

theorem OptionalExpression.restrict {ts e rs} (h : OptionalExpression mode ts e rs)
    (hrs : mode'.Admits rs) : OptionalExpression mode' ts e rs := by
  cases h with
  | none => exact .none
  | some h => exact .some (h.restrict hrs)

theorem VariableDeclaration.restrict {ts stmt rs} (h : VariableDeclaration mode ts stmt rs)
    (hrs : mode'.Admits rs) : VariableDeclaration mode' ts stmt rs := by
  cases h with
  | plain hv hn hs => exact .plain hv hn hs
  | initialized hv hn heq he hs => exact .initialized hv hn heq (he.restrict hrs) hs

theorem ExpressionStatement.restrict {ts stmt rs} (h : ExpressionStatement mode ts stmt rs)
    (hrs : mode'.Admits rs) : ExpressionStatement mode' ts stmt rs := by
  cases h with
  | mk he hs => exact .mk (he.restrict hrs) hs

theorem Initializer.restrict {ts stmt rs} (h : Initializer mode ts stmt rs)
    (hrs : mode'.Admits rs) : Initializer mode' ts stmt rs := by
  cases h with
  | none hs => exact .none hs
  | var h => exact .var (h.restrict hrs)
  | expression h => exact .expression (h.restrict hrs)

mutual

theorem Declaration.restrict {inside ts stmt rs} :
    Declaration mode inside ts stmt rs → mode'.Admits rs → Declaration mode' inside ts stmt rs
  | .function hf hn ho hp hc hb, hrs => by
    obtain ⟨-, h⟩ := Mode.admits_append.1 hrs
    exact .function hf hn ho hp hc (hb.restrict h)
  | .var h, hrs => .var (h.restrict hrs)
  | .expression h, hrs => .expression (h.restrict hrs)
  | .forLoop hf hi hc hs hn hb, hrs => by
    obtain ⟨h, hrs⟩ := Mode.admits_append.1 hrs
    obtain ⟨h₁, hrs⟩ := Mode.admits_append.1 hrs
    obtain ⟨h₂, h₃⟩ := Mode.admits_append.1 hrs
    exact .forLoop hf (hi.restrict h) (hc.restrict h₁) hs (hn.restrict h₂) (hb.restrict h₃)
  | .conditional h, hrs => .conditional (h.restrict hrs)
  | .print hp he hs, hrs => .print hp (he.restrict hrs) hs
  | .result hr hv hs, hrs => .result hr (hv.restrict (Mode.admits_append.1 hrs).2) hs
  | .whileLoop hw he hb, hrs => by
    obtain ⟨h, h'⟩ := Mode.admits_append.1 hrs
    exact .whileLoop hw (he.restrict h) (hb.restrict h')
  | .block h, hrs => .block (h.restrict hrs)

theorem Conditional.restrict {inside ts stmt rs} :
    Conditional mode inside ts stmt rs → mode'.Admits rs → Conditional mode' inside ts stmt rs
  | .mk hi he hb helse, hrs => by
    obtain ⟨h, hrs⟩ := Mode.admits_append.1 hrs
    obtain ⟨h₁, h₂⟩ := Mode.admits_append.1 hrs
    exact .mk hi (he.restrict h) (hb.restrict h₁) (helse.restrict h₂)

theorem Otherwise.restrict {inside ts body rs} :
    Otherwise mode inside ts body rs → mode'.Admits rs → Otherwise mode' inside ts body rs
  | .none, _ => .none
  | .block he h, hrs => .block he (h.restrict hrs)
  | .chained he h, hrs => .chained he (h.restrict hrs)

theorem Braces.restrict {inside ts body rs} :
    Braces mode inside ts body rs → mode'.Admits rs → Braces mode' inside ts body rs
  | .mk ho h hc, hrs => .mk ho (h.restrict hrs) hc

theorem Declarations.restrict {inside ts stmts rs} :
    Declarations mode inside ts stmts rs → mode'.Admits rs → Declarations mode' inside ts stmts rs
  | .nil, _ => .nil
  | .cons h hs, hrs => by
    obtain ⟨h₁, h₂⟩ := Mode.admits_append.1 hrs
    exact .cons (h.restrict h₁) (hs.restrict h₂)
  | .dropped _ hts hr hs, hrs => by
    obtain ⟨-, h⟩ := Mode.admits_append.1 hrs
    exact .dropped (h.eq_recovering hr) hts hr (hs.restrict h.tail)

end

/-- Without remarks, the rules that are not strict are not used. -/
theorem Declarations.strict {inside ts stmts rs} (h : Declarations mode inside ts stmts rs)
    (hrs : rs = []) : Declarations .strict inside ts stmts rs := h.restrict hrs

end Restrict

section Minor

/-! Only what a recovering derivation drops has a fatal remark. -/

theorem Mode.Admits.append {mode : Mode} {rs rs' : List Remark} (h : mode.Admits rs)
    (h' : mode.Admits rs') : mode.Admits (rs ++ rs') := Mode.admits_append.2 ⟨h, h'⟩

theorem Mode.admits_nil : (mode : Mode) → mode.Admits []
  | .strict => rfl
  | .lenient => nofun
  | .recovering => trivial

theorem Mode.lenient_admits_singleton {r : Remark} (h : r.code.isFatal = false) :
    Mode.lenient.Admits [r] := by
  simpa [Mode.Admits] using h

theorem Mode.lenient_admits_ite {p : Prop} [Decidable p] {rs : List Remark}
    (h : Mode.lenient.Admits rs) : Mode.lenient.Admits (if p then rs else []) := by
  split
  · exact h
  · exact Mode.admits_nil _

theorem lenient_admits_remarkAt {code : ErrorCode} (h : code.isFatal = false) (ts : List Token) :
    Mode.lenient.Admits (remarkAt code ts) := by
  cases ts with
  | nil => exact Mode.admits_nil _
  | cons t ts => exact Mode.lenient_admits_singleton h

mutual

theorem Expression.minor {l ts e rs} : Expression mode l ts e rs → Mode.lenient.Admits rs
  | .tighter _ h | .assign _ _ h | .unary _ _ h | .grouping _ h _ => h.minor
  | .mistarget _ h _ _ hv => h.minor.append (hv.minor.append (Mode.lenient_admits_singleton rfl))
  | .logical _ _ _ h _ h' | .binary _ _ _ h _ h' => h.minor.append h'.minor
  | .call h _ h' _ => h.minor.append h'.minor
  | .literal _ _ | .var _ => Mode.admits_nil _

theorem Arguments.minor {ts args rs} : Arguments mode ts args rs → Mode.lenient.Admits rs
  | .none => Mode.admits_nil _
  | .some h => h.minor

theorem ArgumentList.minor {ts args rs} : ArgumentList mode ts args rs → Mode.lenient.Admits rs
  | .first h => h.minor
  | .more h _ he => h.minor.append
      ((Mode.lenient_admits_ite (lenient_admits_remarkAt rfl _)).append he.minor)

end

theorem ParameterList.minor {ts params rs} (h : ParameterList ts params rs) :
    Mode.lenient.Admits rs := by
  induction h with
  | first _ => exact Mode.admits_nil _
  | more _ _ _ ih =>
    exact ih.append ((Mode.lenient_admits_ite (Mode.lenient_admits_singleton rfl)).append
      (Mode.lenient_admits_ite (Mode.lenient_admits_singleton rfl)))

theorem Parameters.minor {ts params rs} (h : Parameters ts params rs) :
    Mode.lenient.Admits rs := by
  cases h with
  | none => exact Mode.admits_nil _
  | some h => exact h.minor

theorem OptionalExpression.minor {ts e rs} (h : OptionalExpression mode ts e rs) :
    Mode.lenient.Admits rs := by
  cases h with
  | none => exact Mode.admits_nil _
  | some h => exact h.minor

theorem VariableDeclaration.minor {ts stmt rs} (h : VariableDeclaration mode ts stmt rs) :
    Mode.lenient.Admits rs := by
  cases h with
  | plain => exact Mode.admits_nil _
  | initialized _ _ _ he => exact he.minor

theorem ExpressionStatement.minor {ts stmt rs} (h : ExpressionStatement mode ts stmt rs) :
    Mode.lenient.Admits rs := by
  cases h with
  | mk he => exact he.minor

theorem Initializer.minor {ts stmt rs} (h : Initializer mode ts stmt rs) :
    Mode.lenient.Admits rs := by
  cases h with
  | none => exact Mode.admits_nil _
  | var h => exact h.minor
  | expression h => exact h.minor

mutual

theorem Declaration.minor {inside ts stmt rs} :
    Declaration .lenient inside ts stmt rs → Mode.lenient.Admits rs
  | .function _ _ _ hp _ hb => hp.minor.append hb.minor
  | .var h => h.minor
  | .expression h => h.minor
  | .forLoop _ hi hc _ hn hb => hi.minor.append (hc.minor.append (hn.minor.append hb.minor))
  | .conditional h => h.minor
  | .print _ he _ => he.minor
  | .result _ hv _ => by
    refine Mode.Admits.append ?_ hv.minor
    split
    · exact Mode.admits_nil _
    · exact Mode.lenient_admits_singleton rfl
  | .whileLoop _ he hb => he.minor.append hb.minor
  | .block h => h.minor

theorem Conditional.minor {inside ts stmt rs} :
    Conditional .lenient inside ts stmt rs → Mode.lenient.Admits rs
  | .mk _ he hb helse => he.minor.append (hb.minor.append helse.minor)

theorem Otherwise.minor {inside ts body rs} :
    Otherwise .lenient inside ts body rs → Mode.lenient.Admits rs
  | .none => Mode.admits_nil _
  | .block _ h => h.minor
  | .chained _ h => h.minor

theorem Braces.minor {inside ts body rs} :
    Braces .lenient inside ts body rs → Mode.lenient.Admits rs
  | .mk _ h _ => h.minor

theorem Declarations.minor {inside ts stmts rs} :
    Declarations .lenient inside ts stmts rs → Mode.lenient.Admits rs
  | .nil => Mode.admits_nil _
  | .cons h hs => h.minor.append hs.minor
  | .dropped hmode _ _ _ => nomatch hmode

end

end Minor

section Admissible

/-! Without the rules that are not strict, the remarks are about the limits. -/

mutual

theorem Expression.eq_nil_iff {l ts e rs} :
    Expression .strict l ts e rs → (rs = [] ↔ e.Admissible)
  | .tighter _ h => h.eq_nil_iff
  | .assign _ _ h | .unary _ _ h | .grouping _ h _ => by rw [Expr.Admissible, h.eq_nil_iff]
  | .mistarget hmode _ _ _ _ => absurd rfl hmode
  | .logical _ _ _ h _ h' | .binary _ _ _ h _ h' => by
    rw [Expr.Admissible, List.append_eq_nil_iff, h.eq_nil_iff, h'.eq_nil_iff]
  | .call h _ h' _ => by
    rw [Expr.Admissible, List.append_eq_nil_iff, h.eq_nil_iff, h'.eq_nil_iff]
  | .literal _ _ | .var _ => by simp [Expr.Admissible]

theorem Arguments.eq_nil_iff {ts args rs} : Arguments .strict ts args rs →
    (rs = [] ↔ args.length ≤ maxEntries ∧ Expr.AllAdmissible args)
  | .none => by simp [Expr.AllAdmissible]
  | .some h => h.eq_nil_iff

theorem ArgumentList.eq_nil_iff {ts args rs} : ArgumentList .strict ts args rs →
    (rs = [] ↔ args.length ≤ maxEntries ∧ Expr.AllAdmissible args)
  | .first h => by simp [Expr.AllAdmissible, h.eq_nil_iff, maxEntries]
  | .more h _ he => by
    rw [List.append_eq_nil_iff, List.append_eq_nil_iff, remarkAt_eq_nil he.ne_nil, h.eq_nil_iff,
      he.eq_nil_iff, Expr.allAdmissible_append, List.length_append, List.length_singleton]
    simp only [Expr.AllAdmissible, and_true]
    constructor
    · rintro ⟨⟨hlen, hargs⟩, hne, he⟩
      exact ⟨by omega, hargs, he⟩
    · rintro ⟨hlen, hargs, he⟩
      exact ⟨⟨by omega, hargs⟩, by omega, he⟩

end

theorem ParameterList.eq_nil_iff {ts params rs} (h : ParameterList ts params rs) :
    rs = [] ↔ Param.Admissible params := by
  induction h with
  | first ht => simp [Param.Admissible, maxEntries]
  | @more ts comma t params name rs h _ _ ih =>
    have hdistinct : ((params ++ [(⟨name, t.span⟩ : Param)]).map (·.name)).Nodup ↔
        (params.map (·.name)).Nodup ∧ ¬ ∃ p ∈ params, p.name = name := by
      simp [List.nodup_append]
    rw [Param.Admissible, hdistinct, List.append_eq_nil_iff, List.append_eq_nil_iff, ih,
      Param.Admissible, List.length_append, List.length_singleton]
    simp only [ite_eq_right_iff, List.cons_ne_nil, imp_false]
    constructor
    · rintro ⟨⟨hlen, hnodup⟩, hne, hnew⟩
      exact ⟨by omega, hnodup, hnew⟩
    · rintro ⟨hlen, hnodup, hnew⟩
      exact ⟨⟨by omega, hnodup⟩, by omega, hnew⟩

theorem Parameters.eq_nil_iff {ts params rs} (h : Parameters ts params rs) :
    rs = [] ↔ Param.Admissible params := by
  cases h with
  | none => simp [Param.Admissible]
  | some h => exact h.eq_nil_iff

theorem OptionalExpression.eq_nil_iff {ts e rs} (h : OptionalExpression .strict ts e rs) :
    rs = [] ↔ Expr.OptionAdmissible e := by
  cases h with
  | none => simp
  | some h => rw [Expr.optionAdmissible_some, h.eq_nil_iff]

theorem VariableDeclaration.eq_nil_iff {inside ts stmt rs}
    (h : VariableDeclaration .strict ts stmt rs) : rs = [] ↔ stmt.Admissible inside := by
  cases h with
  | plain => simp [Stmt.Admissible]
  | initialized _ _ _ he => rw [Stmt.Admissible, Expr.optionAdmissible_some, he.eq_nil_iff]

theorem ExpressionStatement.eq_nil_iff {inside ts stmt rs}
    (h : ExpressionStatement .strict ts stmt rs) : rs = [] ↔ stmt.Admissible inside := by
  cases h with
  | mk he => rw [Stmt.Admissible, he.eq_nil_iff]

theorem Initializer.eq_nil_iff {inside ts stmt rs} (h : Initializer .strict ts stmt rs) :
    rs = [] ↔ ∀ s ∈ stmt, s.Admissible inside := by
  cases h with
  | none => simp
  | @var _ stmt _ h =>
    have hstmt : rs = [] ↔ stmt.Admissible inside := h.eq_nil_iff
    simp [hstmt]
  | @expression _ stmt _ h =>
    have hstmt : rs = [] ↔ stmt.Admissible inside := h.eq_nil_iff
    simp [hstmt]

mutual

theorem Declaration.eq_nil_iff {inside ts stmt rs} :
    Declaration .strict inside ts stmt rs → (rs = [] ↔ stmt.Admissible inside)
  | .function _ _ _ hp _ hb => by
    rw [Stmt.Admissible, List.append_eq_nil_iff, hp.eq_nil_iff, hb.eq_nil_iff]
  | .var h => h.eq_nil_iff
  | .expression h => h.eq_nil_iff
  | .forLoop _ hi hc _ hn hb => by
    rw [admissible_forTree, List.append_eq_nil_iff, List.append_eq_nil_iff,
      List.append_eq_nil_iff, hi.eq_nil_iff, hc.eq_nil_iff, hn.eq_nil_iff, hb.eq_nil_iff]
  | .conditional h => h.eq_nil_iff
  | .print _ he _ => by rw [Stmt.Admissible, he.eq_nil_iff]
  | .result _ hv _ => by
    rw [Stmt.Admissible, List.append_eq_nil_iff, hv.eq_nil_iff]
    cases inside <;> simp
  | .whileLoop _ he hb => by
    rw [Stmt.Admissible, List.append_eq_nil_iff, he.eq_nil_iff, hb.eq_nil_iff]
  | .block h => by rw [Stmt.Admissible, h.eq_nil_iff]

theorem Conditional.eq_nil_iff {inside ts stmt rs} :
    Conditional .strict inside ts stmt rs → (rs = [] ↔ stmt.Admissible inside)
  | .mk _ he hb helse => by
    rw [Stmt.admissible_conditional, List.append_eq_nil_iff, List.append_eq_nil_iff,
      he.eq_nil_iff, hb.eq_nil_iff, helse.eq_nil_iff]

theorem Otherwise.eq_nil_iff {inside ts body rs} :
    Otherwise .strict inside ts body rs → (rs = [] ↔ ∀ b ∈ body, b.Admissible inside)
  | .none => by simp
  | .block _ h => by simp [h.eq_nil_iff]
  | .chained _ h => by simp [h.eq_nil_iff, Block.Admissible, Stmt.AllAdmissible]

theorem Braces.eq_nil_iff {inside ts body rs} :
    Braces .strict inside ts body rs → (rs = [] ↔ body.Admissible inside)
  | .mk _ h _ => by rw [Block.Admissible, h.eq_nil_iff]

theorem Declarations.eq_nil_iff {inside ts stmts rs} :
    Declarations .strict inside ts stmts rs → (rs = [] ↔ Stmt.AllAdmissible inside stmts)
  | .nil => by simp [Stmt.AllAdmissible]
  | .cons h hs => by
    rw [Stmt.AllAdmissible, List.append_eq_nil_iff, h.eq_nil_iff, hs.eq_nil_iff]
  | .dropped hmode _ _ _ => nomatch hmode

end

end Admissible

end Grammar

end Tarn
