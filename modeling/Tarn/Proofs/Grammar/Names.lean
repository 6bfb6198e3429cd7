import Tarn.Proofs.Grammar.Productions

/-! The names that a tree uses. They are read off the identifiers among the tokens; the texts of
string literals have names as well, but these name nothing. -/
namespace Tarn

mutual

/-- The names that the expression looks up or assigns to. -/
def Expr.names : Expr → List Name
  | .literal .. => []
  | .var _ name => [name]
  | .grouping _ inner => inner.names
  | .unary _ _ _ operand => operand.names
  | .binary _ _ _ left right | .logical _ _ _ left right => left.names ++ right.names
  | .assign _ name _ value => name :: value.names
  | .call _ callee _ args => callee.names ++ Expr.allNames args

def Expr.allNames : List Expr → List Name
  | [] => []
  | e :: es => e.names ++ Expr.allNames es

end

def Expr.optionNames : Option Expr → List Name
  | none => []
  | some e => e.names

mutual

/-- Besides, the names that the statement declares, also as parameters and in bodies of functions. -/
def Stmt.names : Stmt → List Name
  | .block body => body.names
  | .expression _ value | .print _ value => value.names
  | .function _ ⟨name, _, params, body⟩ => name :: (params.map (·.name) ++ body.names)
  | .conditional _ condition thenBranch none => condition.names ++ thenBranch.names
  | .conditional _ condition thenBranch (some elseBranch) =>
      condition.names ++ (thenBranch.names ++ elseBranch.names)
  | .result _ _ value => Expr.optionNames value
  | .loop _ condition body => condition.names ++ body.names
  | .var _ name _ initializer => name :: Expr.optionNames initializer

def Block.names : Block → List Name
  | ⟨_, stmts⟩ => Stmt.allNames stmts

def Stmt.allNames : List Stmt → List Name
  | [] => []
  | s :: ss => s.names ++ Stmt.allNames ss

end

def Block.optionNames : Option Block → List Name
  | none => []
  | some body => body.names

theorem Block.names_eq (body : Block) : body.names = Stmt.allNames body.stmts := by
  cases body
  rw [names]

theorem Stmt.names_function (span : Span) (decl : FunctionDecl) : (function span decl).names =
    decl.name :: (decl.params.map (·.name) ++ decl.body.names) := by
  cases decl
  rw [names]

theorem Stmt.names_conditional (span : Span) (condition : Expr) (thenBranch : Block)
    (elseBranch : Option Block) : (conditional span condition thenBranch elseBranch).names =
      condition.names ++ (thenBranch.names ++ Block.optionNames elseBranch) := by
  cases elseBranch <;> simp [names, Block.optionNames]

theorem Expr.allNames_append (es es' : List Expr) :
    allNames (es ++ es') = allNames es ++ allNames es' := by
  induction es with
  | nil => rfl
  | cons e es ih => rw [List.cons_append, allNames, ih, allNames, List.append_assoc]

theorem Stmt.allNames_append (ss ss' : List Stmt) :
    allNames (ss ++ ss') = allNames ss ++ allNames ss' := by
  induction ss with
  | nil => rfl
  | cons s ss ih => rw [List.cons_append, allNames, ih, allNames, List.append_assoc]

/-- All of the names are as `U` says. -/
def AllNames (U : Name → Prop) (names : List Name) : Prop := ∀ n ∈ names, U n

namespace AllNames

variable {U V : Name → Prop} {n : Name} {ns ns' : List Name}

theorem nil : AllNames U [] := nofun

theorem cons (h : U n) (hs : AllNames U ns) : AllNames U (n :: ns) :=
  List.forall_mem_cons.2 ⟨h, hs⟩

theorem append (h : AllNames U ns) (h' : AllNames U ns') : AllNames U (ns ++ ns') :=
  List.forall_mem_append.2 ⟨h, h'⟩

theorem head (h : AllNames U (n :: ns)) : U n := h n List.mem_cons_self

theorem tail (h : AllNames U (n :: ns)) : AllNames U ns := fun _ hn => h _ (List.mem_cons_of_mem _ hn)

theorem left (h : AllNames U (ns ++ ns')) : AllNames U ns :=
  fun _ hn => h _ (List.mem_append_left _ hn)

theorem right (h : AllNames U (ns ++ ns')) : AllNames U ns' :=
  fun _ hn => h _ (List.mem_append_right _ hn)

theorem mono (h : AllNames U ns) (hU : ∀ n, U n → V n) : AllNames V ns := fun n hn => hU n (h n hn)

end AllNames

variable {U : Name → Prop}

namespace Grammar

/-- The identifiers among the tokens have names as `U` says. -/
def Identifiers (U : Name → Prop) (ts : List Token) : Prop :=
  ∀ t ∈ ts, ∀ name, t.kind = .identifier name → U name

namespace Identifiers

variable {t : Token} {ts ts' : List Token}

theorem tail (h : Identifiers U (t :: ts)) : Identifiers U ts :=
  fun _ ht => h _ (List.mem_cons_of_mem _ ht)

theorem left (h : Identifiers U (ts ++ ts')) : Identifiers U ts :=
  fun _ ht => h _ (List.mem_append_left _ ht)

theorem right (h : Identifiers U (ts ++ ts')) : Identifiers U ts' :=
  fun _ ht => h _ (List.mem_append_right _ ht)

theorem head {name : Name} (h : Identifiers U (t :: ts)) (ht : t.kind = .identifier name) : U name :=
  h t List.mem_cons_self name ht

end Identifiers

variable {mode : Mode}

mutual

theorem Expression.names {l ts e rs} :
    Expression mode l ts e rs → Identifiers U ts → AllNames U e.names
  | .tighter _ h, hts => h.names hts
  | .assign ht _ hv, hts => .cons (hts.head ht) (hv.names hts.tail.tail)
  | .mistarget _ _ _ _ hv, hts => hv.names hts.right.tail
  | .logical _ _ _ h _ h', hts | .binary _ _ _ h _ h', hts =>
    .append (h.names hts.left) (h'.names hts.right.tail)
  | .unary _ _ h, hts => h.names hts.tail
  | .call h _ hargs _, hts => .append (h.names hts.left) (hargs.names hts.right.tail.left)
  | .literal _ _, _ => .nil
  | .var ht, hts => .cons (hts.head ht) .nil
  | .grouping _ h _, hts => h.names hts.tail.left

theorem Arguments.names {ts args rs} :
    Arguments mode ts args rs → Identifiers U ts → AllNames U (Expr.allNames args)
  | .none, _ => .nil
  | .some h, hts => h.names hts

theorem ArgumentList.names {ts args rs} :
    ArgumentList mode ts args rs → Identifiers U ts → AllNames U (Expr.allNames args)
  | .first h, hts => .append (h.names hts) .nil
  | .more h _ he, hts => by
    rw [Expr.allNames_append]
    exact .append (h.names hts.left) (.append (he.names hts.right.tail) .nil)

end

theorem ParameterList.names {ts params rs} (h : ParameterList ts params rs)
    (hts : Identifiers U ts) : AllNames U (params.map (·.name)) := by
  induction h with
  | first ht => exact .cons (hts.head ht) .nil
  | more _ _ ht ih =>
    rw [List.map_append]
    exact .append (ih hts.left) (.cons (hts.right.tail.head ht) .nil)

theorem Parameters.names {ts params rs} (h : Parameters ts params rs) (hts : Identifiers U ts) :
    AllNames U (params.map (·.name)) := by
  cases h with
  | none => exact .nil
  | some h => exact h.names hts

theorem OptionalExpression.names {ts e rs} (h : OptionalExpression mode ts e rs)
    (hts : Identifiers U ts) : AllNames U (Expr.optionNames e) := by
  cases h with
  | none => exact .nil
  | some h => exact h.names hts

theorem VariableDeclaration.names {ts stmt rs} (h : VariableDeclaration mode ts stmt rs)
    (hts : Identifiers U ts) : AllNames U stmt.names := by
  cases h with
  | plain _ hn _ => exact .cons (hts.tail.head hn) .nil
  | initialized _ hn _ he _ => exact .cons (hts.tail.head hn) (he.names hts.tail.tail.tail.left)

theorem ExpressionStatement.names {ts stmt rs} (h : ExpressionStatement mode ts stmt rs)
    (hts : Identifiers U ts) : AllNames U stmt.names := by
  cases h with
  | mk he _ => exact he.names hts.left

theorem Initializer.names {ts stmt rs} (h : Initializer mode ts stmt rs) (hts : Identifiers U ts) :
    AllNames U (Stmt.allNames stmt.toList) := by
  cases h with
  | none => exact .nil
  | var h => exact .append (h.names hts) .nil
  | expression h => exact .append (h.names hts) .nil

theorem names_forTree {span semicolon : Span} {initializer : Option Stmt}
    {condition increment : Option Expr} {body : Block}
    (hi : AllNames U (Stmt.allNames initializer.toList))
    (hc : AllNames U (Expr.optionNames condition)) (hn : AllNames U (Expr.optionNames increment))
    (hb : AllNames U body.names) :
    AllNames U (forTree span initializer condition semicolon increment body).names := by
  unfold forTree
  rw [Stmt.names, Block.names, Stmt.allNames_append]
  refine .append hi (.append (.append ?_ ?_) .nil)
  · cases condition with
    | none => exact .nil
    | some e => exact hc
  · cases increment with
    | none => exact .append hb .nil
    | some e => exact .append hb (.append hn .nil)

mutual

theorem Declaration.names {inside ts stmt rs} :
    Declaration mode inside ts stmt rs → Identifiers U ts → AllNames U stmt.names
  | .function _ hn _ hp _ hb, hts => by
    have hrest := hts.tail.tail.tail
    rw [Stmt.names_function]
    exact .cons (hts.tail.head hn) (.append (hp.names hrest.left) (hb.names hrest.right.tail))
  | .var h, hts => h.names hts
  | .expression h, hts => h.names hts
  | .forLoop _ hi hc _ hn hb, hts => by
    have hrest := hts.tail.right.right.tail
    exact names_forTree (hi.names hts.tail.left) (hc.names hts.tail.right.left) (hn.names hrest.left)
      (hb.names hrest.right)
  | .conditional h, hts => h.names hts
  | .print _ he _, hts => he.names hts.tail.left
  | .result _ hv _, hts => hv.names hts.tail.left
  | .whileLoop _ he hb, hts => .append (he.names hts.tail.left) (hb.names hts.tail.right)
  | .block h, hts => h.names hts

theorem Conditional.names {inside ts stmt rs} :
    Conditional mode inside ts stmt rs → Identifiers U ts → AllNames U stmt.names
  | .mk _ he hb helse, hts => by
    rw [Stmt.names_conditional]
    exact .append (he.names hts.tail.left)
      (.append (hb.names hts.tail.right.left) (helse.names hts.tail.right.right))

theorem Otherwise.names {inside ts body rs} :
    Otherwise mode inside ts body rs → Identifiers U ts → AllNames U (Block.optionNames body)
  | .none, _ => .nil
  | .block _ h, hts => h.names hts.tail
  | .chained _ h, hts => .append (h.names hts.tail) .nil

theorem Braces.names {inside ts body rs} :
    Braces mode inside ts body rs → Identifiers U ts → AllNames U body.names
  | .mk _ h _, hts => h.names hts.tail.left

/-- What derives from tokens uses no names but those of identifiers among them. -/
theorem Declarations.names {inside ts stmts rs} :
    Declarations mode inside ts stmts rs → Identifiers U ts → AllNames U (Stmt.allNames stmts)
  | .nil, _ => .nil
  | .cons h hs, hts => .append (h.names hts.left) (hs.names hts.right)
  | .dropped _ _ _ hs, hts => hs.names hts.right

end

end Grammar

end Tarn
