import Tarn.Proofs.Likeness.Trees

/-! Trees without their places. What is alike by the same names is the same without them. -/
namespace Tarn

mutual

/-- The expression with all its places forgotten. -/
def Expr.bare : Expr → Expr
  | .literal _ value => .literal .nowhere value
  | .var _ name => .var .nowhere name
  | .grouping _ inner => .grouping .nowhere inner.bare
  | .unary _ op _ operand => .unary .nowhere op .nowhere operand.bare
  | .binary _ op _ left right => .binary .nowhere op .nowhere left.bare right.bare
  | .logical _ op _ left right => .logical .nowhere op .nowhere left.bare right.bare
  | .assign _ name _ value => .assign .nowhere name .nowhere value.bare
  | .call _ callee _ args => .call .nowhere callee.bare .nowhere (Expr.allBare args)

def Expr.allBare : List Expr → List Expr
  | [] => []
  | e :: es => e.bare :: Expr.allBare es

end

def Param.bare (p : Param) : Param := ⟨p.name, .nowhere⟩

mutual

def Stmt.bare : Stmt → Stmt
  | .block body => .block body.bare
  | .expression _ value => .expression .nowhere value.bare
  | .function _ ⟨name, _, params, body⟩ =>
      .function .nowhere ⟨name, .nowhere, params.map Param.bare, body.bare⟩
  | .conditional _ condition thenBranch none =>
      .conditional .nowhere condition.bare thenBranch.bare none
  | .conditional _ condition thenBranch (some elseBranch) =>
      .conditional .nowhere condition.bare thenBranch.bare (some elseBranch.bare)
  | .print _ value => .print .nowhere value.bare
  | .result _ _ value => .result .nowhere .nowhere (value.map Expr.bare)
  | .loop _ condition body => .loop .nowhere condition.bare body.bare
  | .var _ name _ initializer => .var .nowhere name .nowhere (initializer.map Expr.bare)

def Block.bare : Block → Block
  | ⟨_, stmts⟩ => ⟨.nowhere, Stmt.allBare stmts⟩

def Stmt.allBare : List Stmt → List Stmt
  | [] => []
  | s :: ss => s.bare :: Stmt.allBare ss

end

def FunctionDecl.bare (d : FunctionDecl) : FunctionDecl :=
  ⟨d.name, .nowhere, d.params.map Param.bare, d.body.bare⟩

theorem Stmt.bare_conditional (span : Span) (condition : Expr) (thenBranch : Block)
    (elseBranch : Option Block) :
    (Stmt.conditional span condition thenBranch elseBranch).bare =
      .conditional .nowhere condition.bare thenBranch.bare (elseBranch.map Block.bare) := by
  cases elseBranch <;> rfl

theorem Stmt.bare_function (span : Span) (d : FunctionDecl) :
    (Stmt.function span d).bare = .function .nowhere d.bare := by
  cases d
  rfl

theorem Block.bare_stmts (b : Block) : b.bare.stmts = Stmt.allBare b.stmts := by
  cases b
  rfl

/-- Names that stand for each other are the same. -/
def Likeness.Same (L : Likeness) : Prop := ∀ ⦃n n'⦄, L.name n n' → n = n'

section Alike

variable {L : Likeness}

theorem Literal.Alike.eq (hL : L.Same) {v v' : Literal} (h : Literal.Alike L v v') : v = v' := by
  cases h with
  | string hn => rw [hL hn]
  | _ => rfl

mutual

theorem Expr.Alike.bare_eq (hL : L.Same) {e e' : Expr} : Expr.Alike L e e' → e.bare = e'.bare
  | .literal _ hv => by rw [Expr.bare, Expr.bare, hv.eq hL]
  | .var _ hn => by rw [Expr.bare, Expr.bare, hL hn]
  | .grouping _ he => by rw [Expr.bare, Expr.bare, he.bare_eq hL]
  | .unary _ _ _ he => by rw [Expr.bare, Expr.bare, he.bare_eq hL]
  | .binary _ _ _ ha hb => by rw [Expr.bare, Expr.bare, ha.bare_eq hL, hb.bare_eq hL]
  | .logical _ _ _ ha hb => by rw [Expr.bare, Expr.bare, ha.bare_eq hL, hb.bare_eq hL]
  | .assign _ hn _ he => by rw [Expr.bare, Expr.bare, hL hn, he.bare_eq hL]
  | .call _ hf _ ha => by rw [Expr.bare, Expr.bare, hf.bare_eq hL, ha.bare_eq hL]

theorem Expr.AllAlike.bare_eq (hL : L.Same) {es es' : List Expr} :
    Expr.AllAlike L es es' → Expr.allBare es = Expr.allBare es'
  | .nil => rfl
  | .cons he hs => by rw [Expr.allBare, Expr.allBare, he.bare_eq hL, hs.bare_eq hL]

end

theorem Expr.OptionAlike.bare_eq (hL : L.Same) {e e' : Option Expr} (h : Expr.OptionAlike L e e') :
    e.map Expr.bare = e'.map Expr.bare := by
  cases h with
  | none => rfl
  | some h => rw [Option.map_some, Option.map_some, h.bare_eq hL]

theorem Param.bare_eq_of_alike (hL : L.Same) {ps ps' : List Param}
    (h : List.Forall₂ (Param.Alike L) ps ps') : ps.map Param.bare = ps'.map Param.bare := by
  induction h with
  | nil => rfl
  | cons hp _ ih => rw [List.map_cons, List.map_cons, ih, Param.bare, Param.bare, hL hp.name]

mutual

theorem Stmt.Alike.bare_eq (hL : L.Same) {s s' : Stmt} : Stmt.Alike L s s' → s.bare = s'.bare
  | .block hb => by rw [Stmt.bare, Stmt.bare, hb.bare_eq hL]
  | .expression _ he => by rw [Stmt.bare, Stmt.bare, he.bare_eq hL]
  | .function _ (.mk hn _ hps hb) => by
    rw [Stmt.bare, Stmt.bare, hL hn, Param.bare_eq_of_alike hL hps, hb.bare_eq hL]
  | .conditional _ he hb ho => by
    rw [Stmt.bare_conditional, Stmt.bare_conditional, he.bare_eq hL, hb.bare_eq hL,
      ho.bare_eq hL]
  | .print _ he => by rw [Stmt.bare, Stmt.bare, he.bare_eq hL]
  | .result _ _ hv => by rw [Stmt.bare, Stmt.bare, hv.bare_eq hL]
  | .loop _ he hb => by rw [Stmt.bare, Stmt.bare, he.bare_eq hL, hb.bare_eq hL]
  | .var _ hn _ hv => by rw [Stmt.bare, Stmt.bare, hL hn, hv.bare_eq hL]

theorem Block.Alike.bare_eq (hL : L.Same) {b b' : Block} : Block.Alike L b b' → b.bare = b'.bare
  | .mk _ hs => by rw [Block.bare, Block.bare, hs.bare_eq hL]

theorem Block.OptionAlike.bare_eq (hL : L.Same) {b b' : Option Block} :
    Block.OptionAlike L b b' → b.map Block.bare = b'.map Block.bare
  | .none => rfl
  | .some hb => by rw [Option.map_some, Option.map_some, hb.bare_eq hL]

theorem Stmt.AllAlike.bare_eq (hL : L.Same) {ss ss' : List Stmt} :
    Stmt.AllAlike L ss ss' → Stmt.allBare ss = Stmt.allBare ss'
  | .nil => rfl
  | .cons hs hss => by rw [Stmt.allBare, Stmt.allBare, hs.bare_eq hL, hss.bare_eq hL]

end

end Alike

end Tarn
