import Tarn.Proofs.Semantics.Tracing

/-! Which code errors are blamed on. Functions bring the code along that they were declared in, so
it need not be the code that is run. -/
namespace Tarn

/-- What counts as code, said by the places in it. A part of code is code. -/
structure Codebase where
  Has : List Span → Prop
  mono {ps qs : List Span} (h : Has ps) (hqs : ∀ q ∈ qs, q ∈ ps) : Has qs

theorem Codebase.of_mem (C : Codebase) {place : Span} {ps : List Span} (h : C.Has ps)
    (hplace : place ∈ ps) : C.Has [place] :=
  C.mono h fun _ hp => List.mem_singleton.1 hp ▸ hplace

def Codebase.HasNode (C : Codebase) (n : Node) : Prop := C.Has n.places

variable {C : Codebase}

namespace Codebase.Has

variable {place : Span} {ps qs : List Span}

theorem tail (h : C.Has (place :: ps)) : C.Has ps :=
  C.mono h fun _ => List.mem_cons_of_mem _

theorem left (h : C.Has (ps ++ qs)) : C.Has ps :=
  C.mono h fun _ => List.mem_append_left _

theorem right (h : C.Has (ps ++ qs)) : C.Has qs :=
  C.mono h fun _ => List.mem_append_right _

mutual

theorem exprNodes : (e : Expr) → C.Has e.places → AllCode C.HasNode e.nodes
  | .literal .., h | .var .., h => .single h
  | .grouping _ inner, h => .cons h (exprNodes inner h.tail)
  | .unary _ _ _ operand, h => .cons h (exprNodes operand h.tail.tail)
  | .binary _ _ _ left right, h | .logical _ _ _ left right, h =>
    .cons h (.append (exprNodes left h.tail.tail.left) (exprNodes right h.tail.tail.right))
  | .assign _ _ _ value, h => .cons h (exprNodes value h.tail.tail)
  | .call _ callee _ args, h =>
    .cons h (.append (exprNodes callee h.tail.tail.left) (allExprNodes args h.tail.tail.right))

theorem allExprNodes : (es : List Expr) → C.Has (Expr.allPlaces es) →
    AllCode C.HasNode (Expr.allNodes es)
  | [], _ => .nil
  | e :: es, h => .append (exprNodes e h.left) (allExprNodes es h.right)

end

theorem optionNodes : (e : Option Expr) → C.Has (Expr.optionPlaces e) →
    AllCode C.HasNode (Expr.optionNodes e)
  | none, _ => .nil
  | some e, h => exprNodes e h

mutual

theorem stmtNodes : (s : Stmt) → C.Has s.places → AllCode C.HasNode s.nodes
  | .block body, h => blockNodes body h
  | .expression _ value, h | .print _ value, h => exprNodes value h.tail
  | .function _ ⟨_, _, _, body⟩, h =>
    .cons h.tail.tail.right (blockNodes body h.tail.tail.right)
  | .conditional _ condition thenBranch none, h =>
    .append (exprNodes condition h.tail.left) (blockNodes thenBranch h.tail.right)
  | .conditional _ condition thenBranch (some elseBranch), h =>
    .append (exprNodes condition h.tail.left)
      (.append (blockNodes thenBranch h.tail.right.left) (blockNodes elseBranch h.tail.right.right))
  | .result _ _ value, h => optionNodes value h.tail.tail
  | .loop _ condition body, h =>
    .append (exprNodes condition h.tail.left) (blockNodes body h.tail.right)
  | .var _ _ _ initializer, h => optionNodes initializer h.tail.tail

theorem blockNodes : (b : Block) → C.Has b.places → AllCode C.HasNode b.nodes
  | ⟨_, stmts⟩, h => allStmtNodes stmts h.tail

theorem allStmtNodes : (ss : List Stmt) → C.Has (Stmt.allPlaces ss) →
    AllCode C.HasNode (Stmt.allNodes ss)
  | [], _ => .nil
  | s :: ss, h => .append (stmtNodes s h.left) (allStmtNodes ss h.right)

end

end Codebase.Has

/-- A function is code if its body is. -/
theorem Closure.from_hasNode : Closure.From C.HasNode = fun f => C.Has f.decl.body.places := by
  ext f
  exact ⟨AllCode.head, fun h => .cons h (h.blockNodes f.decl.body)⟩

/-- The bodies of all functions in the world are code. -/
def World.Known (C : Codebase) (w : World) : Prop := w.Only fun f => C.Has f.decl.body.places

/-- Functions of the host give no functions but those that they are given. -/
def Context.Known (C : Codebase) (S : Context) : Prop := S.Only fun f => C.Has f.decl.body.places

/-- The error, if it is one, is blamed on a place in the code. -/
def Result.Known (C : Codebase) : Result Unit → Prop
  | .ok _ => True
  | .error e => ∃ place, e.span = some place ∧ C.Has [place]

namespace Semantics

variable {S : Context}

theorem Raises.place_mem {scope : Scope} {depth : Nat} {w w' : World} {e : Expr} {fault : Fault}
    {place : Span} (h : Raises S scope depth w e fault place w') : place ∈ e.places := by
  cases h <;> simp [Expr.places]

/-- A program brings only its own functions into the world, and its error is blamed on its own code
or on that of a function that was there. -/
theorem Runs.known (hS : S.Known C) {scope : Scope} {depth : Nat} {w w' : World}
    {stmts : List Stmt} {r : Result Unit} (h : Runs S scope depth w stmts r w')
    (hstmts : C.Has (Stmt.allPlaces stmts)) (hw : w.Known C) : w'.Known C ∧ r.Known C := by
  rw [Context.Known, ← Closure.from_hasNode] at hS
  rw [World.Known, ← Closure.from_hasNode] at hw
  obtain ⟨hw', herror⟩ := h.traced hS (.allStmtNodes stmts hstmts) hw
  rw [Closure.from_hasNode] at hw'
  refine ⟨hw', ?_⟩
  cases r with
  | ok _ => trivial
  | error e =>
    obtain ⟨-, hnode, hraises⟩ | ⟨s, hs, -, -, -, -, rfl⟩ := herror e rfl
    · exact ⟨_, rfl, C.of_mem hnode hraises.place_mem⟩
    · exact ⟨_, rfl, C.of_mem hstmts (Stmt.mem_allPlaces hs s.span_mem_places)⟩

end Semantics

end Tarn
