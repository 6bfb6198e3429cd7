import Tarn.Proofs.Grammar.Places

/-! The nodes of a tree from which errors and functions come. -/
namespace Tarn

/-- An expression, or the body of a function. -/
inductive Node where
  | expr (e : Expr)
  | body (b : Block)

def Node.places : Node → List Span
  | expr e => e.places
  | body b => b.places

mutual

/-- An expression and all expressions inside it. -/
def Expr.nodes : Expr → List Node
  | e@(.literal ..) | e@(.var ..) => [.expr e]
  | e@(.grouping _ inner) => .expr e :: inner.nodes
  | e@(.unary _ _ _ operand) => .expr e :: operand.nodes
  | e@(.binary _ _ _ left right) | e@(.logical _ _ _ left right) =>
      .expr e :: (left.nodes ++ right.nodes)
  | e@(.assign _ _ _ value) => .expr e :: value.nodes
  | e@(.call _ callee _ args) => .expr e :: (callee.nodes ++ Expr.allNodes args)

def Expr.allNodes : List Expr → List Node
  | [] => []
  | e :: es => e.nodes ++ Expr.allNodes es

end

theorem Expr.allNodes_append (es es' : List Expr) :
    allNodes (es ++ es') = allNodes es ++ allNodes es' := by
  induction es with
  | nil => rfl
  | cons e es ih => rw [List.cons_append, allNodes, ih, allNodes, List.append_assoc]

def Expr.optionNodes : Option Expr → List Node
  | none => []
  | some e => e.nodes

mutual

/-- The expressions in a statement, and the bodies of functions with what is in them. -/
def Stmt.nodes : Stmt → List Node
  | .block body => body.nodes
  | .expression _ value | .print _ value => value.nodes
  | .function _ ⟨_, _, _, body⟩ => .body body :: body.nodes
  | .conditional _ condition thenBranch none => condition.nodes ++ thenBranch.nodes
  | .conditional _ condition thenBranch (some elseBranch) =>
      condition.nodes ++ (thenBranch.nodes ++ elseBranch.nodes)
  | .result _ _ value => Expr.optionNodes value
  | .loop _ condition body => condition.nodes ++ body.nodes
  | .var _ _ _ initializer => Expr.optionNodes initializer

def Block.nodes : Block → List Node
  | ⟨_, stmts⟩ => Stmt.allNodes stmts

def Stmt.allNodes : List Stmt → List Node
  | [] => []
  | s :: ss => s.nodes ++ Stmt.allNodes ss

end

theorem Stmt.allNodes_append (ss ss' : List Stmt) :
    allNodes (ss ++ ss') = allNodes ss ++ allNodes ss' := by
  induction ss with
  | nil => rfl
  | cons s ss ih => rw [List.cons_append, allNodes, ih, allNodes, List.append_assoc]

def Block.optionNodes : Option Block → List Node
  | none => []
  | some body => body.nodes

def FunctionDecl.nodes (d : FunctionDecl) : List Node := .body d.body :: d.body.nodes

theorem Block.nodes_eq (b : Block) : b.nodes = Stmt.allNodes b.stmts := by
  cases b
  rw [nodes]

theorem Stmt.nodes_function (span : Span) (d : FunctionDecl) : (function span d).nodes = d.nodes := by
  cases d
  rw [nodes]
  rfl

theorem Stmt.nodes_conditional (span : Span) (condition : Expr) (thenBranch : Block)
    (elseBranch : Option Block) : (conditional span condition thenBranch elseBranch).nodes =
      condition.nodes ++ (thenBranch.nodes ++ Block.optionNodes elseBranch) := by
  cases elseBranch <;> simp [nodes, Block.optionNodes]

/-- All of the nodes count as code. -/
def AllCode (Code : Node → Prop) (ns : List Node) : Prop := ∀ n ∈ ns, Code n

namespace AllCode

variable {Code : Node → Prop} {n : Node} {ns ns' : List Node}

theorem nil : AllCode Code [] := nofun

theorem cons (hn : Code n) (h : AllCode Code ns) : AllCode Code (n :: ns) :=
  List.forall_mem_cons.2 ⟨hn, h⟩

theorem single (hn : Code n) : AllCode Code [n] := cons hn nil

theorem append (h : AllCode Code ns) (h' : AllCode Code ns') : AllCode Code (ns ++ ns') :=
  List.forall_mem_append.2 ⟨h, h'⟩

theorem head (h : AllCode Code (n :: ns)) : Code n := h n List.mem_cons_self

theorem tail (h : AllCode Code (n :: ns)) : AllCode Code ns :=
  fun n hn => h n (List.mem_cons_of_mem _ hn)

theorem left (h : AllCode Code (ns ++ ns')) : AllCode Code ns :=
  fun n hn => h n (List.mem_append_left _ hn)

theorem right (h : AllCode Code (ns ++ ns')) : AllCode Code ns' :=
  fun n hn => h n (List.mem_append_right _ hn)

end AllCode

end Tarn
