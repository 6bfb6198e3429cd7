import Mathlib.Logic.Relation
import Tarn.Proofs.Grammar.First
import Tarn.Proofs.Grammar.Nodes
import Tarn.Proofs.Parsing.Acceptance
import Tarn.Proofs.Parsing.Progress

/-! How tightly the operators of a tree bind. Parsing never puts an operator below one that binds
tighter, unless it stands in parentheses. -/
namespace Tarn

theorem Level.rank_pos {l : Level} : 0 < l.rank ↔ l ≠ assignment := by cases l <;> decide

namespace Expr

/-- The level at which the grammar has expressions of this form. -/
def level : Expr → Level
  | literal .. | var .. | grouping .. => .primary
  | unary .. => .unary
  | binary _ op .. => op.level
  | logical _ op .. => op.level
  | assign .. => .assignment
  | call .. => .call

/-- The operands of the expression are at the levels that its operator asks for. What stands in
parentheses and what is assigned may be at any level. -/
def KeepsPrecedence : Expr → Prop
  | binary _ op _ left right =>
      op.level.rank ≤ left.level.rank ∧ op.level.rank < right.level.rank
  | logical _ op _ left right =>
      op.level.rank ≤ left.level.rank ∧ op.level.rank < right.level.rank
  | unary _ _ _ operand => Level.unary.rank ≤ operand.level.rank
  | call _ callee _ _ => Level.call.rank ≤ callee.level.rank
  | literal .. | var .. | grouping .. | assign .. => True

/-- `Operand e f`: the operator of `e` applies to `f`. -/
inductive Operand : Expr → Expr → Prop where
  | unary {span op opSpan operand} : Operand (.unary span op opSpan operand) operand
  | binaryLeft {span op opSpan left right} : Operand (.binary span op opSpan left right) left
  | binaryRight {span op opSpan left right} : Operand (.binary span op opSpan left right) right
  | logicalLeft {span op opSpan left right} : Operand (.logical span op opSpan left right) left
  | logicalRight {span op opSpan left right} : Operand (.logical span op opSpan left right) right
  | callee {span callee paren args} : Operand (.call span callee paren args) callee

/-- The expression keeps precedence, and below it neither a looser operator nor an assignment can be
reached through operands alone. -/
structure Tight (e : Expr) : Prop where
  keeps : e.KeepsPrecedence
  below : ∀ f, Relation.TransGen Operand e f → e.level.rank ≤ f.level.rank ∧ f.level ≠ .assignment

variable {e f : Expr}

theorem Operand.level_ne_assignment (h : Operand e f) : e.level ≠ .assignment := by
  cases h with
  | unary | callee => exact nofun
  | @binaryLeft _ op | @binaryRight _ op => cases op <;> exact nofun
  | @logicalLeft _ op | @logicalRight _ op => cases op <;> exact nofun

theorem KeepsPrecedence.rank_le (he : e.KeepsPrecedence) (h : Operand e f) :
    e.level.rank ≤ f.level.rank := by
  cases h with
  | unary | callee => exact he
  | binaryLeft | logicalLeft => exact he.1
  | binaryRight | logicalRight => exact Nat.le_of_lt he.2

/-- An expression that keeps precedence is tight when its operands are. -/
theorem KeepsPrecedence.tight (he : e.KeepsPrecedence) (h : ∀ f, Operand e f → f.Tight) :
    e.Tight := by
  constructor
  · exact he
  · intro g hg
    obtain ⟨f, hef, hfg⟩ := Relation.TransGen.head'_iff.1 hg
    have hpos : 0 < e.level.rank := Level.rank_pos.2 hef.level_ne_assignment
    have hf : e.level.rank ≤ f.level.rank := he.rank_le hef
    have hle : e.level.rank ≤ g.level.rank := by
      rcases Relation.reflTransGen_iff_eq_or_transGen.1 hfg with rfl | hfg
      · exact hf
      · exact Nat.le_trans hf ((h f hef).below g hfg).1
    exact ⟨hle, Level.rank_pos.1 (Nat.lt_of_lt_of_le hpos hle)⟩

theorem mem_nodes (e : Expr) : .expr e ∈ e.nodes := by
  cases e <;> unfold nodes <;> exact List.mem_cons_self

/-- Operands are among the nodes below. -/
theorem Operand.mem_nodes (h : Operand e f) : .expr f ∈ e.nodes.tail := by
  cases h with
  | unary => exact f.mem_nodes
  | binaryLeft | logicalLeft | callee => exact List.mem_append_left _ f.mem_nodes
  | binaryRight | logicalRight => exact List.mem_append_right _ f.mem_nodes

end Expr

/-- An expression among the nodes is tight. -/
def Node.Tight : Node → Prop
  | expr e => e.Tight
  | body _ => True

/-- An expression that keeps precedence is tight when all expressions below it are. -/
theorem AllCode.tight_expr {e : Expr} {below : List Node} (he : e.KeepsPrecedence)
    (hnodes : e.nodes = .expr e :: below) (hbelow : AllCode Node.Tight below) :
    AllCode Node.Tight e.nodes := by
  have hoperands (f : Expr) (hf : Expr.Operand e f) : f.Tight := by
    have hmem := hf.mem_nodes
    rw [hnodes] at hmem
    exact hbelow _ hmem
  rw [hnodes]
  exact .cons (he.tight hoperands) hbelow

namespace Grammar

variable {mode : Mode}

/-- An expression that derives at a level is of this level or a tighter one. -/
theorem Expression.rank_le {l ts e rs} : Expression mode l ts e rs → l.rank ≤ e.level.rank
  | .tighter hl h => by
    have hrank := Level.rank_tighter? hl
    have hle := h.rank_le
    omega
  | .assign .. | .mistarget .. => Nat.zero_le _
  | .logical _ hop _ _ _ _ | .binary _ hop _ _ _ _ => by
    rw [← hop]
    exact Nat.le_refl _
  | .unary .. | .call .. | .literal .. | .var .. | .grouping .. => Nat.le_refl _

/-- An operator that derives at level `l` keeps precedence if its left side derives at `l` and its
right side at the next level. -/
theorem Expression.operands_rank {l l' op ts ts' left right rs rs'} (hop : op = l)
    (hl : l.tighter? = some l') (hleft : Expression mode l ts left rs)
    (hright : Expression mode l' ts' right rs') :
    op.rank ≤ left.level.rank ∧ op.rank < right.level.rank := by
  have hrank := Level.rank_tighter? hl
  have hle := hleft.rank_le
  have hle' := hright.rank_le
  rw [hop]
  constructor <;> omega

mutual

theorem Expression.tight {l ts e rs} : Expression mode l ts e rs → AllCode Node.Tight e.nodes
  | .tighter _ h => h.tight
  | .assign _ _ hv => .tight_expr trivial rfl hv.tight
  | .mistarget _ _ _ _ hv => hv.tight
  | .logical _ hop hl hleft _ hright =>
    .tight_expr (hleft.operands_rank hop hl hright) rfl (hleft.tight.append hright.tight)
  | .binary _ hop hl hleft _ hright =>
    .tight_expr (hleft.operands_rank hop hl hright) rfl (hleft.tight.append hright.tight)
  | .unary _ _ h => .tight_expr h.rank_le rfl h.tight
  | .call h _ hargs _ => .tight_expr h.rank_le rfl (h.tight.append hargs.tight)
  | .literal .. | .var .. => .tight_expr trivial rfl .nil
  | .grouping _ h _ => .tight_expr trivial rfl h.tight

theorem Arguments.tight {ts args rs} :
    Arguments mode ts args rs → AllCode Node.Tight (Expr.allNodes args)
  | .none => .nil
  | .some h => h.tight

theorem ArgumentList.tight {ts args rs} :
    ArgumentList mode ts args rs → AllCode Node.Tight (Expr.allNodes args)
  | .first h => .append h.tight .nil
  | .more h _ he => by
    rw [Expr.allNodes_append]
    exact .append h.tight (.append he.tight .nil)

end

theorem OptionalExpression.tight {ts e rs} :
    OptionalExpression mode ts e rs → AllCode Node.Tight (Expr.optionNodes e)
  | .none => .nil
  | .some h => h.tight

theorem VariableDeclaration.tight {ts stmt rs} :
    VariableDeclaration mode ts stmt rs → AllCode Node.Tight stmt.nodes
  | .plain .. => .nil
  | .initialized _ _ _ he _ => he.tight

theorem ExpressionStatement.tight {ts stmt rs} :
    ExpressionStatement mode ts stmt rs → AllCode Node.Tight stmt.nodes
  | .mk he _ => he.tight

theorem Initializer.tight {ts stmt rs} :
    Initializer mode ts stmt rs → AllCode Node.Tight (Stmt.allNodes stmt.toList)
  | .none _ => .nil
  | .var h => .append h.tight .nil
  | .expression h => .append h.tight .nil

/-- A `for` has the expressions of its clauses and of its body, and for a missing condition a
literal. -/
theorem tight_forTree {span semicolon : Span} {initializer : Option Stmt}
    {condition increment : Option Expr} {body : Block}
    (hinitializer : AllCode Node.Tight (Stmt.allNodes initializer.toList))
    (hcondition : AllCode Node.Tight (Expr.optionNodes condition))
    (hincrement : AllCode Node.Tight (Expr.optionNodes increment))
    (hbody : AllCode Node.Tight body.nodes) :
    AllCode Node.Tight (forTree span initializer condition semicolon increment body).nodes := by
  have hcondition' : AllCode Node.Tight
      (condition.getD (.literal (Span.point semicolon.start) (.bool true))).nodes := by
    cases condition with
    | none => exact .tight_expr trivial rfl .nil
    | some e => exact hcondition
  unfold forTree
  rw [Stmt.nodes, Block.nodes, Stmt.allNodes_append]
  apply AllCode.append hinitializer
  cases increment with
  | none => exact .append (.append hcondition' (.append hbody .nil)) .nil
  | some e => exact .append (.append hcondition' (.append hbody (.append hincrement .nil))) .nil

mutual

theorem Declaration.tight {inside ts stmt rs} :
    Declaration mode inside ts stmt rs → AllCode Node.Tight stmt.nodes
  | .function _ _ _ _ _ hb => .cons trivial hb.tight
  | .var h => h.tight
  | .expression h => h.tight
  | .forLoop _ hi hc _ hn hb => tight_forTree hi.tight hc.tight hn.tight hb.tight
  | .conditional h => h.tight
  | .print _ he _ => he.tight
  | .result _ hv _ => hv.tight
  | .whileLoop _ he hb => .append he.tight hb.tight
  | .block h => h.tight

theorem Conditional.tight {inside ts stmt rs} :
    Conditional mode inside ts stmt rs → AllCode Node.Tight stmt.nodes
  | .mk _ he hb helse => by
    rw [Stmt.nodes_conditional]
    exact .append he.tight (.append hb.tight helse.tight)

theorem Otherwise.tight {inside ts body rs} :
    Otherwise mode inside ts body rs → AllCode Node.Tight (Block.optionNodes body)
  | .none => .nil
  | .block _ h => h.tight
  | .chained _ h => .append h.tight .nil

theorem Braces.tight {inside ts body rs} :
    Braces mode inside ts body rs → AllCode Node.Tight body.nodes
  | .mk _ h _ => h.tight

theorem Declarations.tight {inside ts stmts rs} :
    Declarations mode inside ts stmts rs → AllCode Node.Tight (Stmt.allNodes stmts)
  | .nil => .nil
  | .cons h hs => .append h.tight hs.tight
  | .dropped _ _ _ hs => hs.tight

end

end Grammar

open Grammar Tarn.Parser

/-- Whatever the tokens are, in the statements that are read from them every operator has operands
of its own level or a tighter one, on its right only tighter ones. Below an operator a looser one or
an assignment stands only in parentheses or among the arguments of a call. -/
theorem parse_keeps_precedence (names : NameTable) (tokens : List Token) {e : Expr}
    (he : .expr e ∈ Stmt.allNodes (parse names tokens).statements) :
    e.KeepsPrecedence ∧ ∀ f, Relation.TransGen Expr.Operand e f →
      e.level.rank ≤ f.level.rank ∧ f.level ≠ .assignment := by
  obtain ⟨ts, rest, rfl, hts, hrest⟩ := Token.exists_endOfInput tokens
  have htight : e.Tight := (parse_derives names hrest hts).tight _ he
  exact ⟨htight.keeps, htight.below⟩

/-- `- 1 = 2 + 3; }`, where the assignment has no variable to assign to and the brace is stray. -/
def strayAssignment : List Token :=
  [⟨.symbol .minus, ⟨0, 1⟩⟩, ⟨.number 1, ⟨2, 3⟩⟩, ⟨.symbol .equal, ⟨4, 5⟩⟩, ⟨.number 2, ⟨6, 7⟩⟩,
    ⟨.symbol .plus, ⟨8, 9⟩⟩, ⟨.number 3, ⟨10, 11⟩⟩, ⟨.symbol .semicolon, ⟨11, 12⟩⟩,
    ⟨.symbol .rightBrace, ⟨13, 14⟩⟩]

/-- The sum is kept, without the left side of the assignment. -/
theorem parse_keeps_precedence_stray :
    (.expr (.binary ⟨6, 11⟩ .add ⟨8, 9⟩ (.literal ⟨6, 7⟩ (.number 2))
        (.literal ⟨10, 11⟩ (.number 3))) : Node) ∈
      Stmt.allNodes (parse NameTable.empty strayAssignment).statements ∧
    Level.term.rank ≤ Level.primary.rank ∧ Level.term.rank < Level.primary.rank := by
  have hmem : (.expr (.binary ⟨6, 11⟩ .add ⟨8, 9⟩ (.literal ⟨6, 7⟩ (.number 2))
      (.literal ⟨10, 11⟩ (.number 3))) : Node) ∈
        Stmt.allNodes (parse NameTable.empty strayAssignment).statements := .head _
  exact ⟨hmem, (parse_keeps_precedence NameTable.empty strayAssignment hmem).1⟩

end Tarn
