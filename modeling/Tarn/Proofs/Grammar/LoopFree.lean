import Tarn.Proofs.Grammar.Productions

/-! Programs without loops. Loops are read off `while` and `for`, so where there is neither of the
two there is no loop. -/
namespace Tarn

mutual

/-- There is no loop, not even in the body of a function. -/
def Stmt.LoopFree : Stmt → Prop
  | .block body => body.LoopFree
  | .function _ ⟨_, _, _, body⟩ => body.LoopFree
  | .conditional _ _ thenBranch none => thenBranch.LoopFree
  | .conditional _ _ thenBranch (some elseBranch) => thenBranch.LoopFree ∧ elseBranch.LoopFree
  | .loop .. => False
  | .expression .. | .print .. | .result .. | .var .. => True

def Block.LoopFree : Block → Prop
  | ⟨_, stmts⟩ => Stmt.AllLoopFree stmts

def Stmt.AllLoopFree : List Stmt → Prop
  | [] => True
  | s :: ss => s.LoopFree ∧ Stmt.AllLoopFree ss

end

theorem Stmt.loopFree_conditional (span : Span) (condition : Expr) (thenBranch : Block)
    (elseBranch : Option Block) :
    (Stmt.conditional span condition thenBranch elseBranch).LoopFree ↔
      thenBranch.LoopFree ∧ ∀ body ∈ elseBranch, body.LoopFree := by
  cases elseBranch <;> simp [Stmt.LoopFree]

theorem Stmt.loopFree_function (span : Span) (decl : FunctionDecl) :
    (Stmt.function span decl).LoopFree ↔ decl.body.LoopFree := by
  cases decl
  rw [Stmt.LoopFree]

theorem Block.loopFree_iff (body : Block) : body.LoopFree ↔ Stmt.AllLoopFree body.stmts := by
  cases body
  rw [Block.LoopFree]

/-- Whether a loop starts with a token of this kind. -/
def TokenKind.startsLoop (k : TokenKind) : Bool :=
  k == .keyword .whileKw || k == .keyword .forKw

namespace Grammar

/-- No token is `while` or `for`. -/
def LoopFree (ts : List Token) : Prop := ∀ t ∈ ts, t.kind.startsLoop = false

namespace LoopFree

variable {t : Token} {ts ts' : List Token}

theorem tail (h : LoopFree (t :: ts)) : LoopFree ts := fun _ ht => h _ (List.mem_cons_of_mem _ ht)

theorem left (h : LoopFree (ts ++ ts')) : LoopFree ts := fun _ ht => h _ (List.mem_append_left _ ht)

theorem right (h : LoopFree (ts ++ ts')) : LoopFree ts' :=
  fun _ ht => h _ (List.mem_append_right _ ht)

theorem head_ne (h : LoopFree (t :: ts)) :
    t.kind ≠ .keyword .whileKw ∧ t.kind ≠ .keyword .forKw := by
  have hhead := h t List.mem_cons_self
  rw [TokenKind.startsLoop, Bool.or_eq_false_iff] at hhead
  exact hhead.imp ne_of_beq_false ne_of_beq_false

end LoopFree

variable {mode : Mode}

theorem VariableDeclaration.loopFree {ts stmt rs} (h : VariableDeclaration mode ts stmt rs) :
    stmt.LoopFree := by
  cases h <;> rw [Stmt.LoopFree] <;> trivial

theorem ExpressionStatement.loopFree {ts stmt rs} (h : ExpressionStatement mode ts stmt rs) :
    stmt.LoopFree := by
  cases h
  rw [Stmt.LoopFree]
  trivial

mutual

theorem Declaration.loopFree {inside ts stmt rs} :
    Declaration mode inside ts stmt rs → LoopFree ts → stmt.LoopFree
  | .function _ _ _ _ _ hb, hts => by
    rw [Stmt.loopFree_function]
    exact hb.loopFree hts.tail.tail.tail.right.tail
  | .var h, _ => h.loopFree
  | .expression h, _ => h.loopFree
  | .forLoop hf _ _ _ _ _, hts => absurd hf hts.head_ne.2
  | .conditional h, hts => h.loopFree hts
  | .print _ _ _, _ | .result _ _ _, _ => by
    rw [Stmt.LoopFree]
    trivial
  | .whileLoop hw _ _, hts => absurd hw hts.head_ne.1
  | .block h, hts => by
    rw [Stmt.LoopFree]
    exact h.loopFree hts

theorem Conditional.loopFree {inside ts stmt rs} :
    Conditional mode inside ts stmt rs → LoopFree ts → stmt.LoopFree
  | .mk _ _ hb helse, hts => by
    rw [Stmt.loopFree_conditional]
    exact ⟨hb.loopFree hts.tail.right.left, helse.loopFree hts.tail.right.right⟩

theorem Otherwise.loopFree {inside ts body rs} :
    Otherwise mode inside ts body rs → LoopFree ts → ∀ b ∈ body, b.LoopFree
  | .none, _ => nofun
  | .block _ h, hts => by
    rintro b ⟨⟩
    exact h.loopFree hts.tail
  | .chained _ h, hts => by
    rintro b ⟨⟩
    exact ⟨h.loopFree hts.tail, trivial⟩

theorem Braces.loopFree {inside ts body rs} :
    Braces mode inside ts body rs → LoopFree ts → body.LoopFree
  | .mk _ h _, hts => h.loopFree hts.tail.left

/-- Tokens without `while` and `for` derive to no loop. -/
theorem Declarations.loopFree {inside ts stmts rs} :
    Declarations mode inside ts stmts rs → LoopFree ts → Stmt.AllLoopFree stmts
  | .nil, _ => trivial
  | .cons h hs, hts => ⟨h.loopFree hts.left, hs.loopFree hts.right⟩
  | .dropped _ _ _ hs, hts => hs.loopFree hts.right

end

end Grammar

end Tarn
