import Tarn.Proofs.Grammar.Productions

/-! With which tokens phrases of the grammar start. -/
namespace Tarn

/-- Whether an expression can start with a token of this kind. -/
def TokenKind.startsExpression : TokenKind → Bool
  | identifier _ | string _ | number _ => true
  | symbol s => s == .leftParen || s == .minus || s == .bang
  | keyword k => k == .nilKw || k == .trueKw || k == .falseKw
  | eof => false

theorem Literal.startsExpression_kind (v : Literal) : v.kind.startsExpression = true := by
  cases v with
  | bool b => cases b <;> rfl
  | _ => rfl

theorem Literal.kind_ne_eof (v : Literal) : v.kind ≠ .eof := by
  intro h
  have hv := v.startsExpression_kind
  rw [h] at hv
  cases hv

namespace Level

def rank : Level → Nat
  | assignment => 0
  | disjunction => 1
  | conjunction => 2
  | equality => 3
  | comparison => 4
  | term => 5
  | factor => 6
  | unary => 7
  | call => 8
  | primary => 9

theorem rank_le (l : Level) : l.rank ≤ rank .primary := by cases l <;> decide

theorem rank_tighter? {l l' : Level} (h : l.tighter? = some l') : l'.rank = l.rank + 1 := by
  cases l <;> cases h <;> rfl

end Level

namespace Grammar

variable {mode : Mode}

/-- `ts` starts with a token of which `p` holds. -/
def StartsWith (p : TokenKind → Bool) (ts : List Token) : Prop :=
  ∃ t rest, ts = t :: rest ∧ p t.kind = true

theorem StartsWith.append {p : TokenKind → Bool} {ts : List Token} (h : StartsWith p ts)
    (ts' : List Token) : StartsWith p (ts ++ ts') := by
  obtain ⟨t, rest, rfl, ht⟩ := h
  exact ⟨t, rest ++ ts', rfl, ht⟩

theorem StartsWith.of_cons {p : TokenKind → Bool} {t : Token} {ts : List Token}
    (h : StartsWith p (t :: ts)) : p t.kind = true := by
  obtain ⟨_, _, heq, ht⟩ := h
  obtain ⟨rfl, rfl⟩ := List.cons.inj heq
  exact ht

theorem StartsWith.ne_nil {p : TokenKind → Bool} {ts : List Token} (h : StartsWith p ts) :
    ts ≠ [] := by
  obtain ⟨t, rest, rfl, -⟩ := h
  simp

theorem Expression.startsWith {l ts e rs} :
    Expression mode l ts e rs → StartsWith TokenKind.startsExpression ts
  | .tighter _ h => h.startsWith
  | .assign ht _ _ => ⟨_, _, rfl, by simp [ht, TokenKind.startsExpression]⟩
  | .mistarget _ h _ _ _ => h.startsWith.append _
  | .logical _ _ _ h _ _ => h.startsWith.append _
  | .binary _ _ _ h _ _ => h.startsWith.append _
  | .unary op ht _ =>
    ⟨_, _, rfl, by cases op <;> simp [ht, TokenKind.startsExpression, UnaryOp.symbol]⟩
  | .call h _ _ _ => h.startsWith.append _
  | .literal value ht => ⟨_, _, rfl, by rw [ht]; exact value.startsExpression_kind⟩
  | .var ht => ⟨_, _, rfl, by simp [ht, TokenKind.startsExpression]⟩
  | .grouping ho _ _ => ⟨_, _, rfl, by simp [ho, TokenKind.startsExpression]⟩

theorem ArgumentList.startsWith {ts args rs} :
    ArgumentList mode ts args rs → StartsWith TokenKind.startsExpression ts
  | .first h => h.startsWith
  | .more h _ _ => h.startsWith.append _

theorem ParameterList.startsWith {ts params rs} (h : ParameterList ts params rs) :
    StartsWith TokenKind.startsExpression ts := by
  induction h with
  | first ht => exact ⟨_, _, rfl, by simp [ht, TokenKind.startsExpression]⟩
  | more _ _ _ ih => exact ih.append _

/-- Whether a primary expression can start with a token of this kind. -/
def startsPrimary : TokenKind → Bool
  | .symbol .minus | .symbol .bang => false
  | k => k.startsExpression

/-- From calls on, expressions do not start with an operator. -/
theorem Expression.startsWith_primary {l ts e rs} :
    Expression mode l ts e rs → Level.call.rank ≤ l.rank → StartsWith startsPrimary ts
  | .tighter hl h, hrank => h.startsWith_primary (by rw [Level.rank_tighter? hl]; omega)
  | .assign _ _ _, hrank | .mistarget _ _ _ _ _, hrank | .unary _ _ _, hrank => by
    simp [Level.rank] at hrank
  | .logical op hop _ _ _ _, hrank | .binary op hop _ _ _ _, hrank => by
    subst hop
    cases op <;> simp [Level.rank, LogicalOp.level, BinaryOp.level] at hrank
  | .call h _ _ _, _ => (h.startsWith_primary (Nat.le_refl _)).append _
  | .literal value ht, _ => by
    refine ⟨_, _, rfl, ?_⟩
    rw [ht]
    cases value with
    | bool b => cases b <;> rfl
    | _ => rfl
  | .var ht, _ => ⟨_, _, rfl, by rw [ht]; rfl⟩
  | .grouping ho _ _, _ => ⟨_, _, rfl, by rw [ho]; rfl⟩

theorem tighter?_ne_assignment {l l' : Level} (h : l.tighter? = some l') : l' ≠ .assignment := by
  rintro rfl
  cases Level.rank_tighter? h

/-- Only a single identifier derives to a variable, assignments left apart. -/
theorem Expression.eq_singleton_of_var {l ts e rs} (h : Expression mode l ts e rs)
    (hl : l ≠ .assignment) {span : Span} {name : Name} (he : e = .var span name) :
    ∃ t, ts = [t] ∧ t.kind = .identifier name ∧ t.span = span ∧ rs = [] := by
  cases h with
  | @tighter _ l' _ _ _ hl' h => exact h.eq_singleton_of_var (tighter?_ne_assignment hl') he
  | var ht =>
    obtain ⟨rfl, rfl⟩ := Expr.var.inj he
    exact ⟨_, rfl, ht, rfl, rfl⟩
  | mistarget => exact absurd rfl hl
  | _ => cases he
termination_by Level.rank .primary - l.rank
decreasing_by
  have := Level.rank_tighter? hl'
  have := Level.rank_le l'
  omega

/-- Whether a declaration can start with a token of this kind. -/
def startsDeclaration : TokenKind → Bool
  | .keyword .funKw | .keyword .varKw | .keyword .forKw | .keyword .ifKw | .keyword .printKw
  | .keyword .returnKw | .keyword .whileKw | .symbol .leftBrace => true
  | k => k.startsExpression

theorem startsDeclaration_of_startsExpression {k : TokenKind} (h : k.startsExpression = true) :
    startsDeclaration k = true := by
  unfold startsDeclaration
  split <;> first | rfl | exact h

theorem VariableDeclaration.startsWith {ts stmt rs} (h : VariableDeclaration mode ts stmt rs) :
    StartsWith (· == .keyword .varKw) ts := by
  cases h with
  | plain hv | initialized hv => exact ⟨_, _, rfl, by simp [hv]⟩

theorem ExpressionStatement.startsWith {ts stmt rs} (h : ExpressionStatement mode ts stmt rs) :
    StartsWith TokenKind.startsExpression ts := by
  cases h with
  | mk he _ => exact he.startsWith.append _

theorem Braces.startsWith {inside ts body rs} (h : Braces mode inside ts body rs) :
    StartsWith (· == .symbol .leftBrace) ts := by
  cases h with
  | mk ho _ _ => exact ⟨_, _, rfl, by simp [ho]⟩

theorem Conditional.startsWith {inside ts stmt rs} (h : Conditional mode inside ts stmt rs) :
    StartsWith (· == .keyword .ifKw) ts := by
  cases h with
  | mk hi _ _ _ => exact ⟨_, _, rfl, by simp [hi]⟩

theorem Declaration.startsWith {inside ts stmt rs} (h : Declaration mode inside ts stmt rs) :
    StartsWith startsDeclaration ts := by
  cases h with
  | function hf _ _ _ _ _ => exact ⟨_, _, rfl, by rw [hf]; rfl⟩
  | var h =>
    obtain ⟨t, rest, rfl, ht⟩ := h.startsWith
    exact ⟨t, rest, rfl, by rw [eq_of_beq ht]; rfl⟩
  | expression h =>
    obtain ⟨t, rest, rfl, ht⟩ := h.startsWith
    exact ⟨t, rest, rfl, startsDeclaration_of_startsExpression ht⟩
  | forLoop hf _ _ _ _ _ => exact ⟨_, _, rfl, by rw [hf]; rfl⟩
  | conditional h =>
    obtain ⟨t, rest, rfl, ht⟩ := h.startsWith
    exact ⟨t, rest, rfl, by rw [eq_of_beq ht]; rfl⟩
  | print hp _ _ => exact ⟨_, _, rfl, by rw [hp]; rfl⟩
  | result hr _ _ => exact ⟨_, _, rfl, by rw [hr]; rfl⟩
  | whileLoop hw _ _ => exact ⟨_, _, rfl, by rw [hw]; rfl⟩
  | block h =>
    obtain ⟨t, rest, rfl, ht⟩ := h.startsWith
    exact ⟨t, rest, rfl, by rw [eq_of_beq ht]; rfl⟩

theorem Expression.ne_nil {l ts e rs} (h : Expression mode l ts e rs) : ts ≠ [] :=
  h.startsWith.ne_nil

theorem Declaration.ne_nil {inside ts stmt rs} (h : Declaration mode inside ts stmt rs) :
    ts ≠ [] := h.startsWith.ne_nil

/-- What starts with `if` is a conditional. -/
theorem Declaration.toConditional {inside t ts stmt rs}
    (h : Declaration mode inside (t :: ts) stmt rs) (ht : t.kind = .keyword .ifKw) :
    Conditional mode inside (t :: ts) stmt rs := by
  have hstart {p : TokenKind → Bool} (hp : StartsWith p (t :: ts)) : p (.keyword .ifKw) = true :=
    ht ▸ hp.of_cons
  cases h with
  | conditional h => exact h
  | function hk | forLoop hk | print hk | result hk | whileLoop hk => cases ht.symm.trans hk
  | var h => cases h with
    | plain hk | initialized hk => cases ht.symm.trans hk
  | expression h => cases hstart h.startsWith
  | block h => cases hstart h.startsWith

end Grammar

end Tarn
