import Tarn.Proofs.Grammar.First
import Tarn.Syntax.Expression

/-! The tables of operators and the levels of the grammar at which their operators join. -/
namespace Tarn

/-- The level at which a token of this kind carries an expression on, if it does. -/
def TokenKind.level? : TokenKind → Option Level
  | symbol .equal => some .assignment
  | keyword .orKw => some .disjunction
  | keyword .andKw => some .conjunction
  | symbol .equalEqual | symbol .bangEqual => some .equality
  | symbol .less | symbol .lessEqual | symbol .greater | symbol .greaterEqual => some .comparison
  | symbol .plus | symbol .minus => some .term
  | symbol .star | symbol .slash => some .factor
  | symbol .leftParen => some .call
  | _ => none

@[simp] theorem BinaryOp.level?_symbol (op : BinaryOp) :
    TokenKind.level? (.symbol op.symbol) = some op.level := by cases op <;> rfl

@[simp] theorem LogicalOp.level?_keyword (op : LogicalOp) :
    TokenKind.level? (.keyword op.keyword) = some op.level := by cases op <;> rfl

namespace Parser

open Grammar

theorem literal?_eq_some {k : TokenKind} {value : Literal} :
    literal? k = some value ↔ k = value.kind := by
  constructor
  · intro h
    unfold literal? at h
    split at h <;> simp at h <;> subst h <;> rfl
  · rintro rfl
    cases value with
    | bool b => cases b <;> rfl
    | _ => rfl

theorem unaryOp?_eq_some {k : TokenKind} {op : UnaryOp} :
    unaryOp? k = some op ↔ k = .symbol op.symbol := by
  constructor
  · intro h
    unfold unaryOp? at h
    split at h <;> simp at h <;> subst h <;> rfl
  · rintro rfl
    cases op <;> rfl

/-- `op?` finds the binary operators of a level. -/
def FindsBinary (op? : TokenKind → Option BinaryOp) (l : Level) : Prop :=
  ∀ k op, op? k = some op ↔ op.level = l ∧ k = .symbol op.symbol

/-- `op?` finds the logical operators of a level. -/
def FindsLogical (op? : TokenKind → Option LogicalOp) (l : Level) : Prop :=
  ∀ k op, op? k = some op ↔ op.level = l ∧ k = .keyword op.keyword

theorem factorOp?_finds : FindsBinary factorOp? .factor := by
  intro k op
  constructor
  · intro h
    unfold factorOp? at h
    split at h <;> simp at h <;> subst h <;> exact ⟨rfl, rfl⟩
  · rintro ⟨h, rfl⟩
    cases op <;> cases h <;> rfl

theorem termOp?_finds : FindsBinary termOp? .term := by
  intro k op
  constructor
  · intro h
    unfold termOp? at h
    split at h <;> simp at h <;> subst h <;> exact ⟨rfl, rfl⟩
  · rintro ⟨h, rfl⟩
    cases op <;> cases h <;> rfl

theorem comparisonOp?_finds : FindsBinary comparisonOp? .comparison := by
  intro k op
  constructor
  · intro h
    unfold comparisonOp? at h
    split at h <;> simp at h <;> subst h <;> exact ⟨rfl, rfl⟩
  · rintro ⟨h, rfl⟩
    cases op <;> cases h <;> rfl

theorem equalityOp?_finds : FindsBinary equalityOp? .equality := by
  intro k op
  constructor
  · intro h
    unfold equalityOp? at h
    split at h <;> simp at h <;> subst h <;> exact ⟨rfl, rfl⟩
  · rintro ⟨h, rfl⟩
    cases op <;> cases h <;> rfl

theorem andOp?_finds : FindsLogical andOp? .conjunction := by
  intro k op
  constructor
  · intro h
    unfold andOp? at h
    split at h
    · cases h
      exact ⟨rfl, rfl⟩
    · cases h
  · rintro ⟨h, rfl⟩
    cases op <;> cases h
    rfl

theorem orOp?_finds : FindsLogical orOp? .disjunction := by
  intro k op
  constructor
  · intro h
    unfold orOp? at h
    split at h
    · cases h
      exact ⟨rfl, rfl⟩
    · cases h
  · rintro ⟨h, rfl⟩
    cases op <;> cases h
    rfl

/-- At level `l` the operators that `op?` finds join operands of the next tighter level `l'`, the
left ones first, and nothing else happens. -/
structure Joins {op : Type} (op? : TokenKind → Option op)
    (join : op → Span → Expr → Expr → Expr) (l l' : Level) : Prop where
  tighter : l.tighter? = some l'
  level {k : TokenKind} {o : op} (h : op? k = some o) : k.level? = some l
  found {k : TokenKind} (h : k.level? = some l) : ∃ o, op? k = some o
  node {mode ts t ts' o left right rs rs'} (ho : op? t.kind = some o)
    (hleft : Expression mode l ts left rs) (hright : Expression mode l' ts' right rs') :
    Expression mode l (ts ++ t :: ts') (join o t.span left right) (rs ++ rs')
  split {mode ts e rs} (h : Expression mode l ts e rs) : Expression mode l' ts e rs ∨
    ∃ ts₁ t ts₂ o left right rs₁ rs₂, op? t.kind = some o ∧ Expression mode l ts₁ left rs₁ ∧
      Expression mode l' ts₂ right rs₂ ∧ ts = ts₁ ++ t :: ts₂ ∧ e = join o t.span left right ∧
      rs = rs₁ ++ rs₂

theorem exists_binary_of_level? {k : TokenKind} {o : BinaryOp} (h : k.level? = some o.level) :
    ∃ op : BinaryOp, op.level = o.level ∧ k = .symbol op.symbol := by
  unfold TokenKind.level? at h
  split at h
  case h_4 => exact ⟨.equal, Option.some.inj h, rfl⟩
  case h_5 => exact ⟨.notEqual, Option.some.inj h, rfl⟩
  case h_6 => exact ⟨.less, Option.some.inj h, rfl⟩
  case h_7 => exact ⟨.lessEqual, Option.some.inj h, rfl⟩
  case h_8 => exact ⟨.greater, Option.some.inj h, rfl⟩
  case h_9 => exact ⟨.greaterEqual, Option.some.inj h, rfl⟩
  case h_10 => exact ⟨.add, Option.some.inj h, rfl⟩
  case h_11 => exact ⟨.sub, Option.some.inj h, rfl⟩
  case h_12 => exact ⟨.mul, Option.some.inj h, rfl⟩
  case h_13 => exact ⟨.div, Option.some.inj h, rfl⟩
  all_goals cases o <;> cases h

theorem exists_logical_of_level? {k : TokenKind} {o : LogicalOp} (h : k.level? = some o.level) :
    ∃ op : LogicalOp, op.level = o.level ∧ k = .keyword op.keyword := by
  unfold TokenKind.level? at h
  split at h
  case h_2 => exact ⟨.or, Option.some.inj h, rfl⟩
  case h_3 => exact ⟨.and, Option.some.inj h, rfl⟩
  all_goals cases o <;> cases h

theorem FindsBinary.joins {op? : TokenKind → Option BinaryOp} {l l' : Level}
    (h : FindsBinary op? l) (hl : l.tighter? = some l') (hop : ∃ op : BinaryOp, op.level = l) :
    Joins op? joinBinary l l' where
  tighter := hl
  level hk := by
    obtain ⟨hlevel, rfl⟩ := (h _ _).1 hk
    simp [hlevel]
  found hk := by
    obtain ⟨o, rfl⟩ := hop
    obtain ⟨op, hlevel, rfl⟩ := exists_binary_of_level? hk
    exact ⟨op, (h _ _).2 ⟨hlevel, rfl⟩⟩
  node ho hleft hright := by
    obtain ⟨hlevel, hk⟩ := (h _ _).1 ho
    exact .binary _ hlevel hl hleft hk hright
  split he := by
    obtain ⟨o, ho⟩ := hop
    cases he with
    | tighter hl' h' =>
      obtain rfl := Option.some.inj (hl.symm.trans hl')
      exact .inl h'
    | binary op hlevel hl' hleft hk hright =>
      obtain rfl := Option.some.inj (hl.symm.trans hl')
      exact .inr ⟨_, _, _, op, _, _, _, _, (h _ _).2 ⟨hlevel, hk⟩, hleft, hright, rfl, rfl, rfl⟩
    | logical op hlevel =>
      subst hlevel
      cases o <;> cases op <;> cases ho
    | _ => cases o <;> cases ho

theorem FindsLogical.joins {op? : TokenKind → Option LogicalOp} {l l' : Level}
    (h : FindsLogical op? l) (hl : l.tighter? = some l') (hop : ∃ op : LogicalOp, op.level = l) :
    Joins op? joinLogical l l' where
  tighter := hl
  level hk := by
    obtain ⟨hlevel, rfl⟩ := (h _ _).1 hk
    simp [hlevel]
  found hk := by
    obtain ⟨o, rfl⟩ := hop
    obtain ⟨op, hlevel, rfl⟩ := exists_logical_of_level? hk
    exact ⟨op, (h _ _).2 ⟨hlevel, rfl⟩⟩
  node ho hleft hright := by
    obtain ⟨hlevel, hk⟩ := (h _ _).1 ho
    exact .logical _ hlevel hl hleft hk hright
  split he := by
    obtain ⟨o, ho⟩ := hop
    cases he with
    | tighter hl' h' =>
      obtain rfl := Option.some.inj (hl.symm.trans hl')
      exact .inl h'
    | logical op hlevel hl' hleft hk hright =>
      obtain rfl := Option.some.inj (hl.symm.trans hl')
      exact .inr ⟨_, _, _, op, _, _, _, _, (h _ _).2 ⟨hlevel, hk⟩, hleft, hright, rfl, rfl, rfl⟩
    | binary op hlevel =>
      subst hlevel
      cases o <;> cases op <;> cases ho
    | _ => cases o <;> cases ho

theorem factor_joins : Joins factorOp? joinBinary .factor .unary :=
  factorOp?_finds.joins rfl ⟨.mul, rfl⟩

theorem term_joins : Joins termOp? joinBinary .term .factor :=
  termOp?_finds.joins rfl ⟨.add, rfl⟩

theorem comparison_joins : Joins comparisonOp? joinBinary .comparison .term :=
  comparisonOp?_finds.joins rfl ⟨.less, rfl⟩

theorem equality_joins : Joins equalityOp? joinBinary .equality .comparison :=
  equalityOp?_finds.joins rfl ⟨.equal, rfl⟩

theorem conjunction_joins : Joins andOp? joinLogical .conjunction .equality :=
  andOp?_finds.joins rfl ⟨.and, rfl⟩

theorem disjunction_joins : Joins orOp? joinLogical .disjunction .conjunction :=
  orOp?_finds.joins rfl ⟨.or, rfl⟩

end Parser

end Tarn
