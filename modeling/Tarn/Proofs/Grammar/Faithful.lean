import Tarn.Proofs.Grammar.Productions
import Tarn.Proofs.Lexing.Stream

/-! The places of a tree in the text that it was read from. Each part of a tree stands inside the
part that it belongs to, and where a token is remembered the text has that token. -/
namespace Tarn

namespace Text

/-- The offset is between characters, or at an end of the text. -/
def Boundary (cs : List Char) (n : Nat) : Prop := ∃ before after, cs = before ++ after ∧ size before = n

end Text

namespace Span

variable {place outer outer' a b : Span} {cs : List Char}

/-- The place lies in the other one. -/
structure In (place outer : Span) : Prop where
  start_le : outer.start ≤ place.start
  stop_le : place.stop ≤ outer.stop

theorem In.narrow {x x' y y' : Nat} (h : In ⟨x, y⟩ outer) (hx : x ≤ x') (hy : y' ≤ y) :
    In ⟨x', y'⟩ outer :=
  ⟨Nat.le_trans h.start_le hx, Nat.le_trans hy h.stop_le⟩

theorem covers_iff : place.Covers cs ↔
    Text.Boundary cs place.start ∧ Text.Boundary cs place.stop ∧ place.start < place.stop := by
  constructor
  · intro h
    have hlt := h.start_lt
    obtain ⟨before, text, after, rfl, -, rfl⟩ := h
    exact ⟨⟨before, _, rfl, rfl⟩,
      ⟨before ++ text, after, (List.append_assoc ..).symm, Text.size_append ..⟩, hlt⟩
  · rintro ⟨⟨before, rest, hcs, hstart⟩, ⟨before', after, hcs', hstop⟩, hlt⟩
    obtain ⟨text, rfl, rfl⟩ | ⟨text, rfl, -⟩ := List.append_eq_append_iff.1 (hcs.symm.trans hcs')
    · rw [Text.size_append] at hstop
      refine ⟨before, text, after, hcs, ?_, ?_⟩
      · rintro rfl
        rw [Text.size_nil] at hstop
        omega
      · rw [hstop, hstart]
    · rw [Text.size_append] at hstart
      omega

theorem Covers.merge (ha : a.Covers cs) (hb : b.Covers cs) : (a.merge b).Covers cs := by
  obtain ⟨hastart, hastop, halt⟩ := covers_iff.1 ha
  obtain ⟨hbstart, hbstop, hblt⟩ := covers_iff.1 hb
  refine covers_iff.2 ⟨?_, ?_, ?_⟩
  · rw [Span.merge]
    rcases Nat.le_total a.start b.start with hle | hle
    · rwa [Nat.min_eq_left hle]
    · rwa [Nat.min_eq_right hle]
  · rw [Span.merge]
    rcases Nat.le_total a.stop b.stop with hle | hle
    · rwa [Nat.max_eq_right hle]
    · rwa [Nat.max_eq_left hle]
  · exact Nat.lt_of_le_of_lt (Nat.min_le_left ..) (Nat.lt_of_lt_of_le halt (Nat.le_max_left ..))

/-- The place is a piece of the text `cs` and lies in the other place. -/
structure Within (place : Span) (cs : List Char) (outer : Span) : Prop extends place.In outer where
  covers : place.Covers cs

namespace Within

theorem refl (h : place.Covers cs) : place.Within cs place := ⟨⟨Nat.le_refl _, Nat.le_refl _⟩, h⟩

theorem mono (h : place.Within cs outer) (ho : outer.In outer') : place.Within cs outer' :=
  ⟨⟨Nat.le_trans ho.start_le h.start_le, Nat.le_trans h.stop_le ho.stop_le⟩, h.covers⟩

theorem le {x y : Nat} (h : place.Within cs ⟨x, y⟩) : x ≤ y :=
  Nat.le_trans h.start_le (Nat.le_trans (Nat.le_of_lt h.covers.start_lt) h.stop_le)

theorem merge (ha : a.Within cs outer) (hb : b.Within cs outer) :
    (a.merge b).Within cs outer ∧ a.Within cs (a.merge b) ∧ b.Within cs (a.merge b) := by
  refine ⟨⟨⟨?_, ?_⟩, ha.covers.merge hb.covers⟩, ⟨⟨?_, ?_⟩, ha.covers⟩, ⟨⟨?_, ?_⟩, hb.covers⟩⟩
  · exact Nat.le_min.2 ⟨ha.start_le, hb.start_le⟩
  · exact Nat.max_le.2 ⟨ha.stop_le, hb.stop_le⟩
  · exact Nat.min_le_left ..
  · exact Nat.le_max_left ..
  · exact Nat.min_le_right ..
  · exact Nat.le_max_right ..

/-- What reaches from a first part to a last one has both inside, and all that is between them. -/
theorem frame {x y z w : Nat} (ha : a.Within cs ⟨x, y⟩) (hb : b.Within cs ⟨z, w⟩) (h : y ≤ z) :
    (a.merge b).Within cs ⟨x, w⟩ ∧ a.Within cs (a.merge b) ∧ b.Within cs (a.merge b) ∧
      In ⟨y, z⟩ (a.merge b) := by
  have ha' := ha.mono (⟨Nat.le_refl _, Nat.le_trans h hb.le⟩ : In ⟨x, y⟩ ⟨x, w⟩)
  have hb' := hb.mono (⟨Nat.le_trans ha.le h, Nat.le_refl _⟩ : In ⟨z, w⟩ ⟨x, w⟩)
  obtain ⟨hspan, hfirst, hlast⟩ := ha'.merge hb'
  have hstart := Nat.le_trans (Nat.le_of_lt ha.covers.start_lt) ha.stop_le
  have hstop := Nat.le_trans hb.start_le (Nat.le_of_lt hb.covers.start_lt)
  exact ⟨hspan, hfirst, hlast, Nat.le_trans hfirst.start_le hstart,
    Nat.le_trans hstop hlast.stop_le⟩

end Within

/-- The place lies in the other one, and what the text has there is as `P` says. -/
def Reads (place : Span) (cs : List Char) (outer : Span) (P : List Char → Prop) : Prop :=
  place.Within cs outer ∧ P (place.charsIn cs)

theorem Reads.inside {P : List Char → Prop} (h : place.Reads cs outer P)
    (hplace : place.Within cs outer') : place.Reads cs outer' P := ⟨hplace, h.2⟩

end Span

/-- The name is that of the text. -/
def Name.Written (names : NameTable) (name : Name) (text : List Char) : Prop :=
  names.find? (String.ofList text) = some name

/-- How a literal is written. -/
def Literal.Written (names : NameTable) : Literal → List Char → Prop
  | .nil, text => text = "nil".toList
  | .bool true, text => text = "true".toList
  | .bool false, text => text = "false".toList
  | .number bits, text => Lexeme.number.Matches text ∧ Decimal.read text = bits
  | .string name, text => ∃ cs, text = '"' :: (cs ++ ['"']) ∧ '"' ∉ cs ∧ name.Written names cs

theorem Literal.written_of_kind {names : NameTable} {value : Literal} {text : List Char}
    (h : value.kind.Written names text) : value.Written names text := by
  rcases value with _ | (_ | _) | _ | _ <;> exact h

theorem BinaryOp.spelling_symbol (op : BinaryOp) : op.symbol.spelling = op.spelling := by
  cases op <;> rfl

theorem UnaryOp.spelling_symbol (op : UnaryOp) : op.symbol.spelling = op.spelling := by
  cases op <;> rfl

theorem LogicalOp.spelling_keyword (op : LogicalOp) : op.keyword.spelling = op.spelling := by
  cases op <;> rfl

/-- The condition that a `for` has if none is written. It takes up no text, and stands where the
semicolon starts that ends it. -/
def Expr.MadeUp (cs : List Char) (loop : Span) (e : Expr) : Prop :=
  ∃ keyword semicolon : Span, keyword.Reads cs loop (· = "for".toList) ∧
    keyword.start = loop.start ∧ semicolon.Reads cs loop (· = ";".toList) ∧
    e = .literal (Span.point semicolon.start) (.bool true)

section

variable (cs : List Char) (names : NameTable)

mutual

/-- The expression stands in the text `cs` inside the place `outer`, all its parts stand inside it,
and its tokens are there. -/
def Expr.Faithful (outer : Span) : Expr → Prop
  | .literal span value => span.Reads cs outer (value.Written names)
  | .var span name => span.Reads cs outer (name.Written names)
  | .grouping span inner => span.Within cs outer ∧ inner.Faithful span
  | .unary span op opSpan operand => span.Within cs outer ∧
      opSpan.Reads cs span (· = op.spelling.toList) ∧ operand.Faithful span
  | .binary span op opSpan left right => span.Within cs outer ∧
      opSpan.Reads cs span (· = op.spelling.toList) ∧ left.Faithful span ∧ right.Faithful span
  | .logical span op opSpan left right => span.Within cs outer ∧
      opSpan.Reads cs span (· = op.spelling.toList) ∧ left.Faithful span ∧ right.Faithful span
  | .assign span name nameSpan value => span.Within cs outer ∧
      nameSpan.Reads cs span (name.Written names) ∧ value.Faithful span
  | .call span callee paren args => span.Within cs outer ∧ callee.Faithful span ∧
      paren.Reads cs span (· = ")".toList) ∧ Expr.AllFaithful span args

def Expr.AllFaithful (outer : Span) : List Expr → Prop
  | [] => True
  | e :: es => e.Faithful outer ∧ Expr.AllFaithful outer es

end

def Expr.OptionFaithful (outer : Span) : Option Expr → Prop
  | none => True
  | some e => e.Faithful cs names outer

def Param.Faithful (outer : Span) (p : Param) : Prop :=
  p.span.Reads cs outer (p.name.Written names)

mutual

/-- The statement stands in the text `cs` inside the place `outer`, all its parts stand inside it,
and its tokens are there. -/
def Stmt.Faithful (outer : Span) : Stmt → Prop
  | .block body => body.Faithful outer
  | .expression span value => span.Within cs outer ∧ value.Faithful cs names span
  | .function span ⟨name, nameSpan, params, body⟩ => span.Within cs outer ∧
      nameSpan.Reads cs span (name.Written names) ∧ (∀ p ∈ params, p.Faithful cs names span) ∧
      body.Faithful span
  | .conditional span condition thenBranch none => span.Within cs outer ∧
      condition.Faithful cs names span ∧ thenBranch.Faithful span
  | .conditional span condition thenBranch (some elseBranch) => span.Within cs outer ∧
      condition.Faithful cs names span ∧ thenBranch.Faithful span ∧ elseBranch.Faithful span
  | .print span value => span.Within cs outer ∧ value.Faithful cs names span
  | .result span keyword value => span.Within cs outer ∧
      keyword.Reads cs span (· = "return".toList) ∧ Expr.OptionFaithful cs names span value
  | .loop span condition body => span.Within cs outer ∧
      (condition.Faithful cs names span ∨ condition.MadeUp cs span) ∧ body.Faithful span
  | .var span name nameSpan initializer => span.Within cs outer ∧
      nameSpan.Reads cs span (name.Written names) ∧ Expr.OptionFaithful cs names span initializer

def Block.Faithful (outer : Span) : Block → Prop
  | ⟨span, stmts⟩ => span.Within cs outer ∧ Stmt.AllFaithful span stmts

def Stmt.AllFaithful (outer : Span) : List Stmt → Prop
  | [] => True
  | s :: ss => s.Faithful outer ∧ Stmt.AllFaithful outer ss

end

end

section

variable {cs : List Char} {names : NameTable} {outer outer' : Span}

namespace Expr

theorem Faithful.span {e : Expr} (h : e.Faithful cs names outer) : e.span.Within cs outer := by
  cases e <;> exact h.1

/-- Only where the whole expression stands depends on what is around it. -/
theorem Faithful.inside {e : Expr} (h : e.Faithful cs names outer)
    (hspan : e.span.Within cs outer') : e.Faithful cs names outer' := by
  cases e <;> exact ⟨hspan, h.2⟩

theorem Faithful.mono {e : Expr} (h : e.Faithful cs names outer) (ho : outer.In outer') :
    e.Faithful cs names outer' := h.inside (h.span.mono ho)

theorem AllFaithful.mono {es : List Expr} (h : AllFaithful cs names outer es)
    (ho : outer.In outer') : AllFaithful cs names outer' es := by
  induction es with
  | nil => trivial
  | cons e es ih => exact ⟨h.1.mono ho, ih h.2⟩

theorem allFaithful_append {es es' : List Expr} (h : AllFaithful cs names outer es)
    (h' : AllFaithful cs names outer es') : AllFaithful cs names outer (es ++ es') := by
  induction es with
  | nil => exact h'
  | cons e es ih => exact ⟨h.1, ih h.2⟩

theorem OptionFaithful.mono {e : Option Expr} (h : OptionFaithful cs names outer e)
    (ho : outer.In outer') : OptionFaithful cs names outer' e := by
  cases e with
  | none => trivial
  | some e => exact Faithful.mono h ho

end Expr

theorem Param.Faithful.mono {p : Param} (h : p.Faithful cs names outer) (ho : outer.In outer') :
    p.Faithful cs names outer' := Span.Reads.inside h (h.1.mono ho)

theorem Block.Faithful.span {b : Block} (h : b.Faithful cs names outer) :
    b.span.Within cs outer := by
  cases b
  exact h.1

theorem Block.Faithful.inside {b : Block} (h : b.Faithful cs names outer)
    (hspan : b.span.Within cs outer') : b.Faithful cs names outer' := by
  cases b
  exact ⟨hspan, h.2⟩

theorem Block.Faithful.mono {b : Block} (h : b.Faithful cs names outer) (ho : outer.In outer') :
    b.Faithful cs names outer' := h.inside (h.span.mono ho)

namespace Stmt

theorem faithful_conditional {span : Span} {condition : Expr} {thenBranch : Block}
    {elseBranch : Option Block} :
    (conditional span condition thenBranch elseBranch).Faithful cs names outer ↔
      span.Within cs outer ∧ condition.Faithful cs names span ∧
        thenBranch.Faithful cs names span ∧ ∀ b ∈ elseBranch, b.Faithful cs names span := by
  cases elseBranch <;> simp [Faithful]

theorem faithful_function {span : Span} {decl : FunctionDecl} :
    (function span decl).Faithful cs names outer ↔ span.Within cs outer ∧
      decl.nameSpan.Reads cs span (decl.name.Written names) ∧
      (∀ p ∈ decl.params, p.Faithful cs names span) ∧ decl.body.Faithful cs names span := by
  cases decl
  rw [Faithful]

theorem Faithful.span {s : Stmt} (h : s.Faithful cs names outer) : s.span.Within cs outer := by
  cases s with
  | block body => exact Block.Faithful.span h
  | conditional => exact (faithful_conditional.1 h).1
  | function => exact (faithful_function.1 h).1
  | _ => exact h.1

/-- Only where the whole statement stands depends on what is around it. -/
theorem Faithful.inside {s : Stmt} (h : s.Faithful cs names outer)
    (hspan : s.span.Within cs outer') : s.Faithful cs names outer' := by
  cases s with
  | block body => exact Block.Faithful.inside h hspan
  | conditional => exact faithful_conditional.2 ⟨hspan, (faithful_conditional.1 h).2⟩
  | function => exact faithful_function.2 ⟨hspan, (faithful_function.1 h).2⟩
  | _ => exact ⟨hspan, h.2⟩

theorem Faithful.mono {s : Stmt} (h : s.Faithful cs names outer) (ho : outer.In outer') :
    s.Faithful cs names outer' := h.inside (h.span.mono ho)

theorem AllFaithful.mono {ss : List Stmt} (h : AllFaithful cs names outer ss)
    (ho : outer.In outer') : AllFaithful cs names outer' ss := by
  induction ss with
  | nil => trivial
  | cons s ss ih => exact ⟨h.1.mono ho, ih h.2⟩

theorem AllFaithful.within {ss : List Stmt} (h : AllFaithful cs names outer ss) :
    ∀ s ∈ ss, s.span.Within cs outer := by
  induction ss with
  | nil => exact nofun
  | cons s ss ih => exact List.forall_mem_cons.2 ⟨h.1.span, ih h.2⟩

end Stmt

end

end Tarn
