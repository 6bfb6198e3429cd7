import Tarn.Proofs.Lexing.Joint
import Tarn.Proofs.Session.Alike

/-! Texts that are submitted further on. The places in what is read of a text move along with it,
and those in older functions do not. By this an error shows where the blamed node comes from. -/
namespace Tarn

def Halt.shift (n : Nat) : Halt → Halt
  | .failed e => .failed { e with span := e.span.map (·.shift n) }
  | .exhausted => .exhausted

namespace Span

@[simp] theorem shift_zero (p : Span) : p.shift 0 = p := rfl

theorem shift_injective {p q : Span} {n : Nat} (h : p.shift n = q.shift n) : p = q := by
  obtain ⟨hstart, hstop⟩ := Span.mk.inj h
  cases p
  cases q
  simp only [Span.mk.injEq]
  exact ⟨Nat.add_right_cancel hstart, Nat.add_right_cancel hstop⟩

end Span

namespace Likeness

/-- The places of a text that is moved by `i` bytes and of the same text, moved by `j` bytes. -/
def moved (t : NameTable) (i j : Nat) : Likeness :=
  ⟨t, t, fun p p' => ∃ q : Span, p = q.shift i ∧ p' = q.shift j⟩

theorem closed_moved (t : NameTable) (i j : Nat) : (moved t i j).Closed where
  merge := by
    rintro _ _ _ _ ⟨p, rfl, rfl⟩ ⟨q, rfl, rfl⟩
    refine ⟨p.merge q, ?_, ?_⟩ <;>
      simp [Span.merge, Span.shift, Nat.add_min_add_right, Nat.add_max_add_right]
  point := by
    rintro _ _ ⟨p, rfl, rfl⟩
    exact ⟨Span.point p.start, rfl, rfl⟩

/-- Places of a text of one's own, which is moved, and places that were there before. -/
def mixed (t : NameTable) (held own : Span → Prop) (i j : Nat) : Likeness :=
  ⟨t, t, fun p p' => (p = p' ∧ held p) ∨ ∃ q, own q ∧ p = q.shift i ∧ p' = q.shift j⟩

end Likeness

/-- What is parsed of a source text that is moved by `n` bytes. -/
def readMoved (t : NameTable) (source : String) (n : Nat) : ParseOutput :=
  parse (lex source t).names ((lex source t).tokens.map (·.shift n))

section

variable (t : NameTable) (source : String)

theorem readMoved_zero :
    readMoved t source 0 = parse (lex source t).names (lex source t).tokens := by
  have hmap : (lex source t).tokens.map (·.shift 0) = (lex source t).tokens := by
    simp [Token.shift]
  rw [readMoved, hmap]

theorem readMoved_alike (i j : Nat) :
    Stmt.AllAlike (.moved (lex source t).names i j) (readMoved t source i).statements
        (readMoved t source j).statements ∧
      (readMoved t source i).errors.length = (readMoved t source j).errors.length := by
  obtain ⟨ts, span, hts, -⟩ := lex_tokens source t
  have htokens : List.Forall₂ (Token.Alike (.moved (lex source t).names i j))
      ((lex source t).tokens.map (·.shift i)) ((lex source t).tokens.map (·.shift j)) := by
    rw [List.forall₂_map_left_iff, List.forall₂_map_right_iff, List.forall₂_same]
    intro token htoken
    have hself := List.forall₂_same.1 (lex_alike source t t).2.2 token htoken
    exact ⟨hself.kind.imp (Likeness.namesIn_of_tables _ _ _ _), token.span, rfl, rfl⟩
  obtain ⟨hstmts, herrors⟩ := parse_alike (Likeness.closed_moved _ i j)
    NameTable.SameSpelling.spelling_eq htokens
    (.inl ⟨⟨.eof, span.shift i⟩, by simp [hts, Token.shift], rfl⟩)
  exact ⟨hstmts, herrors.length_eq⟩

theorem places_readMoved (n : Nat) : Stmt.allPlaces (readMoved t source n).statements =
    (Stmt.allPlaces (readMoved t source 0).statements).map (·.shift n) := by
  have hplaces := (readMoved_alike t source n 0).1.places.imp
    (S := fun p q => p = q.shift n) fun _ _ ⟨_, hp, hq⟩ => hq ▸ hp
  rw [← List.forall₂_map_right_iff, List.forall₂_eq_eq_eq] at hplaces
  exact hplaces

theorem readMoved_mixed (held : Span → Prop) (i j : Nat) :
    Stmt.AllAlike (.mixed (lex source t).names held
        (· ∈ Stmt.allPlaces (readMoved t source 0).statements) i j)
      (readMoved t source i).statements (readMoved t source j).statements := by
  refine (readMoved_alike t source i j).1.imp (Likeness.namesIn_of_tables _ _ _ _) ?_
  rintro p hp p' ⟨q, rfl, rfl⟩
  rw [places_readMoved] at hp
  obtain ⟨q', hq', heq⟩ := List.mem_map.1 hp
  obtain rfl := Span.shift_injective heq
  exact .inr ⟨q', hq', rfl, rfl⟩

end

theorem Machine.Alike.mixed {t : NameTable} {m m' : Machine} (h : Alike (.inPlace t t) m m')
    {held : Span → Prop} (hheld : ∀ f, m.world.Holds f → ∀ p ∈ f.decl.body.places, held p)
    (own : Span → Prop) (i j : Nat) : Alike (.mixed t held own i j) m m' := by
  refine ⟨h.left, h.right, h.env.imp (Likeness.namesIn_of_tables _ _ _ _) ?_, h.output,
    h.callDepth, h.maxCallDepth, h.functionCount, h.host, h.uniform, h.clock⟩
  rintro k name f hf p hp _ rfl
  exact .inl ⟨rfl, hheld f (holds_of_mem hf) p hp⟩

section Origin

variable {t : NameTable} {held own : Span → Prop} {far : Nat}

/-- What ends like `x` when the text is moved by `n` bytes instead of `far`. -/
abbrev EndsMoved (t : NameTable) (held own : Span → Prop) (far n : Nat) :
    Except Halt Unit → Except Halt Unit → Prop :=
  EndsAlike (Halt.Alike (.mixed t held own far n)) fun _ _ => True

/-- Far enough away, the places of the text can be told from those that were there before. The place
of an error is one of these or one of those, and accordingly it moves with the text or stays. -/
theorem exists_origin (hapart : ∀ p q : Span, held p → p ≠ q.shift far) {x y : Except Halt Unit}
    (h : EndsMoved t held own far 0 x y) : ∃ (moves : Bool) (r : Except Halt Unit),
      (∀ {n z}, EndsMoved t held own far n x z →
        z = r.mapError (·.shift (if moves then n else 0))) ∧
      ∀ e, r = .error (.failed e) → ∃ p, e.span = some p ∧ if moves then own p else held p := by
  cases h with
  | ok =>
    refine ⟨false, .ok (), fun hz => ?_, nofun⟩
    cases hz
    rfl
  | error h =>
    cases h with
    | exhausted =>
      refine ⟨false, .error .exhausted, fun hz => ?_, nofun⟩
      cases hz with
      | error hz =>
        cases hz
        rfl
    | @failed p p' fault hp =>
      obtain ⟨-, hheld⟩ | ⟨q, hown, rfl, -⟩ := hp
      · refine ⟨false, .error (.failed ⟨fault, some p⟩), fun hz => ?_, ?_⟩
        · cases hz with
          | error hz =>
            cases hz with
            | failed _ hp =>
              obtain ⟨rfl, -⟩ | ⟨q, -, rfl, -⟩ := hp
              · rfl
              · exact absurd rfl (hapart _ q hheld)
        · rintro e ⟨⟩
          exact ⟨p, rfl, hheld⟩
      · refine ⟨true, .error (.failed ⟨fault, some q⟩), fun hz => ?_, ?_⟩
        · cases hz with
          | error hz =>
            cases hz with
            | failed _ hp =>
              obtain ⟨-, hheld⟩ | ⟨q', -, hq, rfl⟩ := hp
              · exact absurd rfl (hapart _ q hheld)
              · obtain rfl := Span.shift_injective hq
                rfl
        · rintro e ⟨⟩
          exact ⟨q, rfl, hown⟩

end Origin

/-- A text ends with the same, wherever it stands, except that an error may move along with it. If
it does, it is at a place of the text, and else at one that was there before. -/
theorem interpret_moved (loops : Nat) {t : NameTable} {source : String} {m : Machine}
    (hself : Machine.Alike (.inPlace (lex source t).names (lex source t).names) m m)
    {held : Span → Prop} (hheld : ∀ f, m.world.Holds f → ∀ p ∈ f.decl.body.places, held p)
    {bound : Nat} (hbound : ∀ p, held p → p.start ≤ bound) :
    ∃ (moves : Bool) (r : Except Halt Unit),
      (∀ n m', Machine.Alike (.inPlace (lex source t).names (lex source t).names) m m' →
        (interpret loops (readMoved t source n).statements m').1 =
          r.mapError (·.shift (if moves then n else 0))) ∧
      ∀ e, r = .error (.failed e) → ∃ p, e.span = some p ∧
        if moves then p ∈ Stmt.allPlaces (readMoved t source 0).statements else held p := by
  have hends (n : Nat) (m' : Machine)
      (hm : Machine.Alike (.inPlace (lex source t).names (lex source t).names) m m') :=
    (interpret_alike loops (readMoved_mixed t source held (bound + 1) n)
      (hm.mixed hheld _ (bound + 1) n)).1
  have hapart (p q : Span) (hp : held p) : p ≠ q.shift (bound + 1) := by
    rintro rfl
    have hstart : q.start + (bound + 1) ≤ bound := hbound _ hp
    omega
  obtain ⟨moves, r, hmoved, horigin⟩ := exists_origin hapart (hends 0 m hself)
  exact ⟨moves, r, fun n m' hm => hmoved (hends n m' hm), horigin⟩

end Tarn
