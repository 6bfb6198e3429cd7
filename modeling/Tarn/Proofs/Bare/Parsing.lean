import Mathlib.Data.Finset.Order
import Mathlib.Data.Fintype.EquivFin
import Tarn.Proofs.Bare.Trees
import Tarn.Proofs.Likeness.Statements

/-! Parsing does not look at places. Tokens of the same kinds give the same statements and the same
errors, but for the places of them. -/
namespace Tarn

namespace NameTable

/-- There are tables that know as many names as one likes. -/
theorem exists_size_gt (k : Nat) : ∃ t : NameTable, k < t.size := by
  induction k with
  | zero => exact ⟨.empty, Nat.one_pos⟩
  | succ k ih =>
    obtain ⟨t, ht⟩ := ih
    obtain ⟨text, htext⟩ := Infinite.exists_notMem_finset t.spellings.toList.toFinset
    rw [List.mem_toFinset] at htext
    refine ⟨t.add text htext, ?_⟩
    rw [size, add, Array.size_push]
    exact Nat.succ_lt_succ ht

theorem find?_spelling {t : NameTable} {n : Name} (h : n.index < t.size) :
    t.find? (t.spelling n) = some n := by
  obtain ⟨⟨spellings⟩, first, distinct⟩ := t
  have hlt : n.index < spellings.length := h
  have hspelling : spelling ⟨⟨spellings⟩, first, distinct⟩ n = spellings[n.index] := by
    rw [spelling, Array.getD_eq_getD_getElem?, List.getElem?_toArray, List.getElem?_eq_getElem hlt,
      Option.getD_some]
  have hindex : spellings.idxOf? spellings[n.index] = some n.index :=
    List.idxOf?_eq_some_iff.2
      ⟨hlt, rfl, fun j hj heq => hj.ne (distinct.getElem_inj_iff.1 heq)⟩
  rw [hspelling, find?, List.idxOf?_toArray, hindex]
  rfl

theorem sameSpelling_self {t : NameTable} {n : Name} (h : n.index < t.size) :
    t.SameSpelling t n n := ⟨_, find?_spelling h, find?_spelling h⟩

theorem SameSpelling.eq {t : NameTable} {n n' : Name} (h : t.SameSpelling t n n') : n = n' := by
  obtain ⟨text, hn, hn'⟩ := h
  exact Option.some.inj (hn.symm.trans hn')

end NameTable

/-- Anything may stand anywhere, but under its own name. -/
def Likeness.anywhere (t : NameTable) : Likeness := ⟨t, t, fun _ _ => True⟩

theorem Likeness.closed_anywhere (t : NameTable) : (Likeness.anywhere t).Closed :=
  ⟨fun _ _ => trivial, fun _ => trivial⟩

theorem Likeness.same_anywhere (t : NameTable) : (Likeness.anywhere t).Same :=
  fun _ _ h => NameTable.SameSpelling.eq h

/-- The name that a token has, if it has one. -/
def TokenKind.name? : TokenKind → Option Name
  | .identifier n | .string n => some n
  | _ => none

theorem TokenKind.alike_anywhere {t : NameTable} {k : TokenKind}
    (h : ∀ n ∈ k.name?, n.index < t.size) : TokenKind.Alike (.anywhere t) k k := by
  cases k with
  | symbol s => exact .symbol s
  | identifier n => exact .identifier (NameTable.sameSpelling_self (h n rfl))
  | string n => exact .string (NameTable.sameSpelling_self (h n rfl))
  | number bits => exact .number bits
  | keyword k => exact .keyword k
  | eof => exact .eof

/-- Some table knows the names of all tokens. -/
theorem exists_table (tokens : List Token) :
    ∃ t : NameTable, ∀ token ∈ tokens, ∀ n ∈ token.kind.name?, n.index < t.size := by
  obtain ⟨k, hk⟩ := ((tokens.filterMap (·.kind.name?)).map (·.index)).toFinset.exists_le
  obtain ⟨t, ht⟩ := NameTable.exists_size_gt k
  refine ⟨t, fun token htoken n hn => (hk _ ?_).trans_lt ht⟩
  rw [List.mem_toFinset]
  exact List.mem_map_of_mem (List.mem_filterMap.2 ⟨token, htoken, hn⟩)

/-- An error with its places forgotten. -/
def ParseError.bare (e : ParseError) : ParseError :=
  { e with span := .nowhere, related := e.related.map fun r => (.nowhere, r.2) }

theorem ParseError.Alike.bare_eq {L : Likeness} {e e' : ParseError} (h : ParseError.Alike L e e') :
    e.bare = e'.bare := by
  have hrelated : e.related.map (fun r => (Span.nowhere, r.2)) =
      e'.related.map fun r => (Span.nowhere, r.2) := by
    have hr := h.related
    generalize e.related = r at hr ⊢
    generalize e'.related = r' at hr ⊢
    cases hr with
    | none => rfl
    | some hr => rw [Option.map_some, Option.map_some, hr.2]
  rw [bare, bare, hrelated, h.code, h.message, h.context]

/-- Places do not matter for what is parsed. -/
theorem parse_bare (names : NameTable) {tokens tokens' : List Token}
    (hkinds : tokens.map (·.kind) = tokens'.map (·.kind)) :
    Stmt.allBare (parse names tokens).statements = Stmt.allBare (parse names tokens').statements ∧
      (parse names tokens).errors.map ParseError.bare =
        (parse names tokens').errors.map ParseError.bare := by
  -- The names of a table that knows them all are compared; the one that is given may know fewer.
  obtain ⟨t, ht⟩ := exists_table tokens
  have htokens : List.Forall₂ (Token.Alike (.anywhere t)) tokens tokens' := by
    rw [← List.forall₂_eq_eq_eq, List.forall₂_map_left_iff, List.forall₂_map_right_iff] at hkinds
    refine ((List.forall₂_and_left _ _).2 ⟨ht, hkinds⟩).imp fun token token' h => ⟨?_, trivial⟩
    rw [← h.2]
    exact TokenKind.alike_anywhere h.1
  obtain ⟨hstmts, herrors⟩ := parse_alike (Likeness.closed_anywhere t)
    (fun h => by rw [Likeness.same_anywhere t h]) htokens (.inr trivial)
  refine ⟨hstmts.bare_eq (Likeness.same_anywhere t), ?_⟩
  rw [← List.forall₂_eq_eq_eq, List.forall₂_map_left_iff, List.forall₂_map_right_iff]
  exact herrors.imp fun _ _ he => he.bare_eq

end Tarn
