import Tarn.Proofs.Lexing.Spellings
import Tarn.Proofs.Printing.Quotes
import Tarn.Syntax.Sexpr

/-! Nested lists as text. Where the texts of the atoms do not run into what is around them, the text of
a list tells its items. -/
namespace Tarn.Sexpr

/-- A character that does not occur in a text without quotes. -/
def delimits (c : Char) : Bool := c = ' ' || c = '(' || c = ')' || c = '"'

/-- The text ends where the item ends, or goes on with the next item. -/
def Delimited (cs : List Char) : Prop := ∀ c ∈ cs.head?, c = ' ' ∨ c = ')'

/-- A text that can be told from what is around it. -/
inductive Atom : String → Prop where
  | bare {text : String} (hne : text.toList ≠ []) (h : ∀ c ∈ text.toList, (!delimits c) = true) :
      Atom text
  | quoted (text : String) : Atom (Text.quoted text)

mutual

def Legible : Sexpr → Prop
  | atom text => Atom text
  | list items => AllLegible items

def AllLegible : List Sexpr → Prop
  | [] => True
  | x :: xs => x.Legible ∧ AllLegible xs

end

namespace Atom

variable {text text' : String} {r r' : List Char}

theorem of_all (h : (!text.toList.isEmpty && text.toList.all (!delimits ·)) = true) : Atom text := by
  obtain ⟨hne, hall⟩ := Bool.and_eq_true_iff.1 h
  refine .bare ?_ (List.all_eq_true.1 hall)
  intro hnil
  rw [hnil] at hne
  cases hne

theorem head (h : Atom text) : ∃ c cs, text.toList = c :: cs ∧ c ≠ ' ' ∧ c ≠ '(' ∧ c ≠ ')' := by
  cases h with
  | bare hne h =>
    obtain ⟨c, cs, htext⟩ := List.exists_cons_of_ne_nil hne
    have hc := h c (htext ▸ List.mem_cons_self)
    simp only [delimits, Bool.not_eq_true', Bool.or_eq_false_iff, decide_eq_false_iff_not] at hc
    exact ⟨c, cs, htext, hc.1.1.1, hc.1.1.2, hc.1.2⟩
  | quoted text => exact ⟨'"', _, Text.toList_quoted text, by decide⟩

theorem bare_ne_quoted (hne : text.toList ≠ []) (h : ∀ c ∈ text.toList, (!delimits c) = true)
    (other : String) : text.toList ++ r ≠ (Text.quoted other).toList ++ r' := by
  intro heq
  obtain ⟨c, cs, htext⟩ := List.exists_cons_of_ne_nil hne
  have hc := h c (htext ▸ List.mem_cons_self)
  rw [htext, Text.toList_quoted] at heq
  obtain rfl := (List.cons.inj heq).1
  cases hc

theorem unique (h : Atom text) (h' : Atom text') (hr : Delimited r) (hr' : Delimited r')
    (heq : text.toList ++ r = text'.toList ++ r') : text = text' ∧ r = r' := by
  have hstop {r : List Char} (hr : Delimited r) : ∀ c ∈ r.head?, (!delimits c) = false := by
    intro c hc
    rcases hr c hc with rfl | rfl <;> rfl
  cases h with
  | quoted text =>
    cases h' with
    | quoted text' =>
      obtain ⟨rfl, hrest⟩ := Text.quoted_append_inj heq
      exact ⟨rfl, hrest⟩
    | bare hne h' => exact absurd heq.symm (bare_ne_quoted hne h' text)
  | bare hne h =>
    cases h' with
    | quoted text' => exact absurd heq (bare_ne_quoted hne h text')
    | bare hne' h' =>
      have htake := congrArg (List.takeWhile (!delimits ·)) heq
      have hdrop := congrArg (List.dropWhile (!delimits ·)) heq
      rw [Lexeme.takeWhile_append_stop h (hstop hr),
        Lexeme.takeWhile_append_stop h' (hstop hr')] at htake
      rw [Lexeme.dropWhile_append_stop h (hstop hr),
        Lexeme.dropWhile_append_stop h' (hstop hr')] at hdrop
      exact ⟨String.toList_inj.1 htake, hdrop⟩

end Atom

/-- The items of a list with spaces between them. -/
def row (xs : List Sexpr) : List Char := [' '].intercalate ((renderAll xs).map String.toList)

/-- The items behind the first one, each with a space before it. -/
def more : List Sexpr → List Char
  | [] => []
  | x :: xs => ' ' :: row (x :: xs)

theorem row_cons (x : Sexpr) (xs : List Sexpr) : row (x :: xs) = x.render.toList ++ more xs := by
  cases xs with
  | nil => simp [row, more, renderAll]
  | cons y ys => simp [row, more, renderAll, List.intercalate_cons_cons]

theorem toList_render_list (items : List Sexpr) :
    (list items).render.toList = '(' :: (row items ++ [')']) := by
  simp [render, row]

theorem more_delimited (xs : List Sexpr) (r : List Char) : Delimited (more xs ++ ')' :: r) := by
  cases xs with
  | nil => exact fun c hc => .inr (Option.some.inj hc).symm
  | cons x xs => exact fun c hc => .inl (Option.some.inj hc).symm

theorem Legible.head {x : Sexpr} (h : x.Legible) :
    ∃ c cs, x.render.toList = c :: cs ∧ c ≠ ' ' ∧ c ≠ ')' := by
  cases x with
  | atom text =>
    rw [Legible] at h
    obtain ⟨c, cs, htext, hspace, -, hclose⟩ := h.head
    exact ⟨c, cs, by rwa [render], hspace, hclose⟩
  | list items => exact ⟨'(', _, toList_render_list items, by decide⟩

theorem atom_ne_list {text : String} (h : Atom text) (items : List Sexpr) {r r' : List Char} :
    (atom text).render.toList ++ r ≠ (list items).render.toList ++ r' := by
  intro heq
  obtain ⟨c, cs, htext, -, hopen, -⟩ := h.head
  rw [render, htext, toList_render_list] at heq
  exact hopen (List.cons.inj heq).1

theorem row_ne_close {x : Sexpr} (h : x.Legible) {xs : List Sexpr} {r r' : List Char} :
    row (x :: xs) ++ r ≠ ')' :: r' := by
  intro heq
  obtain ⟨c, cs, htext, -, hclose⟩ := h.head
  rw [row_cons, htext] at heq
  exact hclose (List.cons.inj heq).1

mutual

/-- The text of an item, with more text behind it that does not belong to it. -/
theorem unique : ∀ {x y : Sexpr} {r r' : List Char}, x.Legible → y.Legible → Delimited r →
    Delimited r' → x.render.toList ++ r = y.render.toList ++ r' → x = y ∧ r = r'
  | atom text, atom text', _, _, h, h', hr, hr', heq => by
    rw [Legible] at h h'
    rw [render, render] at heq
    obtain ⟨rfl, hrest⟩ := h.unique h' hr hr' heq
    exact ⟨rfl, hrest⟩
  | atom _, list items, _, _, h, _, _, _, heq => by
    rw [Legible] at h
    exact absurd heq (atom_ne_list h items)
  | list items, atom _, _, _, _, h', _, _, heq => by
    rw [Legible] at h'
    exact absurd heq.symm (atom_ne_list h' items)
  | list xs, list ys, _, _, h, h', _, _, heq => by
    rw [Legible] at h h'
    rw [toList_render_list, toList_render_list, List.cons_append, List.cons_append,
      List.append_assoc, List.append_assoc] at heq
    obtain ⟨rfl, hrest⟩ := unique_row h h' (List.cons.inj heq).2
    exact ⟨rfl, hrest⟩

theorem unique_row : ∀ {xs ys : List Sexpr} {r r' : List Char}, AllLegible xs → AllLegible ys →
    row xs ++ ')' :: r = row ys ++ ')' :: r' → xs = ys ∧ r = r'
  | [], [], _, _, _, _, heq => ⟨rfl, (List.cons.inj heq).2⟩
  | [], y :: ys, _, _, _, h', heq => by
    rw [AllLegible] at h'
    exact absurd heq.symm (row_ne_close h'.1)
  | x :: xs, [], _, _, h, _, heq => by
    rw [AllLegible] at h
    exact absurd heq (row_ne_close h.1)
  | x :: xs, y :: ys, r, r', h, h', heq => by
    rw [AllLegible] at h h'
    rw [row_cons, row_cons, List.append_assoc, List.append_assoc] at heq
    obtain ⟨rfl, hmore⟩ :=
      unique h.1 h'.1 (more_delimited xs r) (more_delimited ys r') heq
    match xs, ys, h.2, h'.2 with
    | [], [], _, _ => exact ⟨rfl, (List.cons.inj hmore).2⟩
    | [], _ :: _, _, _ => exact absurd (List.cons.inj hmore).1 (by decide)
    | _ :: _, [], _, _ => exact absurd (List.cons.inj hmore).1 (by decide)
    | x' :: xs', y' :: ys', hxs, hys =>
      obtain ⟨heqs, hrest⟩ := unique_row hxs hys (List.cons.inj hmore).2
      exact ⟨congrArg _ heqs, hrest⟩

end

/-- Legible items with the same text are the same. -/
theorem render_injective {x y : Sexpr} (h : x.Legible) (h' : y.Legible)
    (heq : x.render = y.render) : x = y := by
  have hnil : Delimited [] := nofun
  exact (unique h h' hnil hnil (by rw [heq])).1

end Tarn.Sexpr
