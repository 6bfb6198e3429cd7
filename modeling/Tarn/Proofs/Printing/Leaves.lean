import Tarn.Proofs.Likeness.Trees
import Tarn.Proofs.Printing.Legible

/-! The words of a printed program. What an atom shows can be told from its text, and so can the
construct that a list stands for. -/
namespace Tarn
open Lexeme

/-- What an atom of a program shows. -/
inductive Leaf where
  | word (text : String)
  | number (bits : UInt64)
  | quote (text : String)

namespace Leaf

def text : Leaf → String
  | word text => text
  | number bits => Decimal.print bits
  | quote text => Text.quoted text

def Legible : Leaf → Prop
  | word text => Lexeme.word.Matches text.toList
  | number bits => (Decimal.Double.ofBits bits).IsFinite
  | quote _ => True

/-- What the first character tells. -/
def Begins (c : Char) : Leaf → Prop
  | word _ => isWordStart c = true
  | number _ => isDigit c = true ∨ c = '-'
  | quote _ => c = '"'

variable {a b : Leaf}

/-- A finite number is printed as a number of the lexical grammar, perhaps with a sign before it. -/
theorem print_finite {bits : UInt64} (h : (Decimal.Double.ofBits bits).IsFinite) :
    ∃ cs, Lexeme.number.Matches cs ∧
      ((Decimal.print bits).toList = cs ∨ (Decimal.print bits).toList = '-' :: cs) := by
  obtain ⟨negative, x, hx⟩ := h
  refine ⟨x.printed, x.matches_printed, ?_⟩
  rw [Decimal.print, hx, String.toList_ofList]
  cases negative
  · exact .inl rfl
  · exact .inr rfl

theorem exists_begins (h : a.Legible) : ∃ c cs, a.text.toList = c :: cs ∧ a.Begins c := by
  cases a with
  | word text =>
    obtain ⟨c, cs, htext, hc, -⟩ := h
    exact ⟨c, cs, htext, hc⟩
  | number bits =>
    obtain ⟨cs, hcs, htext | htext⟩ := print_finite h
    · obtain ⟨c, cs, rfl, hc⟩ := exists_digit hcs
      exact ⟨c, cs, htext, .inl hc⟩
    · exact ⟨'-', cs, htext, .inr rfl⟩
  | quote text => exact ⟨'"', _, Text.toList_quoted text, rfl⟩

theorem not_number_of_isWordStart {c : Char} (h : isWordStart c = true) :
    ¬ (isDigit c = true ∨ c = '-') := by
  rintro (hdigit | rfl)
  · have hfalse := not_isWordStart_of_isDigit hdigit
    rw [h] at hfalse
    cases hfalse
  · cases h

theorem text_injective (h : a.Legible) (h' : b.Legible) (heq : a.text = b.text) : a = b := by
  obtain ⟨c, cs, htext, hc⟩ := exists_begins h
  obtain ⟨c', cs', htext', hc'⟩ := exists_begins h'
  rw [← heq, htext] at htext'
  obtain rfl := (List.cons.inj htext').1
  cases a with
  | word text =>
    cases b with
    | word text' => exact congrArg word heq
    | number bits => exact absurd hc' (not_number_of_isWordStart hc)
    | quote text' =>
      obtain rfl := hc'
      cases hc
  | number bits =>
    cases b with
    | word text' => exact absurd hc (not_number_of_isWordStart hc')
    | number bits' => exact congrArg number (Decimal.print_injective h h' heq)
    | quote text' =>
      obtain rfl := hc'
      rcases hc with hc | hc <;> cases hc
  | quote text =>
    obtain rfl := hc
    cases b with
    | word text' => cases hc'
    | number bits => rcases hc' with hc' | hc' <;> cases hc'
    | quote text' =>
      have happend := congrArg (fun text => text.toList ++ []) heq
      exact congrArg quote (Text.quoted_append_inj happend).1

theorem not_delimits {c : Char} (h : isWordPart c = true ∨ c = '.' ∨ c = '-') :
    (!Sexpr.delimits c) = true := by
  rw [Bool.not_eq_true', Bool.eq_false_iff]
  intro hc
  simp only [Sexpr.delimits, Bool.or_eq_true, decide_eq_true_eq] at hc
  rcases hc with ((rfl | rfl) | rfl) | rfl <;> revert h <;> decide

theorem mem_number {cs : List Char} (h : Lexeme.number.Matches cs) :
    ∀ c ∈ cs, isWordPart c = true ∨ c = '.' ∨ c = '-' := by
  have hdigits {ds : List Char} (hds : Digits ds) (c : Char) (hc : c ∈ ds) :
      isWordPart c = true ∨ c = '.' ∨ c = '-' :=
    .inl (Bool.or_eq_true_iff.2 (.inr (hds.2 c hc)))
  obtain h | ⟨whole, fraction, rfl, hwhole, hfraction⟩ := h
  · exact hdigits h
  · exact List.forall_mem_append.2 ⟨hdigits hwhole,
      List.forall_mem_cons.2 ⟨.inr (.inl rfl), hdigits hfraction⟩⟩

theorem atom (h : a.Legible) : Sexpr.Atom a.text := by
  obtain ⟨c, cs, htext, -⟩ := exists_begins h
  have hne : a.text.toList ≠ [] := htext ▸ List.cons_ne_nil c cs
  cases a with
  | word text =>
    obtain ⟨d, ds, hword, hd, hds⟩ := h
    refine .bare hne fun e he => not_delimits (.inl ?_)
    rw [Leaf.text, hword] at he
    rcases List.mem_cons.1 he with rfl | he
    · exact Bool.or_eq_true_iff.2 (.inl hd)
    · exact hds e he
  | number bits =>
    obtain ⟨ds, hds, htext | htext⟩ := print_finite h
    · refine .bare hne fun e he => not_delimits ?_
      rw [Leaf.text, htext] at he
      exact mem_number hds e he
    · refine .bare hne fun e he => not_delimits ?_
      rw [Leaf.text, htext] at he
      rcases List.mem_cons.1 he with rfl | he
      · exact .inr (.inr rfl)
      · exact mem_number hds e he
  | quote text => exact .quoted text

end Leaf

/-- The construct that a list of an expression stands for. -/
inductive Head where
  | group
  | unary (op : UnaryOp)
  | binary (op : BinaryOp)
  | logical (op : LogicalOp)
  | assign
  | call
deriving DecidableEq

namespace Head

def text : Head → String
  | group => "group"
  | unary op => op.spelling
  | binary op => op.spelling
  | logical op => op.spelling
  | assign => "="
  | call => "call"

/-- How many items follow. Calls have arguments in any number. -/
def count? : Head → Option Nat
  | group | unary _ => some 1
  | binary _ | logical _ | assign => some 2
  | call => none

def all : List Head :=
  [group, unary .neg, unary .not, assign, call, logical .and, logical .or] ++
    BinaryOp.all.map binary

theorem mem_all (a : Head) : a ∈ all := by
  cases a with
  | unary op | logical op | binary op => cases op <;> decide
  | group | assign | call => decide

theorem text_atom (a : Head) : Sexpr.Atom a.text := by
  cases a with
  | unary op | logical op | binary op => cases op <;> exact .of_all (by decide)
  | group | assign | call => exact .of_all (by decide)

/-- Only a difference and a negation have the same head, and they differ in the number of operands. -/
theorem eq_of_text {a b : Head} (h : a.text = b.text)
    (hcount : ∀ n ∈ a.count?, ∀ m ∈ b.count?, n = m) : a = b := by
  have hall : ∀ a ∈ all, ∀ b ∈ all, a.text = b.text → a = b ∨
      ∃ n ∈ a.count?, ∃ m ∈ b.count?, n ≠ m := by decide
  obtain rfl | ⟨n, hn, m, hm, hne⟩ := hall a a.mem_all b b.mem_all h
  · rfl
  · exact absurd (hcount n hn m hm) hne

end Head

/-- The construct that the list of a statement stands for. -/
inductive Statement where
  | block | expression | function | conditional | print | result | loop | var
deriving DecidableEq

namespace Statement

def text : Statement → String
  | block => "block"
  | expression => "expr"
  | function => "fun"
  | conditional => "if"
  | print => "print"
  | result => "return"
  | loop => "while"
  | var => "var"

theorem text_atom (a : Statement) : Sexpr.Atom a.text := by
  cases a <;> exact .of_all (by decide)

theorem text_injective {a b : Statement} (h : a.text = b.text) : a = b := by
  cases a <;> cases b <;> simp [text] at h ⊢

end Statement

end Tarn
