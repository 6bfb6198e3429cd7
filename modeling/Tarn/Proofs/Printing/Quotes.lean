import Tarn.Proofs.Lexing.Rules
import Tarn.Text.Quoted

/-! Quoted texts. The quotes enclose one text only, and it can be told where they close. -/
namespace Tarn.Text

theorem digitChar_inj {a b : Nat} (ha : a < 16) (hb : b < 16)
    (h : Nat.digitChar a = Nat.digitChar b) : a = b := by
  have hall : ∀ a b : Fin 16, Nat.digitChar a = Nat.digitChar b → a = b := by decide
  exact congrArg Fin.val (hall ⟨a, ha⟩ ⟨b, hb⟩ h)

theorem hex_small {n : Nat} (h : n < 16) : hex n = [Nat.digitChar n] := Nat.toDigits_of_lt_base h

theorem hex_large {n : Nat} (h : 16 ≤ n) : hex n = hex (n / 16) ++ [Nat.digitChar (n % 16)] :=
  Nat.toDigits_of_base_le (by decide) h

theorem hex_ne_nil (n : Nat) : hex n ≠ [] := Nat.toDigits_ne_nil

theorem hex_injective {a b : Nat} (h : hex a = hex b) : a = b := by
  induction a using Nat.strongRecOn generalizing b with
  | ind a ih =>
    rcases Nat.lt_or_ge a 16 with ha | ha <;> rcases Nat.lt_or_ge b 16 with hb | hb
    · rw [hex_small ha, hex_small hb] at h
      exact digitChar_inj ha hb (List.cons.inj h).1
    · rw [hex_small ha, hex_large hb, ← List.nil_append [Nat.digitChar a]] at h
      exact absurd (List.append_inj_left' h rfl).symm (hex_ne_nil _)
    · rw [hex_large ha, hex_small hb, ← List.nil_append [Nat.digitChar b]] at h
      exact absurd (List.append_inj_left' h rfl) (hex_ne_nil _)
    · rw [hex_large ha, hex_large hb] at h
      obtain ⟨hhigh, hlow⟩ := List.append_inj' h rfl
      have hdiv := ih (a / 16) (by omega) hhigh
      have hmod := digitChar_inj (Nat.mod_lt _ (by decide)) (Nat.mod_lt _ (by decide))
        (List.cons.inj hlow).1
      omega

theorem digitChar_ne_brace {n : Nat} (h : n < 16) : (Nat.digitChar n != '\x7d') = true := by
  have hall : ∀ n : Fin 16, (Nat.digitChar n != '\x7d') = true := by decide
  exact hall ⟨n, h⟩

theorem hex_ne_brace (n : Nat) : ∀ c ∈ hex n, (c != '\x7d') = true := by
  induction n using Nat.strongRecOn with
  | ind n ih =>
    rcases Nat.lt_or_ge n 16 with hn | hn
    · rw [hex_small hn, List.forall_mem_singleton]
      exact digitChar_ne_brace hn
    · rw [hex_large hn, List.forall_mem_append, List.forall_mem_singleton]
      exact ⟨ih (n / 16) (by omega), digitChar_ne_brace (Nat.mod_lt _ (by decide))⟩

/-- A code point ends at its brace. -/
theorem hex_append_inj {a b : Nat} {r r' : List Char}
    (h : hex a ++ '\x7d' :: r = hex b ++ '\x7d' :: r') : a = b ∧ r = r' := by
  have htake := congrArg (List.takeWhile (· != '\x7d')) h
  have hdrop := congrArg (List.dropWhile (· != '\x7d')) h
  rw [Lexeme.takeWhile_append_cons (hex_ne_brace a) rfl,
    Lexeme.takeWhile_append_cons (hex_ne_brace b) rfl] at htake
  rw [Lexeme.dropWhile_append_cons (hex_ne_brace a) rfl,
    Lexeme.dropWhile_append_cons (hex_ne_brace b) rfl] at hdrop
  exact ⟨hex_injective htake, (List.cons.inj hdrop).2⟩

/-- The characters that are written as a backslash and one other character, which is not `u`. -/
def shorthands : List (Char × Char) :=
  [('"', '"'), ('\\', '\\'), ('\n', 'n'), ('\r', 'r'), ('\t', 't'), ('\x00', '0')]

/-- The ways in which a character may stand inside double quotes. -/
inductive Escaped (c : Char) : List Char → Prop where
  | plain (hquote : c ≠ '"') (hescape : c ≠ '\\') : Escaped c [c]
  | short {e : Char} (h : (c, e) ∈ shorthands) : Escaped c ['\\', e]
  | point : Escaped c (codePoint c)

theorem shortEscape?_mem {c e : Char} (h : shortEscape? c = some e) : (c, e) ∈ shorthands := by
  unfold shortEscape? at h
  split at h
  case h_6 => cases h
  all_goals
    obtain rfl := Option.some.inj h
    decide

theorem escape_escaped (c : Char) : Escaped c (escape ['"'] c) := by
  by_cases hquote : c = '"'
  · subst hquote
    exact .short (by decide)
  have hcontains : ['"'].contains c = false := by simpa using hquote
  rw [escape, hcontains]
  cases hshort : shortEscape? c with
  | some e => exact .short (shortEscape?_mem hshort)
  | none =>
    have hescape : c ≠ '\\' := by
      rintro rfl
      cases hshort
    by_cases hprintable : (isPrintable c && !extendsGrapheme c) = true
    · rw [if_neg Bool.false_ne_true]
      dsimp only
      rw [if_pos hprintable]
      exact .plain hquote hescape
    · rw [if_neg Bool.false_ne_true]
      dsimp only
      rw [if_neg hprintable]
      exact .point

namespace Escaped

variable {c c' : Char} {text text' r r' : List Char}

theorem head (h : Escaped c text) : ∃ d ds, text = d :: ds ∧ d ≠ '"' := by
  cases h with
  | plain hquote _ => exact ⟨c, [], rfl, hquote⟩
  | short | point => exact ⟨_, _, rfl, by decide⟩

/-- Of two texts that begin alike the first character inside the quotes is the same. -/
theorem unique (h : Escaped c text) (h' : Escaped c' text') (heq : text ++ r = text' ++ r') :
    c = c' ∧ r = r' := by
  have hshort : ∀ p ∈ shorthands, p.2 ≠ 'u' ∧ ∀ q ∈ shorthands, p.2 = q.2 → p.1 = q.1 := by decide
  cases h <;> cases h'
  case plain.plain => exact ⟨(List.cons.inj heq).1, (List.cons.inj heq).2⟩
  case plain.short hescape _ _ => exact absurd (List.cons.inj heq).1 hescape
  case plain.point hescape => exact absurd (List.cons.inj heq).1 hescape
  case short.plain hescape => exact absurd (List.cons.inj heq).1.symm hescape
  case point.plain hescape => exact absurd (List.cons.inj heq).1.symm hescape
  case short.short hmem _ hmem' =>
    obtain ⟨he, hrest⟩ := List.cons.inj (List.cons.inj heq).2
    exact ⟨(hshort _ hmem).2 _ hmem' he, hrest⟩
  case short.point hmem =>
    exact absurd (List.cons.inj (List.cons.inj heq).2).1 (hshort _ hmem).1
  case point.short hmem =>
    exact absurd (List.cons.inj (List.cons.inj heq).2).1.symm (hshort _ hmem).1
  case point.point =>
    change '\\' :: 'u' :: '\x7b' :: (hex c.toNat ++ ['\x7d'] ++ r) =
      '\\' :: 'u' :: '\x7b' :: (hex c'.toNat ++ ['\x7d'] ++ r') at heq
    simp only [List.cons.injEq, true_and, List.append_assoc, List.singleton_append] at heq
    obtain ⟨hcode, hrest⟩ := hex_append_inj heq
    exact ⟨Char.toNat_inj.1 hcode, hrest⟩

end Escaped

theorem escape_append_inj {cs cs' r r' : List Char}
    (h : cs.flatMap (escape ['"']) ++ '"' :: r = cs'.flatMap (escape ['"']) ++ '"' :: r') :
    cs = cs' ∧ r = r' := by
  induction cs generalizing cs' with
  | nil =>
    cases cs' with
    | nil => exact ⟨rfl, (List.cons.inj h).2⟩
    | cons c' cs' =>
      obtain ⟨d, ds, htext, hne⟩ := (escape_escaped c').head
      rw [List.flatMap_cons, htext] at h
      exact absurd (List.cons.inj h).1.symm hne
  | cons c cs ih =>
    cases cs' with
    | nil =>
      obtain ⟨d, ds, htext, hne⟩ := (escape_escaped c).head
      rw [List.flatMap_cons, htext] at h
      exact absurd (List.cons.inj h).1 hne
    | cons c' cs' =>
      rw [List.flatMap_cons, List.flatMap_cons, List.append_assoc, List.append_assoc] at h
      obtain ⟨rfl, hrest⟩ := (escape_escaped c).unique (escape_escaped c') h
      obtain ⟨rfl, hr⟩ := ih hrest
      exact ⟨rfl, hr⟩

theorem toList_quoted (text : String) :
    (quoted text).toList = '"' :: (text.toList.flatMap (escape ['"']) ++ ['"']) := by
  rw [quoted, String.toList_ofList]
  rfl

/-- A quoted text tells what it encloses, whatever comes behind it. -/
theorem quoted_append_inj {text text' : String} {r r' : List Char}
    (h : (quoted text).toList ++ r = (quoted text').toList ++ r') : text = text' ∧ r = r' := by
  rw [toList_quoted, toList_quoted, List.cons_append, List.cons_append, List.append_assoc,
    List.append_assoc] at h
  obtain ⟨htext, hr⟩ := escape_append_inj (List.cons.inj h).2
  exact ⟨String.toList_inj.1 htext, hr⟩

end Tarn.Text
