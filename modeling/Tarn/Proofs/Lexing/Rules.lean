import Tarn.Token.Lexeme

/-! The rules of the lexical grammar. The first lexeme of a text is the longest match of any
rule. -/
namespace Tarn.Lexeme

/-- One digit or more. -/
def Digits (text : List Char) : Prop := text ≠ [] ∧ ∀ c ∈ text, isDigit c = true

/-- How each lexeme is written. A stray character is what no rule matches. -/
def Matches : Lexeme → List Char → Prop
  | blank, text => text ≠ [] ∧ ∀ c ∈ text, isBlank c = true
  | comment, text => ∃ cs, text = '/' :: '/' :: cs ∧ '\n' ∉ cs
  | symbol s, text => text = s.spelling.toList
  | word, text => ∃ c cs, text = c :: cs ∧ isWordStart c = true ∧ ∀ d ∈ cs, isWordPart d = true
  | number, text => Digits text ∨
      ∃ whole fraction, text = whole ++ '.' :: fraction ∧ Digits whole ∧ Digits fraction
  | string, text => ∃ cs, text = '"' :: (cs ++ ['"']) ∧ '"' ∉ cs
  | openString, text => ∃ cs, text = '"' :: cs ∧ '"' ∉ cs
  | stray _, _ => False

/-- No rule matches more of the text than `text`, before `rest`. -/
def Longest (text rest : List Char) : Prop :=
  ∀ (l : Lexeme) (p : List Char), l.Matches p → p <+: text ++ rest → p.length ≤ text.length

/-- No rule matches at `c`. -/
def Unmatched (c : Char) (rest : List Char) : Prop :=
  ∀ (l : Lexeme) (p : List Char), l.Matches p → ¬ p <+: c :: rest

theorem Matches.ne_nil {l : Lexeme} {text : List Char} (h : l.Matches text) : text ≠ [] := by
  cases l with
  | blank => exact h.1
  | symbol s => obtain rfl := h; cases s <;> decide
  | number =>
    obtain h | ⟨whole, fraction, rfl, -, -⟩ := h
    · exact h.1
    · simp
  | stray c => exact h.elim
  | comment | word | string | openString =>
    rintro rfl
    simp [Matches] at h

section TakeWhile

variable {p : Char → Bool} {a b cs : List Char}

theorem take_length_takeWhile (p : Char → Bool) (cs : List Char) :
    cs.take (cs.takeWhile p).length = cs.takeWhile p :=
  (List.prefix_iff_eq_take.1 (List.takeWhile_prefix p)).symm

theorem drop_length_takeWhile (p : Char → Bool) (cs : List Char) :
    cs.drop (cs.takeWhile p).length = cs.dropWhile p := by
  have h : (cs.takeWhile p ++ cs.dropWhile p).drop (cs.takeWhile p).length = cs.dropWhile p :=
    List.drop_left
  rwa [List.takeWhile_append_dropWhile] at h

theorem mem_takeWhile {c : Char} (h : c ∈ cs.takeWhile p) : p c = true :=
  List.all_eq_true.1 List.all_takeWhile c h

/-- Characters that hold on are among those that are taken. -/
theorem length_le_takeWhile (h : ∀ c ∈ a, p c = true) (hp : a <+: cs) :
    a.length ≤ (cs.takeWhile p).length := by
  obtain ⟨b, rfl⟩ := hp
  rw [List.takeWhile_append_of_pos h, List.length_append]
  omega

theorem takeWhile_append_cons (h : ∀ c ∈ a, p c = true) {c : Char} (hc : p c = false) :
    (a ++ c :: b).takeWhile p = a := by
  rw [List.takeWhile_append_of_pos h, List.takeWhile_cons, hc]
  simp

theorem dropWhile_append_cons (h : ∀ c ∈ a, p c = true) {c : Char} (hc : p c = false) :
    (a ++ c :: b).dropWhile p = c :: b := by
  rw [List.dropWhile_append_of_pos h, List.dropWhile_cons, hc]
  simp

theorem takeWhile_append_stop (h : ∀ c ∈ a, p c = true) (hstop : ∀ c ∈ b.head?, p c = false) :
    (a ++ b).takeWhile p = a := by
  cases b with
  | nil => rw [List.takeWhile_append_of_pos h, List.takeWhile_nil, List.append_nil]
  | cons c b => exact takeWhile_append_cons h (hstop c rfl)

theorem dropWhile_append_stop (h : ∀ c ∈ a, p c = true) (hstop : ∀ c ∈ b.head?, p c = false) :
    (a ++ b).dropWhile p = b := by
  cases b with
  | nil => rw [List.dropWhile_append_of_pos h, List.dropWhile_nil]
  | cons c b => exact dropWhile_append_cons h (hstop c rfl)

theorem ne_quote (h : '"' ∉ a) : ∀ c ∈ a, (c != '"') = true :=
  fun _ hc => bne_iff_ne.2 fun heq => h (heq ▸ hc)

end TakeWhile

section Classes

variable {c : Char}

theorem isBlank_iff : isBlank c = true ↔ c = ' ' ∨ c = '\t' ∨ c = '\r' ∨ c = '\n' := by
  simp [isBlank, or_assoc]

theorem not_isBlank_of_isWordStart (h : isWordStart c = true) : isBlank c = false := by
  refine Bool.eq_false_iff.2 fun hb => ?_
  obtain rfl | rfl | rfl | rfl := isBlank_iff.1 hb <;> revert h <;> decide

theorem not_isBlank_of_isDigit (h : isDigit c = true) : isBlank c = false := by
  refine Bool.eq_false_iff.2 fun hb => ?_
  obtain rfl | rfl | rfl | rfl := isBlank_iff.1 hb <;> revert h <;> decide

theorem not_isWordStart_of_isDigit (h : isDigit c = true) : isWordStart c = false := by
  simp only [isDigit, Bool.and_eq_true, decide_eq_true_eq, Char.le_def, UInt32.le_iff_toNat_le]
    at h
  simp only [isWordStart, Bool.or_eq_false_iff, Bool.and_eq_false_iff, decide_eq_false_iff_not,
    Char.le_def, UInt32.le_iff_toNat_le, beq_eq_false_iff_ne, ne_eq]
  refine ⟨⟨.inl ?_, .inl ?_⟩, ?_⟩
  · have : 'a'.val.toNat = 97 := rfl
    have : '9'.val.toNat = 57 := rfl
    omega
  · have : 'A'.val.toNat = 65 := rfl
    have : '9'.val.toNat = 57 := rfl
    omega
  · rintro rfl
    revert h
    decide

theorem spelling_of_single? {s : Symbol} (h : single? c = some s) : s.spelling.toList = [c] := by
  unfold single? at h
  split at h <;> cases h <;> rfl

theorem spelling_of_withEqual? {s : Symbol} (h : withEqual? c = some s) :
    s.spelling.toList = [c, '='] := by
  unfold withEqual? at h
  split at h <;> cases h <;> rfl

/-- What is a symbol alone belongs to no class of characters. -/
theorem classes_of_single? {s : Symbol} (h : single? c = some s) :
    isBlank c = false ∧ isWordStart c = false ∧ isDigit c = false ∧ c ≠ '"' := by
  unfold single? at h
  split at h <;> cases h <;> decide

theorem single?_of_withEqual? {s : Symbol} (h : withEqual? c = some s) :
    ∃ s', single? c = some s' := by
  unfold withEqual? at h
  split at h <;> cases h <;> exact ⟨_, rfl⟩

end Classes

/-- A symbol is one character, or one before `=`. -/
theorem spelling_cases (s : Symbol) :
    (∃ c, s.spelling.toList = [c] ∧ single? c = some s) ∨
      ∃ c, s.spelling.toList = [c, '='] ∧ withEqual? c = some s := by
  cases s
  case bangEqual => exact .inr ⟨'!', rfl, rfl⟩
  case equalEqual => exact .inr ⟨'=', rfl, rfl⟩
  case greaterEqual => exact .inr ⟨'>', rfl, rfl⟩
  case lessEqual => exact .inr ⟨'<', rfl, rfl⟩
  all_goals exact .inl ⟨_, rfl, rfl⟩

theorem spelling_injective {s s' : Symbol} (h : s.spelling.toList = s'.spelling.toList) :
    s = s' := by
  obtain ⟨c, hc, hs⟩ | ⟨c, hc, hs⟩ := spelling_cases s <;>
    obtain ⟨d, hd, hs'⟩ | ⟨d, hd, hs'⟩ := spelling_cases s' <;>
    rw [hc, hd] at h <;> cases h <;> exact Option.some.inj (hs.symm.trans hs')

theorem symbol?_eq_some {c : Char} {rest text : List Char} {s : Symbol}
    (h : symbol? c rest = some (s, text)) :
    text = s.spelling.toList ∧ text = c :: rest.take (text.length - 1) := by
  unfold symbol? at h
  split at h
  next s' rest hs =>
    obtain ⟨rfl, rfl⟩ := Prod.mk.inj (Option.some.inj h)
    exact ⟨(spelling_of_withEqual? hs).symm, rfl⟩
  next =>
    obtain ⟨s', hs, heq⟩ := Option.map_eq_some_iff.1 h
    obtain ⟨rfl, rfl⟩ := Prod.mk.inj heq
    exact ⟨(spelling_of_single? hs).symm, rfl⟩

theorem symbol?_ne_none {c : Char} {s : Symbol} (h : single? c = some s) (rest : List Char) :
    ∃ s' text, symbol? c rest = some (s', text) := by
  unfold symbol?
  split
  · exact ⟨_, _, rfl⟩
  · exact ⟨s, [c], by rw [h]; rfl⟩

section First

variable {c : Char} {rest : List Char}

theorem first_of_isBlank (h : isBlank c = true) :
    first c rest = (blank, (rest.takeWhile isBlank).length) := by
  rw [first, if_pos h]

theorem first_of_isWordStart (h : isWordStart c = true) :
    first c rest = (word, (rest.takeWhile isWordPart).length) := by
  rw [first, if_neg (by simp [not_isBlank_of_isWordStart h]), if_pos h]

theorem first_of_isDigit (h : isDigit c = true) :
    first c rest = (number, (rest.takeWhile isDigit).length +
      fractionLength (rest.dropWhile isDigit)) := by
  rw [first, if_neg (by simp [not_isBlank_of_isDigit h]),
    if_neg (by simp [not_isWordStart_of_isDigit h]), if_pos h]
  dsimp only
  rw [drop_length_takeWhile]

theorem first_quote : first '"' rest =
    if (rest.dropWhile (· != '"')).isEmpty then (openString, (rest.takeWhile (· != '"')).length)
      else (string, (rest.takeWhile (· != '"')).length + 1) := by
  rw [first, if_neg (by decide), if_neg (by decide), if_neg (by decide), if_pos rfl]
  dsimp only
  rw [drop_length_takeWhile]

theorem first_comment (h : rest.head? = some '/') :
    first '/' rest = (comment, (rest.takeWhile (· != '\n')).length) := by
  rw [first, if_neg (by decide), if_neg (by decide), if_neg (by decide), if_neg (by decide),
    if_pos ⟨rfl, h⟩]

theorem first_of_single? {s : Symbol} (h : single? c = some s)
    (hc : ¬ (c = '/' ∧ rest.head? = some '/')) :
    ∃ s' text, symbol? c rest = some (s', text) ∧ first c rest = (symbol s', text.length - 1) := by
  obtain ⟨hb, hw, hd, hq⟩ := classes_of_single? h
  obtain ⟨s', text, hs⟩ := symbol?_ne_none h rest
  refine ⟨s', text, hs, ?_⟩
  rw [first, if_neg (by simp [hb]), if_neg (by simp [hw]), if_neg (by simp [hd]), if_neg hq,
    if_neg hc, hs]

end First

theorem fractionLength_point (cs : List Char) :
    fractionLength ('.' :: cs) = match (cs.takeWhile isDigit).length with
      | 0 => 0
      | n + 1 => n + 2 := rfl

/-- A fraction is a point before digits, as many as there are. -/
theorem fractionLength_eq_zero_or (cs : List Char) :
    fractionLength cs = 0 ∨ ∃ fraction rest, cs = '.' :: (fraction ++ rest) ∧ Digits fraction ∧
      fractionLength cs = fraction.length + 1 := by
  unfold fractionLength
  split
  next cs =>
    split
    · exact .inl rfl
    next n hn =>
      refine .inr ⟨cs.takeWhile isDigit, cs.dropWhile isDigit, ?_, ⟨?_, fun c => mem_takeWhile⟩, ?_⟩
      · rw [List.takeWhile_append_dropWhile]
      · rw [← List.length_pos_iff]
        omega
      · omega
  next => exact .inl rfl

theorem le_fractionLength {fraction : List Char} (h : Digits fraction) (rest : List Char) :
    fraction.length + 1 ≤ fractionLength ('.' :: (fraction ++ rest)) := by
  have hle : fraction.length ≤ ((fraction ++ rest).takeWhile isDigit).length :=
    length_le_takeWhile h.2 (List.prefix_append _ _)
  have hpos := List.length_pos_iff.2 h.1
  rw [fractionLength_point]
  split
  · omega
  next n hn =>
    show fraction.length + 1 ≤ n + 1 + 1
    omega

/-- The first lexeme is a match of its rule, if it is no stray. -/
theorem first_matches (c : Char) (rest : List Char) :
    first c rest = (stray c, 0) ∨ (first c rest).1.Matches (c :: rest.take (first c rest).2) := by
  by_cases hblank : isBlank c = true
  · right
    rw [first_of_isBlank hblank, take_length_takeWhile]
    refine ⟨List.cons_ne_nil _ _, fun d hd => ?_⟩
    obtain rfl | hd := List.mem_cons.1 hd
    · exact hblank
    · exact mem_takeWhile hd
  by_cases hword : isWordStart c = true
  · right
    rw [first_of_isWordStart hword, take_length_takeWhile]
    exact ⟨c, _, rfl, hword, fun d => mem_takeWhile⟩
  by_cases hdigit : isDigit c = true
  · right
    have hwhole : Digits (c :: rest.takeWhile isDigit) := by
      refine ⟨List.cons_ne_nil _ _, fun d hd => ?_⟩
      obtain rfl | hd := List.mem_cons.1 hd
      · exact hdigit
      · exact mem_takeWhile hd
    rw [first_of_isDigit hdigit, List.take_add, take_length_takeWhile, drop_length_takeWhile]
    obtain hzero | ⟨fraction, rest', heq, hfraction, hlen⟩ :=
      fractionLength_eq_zero_or (rest.dropWhile isDigit)
    · rw [hzero]
      exact .inl (by simpa using hwhole)
    · rw [hlen, heq]
      exact .inr ⟨c :: rest.takeWhile isDigit, fraction, by simp, hwhole, hfraction⟩
  by_cases hquote : c = '"'
  · right
    subst hquote
    have hinside : '"' ∉ rest.takeWhile (· != '"') := by
      intro h
      simpa using mem_takeWhile h
    rw [first_quote]
    split
    · rw [take_length_takeWhile]
      exact ⟨_, rfl, hinside⟩
    next hend =>
      refine ⟨_, ?_, hinside⟩
      rcases hrest : rest.dropWhile (· != '"') with _ | ⟨d, rest'⟩
      · simp [hrest] at hend
      · have hd : d = '"' := by
          have := List.head_dropWhile_not (p := (· != '"')) (l := rest) (by simp [hrest])
          simpa [hrest] using this
        rw [List.take_add, take_length_takeWhile, drop_length_takeWhile, hrest, hd]
        rfl
  by_cases hslash : c = '/' ∧ rest.head? = some '/'
  · right
    obtain ⟨rfl, hhead⟩ := hslash
    rw [first_comment hhead, take_length_takeWhile]
    obtain ⟨rest, rfl⟩ := List.head?_eq_some_iff.1 hhead
    refine ⟨rest.takeWhile (· != '\n'), rfl, fun h => ?_⟩
    simpa using mem_takeWhile h
  rcases hsymbol : symbol? c rest with _ | ⟨s, text⟩
  · left
    rw [first, if_neg hblank, if_neg hword, if_neg hdigit, if_neg hquote, if_neg hslash, hsymbol]
  · right
    rw [first, if_neg hblank, if_neg hword, if_neg hdigit, if_neg hquote, if_neg hslash, hsymbol]
    obtain ⟨hs, htext⟩ := symbol?_eq_some hsymbol
    exact htext.symm.trans hs

/-- No match is longer than the first lexeme, and a match as long is by the same rule. -/
theorem first_longest {l : Lexeme} {c : Char} {p rest : List Char} (h : l.Matches p)
    (hp : p <+: c :: rest) :
    p.length ≤ (first c rest).2 + 1 ∧
      (p.length = (first c rest).2 + 1 → (first c rest).1 = l) := by
  obtain ⟨cs, rfl, hcs⟩ : ∃ cs, p = c :: cs ∧ cs <+: rest := by
    cases p with
    | nil => exact absurd rfl h.ne_nil
    | cons d cs =>
      obtain ⟨rfl, hcs⟩ := List.cons_prefix_cons.1 hp
      exact ⟨cs, rfl, hcs⟩
  rw [List.length_cons, Nat.add_le_add_iff_right, Nat.add_right_cancel_iff]
  cases l with
  | blank =>
    rw [first_of_isBlank (h.2 c (by simp))]
    exact ⟨length_le_takeWhile (fun d hd => h.2 d (by simp [hd])) hcs, fun _ => rfl⟩
  | comment =>
    obtain ⟨ds, heq, hds⟩ := h
    obtain ⟨rfl, rfl⟩ := List.cons.inj heq
    obtain ⟨rest, rfl⟩ := hcs
    rw [List.cons_append, first_comment rfl]
    refine ⟨length_le_takeWhile (fun d hd => ?_) (List.prefix_append ('/' :: ds) rest),
      fun _ => rfl⟩
    obtain rfl | hd := List.mem_cons.1 hd
    · decide
    · exact bne_iff_ne.2 fun heq => hds (heq ▸ hd)
  | word =>
    obtain ⟨_, _, heq, hc, hpart⟩ := h
    obtain ⟨rfl, rfl⟩ := List.cons.inj heq
    rw [first_of_isWordStart hc]
    exact ⟨length_le_takeWhile hpart hcs, fun _ => rfl⟩
  | number =>
    obtain h | ⟨whole, fraction, heq, hwhole, hfraction⟩ := h
    · rw [first_of_isDigit (h.2 c (by simp))]
      have hle := length_le_takeWhile (fun d hd => h.2 d (by simp [hd])) hcs
      exact ⟨by dsimp only; omega, fun _ => rfl⟩
    · obtain ⟨w, rfl, rfl⟩ : ∃ w, whole = c :: w ∧ cs = w ++ '.' :: fraction := by
        cases whole with
        | nil => exact absurd rfl hwhole.1
        | cons d w =>
          obtain ⟨rfl, rfl⟩ := List.cons.inj heq
          exact ⟨w, rfl, rfl⟩
      obtain ⟨rest, rfl⟩ := hcs
      have hw (d : Char) (hd : d ∈ w) : isDigit d = true := hwhole.2 d (by simp [hd])
      rw [first_of_isDigit (hwhole.2 c (by simp)), List.append_assoc, List.cons_append,
        takeWhile_append_cons hw rfl, dropWhile_append_cons hw rfl]
      have hle := le_fractionLength hfraction rest
      refine ⟨?_, fun _ => rfl⟩
      rw [List.length_append, List.length_cons]
      dsimp only
      omega
  | string =>
    obtain ⟨ds, heq, hds⟩ := h
    obtain ⟨rfl, rfl⟩ := List.cons.inj heq
    obtain ⟨rest, rfl⟩ := hcs
    rw [first_quote, List.append_assoc, List.singleton_append,
      takeWhile_append_cons (ne_quote hds) rfl, dropWhile_append_cons (ne_quote hds) rfl]
    exact ⟨by simp, fun _ => rfl⟩
  | openString =>
    obtain ⟨_, heq, hds⟩ := h
    obtain ⟨rfl, rfl⟩ := List.cons.inj heq
    have hle := length_le_takeWhile (ne_quote hds) hcs
    rw [first_quote]
    split
    · exact ⟨hle, fun _ => rfl⟩
    · exact ⟨by dsimp only; omega, fun hlen => by dsimp only at hlen; omega⟩
  | symbol s =>
    obtain ⟨d, hd, hs⟩ | ⟨d, hd, hs⟩ := spelling_cases s
    · obtain ⟨rfl, rfl⟩ := List.cons.inj (h.trans hd)
      refine ⟨by simp, fun hlen => ?_⟩
      by_cases hslash : c = '/' ∧ rest.head? = some '/'
      · obtain ⟨rfl, hhead⟩ := hslash
        obtain ⟨rest, rfl⟩ := List.head?_eq_some_iff.1 hhead
        rw [first_comment hhead] at hlen
        simp at hlen
      · obtain ⟨s', text, htext, hfirst⟩ := first_of_single? hs hslash
        rw [hfirst] at hlen ⊢
        obtain ⟨hspell, htake⟩ := symbol?_eq_some htext
        have hone : text = [c] := by
          rw [htake, ← show 0 = text.length - 1 from hlen]
          rfl
        rw [spelling_injective (hspell.symm.trans (hone.trans hd.symm))]
    · obtain ⟨rfl, rfl⟩ := List.cons.inj (h.trans hd)
      obtain ⟨rest, rfl⟩ := hcs
      obtain ⟨s', hs'⟩ := single?_of_withEqual? hs
      have hslash : ¬ (c = '/' ∧ (['='] ++ rest).head? = some '/') := by simp
      obtain ⟨s'', text, htext, hfirst⟩ := first_of_single? hs' hslash
      have hequal : symbol? c (['='] ++ rest) = some (s, [c, '=']) := by
        simp [symbol?, hs]
      obtain ⟨rfl, rfl⟩ := Prod.mk.inj (Option.some.inj (hequal.symm.trans htext))
      rw [hfirst]
      exact ⟨by simp, fun _ => rfl⟩
  | stray d => exact h.elim

/-- A match that no other exceeds is the first lexeme. -/
theorem first_of_longest {l : Lexeme} {c : Char} {cs rest : List Char}
    (h : l.Matches (c :: cs)) (hlongest : Longest (c :: cs) rest) :
    first c (cs ++ rest) = (l, cs.length) := by
  have hstart : c :: cs <+: c :: (cs ++ rest) := List.prefix_append (c :: cs) rest
  obtain ⟨hle, heq⟩ := first_longest h hstart
  rw [List.length_cons, Nat.add_le_add_iff_right] at hle
  rw [List.length_cons, Nat.add_right_cancel_iff] at heq
  obtain hstray | hfirst := first_matches c (cs ++ rest)
  · have hlen : cs.length = (first c (cs ++ rest)).2 := by
      rw [hstray] at hle ⊢
      exact Nat.le_zero.1 hle
    exact Prod.ext (heq hlen) hlen.symm
  · have hle' := hlongest _ _ hfirst (List.cons_prefix_cons.2 ⟨rfl, List.take_prefix _ _⟩)
    have hbound := first_length_le c (cs ++ rest)
    simp only [List.length_cons, List.length_take, Nat.add_le_add_iff_right] at hle'
    have hlen : cs.length = (first c (cs ++ rest)).2 := by omega
    exact Prod.ext (heq hlen) hlen.symm

/-- What is taken first is the longest match. -/
theorem longest_of_first {l : Lexeme} {c : Char} {cs rest : List Char}
    (h : first c (cs ++ rest) = (l, cs.length)) : Longest (c :: cs) rest := by
  intro l' p hp hprefix
  rw [List.cons_append] at hprefix
  have hlength := (first_longest hp hprefix).1
  rwa [h] at hlength

theorem first_of_unmatched {c : Char} {rest : List Char} (h : Unmatched c rest) :
    first c rest = (stray c, 0) := by
  refine (first_matches c rest).resolve_right fun hfirst => ?_
  exact h _ _ hfirst (List.cons_prefix_cons.2 ⟨rfl, List.take_prefix _ _⟩)

theorem unmatched_of_first {c d : Char} {rest : List Char} (h : first c rest = (stray d, 0)) :
    Unmatched c rest := by
  intro l p hl hp
  obtain ⟨hle, heq⟩ := first_longest hl hp
  rw [h] at hle heq
  have hpos := List.length_pos_iff.2 hl.ne_nil
  obtain rfl := heq (by dsimp only at hle ⊢; omega)
  exact hl

/-- The first lexeme is the longest match, or nothing matches. -/
theorem first_cases (c : Char) (rest : List Char) :
    Unmatched c rest ∨ ∃ (l : Lexeme) (cs rest' : List Char), rest = cs ++ rest' ∧
      l.Matches (c :: cs) ∧ Longest (c :: cs) rest' := by
  obtain hstray | hfirst := first_matches c rest
  · exact .inl (unmatched_of_first hstray)
  · refine .inr ⟨_, _, rest.drop (first c rest).2, (List.take_append_drop _ _).symm, hfirst, ?_⟩
    intro l p hl hp
    rw [List.cons_append, List.take_append_drop] at hp
    have hbound := first_length_le c rest
    have hle := (first_longest hl hp).1
    rw [List.length_cons, List.length_take]
    omega

end Tarn.Lexeme
