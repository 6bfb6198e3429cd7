/-! Texts measured and cut in UTF-8 bytes. -/
namespace Tarn.Text

/-- The bytes that the characters take in UTF-8. -/
def size : List Char → Nat
  | [] => 0
  | c :: cs => c.utf8Size + size cs

@[simp] theorem size_nil : size [] = 0 := rfl

@[simp] theorem size_cons (c : Char) (cs : List Char) : size (c :: cs) = c.utf8Size + size cs := rfl

@[simp] theorem size_append (a b : List Char) : size (a ++ b) = size a + size b := by
  induction a with
  | nil => rw [List.nil_append, size_nil, Nat.zero_add]
  | cons c a ih => rw [List.cons_append, size_cons, size_cons, ih, Nat.add_assoc]

theorem size_pos {cs : List Char} (h : cs ≠ []) : 0 < size cs := by
  cases cs with
  | nil => exact absurd rfl h
  | cons c cs => have := c.utf8Size_pos; simp; omega

theorem size_toList (s : String) : size s.toList = s.utf8ByteSize := by
  obtain ⟨cs, rfl⟩ : ∃ cs, s = String.ofList cs := ⟨s.toList, by simp⟩
  induction cs with
  | nil => simp
  | cons c cs ih =>
    have hsplit : String.ofList (c :: cs) = String.singleton c ++ String.ofList cs := by
      rw [String.singleton_eq_ofList, ← String.ofList_append]; rfl
    rw [String.toList_ofList] at ih ⊢
    rw [hsplit, String.utf8ByteSize_append, String.utf8ByteSize_singleton, ← ih, size_cons]

theorem size_replicate {c : Char} (hc : c.utf8Size = 1) (n : Nat) :
    size (List.replicate n c) = n := by
  induction n with
  | zero => rfl
  | succ n ih => rw [List.replicate_succ, size_cons, ih, hc, Nat.add_comm]

/-- A text of one character, over and over. -/
def fill (c : Char) (n : Nat) : String := String.ofList (List.replicate n c)

theorem toList_fill (c : Char) (n : Nat) : (fill c n).toList = List.replicate n c :=
  String.toList_ofList

theorem size_fill (c : Char) (hc : c.utf8Size = 1) (n : Nat) : (fill c n).utf8ByteSize = n := by
  rw [← size_toList, toList_fill, size_replicate hc]

/-- The characters from byte `n` on; none if `n` lies past the end or inside a character. -/
def drop? : List Char → Nat → Option (List Char)
  | cs, 0 => some cs
  | [], _ + 1 => none
  | c :: cs, n + 1 => if c.utf8Size ≤ n + 1 then drop? cs (n + 1 - c.utf8Size) else none

/-- The characters of the first `n` bytes; none if `n` lies past the end or inside a character. -/
def take? : List Char → Nat → Option (List Char)
  | _, 0 => some []
  | [], _ + 1 => none
  | c :: cs, n + 1 =>
      if c.utf8Size ≤ n + 1 then (take? cs (n + 1 - c.utf8Size)).map (c :: ·) else none

/-- The characters between two byte offsets. Empty if the offsets are out of order, past the end,
or split a character. -/
def slice (cs : List Char) (start stop : Nat) : List Char :=
  if start ≤ stop then ((drop? cs start).bind (take? · (stop - start))).getD [] else []

@[simp] theorem drop?_zero (cs : List Char) : drop? cs 0 = some cs := by cases cs <;> rfl

@[simp] theorem take?_zero (cs : List Char) : take? cs 0 = some [] := by cases cs <;> rfl

@[simp] theorem drop?_append (a b : List Char) : drop? (a ++ b) (size a) = some b := by
  induction a with
  | nil => simp
  | cons c a ih =>
    have := c.utf8Size_pos
    obtain ⟨n, hn⟩ : ∃ n, c.utf8Size + size a = n + 1 := ⟨c.utf8Size + size a - 1, by omega⟩
    have hle : c.utf8Size ≤ n + 1 := by omega
    have hsub : n + 1 - c.utf8Size = size a := by omega
    simp [hn, drop?, hle, hsub, ih]

@[simp] theorem take?_append (a b : List Char) : take? (a ++ b) (size a) = some a := by
  induction a with
  | nil => simp
  | cons c a ih =>
    have := c.utf8Size_pos
    obtain ⟨n, hn⟩ : ∃ n, c.utf8Size + size a = n + 1 := ⟨c.utf8Size + size a - 1, by omega⟩
    have hle : c.utf8Size ≤ n + 1 := by omega
    have hsub : n + 1 - c.utf8Size = size a := by omega
    simp [hn, take?, hle, hsub, ih]

theorem drop?_eq_some {cs rest : List Char} {n : Nat} :
    drop? cs n = some rest ↔ ∃ a, cs = a ++ rest ∧ size a = n := by
  constructor
  · intro h
    fun_induction drop? cs n with
    | case1 cs => exact ⟨[], by simpa using h, rfl⟩
    | case2 => simp at h
    | case3 c cs n hle ih =>
      obtain ⟨a, rfl, ha⟩ := ih h
      exact ⟨c :: a, rfl, by simp; omega⟩
    | case4 => simp at h
  · rintro ⟨a, rfl, rfl⟩
    exact drop?_append a rest

theorem take?_eq_some {cs a : List Char} {n : Nat} :
    take? cs n = some a ↔ a <+: cs ∧ size a = n := by
  constructor
  · intro h
    fun_induction take? cs n generalizing a with
    | case1 cs => simp at h; subst h; simp
    | case2 => simp at h
    | case3 c cs n hle ih =>
      obtain ⟨b, hb, rfl⟩ := Option.map_eq_some_iff.1 h
      obtain ⟨hp, hs⟩ := ih hb
      exact ⟨by simpa using hp, by simp; omega⟩
    | case4 => simp at h
  · rintro ⟨⟨b, rfl⟩, rfl⟩
    exact take?_append a b

theorem slice_append (a b c : List Char) :
    slice (a ++ b ++ c) (size a) (size a + size b) = b := by
  simp [slice]

end Tarn.Text
