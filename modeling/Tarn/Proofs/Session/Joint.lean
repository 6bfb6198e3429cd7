import Tarn.Proofs.Lexing.Joint
import Tarn.Proofs.Parsing.Joint
import Tarn.Proofs.Session.Moving

/-! Compiling what is put together from texts. Line breaks in front of a text move it, and a text
that is joined to another by a line break is moved behind it. -/
namespace Tarn

/-- A text with `n` line breaks in front. -/
def lower (n : Nat) (source : String) : String := String.ofList (List.replicate n '\n') ++ source

theorem toList_lower (n : Nat) (source : String) :
    (lower n source).toList = List.replicate n '\n' ++ source.toList := by
  simp [lower]

@[simp] theorem lower_zero (source : String) : lower 0 source = source := by
  simp [lower]

theorem size_lower (n : Nat) (source : String) :
    (lower n source).utf8ByteSize = source.utf8ByteSize + n := by
  rw [← Text.size_toList, toList_lower, Text.size_append, Text.size_replicate rfl, Text.size_toList,
    Nat.add_comm]

/-- What is read of a text without errors. -/
structure Reads (t : NameTable) (source : String) (tokens : List Token) (t' : NameTable) :
    Prop where
  size : source.utf8ByteSize ≤ Span.maxOffset
  scan : Scan Text.isBlank t 0 source.toList tokens [] t'
  errors : (parse t' (tokens ++ [⟨.eof, Span.point source.utf8ByteSize⟩])).errors = []

namespace Reads

variable {t t' u : NameTable} {source first second : String} {tokens ts us : List Token}

theorem lex_eq (h : Reads t source tokens t') : lex source t =
    ⟨tokens ++ [⟨.eof, Span.point source.utf8ByteSize⟩], [], t'⟩ := h.scan.lex_eq h.size

theorem extends_names (h : Reads t source tokens t') : t.Extends t' := (h.scan.transport t).1

theorem ne_eof (h : Reads t source tokens t') : ∀ t ∈ tokens, t.kind ≠ .eof :=
  fun t ht => (h.scan.mem_tokens t ht).2

/-- A text compiles if it is read without errors. -/
theorem compile_eq {m : Machine} (h : Reads m.names source tokens t') :
    (m.compile source).1 =
        ⟨(parse t' (tokens ++ [⟨.eof, Span.point source.utf8ByteSize⟩])).statements, []⟩ ∧
      (m.compile source).2.names = t' := by
  rw [Machine.compile, h.lex_eq]
  simp [h.errors]

theorem of_compiles {m : Machine} (h : (m.compile source).1.diagnostics = []) :
    ∃ tokens, Reads m.names source tokens (m.compile source).2.names := by
  have hsize : source.utf8ByteSize ≤ Span.maxOffset := by
    apply Machine.size_le_of_compiles (m := m)
    rw [CompileOutput.hasErrors, h]
    rfl
  obtain ⟨tokens, errors, names, hscan⟩ := Scan.exists_scan Text.isBlank m.names 0 source.toList
  have hlex := hscan.lex_eq hsize
  obtain ⟨hlexed, hparsed⟩ := List.append_eq_nil_iff.1 h
  rw [hlex] at hlexed hparsed
  obtain rfl := List.map_eq_nil_iff.1 hlexed
  have hnames : (m.compile source).2.names = names := congrArg LexOutput.names hlex
  rw [hnames]
  exact ⟨tokens, hsize, hscan, List.map_eq_nil_iff.1 hparsed⟩

/-- Moving a text changes nothing but places. -/
theorem readMoved_eq (h : Reads t source tokens t') (n : Nat) :
    readMoved t source n = parse t' (tokens.map (·.shift n) ++
        [⟨.eof, Span.point (source.utf8ByteSize + n)⟩]) ∧
      (readMoved t source n).errors = [] := by
  have hmoved : readMoved t source n = parse t' (tokens.map (·.shift n) ++
      [⟨.eof, Span.point (source.utf8ByteSize + n)⟩]) := by
    rw [readMoved, h.lex_eq, List.map_append]
    rfl
  refine ⟨hmoved, List.eq_nil_of_length_eq_zero ?_⟩
  rw [(readMoved_alike t source n 0).2, readMoved_zero, h.lex_eq, h.errors]
  rfl

theorem lower (h : Reads t source tokens t') {n : Nat}
    (hsize : source.utf8ByteSize + n ≤ Span.maxOffset) :
    Reads t (lower n source) (tokens.map (·.shift n)) t' := by
  obtain ⟨hmoved, herrors⟩ := h.readMoved_eq n
  refine ⟨by rwa [size_lower], ?_, by rw [size_lower, ← hmoved, herrors]⟩
  have hscan := h.scan.shift n
  rw [toList_lower]
  cases n with
  | zero => exact hscan
  | succ n =>
    refine Scan.blank_append ⟨by simp, fun c hc => ?_⟩ (by rwa [Text.size_replicate rfl])
    rw [List.eq_of_mem_replicate hc]
    rfl

theorem join (h : Reads t first ts u) (h' : Reads u second us t')
    (hsize : (joined first second).utf8ByteSize ≤ Span.maxOffset) :
    Reads t (joined first second) (ts ++ us.map (·.shift (first.utf8ByteSize + 1))) t' ∧
      (parse t' (ts ++ us.map (·.shift (first.utf8ByteSize + 1)) ++
        [⟨.eof, Span.point (joined first second).utf8ByteSize⟩])).statements =
        (parse u (ts ++ [⟨.eof, Span.point first.utf8ByteSize⟩])).statements ++
          (readMoved u second (first.utf8ByteSize + 1)).statements := by
  obtain ⟨hmoved, herrors⟩ := h'.readMoved_eq (first.utf8ByteSize + 1)
  rw [hmoved] at herrors ⊢
  have hreal : ∀ t ∈ us.map (·.shift (first.utf8ByteSize + 1)), t.kind ≠ .eof := by
    intro _ hmoved
    obtain ⟨t, ht, rfl⟩ := List.mem_map.1 hmoved
    exact h'.ne_eof t ht
  obtain ⟨hstmts, hnone⟩ := parse_append t' (Span.point (joined first second).utf8ByteSize)
    h.ne_eof hreal h.errors herrors
  refine ⟨⟨hsize, ?_, hnone⟩, hstmts⟩
  have hscan := h'.scan.shift (first.utf8ByteSize + 1)
  rw [toList_joined]
  refine h.scan.append_newline nofun ?_
  rwa [Text.size_toList, Nat.add_assoc]

end Reads

end Tarn
