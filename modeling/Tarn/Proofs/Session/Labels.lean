import Tarn.Proofs.Lexing.Stream
import Tarn.Proofs.Parsing.Errors
import Tarn.Proofs.Session.Compilation

/-! Where the diagnostics of a text point. Every label is put on a piece of the text. -/
namespace Tarn

/-- How the diagnostic `d` of the text `source` with the tokens `tokens` is labelled. -/
structure Diagnostic.Labelled (source : String) (tokens : List Token) (d : Diagnostic)
    (primary : Label) (secondary : Option Label) : Prop where
  labels : d.labels = primary :: secondary.toList
  isPrimary : primary.isPrimary = true ∧ ∀ l ∈ secondary, l.isPrimary = false
  covers : primary.span.Covers source.toList
  /-- A problem of syntax is put on a token, which is not the end of file. -/
  token : d.code.phase = .parser → ∃ t ∈ tokens, t.kind ≠ .eof ∧ t.span = primary.span
  /-- The second label stands for an unclosed delimiter. -/
  secondary_iff : secondary.isSome = true ↔ d.code = .unclosedDelimiter
  /-- It marks the delimiter, which stands no later. -/
  opener : ∀ l ∈ secondary, l.span.start ≤ primary.span.start ∧ ∃ t ∈ tokens, t.span = l.span ∧
    (t.kind = .symbol .leftParen ∧ Symbol.rightParen.AskedIn d.message ∨
      t.kind = .symbol .leftBrace ∧ Symbol.rightBrace.AskedIn d.message)

namespace Diagnostic.Labelled

variable {source : String} {tokens : List Token} {d : Diagnostic} {primary : Label}
  {secondary : Option Label}

theorem primarySpan?_eq (h : d.Labelled source tokens primary secondary) :
    d.primarySpan? = some primary.span := by
  rw [Diagnostic.primarySpan?, h.labels, List.find?_cons_of_pos h.isPrimary.1, Option.map_some]

/-- The problem is marked in the text. -/
theorem mark_le (h : d.Labelled source tokens primary secondary)
    (hsize : source.utf8ByteSize ≤ Span.maxOffset) :
    d.offset + d.length ≤ source.utf8ByteSize := by
  rw [Diagnostic.offset_eq h.primarySpan?_eq, Diagnostic.length_eq h.primarySpan?_eq]
  rw [← Text.size_toList] at hsize ⊢
  exact h.covers.mark_le hsize

end Diagnostic.Labelled

theorem LexError.labels_toDiagnostic (e : LexError) :
    ∃ message, e.toDiagnostic.labels = [⟨e.span, message, true⟩] := by
  obtain ⟨fault, span⟩ := e
  cases fault <;> exact ⟨_, rfl⟩

/-- An error of the lexer has one label. -/
theorem LexError.labelled {e : LexError} {source : String} (h : e.span.Covers source.toList)
    (tokens : List Token) :
    ∃ primary, e.toDiagnostic.Labelled source tokens primary none := by
  obtain ⟨message, hlabels⟩ := e.labels_toDiagnostic
  have hphase : e.toDiagnostic.code.phase = .lexer := e.code_toDiagnostic ▸ e.phase_code
  refine ⟨⟨e.span, message, true⟩, hlabels, ⟨rfl, nofun⟩, h, ?_, ?_, nofun⟩
  · rw [hphase]
    exact nofun
  · refine ⟨nofun, fun hcode => ?_⟩
    rw [hcode] at hphase
    cases hphase

/-- The tokens stand in the order of the text, and all but the end of file on pieces of it. -/
structure Token.Placed (source : String) (tokens : List Token) : Prop where
  covers : ∀ t ∈ tokens, t.kind ≠ .eof → t.span.Covers source.toList
  ordered : tokens.Pairwise fun t t' => t.span.start ≤ t'.span.start

/-- An error of the parser has a second label for the delimiter that was opened, if there is one. -/
theorem ParseError.labelled {e : ParseError} {source : String} {tokens : List Token}
    (h : e.Sited tokens) (htokens : Token.Placed source tokens) :
    ∃ primary secondary, e.toDiagnostic.Labelled source tokens primary secondary := by
  obtain ⟨before, t, after, rfl, hreal, hspan, hrelated, hopening⟩ := h
  have hmem : t ∈ before ++ t :: after := by simp
  have hcovers : e.span.Covers source.toList := hspan ▸ htokens.covers t hmem hreal
  have hearlier : ∀ o ∈ before ++ [t], o ∈ before ++ t :: after ∧ o.span.start ≤ e.span.start := by
    intro o ho
    rw [hspan]
    obtain ho | ho := List.mem_append.1 ho
    · have hle := (List.pairwise_append.1 htokens.ordered).2.2 o ho t List.mem_cons_self
      exact ⟨List.mem_append_left _ ho, hle⟩
    · obtain rfl := List.mem_singleton.1 ho
      exact ⟨hmem, Nat.le_refl _⟩
  refine ⟨⟨e.span, e.context.getD "here", true⟩, e.related.map fun r => ⟨r.1, r.2, false⟩, ?_, ?_,
    hcovers, ?_, ?_, ?_⟩
  · rw [ParseError.toDiagnostic]
    cases e.related <;> rfl
  · refine ⟨rfl, fun l hl => ?_⟩
    obtain ⟨_, _, rfl⟩ := Option.map_eq_some_iff.1 hl
    rfl
  · exact fun _ => ⟨t, hmem, hreal, hspan.symm⟩
  · rw [e.code_toDiagnostic, Option.isSome_map]
    exact hrelated
  · intro l hl
    obtain ⟨r, hr, rfl⟩ := Option.map_eq_some_iff.1 hl
    obtain ⟨o, ho, hplace, hkind⟩ := hopening r hr
    obtain ⟨hin, hle⟩ := hearlier o ho
    rw [hplace] at hle
    have hmessage : e.toDiagnostic.message = e.message := by
      rw [ParseError.toDiagnostic]
      cases e.related <;> rfl
    rw [hmessage]
    exact ⟨hle, o, hin, hplace, hkind⟩

theorem lex_placed {source : String} {names names' : NameTable} {tokens : List Token}
    {errors : List LexError} (h : Scan Text.isBlank names 0 source.toList tokens errors names') :
    Token.Placed source (tokens ++ [⟨.eof, Span.point source.utf8ByteSize⟩]) := by
  have hrow := h.row (.refl names') [] rfl
  have hcovers : ∀ t ∈ tokens, t.span.Covers source.toList := fun t ht =>
    (hrow.stands t ht).2.covers
  refine ⟨fun t ht hreal => ?_, List.pairwise_append.2 ⟨?_, by simp, fun t ht t' ht' => ?_⟩⟩
  · obtain ht | ht := List.mem_append.1 ht
    · exact hcovers t ht
    · rw [List.mem_singleton.1 ht] at hreal
      exact absurd rfl hreal
  · refine List.Pairwise.imp_of_mem (fun ht _ hle => ?_) hrow.pairwise
    exact Nat.le_trans (Nat.le_of_lt (hcovers _ ht).start_lt) hle
  · rw [List.mem_singleton.1 ht', ← Text.size_toList]
    exact Nat.le_of_lt (hcovers t ht).inside.start_lt

namespace Session

/-- Every diagnostic of a text points into it. But for a text that is too large to be read, it marks
a piece of the text, which is a token if the problem is one of syntax. -/
theorem compile_labelled (s : Session) (source : String) :
    (∀ d ∈ (s.compile source).1.diagnostics, d.offset + d.length ≤ source.utf8ByteSize) ∧
      (source.utf8ByteSize ≤ Span.maxOffset → ∀ d ∈ (s.compile source).1.diagnostics,
        ∃ primary secondary,
          d.Labelled source (lex source s.machine.names).tokens primary secondary) ∧
      (Span.maxOffset < source.utf8ByteSize → (s.compile source).1.diagnostics =
        [(⟨.sourceTooLarge source.utf8ByteSize, Span.nowhere⟩ : LexError).toDiagnostic]) := by
  have hlarge : Span.maxOffset < source.utf8ByteSize → (s.compile source).1.diagnostics = [_] :=
    s.machine.diagnostics_tooLarge
  have hlabelled (hsize : source.utf8ByteSize ≤ Span.maxOffset) (d : Diagnostic)
      (hd : d ∈ (s.compile source).1.diagnostics) : ∃ primary secondary,
        d.Labelled source (lex source s.machine.names).tokens primary secondary := by
    obtain ⟨tokens, errors, names', h⟩ :=
      Scan.exists_scan Text.isBlank s.machine.names 0 source.toList
    have hlex := h.lex_eq hsize
    obtain hd | hd := List.mem_append.1 hd
    · obtain ⟨e, he, rfl⟩ := List.mem_map.1 hd
      rw [hlex] at he
      obtain ⟨primary, hlabelled⟩ := e.labelled (h.errors_covers [] rfl e he) _
      exact ⟨primary, none, hlabelled⟩
    · obtain ⟨e, he, rfl⟩ := List.mem_map.1 hd
      rw [hlex] at he ⊢
      have hsited := (parse_accounts _ (fun t ht => (h.mem_tokens t ht).2)
        (Grammar.atEnd_eof (Span.point source.utf8ByteSize))).1 e he
      exact e.labelled hsited (lex_placed h)
  refine ⟨fun d hd => ?_, hlabelled, hlarge⟩
  by_cases hsize : source.utf8ByteSize ≤ Span.maxOffset
  · obtain ⟨_, _, hd⟩ := hlabelled hsize d hd
    exact hd.mark_le hsize
  · rw [hlarge (Nat.not_le.1 hsize), List.mem_singleton] at hd
    have hplace : d.primarySpan? = some Span.nowhere := by rw [hd]; rfl
    rw [Diagnostic.offset_eq hplace, Diagnostic.length_eq hplace,
      Span.length_eq (Nat.le_refl _) (Nat.zero_le _)]
    exact Nat.lt_of_le_of_lt (Nat.zero_le _) (Nat.not_le.1 hsize)

/-- The text ends in a call whose parenthesis is not closed. The problem is put on the last
token. -/
theorem compile_labelled_unclosed : ∃ d primary secondary,
    ((Session.start {}).compile "f(1").1.diagnostics = [d] ∧ primary.span = ⟨2, 3⟩ ∧
      secondary.span = ⟨1, 2⟩ ∧ d.Labelled "f(1"
        (lex "f(1" (Session.start {}).machine.names).tokens primary (some secondary) := by
  have hlabels : ((Session.start {}).compile "f(1").1.diagnostics.map (·.labels.map (·.span)) =
      [[⟨2, 3⟩, ⟨1, 2⟩]] := by decide +kernel
  obtain ⟨d, hd, hspans⟩ := List.map_eq_singleton_iff.1 hlabels
  obtain ⟨primary, secondary, h⟩ :=
    (compile_labelled (Session.start {}) "f(1").2.1 (by decide +kernel) d (by simp [hd])
  rw [h.labels] at hspans
  cases secondary with
  | none => simp at hspans
  | some secondary =>
    obtain ⟨hprimary, hrest⟩ := List.cons.inj hspans
    exact ⟨d, primary, secondary, hd, hprimary, (List.cons.inj hrest).1, h⟩

/-- The label of a text that is too large marks nothing of it. -/
theorem not_compile_labelled :
    let source := Text.fill '\n' (Span.maxOffset + 1)
    ∃ d ∈ ((Session.start {}).compile source).1.diagnostics, ¬ ∃ primary secondary,
      d.Labelled source (lex source (Session.start {}).machine.names).tokens primary secondary := by
  dsimp only
  have hlarge : Span.maxOffset < (Text.fill '\n' (Span.maxOffset + 1)).utf8ByteSize := by
    rw [Text.size_fill _ rfl]
    exact Nat.lt_succ_self _
  have hdiagnostics := (Session.start {}).machine.diagnostics_tooLarge hlarge
  refine ⟨_, hdiagnostics ▸ List.mem_singleton_self _, ?_⟩
  rintro ⟨primary, secondary, h⟩
  have hplace : some Span.nowhere = some primary.span := h.primarySpan?_eq
  have hempty := h.covers.start_lt
  rw [← Option.some.inj hplace] at hempty
  exact Nat.lt_irrefl _ hempty

end Session

end Tarn
