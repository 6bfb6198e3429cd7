import Tarn.Proofs.Likeness.Lexing
import Tarn.Proofs.Likeness.Statements
import Tarn.Proofs.Session.Submission

/-! What is known of a text that was read, whatever was read before it. -/
namespace Tarn

/-- The same places, and names of the same texts. -/
theorem Likeness.closed_inPlace (t t' : NameTable) : (Likeness.inPlace t t').Closed where
  merge := by
    rintro a _ b _ rfl rfl
    rfl
  point := by
    rintro a _ rfl
    rfl

theorem ParseError.Alike.eq {t t' : NameTable} {e e' : ParseError}
    (h : ParseError.Alike (.inPlace t t') e e') : e = e' := by
  obtain ⟨code, message, span, context, related⟩ := e
  obtain ⟨code', message', span', context', related'⟩ := e'
  obtain ⟨rfl, rfl, hspan, rfl, hrelated, -⟩ := h
  obtain rfl : span = span' := hspan
  cases hrelated with
  | none => rfl
  | some h => rw [Prod.ext h.1 h.2]

theorem LexError.phase_code (e : LexError) : e.code.phase = .lexer := by
  obtain ⟨fault, span⟩ := e
  cases fault <;> simp only [code] <;> rfl

theorem LexError.code_toDiagnostic (e : LexError) : e.toDiagnostic.code = e.code := by
  obtain ⟨fault, span⟩ := e
  cases fault <;> rfl

theorem ParseError.code_toDiagnostic (e : ParseError) : e.toDiagnostic.code = e.code := by
  obtain ⟨code, message, span, context, _ | related⟩ := e <;> rfl

namespace Machine

variable (m m' : Machine) (source : String)

theorem extends_compile : m.names.Extends (m.compile source).2.names :=
  (lex_alike source m.names m.names).1

/-- What is parsed of a text on two machines. -/
theorem parse_lex_alike :
    let lexed := lex source m.names
    let lexed' := lex source m'.names
    Stmt.AllAlike (.inPlace lexed.names lexed'.names)
        (parse lexed.names lexed.tokens).statements (parse lexed'.names lexed'.tokens).statements ∧
      List.Forall₂ (ParseError.Alike (.inPlace lexed.names lexed'.names))
        (parse lexed.names lexed.tokens).errors (parse lexed'.names lexed'.tokens).errors := by
  obtain ⟨-, -, htokens⟩ := lex_alike source m.names m'.names
  obtain ⟨ts, span, hts, -⟩ := lex_tokens source m.names
  exact parse_alike (Likeness.closed_inPlace _ _) NameTable.SameSpelling.spelling_eq htokens
    (.inl ⟨⟨.eof, span⟩, by simp [hts], rfl⟩)

/-- On every machine a text compiles to the same, up to the numbers of its names. -/
theorem compile_alike :
    Stmt.AllAlike (.inPlace (m.compile source).2.names (m'.compile source).2.names)
        (m.compile source).1.statements (m'.compile source).1.statements ∧
      (m.compile source).1.diagnostics = (m'.compile source).1.diagnostics := by
  obtain ⟨hstmts, hparsed⟩ := parse_lex_alike m m' source
  have hequal := List.forall₂_eq_eq_eq ▸ hparsed.imp fun _ _ => ParseError.Alike.eq
  refine ⟨hstmts, ?_⟩
  simp only [compile]
  rw [(lex_alike source m.names m'.names).2.1, hequal]

/-- The diagnostics of the lexer come before those of the parser. -/
theorem compile_phases : ∃ lexing parsing,
    (m.compile source).1.diagnostics = lexing ++ parsing ∧
      (∀ d ∈ lexing, d.code.phase = .lexer) ∧ ∀ d ∈ parsing, d.code.phase = .parser := by
  have hparsed := (parse_lex_alike m m source).2.imp fun _ _ h => And.intro h.phase h
  refine ⟨_, _, rfl, fun d hd => ?_, fun d hd => ?_⟩
  · obtain ⟨e, -, rfl⟩ := List.mem_map.1 hd
    rw [e.code_toDiagnostic]
    exact e.phase_code
  · obtain ⟨e, he, rfl⟩ := List.mem_map.1 hd
    rw [e.code_toDiagnostic]
    exact ((List.forall₂_and_left _ _).1 hparsed).1 e he

variable {m source}

/-- In a text that compiles, every `return` stands in a function. -/
theorem compile_admissible (h : (m.compile source).1.hasErrors = false) :
    Stmt.AllAdmissible false (m.compile source).1.statements := by
  obtain ⟨ts, span, hts, hreal⟩ := lex_tokens source m.names
  have hd := parse_derives (lex source m.names).names (Grammar.atEnd_eof span) hreal
  rw [← hts] at hd
  rw [CompileOutput.hasErrors, Bool.not_eq_false', List.isEmpty_iff] at h
  have hparsed := List.map_eq_nil_iff.1 (List.append_eq_nil_iff.1 h).2
  have hremarks : ((parse (lex source m.names).names (lex source m.names).tokens).errors.map
      fun e => (⟨e.code, e.span⟩ : Remark)) = [] := by rw [hparsed, List.map_nil]
  exact (hd.strict hremarks).eq_nil_iff.1 hremarks

end Machine

end Tarn
