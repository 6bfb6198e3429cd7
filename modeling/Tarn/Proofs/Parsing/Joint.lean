import Tarn.Proofs.Parsing.Acceptance

/-! Programs one after the other. A declaration ends where it ends, whatever comes next. -/
namespace Tarn

open Grammar

theorem Grammar.Declarations.append {mode : Mode} {inside : Bool} {ts us : List Token}
    {ss vs : List Stmt} {rs rs' : List Remark} : Declarations mode inside ts ss rs →
    Declarations mode inside us vs rs' → Declarations mode inside (ts ++ us) (ss ++ vs) (rs ++ rs')
  | .nil, h' => h'
  | .cons h hs, h' => by
    rw [List.append_assoc, List.append_assoc]
    exact .cons h (hs.append h')
  | .dropped hmode hts hr hs, h' => by
    rw [List.append_assoc, List.append_assoc]
    exact .dropped hmode hts hr (hs.append h')

/-- What the parser accepts is the program of a strict derivation without remarks. -/
theorem parse_strict {names : NameTable} {ts : List Token} (hts : ∀ t ∈ ts, t.kind ≠ .eof)
    {span : Span} (h : (parse names (ts ++ [⟨.eof, span⟩])).errors = []) :
    Program .strict ts (parse names (ts ++ [⟨.eof, span⟩])).statements [] := by
  have hd := parse_derives names (atEnd_eof span) hts
  rw [h] at hd
  exact hd.strict rfl

/-- If two lists of tokens parse without errors, then both together parse to the statements of the
one and then those of the other. -/
theorem parse_append (names : NameTable) (span : Span) {names₁ names₂ : NameTable}
    {ts us : List Token} {span₁ span₂ : Span} (hts : ∀ t ∈ ts, t.kind ≠ .eof)
    (hus : ∀ t ∈ us, t.kind ≠ .eof)
    (h₁ : (parse names₁ (ts ++ [⟨.eof, span₁⟩])).errors = [])
    (h₂ : (parse names₂ (us ++ [⟨.eof, span₂⟩])).errors = []) :
    (parse names (ts ++ us ++ [⟨.eof, span⟩])).statements =
        (parse names₁ (ts ++ [⟨.eof, span₁⟩])).statements ++
          (parse names₂ (us ++ [⟨.eof, span₂⟩])).statements ∧
      (parse names (ts ++ us ++ [⟨.eof, span⟩])).errors = [] := by
  have hboth := (parse_strict hts h₁).append (parse_strict hus h₂)
  obtain ⟨hstmts, herrors⟩ := parse_complete names (atEnd_eof span) (by decide) hboth
  exact ⟨hstmts, List.map_eq_nil_iff.1 herrors⟩

end Tarn
