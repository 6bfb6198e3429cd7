import Tarn.Proofs.Grammar.Admissible
import Tarn.Proofs.Parsing.StatementCompleteness

/-! What parsing a list of tokens gives. Without errors it is the program that the tokens derive. -/
namespace Tarn

open Grammar Tarn.Parser

namespace Grammar

/-- The tokens `ts` form the program in the grammar as it is written, which knows no recovery and no
limits. -/
def Derives (ts : List Token) (program : List Stmt) : Prop := ∃ rs, Program .strict ts program rs

/-- The input ends here. -/
def AtEnd (rest : List Token) : Prop := ∀ t rest', rest = t :: rest' → t.kind = .eof

theorem atEnd_nil : AtEnd [] := nofun

theorem atEnd_eof (span : Span) : AtEnd [⟨.eof, span⟩] := by
  intro t rest' heq
  obtain ⟨rfl, rfl⟩ := List.cons.inj heq
  rfl

/-- The tokens before the end of the input are determined. -/
theorem eq_of_append_eq {ts ts' rest rest' : List Token} (h : ts ++ rest = ts' ++ rest')
    (hts : ∀ t ∈ ts, t.kind ≠ .eof) (hts' : ∀ t ∈ ts', t.kind ≠ .eof) (hrest : AtEnd rest)
    (hrest' : AtEnd rest') : ts = ts' := by
  obtain ⟨more, rfl, rfl⟩ | ⟨more, rfl, rfl⟩ := List.append_eq_append_iff.1 h
  · cases more with
    | nil => simp
    | cons t more => exact absurd (hrest t _ rfl) (hts' t (by simp))
  · cases more with
    | nil => simp
    | cons t more => exact absurd (hrest' t _ rfl) (hts t (by simp))

end Grammar

section

variable (names : NameTable) {ts rest : List Token} (hrest : AtEnd rest)
include hrest

/-- The statements derive with the errors as remarks, if failed declarations may be dropped. -/
theorem parse_derives (hts : ∀ t ∈ ts, t.kind ≠ .eof) :
    Program .recovering ts (parse names (ts ++ rest)).statements
      ((parse names (ts ++ rest)).errors.map fun e => ⟨e.code, e.span⟩) := by
  obtain ⟨ts', rs, hr, hend, hd⟩ := program_sound (start names (ts ++ rest))
  obtain rfl : ts = ts' := by
    refine eq_of_append_eq hr.ahead hts hr.real hrest fun t rest' heq => ?_
    rwa [Cursor.atEnd_iff, Cursor.current_of_ahead heq] at hend
  obtain ⟨es, hes, rfl⟩ := hr.errors
  rw [show (parse names (ts ++ rest)).errors = es from hes]
  exact hd

/-- What derives without recovery is what parsing gives, with the remarks as errors. -/
theorem parse_complete {mode : Mode} {program : List Stmt} {rs : List Remark}
    (hmode : mode ≠ .recovering) (hd : Program mode ts program rs) :
    (parse names (ts ++ rest)).statements = program ∧
      (parse names (ts ++ rest)).errors.map (fun e => ⟨e.code, e.span⟩) = rs := by
  obtain ⟨s', hprogram, hr⟩ := program_complete (s := start names (ts ++ rest)) hmode hd rfl hrest
  obtain ⟨es, hes, hrs⟩ := hr.errors
  have hstatements : (parse names (ts ++ rest)).statements = program := by
    rw [parse, hprogram]
  have herrors : (parse names (ts ++ rest)).errors = es := by
    rw [parse, hprogram]
    exact hes
  exact ⟨hstatements, by rw [herrors, hrs]⟩

end

/-- Parsing accepts the language, within the limits, and gives the only tree of the program. -/
theorem parse_accepts_iff (names : NameTable) {ts : List Token} (hts : ∀ t ∈ ts, t.kind ≠ .eof)
    (span : Span) :
    ((parse names (ts ++ [⟨.eof, span⟩])).errors = [] ↔
        ∃ program, Derives ts program ∧ Stmt.AllAdmissible false program) ∧
      ∀ program, Derives ts program → (parse names (ts ++ [⟨.eof, span⟩])).statements = program := by
  have hcomplete {program : List Stmt} {rs : List Remark} (hd : Program .strict ts program rs) :=
    parse_complete names (atEnd_eof span) (by decide) hd
  refine ⟨⟨fun herrors => ?_, ?_⟩, ?_⟩
  · have hd := parse_derives names (atEnd_eof span) hts
    rw [herrors] at hd
    have hstrict := hd.strict rfl
    exact ⟨_, ⟨[], hstrict⟩, hstrict.eq_nil_iff.1 rfl⟩
  · rintro ⟨program, ⟨rs, hd⟩, hadmissible⟩
    have hremarks := (hcomplete hd).2
    rw [hd.eq_nil_iff.2 hadmissible] at hremarks
    exact List.map_eq_nil_iff.1 hremarks
  · rintro program ⟨rs, hd⟩
    exact (hcomplete hd).1

/-- A `print` of a number is its own program. -/
theorem parse_print_number :
    (parse NameTable.empty ([⟨.keyword .printKw, ⟨0, 5⟩⟩, ⟨.number 0, ⟨6, 7⟩⟩,
        ⟨.symbol .semicolon, ⟨7, 8⟩⟩] ++ [⟨.eof, ⟨8, 8⟩⟩])).statements =
      [.print ⟨0, 8⟩ (.literal ⟨6, 7⟩ (.number 0))] :=
  (parse_accepts_iff NameTable.empty (by decide) ⟨8, 8⟩).2 _
    ⟨[], .cons (.print rfl (.tighter rfl (.disjunction (.literal (.number 0) rfl))) rfl) .nil⟩

end Tarn
