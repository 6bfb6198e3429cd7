import Mathlib.Data.Nat.Find
import Tarn.Proofs.Parsing.Acceptance
import Tarn.Proofs.Parsing.StatementPrompt

/-! Prefixes of programs. The first fatal error is put on the token behind the longest prefix of the
input that some program starts with. -/
namespace Tarn

open ParseError Grammar Tarn.Parser

namespace Grammar

/-- The tokens form a program of the grammar in which any disjunction may stand left of `=`. -/
def Lenient (ts : List Token) : Prop := ∃ program rs, Program .lenient ts program rs

/-- Such a program starts with the tokens. -/
def Viable (ts : List Token) : Prop := ∃ us, Lenient (ts ++ us)

theorem viable_nil : Viable [] := ⟨[], [], [], .nil⟩

/-- There is a longest prefix that a program starts with. -/
theorem exists_longest_viable (ts : List Token) :
    ∃ p, IsGreatest {k | k ≤ ts.length ∧ Viable (ts.take k)} p := by
  classical
  refine ⟨Nat.findGreatest (fun k => Viable (ts.take k)) ts.length,
    ⟨Nat.findGreatest_le _, ?_⟩, fun k ⟨hk, hviable⟩ => Nat.le_findGreatest hk hviable⟩
  exact Nat.findGreatest_spec (P := fun k => Viable (ts.take k)) (Nat.zero_le _) viable_nil

end Grammar

/-- The end of the file is never consumed. -/
theorem ParseState.Reads.before_eof {s s₁ : ParseState} {ts read : List Token} {rs : List Remark}
    {span : Span} (h : s.Reads read rs s₁) (hs : s.cursor.ahead = ts ++ [⟨.eof, span⟩]) :
    ∃ rest, ts = read ++ rest ∧ s₁.cursor.ahead = rest ++ [⟨.eof, span⟩] := by
  rw [h.ahead] at hs
  obtain ⟨rest, rfl, hahead⟩ | ⟨us, rfl, hus⟩ := List.append_eq_append_iff.1 hs
  · exact ⟨rest, rfl, hahead⟩
  · cases us with
    | nil => exact ⟨[], by simp, by simpa using hus.symm⟩
    | cons t us =>
      obtain ⟨rfl, -⟩ := List.cons.inj hus
      exact absurd rfl (h.real ⟨.eof, span⟩ (by simp))

section

variable (names : NameTable) {ts : List Token} (span : Span)

theorem Grammar.Lenient.not_fatal (h : Lenient ts) :
    ∀ e ∈ (parse names (ts ++ [⟨.eof, span⟩])).errors, ¬ e.code.isFatal := by
  obtain ⟨program, rs, hd⟩ := h
  obtain ⟨-, rfl⟩ := parse_complete names (atEnd_eof span) (by decide) hd
  intro e he
  exact Bool.not_eq_true _ ▸ hd.minor ⟨e.code, e.span⟩ (List.mem_map_of_mem he)

/-- Just the programs are parsed without a fatal error. -/
theorem parse_fatal_iff (hts : ∀ t ∈ ts, t.kind ≠ .eof) :
    (∃ e ∈ (parse names (ts ++ [⟨.eof, span⟩])).errors, e.code.isFatal) ↔ ¬ Lenient ts := by
  refine ⟨fun ⟨e, he, hfatal⟩ h => h.not_fatal names span e he hfatal, fun hnot => ?_⟩
  by_contra hnone
  refine hnot ⟨_, _, (parse_derives names (atEnd_eof span) hts).restrict fun r hr => ?_⟩
  obtain ⟨e, he, rfl⟩ := List.mem_map.1 hr
  exact Bool.eq_false_iff.2 fun hfatal => hnone ⟨e, he, hfatal⟩

/-- A whole run is prompt. -/
theorem program_prompt (s s' : ParseState) : PromptAt true s s' (ExceptT.lift program)
    (ExceptT.lift program) Lists :=
  Prompt.declarationsUpTo Prompt.declaration Composed.declaration Composed.declaration
    (fun _ _ _ => rfl) le_rfl le_rfl le_rfl le_rfl .nil s s' le_rfl le_rfl

variable {names span}

/-- The error that a run meets is its first fatal one. -/
theorem ParseState.Meets.find_eq {tokens : List Token} {goesOn : Bool} {e : ParseError}
    (h : (start names tokens).Meets goesOn (answer (ExceptT.lift program) (start names tokens)) ts
      e) : (parse names tokens).errors.find? (·.code.isFatal) = some e := by
  obtain ⟨-, hfatal, s₁, es, more, hpasses, hes, herrors, -⟩ := h
  have hbefore : es.find? (·.code.isFatal) = none := by
    simpa [fatals, List.countP_eq_zero] using hes
  rw [show (parse names tokens).errors = _ from herrors, hpasses.errors]
  simp [start, List.find?_append, hbefore, hfatal]

variable (names span)

/-- What is consumed when a fatal error is met starts a program, and is the longest such prefix. -/
theorem exists_meets (hts : ∀ t ∈ ts, t.kind ≠ .eof) (hnot : ¬ Lenient ts) :
    ∃ read e, IsGreatest {k | k ≤ ts.length ∧ Viable (ts.take k)} read.length ∧
      (start names (ts ++ [⟨.eof, span⟩])).Meets true
        (answer (ExceptT.lift program) (start names (ts ++ [⟨.eof, span⟩]))) read e := by
  obtain ⟨p, hp⟩ := exists_longest_viable ts
  obtain ⟨us, hus⟩ := hp.1.2
  obtain ⟨stmts, read, ⟨-, es, hpasses, hes⟩, -⟩ | ⟨read, ⟨e, hmeets⟩, ⟨stmts, us', hd⟩, hother⟩ :=
    program_prompt (start names (ts ++ [⟨.eof, span⟩]))
      (start names (ts.take p ++ us ++ [⟨.eof, span⟩]))
  · obtain ⟨e, he, hfatal⟩ := (parse_fatal_iff names span hts).2 hnot
    have herrors : (parse names (ts ++ [⟨.eof, span⟩])).errors = es := hpasses.errors
    have hminor := List.countP_eq_zero.1 hes e (herrors ▸ he)
    exact absurd hfatal hminor
  · obtain ⟨-, -, s₁, es, -, hpasses, -⟩ := id hmeets
    obtain ⟨rest, rfl, -⟩ := hpasses.reads.before_eof rfl
    have hle : read.length ≤ p := hp.2 ⟨by simp, us', stmts, by simpa using hd false⟩
    refine ⟨read, e, ?_, hmeets⟩
    obtain rfl | hlt := hle.eq_or_lt
    · exact hp
    -- A program that starts with one token more would fail here as well.
    · exfalso
      obtain ⟨k, rfl⟩ := Nat.exists_eq_add_of_lt hlt
      cases rest with
      | nil =>
        have hlength := hp.1.1
        rw [List.append_nil] at hlength
        omega
      | cons t rest =>
        have htake : (read ++ t :: rest).take (read.length + k + 1) =
            read ++ t :: rest.take k := by
          rw [Nat.add_assoc, List.take_length_add_append, List.take_succ_cons]
        rw [htake] at hother hus
        obtain ⟨e', hmeets'⟩ := hother ⟨t, rest ++ [⟨.eof, span⟩],
          rest.take k ++ us ++ [⟨.eof, span⟩], hts t (by simp), by simp [start, Cursor.ofTokens],
          by simp [start, Cursor.ofTokens]⟩
        exact hus.not_fatal names span e' (List.mem_of_find?_eq_some hmeets'.find_eq) hmeets'.2.1

/-- A fatal error is reported just for what is no program. The first one is put on the token behind
the longest prefix that a program starts with, or on the last token if only the end is wrong. -/
theorem first_fatal_error_is_earliest (hts : ∀ t ∈ ts, t.kind ≠ .eof) :
    ((∃ e ∈ (parse names (ts ++ [⟨.eof, span⟩])).errors, e.code.isFatal) ↔ ¬ Lenient ts) ∧
      (¬ Lenient ts → ∃ p, IsGreatest {k | k ≤ ts.length ∧ Viable (ts.take k)} p ∧
        ∃ e, (parse names (ts ++ [⟨.eof, span⟩])).errors.find? (·.code.isFatal) = some e ∧
          ((∃ h : p < ts.length, e.span = ts[p].span) ∨
            p = ts.length ∧ e.context = some "found end of file" ∧
              ∃ t, ts.getLast? = some t ∧ e.span = t.span)) := by
  refine ⟨parse_fatal_iff names span hts, fun hnot => ?_⟩
  obtain ⟨read, e, hgreatest, hmeets⟩ := exists_meets names span hts hnot
  refine ⟨read.length, hgreatest, e, hmeets.find_eq, ?_⟩
  obtain ⟨-, -, s₁, es, -, hpasses, -, -, hspan, hcontext⟩ := hmeets
  obtain ⟨rest, rfl, hahead⟩ := hpasses.reads.before_eof rfl
  cases rest with
  | nil =>
    have hcurrent := Cursor.current_of_ahead hahead
    have hsome : read ≠ [] := by
      rintro rfl
      exact hnot ⟨[], [], .nil⟩
    refine .inr ⟨by simp, ?_, read.getLast hsome, ?_, ?_⟩
    · rw [hcontext, Cursor.describe, hcurrent]
      rfl
    · simp [List.getLast?_eq_getLast_of_ne_nil hsome]
    · rw [hspan, hpasses.errorSpan (List.getLast?_eq_getLast_of_ne_nil hsome) (by simp [hcurrent])]
  | cons t rest =>
    refine .inl ⟨by simp, ?_⟩
    rw [hspan, errorSpan_of_ahead hahead (hts t (by simp))]
    simp

/-- A `print` without its expression. -/
def emptyPrint : List Token := [⟨.keyword .printKw, ⟨0, 5⟩⟩, ⟨.symbol .semicolon, ⟨6, 7⟩⟩]

/-- After `print` only an expression goes on, and a semicolon starts none. -/
theorem first_fatal_error_of_emptyPrint :
    IsGreatest {k | k ≤ emptyPrint.length ∧ Viable (emptyPrint.take k)} 1 := by
  obtain ⟨hiff, hplace⟩ := first_fatal_error_is_earliest .empty ⟨7, 7⟩
    (show ∀ t ∈ emptyPrint, t.kind ≠ .eof by decide)
  obtain ⟨p, hp, e, he, hspan⟩ := hplace (hiff.1 (by decide +kernel))
  have hfound : ((parse .empty (emptyPrint ++ [⟨.eof, ⟨7, 7⟩⟩])).errors.find?
      (·.code.isFatal)).map (fun e => (e.span, e.context)) =
        some (⟨6, 7⟩, some "found \x60;\x60") := by decide +kernel
  rw [he] at hfound
  obtain ⟨hspan', hcontext'⟩ := Prod.mk.inj (Option.some.inj hfound)
  rw [hspan', hcontext'] at hspan
  obtain ⟨hlt, hspan⟩ | ⟨-, hcontext, -⟩ := hspan
  · obtain rfl | rfl : p = 0 ∨ p = 1 := by
      rw [show emptyPrint.length = 2 from rfl] at hlt
      omega
    · simp [emptyPrint] at hspan
    · exact hp
  · exact absurd hcontext (by decide)

end

end Tarn
