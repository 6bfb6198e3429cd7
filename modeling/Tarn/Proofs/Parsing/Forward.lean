import Tarn.Proofs.Parsing.Composed

/-! Productions only go forward. However a production ends, it has consumed tokens before the first
end of file, added to the errors and left the depths as they were; what it fails with is fatal. -/
namespace Tarn

namespace Parser

variable {α β : Type}

/-- However `p` ends, it has only gone forward, and its errors are fatal. -/
def Forward (p : Parser α) : Prop :=
  ∀ s, (∃ ts rs, s.Reads ts rs (answer p s).2) ∧
    ∀ e, (answer p s).1 = .error e → e.code.isFatal

namespace Forward

/-- A step that succeeds and changes nothing but by what it reads. -/
theorem of_ok {p : Parser α}
    (h : ∀ s, ∃ a s' ts rs, answer p s = (.ok a, s') ∧ s.Reads ts rs s') : Forward p := by
  intro s
  obtain ⟨a, s', ts, rs, hp, hr⟩ := h s
  rw [hp]
  exact ⟨⟨ts, rs, hr⟩, by simp⟩

theorem pure (a : α) : Forward (Pure.pure a) :=
  of_ok fun s => ⟨a, s, [], [], rfl, .refl s⟩

theorem bind {p : Parser α} {f : α → Parser β} (hp : Forward p) (hf : ∀ a, Forward (f a)) :
    Forward (p >>= f) := by
  intro s
  obtain ⟨⟨ts, rs, hr⟩, he⟩ := hp s
  rw [answer_bind]
  rcases hs : answer p s with ⟨e | a, s'⟩
  · rw [hs] at hr he
    exact ⟨⟨ts, rs, hr⟩, by simpa using he⟩
  · rw [hs] at hr
    obtain ⟨⟨ts', rs', hr'⟩, he'⟩ := hf a s'
    exact ⟨⟨_, _, hr.trans hr'⟩, he'⟩

theorem get : Forward (MonadState.get : Parser ParseState) :=
  of_ok fun s => ⟨_, s, [], [], rfl, .refl s⟩

theorem advance : Forward Parser.advance := by
  refine of_ok fun s => ?_
  by_cases h : s.cursor.current.kind = .eof
  · have hc : s.cursor.advance = s.cursor := by
      unfold Cursor.advance
      rcases hs : s.cursor.ahead with _ | ⟨t, rest⟩
      · rfl
      · rw [Cursor.current_of_ahead hs] at h
        simp [h]
    refine ⟨s.cursor.current.span, s, [], [], ?_, .refl s⟩
    rw [answer_advance, hc]
  · exact ⟨_, _, _, _, answer_advance s, .advance h⟩

theorem report (e : ParseError) : Forward (Parser.report e) :=
  of_ok fun s => ⟨_, _, _, _, answer_report e s, .report s e⟩

theorem log (e : ParseEvent) : Forward (Parser.log e) :=
  of_ok fun s => ⟨_, _, _, _, answer_log e s, .log s e⟩

theorem failHere {code : ErrorCode} (message : String) (h : code.isFatal) :
    Forward (Parser.failHere code message : Parser α) := by
  intro s
  rw [answer_failHere]
  refine ⟨⟨[], [], .refl s⟩, ?_⟩
  rintro e he
  obtain rfl := Except.error.inj he
  exact h

theorem missingCode_isFatal (kind : TokenKind) : (Cursor.missingCode kind).isFatal := by
  unfold Cursor.missingCode
  split <;> rfl

theorem expect (kind : TokenKind) (message : String) : Forward (Parser.expect kind message) := by
  intro s
  rw [answer_expect]
  split
  · simpa using advance s
  · refine ⟨⟨[], [], .refl s⟩, ?_⟩
    rintro e he
    obtain rfl := Except.error.inj he
    exact missingCode_isFatal kind

theorem expectClosing (kind : TokenKind) (opening : Span) (message : String) :
    Forward (Parser.expectClosing kind opening message) := by
  intro s
  rw [answer_expectClosing]
  split
  · simpa using advance s
  · refine ⟨⟨[], [], .refl s⟩, ?_⟩
    rintro e he
    obtain rfl := Except.error.inj he
    exact missingCode_isFatal kind

theorem expectIdentifier (message : String) : Forward (Parser.expectIdentifier message) := by
  intro s
  rw [answer_expectIdentifier]
  split
  · simpa using advance s
  · refine ⟨⟨[], [], .refl s⟩, ?_⟩
    rintro e he
    obtain rfl := Except.error.inj he
    rfl

end Forward

end Parser

namespace Cursor

/-- Skipping consumes some tokens before the end of file. -/
theorem skip_eq (recovery : KindSet) (names : NameTable) (consumed ahead : List Token) :
    ∃ ts rest, ahead = ts ++ rest ∧ (∀ t ∈ ts, t.kind ≠ .eof) ∧
      (skip recovery names consumed ahead).2 = ⟨names, ts.reverse ++ consumed, rest⟩ := by
  induction ahead generalizing consumed with
  | nil => exact ⟨[], [], rfl, by simp, rfl⟩
  | cons t rest ih =>
    unfold skip
    split
    · exact ⟨[], t :: rest, rfl, by simp, rfl⟩
    next heof =>
      split
      · exact ⟨[], t :: rest, rfl, by simp, rfl⟩
      split
      · exact ⟨[t], rest, rfl, by simpa using heof, rfl⟩
      obtain ⟨ts, rest', rfl, hreal, hskip⟩ := ih (t :: consumed)
      refine ⟨t :: ts, rest', rfl, by simpa using ⟨heof, hreal⟩, ?_⟩
      rw [hskip]
      simp

end Cursor

namespace ParseState

/-- Synchronizing goes forward, and it makes a step if the failed declaration has made none. -/
theorem reads_synchronize (s : ParseState) (recovery : KindSet) (start : Nat) :
    ∃ ts, s.Reads ts [] { s with cursor := (s.cursor.synchronize recovery start).2 } ∧
      (s.cursor.position = start → s.cursor.atEnd = false → ts ≠ []) := by
  have hskip (s : ParseState) : ∃ ts, s.Reads ts [] { s with
      cursor := (Cursor.skip recovery s.cursor.names s.cursor.consumed s.cursor.ahead).2 } := by
    obtain ⟨ts, rest, hahead, hreal, h⟩ := Cursor.skip_eq recovery s.cursor.names
      s.cursor.consumed s.cursor.ahead
    rw [h]
    exact ⟨ts, hahead, rfl, hreal, rfl, ⟨[], by simp⟩, rfl, rfl⟩
  unfold Cursor.synchronize
  split
  next h =>
    have heof : s.cursor.current.kind ≠ .eof := by
      intro h'
      simp [(Cursor.atEnd_iff _).2 h'] at h
    have hadvance := Reads.advance heof
    split
    · exact ⟨_, hadvance, by simp⟩
    · obtain ⟨ts, hts⟩ := hskip { s with cursor := s.cursor.advance }
      rw [show s.cursor.names = s.cursor.advance.names from hadvance.names.symm]
      exact ⟨_, hadvance.trans hts, by simp⟩
  next h =>
    obtain ⟨ts, hts⟩ := hskip s
    exact ⟨ts, hts, fun hp hend => absurd ⟨hp, by simp [hend]⟩ h⟩

end ParseState

namespace Parser

/-- What is left after a declaration from `start` on has failed with `e`. -/
def recovered (s : ParseState) (e : ParseError) (start : Nat) : ParseState :=
  let recovery := if 0 < s.blockDepth then KindSet.blockRecovery else KindSet.declarationStart
  { s with
    cursor := (s.cursor.synchronize recovery start).2
    errors := s.errors.push e
    events := s.events.push (.recovery e.code e.span) }

theorem recovering_eq (declaration : Parser Stmt) (s : ParseState) :
    recovering declaration s = match answer declaration s with
      | (.ok stmt, s') => (some stmt, s')
      | (.error e, s') => (none, recovered s' e s.cursor.position) := rfl

theorem declarationsUpTo_zero (stops : Cursor → Bool) (declaration : Parser Stmt)
    (found : List Stmt) (s : ParseState) :
    declarationsUpTo stops declaration 0 found s = (found, s) := rfl

theorem declarationsUpTo_succ (stops : Cursor → Bool) (declaration : Parser Stmt) (n : Nat)
    (found : List Stmt) (s : ParseState) :
    declarationsUpTo stops declaration (n + 1) found s =
      if stops s.cursor || s.cursor.atEnd then (found, s)
      else match recovering declaration s with
        | (some stmt, s') => declarationsUpTo stops declaration n (found ++ [stmt]) s'
        | (none, s') => declarationsUpTo stops declaration n found s' := by
  rw [declarationsUpTo]
  by_cases h : (stops s.cursor || s.cursor.atEnd) = true
  · simp only [h, bind, StateT.bind, get, getThe, MonadStateOf.get, StateT.get, pure, if_true]
    rfl
  · simp only [h]
    rcases hr : recovering declaration s with ⟨_ | stmt, s'⟩ <;>
      simp [h, hr, bind, StateT.bind, get, getThe, MonadStateOf.get, StateT.get, pure]

theorem declarationsUpTo_of_stops {stops : Cursor → Bool} {s : ParseState}
    (h : (stops s.cursor || s.cursor.atEnd) = true) (declaration : Parser Stmt) (n : Nat)
    (found : List Stmt) : declarationsUpTo stops declaration n found s = (found, s) := by
  cases n with
  | zero => rfl
  | succ n => rw [declarationsUpTo_succ, if_pos h]

/-- One round of the loop, which finds a declaration or nothing. -/
theorem declarationsUpTo_of_goes {stops : Cursor → Bool} {s : ParseState}
    (h : (stops s.cursor || s.cursor.atEnd) = false) (declaration : Parser Stmt) (n : Nat)
    (found : List Stmt) : declarationsUpTo stops declaration (n + 1) found s =
      declarationsUpTo stops declaration n (found ++ (recovering declaration s).1.toList)
        (recovering declaration s).2 := by
  rw [declarationsUpTo_succ, if_neg (Bool.eq_false_iff.1 h)]
  rcases recovering declaration s with ⟨_ | stmt, s'⟩ <;> simp

theorem answer_inBraces (p : StateM ParseState α) (s : ParseState) :
    answer (inBraces p) s =
      (.ok (p { s with blockDepth := s.blockDepth + 1 }).1,
        { (p { s with blockDepth := s.blockDepth + 1 }).2 with
          blockDepth := (p { s with blockDepth := s.blockDepth + 1 }).2.blockDepth - 1 }) := rfl

theorem answer_inFunction (p : Parser α) (s : ParseState) :
    answer (inFunction p) s =
      ((answer p { s with functionDepth := s.functionDepth + 1 }).1,
        { (answer p { s with functionDepth := s.functionDepth + 1 }).2 with
          functionDepth :=
            (answer p { s with functionDepth := s.functionDepth + 1 }).2.functionDepth - 1 }) :=
  rfl

/-- The error of a failed declaration is reported, and tokens are dropped. -/
theorem exists_passes_recovered (s : ParseState) (e : ParseError) (start : Nat) :
    ∃ ts, s.Passes ts [e] (recovered s e start) ∧
      (s.cursor.position = start → s.cursor.atEnd = false → ts ≠ []) := by
  obtain ⟨ts, hr, hstep⟩ := s.reads_synchronize
    (if 0 < s.blockDepth then .blockRecovery else .declarationStart) start
  refine ⟨ts, ⟨⟨hr.ahead, hr.consumed, hr.real, hr.names, ⟨[e], ?_⟩, rfl, rfl⟩, ?_⟩, hstep⟩
  · simp [recovered]
  · simp [recovered]

/-- A failed declaration is dropped with at least one token, and its error is the last one. -/
theorem passes_recovered {s s' : ParseState} {ts : List Token} {es : List ParseError}
    (h : s.Passes ts es s') (e : ParseError) (hend : s.cursor.atEnd = false) :
    ∃ ts', s.Passes (ts ++ ts') (es ++ [e]) (recovered s' e s.cursor.position) ∧
      ts ++ ts' ≠ [] := by
  obtain ⟨ts', hrecovered, hstep⟩ := exists_passes_recovered s' e s.cursor.position
  refine ⟨ts', h.trans hrecovered, ?_⟩
  intro hnil
  obtain ⟨rfl, rfl⟩ := List.append_eq_nil_iff.1 hnil
  have hposition : s'.cursor.position = s.cursor.position := by
    simp [Cursor.position, h.reads.consumed]
  have hcurrent : s'.cursor.current = s.cursor.current := by
    simp [Cursor.current, h.reads.ahead]
  refine hstep hposition ?_ rfl
  rw [← hend, Cursor.atEnd, Cursor.atEnd, hcurrent]

theorem reads_recovered {declaration : Parser Stmt} (h : Forward declaration) {s s' : ParseState}
    {e : ParseError} (hend : s.cursor.atEnd = false)
    (ha : answer declaration s = (.error e, s')) :
    ∃ ts rs, s.Reads ts (rs ++ [⟨e.code, e.span⟩]) (recovered s' e s.cursor.position) ∧
      ts ≠ [] ∧ e.code.isFatal := by
  obtain ⟨⟨ts, rs, hr⟩, hfatal⟩ := h s
  simp only [ha] at hr hfatal
  obtain ⟨es, hpasses, -⟩ := hr.exists_passes
  obtain ⟨ts', hr', hne⟩ := passes_recovered hpasses e hend
  exact ⟨_, es.map fun e => ⟨e.code, e.span⟩, by simpa using hr'.reads, hne, hfatal e rfl⟩

namespace Forward

/-- However a declaration ends, reading it goes forward. -/
theorem recovering {declaration : Parser Stmt} (h : Forward declaration) :
    Forward (ExceptT.lift (Parser.recovering declaration)) := by
  refine of_ok fun s => ?_
  obtain ⟨⟨ts, rs, hr⟩, -⟩ := h s
  rw [answer_lift, recovering_eq]
  rcases ha : answer declaration s with ⟨e | stmt, s'⟩
  · rw [ha] at hr
    obtain ⟨ts', hrecovered, -⟩ := exists_passes_recovered s' e s.cursor.position
    exact ⟨_, _, _, _, rfl, hr.trans hrecovered.reads⟩
  · rw [ha] at hr
    exact ⟨_, _, _, _, rfl, hr⟩

theorem inBraces {p : StateM ParseState α} (h : Forward (ExceptT.lift p)) :
    Forward (Parser.inBraces p) := by
  refine of_ok fun s => ?_
  obtain ⟨⟨ts, rs, hr⟩, -⟩ := h { s with blockDepth := s.blockDepth + 1 }
  exact ⟨_, _, ts, rs, answer_inBraces _ s, hr.leaveBraces⟩

theorem inFunction {p : Parser α} (hp : Forward p) : Forward (Parser.inFunction p) := by
  intro s
  obtain ⟨⟨ts, rs, hr⟩, he⟩ := hp { s with functionDepth := s.functionDepth + 1 }
  rw [answer_inFunction]
  exact ⟨⟨ts, rs, hr.leaveFunction⟩, he⟩

end Forward

/-- Every step goes forward, and so does what is composed of steps. -/
theorem Composed.forward {p : Parser α} (h : Composed p) : Forward p := by
  induction h with
  | pure a => exact .pure a
  | get => exact .get
  | advance => exact .advance
  | report e => exact .report e
  | log e => exact .log e
  | failHere message h => exact .failHere message h
  | expect kind message => exact .expect kind message
  | expectClosing kind opening message => exact .expectClosing kind opening message
  | expectIdentifier message => exact .expectIdentifier message
  | bind _ _ ihp ihf => exact ihp.bind ihf
  | recovering _ ih => exact ih.recovering
  | inBraces _ ih => exact ih.inBraces
  | inFunction _ ih => exact ih.inFunction

end Parser

end Tarn
