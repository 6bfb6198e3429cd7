import Tarn.Proofs.Parsing.StatementLocality

/-! Progress of the parser over any list of tokens. The cursor never goes back, no declaration
leaves it where it was, and it never passes the end of the input. -/
namespace Tarn

open ParseError Grammar Tarn.Parser

/-- How many tokens come before the first end of file, or before the end of a list that has none. -/
def Token.endOfInput (tokens : List Token) : Nat := tokens.findIdx (·.kind == .eof)

namespace Token

theorem endOfInput_append {ts rest : List Token} (hts : ∀ t ∈ ts, t.kind ≠ .eof)
    (hrest : AtEnd rest) : endOfInput (ts ++ rest) = ts.length := by
  induction ts with
  | nil =>
    cases rest with
    | nil => rfl
    | cons t rest => simp [endOfInput, List.findIdx_cons, hrest t rest rfl]
  | cons t ts ih =>
    obtain ⟨ht, hts⟩ := List.forall_mem_cons.1 hts
    rw [List.cons_append, endOfInput, List.findIdx_cons, beq_eq_false_iff_ne.2 ht]
    exact congrArg (· + 1) (ih hts)

/-- Every list of tokens falls apart at the end of the input. -/
theorem exists_endOfInput (tokens : List Token) : ∃ ts rest, tokens = ts ++ rest ∧
    (∀ t ∈ ts, t.kind ≠ .eof) ∧ AtEnd rest := by
  induction tokens with
  | nil => exact ⟨[], [], rfl, nofun, nofun⟩
  | cons t tokens ih =>
    by_cases ht : t.kind = .eof
    · refine ⟨[], t :: tokens, rfl, nofun, ?_⟩
      rintro _ _ ⟨⟩
      exact ht
    · obtain ⟨ts, rest, rfl, hts, hrest⟩ := ih
      exact ⟨t :: ts, rest, rfl, List.forall_mem_cons.2 ⟨ht, hts⟩, hrest⟩

end Token

/-- A state of a parser of `tokens`. Its cursor has not passed the end of the input. -/
structure ParseState.Within (tokens : List Token) (s : ParseState) : Prop where
  tokens_eq : s.tokens = tokens
  position_le : s.cursor.position ≤ Token.endOfInput tokens

namespace ParseState.Within

variable {tokens : List Token} {s s' : ParseState}

/-- What was consumed, and what is left before the end of the input. -/
theorem exists_ahead (h : s.Within tokens) : (∀ t ∈ s.cursor.consumed, t.kind ≠ .eof) ∧
    ∃ us rest, s.cursor.ahead = us ++ rest ∧ (∀ t ∈ us, t.kind ≠ .eof) ∧ AtEnd rest ∧
      Token.endOfInput tokens = s.cursor.position + us.length := by
  obtain ⟨rfl, hposition⟩ := h
  obtain ⟨ts, rest, hsplit, hts, hrest⟩ := Token.exists_endOfInput s.tokens
  have hend := Token.endOfInput_append hts hrest
  rw [← hsplit] at hend
  rw [hend, Cursor.position, ← List.length_reverse] at hposition
  obtain ⟨us, rfl, hahead⟩ : ∃ us, ts = s.cursor.consumed.reverse ++ us ∧
      s.cursor.ahead = us ++ rest := by
    obtain ⟨us, hus, hahead⟩ | ⟨us, hus, hahead⟩ := List.append_eq_append_iff.1 hsplit
    · exact ⟨us, hus, hahead⟩
    · rw [hus, List.length_append] at hposition
      obtain rfl : us = [] := List.eq_nil_of_length_eq_zero (by omega)
      exact ⟨[], by simpa using hus.symm, hahead.symm⟩
  refine ⟨fun t ht => hts t (by simp [ht]), us, rest, hahead, fun t ht => hts t (by simp [ht]),
    hrest, ?_⟩
  rw [hend, List.length_append, List.length_reverse, Cursor.position]

theorem of_consumed (hreal : ∀ t ∈ s.cursor.consumed, t.kind ≠ .eof) : s.Within s.tokens := by
  obtain ⟨us, rest, hahead, hus, hrest⟩ := Token.exists_endOfInput s.cursor.ahead
  refine ⟨rfl, ?_⟩
  rw [ParseState.tokens, hahead, ← List.append_assoc, Token.endOfInput_append ?_ hrest]
  · simp [Cursor.position]
  · intro t ht
    obtain ht | ht := List.mem_append.1 ht
    · exact hreal t (List.mem_reverse.1 ht)
    · exact hus t ht

/-- Reading goes forward, and not past the end of the input. -/
theorem reads (h : s.Within tokens) {ts rs} (hr : s.Reads ts rs s') :
    s'.Within tokens ∧ s'.cursor.position = s.cursor.position + ts.length := by
  have hreal : ∀ t ∈ s'.cursor.consumed, t.kind ≠ .eof := by
    intro t ht
    rw [hr.consumed] at ht
    obtain ht | ht := List.mem_append.1 ht
    · exact hr.real t (List.mem_reverse.1 ht)
    · exact h.exists_ahead.1 t ht
  refine ⟨?_, ?_⟩
  · rw [← h.tokens_eq, ← hr.tokens_eq]
    exact of_consumed hreal
  · rw [Cursor.position, hr.consumed, List.length_append, List.length_reverse, Nat.add_comm]
    rfl

theorem atEnd_iff (h : s.Within tokens) :
    s.cursor.atEnd = true ↔ s.cursor.position = Token.endOfInput tokens := by
  obtain ⟨-, us, rest, hahead, hus, hrest, hend⟩ := h.exists_ahead
  rw [Cursor.atEnd_iff, hend]
  cases us with
  | nil => simp [hrest.current hahead]
  | cons t us => simp [Cursor.current_of_ahead hahead, hus t List.mem_cons_self]

end ParseState.Within

/-- What is consumed and reported determines the cursor and the errors. -/
theorem ParseState.Passes.cursor_errors_eq {s s₁ s₂ : ParseState} {ts : List Token}
    {es : List ParseError} (h₁ : s.Passes ts es s₁) (h₂ : s.Passes ts es s₂) :
    s₁.cursor = s₂.cursor ∧ s₁.errors = s₂.errors := by
  have hnames := h₁.reads.names.trans h₂.reads.names.symm
  have hconsumed := h₁.reads.consumed.trans h₂.reads.consumed.symm
  have hahead := List.append_cancel_left (h₁.reads.ahead.symm.trans h₂.reads.ahead)
  refine ⟨?_, Array.toList_inj.1 (h₁.errors.trans h₂.errors.symm)⟩
  rcases hc₁ : s₁.cursor with ⟨names, consumed, ahead⟩
  rcases hc₂ : s₂.cursor with ⟨names', consumed', ahead'⟩
  rw [hc₁, hc₂] at hnames hconsumed hahead
  exact congr (congrArg₂ Cursor.mk hnames hconsumed) hahead

namespace Parser

/-- The steps that move the cursor and the productions of the grammar, with every bound on their
nestings and rounds. -/
inductive Production : {α : Type} → Parser α → Prop where
  | advance : Production advance
  | expect (kind message) : Production (expect kind message)
  | expectClosing (kind opening message) : Production (expectClosing kind opening message)
  | expectIdentifier (message) : Production (expectIdentifier message)
  | grouping (n) : Production (grouping (expressionUpTo n))
  | primary (n) : Production (primary (expressionUpTo n))
  | argument (n found) : Production (argument (expressionUpTo n) found)
  | arguments (n stop) : Production (itemsBefore stop (argument (expressionUpTo n)))
  | finishCall (n callee opening) : Production (finishCall (expressionUpTo n) callee opening)
  | calls (n rounds callee) : Production (calls (expressionUpTo n) rounds callee)
  | call (n) : Production (call (expressionUpTo n))
  | unaryUpTo (n rounds) : Production (unaryUpTo (expressionUpTo n) rounds)
  | factor (n) : Production (factor (expressionUpTo n))
  | term (n) : Production (term (expressionUpTo n))
  | comparison (n) : Production (comparison (expressionUpTo n))
  | equality (n) : Production (equality (expressionUpTo n))
  | conjunction (n) : Production (conjunction (expressionUpTo n))
  | disjunction (n) : Production (disjunction (expressionUpTo n))
  | expressionUpTo (n) : Production (expressionUpTo n)
  | expression : Production expression
  | block (n message) : Production (block (declarationUpTo n) message)
  | parameter (found) : Production (parameter found)
  | parameters (stop) : Production (itemsBefore stop parameter)
  | function (n) : Production (function (declarationUpTo n))
  | initialValue : Production initialValue
  | expressionBefore (stop) : Production (expressionBefore stop)
  | variableDeclaration : Production variableDeclaration
  | expressionStatement : Production expressionStatement
  | printStatement : Production printStatement
  | returnStatement : Production returnStatement
  | elseBranch (n) : Production (elseBranch (declarationUpTo n))
  | otherwise (n) : Production (otherwise (declarationUpTo n))
  | conditional (n) : Production (conditional (declarationUpTo n))
  | whileLoop (n) : Production (whileLoop (declarationUpTo n))
  | forInitializer : Production forInitializer
  | forLoop (n) : Production (forLoop (declarationUpTo n))
  | declarationUpTo (n) : Production (declarationUpTo n)
  | declaration : Production declaration

theorem Production.composed {α : Type} {p : Parser α} (h : Production p) : Composed p := by
  have hexpr := Composed.expressionUpTo
  have hdecl := Composed.declarationUpTo
  cases h with
  | advance => exact .advance
  | expect => exact .expect _ _
  | expectClosing => exact .expectClosing _ _ _
  | expectIdentifier => exact .expectIdentifier _
  | grouping n => exact (hexpr n).grouping
  | primary n => exact (hexpr n).primary
  | argument n => exact (hexpr n).argument _
  | arguments n => exact .itemsBefore (hexpr n).argument _
  | finishCall n => exact (hexpr n).finishCall _ _
  | calls n => exact (hexpr n).calls _ _
  | call n => exact (hexpr n).call
  | unaryUpTo n => exact (hexpr n).unaryUpTo _
  | factor n => exact (hexpr n).factor
  | term n => exact .chain _ _ (hexpr n).factor
  | comparison n => exact (hexpr n).comparison
  | equality n => exact .chain _ _ (hexpr n).comparison
  | conjunction n => exact (hexpr n).conjunction
  | disjunction n => exact (hexpr n).disjunction
  | expressionUpTo n => exact hexpr n
  | expression => exact .expression
  | block n => exact (hdecl n).block _
  | parameter => exact .parameter _
  | parameters => exact .itemsBefore .parameter _
  | function n => exact (hdecl n).function
  | initialValue => exact .initialValue
  | expressionBefore => exact .expressionBefore _
  | variableDeclaration => exact .variableDeclaration
  | expressionStatement => exact .expressionStatement
  | printStatement => exact .printStatement
  | returnStatement => exact .returnStatement
  | elseBranch n => exact (hdecl n).elseBranch
  | otherwise n => exact (hdecl n).otherwise
  | conditional n => exact (hdecl n).conditional
  | whileLoop n => exact (hdecl n).whileLoop
  | forInitializer => exact .forInitializer
  | forLoop n => exact (hdecl n).forLoop
  | declarationUpTo n => exact hdecl n
  | declaration => exact .declaration

variable {s s' : ParseState}

theorem nextUpTo_succ (n : Nat) (s : ParseState) :
    nextUpTo (n + 1) s = if s.cursor.atEnd then (none, s)
      else match recovering declaration s with
        | (some stmt, s') => (some stmt, s')
        | (none, s') => nextUpTo n s' := by
  rw [nextUpTo]
  by_cases h : s.cursor.atEnd = true
  · simp only [h, bind, StateT.bind, get, getThe, MonadStateOf.get, StateT.get, pure, if_true]
    rfl
  · simp only [h]
    rcases hr : recovering declaration s with ⟨_ | stmt, s'⟩ <;>
      simp [h, hr, bind, StateT.bind, get, getThe, MonadStateOf.get, StateT.get, pure]
    rfl

/-- If no declaration is left, then no token is left before the end. -/
theorem nextUpTo_none {tokens : List Token} {n : Nat} (hs : s.Within tokens)
    (hn : s.cursor.ahead.length ≤ n) (h : nextUpTo n s = (none, s')) :
    s'.Within tokens ∧ s'.cursor.atEnd = true := by
  induction n generalizing s with
  | zero =>
    obtain ⟨-, rfl⟩ := Prod.mk.inj h
    have hnil : s.cursor.ahead = [] := List.eq_nil_of_length_eq_zero (Nat.le_zero.1 hn)
    exact ⟨hs, by simp [Cursor.atEnd, Cursor.current, hnil, Token.ofKind]⟩
  | succ n ih =>
    rw [nextUpTo_succ] at h
    split at h
    next hend =>
      obtain ⟨-, rfl⟩ := Prod.mk.inj h
      exact ⟨hs, hend⟩
    next hend =>
      obtain ⟨ts, rs, hr, hne, -⟩ :=
        recovering_sound declaration_sound .declaration (Bool.eq_false_iff.2 hend)
      have hpos := List.length_pos_of_ne_nil hne
      have hlength := hr.length
      rcases hrun : recovering declaration s with ⟨_ | stmt, s₁⟩
      · rw [hrun] at h hr hlength
        exact ih (hs.reads hr).1 (by omega) h
      · rw [hrun] at h
        cases h

/-- A bound on nestings that is not less than the number of tokens left is as good as none. -/
theorem recovering_bound {tokens : List Token} (hs : s.Within tokens) {n : Nat}
    (hn : Token.endOfInput tokens ≤ s.cursor.position + n) :
    (recovering (declarationUpTo n) s).1 = (recovering declaration s).1 ∧
      (recovering (declarationUpTo n) s).2.cursor = (recovering declaration s).2.cursor ∧
      (recovering (declarationUpTo n) s).2.errors = (recovering declaration s).2.errors := by
  obtain ⟨-, us, rest, hahead, hus, hrest, hend⟩ := hs.exists_ahead
  have habreast : s.Abreast true us s :=
    ⟨rfl, rfl, hus, ⟨rest, hahead, fun _ => hrest⟩, ⟨rest, hahead, fun _ => hrest⟩, fun _ => rfl,
      fun _ => Iff.rfl, nofun⟩
  have hlength : us.length ≤ s.cursor.ahead.length := habreast.length_le.1
  have hbound : us.length ≤ n := by omega
  obtain ⟨ts, us', es, -, hpasses, hpasses', hsame, -⟩ := recovering_together
    (Alike.declarationUpTo hbound hlength us s s (Nat.le_refl _) habreast) habreast
    (SoundStatement.progresses (declarationUpTo_sound n))
  exact ⟨hsame, hpasses.cursor_errors_eq hpasses'⟩

end Parser

/-- Parsing any list of tokens comes to its end. The cursor never goes back and never passes the end
of the input, every declaration moves it on, and no more declarations come just where the input
ends. Each statement and each fatal error takes a token. -/
theorem parse_progress (names : NameTable) (tokens : List Token) :
    (Parser.start names tokens).Within tokens ∧
    (∀ s : ParseState, s.Within tokens → s.cursor.atEnd = false → ∀ n,
      (recovering (declarationUpTo n) s).2.Within tokens ∧
      s.cursor.position < (recovering (declarationUpTo n) s).2.cursor.position ∧
      (Token.endOfInput tokens ≤ s.cursor.position + n →
        (recovering (declarationUpTo n) s).1 = (recovering declaration s).1 ∧
        (recovering (declarationUpTo n) s).2.cursor = (recovering declaration s).2.cursor ∧
        (recovering (declarationUpTo n) s).2.errors = (recovering declaration s).2.errors)) ∧
    (∀ s : ParseState, s.Within tokens → ∀ {α : Type} (p : Parser α), Production p →
      (answer p s).2.Within tokens ∧ s.cursor.position ≤ (answer p s).2.cursor.position) ∧
    (∀ s s' : ParseState, s.Within tokens → next? s = (none, s') →
      s'.cursor.position = Token.endOfInput tokens) ∧
    (parse names tokens).statements.length + fatals (parse names tokens).errors ≤
      Token.endOfInput tokens := by
  refine ⟨?_, fun s hs hend n => ?_, fun s hs α p hp => ?_, fun s s' hs hnext => ?_, ?_⟩
  · exact ParseState.Within.of_consumed (s := Parser.start names tokens) nofun
  · obtain ⟨ts, rs, hr, hne, -⟩ :=
      recovering_sound (declarationUpTo_sound n) (.declarationUpTo n) hend
    obtain ⟨hwithin, hposition⟩ := hs.reads hr
    have hpos := List.length_pos_of_ne_nil hne
    exact ⟨hwithin, by omega, recovering_bound hs⟩
  · obtain ⟨⟨ts, rs, hr⟩, -⟩ := hp.composed.forward s
    obtain ⟨hwithin, hposition⟩ := hs.reads hr
    exact ⟨hwithin, by omega⟩
  · obtain ⟨hwithin, hend⟩ := nextUpTo_none hs (Nat.le_refl _) hnext
    exact hwithin.atEnd_iff.1 hend
  · obtain ⟨ts, rest, rfl, hts, hrest⟩ := Token.exists_endOfInput tokens
    rw [Token.endOfInput_append hts hrest]
    exact (parse_accounts names hts hrest).2

/-- A semicolon and a second one, behind the end of file. -/
def semicolons : List Token :=
  [⟨.symbol .semicolon, ⟨0, 1⟩⟩, ⟨.eof, ⟨1, 1⟩⟩, ⟨.symbol .semicolon, ⟨2, 3⟩⟩]

/-- The first semicolon is taken although there is no statement, the second one is not. -/
theorem parse_progress_semicolons : (Parser.start NameTable.empty semicolons).Within semicolons ∧
    (recovering declaration (Parser.start NameTable.empty semicolons)).2.cursor.position = 1 := by
  obtain ⟨hstart, hstep, -, -, -⟩ := parse_progress NameTable.empty semicolons
  obtain ⟨hwithin, hless, -⟩ := hstep _ hstart (by decide) semicolons.length
  exact ⟨hstart, Nat.le_antisymm hwithin.position_le hless⟩

end Tarn
