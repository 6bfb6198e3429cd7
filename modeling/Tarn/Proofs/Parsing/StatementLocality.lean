import Tarn.Proofs.Parsing.Errors
import Tarn.Proofs.Parsing.Locality

/-! What statements and programs do depends on the tokens they stand before. -/
namespace Tarn

open ParseError Grammar

/-- What is skipped depends on the tokens before the end of the input. -/
theorem Cursor.skip_append (recovery : KindSet) {us : List Token} (hus : ∀ t ∈ us, t.kind ≠ .eof) :
    ∃ ts us', us = ts ++ us' ∧ ∀ names consumed rest, AtEnd rest →
      (skip recovery names consumed (us ++ rest)).2 =
        ⟨names, ts.reverse ++ consumed, us' ++ rest⟩ := by
  induction us with
  | nil =>
    refine ⟨[], [], rfl, fun names consumed rest hrest => ?_⟩
    cases rest with
    | nil => rfl
    | cons t rest => simp [skip, hrest t rest rfl]
  | cons t us ih =>
    obtain ⟨ht, hus⟩ := List.forall_mem_cons.1 hus
    simp only [List.cons_append, skip, ht, if_false]
    by_cases hrecovery : recovery.contains t.kind = true
    · exact ⟨[], t :: us, rfl, fun names consumed rest _ => by simp [hrecovery]⟩
    by_cases hsemicolon : t.kind = .symbol .semicolon
    · refine ⟨[t], us, rfl, fun names consumed rest _ => ?_⟩
      rw [if_neg hrecovery, if_pos hsemicolon]
      rfl
    · obtain ⟨ts, us', rfl, hskip⟩ := ih hus
      refine ⟨t :: ts, us', rfl, fun names consumed rest hrest => ?_⟩
      rw [if_neg hrecovery, if_neg hsemicolon, hskip names (t :: consumed) rest hrest]
      simp

namespace ParseState.Abreast

variable {us us' ts : List Token} {es : List ParseError} {s s' s₁ s₁' : ParseState}

/-- Both skip the same. -/
theorem skip (h : Abreast true us s s') (recovery : KindSet) : ∃ ts us', us = ts ++ us' ∧
    s.Passes ts [] { s with
      cursor := (Cursor.skip recovery s.cursor.names s.cursor.consumed s.cursor.ahead).2 } ∧
    s'.Passes ts [] { s' with
      cursor := (Cursor.skip recovery s'.cursor.names s'.cursor.consumed s'.cursor.ahead).2 } := by
  obtain ⟨ts, us', rfl, hskip⟩ := Cursor.skip_append recovery h.real
  obtain ⟨rest, hrest, hend⟩ := h.left
  obtain ⟨rest', hrest', hend'⟩ := h.right
  have hpasses {s : ParseState} {rest : List Token} (hrest : s.cursor.ahead = ts ++ us' ++ rest)
      (hend : AtEnd rest) : s.Passes ts [] { s with
        cursor := (Cursor.skip recovery s.cursor.names s.cursor.consumed s.cursor.ahead).2 } := by
    rw [hrest, hskip _ _ _ hend]
    refine ⟨⟨?_, rfl, fun t ht => h.real t (List.mem_append_left _ ht), rfl, ⟨[], by simp⟩, rfl,
      rfl⟩, by simp⟩
    rw [hrest, List.append_assoc]
  exact ⟨ts, us', rfl, hpasses hrest (hend rfl), hpasses hrest' (hend' rfl)⟩

/-- Both synchronize alike, if their declarations have started at the same token. -/
theorem synchronize (h : Abreast true us s s') (recovery : KindSet) {start start' : Nat}
    (hstart : s.cursor.position = start ↔ s'.cursor.position = start') :
    ∃ ts us', us = ts ++ us' ∧
      s.Passes ts [] { s with cursor := (s.cursor.synchronize recovery start).2 } ∧
      s'.Passes ts [] { s' with cursor := (s'.cursor.synchronize recovery start').2 } := by
  unfold Cursor.synchronize
  simp only [← hstart, ← h.atEnd_eq, ← h.kind_eq]
  split
  next hfirst =>
    cases us with
    | nil => simp [h.atEnd_iff.2 rfl] at hfirst
    | cons t us =>
      obtain ⟨hpasses, hpasses'⟩ := h.passes_advance
      split
      · exact ⟨[t], us, rfl, hpasses, hpasses'⟩
      · have hboth : Abreast true ([t] ++ us) s s' := h
        obtain ⟨ts, us', rfl, hskip, hskip'⟩ := (hboth.passes hpasses hpasses' nofun).skip recovery
        rw [show s.cursor.names = s.cursor.advance.names from hpasses.reads.names.symm,
          show s'.cursor.names = s'.cursor.advance.names from hpasses'.reads.names.symm]
        exact ⟨t :: ts, us', rfl, hpasses.trans hskip, hpasses'.trans hskip'⟩
  next => exact h.skip recovery

end ParseState.Abreast

namespace Parser

/-- Both recover alike from the failure of a declaration. -/
theorem recovered_together {us' ts : List Token} {es : List ParseError}
    {s s' s₁ s₁' : ParseState} (hs : s.Abreast true (ts ++ us') s') (hp : s.Passes ts es s₁)
    (hp' : s'.Passes ts es s₁') (e : ParseError) : ∃ ts' us'', us' = ts' ++ us'' ∧
      s.Passes (ts ++ ts') (es ++ [e]) (recovered s₁ e s.cursor.position) ∧
      s'.Passes (ts ++ ts') (es ++ [e]) (recovered s₁' e s'.cursor.position) := by
  have hs₁ := hs.passes hp hp' nofun
  have hposition {s s₁ : ParseState} (hp : s.Passes ts es s₁) :
      s₁.cursor.position = s.cursor.position ↔ ts = [] := by
    simp [Cursor.position, hp.reads.consumed]
  obtain ⟨ts', us'', rfl, hsync, hsync'⟩ := hs₁.synchronize
    (if 0 < s₁.blockDepth then .blockRecovery else .declarationStart)
    ((hposition hp).trans (hposition hp').symm)
  have hrecovered {s₁ : ParseState} {c : Cursor} (h : s₁.Passes ts' [] { s₁ with cursor := c }) :
      s₁.Passes ts' [e] { s₁ with
        cursor := c, errors := s₁.errors.push e,
        events := s₁.events.push (.recovery e.code e.span) } :=
    ⟨⟨h.reads.ahead, h.reads.consumed, h.reads.real, h.reads.names, ⟨[e], by simp⟩, rfl, rfl⟩,
      by simp⟩
  refine ⟨ts', us'', rfl, hp.trans (hrecovered hsync), hp'.trans (hrecovered ?_)⟩
  simpa only [← hs₁.blockDepth rfl] using hsync'

/-- Both read the same declaration, or recover at the same place from its failure. -/
theorem recovering_together {us : List Token} {s s' : ParseState} {p q : Parser Stmt}
    (h : Together true true us s s' p q) (hs : s.Abreast true us s') (hp : Progresses p) :
    ∃ ts us' es, us = ts ++ us' ∧ s.Passes ts es (recovering p s).2 ∧
      s'.Passes ts es (recovering q s').2 ∧ (recovering p s).1 = (recovering q s').1 ∧
      (s.cursor.atEnd = false → ts ≠ []) := by
  obtain ⟨r, s₁, s₁', ts, us', es, ha, ha', rfl, hpasses, hpasses', -⟩ := h.exists_answers
  rw [recovering_eq, recovering_eq, ha, ha']
  cases r with
  | error e =>
    obtain ⟨ts', us'', rfl, hrecovered, hrecovered'⟩ := recovered_together hs hpasses hpasses' e
    refine ⟨ts ++ ts', us'', es ++ [e], (List.append_assoc ..).symm, hrecovered, hrecovered', rfl,
      fun hend => ?_⟩
    obtain ⟨ts₂, hrecovered₂, hne⟩ := passes_recovered hpasses e hend
    rwa [List.append_cancel_right (hrecovered₂.reads.ahead.symm.trans hrecovered.reads.ahead)]
      at hne
  | ok stmt =>
    refine ⟨ts, us', es, rfl, hpasses, hpasses', rfl, fun _ => ?_⟩
    have hless := hp ha
    have hlength := hpasses.reads.length
    exact List.length_pos_iff.1 (by omega)

/-- Both loops read the same declarations, and recover at the same places. -/
theorem declarationsUpTo_together {n : Nat} {p q : Parser Stmt} (h : Alike true true n p q)
    (hp : Progresses p) (stops : Cursor → Bool)
    (hstops : ∀ {us} {s s' : ParseState}, s.Abreast true us s' →
      stops s.cursor = stops s'.cursor) {k m m' : Nat}
    (hn : k ≤ n) (hm : k ≤ m) (hm' : k ≤ m') (found : List Stmt) {us : List Token}
    {s s' : ParseState} (hlen : us.length ≤ k) (hs : s.Abreast true us s') :
    ∃ ts us' es, us = ts ++ us' ∧ s.Passes ts es (declarationsUpTo stops p m found s).2 ∧
      s'.Passes ts es (declarationsUpTo stops q m' found s').2 ∧
      (declarationsUpTo stops p m found s).1 = (declarationsUpTo stops q m' found s').1 := by
  induction k generalizing m m' found us s s' with
  | zero =>
    obtain rfl := List.eq_nil_of_length_eq_zero (Nat.le_zero.1 hlen)
    have hend := hs.atEnd_iff.2 rfl
    rw [declarationsUpTo_of_stops (by rw [hend, Bool.or_true]),
      declarationsUpTo_of_stops (by rw [← hs.atEnd_eq, hend, Bool.or_true])]
    exact ⟨[], [], [], rfl, .refl s, .refl s', rfl⟩
  | succ k ih =>
    obtain ⟨m, rfl⟩ := Nat.exists_eq_succ_of_ne_zero (n := m) (by omega)
    obtain ⟨m', rfl⟩ := Nat.exists_eq_succ_of_ne_zero (n := m') (by omega)
    have hboth : (stops s'.cursor || s'.cursor.atEnd) = (stops s.cursor || s.cursor.atEnd) := by
      rw [hstops hs, hs.atEnd_eq]
    rcases hgoes : stops s.cursor || s.cursor.atEnd with _ | _
    · obtain ⟨ts, us', es, rfl, hpasses, hpasses', hsame, hne⟩ :=
        recovering_together (h us s s' (by omega) hs) hs hp
      have hpos := List.length_pos_of_ne_nil (hne (Bool.or_eq_false_iff.1 hgoes).2)
      rw [List.length_append] at hlen
      obtain ⟨ts', us'', es', rfl, hafter, hafter', hfound⟩ := ih (by omega)
        (Nat.le_of_succ_le_succ hm) (Nat.le_of_succ_le_succ hm')
        (found ++ (recovering p s).1.toList) (by omega) (hs.passes hpasses hpasses' nofun)
      rw [declarationsUpTo_of_goes hgoes, declarationsUpTo_of_goes (hboth.trans hgoes), ← hsame]
      exact ⟨ts ++ ts', us'', es ++ es', (List.append_assoc ..).symm, hpasses.trans hafter,
        hpasses'.trans hafter', hfound⟩
    · rw [declarationsUpTo_of_stops hgoes, declarationsUpTo_of_stops (hboth.trans hgoes)]
      exact ⟨[], us, [], rfl, .refl s, .refl s', rfl⟩

namespace Alike

variable {α β : Type} {ends last : Bool} {n : Nat}

theorem inFunction {p q : Parser α} (h : Alike ends last n p q) :
    Alike ends last n (Parser.inFunction p) (Parser.inFunction q) := by
  intro us s s' hlen hs
  obtain ⟨ts, us', es, hsplit, hpasses, hpasses', hsame, hkept⟩ :=
    h us { s with functionDepth := s.functionDepth + 1 }
      { s' with functionDepth := s'.functionDepth + 1 } hlen
      ⟨hs.names, congrArg (· + 1) hs.functionDepth, hs.real, hs.left, hs.right, hs.place,
        hs.blockDepth, hs.fenced⟩
  rw [Together, answer_inFunction, answer_inFunction]
  exact ⟨ts, us', es, hsplit, hpasses.leaveFunction, hpasses'.leaveFunction, hsame, hkept⟩

section Statements

variable {nested nested' : Parser Stmt} (h : Alike ends true n nested nested')
  (hp : Progresses nested)
include h hp

/-- A block ends where the input ends behind it. Among fenced tokens there is none. -/
theorem block (message : String) :
    Alike ends false (n + 1) (Parser.block nested message) (Parser.block nested' message) := by
  refine expect_bind (fun _ => by decide) fun hbrace opening => ?_
  cases ends with
  | false => exact absurd rfl (hbrace rfl)
  | true =>
    refine remaining_bind fun k m m' hk hm hm' => Alike.bind (fun us s s' hlen hs => ?_) fun _ =>
      (expectClosing (by decide) _ _).bind fun _ => pure _
    have hinside : ParseState.Abreast true us { s with blockDepth := s.blockDepth + 1 }
        { s' with blockDepth := s'.blockDepth + 1 } :=
      ⟨hs.names, hs.functionDepth, hs.real, hs.left, hs.right, hs.place, fun _ => by simp,
        hs.fenced⟩
    obtain ⟨ts, us', es, hsplit, hpasses, hpasses', hsame⟩ := declarationsUpTo_together h hp
      (·.check (.symbol .rightBrace)) (fun hs => hs.check_eq _) hk hm hm' [] hlen hinside
    rw [Together, answer_inBraces, answer_inBraces]
    exact ⟨ts, us', es, hsplit, hpasses.leaveBraces, hpasses'.leaveBraces,
      congrArg Except.ok hsame, fun hends => absurd hends (by decide)⟩

omit h hp in
theorem parameter (found : List Param) :
    Alike ends false n (Parser.parameter found) (Parser.parameter found) :=
  cursor_bind fun us s s' hlen hs => by
    rw [← hs.errorHere_eq, ← hs.names]
    refine .bind hs (reportIf rfl us s s' (Nat.le_refl _) hs) fun _ =>
      (expectIdentifier _).bind fun _ => (reportIf rfl).bind fun _ => pure _

theorem function {t : Token} (ht : t.kind = .keyword .funKw) :
    AlikeAt ends true (n + 1) t (Parser.function nested) (Parser.function nested') := by
  refine .advance_bind (by simp [ht]) fun _ => (expectIdentifier _).bind fun _ => ?_
  refine mono (expect_bind (fun _ => by decide) fun _ opening => ?_) (Nat.le_succ n)
  exact (itemsBefore parameter _).bind fun _ => (expectClosing (by decide) _ _).bind fun _ =>
    (inFunction ((block h hp _).mono (Nat.le_succ n))).bind fun _ => pure _

omit h hp in
theorem expressionBefore (stop : TokenKind) :
    Alike ends false n (Parser.expressionBefore stop) (Parser.expressionBefore stop) :=
  check_bind fun _ => ite (pure none) (expression.map some)

omit h hp in
theorem variableDeclaration {t : Token} (ht : t.kind = .keyword .varKw) :
    AlikeAt ends true (n + 1) t Parser.variableDeclaration Parser.variableDeclaration :=
  .advance_bind (by simp [ht]) fun _ => (expectIdentifier _).bind fun _ =>
    Alike.bind ((check_symbol (by decide) (fun _ => expression.map some) (pure none)).mono
      (Nat.le_succ n)) fun _ => semicolon_pure _

omit h hp in
theorem expressionStatement :
    Alike ends true n Parser.expressionStatement Parser.expressionStatement :=
  expression.bind fun _ => semicolon_pure _

omit h hp in
theorem printStatement {t : Token} (ht : t.kind = .keyword .printKw) :
    AlikeAt ends true (n + 1) t Parser.printStatement Parser.printStatement :=
  .advance_bind (by simp [ht]) fun _ => expression.bind fun _ => semicolon_pure _

omit h hp in
theorem returnStatement {t : Token} (ht : t.kind = .keyword .returnKw) :
    AlikeAt ends true (n + 1) t Parser.returnStatement Parser.returnStatement := by
  refine .advance_bind (by simp [ht]) fun keyword => get_bind fun us s s' hlen hs => ?_
  rw [← hs.functionDepth]
  exact .bind hs (reportIf rfl us s s' (Nat.le_refl _) hs) fun _ =>
    (expressionBefore _).bind fun _ => semicolon_pure _

/-- What follows a block, behind which the input ends. -/
theorem block_bind {message : String} {f g : Block → Parser α}
    (hf : ends = true → ∀ body, Alike true last n (f body) (g body)) : Alike ends last n
      (Parser.block nested message >>= f) (Parser.block nested' message >>= g) := by
  cases ends with
  | true => exact ((block h hp message).mono (Nat.le_succ n)).bind (hf rfl)
  | false =>
    simp only [Parser.block, bind_assoc]
    exact mono (expect_bind (fun _ => by decide) fun hbrace _ => absurd rfl (hbrace rfl))
      (Nat.le_succ n)

theorem otherwise (hends : ends = true) : Alike ends last n (Parser.otherwise nested)
    (Parser.otherwise nested') := by
  subst hends
  refine mono (check_keyword (fun _ => map some (check_bind fun _ => ?_)) (pure none))
    (Nat.le_succ n)
  exact ite (h.of_ends.bind fun _ => pure _) ((block h hp _).mono (Nat.le_succ n))

theorem conditional {t : Token} (ht : t.kind = .keyword .ifKw) :
    AlikeAt ends true (n + 1) t (Parser.conditional nested) (Parser.conditional nested') := by
  refine .advance_bind (by simp [ht]) fun _ => expression.bind fun _ =>
    block_bind h hp fun hends _ => ?_
  subst hends
  exact (otherwise h hp rfl).bind fun _ => pure _

theorem whileLoop {t : Token} (ht : t.kind = .keyword .whileKw) :
    AlikeAt ends true (n + 1) t (Parser.whileLoop nested) (Parser.whileLoop nested') :=
  .advance_bind (by simp [ht]) fun _ => expression.bind fun _ =>
    ((block h hp _).mono (Nat.le_succ n)).bind fun _ => pure _

omit h hp in
theorem forInitializer :
    Alike true last (n + 1) Parser.forInitializer Parser.forInitializer := by
  have hexpression {n : Nat} : Alike true last n (some <$> Parser.expressionStatement)
      (some <$> Parser.expressionStatement) := expressionStatement.of_ends.map some
  refine current_bind (fun _ _ => hexpression) fun t => ?_
  split
  next => exact .advance_bind nofun fun _ => pure _
  next hk => exact (variableDeclaration hk).of_ends.map some
  next => exact hexpression.alikeAt t

theorem forLoop {t : Token} (ht : t.kind = .keyword .forKw) :
    AlikeAt ends true (n + 1) t (Parser.forLoop nested) (Parser.forLoop nested') := by
  refine .of_for ht fun hends => ?_
  subst hends
  refine .advance_bind nofun fun _ => (forInitializer.mono (Nat.le_succ n)).bind fun _ =>
    (expressionBefore _).bind fun _ => ?_
  refine mono (expect_bind (by simp) fun _ _ => ?_) (Nat.le_succ n)
  exact (expressionBefore _).bind fun _ => ((block h hp _).mono (Nat.le_succ n)).bind fun _ =>
    (log _).bind fun _ => pure _

theorem declarationWith :
    Alike ends true (n + 1) (Parser.declarationWith nested) (Parser.declarationWith nested') := by
  refine current_bind (fun _ _ => expressionStatement) fun t => ?_
  split
  next hk => exact function h hp hk
  next hk => exact variableDeclaration hk
  next hk => exact forLoop h hp hk
  next hk => exact conditional h hp hk
  next hk => exact printStatement hk
  next hk => exact returnStatement hk
  next hk => exact whileLoop h hp hk
  next => exact ((block h hp _).map _).alikeAt t
  next => exact expressionStatement.alikeAt t

end Statements

/-- A bound on nestings that is not less than the number of tokens does not matter. -/
theorem declarationUpTo {m m' : Nat} (hm : n ≤ m) (hm' : n ≤ m') :
    Alike ends true n (Parser.declarationUpTo m) (Parser.declarationUpTo m') := by
  induction n generalizing m m' with
  | zero =>
    exact zero expressionStatement (fun s hend => answer_declarationUpTo_of_eof hend m)
      fun s hend => answer_declarationUpTo_of_eof hend m'
  | succ n ih =>
    obtain ⟨m, rfl⟩ := Nat.exists_eq_succ_of_ne_zero (n := m) (by omega)
    obtain ⟨m', rfl⟩ := Nat.exists_eq_succ_of_ne_zero (n := m') (by omega)
    exact declarationWith (ih (by omega) (by omega))
      (SoundStatement.progresses (declarationUpTo_sound m))

theorem declaration : Alike ends true n Parser.declaration Parser.declaration :=
  remaining_bind fun _ _ _ _ hm hm' => declarationUpTo hm hm'

end Alike

end Parser

end Tarn
