import Tarn.Proofs.Parsing.StatementLocality

/-! Errors do not spread to their neighbours. The tokens up to a semicolon, whatever they are, give
the statement or the error that they give alone, wherever they stand. -/
namespace Tarn

open ParseError Grammar Tarn.Parser

/-- Tokens up to a semicolon without a brace between them. Only the first of them may start a
declaration, which is no `for`. -/
structure Chunk where
  body : List Token
  stop : Span
  plain : ∀ t ∈ body, t.kind ∉
    [TokenKind.symbol .semicolon, .symbol .leftBrace, .symbol .rightBrace, .eof]
  first : ∀ t ∈ body.head?, t.kind ≠ .keyword .forKw
  later : ∀ t ∈ body.tail, KindSet.declarationStart.contains t.kind = false

def Chunk.tokens (c : Chunk) : List Token := c.body ++ [⟨.symbol .semicolon, c.stop⟩]

/-- A program of chunks, and of blocks of them. -/
inductive Layout where
  | empty
  | chunk (c : Chunk) (rest : Layout)
  | braces (opening : Span) (inner : Layout) (closing : Span) (rest : Layout)

namespace Layout

def tokens : Layout → List Token
  | empty => []
  | chunk c rest => c.tokens ++ rest.tokens
  | braces opening inner closing rest => ⟨.symbol .leftBrace, opening⟩ ::
      (inner.tokens ++ ⟨.symbol .rightBrace, closing⟩ :: rest.tokens)

variable (names : NameTable) (last : List Token)

/-- What the chunks give, each of them parsed alone, before the end `last` of its input. -/
def statements : Layout → List Stmt
  | empty => []
  | chunk c rest => (parse names (c.tokens ++ last)).statements ++ rest.statements
  | braces opening inner closing rest =>
      .block ⟨opening.merge closing, inner.statements⟩ :: rest.statements

/-- The errors of the chunks, each of them parsed alone. -/
def errors : Layout → List ParseError
  | empty => []
  | chunk c rest => (parse names (c.tokens ++ last)).errors ++ rest.errors
  | braces _ inner _ rest => inner.errors ++ rest.errors

end Layout

section Semicolons

variable {mode : Mode}

/-! What derives without braces ends with a semicolon. -/

theorem Grammar.Braces.exists_leftBrace {inside ts body rs} (h : Braces mode inside ts body rs) :
    ∃ t ∈ ts, t.kind = .symbol .leftBrace := by
  cases h with
  | mk ho => exact ⟨_, List.mem_cons_self, ho⟩

theorem Grammar.Conditional.exists_leftBrace {inside ts stmt rs}
    (h : Conditional mode inside ts stmt rs) : ∃ t ∈ ts, t.kind = .symbol .leftBrace := by
  cases h with
  | mk _ _ hb _ =>
    obtain ⟨t, ht, hk⟩ := hb.exists_leftBrace
    exact ⟨t, by simp [ht], hk⟩

theorem Grammar.VariableDeclaration.exists_semicolon {ts stmt rs}
    (h : VariableDeclaration mode ts stmt rs) :
    ∃ ts' t, ts = ts' ++ [t] ∧ t.kind = .symbol .semicolon := by
  cases h with
  | @plain v n s _ _ _ hs => exact ⟨[v, n], s, rfl, hs⟩
  | @initialized v n eq ts s _ _ _ _ _ _ _ hs => exact ⟨v :: n :: eq :: ts, s, rfl, hs⟩

theorem Grammar.Declaration.exists_semicolon {inside ts stmt rs}
    (h : Declaration mode inside ts stmt rs) (hts : ∀ t ∈ ts, t.kind ≠ .symbol .leftBrace) :
    ∃ ts' t, ts = ts' ++ [t] ∧ t.kind = .symbol .semicolon := by
  have hnone {ts' : List Token} (hsub : ∀ t ∈ ts', t ∈ ts)
      (h : ∃ t ∈ ts', t.kind = .symbol .leftBrace) : False := by
    obtain ⟨t, ht, hk⟩ := h
    exact hts t (hsub t ht) hk
  cases h with
  | function _ _ _ _ _ hb => exact (hnone (by simp +contextual) hb.exists_leftBrace).elim
  | var h => exact h.exists_semicolon
  | expression h =>
    cases h with
    | mk _ hs => exact ⟨_, _, rfl, hs⟩
  | forLoop _ _ _ _ _ hb => exact (hnone (by simp +contextual) hb.exists_leftBrace).elim
  | conditional h => exact (hnone (fun _ ht => ht) h.exists_leftBrace).elim
  | @print _ p ts s _ _ _ _ hs => exact ⟨p :: ts, s, rfl, hs⟩
  | @result _ r ts s _ _ _ _ hs => exact ⟨r :: ts, s, rfl, hs⟩
  | whileLoop _ _ hb => exact (hnone (by simp +contextual) hb.exists_leftBrace).elim
  | block h => exact (hnone (fun _ ht => ht) h.exists_leftBrace).elim

end Semicolons

/-- Where no token is dropped, a program of one statement is a declaration. -/
theorem Grammar.Declarations.of_singleton {mode : Mode} {inside ts stmt rs}
    (h : Declarations mode inside ts [stmt] rs) (hmode : mode ≠ .recovering) :
    Declaration mode inside ts stmt rs := by
  cases h with
  | cons h hs =>
    cases hs with
    | nil => simpa using h
    | dropped hrecovering => exact absurd hrecovering hmode
  | dropped hrecovering => exact absurd hrecovering hmode

namespace Cursor

/-- Skipping goes past the next semicolon, if nothing stops it before. -/
theorem skip_ahead {recovery : KindSet} (hrecovery : recovery.contains (.symbol .semicolon) = false)
    (names : NameTable) (consumed : List Token) {body rest : List Token} {t : Token}
    (ht : t.kind = .symbol .semicolon)
    (hbody : ∀ u ∈ body, u.kind ≠ .eof ∧ u.kind ≠ .symbol .semicolon ∧
      recovery.contains u.kind = false) :
    (skip recovery names consumed (body ++ t :: rest)).2.ahead = rest := by
  induction body generalizing consumed with
  | nil => simp [skip, ht, hrecovery]
  | cons u body ih =>
    obtain ⟨⟨heof, hsemicolon, hcontains⟩, hbody⟩ := List.forall_mem_cons.1 hbody
    simpa [skip, heof, hsemicolon, hcontains] using ih (u :: consumed) hbody

/-- Synchronizing goes past the next semicolon. A declaration that has failed at its first token is
not stopped there. -/
theorem synchronize_ahead {c : Cursor} {recovery : KindSet}
    (hrecovery : recovery.contains (.symbol .semicolon) = false) (start : Nat)
    {body rest : List Token} {t : Token} (ht : t.kind = .symbol .semicolon)
    (hc : c.ahead = body ++ t :: rest)
    (hbody : ∀ u ∈ body, u.kind ≠ .eof ∧ u.kind ≠ .symbol .semicolon)
    (htail : ∀ u ∈ body.tail, recovery.contains u.kind = false)
    (hmoved : c.position ≠ start → ∀ u ∈ body, recovery.contains u.kind = false) :
    (c.synchronize recovery start).2.ahead = rest := by
  have hreal : c.atEnd = false := by
    cases body with
    | nil => simp [Cursor.atEnd, Cursor.current_of_ahead hc, ht]
    | cons u body => simp [Cursor.atEnd, Cursor.current_of_ahead hc, hbody u List.mem_cons_self]
  unfold synchronize
  by_cases hposition : c.position = start
  · rw [if_pos ⟨hposition, by simp [hreal]⟩]
    cases body with
    | nil => simp [Cursor.current_of_ahead hc, ht, advance, hc]
    | cons u body =>
      obtain ⟨⟨heof, hsemicolon⟩, hbody⟩ := List.forall_mem_cons.1 hbody
      simp only [Cursor.current_of_ahead hc, hsemicolon, if_false, advance, hc, List.cons_append,
        heof]
      exact skip_ahead hrecovery _ _ ht fun v hv =>
        ⟨(hbody v hv).1, (hbody v hv).2, htail v hv⟩
  · rw [if_neg (by simp [hposition]), hc]
    exact skip_ahead hrecovery _ _ ht fun v hv =>
      ⟨(hbody v hv).1, (hbody v hv).2, hmoved hposition v hv⟩

end Cursor

namespace Chunk

variable (c : Chunk) {ts us : List Token} {es : List ParseError} {s s' s₁ : ParseState}

theorem tokens_ne_nil : c.tokens ≠ [] := by simp [tokens]

theorem kind_ne {kind : TokenKind} {t : Token} (ht : t ∈ c.tokens)
    (hkind : kind ∈ [TokenKind.symbol .leftBrace, .symbol .rightBrace, .eof]) : t.kind ≠ kind := by
  rintro rfl
  obtain ht | ht := List.mem_append.1 ht
  · exact c.plain t ht (List.mem_cons_of_mem _ hkind)
  · simp [List.mem_singleton.1 ht] at hkind

theorem real {t : Token} (ht : t ∈ c.tokens) : t.kind ≠ .eof := c.kind_ne ht (by simp)

theorem current_mem {cursor : Cursor} {rest : List Token} (h : cursor.ahead = c.tokens ++ rest) :
    cursor.current ∈ c.tokens := by
  obtain ⟨t, us, htokens⟩ := List.exists_cons_of_ne_nil c.tokens_ne_nil
  rw [htokens] at h ⊢
  rw [Cursor.current_of_ahead h]
  exact List.mem_cons_self

theorem atEnd_eq_false {cursor : Cursor} {rest : List Token} (h : cursor.ahead = c.tokens ++ rest) :
    cursor.atEnd = false :=
  Bool.eq_false_iff.2 fun hend => c.real (c.current_mem h) ((Cursor.atEnd_iff _).1 hend)

theorem ne_for {t : Token} (ht : t ∈ c.body) : t.kind ≠ .keyword .forKw := by
  intro hfor
  obtain ⟨u, body, hbody⟩ := List.exists_cons_of_ne_nil (List.ne_nil_of_mem ht)
  have hfirst := c.first
  have hlater := c.later
  rw [hbody] at ht hfirst hlater
  obtain rfl | ht := List.mem_cons.1 ht
  · exact hfirst t rfl hfor
  · have hnot := hlater t ht
    rw [hfor] at hnot
    cases hnot

theorem fenced : Token.Fenced c.tokens := by
  refine ⟨⟨_, List.mem_append_right _ List.mem_cons_self, rfl⟩, fun t ht => ?_⟩
  refine ⟨c.kind_ne ht (by simp), ?_⟩
  obtain ht | ht := List.mem_append.1 ht
  · exact c.ne_for ht
  · simp [List.mem_singleton.1 ht]

/-- Behind its first token, nothing in a chunk stops recovery. -/
theorem contains_eq_false {t : Token} (ht : t ∈ c.body.tail) (depth : Nat) :
    (if 0 < depth then KindSet.blockRecovery else .declarationStart).contains t.kind = false := by
  have hlater := c.later t ht
  split
  · have hbrace : (TokenKind.symbol .rightBrace).sameShape t.kind = false := by
      refine Bool.eq_false_iff.2 fun hshape => ?_
      rw [TokenKind.sameShape, BEq.comm] at hshape
      have hplain := c.plain t (List.mem_of_mem_tail ht)
      rw [(TokenKind.sameShape_symbol _ _).1 hshape] at hplain
      simp at hplain
    rw [KindSet.contains, KindSet.blockRecovery, List.any_cons, hbrace, Bool.false_or]
    exact hlater
  · exact hlater

/-- A proper part of a chunk is a part of its body. -/
theorem body_of_tokens (h : c.tokens = ts ++ us) (hus : us ≠ []) :
    ∃ body, c.body = ts ++ body ∧ us = body ++ [⟨.symbol .semicolon, c.stop⟩] := by
  obtain ⟨body, t, rfl⟩ := (List.eq_nil_or_concat' us).resolve_left hus
  rw [tokens, ← List.append_assoc, List.append_singleton_inj] at h
  exact ⟨body, h.1, by rw [h.2]⟩

/-- After a failure before its semicolon, recovery goes on right behind the chunk. -/
theorem passes_recovered {rest : List Token} (hs : s.cursor.ahead = c.tokens ++ rest)
    (h : c.tokens = ts ++ us) (hus : us ≠ []) (hp : s.Passes ts es s₁) (e : ParseError) :
    s.Passes c.tokens (es ++ [e]) (recovered s₁ e s.cursor.position) := by
  obtain ⟨body, hbody, rfl⟩ := c.body_of_tokens h hus
  obtain ⟨ts', hpasses, -⟩ := Parser.passes_recovered hp e (c.atEnd_eq_false hs)
  have hahead : s₁.cursor.ahead = body ++ ⟨.symbol .semicolon, c.stop⟩ :: rest := by
    have hsplit := hp.reads.ahead
    rw [hs, h, List.append_assoc, List.append_cancel_left_eq] at hsplit
    simpa using hsplit.symm
  -- Only the first token may be one that recovery stops at, and then it was consumed or is passed.
  have hmoved (hts : ts ≠ []) : ∀ t ∈ body, t ∈ c.body.tail := by
    obtain ⟨u, us, rfl⟩ := List.exists_cons_of_ne_nil hts
    simp +contextual [hbody]
  have hsync : (recovered s₁ e s.cursor.position).cursor.ahead = rest := by
    refine Cursor.synchronize_ahead (by split <;> decide) _ rfl hahead (fun t ht => ?_)
      (fun t ht => c.contains_eq_false ?_ _)
      fun hposition t ht => c.contains_eq_false (hmoved ?_ t ht) _
    · have hplain := c.plain t (by simp [hbody, ht])
      simp_all
    · by_cases hts : ts = []
      · rwa [hbody, hts]
      · exact hmoved hts t (List.mem_of_mem_tail ht)
    · rintro rfl
      simp [Cursor.position, hp.reads.consumed] at hposition
  have hall := hpasses.reads.ahead
  rw [hs, hsync, List.append_cancel_right_eq] at hall
  rwa [hall]

/-- Wherever a chunk stands, and however many nestings are allowed, it gives the same. It is either
a statement or a fatal error. -/
theorem recovering_together (hs : s.Abreast false c.tokens s') {k k' : Nat}
    (hk : c.tokens.length ≤ k) (hk' : c.tokens.length ≤ k') : ∃ es,
      (recovering (declarationUpTo k) s).1 = (recovering (declarationUpTo k') s').1 ∧
      s.Passes c.tokens es (recovering (declarationUpTo k) s).2 ∧
      s'.Passes c.tokens es (recovering (declarationUpTo k') s').2 ∧
      fatals es + (recovering (declarationUpTo k) s).1.toList.length = 1 := by
  obtain ⟨r, s₁, s₁', ts, us, es, ha, ha', htokens, hpasses, hpasses', hkept⟩ :=
    (Alike.declarationUpTo hk hk' c.tokens s s' (Nat.le_refl _) hs).exists_answers
  obtain ⟨hnone, hkept⟩ := hkept rfl
  rw [recovering_eq, recovering_eq, ha, ha']
  cases r with
  | error e =>
    have hus : us ≠ [] := by
      obtain ⟨t, ht, -⟩ := hkept.resolve_right (by simp)
      exact List.ne_nil_of_mem ht
    obtain ⟨rest, hrest, -⟩ := hs.left
    obtain ⟨rest', hrest', -⟩ := hs.right
    refine ⟨es ++ [e], rfl, c.passes_recovered hrest htokens hus hpasses e,
      c.passes_recovered hrest' htokens hus hpasses' e, ?_⟩
    have hfatal := ((Composed.declarationUpTo k).forward s).2 e (by rw [ha])
    rw [fatals_append, hnone, fatals_singleton hfatal]
    rfl
  | ok stmt =>
    obtain ⟨ts', rs, hreads, hd⟩ := declarationUpTo_sound k ha
    obtain rfl : ts' = ts :=
      List.append_cancel_right (hreads.ahead.symm.trans hpasses.reads.ahead)
    have hbraceless : ∀ t ∈ ts', t.kind ≠ .symbol .leftBrace := fun t ht =>
      c.kind_ne (by simp [htokens, ht]) (by simp)
    -- A declaration without braces ends with a semicolon, and the chunk has just the last one.
    obtain rfl : us = [] := by
      by_contra hus
      obtain ⟨body, hbody, -⟩ := c.body_of_tokens htokens hus
      obtain ⟨ts, t, rfl, ht⟩ := hd.exists_semicolon hbraceless
      have hplain := c.plain t (by simp [hbody])
      simp [ht] at hplain
    rw [List.append_nil] at htokens
    rw [htokens]
    exact ⟨es, rfl, hpasses, hpasses', by simp [hnone]⟩

theorem abreast {rest rest' : List Token} (hnames : s.cursor.names = s'.cursor.names)
    (hdepth : s.functionDepth = s'.functionDepth) (hs : s.cursor.ahead = c.tokens ++ rest)
    (hs' : s'.cursor.ahead = c.tokens ++ rest') : s.Abreast false c.tokens s' :=
  ⟨hnames, hdepth, fun _ => c.real, ⟨rest, hs, nofun⟩, ⟨rest', hs', nofun⟩,
    fun hnil => absurd hnil c.tokens_ne_nil, nofun, fun _ => c.fenced⟩

section Alone

variable (names : NameTable)

theorem length_le (last : List Token) :
    c.tokens.length ≤ (start names (c.tokens ++ last)).cursor.ahead.length := by
  simp [start, Cursor.ofTokens]

theorem passes_alone (last : List Token) : ∃ es, (start names (c.tokens ++ last)).Passes c.tokens es
      (recovering declaration (start names (c.tokens ++ last))).2 ∧
    fatals es + (recovering declaration (start names (c.tokens ++ last))).1.toList.length = 1 := by
  let s := start names (c.tokens ++ last)
  have habreast : s.Abreast false c.tokens s := c.abreast rfl rfl rfl rfl
  have hlength := c.length_le names last
  obtain ⟨es, -, hpasses, -, hcount⟩ := c.recovering_together habreast hlength hlength
  exact ⟨es, hpasses, hcount⟩

variable {last : List Token} (hlast : AtEnd last)
include hlast

/-- Parsing a chunk alone takes one round of the loop over declarations. -/
theorem parse_tokens : (parse names (c.tokens ++ last)).statements =
      (recovering declaration (start names (c.tokens ++ last))).1.toList ∧
    (parse names (c.tokens ++ last)).errors =
      (recovering declaration (start names (c.tokens ++ last))).2.errors.toList := by
  let s := start names (c.tokens ++ last)
  obtain ⟨es, hpasses, -⟩ := c.passes_alone names last
  have hahead : (recovering declaration s).2.cursor.ahead = last :=
    (List.append_cancel_left hpasses.reads.ahead).symm
  have hend : (recovering declaration s).2.cursor.atEnd = true :=
    (Cursor.atEnd_iff _).2 (hlast.current hahead)
  have hgoes : s.cursor.atEnd = false := c.atEnd_eq_false rfl
  have hpos : 0 < s.cursor.ahead.length :=
    Nat.lt_of_lt_of_le (List.length_pos_of_ne_nil c.tokens_ne_nil) (c.length_le names last)
  obtain ⟨n, hn⟩ := Nat.exists_eq_succ_of_ne_zero (Nat.ne_of_gt hpos)
  have hprogram : program s =
      ((recovering declaration s).1.toList, (recovering declaration s).2) := by
    show declarationsUpTo (fun _ => false) declaration s.cursor.ahead.length [] s = _
    rw [hn, declarationsUpTo_of_goes (by rw [hgoes, Bool.false_or]),
      declarationsUpTo_of_stops (by rw [hend, Bool.or_true]), List.nil_append]
  rw [parse, hprogram]
  exact ⟨rfl, rfl⟩

/-- A chunk gives what it gives alone, in a program that allows enough nestings. -/
theorem recovering_alone {k : Nat} {rest : List Token} (hk : c.tokens.length ≤ k)
    (hnames : s.cursor.names = names) (hdepth : s.functionDepth = 0)
    (hs : s.cursor.ahead = c.tokens ++ rest) :
    (recovering (declarationUpTo k) s).1.toList = (parse names (c.tokens ++ last)).statements ∧
      s.Passes c.tokens (parse names (c.tokens ++ last)).errors
        (recovering (declarationUpTo k) s).2 := by
  let s' := start names (c.tokens ++ last)
  have habreast : s.Abreast false c.tokens s' := c.abreast hnames hdepth hs rfl
  obtain ⟨es, hsame, hpasses, hpasses', -⟩ :=
    c.recovering_together habreast hk (c.length_le names last)
  obtain ⟨hstatements, herrors⟩ := c.parse_tokens names hlast
  have hes : (parse names (c.tokens ++ last)).errors = es := herrors.trans hpasses'.errors
  rw [hstatements, hes]
  exact ⟨congrArg Option.toList hsame, hpasses⟩

/-- A chunk alone gives either a statement or a fatal error. -/
theorem fatals_add_length : fatals (parse names (c.tokens ++ last)).errors +
    (parse names (c.tokens ++ last)).statements.length = 1 := by
  obtain ⟨es, hpasses, hcount⟩ := c.passes_alone names last
  obtain ⟨hstatements, herrors⟩ := c.parse_tokens names hlast
  have hes : (parse names (c.tokens ++ last)).errors = es := herrors.trans hpasses.errors
  rw [hstatements, hes]
  exact hcount

theorem parse_of_declaration {mode : Mode} (hmode : mode ≠ .recovering) {stmt : Stmt}
    {rs : List Remark} (hd : Declaration mode false c.tokens stmt rs) :
    (parse names (c.tokens ++ last)).statements = [stmt] ∧
      fatals (parse names (c.tokens ++ last)).errors = 0 := by
  have hprogram : Program mode c.tokens [stmt] rs := by
    simpa using Declarations.cons hd .nil
  have hstatements := (parse_complete names hlast hmode hprogram).1
  have hcount := c.fatals_add_length names hlast
  rw [hstatements, List.length_singleton] at hcount
  exact ⟨hstatements, by omega⟩

theorem parse_of_malformed (hd : ¬ ∃ stmt rs, Declaration .lenient false c.tokens stmt rs) :
    (parse names (c.tokens ++ last)).statements = [] ∧
      fatals (parse names (c.tokens ++ last)).errors = 1 := by
  have hcount := c.fatals_add_length names hlast
  have hprogram := parse_derives names hlast fun _ => c.real
  rcases hstatements : (parse names (c.tokens ++ last)).statements with _ | ⟨stmt, stmts⟩
  · rw [hstatements] at hcount
    exact ⟨rfl, hcount⟩
  · rw [hstatements, List.length_cons] at hcount
    rw [hstatements, List.eq_nil_of_length_eq_zero (l := stmts) (by omega)] at hprogram
    have hadmits : Mode.lenient.Admits
        ((parse names (c.tokens ++ last)).errors.map fun e => ⟨e.code, e.span⟩) := by
      have hnone : fatals (parse names (c.tokens ++ last)).errors = 0 := by omega
      simpa [Mode.Admits] using List.countP_eq_zero.1 hnone
    exact absurd ⟨stmt, _, (hprogram.restrict hadmits).of_singleton (by decide)⟩ hd

end Alone

end Chunk

namespace Parser

/-- Before `n` tokens, the parser is a declaration that allows as many nestings at least. -/
def Nests (n : Nat) (p : Parser Stmt) : Prop := ∀ s : ParseState,
  ∃ k, min n s.cursor.ahead.length ≤ k ∧ answer p s = answer (declarationUpTo k) s

namespace Nests

variable {n : Nat} {p : Parser Stmt}

theorem declarationUpTo {k : Nat} (h : n ≤ k) : Nests n (Parser.declarationUpTo k) :=
  fun _ => ⟨k, Nat.le_trans (Nat.min_le_left _ _) h, rfl⟩

theorem declaration : Nests n Parser.declaration := fun s =>
  ⟨s.cursor.ahead.length, Nat.min_le_right _ _, rfl⟩

theorem mono {m : Nat} (h : Nests n p) (hm : m ≤ n) : Nests m p := by
  intro s
  obtain ⟨k, hk, hanswer⟩ := h s
  exact ⟨k, by omega, hanswer⟩

theorem recovering {ts rest : List Token} (h : Nests ts.length p) {s : ParseState}
    (hs : s.cursor.ahead = ts ++ rest) :
    ∃ k, ts.length ≤ k ∧ recovering p s = recovering (Parser.declarationUpTo k) s := by
  obtain ⟨k, hk, hanswer⟩ := h s
  rw [hs, List.length_append] at hk
  exact ⟨k, by omega, by rw [recovering_eq, recovering_eq, hanswer]⟩

end Nests

end Parser

/-- One round of the loop over declarations, neither before a closing brace nor at the end. -/
theorem Parser.declarationsUpTo_round {stops : Cursor → Bool}
    (hstops : ∀ c, stops c = true → c.current.kind = .symbol .rightBrace) {p : Parser Stmt}
    {s : ParseState} (hbrace : s.cursor.current.kind ≠ .symbol .rightBrace)
    (heof : s.cursor.current.kind ≠ .eof) {ts us : List Token} {es es' : List ParseError}
    {stmts more : List Stmt} (hstmts : (recovering p s).1.toList = stmts)
    (hpasses : s.Passes ts es (recovering p s).2) {m : Nat} (found : List Stmt)
    (hrest : (declarationsUpTo stops p m (found ++ stmts) (recovering p s).2).1 =
        found ++ stmts ++ more ∧
      (recovering p s).2.Passes us es'
        (declarationsUpTo stops p m (found ++ stmts) (recovering p s).2).2) :
    (declarationsUpTo stops p (m + 1) found s).1 = found ++ (stmts ++ more) ∧
      s.Passes (ts ++ us) (es ++ es') (declarationsUpTo stops p (m + 1) found s).2 := by
  have hgoes : (stops s.cursor || s.cursor.atEnd) = false := by
    rw [Bool.or_eq_false_iff]
    exact ⟨Bool.eq_false_iff.2 fun hstop => hbrace (hstops _ hstop),
      Bool.eq_false_iff.2 fun hend => heof ((Cursor.atEnd_iff _).1 hend)⟩
  obtain ⟨hfound, hafter⟩ := hrest
  rw [declarationsUpTo_of_goes hgoes, hstmts, hfound, List.append_assoc]
  exact ⟨rfl, hpasses.trans hafter⟩

namespace Layout

variable (names : NameTable) {last : List Token}

/-- Braces give a block of what the loop over the declarations between them gives. -/
theorem recovering_braces {inner : Layout} {opening closing : Span} {k : Nat} {rest : List Token}
    {s : ParseState}
    (hs : s.cursor.ahead = ⟨.symbol .leftBrace, opening⟩ ::
      (inner.tokens ++ ⟨.symbol .rightBrace, closing⟩ :: rest))
    (hinner : ∀ s₁ : ParseState, s₁.cursor.names = s.cursor.names →
      s₁.functionDepth = s.functionDepth →
      s₁.cursor.ahead = inner.tokens ++ ⟨.symbol .rightBrace, closing⟩ :: rest →
      (declarationsUpTo (·.check (.symbol .rightBrace)) (declarationUpTo k)
          s₁.cursor.ahead.length [] s₁).1 = inner.statements names last ∧
        s₁.Passes inner.tokens (inner.errors names last)
          (declarationsUpTo (·.check (.symbol .rightBrace)) (declarationUpTo k)
            s₁.cursor.ahead.length [] s₁).2) :
    (recovering (declarationUpTo (k + 1)) s).1.toList =
        [.block ⟨opening.merge closing, inner.statements names last⟩] ∧
      s.Passes (⟨.symbol .leftBrace, opening⟩ ::
        (inner.tokens ++ [⟨.symbol .rightBrace, closing⟩])) (inner.errors names last)
        (recovering (declarationUpTo (k + 1)) s).2 := by
  have hcurrent := Cursor.current_of_ahead hs
  have hopen := ParseState.Passes.advance_of_ahead hs nofun
  obtain ⟨hstatements, hbody⟩ := hinner
    { s with cursor := s.cursor.advance, blockDepth := s.blockDepth + 1 } hopen.reads.names rfl
    (hopen.reads.rest hs)
  obtain ⟨s₁, hblock, hpasses⟩ := succeeds_block "expected `\x7b`" rfl rfl hs
    (Prod.ext hstatements rfl) hbody
  have hdeclaration : answer (declarationUpTo (k + 1)) s = answer (Stmt.block <$>
      block (declarationUpTo k) "expected `\x7b`") s := by
    simp [declarationUpTo, declarationWith, hcurrent]
  rw [recovering_eq, hdeclaration, hblock.map Stmt.block]
  exact ⟨rfl, hpasses⟩

/-- The loop over declarations gives what the chunks of a layout give alone. -/
theorem declarationsUpTo_layout (hlast : AtEnd last) (l : Layout) {m : Nat} {p : Parser Stmt}
    (hp : Nests l.tokens.length p) (hm : l.tokens.length ≤ m) (stops : Cursor → Bool)
    (hstops : ∀ c, stops c = true → c.current.kind = .symbol .rightBrace) {rest : List Token}
    (hend : ∀ c : Cursor, c.ahead = rest → (stops c || c.atEnd) = true) {s : ParseState}
    (hnames : s.cursor.names = names) (hdepth : s.functionDepth = 0)
    (hs : s.cursor.ahead = l.tokens ++ rest) (found : List Stmt) :
    (declarationsUpTo stops p m found s).1 = found ++ l.statements names last ∧
      s.Passes l.tokens (l.errors names last) (declarationsUpTo stops p m found s).2 := by
  -- The parser is general, since a block reads its declarations with one nesting less.
  induction l generalizing m p stops rest s found with
  | empty =>
    rw [declarationsUpTo_of_stops (hend _ hs)]
    exact ⟨(List.append_nil found).symm, .refl s⟩
  | chunk c l ih =>
    rw [tokens, List.length_append] at hp hm
    have hpos := List.length_pos_of_ne_nil c.tokens_ne_nil
    obtain ⟨m, rfl⟩ := Nat.exists_eq_succ_of_ne_zero (n := m) (by omega)
    have hmore : l.tokens.length ≤ m := by omega
    have hs : s.cursor.ahead = c.tokens ++ (l.tokens ++ rest) := by
      rw [hs, tokens, List.append_assoc]
    have hcurrent := c.current_mem hs
    obtain ⟨k, hk, hrecovering⟩ := (hp.mono (Nat.le_add_right _ _)).recovering hs
    obtain ⟨hstatements, hpasses⟩ := c.recovering_alone names hlast hk hnames hdepth hs
    rw [← hrecovering] at hstatements hpasses
    exact declarationsUpTo_round hstops (c.kind_ne hcurrent (by simp)) (c.real hcurrent)
      hstatements hpasses found (ih (hp.mono (Nat.le_add_left _ _)) hmore stops hstops hend
        (hpasses.reads.names.trans hnames) (hpasses.reads.functionDepth.trans hdepth)
        (hpasses.reads.rest hs) _)
  | braces opening inner closing l ihinner ih =>
    obtain ⟨k, hk, hrecovering⟩ := hp.recovering hs
    rw [tokens, List.length_cons, List.length_append, List.length_cons] at hp hm hk
    obtain ⟨m, rfl⟩ := Nat.exists_eq_succ_of_ne_zero (n := m) (by omega)
    obtain ⟨k, rfl⟩ := Nat.exists_eq_succ_of_ne_zero (n := k) (by omega)
    have hmore : l.tokens.length ≤ m := by omega
    have hk : inner.tokens.length ≤ k := by omega
    have hs : s.cursor.ahead = ⟨.symbol .leftBrace, opening⟩ ::
        (inner.tokens ++ ⟨.symbol .rightBrace, closing⟩ :: (l.tokens ++ rest)) := by
      rw [hs, tokens, List.cons_append, List.append_assoc, List.cons_append]
    have hcurrent := Cursor.current_of_ahead hs
    obtain ⟨hstatements, hpasses⟩ := recovering_braces names hs fun s₁ hnames₁ hdepth₁ hs₁ =>
      ihinner (.declarationUpTo hk) (by rw [hs₁, List.length_append]; omega) _
        (fun _ => (Cursor.check_symbol _ _).1) (fun _ => check_rightBrace_of_ahead rfl)
        (hnames₁.trans hnames) (hdepth₁.trans hdepth) hs₁ []
    rw [← hrecovering] at hstatements hpasses
    have hround := declarationsUpTo_round hstops (by simp [hcurrent]) (by simp [hcurrent])
      hstatements hpasses found (ih (hp.mono (by omega)) hmore stops hstops hend
        (hpasses.reads.names.trans hnames) (hpasses.reads.functionDepth.trans hdepth)
        (hpasses.reads.rest (by simpa using hs)) _)
    simpa [tokens, errors, statements] using hround

end Layout

/-- Chunks are parsed alike in a program and alone. A chunk that derives, even with remarks, gives
its statement and no fatal error; a chunk that does not derive gives no statement and a fatal
error. -/
theorem parse_layout (names : NameTable) (l : Layout) {rest last : List Token}
    (hrest : AtEnd rest) (hlast : AtEnd last) :
    (parse names (l.tokens ++ rest)).statements = l.statements names last ∧
    (parse names (l.tokens ++ rest)).errors = l.errors names last ∧
    ∀ c : Chunk,
      (∀ mode stmt rs, mode ≠ .recovering → Declaration mode false c.tokens stmt rs →
        (parse names (c.tokens ++ last)).statements = [stmt] ∧
          fatals (parse names (c.tokens ++ last)).errors = 0) ∧
      ((¬ ∃ stmt rs, Declaration .lenient false c.tokens stmt rs) →
        (parse names (c.tokens ++ last)).statements = [] ∧
          fatals (parse names (c.tokens ++ last)).errors = 1) := by
  let s := start names (l.tokens ++ rest)
  have hlength : l.tokens.length ≤ s.cursor.ahead.length := by simp [s, start, Cursor.ofTokens]
  obtain ⟨hstatements, hpasses⟩ := l.declarationsUpTo_layout names hlast (s := s) .declaration
    hlength (fun _ => false) nofun
    (fun c hc => by rw [(Cursor.atEnd_iff c).2 (hrest.current hc), Bool.or_true]) rfl rfl rfl []
  exact ⟨hstatements, hpasses.errors, fun c =>
    ⟨fun _ _ _ hmode hd => c.parse_of_declaration names hlast hmode hd,
      fun hd => c.parse_of_malformed names hlast hd⟩⟩

/-- A `print` of nothing, and a block around a `print` of a number. -/
def Layout.prints : Layout :=
  .chunk ⟨[⟨.keyword .printKw, ⟨0, 5⟩⟩], ⟨6, 7⟩, by decide, by decide, by decide⟩
    (.braces ⟨8, 9⟩ (.chunk ⟨[⟨.keyword .printKw, ⟨10, 15⟩⟩, ⟨.number 0, ⟨16, 17⟩⟩], ⟨17, 18⟩,
      by decide, by decide, by decide⟩ .empty) ⟨19, 20⟩ .empty)

theorem parse_layout_prints : AtEnd [⟨.eof, ⟨20, 20⟩⟩] ∧
    (parse NameTable.empty (Layout.prints.tokens ++ [⟨.eof, ⟨20, 20⟩⟩])).statements =
      [.block ⟨⟨8, 20⟩, [.print ⟨10, 18⟩ (.literal ⟨16, 17⟩ (.number 0))]⟩] ∧
    (parse NameTable.empty (Layout.prints.tokens ++ [⟨.eof, ⟨20, 20⟩⟩])).errors.map (·.code) =
      [.missingExpression] := by
  have hend := atEnd_eof ⟨20, 20⟩
  obtain ⟨hstatements, herrors, -⟩ := parse_layout NameTable.empty Layout.prints hend hend
  refine ⟨hend, hstatements.trans rfl, ?_⟩
  rw [herrors]
  rfl

end Tarn
