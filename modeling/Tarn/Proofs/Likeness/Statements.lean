import Tarn.Proofs.Likeness.Parsing
import Tarn.Proofs.Parsing.Forward

/-! Parsing statements that are alike, with the recovery from those that fail. -/
namespace Tarn

variable {L : Likeness}

namespace Parser

variable {α β : Type}

/-- What is alike in a state that recovers. -/
theorem recovering_alike {declaration : Parser Stmt}
    (h : Agree L (Stmt.Alike L) declaration declaration) {s s' : ParseState}
    (hs : ParseState.Alike L s s') :
    Option.Rel (Stmt.Alike L) (recovering declaration s).1 (recovering declaration s').1 ∧
      ParseState.Alike L (recovering declaration s).2 (recovering declaration s').2 := by
  obtain ⟨hends, hstates⟩ := h hs
  rw [recovering_eq, recovering_eq]
  simp only [answer]
  rcases hrun : declaration s with ⟨x, s₁⟩
  rcases hrun' : declaration s' with ⟨y, s₁'⟩
  rw [hrun, hrun'] at hends hstates
  cases hends with
  | ok h => exact ⟨.some h, hstates⟩
  | error he =>
    refine ⟨.none, ?_, ?_, hstates.functionDepth, hstates.blockDepth⟩
    · simp only [recovered]
      rw [← hs.cursor.position_eq, ← hstates.blockDepth]
      exact hstates.cursor.synchronize _ _
    · simp only [recovered, Array.toList_push]
      exact List.rel_append hstates.errors (.cons he .nil)

theorem declarationsUpTo_alike {stops : Cursor → Bool}
    (hstops : ∀ {c c'}, Cursor.Alike L c c' → stops c = stops c') {declaration : Parser Stmt}
    (h : Agree L (Stmt.Alike L) declaration declaration) (n : Nat) {found found' : List Stmt}
    (hfound : Stmt.AllAlike L found found') {s s' : ParseState} (hs : ParseState.Alike L s s') :
    Stmt.AllAlike L (declarationsUpTo stops declaration n found s).1
        (declarationsUpTo stops declaration n found' s').1 ∧
      ParseState.Alike L (declarationsUpTo stops declaration n found s).2
        (declarationsUpTo stops declaration n found' s').2 := by
  induction n generalizing found found' s s' with
  | zero => exact ⟨hfound, hs⟩
  | succ n ih =>
    rw [declarationsUpTo_succ, declarationsUpTo_succ, ← hstops hs.cursor, ← hs.cursor.atEnd_eq]
    split
    · exact ⟨hfound, hs⟩
    · obtain ⟨hstmt, hstates⟩ := recovering_alike h hs
      rcases hrun : recovering declaration s with ⟨x, s₁⟩
      rcases hrun' : recovering declaration s' with ⟨y, s₁'⟩
      rw [hrun, hrun'] at hstmt hstates
      cases hstmt with
      | none => exact ih hfound hstates
      | some hstmt => exact ih (hfound.append (.cons hstmt .nil)) hstates

namespace Agree

section Statements

variable (hL : L.Closed) {nested : Parser Stmt} (h : Agree L (Stmt.Alike L) nested nested)
include h

theorem inBraces (stops : Cursor → Bool)
    (hstops : ∀ {c c'}, Cursor.Alike L c c' → stops c = stops c') (n : Nat) :
    Agree L (Stmt.AllAlike L) (Parser.inBraces (Parser.declarationsUpTo stops nested n []))
      (Parser.inBraces (Parser.declarationsUpTo stops nested n [])) := by
  intro s s' hs
  have hopen : ParseState.Alike L { s with blockDepth := s.blockDepth + 1 }
      { s' with blockDepth := s'.blockDepth + 1 } :=
    ⟨hs.cursor, hs.errors, hs.functionDepth, by rw [hs.blockDepth]⟩
  obtain ⟨hstmts, hstates⟩ := declarationsUpTo_alike hstops h n .nil hopen
  have hdepth := hstates.blockDepth
  exact ⟨.ok hstmts, hstates.cursor, hstates.errors, hstates.functionDepth,
    congrArg (· - 1) hdepth⟩

omit h in
theorem inFunction {P : α → β → Prop} {p : Parser α} {q : Parser β} (hp : Agree L P p q) :
    Agree L P (Parser.inFunction p) (Parser.inFunction q) := by
  intro s s' hs
  have hopen : ParseState.Alike L { s with functionDepth := s.functionDepth + 1 }
      { s' with functionDepth := s'.functionDepth + 1 } :=
    ⟨hs.cursor, hs.errors, by rw [hs.functionDepth], hs.blockDepth⟩
  obtain ⟨hends, hstates⟩ := hp hopen
  have hdepth := hstates.functionDepth
  exact ⟨hends, hstates.cursor, hstates.errors, congrArg (· - 1) hdepth, hstates.blockDepth⟩

omit h in
theorem parameter {found found' : List Param}
    (hfound : List.Forall₂ (Param.Alike L) found found') :
    Agree L (Param.Alike L) (Parser.parameter found) (Parser.parameter found') := by
  refine cursor.bind fun {c c'} hc => ?_
  refine (reportIf (by rw [hfound.length_eq]) (hc.errorHere rfl _)).bind fun _ => ?_
  refine (expectIdentifier _).bind fun {r r'} hr => ?_
  obtain ⟨name, span⟩ := r
  obtain ⟨name', span'⟩ := r'
  have hdeclared : (found.any (·.name == name)) = (found'.any (·.name == name')) := by
    induction hfound with
    | nil => rfl
    | cons hp _ ih =>
      rw [List.any_cons, List.any_cons, ih]
      congr 1
      rw [Bool.eq_iff_iff, beq_iff_eq, beq_iff_eq]
      exact Likeness.name_iff hp.name hr.1
  dsimp only
  rw [hdeclared, hc.spelling hr.1]
  exact (reportIf Iff.rfl (.at rfl _ hr.2 _)).bind fun _ => .pure ⟨hr.1, hr.2⟩

include hL

theorem block (message : String) :
    Agree L (Block.Alike L) (Parser.block nested message) (Parser.block nested message) := by
  refine (expect _ _).bind fun ho => remaining.bind ?_
  rintro n _ rfl
  exact (inBraces h _ (fun hc => hc.check_eq _) n).bind fun hstmts =>
    (expectClosing _ ho _).bind fun hc => .pure (.mk (hL.merge ho hc) hstmts)

theorem function : Agree L (Stmt.Alike L) (Parser.function nested) (Parser.function nested) :=
  advance.bind fun hstart => (expectIdentifier _).bind fun hname => (expect _ _).bind fun ho =>
    (itemsBefore parameter _).bind fun hparams => (expectClosing _ ho _).bind fun _ =>
      (inFunction (block hL h _)).bind fun hbody =>
        .pure (.function (hL.merge hstart hbody.span) (.mk hname.1 hname.2 hparams hbody))

omit h in
theorem expressionBefore (stop : TokenKind) : Agree L (Expr.OptionAlike L)
    (Parser.expressionBefore stop) (Parser.expressionBefore stop) := by
  refine (check stop).bind ?_
  rintro stops _ rfl
  exact .ite Iff.rfl (.pure .none) ((expression hL).map .some)

omit h in
theorem initialValue :
    Agree L (Expr.OptionAlike L) Parser.initialValue Parser.initialValue := by
  refine (check _).bind ?_
  rintro given _ rfl
  exact .ite Iff.rfl (advance.bind fun _ => (expression hL).map .some) (.pure .none)

omit h in
theorem variableDeclaration :
    Agree L (Stmt.Alike L) Parser.variableDeclaration Parser.variableDeclaration :=
  advance.bind fun hstart => (expectIdentifier _).bind fun hname => (initialValue hL).bind fun hv =>
    (expect _ _).bind fun hstop => .pure (.var (hL.merge hstart hstop) hname.1 hname.2 hv)

omit h in
theorem expressionStatement :
    Agree L (Stmt.Alike L) Parser.expressionStatement Parser.expressionStatement :=
  (expression hL).bind fun he => (expect _ _).bind fun hstop =>
    .pure (.expression (hL.merge he.span hstop) he)

omit h in
theorem printStatement : Agree L (Stmt.Alike L) Parser.printStatement Parser.printStatement :=
  advance.bind fun hstart => (expression hL).bind fun he => (expect _ _).bind fun hstop =>
    .pure (.print (hL.merge hstart hstop) he)

omit h in
theorem returnStatement :
    Agree L (Stmt.Alike L) Parser.returnStatement Parser.returnStatement :=
  advance.bind fun hkeyword => Parallel.get.bind fun hs =>
    (reportIf (by rw [hs.functionDepth]) (.at rfl _ hkeyword _)).bind fun _ =>
      (expressionBefore hL _).bind fun hv => (expect _ _).bind fun hstop =>
        .pure (.result (hL.merge hkeyword hstop) hkeyword hv)

theorem elseBranch :
    Agree L (Block.Alike L) (Parser.elseBranch nested) (Parser.elseBranch nested) := by
  refine (check _).bind ?_
  rintro chained _ rfl
  exact .ite Iff.rfl (h.bind fun hs => .pure (.mk hs.span (.cons hs .nil))) (block hL h _)

theorem otherwise :
    Agree L (Block.OptionAlike L) (Parser.otherwise nested) (Parser.otherwise nested) := by
  refine (check _).bind ?_
  rintro given _ rfl
  exact .ite Iff.rfl (advance.bind fun _ => (elseBranch hL h).map .some) (.pure .none)

theorem conditional :
    Agree L (Stmt.Alike L) (Parser.conditional nested) (Parser.conditional nested) := by
  refine advance.bind fun hstart => (expression hL).bind fun he => (block hL h _).bind fun hb =>
    (otherwise hL h).bind fun ho => .pure (.conditional (hL.merge hstart ?_) he hb ho)
  cases ho with
  | none => exact hb.span
  | some ho => exact ho.span

theorem whileLoop : Agree L (Stmt.Alike L) (Parser.whileLoop nested) (Parser.whileLoop nested) :=
  advance.bind fun hstart => (expression hL).bind fun he => (block hL h _).bind fun hb =>
    .pure (.loop (hL.merge hstart hb.span) he hb)

omit h in
theorem forInitializer :
    Agree L (Option.Rel (Stmt.Alike L)) Parser.forInitializer Parser.forInitializer := by
  have hexpression : Agree L (Option.Rel (Stmt.Alike L)) (some <$> Parser.expressionStatement)
      (some <$> Parser.expressionStatement) := (expressionStatement hL).map .some
  refine current.bind fun {t t'} ht => ?_
  obtain ⟨kind, span⟩ := t
  obtain ⟨kind', span'⟩ := t'
  cases ht.kind with
  | symbol s =>
    cases s with
    | semicolon => exact advance.bind fun _ => .pure .none
    | _ => exact hexpression
  | keyword k =>
    cases k with
    | varKw => exact (variableDeclaration hL).map .some
    | _ => exact hexpression
  | _ => exact hexpression

omit h in
theorem forLoopOf_alike {span span' semicolon semicolon' : Span} (hspan : L.place span span')
    (hsemicolon : L.place semicolon semicolon') {initializer initializer' : Option Stmt}
    (hi : Option.Rel (Stmt.Alike L) initializer initializer')
    {condition condition' increment increment' : Option Expr}
    (hc : Expr.OptionAlike L condition condition') (hn : Expr.OptionAlike L increment increment')
    {body body' : Block} (hb : Block.Alike L body body') :
    Stmt.Alike L (forLoopOf span initializer condition semicolon increment body)
      (forLoopOf span' initializer' condition' semicolon' increment' body') := by
  have hcondition : Expr.Alike L
      (condition.getD (.literal (Span.point semicolon.start) (.bool true)))
      (condition'.getD (.literal (Span.point semicolon'.start) (.bool true))) := by
    cases hc with
    | none => exact .literal (hL.point hsemicolon) (.bool true)
    | some hc => exact hc
  have hround : Block.Alike L
      ⟨(increment.map fun e => body.span.merge e.span).getD body.span,
        .block body :: (increment.map fun e => Stmt.expression e.span e).toList⟩
      ⟨(increment'.map fun e => body'.span.merge e.span).getD body'.span,
        .block body' :: (increment'.map fun e => Stmt.expression e.span e).toList⟩ := by
    cases hn with
    | none => exact .mk hb.span (.cons (.block hb) .nil)
    | some hn =>
      exact .mk (hL.merge hb.span hn.span)
        (.cons (.block hb) (.cons (.expression hn.span hn) .nil))
  have hloop := Stmt.Alike.loop hspan hcondition hround
  cases hi with
  | none => exact .block (.mk hspan (.cons hloop .nil))
  | some hi => exact .block (.mk hspan (.cons hi (.cons hloop .nil)))

theorem forLoop : Agree L (Stmt.Alike L) (Parser.forLoop nested) (Parser.forLoop nested) :=
  advance.bind fun hstart => (forInitializer hL).bind fun hi =>
    (expressionBefore hL _).bind fun hc => (expect _ _).bind fun hsemicolon =>
      (expressionBefore hL _).bind fun hn => (block hL h _).bind fun hb => (log _ _).bind fun _ =>
        .pure (forLoopOf_alike hL (hL.merge hstart hb.span) hsemicolon hi hc hn hb)

theorem declarationWith :
    Agree L (Stmt.Alike L) (Parser.declarationWith nested) (Parser.declarationWith nested) := by
  refine current.bind fun {t t'} ht => ?_
  obtain ⟨kind, span⟩ := t
  obtain ⟨kind', span'⟩ := t'
  cases ht.kind with
  | symbol s =>
    cases s with
    | leftBrace => exact (block hL h _).map .block
    | _ => exact expressionStatement hL
  | keyword k =>
    cases k with
    | funKw => exact function hL h
    | varKw => exact variableDeclaration hL
    | forKw => exact forLoop hL h
    | ifKw => exact conditional hL h
    | printKw => exact printStatement hL
    | returnKw => exact returnStatement hL
    | whileKw => exact whileLoop hL h
    | _ => exact expressionStatement hL
  | _ => exact expressionStatement hL

end Statements

variable (hL : L.Closed)
include hL

theorem declarationUpTo (n : Nat) :
    Agree L (Stmt.Alike L) (Parser.declarationUpTo n) (Parser.declarationUpTo n) := by
  induction n with
  | zero => exact expressionStatement hL
  | succ n ih => exact declarationWith hL ih

theorem declaration : Agree L (Stmt.Alike L) Parser.declaration Parser.declaration := by
  refine remaining.bind ?_
  rintro n _ rfl
  exact declarationUpTo hL n

end Agree

end Parser

/-- Tokens that are alike parse to statements that are alike and to errors that are alike. -/
theorem parse_alike (hL : L.Closed) {names names' : NameTable}
    (hspelling : ∀ {n n'}, L.name n n' → names.spelling n = names'.spelling n')
    {tokens tokens' : List Token} (htokens : List.Forall₂ (Token.Alike L) tokens tokens')
    (hends : (∃ t ∈ tokens, t.kind = .eof) ∨ L.place .nowhere .nowhere) :
    Stmt.AllAlike L (parse names tokens).statements (parse names' tokens').statements ∧
      List.Forall₂ (ParseError.Alike L) (parse names tokens).errors
        (parse names' tokens').errors := by
  have hstart : ParseState.Alike L (Parser.start names tokens) (Parser.start names' tokens') :=
    ⟨⟨hspelling, .nil, htokens, hends⟩, .nil, rfl, rfl⟩
  have hstop {c c' : Cursor} (_ : Cursor.Alike L c c') : false = false := rfl
  obtain ⟨hstmts, hstates⟩ := Parser.declarationsUpTo_alike hstop (Parser.Agree.declaration hL)
    tokens.length .nil hstart
  have hprogram (names : NameTable) (tokens : List Token) :
      Parser.program (Parser.start names tokens) = Parser.declarationsUpTo (fun _ => false)
        Parser.declaration tokens.length [] (Parser.start names tokens) := rfl
  rw [parse, parse, hprogram, hprogram, ← htokens.length_eq]
  exact ⟨hstmts, hstates.errors⟩

end Tarn
