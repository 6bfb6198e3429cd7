import Tarn.Proofs.Parsing.Steps

/-! What productions are made of. Each is composed of single steps, and a depth is changed only
around what is read inside braces or inside a function, and changed back. -/
namespace Tarn.Parser

variable {α β : Type}

/-- The parser is composed of single steps, each of which looks at the state, consumes a token,
reports, logs, or ends with a fatal error. -/
inductive Composed : {α : Type} → Parser α → Prop where
  | pure {α : Type} (a : α) : Composed (Pure.pure a : Parser α)
  | get : Composed (MonadState.get : Parser ParseState)
  | advance : Composed advance
  | report (e : ParseError) : Composed (report e)
  | log (e : ParseEvent) : Composed (log e)
  | failHere {α : Type} {code : ErrorCode} (message : String) (h : code.isFatal) :
      Composed (failHere code message : Parser α)
  | expect (kind : TokenKind) (message : String) : Composed (expect kind message)
  | expectClosing (kind : TokenKind) (opening : Span) (message : String) :
      Composed (expectClosing kind opening message)
  | expectIdentifier (message : String) : Composed (expectIdentifier message)
  | bind {α β : Type} {p : Parser α} {f : α → Parser β} (hp : Composed p)
      (hf : ∀ a, Composed (f a)) : Composed (p >>= f)
  | recovering {declaration : Parser Stmt} (h : Composed declaration) :
      Composed (ExceptT.lift (recovering declaration))
  | inBraces {α : Type} {p : StateM ParseState α} (h : Composed (ExceptT.lift p)) :
      Composed (inBraces p)
  | inFunction {α : Type} {p : Parser α} (h : Composed p) : Composed (inFunction p)

theorem lift_bind (p : StateM ParseState α) (f : α → StateM ParseState β) :
    (ExceptT.lift (p >>= f) : Parser β) = ExceptT.lift p >>= fun a => ExceptT.lift (f a) := rfl

@[simp] theorem answer_lift (p : StateM ParseState α) (s : ParseState) :
    answer (ExceptT.lift p) s = (.ok (p s).1, (p s).2) := rfl

namespace Composed

theorem map {p : Parser α} (f : α → β) (hp : Composed p) : Composed (f <$> p) := by
  rw [map_eq_pure_bind]
  exact hp.bind fun a => pure (f a)

theorem ite {c : Prop} [Decidable c] {p q : Parser α} (hp : Composed p) (hq : Composed q) :
    Composed (if c then p else q) := by
  split
  · exact hp
  · exact hq

theorem cursor : Composed Parser.cursor := get.bind fun s => pure s.cursor

theorem current : Composed Parser.current := cursor.bind fun c => pure c.current

theorem check (kind : TokenKind) : Composed (Parser.check kind) :=
  cursor.bind fun c => pure (c.check kind)

theorem remaining : Composed Parser.remaining := cursor.bind fun c => pure c.ahead.length

theorem reportIf (p : Prop) [Decidable p] (e : ParseError) : Composed (Parser.reportIf p e) :=
  ite (report e) (pure ())

theorem moreItems {item : List α → Parser α} (h : ∀ found, Composed (item found)) (n : Nat)
    (found : List α) : Composed (Parser.moreItems item n found) := by
  induction n generalizing found with
  | zero => exact pure found
  | succ n ih =>
    unfold Parser.moreItems
    exact (check _).bind fun _ =>
      ite (advance.bind fun _ => (h found).bind fun a => ih _) (pure found)

theorem itemsBefore {item : List α → Parser α} (h : ∀ found, Composed (item found))
    (stop : TokenKind) : Composed (Parser.itemsBefore stop item) :=
  (check stop).bind fun _ => ite (pure [])
    ((h []).bind fun a => remaining.bind fun n => moreItems h n [a])

section Expressions

variable {nested : Parser Expr} (h : Composed nested)
include h

theorem grouping : Composed (Parser.grouping nested) :=
  advance.bind fun _ => h.bind fun _ => (expectClosing _ _ _).bind fun _ => pure _

theorem primary : Composed (Parser.primary nested) := by
  refine current.bind fun token => ?_
  split
  · exact advance.bind fun _ => pure _
  · exact advance.bind fun _ => pure _
  · exact grouping h
  · exact failHere _ rfl

theorem argument (found : List Expr) : Composed (Parser.argument nested found) :=
  cursor.bind fun _ => (reportIf _ _).bind fun _ => h

theorem finishCall (callee : Expr) (opening : Span) :
    Composed (Parser.finishCall nested callee opening) :=
  (itemsBefore (argument h) _).bind fun _ => (expectClosing _ _ _).bind fun _ => pure _

theorem calls (n : Nat) (callee : Expr) : Composed (Parser.calls nested n callee) := by
  induction n generalizing callee with
  | zero => exact pure callee
  | succ n ih =>
    exact (check _).bind fun _ =>
      ite (advance.bind fun opening => (finishCall h callee opening).bind fun e => ih e)
        (pure callee)

theorem call : Composed (Parser.call nested) :=
  (primary h).bind fun callee => remaining.bind fun n => calls h n callee

theorem unaryUpTo (n : Nat) : Composed (Parser.unaryUpTo nested n) := by
  induction n with
  | zero => exact call h
  | succ n ih =>
    refine current.bind fun token => ?_
    split
    · exact call h
    · exact advance.bind fun _ => ih.bind fun _ => pure _

omit h in
theorem chain {op : Type} (op? : TokenKind → Option op) (join : op → Span → Expr → Expr → Expr)
    {operand : Parser Expr} (ho : Composed operand) : Composed (Parser.chain op? join operand) := by
  refine ho.bind fun left => remaining.bind fun n => ?_
  induction n generalizing left with
  | zero => exact pure left
  | succ n ih =>
    refine current.bind fun token => ?_
    split
    · exact pure left
    · exact advance.bind fun _ => ho.bind fun _ => ih _

theorem factor : Composed (Parser.factor nested) :=
  chain _ _ <| remaining.bind fun n => unaryUpTo h n

theorem comparison : Composed (Parser.comparison nested) := chain _ _ <| chain _ _ <| factor h

theorem conjunction : Composed (Parser.conjunction nested) :=
  chain _ _ <| chain _ _ <| comparison h

theorem disjunction : Composed (Parser.disjunction nested) := chain _ _ <| conjunction h

theorem assignment : Composed (Parser.assignment nested) := by
  refine (disjunction h).bind fun target => (check _).bind fun _ => ite ?_ (pure target)
  refine advance.bind fun _ => h.bind fun value => ?_
  split
  · exact pure _
  · exact (report _).bind fun _ => pure value

end Expressions

theorem expressionUpTo (n : Nat) : Composed (Parser.expressionUpTo n) := by
  induction n with
  | zero => exact failHere _ rfl
  | succ n ih => exact assignment ih

theorem expression : Composed Parser.expression := remaining.bind fun n => expressionUpTo n

section Statements

variable {nested : Parser Stmt} (h : Composed nested)
include h

theorem declarationsUpTo (stops : Cursor → Bool) (n : Nat) (found : List Stmt) :
    Composed (ExceptT.lift (Parser.declarationsUpTo stops nested n found)) := by
  induction n generalizing found with
  | zero => exact pure found
  | succ n ih =>
    rw [Parser.declarationsUpTo, lift_bind]
    refine bind get fun s => ?_
    dsimp only
    split
    · exact pure found
    · rw [lift_bind]
      refine bind (recovering h) fun stmt => ?_
      split
      · exact ih _
      · exact ih _

theorem block (message : String) : Composed (Parser.block nested message) :=
  (expect _ _).bind fun _ => remaining.bind fun n => (inBraces (declarationsUpTo h _ n [])).bind
    fun _ => (expectClosing _ _ _).bind fun _ => pure _

omit h in
theorem parameter (found : List Param) : Composed (Parser.parameter found) :=
  cursor.bind fun _ => (reportIf _ _).bind fun _ => (expectIdentifier _).bind fun _ =>
    (reportIf _ _).bind fun _ => pure _

theorem function : Composed (Parser.function nested) :=
  advance.bind fun _ => (expectIdentifier _).bind fun _ => (expect _ _).bind fun _ =>
    (itemsBefore parameter _).bind fun _ => (expectClosing _ _ _).bind fun _ =>
      (inFunction (block h _)).bind fun _ => pure _

omit h in
theorem expressionBefore (stop : TokenKind) : Composed (Parser.expressionBefore stop) :=
  (check stop).bind fun _ => ite (pure none) (expression.map some)

omit h in
theorem initialValue : Composed Parser.initialValue :=
  (check _).bind fun _ => ite (advance.bind fun _ => expression.map some) (pure none)

omit h in
theorem variableDeclaration : Composed Parser.variableDeclaration :=
  advance.bind fun _ => (expectIdentifier _).bind fun _ => initialValue.bind fun _ =>
    (expect _ _).bind fun _ => pure _

omit h in
theorem expressionStatement : Composed Parser.expressionStatement :=
  expression.bind fun _ => (expect _ _).bind fun _ => pure _

omit h in
theorem printStatement : Composed Parser.printStatement :=
  advance.bind fun _ => expression.bind fun _ => (expect _ _).bind fun _ => pure _

omit h in
theorem returnStatement : Composed Parser.returnStatement :=
  advance.bind fun _ => get.bind fun _ => (reportIf _ _).bind fun _ =>
    (expressionBefore _).bind fun _ => (expect _ _).bind fun _ => pure _

theorem elseBranch : Composed (Parser.elseBranch nested) :=
  (check _).bind fun _ => ite (h.bind fun _ => pure _) (block h _)

theorem otherwise : Composed (Parser.otherwise nested) :=
  (check _).bind fun _ => ite (advance.bind fun _ => (elseBranch h).map some) (pure none)

theorem conditional : Composed (Parser.conditional nested) :=
  advance.bind fun _ => expression.bind fun _ => (block h _).bind fun _ =>
    (otherwise h).bind fun _ => pure _

theorem whileLoop : Composed (Parser.whileLoop nested) :=
  advance.bind fun _ => expression.bind fun _ => (block h _).bind fun _ => pure _

omit h in
theorem forInitializer : Composed Parser.forInitializer := by
  refine current.bind fun token => ?_
  split
  · exact advance.bind fun _ => pure _
  · exact variableDeclaration.map some
  · exact expressionStatement.map some

theorem forLoop : Composed (Parser.forLoop nested) :=
  advance.bind fun _ => forInitializer.bind fun _ => (expressionBefore _).bind fun _ =>
    (expect _ _).bind fun _ => (expressionBefore _).bind fun _ => (block h _).bind fun _ =>
      (log _).bind fun _ => pure _

theorem declarationWith : Composed (Parser.declarationWith nested) := by
  refine current.bind fun token => ?_
  split
  · exact function h
  · exact variableDeclaration
  · exact forLoop h
  · exact conditional h
  · exact printStatement
  · exact returnStatement
  · exact whileLoop h
  · exact (block h _).map _
  · exact expressionStatement

end Statements

theorem declarationUpTo (n : Nat) : Composed (Parser.declarationUpTo n) := by
  induction n with
  | zero => exact expressionStatement
  | succ n ih => exact declarationWith ih

theorem declaration : Composed Parser.declaration := remaining.bind fun n => declarationUpTo n

theorem nextUpTo (n : Nat) : Composed (ExceptT.lift (Parser.nextUpTo n)) := by
  induction n with
  | zero => exact pure none
  | succ n ih =>
    rw [Parser.nextUpTo, lift_bind]
    refine bind get fun s => ?_
    split
    · exact pure none
    · rw [lift_bind]
      refine bind (recovering declaration) fun stmt => ?_
      split
      · exact pure _
      · exact ih

theorem program : Composed (ExceptT.lift Parser.program) := by
  rw [Parser.program, lift_bind]
  exact bind get fun s => declarationsUpTo declaration _ _ _

end Composed

end Tarn.Parser
