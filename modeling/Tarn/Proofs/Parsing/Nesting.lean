import Tarn.Proofs.Parsing.Progress

/-! How deep the parser is. At every point of a run the two depths are the numbers of function
bodies and of open braces around it, and whatever a production comes to, it leaves both as they
were. -/
namespace Tarn

open Tarn.Parser

/-- Both depths are the same. -/
structure ParseState.SameDepths (s s' : ParseState) : Prop where
  functionDepth : s'.functionDepth = s.functionDepth
  blockDepth : s'.blockDepth = s.blockDepth

namespace Parser

variable {α β : Type} {s s' s₁ : ParseState}

/-- What a part of a program can lie in. -/
inductive Enclosure where
  | functionBody
  | braces
deriving DecidableEq

/-- While `p` runs from `s`, it comes to the state `s'`. On the way it has entered the `enclosures`,
the outermost one first, and has left none of them. -/
inductive Visits : {α : Type} → Parser α → ParseState → List Enclosure → ParseState → Prop where
  | start {α : Type} (p : Parser α) (s : ParseState) : Visits p s [] s
  | finish {α : Type} {p : Parser α} (hp : Composed p) (s : ParseState) :
      Visits p s [] (answer p s).2
  | first {α β : Type} {p : Parser α} {s s' : ParseState} {enclosures : List Enclosure}
      (f : α → Parser β) (h : Visits p s enclosures s') : Visits (p >>= f) s enclosures s'
  | second {α β : Type} {p : Parser α} {f : α → Parser β} {a : α} {s s₁ s' : ParseState}
      {enclosures : List Enclosure} (hp : Composed p) (ha : answer p s = (.ok a, s₁))
      (h : Visits (f a) s₁ enclosures s') : Visits (p >>= f) s enclosures s'
  | recovering {declaration : Parser Stmt} {s s' : ParseState} {enclosures : List Enclosure}
      (h : Visits declaration s enclosures s') :
      Visits (ExceptT.lift (recovering declaration)) s enclosures s'
  | inBraces {α : Type} {p : StateM ParseState α} {s s' : ParseState}
      {enclosures : List Enclosure}
      (h : Visits (ExceptT.lift p) { s with blockDepth := s.blockDepth + 1 } enclosures s') :
      Visits (inBraces p) s (.braces :: enclosures) s'
  | inFunction {α : Type} {p : Parser α} {s s' : ParseState} {enclosures : List Enclosure}
      (h : Visits p { s with functionDepth := s.functionDepth + 1 } enclosures s') :
      Visits (inFunction p) s (.functionBody :: enclosures) s'

/-- However `p` ends, both depths are as they were. -/
theorem Composed.sameDepths {p : Parser α} (h : Composed p) (s : ParseState) :
    s.SameDepths (answer p s).2 := by
  obtain ⟨⟨ts, rs, hr⟩, -⟩ := h.forward s
  exact ⟨hr.functionDepth, hr.blockDepth⟩

theorem Composed.sameDepths_of_eq {p : Parser α} (h : Composed p) {r : Except ParseError α}
    (ha : answer p s = (r, s')) : s.SameDepths s' := by
  have hsame := h.sameDepths s
  rwa [ha] at hsame

/-- A function body ends one deeper than what is around it, so the depth that is taken back is
there. -/
theorem Composed.functionDepth_inFunction {p : Parser α} (h : Composed p) (s : ParseState) :
    (answer p { s with functionDepth := s.functionDepth + 1 }).2.functionDepth =
      (answer (Parser.inFunction p) s).2.functionDepth + 1 := by
  rw [(h.sameDepths _).functionDepth, (h.inFunction.sameDepths s).functionDepth]

theorem Composed.blockDepth_inBraces {p : StateM ParseState α} (h : Composed (ExceptT.lift p))
    (s : ParseState) : (p { s with blockDepth := s.blockDepth + 1 }).2.blockDepth =
      (answer (Parser.inBraces p) s).2.blockDepth + 1 :=
  (h.sameDepths { s with blockDepth := s.blockDepth + 1 }).blockDepth.trans
    (congrArg (· + 1) (h.inBraces.sameDepths s).blockDepth.symm)

/-- The depths count what was entered and not left. -/
theorem Visits.depths {p : Parser α} {enclosures : List Enclosure}
    (h : Visits p s enclosures s') :
    s'.functionDepth = s.functionDepth + enclosures.count .functionBody ∧
      s'.blockDepth = s.blockDepth + enclosures.count .braces := by
  induction h with
  | start p s => exact ⟨rfl, rfl⟩
  | finish hp s => exact ⟨(hp.sameDepths s).functionDepth, (hp.sameDepths s).blockDepth⟩
  | first f h ih => exact ih
  | second hp ha h ih =>
    have hsame := hp.sameDepths_of_eq ha
    rwa [hsame.functionDepth, hsame.blockDepth] at ih
  | recovering h ih => exact ih
  | inBraces h ih =>
    obtain ⟨hf, hb⟩ := ih
    refine ⟨by simpa using hf, ?_⟩
    rw [hb, List.count_cons_self]
    simp only
    omega
  | inFunction h ih =>
    obtain ⟨hf, hb⟩ := ih
    refine ⟨?_, by simpa using hb⟩
    rw [hf, List.count_cons_self]
    simp only
    omega

/-- At these depths there is no difference between the parsers. -/
def AgreeAt (functions braces : Nat) (p q : Parser α) : Prop :=
  ∀ s : ParseState, s.functionDepth = functions → s.blockDepth = braces → answer p s = answer q s

/-- The production runs the parser of nested declarations that it is given only so many functions
and so many pairs of braces deeper: it does the same with any other one that agrees there. -/
def NestsAt (P : Parser Stmt → Parser α) (depths : List (Nat × Nat)) : Prop :=
  ∀ (d d' : Parser Stmt) (s : ParseState), Composed d →
    (∀ x ∈ depths, AgreeAt (s.functionDepth + x.1) (s.blockDepth + x.2) d d') →
      answer (P d) s = answer (P d') s

namespace NestsAt

variable {depths : List (Nat × Nat)}

theorem const (p : Parser α) : NestsAt (fun _ => p) depths := fun _ _ _ _ _ => rfl

theorem nested : NestsAt id [(0, 0)] :=
  fun _ _ s _ h => h (0, 0) (List.mem_singleton_self _) s rfl rfl

theorem mono {P : Parser Stmt → Parser α} {depths' : List (Nat × Nat)} (h : NestsAt P depths)
    (hsub : depths ⊆ depths') : NestsAt P depths' :=
  fun d d' s hd hagree => h d d' s hd fun x hx => hagree x (hsub hx)

/-- What follows starts at the depths of what comes first. -/
theorem bind {P : Parser Stmt → Parser α} {Q : α → Parser Stmt → Parser β} (hP : NestsAt P depths)
    (hcomposed : ∀ d, Composed d → Composed (P d)) (hQ : ∀ a, NestsAt (Q a) depths) :
    NestsAt (fun d => P d >>= fun a => Q a d) depths := by
  intro d d' s hd h
  rw [answer_bind, answer_bind, ← hP d d' s hd h]
  rcases ha : answer (P d) s with ⟨e | a, s'⟩
  · rfl
  · have hsame := (hcomposed d hd).sameDepths_of_eq ha
    refine hQ a d d' s' hd ?_
    rwa [hsame.functionDepth, hsame.blockDepth]

theorem after {p : Parser α} {Q : α → Parser Stmt → Parser β} (hp : Composed p)
    (hQ : ∀ a, NestsAt (Q a) depths) : NestsAt (fun d => p >>= fun a => Q a d) depths :=
  (const p).bind (fun _ _ => hp) hQ

theorem before {P : Parser Stmt → Parser α} (hP : NestsAt P depths) (f : α → Parser β) :
    NestsAt (fun d => P d >>= f) depths := by
  intro d d' s hd h
  rw [answer_bind, answer_bind, hP d d' s hd h]

theorem ite {c : Prop} [Decidable c] {P Q : Parser Stmt → Parser α} (hP : NestsAt P depths)
    (hQ : NestsAt Q depths) : NestsAt (fun d => if c then P d else Q d) depths := by
  split
  · exact hP
  · exact hQ

theorem map {P : Parser Stmt → Parser α} (f : α → β) (hP : NestsAt P depths) :
    NestsAt (fun d => f <$> P d) depths := by
  simp only [map_eq_pure_bind]
  exact hP.before _

theorem recovering : NestsAt (fun d => ExceptT.lift (Parser.recovering d)) [(0, 0)] := by
  intro d d' s hd h
  have hsame : answer d s = answer d' s := nested d d' s hd h
  rw [answer_lift, answer_lift, recovering_eq, recovering_eq, hsame]

theorem declarationsUpTo (stops : Cursor → Bool) (n : Nat) (found : List Stmt) :
    NestsAt (fun d => ExceptT.lift (Parser.declarationsUpTo stops d n found)) [(0, 0)] := by
  induction n generalizing found with
  | zero => exact const _
  | succ n ih =>
    simp only [Parser.declarationsUpTo, lift_bind]
    refine after .get fun s => ?_
    split
    · exact const _
    · simp only [lift_bind]
      refine recovering.bind (fun d hd => hd.recovering) fun stmt => ?_
      cases stmt with
      | none => exact ih _
      | some stmt => exact ih _

/-- Inside braces it is one pair of braces deeper. -/
theorem inBraces {P : Parser Stmt → StateM ParseState α}
    (hP : NestsAt (fun d => ExceptT.lift (P d)) [(0, 0)]) :
    NestsAt (fun d => Parser.inBraces (P d)) [(0, 1)] := by
  intro d d' s hd h
  have hsame := hP d d' { s with blockDepth := s.blockDepth + 1 } hd (by simpa using h)
  have hrun : P d { s with blockDepth := s.blockDepth + 1 } =
      P d' { s with blockDepth := s.blockDepth + 1 } := by
    rw [answer_lift, answer_lift, Prod.mk.injEq, Except.ok.injEq] at hsame
    exact Prod.ext hsame.1 hsame.2
  rw [answer_inBraces, answer_inBraces, hrun]

/-- Inside a function it is one function deeper. -/
theorem inFunction {P : Parser Stmt → Parser α} {functions braces : Nat}
    (hP : NestsAt P [(functions, braces)]) :
    NestsAt (fun d => Parser.inFunction (P d)) [(functions + 1, braces)] := by
  intro d d' s hd h
  have hsame := hP d d' { s with functionDepth := s.functionDepth + 1 } hd
    (by simpa [Nat.add_assoc, Nat.add_comm 1] using h)
  rw [answer_inFunction, answer_inFunction, hsame]

theorem block (message : String) : NestsAt (fun d => Parser.block d message) [(0, 1)] :=
  after (.expect _ _) fun _ => after .remaining fun n =>
    (declarationsUpTo _ n []).inBraces.before _

theorem function : NestsAt Parser.function [(1, 1)] :=
  after .advance fun _ => after (.expectIdentifier _) fun _ => after (.expect _ _) fun _ =>
    after (.itemsBefore .parameter _) fun _ => after (.expectClosing _ _ _) fun _ =>
      (block _).inFunction.before _

theorem whileLoop : NestsAt Parser.whileLoop [(0, 1)] :=
  after .advance fun _ => after .expression fun _ => (block _).before _

theorem forLoop : NestsAt Parser.forLoop [(0, 1)] :=
  after .advance fun _ => after .forInitializer fun _ => after (.expressionBefore _) fun _ =>
    after (.expect _ _) fun _ => after (.expressionBefore _) fun _ => (block _).before _

theorem elseBranch : NestsAt Parser.elseBranch [(0, 0), (0, 1)] :=
  after (.check _) fun _ =>
    ite ((nested.mono (by simp)).before _) ((block _).mono (by simp))

theorem otherwise : NestsAt Parser.otherwise [(0, 0), (0, 1)] :=
  after (.check _) fun _ => ite (after .advance fun _ => elseBranch.map some) (const _)

/-- The branches are in braces, but the `if` behind an `else` is not. -/
theorem conditional : NestsAt Parser.conditional [(0, 0), (0, 1)] :=
  after .advance fun _ => after .expression fun _ =>
    ((block _).mono (by simp)).bind (fun _ hd => hd.block _) fun _ => otherwise.before _

end NestsAt

namespace Visits

variable {enclosures : List Enclosure} {d : Parser Stmt}

/-- The next round of a loop over declarations visits what the declaration visits. -/
theorem round {stops : Cursor → Bool} (h : Visits d s enclosures s')
    (hgoes : (stops s.cursor || s.cursor.atEnd) = false) (n : Nat) (found : List Stmt) :
    Visits (ExceptT.lift (declarationsUpTo stops d (n + 1) found)) s enclosures s' := by
  rw [declarationsUpTo, lift_bind]
  refine .second .get rfl ?_
  rw [if_neg (Bool.eq_false_iff.1 hgoes), lift_bind]
  exact .first _ (.recovering h)

/-- Behind the opening brace of a block, one pair of braces more is open. -/
theorem block {message : String} {opening : Span}
    (hopen : answer (expect Symbol.leftBrace message) s = (.ok opening, s₁))
    (h : Visits (ExceptT.lift (declarationsUpTo (·.check Symbol.rightBrace) d
      s₁.cursor.ahead.length [])) { s₁ with blockDepth := s₁.blockDepth + 1 } enclosures s') :
    Visits (Parser.block d message) s (.braces :: enclosures) s' :=
  .second (.expect _ _) hopen (.second .remaining rfl (.first _ (.inBraces h)))

end Visits

/-- Whatever is parsed and however it ends, both depths are what they were, and neither is taken
back below nothing. On the way they count the function bodies and the open braces around the place.
A function has its declarations in both, a loop and a branch in braces only, and an `if` behind an
`else` in neither. -/
theorem depths_count_enclosures :
    (∀ {α : Type} {p : Parser α}, Production p → ∀ s : ParseState, s.SameDepths (answer p s).2) ∧
    (∀ {d : Parser Stmt}, Production d → ∀ s : ParseState, s.SameDepths (recovering d s).2) ∧
    (∀ s : ParseState, s.SameDepths (next? s).2 ∧ s.SameDepths (program s).2) ∧
    (∀ {α : Type} {p : Parser α}, Composed p → ∀ s,
      (answer p { s with functionDepth := s.functionDepth + 1 }).2.functionDepth =
        (answer (inFunction p) s).2.functionDepth + 1) ∧
    (∀ {α : Type} {p : StateM ParseState α}, Composed (ExceptT.lift p) → ∀ s,
      (p { s with blockDepth := s.blockDepth + 1 }).2.blockDepth =
        (answer (inBraces p) s).2.blockDepth + 1) ∧
    (∀ {α : Type} {p : Parser α} {s s' : ParseState} {enclosures : List Enclosure},
      Visits p s enclosures s' →
        s'.functionDepth = s.functionDepth + enclosures.count .functionBody ∧
        s'.blockDepth = s.blockDepth + enclosures.count .braces) ∧
    (∀ names tokens s' enclosures,
      Visits (ExceptT.lift program) (start names tokens) enclosures s' →
        s'.functionDepth = enclosures.count .functionBody ∧
        s'.blockDepth = enclosures.count .braces) ∧
    (∀ message, NestsAt (fun d => block d message) [(0, 1)]) ∧
    NestsAt function [(1, 1)] ∧ NestsAt whileLoop [(0, 1)] ∧ NestsAt forLoop [(0, 1)] ∧
    NestsAt conditional [(0, 0), (0, 1)] := by
  refine ⟨fun h s => h.composed.sameDepths s, fun h s => h.composed.recovering.sameDepths s,
    fun s => ⟨(Composed.nextUpTo _).sameDepths s, Composed.program.sameDepths s⟩,
    fun h s => h.functionDepth_inFunction s, fun h s => h.blockDepth_inBraces s,
    fun h => h.depths, fun names tokens s' enclosures h => ?_, .block, .function, .whileLoop,
    .forLoop, .conditional⟩
  obtain ⟨hf, hb⟩ := h.depths
  exact ⟨hf.trans (Nat.zero_add _), hb.trans (Nat.zero_add _)⟩

/-- A function with a `return` in its body. -/
def emptyReturn : List Token :=
  [⟨.keyword .funKw, ⟨0, 3⟩⟩, ⟨.identifier ⟨1⟩, ⟨4, 5⟩⟩, ⟨.symbol .leftParen, ⟨5, 6⟩⟩,
    ⟨.symbol .rightParen, ⟨6, 7⟩⟩, ⟨.symbol .leftBrace, ⟨8, 9⟩⟩, ⟨.keyword .returnKw, ⟨10, 16⟩⟩,
    ⟨.symbol .semicolon, ⟨16, 17⟩⟩, ⟨.symbol .rightBrace, ⟨18, 19⟩⟩, ⟨.eof, ⟨19, 19⟩⟩]

/-- At the `return` one function body and one pair of braces are open. -/
theorem depths_count_enclosures_at_return : ∃ s',
    Visits (ExceptT.lift program) (start NameTable.empty emptyReturn) [.functionBody, .braces] s' ∧
      s'.cursor.current.kind = .keyword .returnKw ∧ s'.functionDepth = 1 ∧ s'.blockDepth = 1 := by
  let cursor : Cursor := ⟨NameTable.empty, (emptyReturn.take 5).reverse, emptyReturn.drop 5⟩
  have hvisits : Visits (ExceptT.lift program) (start NameTable.empty emptyReturn)
      [.functionBody, .braces] { cursor, functionDepth := 1, blockDepth := 1 } := by
    rw [program, lift_bind]
    refine .second .get rfl (.round ?_ rfl 8 [])
    refine .second .remaining rfl (.second .current rfl ?_)
    refine .second .advance rfl (.second (.expectIdentifier _) rfl (.second (.expect _ _) rfl ?_))
    refine .second (.itemsBefore .parameter _) rfl (.second (.expectClosing _ _ _) rfl ?_)
    exact .first _ (.inFunction (.block rfl (.start _ _)))
  obtain ⟨-, -, -, -, -, -, hdepths, -⟩ := depths_count_enclosures
  exact ⟨_, hvisits, rfl, hdepths _ _ _ _ hvisits⟩

end Parser

end Tarn
