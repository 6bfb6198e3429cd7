import Tarn.Proofs.Parsing.Joint
import Tarn.Proofs.Parsing.Progress
import Tarn.Proofs.Parsing.StatementLocality

/-! Where the loop over declarations takes up its work does not show. Neither what is read before a
declaration matters for it, nor what comes behind the end of file. -/
namespace Tarn

open Grammar Tarn.Parser

namespace Parser

/-- The declarations that the loop starts with are kept in front of those that it finds. -/
theorem declarationsUpTo_append (stops : Cursor → Bool) (p : Parser Stmt) (m : Nat)
    (before found : List Stmt) (s : ParseState) :
    declarationsUpTo stops p m (before ++ found) s =
      (before ++ (declarationsUpTo stops p m found s).1, (declarationsUpTo stops p m found s).2) := by
  induction m generalizing found s with
  | zero => rfl
  | succ m ih =>
    rcases hgoes : stops s.cursor || s.cursor.atEnd with _ | _
    · rw [declarationsUpTo_of_goes hgoes, declarationsUpTo_of_goes hgoes, List.append_assoc, ih]
    · rw [declarationsUpTo_of_stops hgoes, declarationsUpTo_of_stops hgoes]

theorem declarationsUpTo_of_atEnd {stops : Cursor → Bool} {s : ParseState}
    (h : s.cursor.atEnd = true) (p : Parser Stmt) (m : Nat) (found : List Stmt) :
    declarationsUpTo stops p m found s = (found, s) :=
  declarationsUpTo_of_stops (by rw [h, Bool.or_true]) p m found

/-- From two places at the top level before the same tokens, behind which the input ends, the same
declarations are found and the same errors reported. -/
theorem declarationsUpTo_eq {s s' : ParseState} {ts rest rest' : List Token}
    (hts : ∀ t ∈ ts, t.kind ≠ .eof) (hrest : AtEnd rest) (hrest' : AtEnd rest')
    (hs : s.cursor.ahead = ts ++ rest) (hs' : s'.cursor.ahead = ts ++ rest')
    (hnames : s.cursor.names = s'.cursor.names) (hfunction : s.functionDepth = s'.functionDepth)
    (hblock : s.blockDepth = s'.blockDepth) {m m' : Nat} (hm : ts.length ≤ m)
    (hm' : ts.length ≤ m') (found : List Stmt) :
    ∃ es, (declarationsUpTo (fun _ => false) declaration m found s).1 =
        (declarationsUpTo (fun _ => false) declaration m' found s').1 ∧
      (declarationsUpTo (fun _ => false) declaration m found s).2.errors.toList =
        s.errors.toList ++ es ∧
      (declarationsUpTo (fun _ => false) declaration m' found s').2.errors.toList =
        s'.errors.toList ++ es := by
  by_cases hnil : ts = []
  · subst hnil
    have hend : s.cursor.atEnd = true := (Cursor.atEnd_iff _).2 (hrest.current hs)
    have hend' : s'.cursor.atEnd = true := (Cursor.atEnd_iff _).2 (hrest'.current hs')
    rw [declarationsUpTo_of_atEnd hend, declarationsUpTo_of_atEnd hend']
    exact ⟨[], rfl, (List.append_nil _).symm, (List.append_nil _).symm⟩
  · have habreast : s.Abreast true ts s' :=
      ⟨hnames, hfunction, hts, ⟨rest, hs, fun _ => hrest⟩, ⟨rest', hs', fun _ => hrest'⟩,
        fun h => absurd h hnil, fun _ => by rw [hblock], nofun⟩
    obtain ⟨_, _, es, -, hpasses, hpasses', hsame⟩ := declarationsUpTo_together .declaration
      declaration_sound.progresses (fun _ => false) (fun _ => rfl) (Nat.le_refl ts.length) hm hm'
      found (Nat.le_refl _) habreast
    exact ⟨es, hsame, hpasses.errors, hpasses'.errors⟩

end Parser

/-- Nothing from the end of file on matters, neither where it is nor what comes behind it, nor
whether it is there at all. -/
theorem parse_ignores_end (names : NameTable) {ts : List Token} {eof : Token} (junk : List Token)
    (hts : ∀ t ∈ ts, t.kind ≠ .eof) (heof : eof.kind = .eof) :
    ((parse names (ts ++ [eof])).statements = (parse names ts).statements ∧
      (parse names (ts ++ [eof])).errors = (parse names ts).errors) ∧
    (parse names (ts ++ [eof] ++ junk)).statements = (parse names ts).statements ∧
      (parse names (ts ++ [eof] ++ junk)).errors = (parse names ts).errors := by
  have heq (rest : List Token) (hrest : AtEnd rest) :
      (parse names (ts ++ rest)).statements = (parse names ts).statements ∧
        (parse names (ts ++ rest)).errors = (parse names ts).errors := by
    have hleft : (start names (ts ++ rest)).cursor.ahead = ts ++ rest := rfl
    have hright : (start names ts).cursor.ahead = ts ++ [] := (List.append_nil ts).symm
    obtain ⟨es, hstatements, herrors, herrors'⟩ := declarationsUpTo_eq hts hrest atEnd_nil hleft hright
      rfl rfl rfl (List.length_append ▸ Nat.le_add_right ..) (Nat.le_refl _) []
    exact ⟨hstatements, herrors.trans herrors'.symm⟩
  have hend (junk : List Token) : AtEnd ([eof] ++ junk) := by
    rintro t rest' ⟨⟩
    exact heof
  rw [List.append_assoc]
  exact ⟨heq _ (hend []), heq _ (hend junk)⟩

/-- A call that is not finished, `f (`. -/
def openCall : List Token := [⟨.identifier ⟨0⟩, ⟨0, 1⟩⟩, ⟨.symbol .leftParen, ⟨2, 3⟩⟩]

/-- Behind the end of file the call could be finished, but its error stays. -/
theorem parse_ignores_end_call :
    (parse NameTable.empty (openCall ++ [⟨.eof, ⟨9, 9⟩⟩] ++
        [⟨.symbol .rightParen, ⟨9, 10⟩⟩, ⟨.symbol .semicolon, ⟨10, 11⟩⟩])).errors =
      (parse NameTable.empty openCall).errors ∧
    (parse NameTable.empty openCall).errors.length = 1 :=
  ⟨(parse_ignores_end NameTable.empty _ (by decide) rfl).2.2, rfl⟩

/-- If a list of tokens parses without errors, then what comes behind it is parsed as if it stood
alone, unless it is an `else`. -/
theorem parse_boundary (names : NameTable) {ps qs : List Token} (hps : ∀ t ∈ ps, t.kind ≠ .eof)
    (hclean : (parse names ps).errors = [])
    (hqs : ∀ t, qs.head? = some t → t.kind ≠ .keyword .elseKw) :
    (parse names (ps ++ qs)).statements =
        (parse names ps).statements ++ (parse names qs).statements ∧
      (parse names (ps ++ qs)).errors = (parse names qs).errors := by
  have hstrict : Program .strict ps (parse names ps).statements [] := by
    have hd := parse_derives names atEnd_nil hps
    rw [List.append_nil, hclean] at hd
    exact hd.strict rfl
  have hclosed : Closed qs := by
    rintro t rest rfl
    exact hqs t rfl
  obtain ⟨us, rest, rfl, hus, hrest⟩ := Token.exists_endOfInput qs
  have hlength : ps.length ≤ (ps ++ (us ++ rest)).length := by simp
  -- Behind `ps` the loop has not used up more rounds than there are tokens.
  obtain ⟨s, m, hreads, hm, hloop⟩ := declarationsUpTo_goesOn
    (s := start names (ps ++ (us ++ rest))) (declaration_complete ps.length) (by decide)
    (fun _ => false) (fun _ _ => rfl) hclosed [] hstrict (Nat.le_refl _) hlength rfl
  have hleft : us.length ≤ m := by
    simp only [List.length_append] at hm
    omega
  have hright : us.length ≤ (us ++ rest).length := by simp
  have hstart : (start names (us ++ rest)).cursor.ahead = us ++ rest := rfl
  obtain ⟨es, hstatements, herrors, herrors'⟩ := declarationsUpTo_eq hus hrest hrest
    (hreads.rest rfl) hstart hreads.names hreads.functionDepth hreads.blockDepth hleft hright []
  rw [List.nil_append, ← List.append_nil (parse names ps).statements, declarationsUpTo_append]
    at hloop
  have hprogram : program (start names (ps ++ (us ++ rest))) = _ := hloop
  constructor
  · rw [parse, hprogram]
    exact congrArg _ hstatements
  · rw [parse, hprogram]
    have hnone : s.errors.toList = [] := hreads.passes.errors
    exact herrors.trans (by rw [hnone]; exact herrors'.symm)

/-- `if nil { }`, which an `else` could go on with. -/
def emptyConditional : List Token :=
  [⟨.keyword .ifKw, ⟨0, 2⟩⟩, ⟨.keyword .nilKw, ⟨3, 6⟩⟩, ⟨.symbol .leftBrace, ⟨7, 8⟩⟩,
    ⟨.symbol .rightBrace, ⟨9, 10⟩⟩]

/-- A stray brace and an `else` behind it. -/
theorem parse_boundary_conditional :
    (parse NameTable.empty emptyConditional).errors = [] ∧
    (parse NameTable.empty (emptyConditional ++
        [⟨.symbol .rightBrace, ⟨11, 12⟩⟩, ⟨.keyword .elseKw, ⟨13, 17⟩⟩])).errors =
      (parse NameTable.empty
        [⟨.symbol .rightBrace, ⟨11, 12⟩⟩, ⟨.keyword .elseKw, ⟨13, 17⟩⟩]).errors :=
  have hclean : (parse NameTable.empty emptyConditional).errors = [] := rfl
  ⟨hclean, (parse_boundary NameTable.empty (by decide) hclean (by simp)).2⟩

end Tarn
