import Tarn.Proofs.Grammar.Faithful
import Tarn.Proofs.Parsing.Acceptance

/-! The places of all trees that are read from a text, also of those that are kept after errors. The
tokens of a derivation stand in a row, and so do the parts of its tree. -/
namespace Tarn

namespace Token

variable {cs : List Char} {names : NameTable} {t : Token} {ts : List Token} {start stop : Nat}

theorem Stands.reads (h : t.Stands cs names) {P : List Char → Prop}
    (hP : ∀ text, t.kind.Written names text → P text) : t.span.Reads cs t.span P := by
  refine ⟨.refl h.covers, hP _ ?_⟩
  obtain ⟨before, text, rest, rfl, hspan, hwritten, -⟩ := h
  rw [Span.charsIn, hspan, ← List.append_assoc, Text.slice_append]
  exact hwritten

theorem Stands.within (h : t.Stands cs names) (hstart : start ≤ t.span.start)
    (hstop : t.span.stop ≤ stop) : t.span.Within cs ⟨start, stop⟩ :=
  ⟨⟨hstart, hstop⟩, h.covers⟩

theorem Stands.symbol (h : t.Stands cs names) {s : Symbol} (hk : t.kind = .symbol s) :
    t.span.Reads cs t.span (· = s.spelling.toList) :=
  h.reads fun _ hwritten => by rwa [hk] at hwritten

theorem Stands.keyword (h : t.Stands cs names) {k : Keyword} (hk : t.kind = .keyword k) :
    t.span.Reads cs t.span (· = k.spelling.toList) :=
  h.reads fun _ hwritten => by rwa [hk] at hwritten

theorem Stands.identifier (h : t.Stands cs names) {name : Name} (hk : t.kind = .identifier name) :
    t.span.Reads cs t.span (name.Written names) :=
  h.reads fun _ hwritten => by
    rw [hk] at hwritten
    exact hwritten.2.2

theorem Stands.literal (h : t.Stands cs names) {value : Literal} (hk : t.kind = value.kind) :
    t.span.Reads cs t.span (value.Written names) :=
  h.reads fun _ hwritten => by
    rw [hk] at hwritten
    exact Literal.written_of_kind hwritten

theorem Row.le (h : Row cs names start ts stop) : start ≤ stop := by
  induction ts generalizing start with
  | nil => exact h
  | cons t ts ih =>
    obtain ⟨hle, ht, hts⟩ := h
    have hlt := ht.covers.start_lt
    have hstop := ih hts
    omega

end Token

namespace Grammar

variable {mode : Mode} {cs : List Char} {names : NameTable} {a b : Nat}

mutual

/-- An expression stands between the ends of its tokens. -/
theorem Expression.faithful {l ts e rs a b} : Expression mode l ts e rs →
    Token.Row cs names a ts b → e.Faithful cs names ⟨a, b⟩
  | .tighter _ h, hrow => h.faithful hrow
  | .assign ht _ hv, hrow => by
    obtain ⟨hle, hstands, heqle, heq, hts⟩ := hrow
    have hvalue := hv.faithful hts
    have htarget := hstands.within hle (Nat.le_refl _)
    obtain ⟨hspan, hfirst, hlast, -⟩ :=
      htarget.frame hvalue.span (heq.within heqle (Nat.le_refl _)).le
    exact ⟨hspan, (hstands.identifier ht).inside hfirst, hvalue.inside hlast⟩
  | .mistarget _ _ _ _ hv, hrow => by
    obtain ⟨m, hts, heqle, heq, hts'⟩ := Token.Row.append.1 hrow
    have hwithin := heq.within (Nat.le_trans hts.le heqle) (Nat.le_refl _)
    exact (hv.faithful hts').mono ⟨hwithin.le, Nat.le_refl _⟩
  | .logical op _ _ hleft ht hright, hrow => by
    obtain ⟨m, hts, hle, hstands, hts'⟩ := Token.Row.append.1 hrow
    have hl := hleft.faithful hts
    have hr := hright.faithful hts'
    have hop := hstands.within hle (Nat.le_refl _)
    obtain ⟨hspan, hfirst, hlast, hmiddle⟩ := hl.span.frame hr.span hop.le
    have hspelling := hstands.keyword ht
    rw [op.spelling_keyword] at hspelling
    exact ⟨hspan, hspelling.inside (hop.mono hmiddle), hl.inside hfirst, hr.inside hlast⟩
  | .binary op _ _ hleft ht hright, hrow => by
    obtain ⟨m, hts, hle, hstands, hts'⟩ := Token.Row.append.1 hrow
    have hl := hleft.faithful hts
    have hr := hright.faithful hts'
    have hop := hstands.within hle (Nat.le_refl _)
    obtain ⟨hspan, hfirst, hlast, hmiddle⟩ := hl.span.frame hr.span hop.le
    have hspelling := hstands.symbol ht
    rw [op.spelling_symbol] at hspelling
    exact ⟨hspan, hspelling.inside (hop.mono hmiddle), hl.inside hfirst, hr.inside hlast⟩
  | .unary op ht h, hrow => by
    obtain ⟨hle, hstands, hts⟩ := hrow
    have hoperand := h.faithful hts
    have hop := hstands.within hle (Nat.le_refl _)
    obtain ⟨hspan, hfirst, hlast, -⟩ := hop.frame hoperand.span (Nat.le_refl _)
    have hspelling := hstands.symbol ht
    rw [op.spelling_symbol] at hspelling
    exact ⟨hspan, hspelling.inside hfirst, hoperand.inside hlast⟩
  | .call h _ hargs hc, hrow => by
    obtain ⟨m, hts, hole, ho, hrow'⟩ := Token.Row.append.1 hrow
    obtain ⟨m', hts', hcle, hclose, hstop⟩ := Token.Row.append.1 hrow'
    have hcallee := h.faithful hts
    have hopen := (ho.within hole (Nat.le_refl _)).le
    obtain ⟨hspan, hfirst, hlast, hmiddle⟩ :=
      hcallee.span.frame (hclose.within hcle hstop) (Nat.le_trans hopen hts'.le)
    exact ⟨hspan, hcallee.inside hfirst, (hclose.symbol hc).inside hlast,
      (hargs.faithful hts').mono (hmiddle.narrow hopen (Nat.le_refl _))⟩
  | .literal _ ht, hrow => by
    obtain ⟨hle, hstands, hstop⟩ := hrow
    exact (hstands.literal ht).inside (hstands.within hle hstop)
  | .var ht, hrow => by
    obtain ⟨hle, hstands, hstop⟩ := hrow
    exact (hstands.identifier ht).inside (hstands.within hle hstop)
  | .grouping _ h _, hrow => by
    obtain ⟨hole, ho, hrow'⟩ := hrow
    obtain ⟨m, hts, hcle, hclose, hstop⟩ := Token.Row.append.1 hrow'
    obtain ⟨hspan, -, -, hmiddle⟩ :=
      (ho.within hole (Nat.le_refl _)).frame (hclose.within hcle hstop) hts.le
    exact ⟨hspan, (h.faithful hts).mono hmiddle⟩

theorem Arguments.faithful {ts args rs a b} : Arguments mode ts args rs →
    Token.Row cs names a ts b → Expr.AllFaithful cs names ⟨a, b⟩ args
  | .none, _ => trivial
  | .some h, hrow => h.faithful hrow

theorem ArgumentList.faithful {ts args rs a b} : ArgumentList mode ts args rs →
    Token.Row cs names a ts b → Expr.AllFaithful cs names ⟨a, b⟩ args
  | .first h, hrow => ⟨h.faithful hrow, trivial⟩
  | .more h _ he, hrow => by
    obtain ⟨m, hts, hcomma, hstands, hts'⟩ := Token.Row.append.1 hrow
    have hbetween := (hstands.within hcomma (Nat.le_refl _)).le
    have hfirst := h.faithful hts
    have hlast := he.faithful hts'
    exact Expr.allFaithful_append (hfirst.mono ⟨Nat.le_refl _, Nat.le_trans hbetween hts'.le⟩)
      ⟨hlast.mono ⟨Nat.le_trans hts.le hbetween, Nat.le_refl _⟩, trivial⟩

end

theorem ParameterList.faithful {ts params rs} (h : ParameterList ts params rs)
    (hrow : Token.Row cs names a ts b) : ∀ p ∈ params, p.Faithful cs names ⟨a, b⟩ := by
  induction h generalizing b with
  | first ht =>
    obtain ⟨hle, hstands, hstop⟩ := hrow
    exact List.forall_mem_singleton.2
      ((hstands.identifier ht).inside (hstands.within hle hstop))
  | more _ _ ht ih =>
    obtain ⟨m, hts, hcommale, hcomma, hle, hstands, hstop⟩ := Token.Row.append.1 hrow
    have hbetween := (hcomma.within hcommale (Nat.le_refl _)).le
    have hlast := hstands.within hle hstop
    have hfirst : Span.In ⟨a, m⟩ ⟨a, b⟩ :=
      ⟨Nat.le_refl _, Nat.le_trans hbetween hlast.le⟩
    refine List.forall_mem_append.2 ⟨fun p hp => ?_, List.forall_mem_singleton.2 ?_⟩
    · exact (ih hts p hp).mono hfirst
    · exact (hstands.identifier ht).inside
        (hlast.mono ⟨Nat.le_trans hts.le hbetween, Nat.le_refl _⟩)

theorem Parameters.faithful {ts params rs} (h : Parameters ts params rs)
    (hrow : Token.Row cs names a ts b) : ∀ p ∈ params, p.Faithful cs names ⟨a, b⟩ := by
  cases h with
  | none => exact nofun
  | some h => exact h.faithful hrow

theorem OptionalExpression.faithful {ts e rs} (h : OptionalExpression mode ts e rs)
    (hrow : Token.Row cs names a ts b) : Expr.OptionFaithful cs names ⟨a, b⟩ e := by
  cases h with
  | none => trivial
  | some h => exact h.faithful hrow

theorem VariableDeclaration.faithful {ts stmt rs} (h : VariableDeclaration mode ts stmt rs)
    (hrow : Token.Row cs names a ts b) : stmt.Faithful cs names ⟨a, b⟩ := by
  cases h with
  | plain _ hn _ =>
    obtain ⟨hvle, hv, hnle, hname, hsle, hs, hstop⟩ := hrow
    have hbetween := hname.within hnle (Nat.le_refl _)
    obtain ⟨hspan, -, -, hmiddle⟩ :=
      (hv.within hvle (Nat.le_refl _)).frame (hs.within hsle hstop) hbetween.le
    exact ⟨hspan, (hname.identifier hn).inside (hbetween.mono hmiddle), trivial⟩
  | initialized _ hn _ he _ =>
    obtain ⟨hvle, hv, hnle, hname, heqle, heq, hrow'⟩ := hrow
    obtain ⟨m, hts, hsle, hs, hstop⟩ := Token.Row.append.1 hrow'
    have hbetween := hname.within hnle (Nat.le_refl _)
    have hequal := (heq.within heqle (Nat.le_refl _)).le
    obtain ⟨hspan, -, -, hmiddle⟩ := (hv.within hvle (Nat.le_refl _)).frame
      (hs.within hsle hstop) (Nat.le_trans hbetween.le (Nat.le_trans hequal hts.le))
    exact ⟨hspan,
      (hname.identifier hn).inside
        (hbetween.mono (hmiddle.narrow (Nat.le_refl _) (Nat.le_trans hequal hts.le))),
      (he.faithful hts).mono
        (hmiddle.narrow (Nat.le_trans hbetween.le hequal) (Nat.le_refl _))⟩

theorem ExpressionStatement.faithful {ts stmt rs} (h : ExpressionStatement mode ts stmt rs)
    (hrow : Token.Row cs names a ts b) : stmt.Faithful cs names ⟨a, b⟩ := by
  cases h with
  | mk he _ =>
    obtain ⟨m, hts, hsle, hs, hstop⟩ := Token.Row.append.1 hrow
    have hvalue := he.faithful hts
    obtain ⟨hspan, hfirst, -, -⟩ := hvalue.span.frame (hs.within hsle hstop) (Nat.le_refl _)
    exact ⟨hspan, hvalue.inside hfirst⟩

theorem Initializer.faithful {ts stmt rs} (h : Initializer mode ts stmt rs)
    (hrow : Token.Row cs names a ts b) : ∀ s ∈ stmt, s.Faithful cs names ⟨a, b⟩ := by
  cases h with
  | none => exact nofun
  | var h =>
    rintro s ⟨⟩
    exact h.faithful hrow
  | expression h =>
    rintro s ⟨⟩
    exact h.faithful hrow

/-- What is made of a `for` stands where its parts do. -/
theorem faithful_forTree {span semicolon outer : Span} {initializer : Option Stmt}
    {condition increment : Option Expr} {body : Block} (hspan : span.Within cs outer)
    (hi : ∀ s ∈ initializer, s.Faithful cs names span)
    (hc : Expr.OptionFaithful cs names span condition)
    (hmade : (Expr.literal (Span.point semicolon.start) (.bool true)).MadeUp cs span)
    (hn : Expr.OptionFaithful cs names span increment) (hb : body.Faithful cs names span) :
    (forTree span initializer condition semicolon increment body).Faithful cs names outer := by
  have hwhole {inner : Block} (hinner : inner.Faithful cs names span) :
      (Stmt.block ⟨span, initializer.toList ++ [.loop span
        (condition.getD (.literal (Span.point semicolon.start) (.bool true))) inner]⟩).Faithful
        cs names outer := by
    have hloop : (Stmt.loop span (condition.getD (.literal (Span.point semicolon.start)
        (.bool true))) inner).Faithful cs names span := by
      refine ⟨.refl hspan.covers, ?_, hinner⟩
      cases condition with
      | none => exact .inr hmade
      | some e => exact .inl hc
    cases initializer with
    | none => exact ⟨hspan, hloop, trivial⟩
    | some s => exact ⟨hspan, hi s rfl, hloop, trivial⟩
  cases increment with
  | none => exact hwhole ⟨hb.span, hb.inside (.refl hb.span.covers), trivial⟩
  | some e =>
    have he : e.Faithful cs names span := hn
    obtain ⟨hinner, hfirst, hlast⟩ := hb.span.merge he.span
    exact hwhole
      ⟨hinner, hb.inside hfirst, ⟨hlast, he.inside (.refl hlast.covers)⟩, trivial⟩

/-- A conditional reaches to the end of its last branch. -/
theorem faithful_conditional {opening : Span} {condition : Expr} {thenBranch : Block}
    {elseBranch : Option Block} {x y z : Nat} (ho : opening.Within cs ⟨a, x⟩)
    (hc : condition.Faithful cs names ⟨x, y⟩) (hthen : thenBranch.Faithful cs names ⟨y, z⟩)
    (helse : ∀ body ∈ elseBranch, body.Faithful cs names ⟨z, b⟩) (hle : z ≤ b) :
    (Stmt.conditional (opening.merge (elseBranch.getD thenBranch).span) condition thenBranch
      elseBranch).Faithful cs names ⟨a, b⟩ := by
  cases elseBranch with
  | none =>
    have hlast : thenBranch.Faithful cs names ⟨y, b⟩ := hthen.mono ⟨Nat.le_refl _, hle⟩
    obtain ⟨hspan, -, hthenIn, hmiddle⟩ := ho.frame hlast.span hc.span.le
    exact ⟨hspan, hc.mono hmiddle, hlast.inside hthenIn⟩
  | some body =>
    have hbody := helse body rfl
    obtain ⟨hspan, -, hbodyIn, hmiddle⟩ :=
      ho.frame hbody.span (Nat.le_trans hc.span.le hthen.span.le)
    exact ⟨hspan, hc.mono (hmiddle.narrow (Nat.le_refl _) hthen.span.le),
      hthen.mono (hmiddle.narrow hc.span.le (Nat.le_refl _)), hbody.inside hbodyIn⟩

mutual

/-- A declaration stands between the ends of its tokens. -/
theorem Declaration.faithful {inside ts stmt rs a b} : Declaration mode inside ts stmt rs →
    Token.Row cs names a ts b → stmt.Faithful cs names ⟨a, b⟩
  | .function _ hn _ hp _ hb, hrow => by
    obtain ⟨hfle, hf, hnle, hname, hole, ho, hrow'⟩ := hrow
    obtain ⟨m, hts, hcle, hc, hts'⟩ := Token.Row.append.1 hrow'
    have hbody := hb.faithful hts'
    have hwithin := hname.within hnle (Nat.le_refl _)
    have hopen := (ho.within hole (Nat.le_refl _)).le
    have hclose := (hc.within hcle (Nat.le_refl _)).le
    have hparams := Nat.le_trans hopen (Nat.le_trans hts.le hclose)
    obtain ⟨hspan, -, hlast, hmiddle⟩ := (hf.within hfle (Nat.le_refl _)).frame hbody.span
      (Nat.le_trans hwithin.le hparams)
    refine Stmt.faithful_function.2 ⟨hspan, ?_, fun p hmem => ?_, hbody.inside hlast⟩
    · exact (hname.identifier hn).inside
        (hwithin.mono (hmiddle.narrow (Nat.le_refl _) hparams))
    · exact (hp.faithful hts p hmem).mono (hmiddle.narrow (Nat.le_trans hwithin.le hopen) hclose)
  | .var h, hrow => h.faithful hrow
  | .expression h, hrow => h.faithful hrow
  | .forLoop hf hi hc hs hn hb, hrow => by
    obtain ⟨hfle, hfor, hrow'⟩ := hrow
    obtain ⟨x, hts, hrow'⟩ := Token.Row.append.1 hrow'
    obtain ⟨y, hts₁, hsle, hsemi, hrow'⟩ := Token.Row.append.1 hrow'
    obtain ⟨z, hts₂, hts₃⟩ := Token.Row.append.1 hrow'
    have hbody := hb.faithful hts₃
    have hkeyword := hfor.within hfle (Nat.le_refl _)
    have hwithin := hsemi.within hsle (Nat.le_refl _)
    have hend := Nat.le_trans hwithin.le hts₂.le
    have hclauses := Nat.le_trans hts₁.le hend
    have hbefore := Nat.le_trans hts.le hts₁.le
    have hheader := Nat.le_trans hts.le hclauses
    have hbehind := Nat.le_trans hheader hbody.span.start_le
    obtain ⟨hspan, hfirst, hlast, hmiddle⟩ := hkeyword.frame hbody.span hheader
    have hkeywordReads := (hfor.keyword hf).inside hfirst
    have hsemicolonReads := (hsemi.symbol hs).inside
      (hwithin.mono (hmiddle.narrow hbefore hts₂.le))
    have hstart := Nat.min_eq_left (Nat.le_trans (Nat.le_of_lt hfor.covers.start_lt) hbehind)
    refine faithful_forTree hspan (fun s hmem => ?_) ?_
      ⟨_, _, hkeywordReads, hstart.symm, hsemicolonReads, rfl⟩ ?_ (hbody.inside hlast)
    · exact (hi.faithful hts s hmem).mono (hmiddle.narrow (Nat.le_refl _) hclauses)
    · exact (hc.faithful hts₁).mono (hmiddle.narrow hts.le hend)
    · exact (hn.faithful hts₂).mono
        (hmiddle.narrow (Nat.le_trans hbefore hwithin.le) (Nat.le_refl _))
  | .conditional h, hrow => h.faithful hrow
  | .print _ he _, hrow => by
    obtain ⟨hple, hp, hrow'⟩ := hrow
    obtain ⟨m, hts, hsle, hs, hstop⟩ := Token.Row.append.1 hrow'
    obtain ⟨hspan, -, -, hmiddle⟩ :=
      (hp.within hple (Nat.le_refl _)).frame (hs.within hsle hstop) hts.le
    exact ⟨hspan, (he.faithful hts).mono hmiddle⟩
  | .result hr hv _, hrow => by
    obtain ⟨hrle, hreturn, hrow'⟩ := hrow
    obtain ⟨m, hts, hsle, hs, hstop⟩ := Token.Row.append.1 hrow'
    obtain ⟨hspan, hfirst, -, hmiddle⟩ :=
      (hreturn.within hrle (Nat.le_refl _)).frame (hs.within hsle hstop) hts.le
    exact ⟨hspan, (hreturn.keyword hr).inside hfirst, (hv.faithful hts).mono hmiddle⟩
  | .whileLoop _ he hb, hrow => by
    obtain ⟨hwle, hw, hrow'⟩ := hrow
    obtain ⟨m, hts, hts'⟩ := Token.Row.append.1 hrow'
    have hbody := hb.faithful hts'
    obtain ⟨hspan, -, hlast, hmiddle⟩ :=
      (hw.within hwle (Nat.le_refl _)).frame hbody.span hts.le
    exact ⟨hspan, .inl ((he.faithful hts).mono hmiddle), hbody.inside hlast⟩
  | .block h, hrow => h.faithful hrow

theorem Conditional.faithful {inside ts stmt rs a b} : Conditional mode inside ts stmt rs →
    Token.Row cs names a ts b → stmt.Faithful cs names ⟨a, b⟩
  | .mk _ he hb helse, hrow => by
    obtain ⟨hile, hi, hrow'⟩ := hrow
    obtain ⟨x, hts, hrow'⟩ := Token.Row.append.1 hrow'
    obtain ⟨y, hts', hts₁⟩ := Token.Row.append.1 hrow'
    exact faithful_conditional (hi.within hile (Nat.le_refl _)) (he.faithful hts)
      (hb.faithful hts') (helse.faithful hts₁) hts₁.le

theorem Otherwise.faithful {inside ts body rs a b} : Otherwise mode inside ts body rs →
    Token.Row cs names a ts b → ∀ block ∈ body, block.Faithful cs names ⟨a, b⟩
  | .none, _ => nofun
  | .block _ h, hrow => by
    obtain ⟨hele, he, hts⟩ := hrow
    rintro _ ⟨⟩
    exact (h.faithful hts).mono ⟨(he.within hele (Nat.le_refl _)).le, Nat.le_refl _⟩
  | .chained _ h, hrow => by
    obtain ⟨hele, he, hts⟩ := hrow
    rintro _ ⟨⟩
    have hstmt := h.faithful hts
    exact ⟨hstmt.span.mono ⟨(he.within hele (Nat.le_refl _)).le, Nat.le_refl _⟩,
      hstmt.inside (.refl hstmt.span.covers), trivial⟩

theorem Braces.faithful {inside ts body rs a b} : Braces mode inside ts body rs →
    Token.Row cs names a ts b → body.Faithful cs names ⟨a, b⟩
  | .mk _ h _, hrow => by
    obtain ⟨hole, ho, hrow'⟩ := hrow
    obtain ⟨m, hts, hcle, hclose, hstop⟩ := Token.Row.append.1 hrow'
    obtain ⟨hspan, -, -, hmiddle⟩ :=
      (ho.within hole (Nat.le_refl _)).frame (hclose.within hcle hstop) hts.le
    exact ⟨hspan, (h.faithful hts).mono hmiddle⟩

theorem Declarations.faithful {inside ts stmts rs a b} : Declarations mode inside ts stmts rs →
    Token.Row cs names a ts b → Stmt.AllFaithful cs names ⟨a, b⟩ stmts
  | .nil, _ => trivial
  | .cons h hs, hrow => by
    obtain ⟨m, hts, hts'⟩ := Token.Row.append.1 hrow
    exact ⟨(h.faithful hts).mono ⟨Nat.le_refl _, hts'.le⟩,
      (hs.faithful hts').mono ⟨hts.le, Nat.le_refl _⟩⟩
  | .dropped _ _ _ hs, hrow => by
    obtain ⟨m, hts, hts'⟩ := Token.Row.append.1 hrow
    exact (hs.faithful hts').mono ⟨hts.le, Nat.le_refl _⟩

end

/-- Each declaration stands behind the end of those before it. -/
theorem Declarations.ordered {inside ts stmts rs a b} : Declarations mode inside ts stmts rs →
    Token.Row cs names a ts b → stmts.Pairwise fun s s' => s.span.stop ≤ s'.span.start
  | .nil, _ => .nil
  | .cons h hs, hrow => by
    obtain ⟨m, hts, hts'⟩ := Token.Row.append.1 hrow
    have hfirst := (h.faithful hts).span.stop_le
    have hlater := (hs.faithful hts').within
    exact .cons (fun s' hs' => Nat.le_trans hfirst (hlater s' hs').start_le) (hs.ordered hts')
  | .dropped _ _ _ hs, hrow => by
    obtain ⟨m, -, hts'⟩ := Token.Row.append.1 hrow
    exact hs.ordered hts'

end Grammar

/-- Whatever the text, each statement that is read from it stands in the text, one behind the other,
with all their parts inside them and every token in its place. -/
theorem parse_faithful (source : String) (names : NameTable) :
    let lexed := lex source names
    let statements := (parse lexed.names lexed.tokens).statements
    Stmt.AllFaithful source.toList lexed.names ⟨0, source.utf8ByteSize⟩ statements ∧
      statements.Pairwise fun s s' => s.span.stop ≤ s'.span.start := by
  obtain ⟨tokens, stop, htokens, hrow, -⟩ := lex_row source names
  have hreal : ∀ t ∈ tokens, t.kind ≠ .eof := fun t ht => (hrow.stands t ht).2.kind_ne_eof
  have hd := parse_derives (lex source names).names (Grammar.atEnd_eof (Span.point stop)) hreal
  dsimp only
  rw [htokens]
  exact ⟨hd.faithful hrow, hd.ordered hrow⟩

end Tarn
