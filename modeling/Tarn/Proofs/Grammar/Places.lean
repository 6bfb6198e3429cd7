import Tarn.Proofs.Grammar.Productions

/-! The places that a tree knows. A tree that is read off tokens knows no places but those of the
tokens and what lies between them. -/
namespace Tarn

mutual

/-- All spans in an expression. -/
def Expr.places : Expr → List Span
  | .literal span _ | .var span _ => [span]
  | .grouping span inner => span :: inner.places
  | .unary span _ opSpan operand => span :: opSpan :: operand.places
  | .binary span _ opSpan left right => span :: opSpan :: (left.places ++ right.places)
  | .logical span _ opSpan left right => span :: opSpan :: (left.places ++ right.places)
  | .assign span _ nameSpan value => span :: nameSpan :: value.places
  | .call span callee paren args => span :: paren :: (callee.places ++ Expr.allPlaces args)

def Expr.allPlaces : List Expr → List Span
  | [] => []
  | e :: es => e.places ++ Expr.allPlaces es

end

def Expr.optionPlaces : Option Expr → List Span
  | none => []
  | some e => e.places

mutual

/-- All spans in a statement, with those in the bodies of functions. -/
def Stmt.places : Stmt → List Span
  | .block body => body.places
  | .expression span value => span :: value.places
  | .function span ⟨_, nameSpan, params, body⟩ =>
      span :: nameSpan :: (params.map (·.span) ++ body.places)
  | .conditional span condition thenBranch none =>
      span :: (condition.places ++ thenBranch.places)
  | .conditional span condition thenBranch (some elseBranch) =>
      span :: (condition.places ++ (thenBranch.places ++ elseBranch.places))
  | .print span value => span :: value.places
  | .result span keyword value => span :: keyword :: Expr.optionPlaces value
  | .loop span condition body => span :: (condition.places ++ body.places)
  | .var span _ nameSpan initializer => span :: nameSpan :: Expr.optionPlaces initializer

def Block.places : Block → List Span
  | ⟨span, stmts⟩ => span :: Stmt.allPlaces stmts

def Stmt.allPlaces : List Stmt → List Span
  | [] => []
  | s :: ss => s.places ++ Stmt.allPlaces ss

end

def Block.optionPlaces : Option Block → List Span
  | none => []
  | some body => body.places

theorem Stmt.places_conditional (span : Span) (condition : Expr) (thenBranch : Block)
    (elseBranch : Option Block) : (conditional span condition thenBranch elseBranch).places =
      span :: (condition.places ++ (thenBranch.places ++ Block.optionPlaces elseBranch)) := by
  cases elseBranch <;> simp [places, Block.optionPlaces]

theorem Stmt.places_function (span : Span) (decl : FunctionDecl) : (function span decl).places =
    span :: decl.nameSpan :: (decl.params.map (·.span) ++ decl.body.places) := by
  cases decl
  rw [places]

theorem Expr.span_mem_places (e : Expr) : e.span ∈ e.places := by
  cases e <;> simp [span, places]

theorem Block.span_mem_places (body : Block) : body.span ∈ body.places := by
  cases body
  simp [places]

theorem Stmt.span_mem_places (s : Stmt) : s.span ∈ s.places := by
  cases s with
  | block body => exact body.span_mem_places
  | conditional => simp [span, places_conditional]
  | function => simp [span, places_function]
  | _ => simp [span, places]

theorem Stmt.mem_allPlaces {s : Stmt} {ss : List Stmt} {place : Span} (hs : s ∈ ss)
    (h : place ∈ s.places) : place ∈ allPlaces ss := by
  induction hs with
  | head => exact List.mem_append_left _ h
  | tail _ _ ih => exact List.mem_append_right _ ih

@[simp] theorem Expr.allPlaces_append (es es' : List Expr) :
    allPlaces (es ++ es') = allPlaces es ++ allPlaces es' := by
  induction es with
  | nil => simp [allPlaces]
  | cons e es ih => simp [allPlaces, ih]

/-- All of the places are in a text of `n` bytes. -/
def PlacesInside (n : Nat) (places : List Span) : Prop := ∀ place ∈ places, place.Inside n

namespace PlacesInside

variable {n : Nat}

@[simp] theorem nil : PlacesInside n [] := nofun

@[simp] theorem cons_iff {p : Span} {ps : List Span} :
    PlacesInside n (p :: ps) ↔ p.Inside n ∧ PlacesInside n ps := List.forall_mem_cons

@[simp] theorem append_iff {ps qs : List Span} :
    PlacesInside n (ps ++ qs) ↔ PlacesInside n ps ∧ PlacesInside n qs := List.forall_mem_append

theorem span {e : Expr} (h : PlacesInside n e.places) : e.span.Inside n := h _ e.span_mem_places

theorem blockSpan {body : Block} (h : PlacesInside n body.places) : body.span.Inside n :=
  h _ body.span_mem_places

theorem stmtSpan {s : Stmt} (h : PlacesInside n s.places) : s.span.Inside n :=
  h _ s.span_mem_places

end PlacesInside

/-- All of the tokens are in a text of `n` bytes. -/
def TokensInside (n : Nat) (ts : List Token) : Prop := ∀ t ∈ ts, t.span.Inside n

namespace TokensInside

variable {n : Nat}

@[simp] theorem nil : TokensInside n [] := nofun

@[simp] theorem cons_iff {t : Token} {ts : List Token} :
    TokensInside n (t :: ts) ↔ t.span.Inside n ∧ TokensInside n ts := List.forall_mem_cons

@[simp] theorem append_iff {ts ts' : List Token} :
    TokensInside n (ts ++ ts') ↔ TokensInside n ts ∧ TokensInside n ts' := List.forall_mem_append

end TokensInside

namespace Grammar

variable {mode : Mode} {n : Nat}

mutual

theorem Expression.placesInside {l ts e rs} :
    Expression mode l ts e rs → TokensInside n ts → PlacesInside n e.places
  | .tighter _ h, hts => h.placesInside hts
  | .assign _ _ hv, hts => by
    simp only [TokensInside.cons_iff] at hts
    obtain ⟨ht, -, hts⟩ := hts
    have hvalue := hv.placesInside hts
    simp only [Expr.places, PlacesInside.cons_iff]
    exact ⟨ht.merge hvalue.span, ht, hvalue⟩
  | .mistarget _ _ _ _ hv, hts => by
    simp only [TokensInside.append_iff, TokensInside.cons_iff] at hts
    exact hv.placesInside hts.2.2
  | .logical _ _ _ h _ h', hts
  | .binary _ _ _ h _ h', hts => by
    simp only [TokensInside.append_iff, TokensInside.cons_iff] at hts
    obtain ⟨hts, ht, hts'⟩ := hts
    have hleft := h.placesInside hts
    have hright := h'.placesInside hts'
    simp only [Expr.places, PlacesInside.cons_iff, PlacesInside.append_iff]
    exact ⟨hleft.span.merge hright.span, ht, hleft, hright⟩
  | .unary _ _ h, hts => by
    simp only [TokensInside.cons_iff] at hts
    have hoperand := h.placesInside hts.2
    simp only [Expr.places, PlacesInside.cons_iff]
    exact ⟨hts.1.merge hoperand.span, hts.1, hoperand⟩
  | .call h _ hargs _, hts => by
    simp only [TokensInside.append_iff, TokensInside.cons_iff] at hts
    obtain ⟨hts, -, hts', hc, -⟩ := hts
    have hcallee := h.placesInside hts
    simp only [Expr.places, PlacesInside.cons_iff, PlacesInside.append_iff]
    exact ⟨hcallee.span.merge hc, hc, hcallee, hargs.placesInside hts'⟩
  | .literal _ _, hts | .var _, hts => by
    simp only [TokensInside.cons_iff] at hts
    simp only [Expr.places, PlacesInside.cons_iff]
    exact ⟨hts.1, PlacesInside.nil⟩
  | .grouping _ h _, hts => by
    simp only [TokensInside.append_iff, TokensInside.cons_iff] at hts
    obtain ⟨ho, hts, hc, -⟩ := hts
    simp only [Expr.places, PlacesInside.cons_iff]
    exact ⟨ho.merge hc, h.placesInside hts⟩

theorem Arguments.placesInside {ts args rs} :
    Arguments mode ts args rs → TokensInside n ts → PlacesInside n (Expr.allPlaces args)
  | .none, _ => PlacesInside.nil
  | .some h, hts => h.placesInside hts

theorem ArgumentList.placesInside {ts args rs} :
    ArgumentList mode ts args rs → TokensInside n ts → PlacesInside n (Expr.allPlaces args)
  | .first h, hts => by
    simp only [Expr.allPlaces, List.append_nil]
    exact h.placesInside hts
  | .more h _ he, hts => by
    simp only [TokensInside.append_iff, TokensInside.cons_iff] at hts
    simp only [Expr.allPlaces_append, Expr.allPlaces, List.append_nil, PlacesInside.append_iff]
    exact ⟨h.placesInside hts.1, he.placesInside hts.2.2⟩

end

theorem ParameterList.placesInside {ts params rs} (h : ParameterList ts params rs)
    (hts : TokensInside n ts) : PlacesInside n (params.map (·.span)) := by
  induction h with
  | first => simpa using hts
  | more h _ _ ih =>
    simp only [TokensInside.append_iff, TokensInside.cons_iff] at hts
    simp only [List.map_append, List.map_cons, List.map_nil, PlacesInside.append_iff,
      PlacesInside.cons_iff]
    exact ⟨ih hts.1, hts.2.2.1, PlacesInside.nil⟩

theorem Parameters.placesInside {ts params rs} (h : Parameters ts params rs)
    (hts : TokensInside n ts) : PlacesInside n (params.map (·.span)) := by
  cases h with
  | none => exact PlacesInside.nil
  | some h => exact h.placesInside hts

theorem OptionalExpression.placesInside {ts e rs} (h : OptionalExpression mode ts e rs)
    (hts : TokensInside n ts) : PlacesInside n (Expr.optionPlaces e) := by
  cases h with
  | none => exact PlacesInside.nil
  | some h => exact h.placesInside hts

theorem VariableDeclaration.placesInside {ts stmt rs} (h : VariableDeclaration mode ts stmt rs)
    (hts : TokensInside n ts) : PlacesInside n stmt.places := by
  cases h with
  | plain =>
    simp only [TokensInside.cons_iff] at hts
    obtain ⟨hv, hn, hs, -⟩ := hts
    simp only [Stmt.places, PlacesInside.cons_iff]
    exact ⟨hv.merge hs, hn, PlacesInside.nil⟩
  | initialized _ _ _ he _ =>
    simp only [TokensInside.append_iff, TokensInside.cons_iff] at hts
    obtain ⟨hv, hn, -, hts, hs, -⟩ := hts
    simp only [Stmt.places, PlacesInside.cons_iff]
    exact ⟨hv.merge hs, hn, he.placesInside hts⟩

theorem ExpressionStatement.placesInside {ts stmt rs} (h : ExpressionStatement mode ts stmt rs)
    (hts : TokensInside n ts) : PlacesInside n stmt.places := by
  cases h with
  | @mk ts s e rs he hs =>
    simp only [TokensInside.append_iff, TokensInside.cons_iff] at hts
    have hvalue := he.placesInside hts.1
    simp only [Stmt.places, PlacesInside.cons_iff]
    exact ⟨hvalue.span.merge hts.2.1, hvalue⟩

theorem Initializer.placesInside {ts stmt rs} (h : Initializer mode ts stmt rs)
    (hts : TokensInside n ts) : ∀ s ∈ stmt, PlacesInside n s.places := by
  cases h with
  | none => exact nofun
  | var h =>
    rintro s ⟨⟩
    exact h.placesInside hts
  | expression h =>
    rintro s ⟨⟩
    exact h.placesInside hts

/-- What is made of a `for` lies where its parts do. -/
theorem placesInside_forTree {span semicolon : Span} {initializer : Option Stmt}
    {condition increment : Option Expr} {body : Block} (hspan : span.Inside n)
    (hsemicolon : semicolon.Inside n) (hi : ∀ s ∈ initializer, PlacesInside n s.places)
    (hc : PlacesInside n (Expr.optionPlaces condition))
    (hn : PlacesInside n (Expr.optionPlaces increment)) (hb : PlacesInside n body.places) :
    PlacesInside n (forTree span initializer condition semicolon increment body).places := by
  have hbody := hb.blockSpan
  have hcondition : PlacesInside n
      (condition.getD (.literal (Span.point semicolon.start) (.bool true))).places := by
    cases condition with
    | none => simpa [Expr.places] using hsemicolon.point
    | some e => exact hc
  have hincrement : ∀ e ∈ increment, (body.span.merge e.span).Inside n ∧ e.span.Inside n ∧
      PlacesInside n e.places := by
    rintro e ⟨⟩
    have he := PlacesInside.span hn
    exact ⟨hbody.merge he, he, hn⟩
  cases initializer <;> cases increment <;>
    simp [forTree, Stmt.places, Block.places, Stmt.allPlaces, hspan, hcondition, hbody, hb,
      hi, hincrement]

/-- A conditional reaches to the end of its last branch. -/
theorem placesInside_conditional {opening : Span} {condition : Expr} {thenBranch : Block}
    {elseBranch : Option Block} (ho : opening.Inside n) (hc : PlacesInside n condition.places)
    (hthen : PlacesInside n thenBranch.places)
    (helse : ∀ body ∈ elseBranch, PlacesInside n body.places) :
    PlacesInside n (Stmt.conditional (opening.merge (elseBranch.getD thenBranch).span) condition
      thenBranch elseBranch).places := by
  cases elseBranch with
  | none =>
    simp only [Stmt.places, PlacesInside.cons_iff, PlacesInside.append_iff]
    exact ⟨ho.merge hthen.blockSpan, hc, hthen⟩
  | some body =>
    have hbody := helse body rfl
    simp only [Stmt.places, PlacesInside.cons_iff, PlacesInside.append_iff]
    exact ⟨ho.merge hbody.blockSpan, hc, hthen, hbody⟩

mutual

theorem Declaration.placesInside {inside ts stmt rs} :
    Declaration mode inside ts stmt rs → TokensInside n ts → PlacesInside n stmt.places
  | .function _ _ _ hp _ hb, hts => by
    simp only [TokensInside.append_iff, TokensInside.cons_iff] at hts
    obtain ⟨hf, hn, -, hts, -, hts'⟩ := hts
    have hbody := hb.placesInside hts'
    simp only [Stmt.places, PlacesInside.cons_iff, PlacesInside.append_iff]
    exact ⟨hf.merge hbody.blockSpan, hn, hp.placesInside hts, hbody⟩
  | .var h, hts => h.placesInside hts
  | .expression h, hts => h.placesInside hts
  | .forLoop _ hi hc _ hn hb, hts => by
    simp only [TokensInside.append_iff, TokensInside.cons_iff] at hts
    obtain ⟨hf, hts, hts₁, hs, hts₂, hts₃⟩ := hts
    have hbody := hb.placesInside hts₃
    exact placesInside_forTree (hf.merge hbody.blockSpan) hs (hi.placesInside hts)
      (hc.placesInside hts₁) (hn.placesInside hts₂) hbody
  | .conditional h, hts => h.placesInside hts
  | .print _ he _, hts => by
    simp only [TokensInside.append_iff, TokensInside.cons_iff] at hts
    obtain ⟨hp, hts, hs, -⟩ := hts
    simp only [Stmt.places, PlacesInside.cons_iff]
    exact ⟨hp.merge hs, he.placesInside hts⟩
  | .result _ hv _, hts => by
    simp only [TokensInside.append_iff, TokensInside.cons_iff] at hts
    obtain ⟨hr, hts, hs, -⟩ := hts
    simp only [Stmt.places, PlacesInside.cons_iff]
    exact ⟨hr.merge hs, hr, hv.placesInside hts⟩
  | .whileLoop _ he hb, hts => by
    simp only [TokensInside.append_iff, TokensInside.cons_iff] at hts
    obtain ⟨hw, hts, hts'⟩ := hts
    have hbody := hb.placesInside hts'
    simp only [Stmt.places, PlacesInside.cons_iff, PlacesInside.append_iff]
    exact ⟨hw.merge hbody.blockSpan, he.placesInside hts, hbody⟩
  | .block h, hts => by
    rw [Stmt.places]
    exact h.placesInside hts

theorem Conditional.placesInside {inside ts stmt rs} :
    Conditional mode inside ts stmt rs → TokensInside n ts → PlacesInside n stmt.places
  | .mk _ he hb helse, hts => by
    simp only [TokensInside.append_iff, TokensInside.cons_iff] at hts
    obtain ⟨hi, hts, hts', hts₁⟩ := hts
    exact placesInside_conditional hi (he.placesInside hts) (hb.placesInside hts')
      (helse.placesInside hts₁)

theorem Otherwise.placesInside {inside ts body rs} :
    Otherwise mode inside ts body rs → TokensInside n ts → ∀ b ∈ body, PlacesInside n b.places
  | .none, _ => nofun
  | .block _ h, hts => by
    rintro b ⟨⟩
    exact h.placesInside (TokensInside.cons_iff.1 hts).2
  | .chained _ h, hts => by
    rintro b ⟨⟩
    have hstmt := h.placesInside (TokensInside.cons_iff.1 hts).2
    simpa [Block.places, Stmt.allPlaces] using ⟨hstmt.stmtSpan, hstmt⟩

theorem Braces.placesInside {inside ts body rs} :
    Braces mode inside ts body rs → TokensInside n ts → PlacesInside n body.places
  | .mk _ h _, hts => by
    simp only [TokensInside.append_iff, TokensInside.cons_iff] at hts
    obtain ⟨ho, hts, hc, -⟩ := hts
    simp only [Block.places, PlacesInside.cons_iff]
    exact ⟨ho.merge hc, h.placesInside hts⟩

theorem Declarations.placesInside {inside ts stmts rs} :
    Declarations mode inside ts stmts rs → TokensInside n ts →
      PlacesInside n (Stmt.allPlaces stmts)
  | .nil, _ => PlacesInside.nil
  | .cons h hs, hts => by
    simp only [TokensInside.append_iff] at hts
    simp only [Stmt.allPlaces, PlacesInside.append_iff]
    exact ⟨h.placesInside hts.1, hs.placesInside hts.2⟩
  | .dropped _ _ _ hs, hts => by
    simp only [TokensInside.append_iff] at hts
    exact hs.placesInside hts.2

end

end Grammar

end Tarn
