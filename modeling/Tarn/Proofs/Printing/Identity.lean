import Tarn.Proofs.Printing.Programs

/-! The printed form of a program is its identity. Two statements that were read from any two sources
are printed alike exactly when they differ in nothing but places and the numbers of names. -/
namespace Tarn
open Sexpr

variable {L : Likeness}

theorem Literal.Alike.toSexpr_eq {value value' : Literal} (h : Literal.Alike L value value') :
    value.toSexpr L.left = value'.toSexpr L.right := by
  cases h with
  | string hn => rw [Literal.toSexpr, Literal.toSexpr, NameTable.SameSpelling.spelling_eq hn]
  | nil | bool | number => rfl

mutual

theorem Expr.Alike.toSexpr_eq : ∀ {e e' : Expr}, Expr.Alike L e e' →
    e.toSexpr L.left = e'.toSexpr L.right
  | _, _, .literal _ hv => by rw [Expr.toSexpr, Expr.toSexpr, hv.toSexpr_eq]
  | _, _, .var _ hn => by
    rw [Expr.toSexpr, Expr.toSexpr, NameTable.SameSpelling.spelling_eq hn]
  | _, _, .grouping _ h => by rw [Expr.toSexpr, Expr.toSexpr, h.toSexpr_eq]
  | _, _, .unary _ _ _ h => by rw [Expr.toSexpr, Expr.toSexpr, h.toSexpr_eq]
  | _, _, .binary _ _ _ h h' | _, _, .logical _ _ _ h h' => by
    rw [Expr.toSexpr, Expr.toSexpr, h.toSexpr_eq, h'.toSexpr_eq]
  | _, _, .assign _ hn _ h => by
    rw [Expr.toSexpr, Expr.toSexpr, NameTable.SameSpelling.spelling_eq hn, h.toSexpr_eq]
  | _, _, .call _ h _ hs => by rw [Expr.toSexpr, Expr.toSexpr, h.toSexpr_eq, hs.toSexprs_eq]

theorem Expr.AllAlike.toSexprs_eq : ∀ {es es' : List Expr}, Expr.AllAlike L es es' →
    Expr.toSexprs L.left es = Expr.toSexprs L.right es'
  | _, _, .nil => rfl
  | _, _, .cons h hs => by rw [Expr.toSexprs, Expr.toSexprs, h.toSexpr_eq, hs.toSexprs_eq]

end

theorem Expr.OptionAlike.toSexprs_eq {e e' : Option Expr} (h : Expr.OptionAlike L e e') :
    (e.map (·.toSexpr L.left)).toList = (e'.map (·.toSexpr L.right)).toList := by
  cases h with
  | none => rfl
  | some h => exact congrArg (fun x => [x]) h.toSexpr_eq

theorem Param.atoms_eq {ps ps' : List Param} (h : List.Forall₂ (Param.Alike L) ps ps') :
    (ps.map fun p => atom (L.left.spelling p.name)) =
      ps'.map fun p => atom (L.right.spelling p.name) := by
  induction h with
  | nil => rfl
  | cons hp _ ih => rw [List.map_cons, List.map_cons, ih, NameTable.SameSpelling.spelling_eq hp.name]

mutual

theorem Stmt.Alike.toSexpr_eq : ∀ {s s' : Stmt}, Stmt.Alike L s s' →
    s.toSexpr L.left = s'.toSexpr L.right
  | _, _, .block h => by rw [Stmt.toSexpr, Stmt.toSexpr, h.toSexpr_eq]
  | _, _, .expression _ h | _, _, .print _ h => by rw [Stmt.toSexpr, Stmt.toSexpr, h.toSexpr_eq]
  | _, _, .function _ (.mk hn _ hps hb) => by
    rw [Stmt.toSexpr, Stmt.toSexpr, NameTable.SameSpelling.spelling_eq hn, Param.atoms_eq hps,
      hb.toSexpr_eq]
  | _, _, .conditional _ he hb .none => by
    rw [Stmt.toSexpr, Stmt.toSexpr, he.toSexpr_eq, hb.toSexpr_eq]
  | _, _, .conditional _ he hb (.some ho) => by
    rw [Stmt.toSexpr, Stmt.toSexpr, he.toSexpr_eq, hb.toSexpr_eq, ho.toSexpr_eq]
  | _, _, .result _ _ hv => by rw [Stmt.toSexpr, Stmt.toSexpr, Expr.OptionAlike.toSexprs_eq hv]
  | _, _, .loop _ he hb => by rw [Stmt.toSexpr, Stmt.toSexpr, he.toSexpr_eq, hb.toSexpr_eq]
  | _, _, .var _ hn _ hv => by
    rw [Stmt.toSexpr, Stmt.toSexpr, NameTable.SameSpelling.spelling_eq hn,
      Expr.OptionAlike.toSexprs_eq hv]

theorem Block.Alike.toSexpr_eq : ∀ {b b' : Block}, Block.Alike L b b' →
    b.toSexpr L.left = b'.toSexpr L.right
  | _, _, .mk _ hs => by rw [Block.toSexpr, Block.toSexpr, hs.toSexprs_eq]

theorem Stmt.AllAlike.toSexprs_eq : ∀ {ss ss' : List Stmt}, Stmt.AllAlike L ss ss' →
    Stmt.toSexprs L.left ss = Stmt.toSexprs L.right ss'
  | _, _, .nil => rfl
  | _, _, .cons h hs => by rw [Stmt.toSexprs, Stmt.toSexprs, h.toSexpr_eq, hs.toSexprs_eq]

end

/-- Two statements that were read from texts and have finite numbers only are printed alike exactly
when they are the same up to places, where names are the same if their texts are. -/
theorem render_eq_iff_alike {source source' : String} {names names' : NameTable} {s s' : Stmt}
    (hs : s ∈ (parse (lex source names).names (lex source names).tokens).statements)
    (hs' : s' ∈ (parse (lex source' names').names (lex source' names').tokens).statements)
    (hfinite : s.FiniteNumbers) (hfinite' : s'.FiniteNumbers) :
    s.render (lex source names).names = s'.render (lex source' names').names ↔
      Stmt.Alike (.unplaced (lex source names).names (lex source' names').names) s s' := by
  have hlegible := legible_parse source names hs hfinite
  have hlegible' := legible_parse source' names' hs' hfinite'
  constructor
  · intro h
    refine Stmt.alike_of_toSexpr hlegible hlegible' ?_
    exact render_injective (Stmt.legible_toSexpr hlegible) (Stmt.legible_toSexpr hlegible') h
  · intro h
    exact congrArg Sexpr.render h.toSexpr_eq

/-- A loop written with `for`. The string holds a parenthesis and a backslash. -/
def forText : String := "for ;x<0.5;\x7bprint -x-\"(\\\";\x7d"

/-- The same loop written with `while`. -/
def whileText : String := "\x7bwhile x < 0.50 \x7b\x7bprint -x - \"(\\\";\x7d\x7d\x7d"

/-- A table in which the names of a program do not get the first numbers. -/
def laterNames : NameTable := (NameTable.empty.intern "y").2

theorem render_eq_iff_alike_loops : ∃ s s' : Stmt,
    s ∈ (parse (lex forText .empty).names (lex forText .empty).tokens).statements ∧
    s' ∈ (parse (lex whileText laterNames).names (lex whileText laterNames).tokens).statements ∧
    s.FiniteNumbers ∧ s'.FiniteNumbers ∧
    s.render (lex forText .empty).names =
      "(block (while (< x 0.5) (block (block (print (- (- x) \"(\\\\\"))))))" ∧
    Stmt.Alike (.unplaced (lex forText .empty).names (lex whileText laterNames).names) s s' := by
  have hprinted : (parse (lex forText .empty).names (lex forText .empty).tokens).statements.map
      (·.render (lex forText .empty).names) =
        ["(block (while (< x 0.5) (block (block (print (- (- x) \"(\\\\\"))))))"] := by
    decide +kernel
  have hprinted' : (parse (lex whileText laterNames).names
      (lex whileText laterNames).tokens).statements.map (·.render (lex whileText laterNames).names) =
        ["(block (while (< x 0.5) (block (block (print (- (- x) \"(\\\\\"))))))"] := by
    decide +kernel
  have hfinite : ∀ s ∈ (parse (lex forText .empty).names (lex forText .empty).tokens).statements,
      s.FiniteNumbers := by
    decide +kernel
  have hfinite' : ∀ s' ∈ (parse (lex whileText laterNames).names
      (lex whileText laterNames).tokens).statements, s'.FiniteNumbers := by
    decide +kernel
  obtain ⟨s, hs, htext⟩ := List.map_eq_singleton_iff.1 hprinted
  obtain ⟨s', hs', htext'⟩ := List.map_eq_singleton_iff.1 hprinted'
  rw [hs, List.forall_mem_singleton] at hfinite
  rw [hs', List.forall_mem_singleton] at hfinite'
  have hmem := hs ▸ List.mem_singleton_self s
  have hmem' := hs' ▸ List.mem_singleton_self s'
  exact ⟨s, s', hmem, hmem', hfinite, hfinite', htext,
    (render_eq_iff_alike hmem hmem' hfinite hfinite').1 (htext.trans htext'.symm)⟩

end Tarn
