import Tarn.Proofs.Printing.Leaves

/-! Printed programs. The text of a statement that was read from a source tells the statement up to
its places. -/
namespace Tarn
open Sexpr

variable {t t' : NameTable}

/-- Programs of two tables of names, wherever they stand. -/
abbrev Likeness.unplaced (t t' : NameTable) : Likeness := ⟨t, t', fun _ _ => True⟩

namespace Name.IsIdentifier

variable {n : Name} (h : n.IsIdentifier t)
include h

theorem known : ∃ text, t.find? text = some n := by
  obtain ⟨text, hn, -⟩ := h
  exact ⟨text, hn⟩

theorem legible : (Leaf.word (t.spelling n)).Legible := by
  obtain ⟨text, hn, hword, -⟩ := h
  rw [NameTable.spelling_of_find? hn]
  exact hword

theorem spelling_ne (k : Keyword) : t.spelling n ≠ k.spelling := by
  obtain ⟨text, hn, -, hkeyword⟩ := h
  rw [NameTable.spelling_of_find? hn]
  exact hkeyword k

end Name.IsIdentifier

theorem NameTable.sameSpelling_of_spelling {n n' : Name} (h : ∃ text, t.find? text = some n)
    (h' : ∃ text, t'.find? text = some n') (heq : t.spelling n = t'.spelling n') :
    t.SameSpelling t' n n' := by
  obtain ⟨text, hn⟩ := h
  obtain ⟨text', hn'⟩ := h'
  rw [spelling_of_find? hn, spelling_of_find? hn'] at heq
  subst heq
  exact ⟨text, hn, hn'⟩

/-- Names that are printed alike are the same. -/
theorem Name.IsIdentifier.same {n n' : Name} (h : n.IsIdentifier t) (h' : n'.IsIdentifier t')
    (heq : atom (t.spelling n) = atom (t'.spelling n')) : t.SameSpelling t' n n' :=
  NameTable.sameSpelling_of_spelling h.known h'.known (Sexpr.atom.inj heq)

namespace Literal

def leaf (names : NameTable) : Literal → Leaf
  | nil => .word "nil"
  | bool b => .word (if b then "true" else "false")
  | number bits => .number bits
  | string n => .quote (names.spelling n)

theorem toSexpr_eq (names : NameTable) (value : Literal) :
    value.toSexpr names = atom (value.leaf names).text := by
  cases value <;> rfl

variable {value value' : Literal}

theorem legible_leaf (h : value.Finite) : (value.leaf t).Legible := by
  cases value with
  | nil => exact Keyword.nilKw.matches_spelling
  | bool b =>
    cases b
    · exact Keyword.falseKw.matches_spelling
    · exact Keyword.trueKw.matches_spelling
  | number bits => exact h
  | string n => trivial

theorem leaf_ne_word {n : Name} (h : n.IsIdentifier t') : value.leaf t ≠ .word (t'.spelling n) := by
  intro heq
  cases value with
  | nil => exact h.spelling_ne .nilKw (Leaf.word.inj heq).symm
  | bool b =>
    cases b
    · exact h.spelling_ne .falseKw (Leaf.word.inj heq).symm
    · exact h.spelling_ne .trueKw (Leaf.word.inj heq).symm
  | number | string => cases heq

theorem alike_of_leaf (h : value.Known t) (h' : value'.Known t')
    (heq : value.leaf t = value'.leaf t') : Literal.Alike (.unplaced t t') value value' := by
  cases value with
  | nil =>
    cases value' with
    | nil => exact .nil
    | bool b => cases b <;> simp [leaf] at heq
    | number | string => cases heq
  | bool b =>
    cases value' with
    | nil => cases b <;> simp [leaf] at heq
    | bool b' =>
      obtain rfl : b = b' := by cases b <;> cases b' <;> simp [leaf] at heq ⊢
      exact .bool b
    | number | string => cases heq
  | number bits =>
    cases value' with
    | number bits' =>
      obtain rfl := Leaf.number.inj heq
      exact .number bits
    | nil | bool | string => cases heq
  | string n =>
    cases value' with
    | string n' => exact .string (NameTable.sameSpelling_of_spelling h h' (Leaf.quote.inj heq))
    | nil | bool | number => cases heq

end Literal

/-- How an expression begins: with all of it, or with the head of a list. -/
inductive Top where
  | leaf (l : Leaf)
  | list (head : Head)

def Top.toSexpr : Top → List Sexpr → Sexpr
  | leaf l, _ => atom l.text
  | list head, items => form head.text items

namespace Expr

def top (names : NameTable) : Expr → Top
  | literal _ value => .leaf (value.leaf names)
  | var _ n => .leaf (.word (names.spelling n))
  | grouping .. => .list .group
  | unary _ op .. => .list (.unary op)
  | binary _ op .. => .list (.binary op)
  | logical _ op .. => .list (.logical op)
  | assign .. => .list .assign
  | call .. => .list .call

def items (names : NameTable) : Expr → List Sexpr
  | literal .. | var .. => []
  | grouping _ inner => [inner.toSexpr names]
  | unary _ _ _ operand => [operand.toSexpr names]
  | binary _ _ _ left right | logical _ _ _ left right =>
      [left.toSexpr names, right.toSexpr names]
  | assign _ n _ value => [atom (names.spelling n), value.toSexpr names]
  | call _ callee _ args => callee.toSexpr names :: toSexprs names args

variable {e e' : Expr}

theorem toSexpr_eq (names : NameTable) (e : Expr) :
    e.toSexpr names = (e.top names).toSexpr (e.items names) := by
  cases e with
  | literal span value => exact value.toSexpr_eq names
  | _ => rfl

theorem items_length {head : Head} (h : e.top t = .list head) :
    ∀ n ∈ head.count?, (e.items t).length = n := by
  cases e <;> cases h <;> simp [Head.count?, items]

theorem items_leaf {l : Leaf} (h : e.top t = .leaf l) : e.items t = [] := by
  cases e with
  | literal | var => rfl
  | _ => cases h

theorem legible_leaf {l : Leaf} (h : Legible t e.names e.nodes) (htop : e.top t = .leaf l) :
    l.Legible := by
  cases e with
  | literal span value =>
    obtain rfl := Top.leaf.inj htop
    exact Literal.legible_leaf h.finite.head
  | var span n =>
    obtain rfl := Top.leaf.inj htop
    exact h.words.head.legible
  | _ => cases htop

theorem top_eq (h : Legible t e.names e.nodes) (h' : Legible t' e'.names e'.nodes)
    (heq : e.toSexpr t = e'.toSexpr t') : e.top t = e'.top t' ∧ e.items t = e'.items t' := by
  rw [toSexpr_eq, toSexpr_eq] at heq
  cases htop : e.top t with
  | leaf l =>
    cases htop' : e'.top t' with
    | leaf l' =>
      rw [htop, htop'] at heq
      have hl := Leaf.text_injective (legible_leaf h htop) (legible_leaf h' htop')
        (Sexpr.atom.inj heq)
      exact ⟨congrArg Top.leaf hl, (items_leaf htop).trans (items_leaf htop').symm⟩
    | list head' =>
      rw [htop, htop'] at heq
      cases heq
  | list head =>
    cases htop' : e'.top t' with
    | leaf l' =>
      rw [htop, htop'] at heq
      cases heq
    | list head' =>
      rw [htop, htop'] at heq
      obtain ⟨htext, hitems⟩ := List.cons.inj (Sexpr.list.inj heq)
      have hhead := Head.eq_of_text (Sexpr.atom.inj htext) fun n hn m hm => by
        rw [← items_length htop n hn, ← items_length htop' m hm, hitems]
      exact ⟨congrArg Top.list hhead, hitems⟩

end Expr

namespace Stmt

def head : Stmt → Statement
  | block _ => .block
  | expression .. => .expression
  | function .. => .function
  | conditional .. => .conditional
  | print .. => .print
  | result .. => .result
  | loop .. => .loop
  | var .. => .var

def items (names : NameTable) : Stmt → List Sexpr
  | block body => toSexprs names body.stmts
  | expression _ value | print _ value => [value.toSexpr names]
  | function _ decl =>
      [atom (names.spelling decl.name),
        list (decl.params.map fun p => atom (names.spelling p.name)), decl.body.toSexpr names]
  | conditional _ condition thenBranch elseBranch =>
      condition.toSexpr names :: thenBranch.toSexpr names ::
        (elseBranch.map (·.toSexpr names)).toList
  | result _ _ value => (value.map (·.toSexpr names)).toList
  | loop _ condition body => [condition.toSexpr names, body.toSexpr names]
  | var _ n _ initializer =>
      atom (names.spelling n) :: (initializer.map (·.toSexpr names)).toList

theorem toSexpr_eq (names : NameTable) (s : Stmt) :
    s.toSexpr names = form s.head.text (s.items names) := by
  cases s with
  | block body => cases body; rfl
  | function _ decl => cases decl; rfl
  | conditional _ _ _ elseBranch => cases elseBranch <;> rfl
  | _ => rfl

theorem head_eq {s s' : Stmt} (h : s.toSexpr t = s'.toSexpr t') :
    s.head = s'.head ∧ s.items t = s'.items t' := by
  rw [toSexpr_eq, toSexpr_eq] at h
  obtain ⟨htext, hitems⟩ := List.cons.inj (Sexpr.list.inj h)
  exact ⟨Statement.text_injective (Sexpr.atom.inj htext), hitems⟩

end Stmt

namespace Sexpr

theorem allLegible_cons {x : Sexpr} {xs : List Sexpr} :
    AllLegible (x :: xs) ↔ x.Legible ∧ AllLegible xs := by
  rw [AllLegible]

theorem allLegible_nil : AllLegible [] := trivial

theorem AllLegible.single {x : Sexpr} (h : x.Legible) : AllLegible [x] :=
  allLegible_cons.2 ⟨h, allLegible_nil⟩

theorem AllLegible.pair {x y : Sexpr} (h : x.Legible) (h' : y.Legible) : AllLegible [x, y] :=
  allLegible_cons.2 ⟨h, .single h'⟩

theorem legible_atom {text : String} (h : Atom text) : (atom text).Legible := h

theorem legible_list {items : List Sexpr} (h : AllLegible items) : (list items).Legible := h

theorem legible_form {head : String} {items : List Sexpr} (h : Atom head)
    (hs : AllLegible items) : (form head items).Legible :=
  legible_list (allLegible_cons.2 ⟨legible_atom h, hs⟩)

end Sexpr

theorem Name.IsIdentifier.legible_atom {n : Name} (h : n.IsIdentifier t) :
    (atom (t.spelling n)).Legible := Sexpr.legible_atom (Leaf.atom h.legible)

mutual

theorem Expr.legible_toSexpr : ∀ {e : Expr}, Legible t e.names e.nodes → (e.toSexpr t).Legible
  | .literal _ value, h => by
    rw [Expr.toSexpr, Literal.toSexpr_eq]
    exact Sexpr.legible_atom (Leaf.atom (Literal.legible_leaf h.finite.head))
  | .var .., h => h.words.head.legible_atom
  | .grouping .., h =>
    legible_form Head.group.text_atom
      (.single (Expr.legible_toSexpr h.below))
  | .unary _ op .., h =>
    legible_form (Head.unary op).text_atom
      (.single (Expr.legible_toSexpr h.below))
  | .binary _ op .., h =>
    legible_form (Head.binary op).text_atom
      (.pair (Expr.legible_toSexpr h.below.left) (Expr.legible_toSexpr h.below.right))
  | .logical _ op .., h =>
    legible_form (Head.logical op).text_atom
      (.pair (Expr.legible_toSexpr h.below.left) (Expr.legible_toSexpr h.below.right))
  | .assign .., h =>
    legible_form Head.assign.text_atom
      (.pair h.words.head.legible_atom (Expr.legible_toSexpr h.below.unnamed))
  | .call .., h =>
    legible_form Head.call.text_atom
      (allLegible_cons.2 ⟨Expr.legible_toSexpr h.below.left, Expr.legible_toSexprs h.below.right⟩)

theorem Expr.legible_toSexprs : ∀ {es : List Expr},
    Legible t (Expr.allNames es) (Expr.allNodes es) → AllLegible (Expr.toSexprs t es)
  | [], _ => allLegible_nil
  | _ :: _, h => allLegible_cons.2 ⟨Expr.legible_toSexpr h.left, Expr.legible_toSexprs h.right⟩

end

theorem Expr.legible_option {e : Option Expr}
    (h : Legible t (Expr.optionNames e) (Expr.optionNodes e)) :
    AllLegible (e.map (·.toSexpr t)).toList := by
  cases e with
  | none => exact allLegible_nil
  | some e => exact .single (Expr.legible_toSexpr h)

theorem Param.legible {params : List Param}
    (h : AllNames (Name.IsIdentifier t) (params.map (·.name))) :
    AllLegible (params.map fun p => atom (t.spelling p.name)) := by
  induction params with
  | nil => exact allLegible_nil
  | cons p params ih => exact allLegible_cons.2 ⟨h.head.legible_atom, ih h.tail⟩

mutual

theorem Stmt.legible_toSexpr : ∀ {s : Stmt}, Legible t s.names s.nodes → (s.toSexpr t).Legible
  | .block .., h => Block.legible_toSexpr h
  | .expression .., h =>
    legible_form Statement.expression.text_atom
      (.single (Expr.legible_toSexpr h))
  | .function _ ⟨_, _, _, _⟩, h =>
    legible_form Statement.function.text_atom
      (allLegible_cons.2 ⟨h.words.head.legible_atom,
        .pair (legible_list (Param.legible h.words.tail.left))
          (Block.legible_toSexpr ⟨h.words.tail.right, h.known.tail, h.finite.tail⟩)⟩)
  | .conditional _ _ _ none, h =>
    legible_form Statement.conditional.text_atom
      (.pair (Expr.legible_toSexpr h.left) (Block.legible_toSexpr h.right))
  | .conditional _ _ _ (some _), h =>
    legible_form Statement.conditional.text_atom
      (allLegible_cons.2 ⟨Expr.legible_toSexpr h.left,
        .pair (Block.legible_toSexpr h.right.left) (Block.legible_toSexpr h.right.right)⟩)
  | .print .., h =>
    legible_form Statement.print.text_atom
      (.single (Expr.legible_toSexpr h))
  | .result .., h => legible_form Statement.result.text_atom (Expr.legible_option h)
  | .loop .., h =>
    legible_form Statement.loop.text_atom
      (.pair (Expr.legible_toSexpr h.left) (Block.legible_toSexpr h.right))
  | .var .., h =>
    legible_form Statement.var.text_atom
      (allLegible_cons.2 ⟨h.words.head.legible_atom, Expr.legible_option h.unnamed⟩)

theorem Block.legible_toSexpr : ∀ {b : Block}, Legible t b.names b.nodes → (b.toSexpr t).Legible
  | ⟨_, _⟩, h => legible_form Statement.block.text_atom (Stmt.legible_toSexprs h)

theorem Stmt.legible_toSexprs : ∀ {ss : List Stmt},
    Legible t (Stmt.allNames ss) (Stmt.allNodes ss) → AllLegible (Stmt.toSexprs t ss)
  | [], _ => allLegible_nil
  | _ :: _, h => allLegible_cons.2 ⟨Stmt.legible_toSexpr h.left, Stmt.legible_toSexprs h.right⟩

end

mutual

theorem Expr.alike_of_toSexpr : ∀ {e e' : Expr}, Legible t e.names e.nodes →
    Legible t' e'.names e'.nodes → e.toSexpr t = e'.toSexpr t' →
      Expr.Alike (.unplaced t t') e e'
  | .literal _ value, e', h, h', heq => by
    have htop := (Expr.top_eq h h' heq).1
    cases e' with
    | literal _ value' =>
      exact .literal trivial
        (Literal.alike_of_leaf h.known.head h'.known.head (Top.leaf.inj htop))
    | var _ n' => exact absurd (Top.leaf.inj htop) (Literal.leaf_ne_word h'.words.head)
    | _ => cases htop
  | .var _ n, e', h, h', heq => by
    have htop := (Expr.top_eq h h' heq).1
    cases e' with
    | literal _ value' =>
      exact absurd (Top.leaf.inj htop).symm (Literal.leaf_ne_word h.words.head)
    | var _ n' =>
      exact .var trivial (h.words.head.same h'.words.head heq)
    | _ => cases htop
  | .grouping _ inner, e', h, h', heq => by
    obtain ⟨htop, hitems⟩ := Expr.top_eq h h' heq
    cases e' with
    | grouping _ inner' =>
      obtain ⟨hinner, -⟩ := List.cons.inj hitems
      exact .grouping trivial (Expr.alike_of_toSexpr h.below h'.below hinner)
    | _ => cases htop
  | .unary _ op _ operand, e', h, h', heq => by
    obtain ⟨htop, hitems⟩ := Expr.top_eq h h' heq
    cases e' with
    | unary _ op' _ operand' =>
      cases htop
      obtain ⟨hoperand, -⟩ := List.cons.inj hitems
      exact .unary op trivial trivial (Expr.alike_of_toSexpr h.below h'.below hoperand)
    | _ => cases htop
  | .binary _ op _ left right, e', h, h', heq => by
    obtain ⟨htop, hitems⟩ := Expr.top_eq h h' heq
    cases e' with
    | binary _ op' _ left' right' =>
      cases htop
      obtain ⟨hleft, hrest⟩ := List.cons.inj hitems
      obtain ⟨hright, -⟩ := List.cons.inj hrest
      exact .binary op trivial trivial (Expr.alike_of_toSexpr h.below.left h'.below.left hleft)
        (Expr.alike_of_toSexpr h.below.right h'.below.right hright)
    | _ => cases htop
  | .logical _ op _ left right, e', h, h', heq => by
    obtain ⟨htop, hitems⟩ := Expr.top_eq h h' heq
    cases e' with
    | logical _ op' _ left' right' =>
      cases htop
      obtain ⟨hleft, hrest⟩ := List.cons.inj hitems
      obtain ⟨hright, -⟩ := List.cons.inj hrest
      exact .logical op trivial trivial (Expr.alike_of_toSexpr h.below.left h'.below.left hleft)
        (Expr.alike_of_toSexpr h.below.right h'.below.right hright)
    | _ => cases htop
  | .assign _ n _ value, e', h, h', heq => by
    obtain ⟨htop, hitems⟩ := Expr.top_eq h h' heq
    cases e' with
    | assign _ n' _ value' =>
      obtain ⟨hname, hrest⟩ := List.cons.inj hitems
      obtain ⟨hvalue, -⟩ := List.cons.inj hrest
      have hn := h.words.head.same h'.words.head hname
      exact .assign trivial hn trivial
        (Expr.alike_of_toSexpr h.below.unnamed h'.below.unnamed hvalue)
    | _ => cases htop
  | .call _ callee _ args, e', h, h', heq => by
    obtain ⟨htop, hitems⟩ := Expr.top_eq h h' heq
    cases e' with
    | call _ callee' _ args' =>
      obtain ⟨hcallee, hargs⟩ := List.cons.inj hitems
      exact .call trivial (Expr.alike_of_toSexpr h.below.left h'.below.left hcallee) trivial
        (Expr.allAlike_of_toSexprs h.below.right h'.below.right hargs)
    | _ => cases htop

theorem Expr.allAlike_of_toSexprs : ∀ {es es' : List Expr},
    Legible t (Expr.allNames es) (Expr.allNodes es) →
    Legible t' (Expr.allNames es') (Expr.allNodes es') →
    Expr.toSexprs t es = Expr.toSexprs t' es' → Expr.AllAlike (.unplaced t t') es es'
  | [], [], _, _, _ => .nil
  | [], _ :: _, _, _, heq => nomatch heq
  | _ :: _, [], _, _, heq => nomatch heq
  | _ :: _, _ :: _, h, h', heq =>
    have hitems := List.cons.inj heq
    .cons (Expr.alike_of_toSexpr h.left h'.left hitems.1)
      (Expr.allAlike_of_toSexprs h.right h'.right hitems.2)

end

theorem Expr.optionAlike_of_toSexprs {v v' : Option Expr}
    (h : Legible t (Expr.optionNames v) (Expr.optionNodes v))
    (h' : Legible t' (Expr.optionNames v') (Expr.optionNodes v'))
    (heq : (v.map (·.toSexpr t)).toList = (v'.map (·.toSexpr t')).toList) :
    Expr.OptionAlike (.unplaced t t') v v' := by
  cases v with
  | none =>
    cases v' with
    | none => exact .none
    | some e' => cases heq
  | some e =>
    cases v' with
    | none => cases heq
    | some e' => exact .some (Expr.alike_of_toSexpr h h' (List.cons.inj heq).1)

theorem Param.allAlike_of_atoms {ps ps' : List Param}
    (h : AllNames (Name.IsIdentifier t) (ps.map (·.name)))
    (h' : AllNames (Name.IsIdentifier t') (ps'.map (·.name)))
    (heq : (ps.map fun p => atom (t.spelling p.name)) =
      ps'.map fun p => atom (t'.spelling p.name)) :
    List.Forall₂ (Param.Alike (.unplaced t t')) ps ps' := by
  induction ps generalizing ps' with
  | nil =>
    cases ps' with
    | nil => exact .nil
    | cons p' ps' => cases heq
  | cons p ps ih =>
    cases ps' with
    | nil => cases heq
    | cons p' ps' =>
      obtain ⟨hname, hrest⟩ := List.cons.inj heq
      have hn := h.head.same h'.head hname
      exact .cons ⟨hn, trivial⟩ (ih h.tail h'.tail hrest)

mutual

theorem Stmt.alike_of_toSexpr : ∀ {s s' : Stmt}, Legible t s.names s.nodes →
    Legible t' s'.names s'.nodes → s.toSexpr t = s'.toSexpr t' →
      Stmt.Alike (.unplaced t t') s s'
  | .block _, s', h, h', heq => by
    obtain ⟨hhead, -⟩ := Stmt.head_eq heq
    cases s' with
    | block body' => exact .block (Block.alike_of_toSexpr h h' heq)
    | _ => cases hhead
  | .expression .., s', h, h', heq => by
    obtain ⟨hhead, hitems⟩ := Stmt.head_eq heq
    cases s' with
    | expression _ value' =>
      exact .expression trivial (Expr.alike_of_toSexpr h h' (List.cons.inj hitems).1)
    | _ => cases hhead
  | .function _ ⟨n, _, params, body⟩, s', h, h', heq => by
    obtain ⟨hhead, hitems⟩ := Stmt.head_eq heq
    cases s' with
    | function _ decl' =>
      obtain ⟨n', _, params', body'⟩ := decl'
      obtain ⟨hname, hrest⟩ := List.cons.inj hitems
      obtain ⟨hparams, hrest⟩ := List.cons.inj hrest
      obtain ⟨hbody, -⟩ := List.cons.inj hrest
      have hn := h.words.head.same h'.words.head hname
      have hps := Param.allAlike_of_atoms h.words.tail.left h'.words.tail.left
        (Sexpr.list.inj hparams)
      have hb := Block.alike_of_toSexpr ⟨h.words.tail.right, h.known.tail, h.finite.tail⟩
        ⟨h'.words.tail.right, h'.known.tail, h'.finite.tail⟩ hbody
      exact .function trivial (.mk hn trivial hps hb)
    | _ => cases hhead
  | .conditional _ condition thenBranch none, s', h, h', heq => by
    obtain ⟨hhead, hitems⟩ := Stmt.head_eq heq
    cases s' with
    | conditional _ condition' thenBranch' elseBranch' =>
      obtain ⟨hcondition, hrest⟩ := List.cons.inj hitems
      obtain ⟨hthen, helse⟩ := List.cons.inj hrest
      cases elseBranch' with
      | none =>
        exact .conditional trivial (Expr.alike_of_toSexpr h.left h'.left hcondition)
          (Block.alike_of_toSexpr h.right h'.right hthen) .none
      | some _ => cases helse
    | _ => cases hhead
  | .conditional _ condition thenBranch (some elseBranch), s', h, h', heq => by
    obtain ⟨hhead, hitems⟩ := Stmt.head_eq heq
    cases s' with
    | conditional _ condition' thenBranch' elseBranch' =>
      obtain ⟨hcondition, hrest⟩ := List.cons.inj hitems
      obtain ⟨hthen, helse⟩ := List.cons.inj hrest
      cases elseBranch' with
      | none => cases helse
      | some elseBranch' =>
        exact .conditional trivial (Expr.alike_of_toSexpr h.left h'.left hcondition)
          (Block.alike_of_toSexpr h.right.left h'.right.left hthen)
          (.some (Block.alike_of_toSexpr h.right.right h'.right.right (List.cons.inj helse).1))
    | _ => cases hhead
  | .print .., s', h, h', heq => by
    obtain ⟨hhead, hitems⟩ := Stmt.head_eq heq
    cases s' with
    | print _ value' => exact .print trivial (Expr.alike_of_toSexpr h h' (List.cons.inj hitems).1)
    | _ => cases hhead
  | .result .., s', h, h', heq => by
    obtain ⟨hhead, hitems⟩ := Stmt.head_eq heq
    cases s' with
    | result _ _ value' =>
      exact .result trivial trivial (Expr.optionAlike_of_toSexprs h h' hitems)
    | _ => cases hhead
  | .loop .., s', h, h', heq => by
    obtain ⟨hhead, hitems⟩ := Stmt.head_eq heq
    cases s' with
    | loop _ condition' body' =>
      obtain ⟨hcondition, hrest⟩ := List.cons.inj hitems
      obtain ⟨hbody, -⟩ := List.cons.inj hrest
      exact .loop trivial (Expr.alike_of_toSexpr h.left h'.left hcondition)
        (Block.alike_of_toSexpr h.right h'.right hbody)
    | _ => cases hhead
  | .var .., s', h, h', heq => by
    obtain ⟨hhead, hitems⟩ := Stmt.head_eq heq
    cases s' with
    | var _ n' _ initializer' =>
      obtain ⟨hname, hrest⟩ := List.cons.inj hitems
      have hn := h.words.head.same h'.words.head hname
      exact .var trivial hn trivial (Expr.optionAlike_of_toSexprs h.unnamed h'.unnamed hrest)
    | _ => cases hhead

theorem Block.alike_of_toSexpr : ∀ {b b' : Block}, Legible t b.names b.nodes →
    Legible t' b'.names b'.nodes → b.toSexpr t = b'.toSexpr t' →
      Block.Alike (.unplaced t t') b b'
  | ⟨_, _⟩, ⟨_, _⟩, h, h', heq =>
    .mk trivial (Stmt.allAlike_of_toSexprs h h' (List.cons.inj (Sexpr.list.inj heq)).2)

theorem Stmt.allAlike_of_toSexprs : ∀ {ss ss' : List Stmt},
    Legible t (Stmt.allNames ss) (Stmt.allNodes ss) →
    Legible t' (Stmt.allNames ss') (Stmt.allNodes ss') →
    Stmt.toSexprs t ss = Stmt.toSexprs t' ss' → Stmt.AllAlike (.unplaced t t') ss ss'
  | [], [], _, _, _ => .nil
  | [], _ :: _, _, _, heq => nomatch heq
  | _ :: _, [], _, _, heq => nomatch heq
  | _ :: _, _ :: _, h, h', heq =>
    have hitems := List.cons.inj heq
    .cons (Stmt.alike_of_toSexpr h.left h'.left hitems.1)
      (Stmt.allAlike_of_toSexprs h.right h'.right hitems.2)

end

end Tarn
