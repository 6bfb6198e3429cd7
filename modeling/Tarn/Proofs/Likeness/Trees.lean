import Mathlib.Data.List.Forall2
import Tarn.Proofs.Grammar.Places
import Tarn.Proofs.Likeness.Names

/-! Tokens and trees that differ in names and places only. -/
namespace Tarn

variable (L : Likeness)

inductive TokenKind.Alike : TokenKind → TokenKind → Prop where
  | symbol (s : Symbol) : Alike (.symbol s) (.symbol s)
  | identifier {n n'} (hn : L.name n n') : Alike (.identifier n) (.identifier n')
  | string {n n'} (hn : L.name n n') : Alike (.string n) (.string n')
  | number (bits : UInt64) : Alike (.number bits) (.number bits)
  | keyword (k : Keyword) : Alike (.keyword k) (.keyword k)
  | eof : Alike .eof .eof

structure Token.Alike (t t' : Token) : Prop where
  kind : TokenKind.Alike L t.kind t'.kind
  span : L.place t.span t'.span

structure Param.Alike (p p' : Param) : Prop where
  name : L.name p.name p'.name
  span : L.place p.span p'.span

inductive Literal.Alike : Literal → Literal → Prop where
  | nil : Alike .nil .nil
  | bool (b : Bool) : Alike (.bool b) (.bool b)
  | number (bits : UInt64) : Alike (.number bits) (.number bits)
  | string {n n'} (hn : L.name n n') : Alike (.string n) (.string n')

mutual

inductive Expr.Alike : Expr → Expr → Prop where
  | literal {p p' v v'} (hp : L.place p p') (hv : Literal.Alike L v v') :
      Expr.Alike (.literal p v) (.literal p' v')
  | var {p p' n n'} (hp : L.place p p') (hn : L.name n n') : Expr.Alike (.var p n) (.var p' n')
  | grouping {p p' e e'} (hp : L.place p p') (h : Expr.Alike e e') :
      Expr.Alike (.grouping p e) (.grouping p' e')
  | unary {p p' o o' e e'} (op : UnaryOp) (hp : L.place p p') (ho : L.place o o')
      (h : Expr.Alike e e') : Expr.Alike (.unary p op o e) (.unary p' op o' e')
  | binary {p p' o o' a a' b b'} (op : BinaryOp) (hp : L.place p p') (ho : L.place o o')
      (ha : Expr.Alike a a') (hb : Expr.Alike b b') :
      Expr.Alike (.binary p op o a b) (.binary p' op o' a' b')
  | logical {p p' o o' a a' b b'} (op : LogicalOp) (hp : L.place p p') (ho : L.place o o')
      (ha : Expr.Alike a a') (hb : Expr.Alike b b') :
      Expr.Alike (.logical p op o a b) (.logical p' op o' a' b')
  | assign {p p' n n' q q' e e'} (hp : L.place p p') (hn : L.name n n') (hq : L.place q q')
      (h : Expr.Alike e e') : Expr.Alike (.assign p n q e) (.assign p' n' q' e')
  | call {p p' f f' c c' args args'} (hp : L.place p p') (hf : Expr.Alike f f')
      (hc : L.place c c') (ha : Expr.AllAlike args args') :
      Expr.Alike (.call p f c args) (.call p' f' c' args')

inductive Expr.AllAlike : List Expr → List Expr → Prop where
  | nil : Expr.AllAlike [] []
  | cons {e e' es es'} (h : Expr.Alike e e') (hs : Expr.AllAlike es es') :
      Expr.AllAlike (e :: es) (e' :: es')

end

/-- Expressions that may be left out. -/
abbrev Expr.OptionAlike : Option Expr → Option Expr → Prop := Option.Rel (Expr.Alike L)

mutual

inductive Stmt.Alike : Stmt → Stmt → Prop where
  | block {b b'} (h : Block.Alike b b') : Stmt.Alike (.block b) (.block b')
  | expression {p p' e e'} (hp : L.place p p') (he : Expr.Alike L e e') :
      Stmt.Alike (.expression p e) (.expression p' e')
  | function {p p' d d'} (hp : L.place p p') (hd : FunctionDecl.Alike d d') :
      Stmt.Alike (.function p d) (.function p' d')
  | conditional {p p' e e' b b' o o'} (hp : L.place p p') (he : Expr.Alike L e e')
      (hb : Block.Alike b b') (ho : Block.OptionAlike o o') :
      Stmt.Alike (.conditional p e b o) (.conditional p' e' b' o')
  | print {p p' e e'} (hp : L.place p p') (he : Expr.Alike L e e') :
      Stmt.Alike (.print p e) (.print p' e')
  | result {p p' k k' v v'} (hp : L.place p p') (hk : L.place k k')
      (hv : Expr.OptionAlike L v v') : Stmt.Alike (.result p k v) (.result p' k' v')
  | loop {p p' e e' b b'} (hp : L.place p p') (he : Expr.Alike L e e') (hb : Block.Alike b b') :
      Stmt.Alike (.loop p e b) (.loop p' e' b')
  | var {p p' n n' q q' v v'} (hp : L.place p p') (hn : L.name n n') (hq : L.place q q')
      (hv : Expr.OptionAlike L v v') : Stmt.Alike (.var p n q v) (.var p' n' q' v')

inductive Block.Alike : Block → Block → Prop where
  | mk {p p' ss ss'} (hp : L.place p p') (hs : Stmt.AllAlike ss ss') :
      Block.Alike ⟨p, ss⟩ ⟨p', ss'⟩

inductive Block.OptionAlike : Option Block → Option Block → Prop where
  | none : Block.OptionAlike none none
  | some {b b'} (h : Block.Alike b b') : Block.OptionAlike (some b) (some b')

inductive FunctionDecl.Alike : FunctionDecl → FunctionDecl → Prop where
  | mk {n n' p p' ps ps' b b'} (hn : L.name n n') (hp : L.place p p')
      (hps : List.Forall₂ (Param.Alike L) ps ps') (hb : Block.Alike b b') :
      FunctionDecl.Alike ⟨n, p, ps, b⟩ ⟨n', p', ps', b'⟩

inductive Stmt.AllAlike : List Stmt → List Stmt → Prop where
  | nil : Stmt.AllAlike [] []
  | cons {s s' ss ss'} (h : Stmt.Alike s s') (hs : Stmt.AllAlike ss ss') :
      Stmt.AllAlike (s :: ss) (s' :: ss')

end

variable {L}

namespace TokenKind.Alike

variable {k k' : TokenKind} (h : TokenKind.Alike L k k')
include h

theorem index_eq : k.index = k'.index := by
  cases h <;> rfl

theorem eof_iff : k = .eof ↔ k' = .eof := by
  cases h <;> simp

theorem symbol_iff (s : Symbol) : k = .symbol s ↔ k' = .symbol s := by
  cases h <;> simp

end TokenKind.Alike

namespace Expr

theorem Alike.span {e e' : Expr} (h : Expr.Alike L e e') : L.place e.span e'.span := by
  cases h <;> assumption

theorem allAlike_of_forall₂ {es es' : List Expr} (h : List.Forall₂ (Expr.Alike L) es es') :
    AllAlike L es es' := by
  induction h with
  | nil => exact .nil
  | cons h _ ih => exact .cons h ih

end Expr

theorem Block.Alike.span {b b' : Block} (h : Block.Alike L b b') : L.place b.span b'.span := by
  cases h
  assumption

theorem Block.Alike.stmts {b b' : Block} (h : Block.Alike L b b') :
    Stmt.AllAlike L b.stmts b'.stmts := by
  cases h
  assumption

theorem Stmt.Alike.span {s s' : Stmt} (h : Stmt.Alike L s s') : L.place s.span s'.span := by
  cases h
  case block h => exact h.span
  all_goals assumption

theorem Stmt.AllAlike.append {ss ss' us us' : List Stmt} (h : AllAlike L ss ss')
    (h' : AllAlike L us us') : AllAlike L (ss ++ us) (ss' ++ us') := by
  induction ss generalizing ss' with
  | nil =>
    cases h
    exact h'
  | cons s ss ih =>
    cases h with
    | cons h hs => exact .cons h (ih hs)

namespace FunctionDecl.Alike

variable {d d' : FunctionDecl} (h : FunctionDecl.Alike L d d')
include h

theorem name : L.name d.name d'.name := by
  cases h
  assumption

theorem params : List.Forall₂ (Param.Alike L) d.params d'.params := by
  cases h
  assumption

theorem body : Block.Alike L d.body d'.body := by
  cases h
  assumption

end FunctionDecl.Alike

/-- The places stand for the same in `L` as in `L'`. -/
def Likeness.Keeps (L L' : Likeness) (ps : List Span) : Prop :=
  ∀ p ∈ ps, ∀ p', L.place p p' → L'.place p p'

namespace Likeness.Keeps

variable {L L' : Likeness} {p : Span} {ps qs : List Span}

theorem head (h : L.Keeps L' (p :: ps)) {p' : Span} (hp : L.place p p') : L'.place p p' :=
  h p List.mem_cons_self p' hp

theorem tail (h : L.Keeps L' (p :: ps)) : L.Keeps L' ps := (List.forall_mem_cons.1 h).2

theorem left (h : L.Keeps L' (ps ++ qs)) : L.Keeps L' ps := (List.forall_mem_append.1 h).1

theorem right (h : L.Keeps L' (ps ++ qs)) : L.Keeps L' qs := (List.forall_mem_append.1 h).2

end Likeness.Keeps

section Imp

/-! What is alike stays so if its names and places do. -/

variable {L L' : Likeness} (hn : L.NamesIn L')
include hn

theorem Literal.Alike.imp {v v' : Literal} (h : Literal.Alike L v v') : Literal.Alike L' v v' := by
  cases h with
  | nil => exact .nil
  | bool b => exact .bool b
  | number bits => exact .number bits
  | string h => exact .string (hn h)

theorem TokenKind.Alike.imp {k k' : TokenKind} (h : TokenKind.Alike L k k') :
    TokenKind.Alike L' k k' := by
  cases h with
  | symbol s => exact .symbol s
  | identifier h => exact .identifier (hn h)
  | string h => exact .string (hn h)
  | number bits => exact .number bits
  | keyword k => exact .keyword k
  | eof => exact .eof

end Imp

mutual

theorem Expr.Alike.imp {L L' : Likeness} (hn : L.NamesIn L')
    {e e' : Expr} : Expr.Alike L e e' → L.Keeps L' e.places → Expr.Alike L' e e'
  | .literal hp hv, h => .literal (h.head hp) (hv.imp hn)
  | .var hp hv, h => .var (h.head hp) (hn hv)
  | .grouping hp he, h => .grouping (h.head hp) (he.imp hn h.tail)
  | .unary op hp ho he, h => .unary op (h.head hp) (h.tail.head ho) (he.imp hn h.tail.tail)
  | .binary op hp ho ha hb, h => .binary op (h.head hp) (h.tail.head ho)
      (ha.imp hn h.tail.tail.left) (hb.imp hn h.tail.tail.right)
  | .logical op hp ho ha hb, h => .logical op (h.head hp) (h.tail.head ho)
      (ha.imp hn h.tail.tail.left) (hb.imp hn h.tail.tail.right)
  | .assign hp hv hq he, h => .assign (h.head hp) (hn hv) (h.tail.head hq) (he.imp hn h.tail.tail)
  | .call hp hf hc ha, h => .call (h.head hp) (hf.imp hn h.tail.tail.left) (h.tail.head hc)
      (ha.imp hn h.tail.tail.right)

theorem Expr.AllAlike.imp {L L' : Likeness} (hn : L.NamesIn L')
    {es es' : List Expr} : Expr.AllAlike L es es' → L.Keeps L' (Expr.allPlaces es) →
    Expr.AllAlike L' es es'
  | .nil, _ => .nil
  | .cons he hs, h => .cons (he.imp hn h.left) (hs.imp hn h.right)

end

section Imp

variable {L L' : Likeness} (hn : L.NamesIn L')
include hn

theorem Expr.OptionAlike.imp {e e' : Option Expr} (he : Expr.OptionAlike L e e')
    (h : L.Keeps L' (Expr.optionPlaces e)) : Expr.OptionAlike L' e e' := by
  cases he with
  | none => exact .none
  | some he => exact .some (he.imp hn h)

theorem Param.allAlike_imp {ps ps' : List Param} (hps : List.Forall₂ (Param.Alike L) ps ps')
    (h : L.Keeps L' (ps.map (·.span))) : List.Forall₂ (Param.Alike L') ps ps' := by
  induction hps with
  | nil => exact .nil
  | cons hp _ ih => exact .cons ⟨hn hp.name, h.head hp.span⟩ (ih h.tail)

end Imp

mutual

theorem Stmt.Alike.imp {L L' : Likeness} (hn : L.NamesIn L')
    {s s' : Stmt} : Stmt.Alike L s s' → L.Keeps L' s.places → Stmt.Alike L' s s'
  | .block hb, h => .block (hb.imp hn h)
  | .expression hp he, h => .expression (h.head hp) (he.imp hn h.tail)
  | .function hp hd, h => by
    rw [Stmt.places_function] at h
    exact .function (h.head hp) (hd.imp hn h.tail)
  | .conditional hp he hb ho, h => by
    rw [Stmt.places_conditional] at h
    exact .conditional (h.head hp) (he.imp hn h.tail.left) (hb.imp hn h.tail.right.left)
      (ho.imp hn h.tail.right.right)
  | .print hp he, h => .print (h.head hp) (he.imp hn h.tail)
  | .result hp hk hv, h => .result (h.head hp) (h.tail.head hk) (hv.imp hn h.tail.tail)
  | .loop hp he hb, h => .loop (h.head hp) (he.imp hn h.tail.left) (hb.imp hn h.tail.right)
  | .var hp hv hq hi, h => .var (h.head hp) (hn hv) (h.tail.head hq) (hi.imp hn h.tail.tail)

theorem Block.Alike.imp {L L' : Likeness} (hn : L.NamesIn L')
    {b b' : Block} : Block.Alike L b b' → L.Keeps L' b.places → Block.Alike L' b b'
  | .mk hp hs, h => .mk (h.head hp) (hs.imp hn h.tail)

theorem Block.OptionAlike.imp {L L' : Likeness} (hn : L.NamesIn L')
    {b b' : Option Block} : Block.OptionAlike L b b' → L.Keeps L' (Block.optionPlaces b) →
    Block.OptionAlike L' b b'
  | .none, _ => .none
  | .some hb, h => .some (hb.imp hn h)

theorem FunctionDecl.Alike.imp {L L' : Likeness} (hn : L.NamesIn L')
    {d d' : FunctionDecl} : FunctionDecl.Alike L d d' →
    L.Keeps L' (d.nameSpan :: (d.params.map (·.span) ++ d.body.places)) →
    FunctionDecl.Alike L' d d'
  | .mk hv hp hps hb, h => .mk (hn hv) (h.head hp) (Param.allAlike_imp hn hps h.tail.left)
      (hb.imp hn h.tail.right)

theorem Stmt.AllAlike.imp {L L' : Likeness} (hn : L.NamesIn L')
    {ss ss' : List Stmt} : Stmt.AllAlike L ss ss' → L.Keeps L' (Stmt.allPlaces ss) →
    Stmt.AllAlike L' ss ss'
  | .nil, _ => .nil
  | .cons hs hss, h => .cons (hs.imp hn h.left) (hss.imp hn h.right)

end

/-! The places of trees that are alike stand for each other, in their order. -/

mutual

theorem Expr.Alike.places {L : Likeness} {e e' : Expr} :
    Expr.Alike L e e' → List.Forall₂ L.place e.places e'.places
  | .literal hp _ | .var hp _ => .cons hp .nil
  | .grouping hp he => .cons hp he.places
  | .unary _ hp ho he => .cons hp (.cons ho he.places)
  | .binary _ hp ho ha hb | .logical _ hp ho ha hb =>
      .cons hp (.cons ho (List.rel_append ha.places hb.places))
  | .assign hp _ hq he => .cons hp (.cons hq he.places)
  | .call hp hf hc ha => .cons hp (.cons hc (List.rel_append hf.places ha.places))

theorem Expr.AllAlike.places {L : Likeness} {es es' : List Expr} :
    Expr.AllAlike L es es' → List.Forall₂ L.place (Expr.allPlaces es) (Expr.allPlaces es')
  | .nil => .nil
  | .cons he hs => List.rel_append he.places hs.places

end

theorem Expr.OptionAlike.places {e e' : Option Expr} (h : Expr.OptionAlike L e e') :
    List.Forall₂ L.place (Expr.optionPlaces e) (Expr.optionPlaces e') := by
  cases h with
  | none => exact .nil
  | some h => exact h.places

theorem Param.places_of_alike {ps ps' : List Param} (h : List.Forall₂ (Param.Alike L) ps ps') :
    List.Forall₂ L.place (ps.map (·.span)) (ps'.map (·.span)) := by
  rw [List.forall₂_map_left_iff, List.forall₂_map_right_iff]
  exact h.imp fun _ _ hp => hp.span

mutual

theorem Stmt.Alike.places {L : Likeness} {s s' : Stmt} :
    Stmt.Alike L s s' → List.Forall₂ L.place s.places s'.places
  | .block hb => hb.places
  | .expression hp he | .print hp he => .cons hp he.places
  | .function hp (.mk _ hq hps hb) =>
      .cons hp (.cons hq (List.rel_append (Param.places_of_alike hps) hb.places))
  | .conditional hp he hb ho => by
    rw [Stmt.places_conditional, Stmt.places_conditional]
    exact .cons hp (List.rel_append he.places (List.rel_append hb.places ho.places))
  | .result hp hk hv => .cons hp (.cons hk hv.places)
  | .loop hp he hb => .cons hp (List.rel_append he.places hb.places)
  | .var hp _ hq hv => .cons hp (.cons hq hv.places)

theorem Block.Alike.places {L : Likeness} {b b' : Block} :
    Block.Alike L b b' → List.Forall₂ L.place b.places b'.places
  | .mk hp hs => .cons hp hs.places

theorem Block.OptionAlike.places {L : Likeness} {b b' : Option Block} :
    Block.OptionAlike L b b' →
    List.Forall₂ L.place (Block.optionPlaces b) (Block.optionPlaces b')
  | .none => .nil
  | .some hb => hb.places

theorem Stmt.AllAlike.places {L : Likeness} {ss ss' : List Stmt} :
    Stmt.AllAlike L ss ss' → List.Forall₂ L.place (Stmt.allPlaces ss) (Stmt.allPlaces ss')
  | .nil => .nil
  | .cons hs hss => List.rel_append hs.places hss.places

end

end Tarn
