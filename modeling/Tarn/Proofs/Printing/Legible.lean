import Tarn.Proofs.Grammar.Names
import Tarn.Proofs.Grammar.Nodes
import Tarn.Proofs.Parsing.Fidelity
import Tarn.Proofs.Printing.Lists
import Tarn.Proofs.Printing.Rounding

/-! Programs whose printed form can be read. The names are words that are not reserved, the texts of
strings are known, and the numbers are finite. What is read from a text is of this kind if its numbers
are finite. -/
namespace Tarn

/-- The name of a word that is not reserved. -/
def Name.IsIdentifier (names : NameTable) (n : Name) : Prop :=
  ∃ text, names.find? text = some n ∧ Lexeme.word.Matches text.toList ∧
    ∀ k : Keyword, text ≠ k.spelling

/-- The text of a string has its name in the table. -/
def Literal.Known (names : NameTable) : Literal → Prop
  | .string n => ∃ text, names.find? text = some n
  | _ => True

def Literal.Finite : Literal → Prop
  | .number bits => (Decimal.Double.ofBits bits).IsFinite
  | _ => True

instance : DecidablePred Literal.Finite
  | .number bits => inferInstanceAs (Decidable (Decimal.Double.ofBits bits).IsFinite)
  | .nil | .bool _ | .string _ => .isTrue trivial

/-- What is said of literals, of an expression that is one. -/
def Node.OfLiteral (P : Literal → Prop) : Node → Prop
  | .expr (.literal _ value) => P value
  | _ => True

instance (P : Literal → Prop) [DecidablePred P] : DecidablePred (Node.OfLiteral P)
  | .expr (.literal _ value) => inferInstanceAs (Decidable (P value))
  | .expr (.var ..) | .expr (.grouping ..) | .expr (.unary ..) | .expr (.binary ..)
  | .expr (.logical ..) | .expr (.assign ..) | .expr (.call ..) | .body _ => .isTrue trivial

/-- All numbers in the statement are finite. -/
def Stmt.FiniteNumbers (s : Stmt) : Prop := AllCode (Node.OfLiteral Literal.Finite) s.nodes

instance : DecidablePred Stmt.FiniteNumbers :=
  fun s => inferInstanceAs (Decidable (∀ node ∈ s.nodes, _))

theorem Literal.Written.known {names : NameTable} {value : Literal} {text : List Char}
    (h : value.Written names text) : value.Known names := by
  cases value with
  | string n =>
    obtain ⟨cs, -, -, hn⟩ := h
    exact ⟨_, hn⟩
  | nil | bool | number => trivial

section

variable {cs : List Char} {names : NameTable} {outer : Span}

mutual

theorem Expr.Faithful.known : ∀ {e : Expr} {outer : Span}, e.Faithful cs names outer →
    AllCode (Node.OfLiteral (Literal.Known names)) e.nodes
  | .literal .., _, h => .single h.2.known
  | .var .., _, _ => .single trivial
  | .grouping .., _, h => .cons trivial (Expr.Faithful.known h.2)
  | .unary .., _, h => .cons trivial (Expr.Faithful.known h.2.2)
  | .binary .., _, h | .logical .., _, h =>
    .cons trivial (.append (Expr.Faithful.known h.2.2.1) (Expr.Faithful.known h.2.2.2))
  | .assign .., _, h => .cons trivial (Expr.Faithful.known h.2.2)
  | .call .., _, h =>
    .cons trivial (.append (Expr.Faithful.known h.2.1) (Expr.AllFaithful.known h.2.2.2))

theorem Expr.AllFaithful.known : ∀ {es : List Expr} {outer : Span},
    Expr.AllFaithful cs names outer es →
      AllCode (Node.OfLiteral (Literal.Known names)) (Expr.allNodes es)
  | [], _, _ => .nil
  | _ :: _, _, h => .append (Expr.Faithful.known h.1) (Expr.AllFaithful.known h.2)

end

theorem Expr.MadeUp.known {loop : Span} {e : Expr} (h : e.MadeUp cs loop) :
    AllCode (Node.OfLiteral (Literal.Known names)) e.nodes := by
  obtain ⟨-, -, -, -, -, rfl⟩ := h
  exact .single trivial

theorem Expr.OptionFaithful.known {e : Option Expr} (h : Expr.OptionFaithful cs names outer e) :
    AllCode (Node.OfLiteral (Literal.Known names)) (Expr.optionNodes e) := by
  cases e with
  | none => exact .nil
  | some e => exact Expr.Faithful.known h

mutual

theorem Stmt.Faithful.known : ∀ {s : Stmt} {outer : Span}, s.Faithful cs names outer →
    AllCode (Node.OfLiteral (Literal.Known names)) s.nodes
  | .block .., _, h => Block.Faithful.known h
  | .expression .., _, h | .print .., _, h => Expr.Faithful.known h.2
  | .function _ ⟨_, _, _, _⟩, _, h => .cons trivial (Block.Faithful.known h.2.2.2)
  | .conditional _ _ _ none, _, h =>
    .append (Expr.Faithful.known h.2.1) (Block.Faithful.known h.2.2)
  | .conditional _ _ _ (some _), _, h =>
    .append (Expr.Faithful.known h.2.1)
      (.append (Block.Faithful.known h.2.2.1) (Block.Faithful.known h.2.2.2))
  | .result .., _, h | .var .., _, h => Expr.OptionFaithful.known h.2.2
  | .loop .., _, h =>
    .append (h.2.1.elim Expr.Faithful.known Expr.MadeUp.known) (Block.Faithful.known h.2.2)

theorem Block.Faithful.known : ∀ {b : Block} {outer : Span}, b.Faithful cs names outer →
    AllCode (Node.OfLiteral (Literal.Known names)) b.nodes
  | ⟨_, _⟩, _, h => Stmt.AllFaithful.known h.2

theorem Stmt.AllFaithful.known : ∀ {ss : List Stmt} {outer : Span},
    Stmt.AllFaithful cs names outer ss →
      AllCode (Node.OfLiteral (Literal.Known names)) (Stmt.allNodes ss)
  | [], _, _ => .nil
  | _ :: _, _, h => .append (Stmt.Faithful.known h.1) (Stmt.AllFaithful.known h.2)

end

end

/-- Names and literals that are printed so that they can be read. -/
structure Legible (names : NameTable) (ns : List Name) (nodes : List Node) : Prop where
  words : AllNames (Name.IsIdentifier names) ns
  known : AllCode (Node.OfLiteral (Literal.Known names)) nodes
  finite : AllCode (Node.OfLiteral Literal.Finite) nodes

namespace Legible

variable {names : NameTable} {n : Name} {ns ns' : List Name} {node : Node} {nodes nodes' : List Node}

theorem left (h : Legible names (ns ++ ns') (nodes ++ nodes')) : Legible names ns nodes :=
  ⟨h.words.left, h.known.left, h.finite.left⟩

theorem right (h : Legible names (ns ++ ns') (nodes ++ nodes')) : Legible names ns' nodes' :=
  ⟨h.words.right, h.known.right, h.finite.right⟩

theorem below (h : Legible names ns (node :: nodes)) : Legible names ns nodes :=
  ⟨h.words, h.known.tail, h.finite.tail⟩

theorem unnamed (h : Legible names (n :: ns) nodes) : Legible names ns nodes :=
  ⟨h.words.tail, h.known, h.finite⟩

end Legible

open Grammar

theorem TokenKind.Written.isIdentifier {names : NameTable} {n : Name} {text : List Char}
    (h : TokenKind.Written names (.identifier n) text) : n.IsIdentifier names := by
  obtain ⟨hword, hkeyword, hn⟩ := h
  refine ⟨String.ofList text, hn, by rwa [String.toList_ofList], fun k hk => hkeyword k ?_⟩
  rw [← hk, String.toList_ofList]

/-- A statement among others has no names but theirs. -/
theorem AllNames.of_mem {U : Name → Prop} {s : Stmt} {ss : List Stmt}
    (h : AllNames U (Stmt.allNames ss)) (hs : s ∈ ss) : AllNames U s.names := by
  induction hs with
  | head => exact h.left
  | tail _ _ ih => exact ih h.right

theorem AllCode.of_mem {Code : Node → Prop} {s : Stmt} {ss : List Stmt}
    (h : AllCode Code (Stmt.allNodes ss)) (hs : s ∈ ss) : AllCode Code s.nodes := by
  induction hs with
  | head => exact h.left
  | tail _ _ ih => exact ih h.right

/-- What is read from a text is legible, as far as its numbers are finite. -/
theorem legible_parse (source : String) (names : NameTable) {s : Stmt}
    (hs : s ∈ (parse (lex source names).names (lex source names).tokens).statements)
    (hfinite : s.FiniteNumbers) : Legible (lex source names).names s.names s.nodes := by
  have hknown := (parse_faithful source names).1.known
  obtain ⟨tokens, stop, htokens, hrow, -⟩ := lex_row source names
  have hreal : ∀ t ∈ tokens, t.kind ≠ .eof := fun t ht => (hrow.stands t ht).2.kind_ne_eof
  have hwords : Identifiers (Name.IsIdentifier (lex source names).names) tokens := by
    intro t ht n hkind
    obtain ⟨-, text, -, -, -, hwritten, -⟩ := (hrow.stands t ht).2
    rw [hkind] at hwritten
    exact hwritten.isIdentifier
  have hd := parse_derives (lex source names).names (Grammar.atEnd_eof (Span.point stop)) hreal
  rw [htokens] at hs hknown
  exact ⟨(hd.names hwords).of_mem hs, hknown.of_mem hs, hfinite⟩

end Tarn
