import Mathlib.Data.Multiset.AddSub
import Tarn.Proofs.Grammar.Productions

/-! Programs as they are written: the concrete syntax of the grammar in which any disjunction may
stand left of `=`. A draft knows its tokens, the tree that is kept of it, and its mistakes. -/
namespace Tarn

open Grammar

namespace Draft

mutual

/-- An expression of the given level or a tighter one, with the places of its tokens. -/
inductive Expression : Level → Type where
  | tighter {l l' : Level} (hl : l.tighter? = some l') (e : Expression l') : Expression l
  | assign (target : Expression .disjunction) (equal : Span) (value : Expression .assignment) :
      Expression .assignment
  | logical {l l' : Level} (op : LogicalOp) (hop : op.level = l) (hl : l.tighter? = some l')
      (left : Expression l) (place : Span) (right : Expression l') : Expression l
  | binary {l l' : Level} (op : BinaryOp) (hop : op.level = l) (hl : l.tighter? = some l')
      (left : Expression l) (place : Span) (right : Expression l') : Expression l
  | unary (op : UnaryOp) (place : Span) (operand : Expression .unary) : Expression .unary
  | call (callee : Expression .call) (opening : Span) (args : Arguments) (closing : Span) :
      Expression .call
  | literal (value : Literal) (place : Span) : Expression .primary
  | var (name : Name) (place : Span) : Expression .primary
  | grouping (opening : Span) (inner : Expression .assignment) (closing : Span) :
      Expression .primary

/-- The arguments of a call. -/
inductive Arguments where
  | none
  | some (args : ArgumentList)

inductive ArgumentList where
  | first (e : Expression .assignment)
  | more (args : ArgumentList) (comma : Span) (e : Expression .assignment)

end

/-- One parameter or more. -/
inductive ParameterList where
  | first (param : Param)
  | more (params : ParameterList) (comma : Span) (param : Param)

structure VariableDeclaration where
  keyword : Span
  name : Name
  place : Span
  value : Option (Span × Expression .assignment)
  semicolon : Span

structure ExpressionStatement where
  value : Expression .assignment
  semicolon : Span

inductive Initializer where
  | none (semicolon : Span)
  | var (d : VariableDeclaration)
  | expression (d : ExpressionStatement)

mutual

inductive Declaration where
  | function (keyword : Span) (name : Name) (place opening : Span) (params : Option ParameterList)
      (closing : Span) (body : Braces)
  | var (d : VariableDeclaration)
  | expression (d : ExpressionStatement)
  | forLoop (keyword : Span) (initializer : Initializer)
      (condition : Option (Expression .assignment)) (semicolon : Span)
      (increment : Option (Expression .assignment)) (body : Braces)
  | conditional (d : Conditional)
  | print (keyword : Span) (value : Expression .assignment) (semicolon : Span)
  | result (keyword : Span) (value : Option (Expression .assignment)) (semicolon : Span)
  | whileLoop (keyword : Span) (condition : Expression .assignment) (body : Braces)
  | block (body : Braces)

inductive Conditional where
  | mk (keyword : Span) (condition : Expression .assignment) (thenBranch : Braces)
      (other : Otherwise)

inductive Otherwise where
  | none
  | block (keyword : Span) (body : Braces)
  | chained (keyword : Span) (d : Conditional)

inductive Braces where
  | mk (opening : Span) (ds : Declarations) (closing : Span)

inductive Declarations where
  | nil
  | cons (d : Declaration) (ds : Declarations)

end

/-! ## Tokens -/

mutual

def Expression.tokens {l : Level} : Expression l → List Token
  | .tighter _ e => e.tokens
  | .assign target equal value => target.tokens ++ ⟨.symbol .equal, equal⟩ :: value.tokens
  | .logical op _ _ left place right =>
      left.tokens ++ ⟨.keyword op.keyword, place⟩ :: right.tokens
  | .binary op _ _ left place right => left.tokens ++ ⟨.symbol op.symbol, place⟩ :: right.tokens
  | .unary op place operand => ⟨.symbol op.symbol, place⟩ :: operand.tokens
  | .call callee opening args closing => callee.tokens ++
      ⟨.symbol .leftParen, opening⟩ :: (args.tokens ++ [⟨.symbol .rightParen, closing⟩])
  | .literal value place => [⟨value.kind, place⟩]
  | .var name place => [⟨.identifier name, place⟩]
  | .grouping opening inner closing =>
      ⟨.symbol .leftParen, opening⟩ :: (inner.tokens ++ [⟨.symbol .rightParen, closing⟩])

def Arguments.tokens : Arguments → List Token
  | .none => []
  | .some args => args.tokens

def ArgumentList.tokens : ArgumentList → List Token
  | .first e => e.tokens
  | .more args comma e => args.tokens ++ ⟨.symbol .comma, comma⟩ :: e.tokens

end

def ParameterList.tokens : ParameterList → List Token
  | .first p => [⟨.identifier p.name, p.span⟩]
  | .more params comma p => params.tokens ++ [⟨.symbol .comma, comma⟩, ⟨.identifier p.name, p.span⟩]

/-- The tokens of a part that may be absent. -/
def optionalTokens {α : Type} (tokens : α → List Token) (part : Option α) : List Token :=
  part.elim [] tokens

def VariableDeclaration.tokens (d : VariableDeclaration) : List Token :=
  ⟨.keyword .varKw, d.keyword⟩ :: ⟨.identifier d.name, d.place⟩ ::
    (optionalTokens (fun v => ⟨.symbol .equal, v.1⟩ :: v.2.tokens) d.value ++
      [⟨.symbol .semicolon, d.semicolon⟩])

def ExpressionStatement.tokens (d : ExpressionStatement) : List Token :=
  d.value.tokens ++ [⟨.symbol .semicolon, d.semicolon⟩]

def Initializer.tokens : Initializer → List Token
  | .none semicolon => [⟨.symbol .semicolon, semicolon⟩]
  | .var d => d.tokens
  | .expression d => d.tokens

mutual

def Declaration.tokens : Declaration → List Token
  | .function keyword name place opening params closing body =>
      ⟨.keyword .funKw, keyword⟩ :: ⟨.identifier name, place⟩ :: ⟨.symbol .leftParen, opening⟩ ::
        (optionalTokens ParameterList.tokens params ++
          ⟨.symbol .rightParen, closing⟩ :: body.tokens)
  | .var d => d.tokens
  | .expression d => d.tokens
  | .forLoop keyword initializer condition semicolon increment body =>
      ⟨.keyword .forKw, keyword⟩ :: (initializer.tokens ++
        (optionalTokens Expression.tokens condition ++ ⟨.symbol .semicolon, semicolon⟩ ::
          (optionalTokens Expression.tokens increment ++ body.tokens)))
  | .conditional d => d.tokens
  | .print keyword value semicolon =>
      ⟨.keyword .printKw, keyword⟩ :: (value.tokens ++ [⟨.symbol .semicolon, semicolon⟩])
  | .result keyword value semicolon => ⟨.keyword .returnKw, keyword⟩ ::
      (optionalTokens Expression.tokens value ++ [⟨.symbol .semicolon, semicolon⟩])
  | .whileLoop keyword condition body =>
      ⟨.keyword .whileKw, keyword⟩ :: (condition.tokens ++ body.tokens)
  | .block body => body.tokens

def Conditional.tokens : Conditional → List Token
  | .mk keyword condition thenBranch other =>
      ⟨.keyword .ifKw, keyword⟩ :: (condition.tokens ++ (thenBranch.tokens ++ other.tokens))

def Otherwise.tokens : Otherwise → List Token
  | .none => []
  | .block keyword body => ⟨.keyword .elseKw, keyword⟩ :: body.tokens
  | .chained keyword d => ⟨.keyword .elseKw, keyword⟩ :: d.tokens

def Braces.tokens : Braces → List Token
  | .mk opening ds closing =>
      ⟨.symbol .leftBrace, opening⟩ :: (ds.tokens ++ [⟨.symbol .rightBrace, closing⟩])

def Declarations.tokens : Declarations → List Token
  | .nil => []
  | .cons d ds => d.tokens ++ ds.tokens

end

/-! ## Trees -/

/-- The variable that an expression is, if it is nothing else. -/
def Expression.asVariable {l : Level} : Expression l → Option (Name × Span)
  | .tighter _ e => e.asVariable
  | .var name place => some (name, place)
  | _ => none

mutual

/-- The tree that is kept. Of an assignment to what is no variable it is that of the value. -/
def Expression.tree {l : Level} : Expression l → Expr
  | .tighter _ e => e.tree
  | .assign target _ value =>
      match target.asVariable with
      | some (name, place) => .assign (place.merge value.tree.span) name place value.tree
      | none => value.tree
  | .logical op _ _ left place right =>
      .logical (left.tree.span.merge right.tree.span) op place left.tree right.tree
  | .binary op _ _ left place right =>
      .binary (left.tree.span.merge right.tree.span) op place left.tree right.tree
  | .unary op place operand => .unary (place.merge operand.tree.span) op place operand.tree
  | .call callee _ args closing =>
      .call (callee.tree.span.merge closing) callee.tree closing args.trees
  | .literal value place => .literal place value
  | .var name place => .var place name
  | .grouping opening inner closing => .grouping (opening.merge closing) inner.tree

def Arguments.trees : Arguments → List Expr
  | .none => []
  | .some args => args.trees

def ArgumentList.trees : ArgumentList → List Expr
  | .first e => [e.tree]
  | .more args _ e => args.trees ++ [e.tree]

end

def ParameterList.params : ParameterList → List Param
  | .first p => [p]
  | .more params _ p => params.params ++ [p]

/-- All parameters, in order. -/
def allParams (params : Option ParameterList) : List Param := params.elim [] ParameterList.params

def VariableDeclaration.tree (d : VariableDeclaration) : Stmt :=
  .var (d.keyword.merge d.semicolon) d.name d.place (d.value.map fun v => v.2.tree)

def ExpressionStatement.tree (d : ExpressionStatement) : Stmt :=
  .expression (d.value.tree.span.merge d.semicolon) d.value.tree

def Initializer.tree : Initializer → Option Stmt
  | .none _ => Option.none
  | .var d => some d.tree
  | .expression d => some d.tree

mutual

def Declaration.tree : Declaration → Stmt
  | .function keyword name place _ params _ body =>
      .function (keyword.merge body.tree.span) ⟨name, place, allParams params, body.tree⟩
  | .var d => d.tree
  | .expression d => d.tree
  | .forLoop keyword initializer condition semicolon increment body =>
      forTree (keyword.merge body.tree.span) initializer.tree (condition.map (·.tree)) semicolon
        (increment.map (·.tree)) body.tree
  | .conditional d => d.tree
  | .print keyword value semicolon => .print (keyword.merge semicolon) value.tree
  | .result keyword value semicolon =>
      .result (keyword.merge semicolon) keyword (value.map (·.tree))
  | .whileLoop keyword condition body =>
      .loop (keyword.merge body.tree.span) condition.tree body.tree
  | .block body => .block body.tree

def Conditional.tree : Conditional → Stmt
  | .mk keyword condition thenBranch other =>
      .conditional (keyword.merge (other.tree.getD thenBranch.tree).span) condition.tree
        thenBranch.tree other.tree

def Otherwise.tree : Otherwise → Option Block
  | .none => none
  | .block _ body => some body.tree
  | .chained _ d => some ⟨d.tree.span, [d.tree]⟩

def Braces.tree : Braces → Block
  | .mk opening ds closing => ⟨opening.merge closing, ds.trees⟩

def Declarations.trees : Declarations → List Stmt
  | .nil => []
  | .cons d ds => d.tree :: ds.trees

end

/-! ## Mistakes -/

/-- The entry that is one too many. -/
def overflow {α : Type} (entries : List α) : Option α := entries[maxEntries]?

def ArgumentList.items : ArgumentList → List (Expression .assignment)
  | .first e => [e]
  | .more args _ e => args.items ++ [e]

/-- Too many arguments are remarked at the first token of the one that is too many. -/
def ArgumentList.excess (args : ArgumentList) : List Remark :=
  (overflow args.items).toList.flatMap fun e => remarkAt .tooManyArguments e.tokens

mutual

/-- An assignment to what is no variable is remarked at its `=`. -/
def Expression.remarks {l : Level} : Expression l → Multiset Remark
  | .tighter _ e => e.remarks
  | .assign target equal value => target.remarks + value.remarks +
      (if target.asVariable = none then {⟨.invalidTarget, equal⟩} else 0)
  | .logical _ _ _ left _ right => left.remarks + right.remarks
  | .binary _ _ _ left _ right => left.remarks + right.remarks
  | .unary _ _ operand => operand.remarks
  | .call callee _ args _ => callee.remarks + args.remarks
  | .literal _ _ => 0
  | .var _ _ => 0
  | .grouping _ inner _ => inner.remarks

def Arguments.remarks : Arguments → Multiset Remark
  | .none => 0
  | .some args => args.remarks + args.excess

/-- What the arguments have, each for itself. -/
def ArgumentList.remarks : ArgumentList → Multiset Remark
  | .first e => e.remarks
  | .more args _ e => args.remarks + e.remarks

end

/-- Too many parameters are remarked at the one that is too many. -/
def excessParams (params : List Param) : List Remark :=
  (overflow params).toList.map fun p => ⟨.tooManyParameters, p.span⟩

/-- A parameter is remarked if one before it has its name. -/
def repeatedParams (params : List Param) : List Remark :=
  (params.zipIdx.filter fun p : Param × Nat => ∃ q ∈ params.take p.2, q.name = p.1.name).map
    fun p => ⟨.duplicateParameter, p.1.span⟩

/-- The remarks of a part that may be absent. -/
def optionalRemarks (e : Option (Expression .assignment)) : Multiset Remark :=
  e.elim 0 Expression.remarks

def VariableDeclaration.remarks (d : VariableDeclaration) : Multiset Remark :=
  optionalRemarks (d.value.map Prod.snd)

def Initializer.remarks : Initializer → Multiset Remark
  | .none _ => 0
  | .var d => d.remarks
  | .expression d => d.value.remarks

mutual

/-- A `return` is remarked if it is not `inside` of a function. -/
def Declaration.remarks (inside : Bool) : Declaration → Multiset Remark
  | .function _ _ _ _ params _ body =>
      (excessParams (allParams params) : Multiset Remark) + repeatedParams (allParams params) +
        body.remarks true
  | .var d => d.remarks
  | .expression d => d.value.remarks
  | .forLoop _ initializer condition _ increment body => initializer.remarks +
      (optionalRemarks condition + (optionalRemarks increment + body.remarks inside))
  | .conditional d => d.remarks inside
  | .print _ value _ => value.remarks
  | .result keyword value _ =>
      (if inside then 0 else {⟨.returnOutsideFunction, keyword⟩}) + optionalRemarks value
  | .whileLoop _ condition body => condition.remarks + body.remarks inside
  | .block body => body.remarks inside

def Conditional.remarks (inside : Bool) : Conditional → Multiset Remark
  | .mk _ condition thenBranch other =>
      condition.remarks + (thenBranch.remarks inside + other.remarks inside)

def Otherwise.remarks (inside : Bool) : Otherwise → Multiset Remark
  | .none => 0
  | .block _ body => body.remarks inside
  | .chained _ d => d.remarks inside

def Braces.remarks (inside : Bool) : Braces → Multiset Remark
  | .mk _ ds _ => ds.remarks inside

def Declarations.remarks (inside : Bool) : Declarations → Multiset Remark
  | .nil => 0
  | .cons d ds => d.remarks inside + ds.remarks inside

end

end Draft

end Tarn
