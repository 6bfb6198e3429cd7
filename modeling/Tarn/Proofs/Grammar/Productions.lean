import Tarn.Report.Code
import Tarn.Syntax.Tree
import Tarn.Token.Basic

/-! The grammar of programs over lists of tokens. A derivation gives the tree and the remarks that
are made on the way. Remarks do not stop a derivation. -/
namespace Tarn

/-- The levels of expressions, the loosest first. -/
inductive Level where
  | assignment | disjunction | conjunction | equality | comparison | term | factor | unary | call
  | primary
deriving DecidableEq, Repr

/-- The next tighter level. -/
def Level.tighter? : Level → Option Level
  | assignment => some disjunction
  | disjunction => some conjunction
  | conjunction => some equality
  | equality => some comparison
  | comparison => some term
  | term => some factor
  | factor => some unary
  | unary => some call
  | call => some primary
  | primary => none

namespace BinaryOp

def level : BinaryOp → Level
  | equal | notEqual => .equality
  | less | lessEqual | greater | greaterEqual => .comparison
  | add | sub => .term
  | mul | div => .factor

def symbol : BinaryOp → Symbol
  | add => .plus
  | sub => .minus
  | mul => .star
  | div => .slash
  | equal => .equalEqual
  | notEqual => .bangEqual
  | less => .less
  | lessEqual => .lessEqual
  | greater => .greater
  | greaterEqual => .greaterEqual

end BinaryOp

def UnaryOp.symbol : UnaryOp → Symbol
  | neg => .minus
  | not => .bang

namespace LogicalOp

def level : LogicalOp → Level
  | and => .conjunction
  | or => .disjunction

def keyword : LogicalOp → Keyword
  | and => .andKw
  | or => .orKw

end LogicalOp

/-- The kind of token that a literal is. -/
def Literal.kind : Literal → TokenKind
  | nil => .keyword .nilKw
  | bool true => .keyword .trueKw
  | bool false => .keyword .falseKw
  | number bits => .number bits
  | string text => .string text

/-- Whether an error of this code ends the declaration in which it is found. -/
def ErrorCode.isFatal : ErrorCode → Bool
  | unexpectedToken | missingExpression | unclosedDelimiter | missingIdentifier => true
  | _ => false

/-- Something that is wrong at a place. -/
structure Remark where
  code : ErrorCode
  span : Span
deriving DecidableEq, Repr

namespace Grammar

/-- What a derivation may contain. The language is what derives strictly. A lenient derivation may
also assign to what is no variable, of which only the value is kept, and a recovering one may drop
tokens with a fatal remark where a declaration is expected. -/
inductive Mode where
  | strict | lenient | recovering
deriving DecidableEq, Repr

/-- A remark at the first of some tokens. -/
def remarkAt (code : ErrorCode) (ts : List Token) : List Remark :=
  (ts.head?.map fun t => ⟨code, t.span⟩).toList

/-- The most entries of a list of parameters or of arguments. -/
def maxEntries : Nat := 255

variable (mode : Mode)

mutual

/-- `Expression mode level ts e rs`: the tokens `ts` form an expression of the given level or a
tighter one, with tree `e` and remarks `rs`. -/
inductive Expression : Level → List Token → Expr → List Remark → Prop where
  | tighter {l l' ts e rs} (hl : l.tighter? = some l') (h : Expression l' ts e rs) :
      Expression l ts e rs
  | assign {t eq ts name value rs} (ht : t.kind = .identifier name)
      (heq : eq.kind = .symbol .equal) (hv : Expression .assignment ts value rs) :
      Expression .assignment (t :: eq :: ts)
        (.assign (t.span.merge value.span) name t.span value) rs
  | mistarget {eq ts ts' target value rs rs'} (hmode : mode ≠ .strict)
      (h : Expression .disjunction ts target rs) (hn : ∀ span name, target ≠ .var span name)
      (heq : eq.kind = .symbol .equal) (hv : Expression .assignment ts' value rs') :
      Expression .assignment (ts ++ eq :: ts') value
        (rs ++ (rs' ++ [⟨.invalidTarget, eq.span⟩]))
  | logical {l l' ts t ts' left right rs rs'} (op : LogicalOp) (hop : op.level = l)
      (hl : l.tighter? = some l') (hleft : Expression l ts left rs)
      (ht : t.kind = .keyword op.keyword) (hright : Expression l' ts' right rs') :
      Expression l (ts ++ t :: ts') (.logical (left.span.merge right.span) op t.span left right)
        (rs ++ rs')
  | binary {l l' ts t ts' left right rs rs'} (op : BinaryOp) (hop : op.level = l)
      (hl : l.tighter? = some l') (hleft : Expression l ts left rs)
      (ht : t.kind = .symbol op.symbol) (hright : Expression l' ts' right rs') :
      Expression l (ts ++ t :: ts') (.binary (left.span.merge right.span) op t.span left right)
        (rs ++ rs')
  | unary {t ts operand rs} (op : UnaryOp) (ht : t.kind = .symbol op.symbol)
      (h : Expression .unary ts operand rs) :
      Expression .unary (t :: ts) (.unary (t.span.merge operand.span) op t.span operand) rs
  | call {ts o ts' c callee args rs rs'} (h : Expression .call ts callee rs)
      (ho : o.kind = .symbol .leftParen) (hargs : Arguments ts' args rs')
      (hc : c.kind = .symbol .rightParen) :
      Expression .call (ts ++ o :: (ts' ++ [c]))
        (.call (callee.span.merge c.span) callee c.span args) (rs ++ rs')
  | literal {t} (value : Literal) (ht : t.kind = value.kind) :
      Expression .primary [t] (.literal t.span value) []
  | var {t name} (ht : t.kind = .identifier name) : Expression .primary [t] (.var t.span name) []
  | grouping {o ts c inner rs} (ho : o.kind = .symbol .leftParen)
      (h : Expression .assignment ts inner rs) (hc : c.kind = .symbol .rightParen) :
      Expression .primary (o :: (ts ++ [c])) (.grouping (o.span.merge c.span) inner) rs

/-- The arguments of a call. -/
inductive Arguments : List Token → List Expr → List Remark → Prop where
  | none : Arguments [] [] []
  | some {ts args rs} (h : ArgumentList ts args rs) : Arguments ts args rs

/-- One argument or more, between commas. -/
inductive ArgumentList : List Token → List Expr → List Remark → Prop where
  | first {ts e rs} (h : Expression .assignment ts e rs) : ArgumentList ts [e] rs
  | more {ts comma ts' args e rs rs'} (h : ArgumentList ts args rs)
      (hcomma : comma.kind = .symbol .comma) (he : Expression .assignment ts' e rs') :
      ArgumentList (ts ++ comma :: ts') (args ++ [e])
        (rs ++ ((if args.length = maxEntries then remarkAt .tooManyArguments ts' else []) ++ rs'))

end

/-- One parameter or more, between commas. -/
inductive ParameterList : List Token → List Param → List Remark → Prop where
  | first {t name} (ht : t.kind = .identifier name) : ParameterList [t] [⟨name, t.span⟩] []
  | more {ts comma t params name rs} (h : ParameterList ts params rs)
      (hcomma : comma.kind = .symbol .comma) (ht : t.kind = .identifier name) :
      ParameterList (ts ++ [comma, t]) (params ++ [⟨name, t.span⟩])
        (rs ++ ((if params.length = maxEntries then [⟨.tooManyParameters, t.span⟩] else []) ++
          (if ∃ p ∈ params, p.name = name then [⟨.duplicateParameter, t.span⟩] else [])))

/-- The parameters of a function. -/
inductive Parameters : List Token → List Param → List Remark → Prop where
  | none : Parameters [] [] []
  | some {ts params rs} (h : ParameterList ts params rs) : Parameters ts params rs

inductive OptionalExpression : List Token → Option Expr → List Remark → Prop where
  | none : OptionalExpression [] none []
  | some {ts e rs} (h : Expression mode .assignment ts e rs) : OptionalExpression ts (some e) rs

inductive VariableDeclaration : List Token → Stmt → List Remark → Prop where
  | plain {v n s name} (hv : v.kind = .keyword .varKw) (hn : n.kind = .identifier name)
      (hs : s.kind = .symbol .semicolon) :
      VariableDeclaration [v, n, s] (.var (v.span.merge s.span) name n.span none) []
  | initialized {v n eq ts s name e rs} (hv : v.kind = .keyword .varKw)
      (hn : n.kind = .identifier name) (heq : eq.kind = .symbol .equal)
      (he : Expression mode .assignment ts e rs) (hs : s.kind = .symbol .semicolon) :
      VariableDeclaration (v :: n :: eq :: (ts ++ [s]))
        (.var (v.span.merge s.span) name n.span (some e)) rs

inductive ExpressionStatement : List Token → Stmt → List Remark → Prop where
  | mk {ts s e rs} (he : Expression mode .assignment ts e rs) (hs : s.kind = .symbol .semicolon) :
      ExpressionStatement (ts ++ [s]) (.expression (e.span.merge s.span) e) rs

/-- The first clause of a `for`, with its semicolon. -/
inductive Initializer : List Token → Option Stmt → List Remark → Prop where
  | none {s} (hs : s.kind = .symbol .semicolon) : Initializer [s] none []
  | var {ts stmt rs} (h : VariableDeclaration mode ts stmt rs) : Initializer ts (some stmt) rs
  | expression {ts stmt rs} (h : ExpressionStatement mode ts stmt rs) :
      Initializer ts (some stmt) rs

/-- A `for` is a block of the initializer and a `while`, in which the increment follows the body.
A missing condition is true, and stands where its semicolon starts. -/
def forTree (span : Span) (initializer : Option Stmt) (condition : Option Expr) (semicolon : Span)
    (increment : Option Expr) (body : Block) : Stmt :=
  .block ⟨span, initializer.toList ++
    [.loop span (condition.getD (.literal (Span.point semicolon.start) (.bool true)))
      (match increment with
        | none => ⟨body.span, [.block body]⟩
        | some e => ⟨body.span.merge e.span, [.block body, .expression e.span e]⟩)]⟩

mutual

/-- `Declaration mode inside ts s rs`: the tokens `ts` form one declaration or statement; `inside`
tells whether it stands in the body of a function. -/
inductive Declaration : Bool → List Token → Stmt → List Remark → Prop where
  | function {inside f n o ts c ts' name params body rs rs'} (hf : f.kind = .keyword .funKw)
      (hn : n.kind = .identifier name) (ho : o.kind = .symbol .leftParen)
      (hp : Parameters ts params rs) (hc : c.kind = .symbol .rightParen)
      (hb : Braces true ts' body rs') :
      Declaration inside (f :: n :: o :: (ts ++ c :: ts'))
        (.function (f.span.merge body.span) ⟨name, n.span, params, body⟩) (rs ++ rs')
  | var {inside ts stmt rs} (h : VariableDeclaration mode ts stmt rs) :
      Declaration inside ts stmt rs
  | expression {inside ts stmt rs} (h : ExpressionStatement mode ts stmt rs) :
      Declaration inside ts stmt rs
  | forLoop {inside f ts ts₁ s ts₂ ts₃ initializer condition increment body rs rs₁ rs₂ rs₃}
      (hf : f.kind = .keyword .forKw) (hi : Initializer mode ts initializer rs)
      (hc : OptionalExpression mode ts₁ condition rs₁) (hs : s.kind = .symbol .semicolon)
      (hn : OptionalExpression mode ts₂ increment rs₂) (hb : Braces inside ts₃ body rs₃) :
      Declaration inside (f :: (ts ++ (ts₁ ++ s :: (ts₂ ++ ts₃))))
        (forTree (f.span.merge body.span) initializer condition s.span increment body)
        (rs ++ (rs₁ ++ (rs₂ ++ rs₃)))
  | conditional {inside ts stmt rs} (h : Conditional inside ts stmt rs) :
      Declaration inside ts stmt rs
  | print {inside p ts s e rs} (hp : p.kind = .keyword .printKw)
      (he : Expression mode .assignment ts e rs) (hs : s.kind = .symbol .semicolon) :
      Declaration inside (p :: (ts ++ [s])) (.print (p.span.merge s.span) e) rs
  | result {inside r ts s value rs} (hr : r.kind = .keyword .returnKw)
      (hv : OptionalExpression mode ts value rs) (hs : s.kind = .symbol .semicolon) :
      Declaration inside (r :: (ts ++ [s])) (.result (r.span.merge s.span) r.span value)
        ((if inside then [] else [⟨.returnOutsideFunction, r.span⟩]) ++ rs)
  | whileLoop {inside w ts ts' e body rs rs'} (hw : w.kind = .keyword .whileKw)
      (he : Expression mode .assignment ts e rs) (hb : Braces inside ts' body rs') :
      Declaration inside (w :: (ts ++ ts')) (.loop (w.span.merge body.span) e body) (rs ++ rs')
  | block {inside ts body rs} (h : Braces inside ts body rs) :
      Declaration inside ts (.block body) rs

inductive Conditional : Bool → List Token → Stmt → List Remark → Prop where
  | mk {inside i ts ts' ts₁ e thenBranch elseBranch rs rs' rs₁} (hi : i.kind = .keyword .ifKw)
      (he : Expression mode .assignment ts e rs) (hb : Braces inside ts' thenBranch rs')
      (helse : Otherwise inside ts₁ elseBranch rs₁) :
      Conditional inside (i :: (ts ++ (ts' ++ ts₁)))
        (.conditional (i.span.merge (elseBranch.getD thenBranch).span) e thenBranch elseBranch)
        (rs ++ (rs' ++ rs₁))

/-- The part of an `if` from `else` on. -/
inductive Otherwise : Bool → List Token → Option Block → List Remark → Prop where
  | none {inside} : Otherwise inside [] none []
  | block {inside e ts body rs} (he : e.kind = .keyword .elseKw) (h : Braces inside ts body rs) :
      Otherwise inside (e :: ts) (some body) rs
  | chained {inside e ts stmt rs} (he : e.kind = .keyword .elseKw)
      (h : Conditional inside ts stmt rs) : Otherwise inside (e :: ts) (some ⟨stmt.span, [stmt]⟩) rs

/-- Declarations in braces. -/
inductive Braces : Bool → List Token → Block → List Remark → Prop where
  | mk {inside o ts c stmts rs} (ho : o.kind = .symbol .leftBrace)
      (h : Declarations inside ts stmts rs) (hc : c.kind = .symbol .rightBrace) :
      Braces inside (o :: (ts ++ [c])) ⟨o.span.merge c.span, stmts⟩ rs

inductive Declarations : Bool → List Token → List Stmt → List Remark → Prop where
  | nil {inside} : Declarations inside [] [] []
  | cons {inside ts ts' s ss rs rs'} (h : Declaration inside ts s rs)
      (hs : Declarations inside ts' ss rs') : Declarations inside (ts ++ ts') (s :: ss) (rs ++ rs')
  | dropped {inside ts ts' ss rs r rs'} (hmode : mode = .recovering) (hts : ts ≠ [])
      (hr : r.code.isFatal) (hs : Declarations inside ts' ss rs') :
      Declarations inside (ts ++ ts') ss (rs ++ r :: rs')

end

/-- `Program mode ts stmts rs`: the tokens `ts` form a program. -/
abbrev Program : List Token → List Stmt → List Remark → Prop := Declarations mode false

end Grammar

end Tarn
