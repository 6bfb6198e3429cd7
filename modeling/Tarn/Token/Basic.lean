import Tarn.Source.Span
import Tarn.Token.Kind

namespace Tarn

structure Token where
  kind : TokenKind
  span : Span
deriving DecidableEq, Repr, Inhabited

namespace Token

/-- A token that stands nowhere. -/
def ofKind (kind : TokenKind) : Token := ⟨kind, Span.nowhere⟩

def toString (t : Token) : String := s!"{t.kind.toString} @ {t.span.toString}"

def listToString (ts : List Token) : String := "[" ++ ", ".intercalate (ts.map toString) ++ "]"

end Token

end Tarn
