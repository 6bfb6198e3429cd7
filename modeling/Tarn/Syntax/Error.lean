import Tarn.Report.Diagnostic

/-! Errors of syntax. -/
namespace Tarn

/-- A place where the grammar does not go on. -/
structure ParseError where
  code : ErrorCode
  message : String
  span : Span
  /-- What was found there. -/
  context : Option String := none
  /-- Earlier code that the error depends on, such as an unclosed parenthesis. -/
  related : Option (Span × String) := none
deriving DecidableEq, Repr

def ParseError.toDiagnostic (e : ParseError) : Diagnostic :=
  let d : Diagnostic := { code := e.code, message := e.message }
  let d := d.label e.span (e.context.getD "here")
  match e.related with
  | some (span, message) => d.secondaryLabel span message
  | none => d

end Tarn
