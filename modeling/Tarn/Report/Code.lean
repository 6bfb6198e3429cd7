/-! Codes of errors. -/
namespace Tarn

/-- What is wrong, as documentation refers to it. -/
inductive ErrorCode where
  | unterminatedString
  | unexpectedChar
  /-- A source that offsets cannot address. -/
  | sourceTooLarge
  | unexpectedToken
  | missingExpression
  | unclosedDelimiter
  | missingIdentifier
  /-- An assignment to something other than a variable. -/
  | invalidTarget
  | tooManyParameters
  | tooManyArguments
  | duplicateParameter
  | returnOutsideFunction
  | undefinedIdentifier
  | wrongOperandType
  | divisionByZero
  | notCallable
  | arityMismatch
  | callDepthExceeded
  | nativeFailure
  /-- A fault of the interpreter itself. -/
  | internal
deriving DecidableEq, Repr

inductive Phase where
  | lexer | parser | runtime | internal
deriving DecidableEq, Repr

namespace ErrorCode

def all : List ErrorCode :=
  [unterminatedString, unexpectedChar, sourceTooLarge, unexpectedToken, missingExpression,
    unclosedDelimiter, missingIdentifier, invalidTarget, tooManyParameters, tooManyArguments,
    duplicateParameter, returnOutsideFunction, undefinedIdentifier, wrongOperandType,
    divisionByZero, notCallable, arityMismatch, callDepthExceeded, nativeFailure, internal]

theorem mem_all (c : ErrorCode) : c ∈ all := by cases c <;> decide

/-- The number of a code. Its thousands tell the phase. -/
def number : ErrorCode → Nat
  | unterminatedString => 1
  | unexpectedChar => 2
  | sourceTooLarge => 3
  | unexpectedToken => 1001
  | missingExpression => 1002
  | unclosedDelimiter => 1003
  | missingIdentifier => 1004
  | invalidTarget => 1005
  | tooManyParameters => 1006
  | tooManyArguments => 1007
  | duplicateParameter => 1008
  | returnOutsideFunction => 1009
  | undefinedIdentifier => 6001
  | wrongOperandType => 6002
  | divisionByZero => 6003
  | notCallable => 6004
  | arityMismatch => 6005
  | callDepthExceeded => 6006
  | nativeFailure => 6007
  | internal => 9001

/-- The letter `E` and four digits. -/
def toString (c : ErrorCode) : String :=
  let digits := Nat.toDigits 10 c.number
  String.ofList ('E' :: List.replicate (4 - digits.length) '0' ++ digits)

def ofString? (text : String) : Option ErrorCode := all.find? (·.toString == text)

theorem ofString?_toString (c : ErrorCode) : ofString? c.toString = some c := by
  cases c <;> decide +kernel

def phase (c : ErrorCode) : Phase :=
  match c.number / 1000 with
  | 0 => .lexer
  | 1 => .parser
  | 6 => .runtime
  | _ => .internal

/-- Whether the code is reported before anything runs. -/
def isCompileTime (c : ErrorCode) : Bool := c.phase == .lexer || c.phase == .parser

end ErrorCode

end Tarn
