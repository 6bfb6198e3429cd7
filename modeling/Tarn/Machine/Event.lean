import Tarn.Report.Code
import Tarn.Syntax.Parser

/-! The log of what a session does. -/
namespace Tarn

/-- What an enter and an exit in the log enclose. -/
inductive Activity where
  | run (source : String)
  | call (function : String)
deriving DecidableEq, Repr

inductive Event where
  | lexed (tokens errors : Nat)
  | parsing (e : ParseEvent)
  | parsed (statements errors : Nat)
  | compileFailed (errors : Nat)
  | running (statements : Nat)
  | evaluating (expression : String)
  | execute (span : Span)
  | runtimeError (code : ErrorCode) (message : String)
  | enter (a : Activity)
  | exit (a : Activity)
deriving DecidableEq, Repr

/-- How much detail an event needs to be wanted. -/
inductive LogLevel where
  | debug | trace
deriving DecidableEq, Repr

namespace Activity

def name : Activity → String
  | run _ => "run"
  | call _ => "call_function"

def fields : Activity → List (String × String)
  | run source => [("source", source)]
  | call function => [("function", function)]

end Activity

namespace Event

def level : Event → LogLevel
  | parsing (.forLoop ..) | execute _ => .trace
  | _ => .debug

def message : Event → String
  | lexed .. => "lexed source"
  | parsing (.forLoop ..) => "desugaring for loop"
  | parsing (.recovery ..) => "recovering from parse error"
  | parsed .. => "parsed program"
  | compileFailed _ => "compile failed; not running"
  | running _ => "running"
  | evaluating _ => "evaluating"
  | execute _ => "execute"
  | runtimeError .. => "runtime error"
  | enter _ => "enter"
  | exit _ => "exit"

/-- What the log says besides the message. -/
def fields : Event → List (String × String)
  | lexed tokens errors => [("tokens", toString tokens), ("errors", toString errors)]
  | parsing (.forLoop hasInitializer hasCondition hasIncrement) =>
      [("has_initializer", toString hasInitializer), ("has_condition", toString hasCondition),
        ("has_increment", toString hasIncrement)]
  | parsing (.recovery code span) => [("code", code.toString), ("span", span.toString)]
  | parsed statements errors =>
      [("statements", toString statements), ("errors", toString errors)]
  | compileFailed errors => [("errors", toString errors)]
  | running statements => [("statements", toString statements)]
  | evaluating expression => [("expr", expression)]
  | execute span => [("span", span.toString)]
  | runtimeError code message => [("code", code.toString), ("message", message)]
  | enter a | exit a => a.fields

end Event

/-- Events at the wanted level, the earliest first. -/
structure Log where
  /-- Nothing is kept without a level. -/
  level : Option LogLevel := none
  events : Array Event := #[]

namespace Log

def keeps (log : Log) (level : LogLevel) : Bool :=
  match log.level, level with
  | none, _ => false
  | some .trace, _ => true
  | some .debug, .debug => true
  | some .debug, .trace => false

def add (log : Log) (e : Event) : Log :=
  if log.keeps e.level then { log with events := log.events.push e } else log

end Log

end Tarn
