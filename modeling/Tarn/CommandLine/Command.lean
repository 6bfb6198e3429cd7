import Tarn.Report.Terminal

/-! What the arguments of a command line ask for. -/
namespace Tarn

inductive Command where
  | repl
  | run (path : String)
  | lex (path : String)
  | parse (path : String)
  | help
  | version
  /-- A command that lacks the path of its file. -/
  | noPath (command : String)
  | unknown (word : String)
deriving DecidableEq, Repr

namespace Command

/-- The last component of a path, unless it leads up or nowhere. -/
def fileName? (path : String) : Option (List Char) :=
  match (components path.toList).getLast? with
  | some ['.', '.'] => none
  | name => name
where
  components (cs : List Char) : List (List Char) :=
    (cs.splitOn '/').filter fun part => part != [] && part != ['.']

/-- What follows the last point of a file name. A point in front does not count. -/
def extension? (name : List Char) : Option (List Char) :=
  let after := name.reverse.takeWhile (· != '.')
  let before := (name.reverse.dropWhile (· != '.')).drop 1
  if before.isEmpty then none else some after.reverse

/-- Whether a path names a program, whatever the case of its extension. -/
def isProgramPath (path : String) : Bool :=
  match (fileName? path).bind extension? with
  | some ext => ext.map Char.toLower == ['t', 'a', 'r', 'n']
  | none => false

def ofWords : List String → Command
  | [] | "repl" :: _ => repl
  | "run" :: path :: _ => run path
  | "lex" :: path :: _ => lex path
  | "parse" :: path :: _ => parse path
  | "help" :: _ | "--help" :: _ | "-h" :: _ => help
  | "version" :: _ | "--version" :: _ | "-v" :: _ => version
  | ["run"] => noPath "run"
  | ["lex"] => noPath "lex"
  | ["parse"] => noPath "parse"
  | word :: _ => if isProgramPath word then run word else unknown word

/-- The file that a command reads. -/
def path? : Command → Option String
  | run path | lex path | parse path => some path
  | _ => none

end Command

def colorFlag : List Char := "--color=".toList

/-- Takes the colour flags out of the arguments, wherever they stand. The last one counts; the first
that is malformed is the error. -/
def takeColor (color : ColorMode) : List String → Except String (ColorMode × List String)
  | [] => .ok (color, [])
  | arg :: rest =>
      if colorFlag.isPrefixOf arg.toList then
        let value := String.ofList (arg.toList.drop colorFlag.length)
        match ColorMode.ofString? value with
        | some mode => takeColor mode rest
        | none => .error value
      else do
        let (color, words) ← takeColor color rest
        return (color, arg :: words)

end Tarn
