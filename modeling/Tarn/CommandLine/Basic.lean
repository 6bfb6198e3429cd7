import Tarn.CommandLine.Command
import Tarn.Session

/-! What each command writes. -/
namespace Tarn

/-- What a process leaves behind. -/
structure ProcessOutput where
  stdout : String := ""
  stderr : String := ""
  status : Nat := 0
deriving DecidableEq, Repr

/-- What comes of an attempt to read a file. -/
inductive FileReading where
  | bytes (content : ByteArray)
  | notFound
  | permissionDenied
  | failed (reason : String)

/-- What commands depend on besides their arguments and files. -/
structure Setting where
  color : ColorMode := .auto
  isTerminal : Bool := false
  clock : Float := 0
  /-- How often a loop may go round. -/
  loops : Nat

namespace CommandLine

def versionText : String := "Tarn 0.1.0\n"

def usage : String := String.join (List.map (· ++ "\n") [
  "Tarn, a small scripting language",
  "",
  "Usage: tarn [command] [options]",
  "",
  "Commands:",
  "  repl                 Start the interactive prompt (default)",
  "  run <file.tarn>      Run a Tarn program",
  "  lex <file.tarn>      Tokenize and display tokens",
  "  parse <file.tarn>    Parse and display statements",
  "  help                 Show this help message",
  "  version              Show version information",
  "",
  "Options:",
  "  --color=<mode>       Diagnostic colors: auto, always, never",
  "",
  "Environment:",
  "  RUST_LOG             Enable logging, e.g. RUST_LOG=tarn_eval=debug",
  "  TARN_LOG_TREE        Render log spans as an indented tree",
  "",
  "Exit status:",
  "  65                   The program has syntax errors",
  "  70                   The program stopped at a runtime error",
  "",
  "Examples:",
  "  tarn",
  "  tarn run main.tarn",
  "  tarn main.tarn",
  "  tarn parse main.tarn --color=never"])

def invalidColor (value : String) : ProcessOutput :=
  { stderr := s!"error: invalid color mode '{value}' (expected auto, always, or never)\n"
    status := 1 }

/-- The text of a file, or what is said if there is none. -/
def textOf (path : String) : FileReading → Except String String
  | .bytes content =>
      match String.fromUTF8? content with
      | some text => .ok text
      | none => .error s!"'{path}' contains invalid UTF-8 data"
  | .notFound => .error s!"cannot find file '{path}'"
  | .permissionDenied => .error s!"permission denied reading '{path}'"
  | .failed reason => .error s!"error reading '{path}': {reason}"

def session (setting : Setting) : Session := Session.start { clock := setting.clock }

def terminal (setting : Setting) : Terminal :=
  { colors := setting.color.usesColors setting.isTerminal }

/-- Runs a program. -/
def runText (setting : Setting) (path source : String) : ProcessOutput :=
  let t := { terminal setting with source := some source, path := some path }
  let ((outcome, diagnostics), s) := (session setting).run setting.loops path source
  let summary := match outcome with
    | .compileError errors => t.renderSummary errors 0
    | _ => ""
  { stdout := s.machine.output.text
    stderr := t.renderAll diagnostics ++ summary
    status := outcome.exitCode }

def errorLine (span : Span) (message : String) : String := s!"  {span}: {message}\n"

def errorLines (lines : List String) : String :=
  if lines.isEmpty then "" else "\nErrors:\n" ++ String.join lines

/-- Shows the tokens of a text. -/
def lexText (path source : String) : ProcessOutput :=
  let out := Tarn.lex source .empty
  let head := s!"Tokens for '{path}' ({out.tokens.length} tokens):\n"
  let chars := source.toList
  let tokens := out.tokens.map fun t =>
    s!"  {t.toString}  " ++ String.ofList (t.span.charsIn chars) ++ "\n"
  { stdout := head ++ String.join tokens ++
      errorLines (out.errors.map fun e => errorLine e.span e.message) }

/-- Shows the statements of a text. -/
def parseText (path source : String) : ProcessOutput :=
  let lexed := Tarn.lex source .empty
  let parsed := Tarn.parse lexed.names lexed.tokens
  let errors := lexed.errors.map (fun e => errorLine e.span e.message) ++
    parsed.errors.map (fun e => errorLine e.span e.message)
  let head := s!"Parse result for '{path}':\n" ++
    s!"  Statements: {parsed.statements.length}\n" ++
    s!"  Errors: {errors.length}\n"
  let statements := parsed.statements.map fun s => s.render lexed.names ++ "\n"
  let shown := if statements.isEmpty then "" else "\n" ++ String.join statements
  { stdout := head ++ shown ++ errorLines errors }

/-- Does something with the text of a file, if it has one. -/
def withText (path : String) (reading : FileReading) (use : String → ProcessOutput) :
    ProcessOutput :=
  match textOf path reading with
  | .ok text => use text
  | .error message => { stderr := s!"error: {message}\n", status := 66 }

end CommandLine

end Tarn
