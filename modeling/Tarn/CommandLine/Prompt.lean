import Tarn.CommandLine.Basic
import Tarn.Text.Blank

/-! The interactive prompt. Each line is run on its own, in one session. -/
namespace Tarn.CommandLine

/-- How much of a line is shown on either side of an error. -/
def promptPadding : Nat := 30

def prompt : String := "> "

def notUtf8 : String := "error: stream did not contain valid UTF-8\n"

/-- A line without what ends it. -/
def withoutLineEnd (line : List Char) : List Char :=
  (line.reverse.dropWhile fun c => c == '\n' || c == '\r').reverse

/-- Runs a line, unless it is blank; gives what goes to the two outputs. -/
def promptLine (setting : Setting) (s : Session) (line : String) : (String × String) × Session :=
  let source := withoutLineEnd line.toList
  if source.all Text.isBlank then (("", ""), s)
  else
    let source := String.ofList source
    let t := { terminal setting with
      source := some source, path := some "stdin", padding := some promptPadding }
    let ((_, diagnostics), s) := s.run setting.loops "stdin" source
    let (printed, s) := s.takeOutput
    ((printed, t.renderAll diagnostics), s)

/-- Splits bytes after each newline. -/
def splitLines : List UInt8 → List (List UInt8)
  | [] => []
  | b :: bs =>
      if b = 10 then [b] :: splitLines bs
      else match splitLines bs with
        | [] => [[b]]
        | line :: lines => (b :: line) :: lines

/-- All that the prompt writes for some lines of input, up to one that is not text. -/
def promptLines (setting : Setting) : Session → List (List UInt8) → ProcessOutput
  | _, [] => { stdout := prompt ++ "\n" }
  | s, line :: lines =>
      match String.fromUTF8? ⟨line.toArray⟩ with
      | none => { stdout := prompt, stderr := notUtf8 }
      | some line =>
          let ((printed, problems), s) := promptLine setting s line
          let rest := promptLines setting s lines
          { stdout := prompt ++ printed ++ rest.stdout, stderr := problems ++ rest.stderr }

def runPrompt (setting : Setting) (input : ByteArray) : ProcessOutput :=
  let r := promptLines setting (session setting) (splitLines input.toList)
  { r with stdout := versionText ++ r.stdout }

/-- What a command does, given the outcome of reading its file and the input of the process. -/
def execute (setting : Setting) (c : Command) (reading : FileReading) (input : ByteArray) :
    ProcessOutput :=
  match c with
  | .repl => runPrompt setting input
  | .run path => withText path reading (runText setting path)
  | .lex path => withText path reading (lexText path)
  | .parse path => withText path reading (parseText path)
  | .help => { stdout := usage }
  | .version => { stdout := versionText }
  | .noPath command => { stderr := s!"Usage: tarn {command} <file.tarn>\n", status := 1 }
  | .unknown word => { stdout := usage, stderr := s!"Unknown command: {word}\n\n", status := 1 }

end Tarn.CommandLine
