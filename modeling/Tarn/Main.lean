import Std.Time.DateTime.Timestamp
import Tarn.CommandLine.Prompt

/-! The program `tarn`. -/
namespace Tarn

/-- No loop goes round more often in a lifetime. -/
def lifetimeLoops : Nat := Nat.pow 2 62

def readFile (path : String) : IO FileReading := do
  try
    return .bytes (← IO.FS.readBinFile path)
  catch
    | .noFileOrDirectory .. => return .notFound
    | .permissionDenied .. => return .permissionDenied
    | .inappropriateType _ code details => return .failed s!"{details} (os error {code})"
    | e => return .failed (toString e)

def secondsNow : IO Float := do
  let now ← Std.Time.Timestamp.now
  return Float.ofInt now.toNanosecondsSinceUnixEpoch.val / 1e9

/-- The bytes up to and with the next newline. -/
partial def readLine (input : IO.FS.Stream) (line : ByteArray) : IO ByteArray := do
  let next ← input.read 1
  let line := line ++ next
  if next.isEmpty || next.toList == [10] then return line else readLine input line

/-- The prompt on a terminal: each line is answered before the next is read. -/
partial def converse (setting : Setting) (s : Session) : IO Unit := do
  let stdout ← IO.getStdout
  let stderr ← IO.getStderr
  stdout.putStr CommandLine.prompt
  stdout.flush
  let line ← readLine (← IO.getStdin) .empty
  if line.isEmpty then stdout.putStr "\n"
  else match String.fromUTF8? line with
    | none => stderr.putStr CommandLine.notUtf8
    | some line =>
        let s := { s with machine.clock := ← secondsNow }
        let ((printed, problems), s) := CommandLine.promptLine setting s line
        stdout.putStr printed
        stderr.putStr problems
        converse setting s

def runCommand (setting : Setting) (c : Command) : IO UInt32 := do
  if c = .repl then
    (← IO.getStdout).putStr CommandLine.versionText
    converse setting (CommandLine.session setting)
    return 0
  let reading ← match c.path? with
    | some path => readFile path
    | none => pure .notFound
  let report := CommandLine.execute setting c reading .empty
  (← IO.getStdout).putStr report.stdout
  (← IO.getStderr).putStr report.stderr
  return report.status.toUInt32

end Tarn

open Tarn in
def main (args : List String) : IO UInt32 := do
  match takeColor .auto args with
  | .error value =>
      let report := CommandLine.invalidColor value
      (← IO.getStderr).putStr report.stderr
      return report.status.toUInt32
  | .ok (color, words) =>
      let isTerminal ← (← IO.getStderr).isTty
      runCommand { color, isTerminal, clock := ← secondsNow, loops := lifetimeLoops }
        (Command.ofWords words)
