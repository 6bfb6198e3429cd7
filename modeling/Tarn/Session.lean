import Tarn.Machine.Run
import Tarn.Syntax.Program
import Tarn.Token.Lexer

/-! A session runs one source text after another. What one defines, the next ones can use. -/
namespace Tarn

structure CompileOutput where
  statements : List Stmt
  /-- Those of the lexer come before those of the parser. -/
  diagnostics : List Diagnostic

namespace CompileOutput

def hasErrors (c : CompileOutput) : Bool := !c.diagnostics.isEmpty

end CompileOutput

namespace Machine

/-- Reads a source text without running it. Its names become known. -/
def compile (m : Machine) (source : String) : CompileOutput × Machine :=
  let lexed := lex source m.names
  let parsed := parse lexed.names lexed.tokens
  let events := [.lexed lexed.tokens.length lexed.errors.length] ++
    parsed.events.map .parsing ++ [.parsed parsed.statements.length parsed.errors.length]
  (⟨parsed.statements, lexed.errors.map (·.toDiagnostic) ++ parsed.errors.map (·.toDiagnostic)⟩,
    { m with names := lexed.names, log := events.foldl Log.add m.log })

end Machine

/-- How a source text came out. -/
inductive Outcome where
  | ok
  | compileError (errors : Nat)
  | runtimeError
  /-- A loop went round more often than it may. -/
  | unfinished
deriving DecidableEq, Repr

/-- The exit status of a process that ends so. -/
def Outcome.exitCode : Outcome → Nat
  | ok => 0
  | compileError _ => 65
  | runtimeError | unfinished => 70

structure Session where
  machine : Machine

namespace Session

/-- A session that knows the standard natives. -/
def start (machine : Machine) : Session := ⟨machine.standard⟩

def compile (s : Session) (source : String) : CompileOutput × Session :=
  let (c, machine) := s.machine.compile source
  (c, ⟨machine⟩)

def global? (s : Session) (name : String) : Option Value × Session :=
  let (value, machine) := s.machine.global? name
  (value, ⟨machine⟩)

/-- Runs a source text that compiles, and reports what is wrong with it otherwise. -/
def runCompiled (loops : Nat) (m : Machine) (source : String) :
    (Outcome × List Diagnostic) × Machine :=
  let (c, m) := m.compile source
  if c.hasErrors then
    let errors := c.diagnostics.length
    ((.compileError errors, c.diagnostics), { m with log := m.log.add (.compileFailed errors) })
  else
    match interpret loops c.statements { m with log := m.log.add (.running c.statements.length) } with
    | (.ok (), m) => ((.ok, []), m)
    | (.error (.failed e), m) => ((.runtimeError, [e.toDiagnostic]), m)
    | (.error .exhausted, m) => ((.unfinished, []), m)

/-- Runs a source text under a name, and gives the outcome and what there is to report. -/
def run (loops : Nat) (s : Session) (sourceName source : String) :
    (Outcome × List Diagnostic) × Session :=
  let m := { s.machine with log := s.machine.log.add (.enter (.run sourceName)) }
  let (result, m) := runCompiled loops m source
  (result, ⟨{ m with log := m.log.add (.exit (.run sourceName)) }⟩)

/-- Takes out what was printed so far. -/
def takeOutput (s : Session) : String × Session :=
  (s.machine.output.text, ⟨{ s.machine with output := s.machine.output.clear }⟩)

end Session

end Tarn
