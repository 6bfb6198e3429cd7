import Tarn.Value.Basic

/-! Scopes of running programs. A frame binds names to values; a scope sees its own frame and those
around it. Frames are never dropped, so functions may hold on to them. -/
namespace Tarn

/-- Bindings in the order in which they were made, one for each name. -/
abbrev Frame := List (Name × Value)

namespace Frame

def find? : Frame → Name → Option Value
  | [], _ => none
  | (n, v) :: rest, name => if n = name then some v else find? rest name

/-- Binds a name, in place of an earlier binding if there is one. -/
def bind : Frame → Name → Value → Frame
  | [], name, value => [(name, value)]
  | (n, v) :: rest, name, value =>
      if n = name then (n, value) :: rest else (n, v) :: bind rest name value

def binds (f : Frame) (name : Name) : Bool := (f.find? name).isSome

theorem find?_bind (f : Frame) (name other : Name) (value : Value) :
    (f.bind name value).find? other = if name = other then some value else f.find? other := by
  induction f with
  | nil => simp [bind, find?]
  | cons b f ih =>
    obtain ⟨n, v⟩ := b
    by_cases h : n = name
    · subst h
      by_cases h' : n = other <;> simp [bind, find?, h']
    · by_cases h' : n = other
      · subst h'
        simp [bind, find?, h, Ne.symm h]
      · simp [bind, find?, h, h', ih]

end Frame

structure Environment where
  frames : Array Frame := #[[]]
  current : Scope := [0]

namespace Environment

/-- The scope around all others. -/
def global : Scope := [0]

def frame (env : Environment) (i : FrameId) : Frame := env.frames.getD i []

/-- The frame of the nearest binding of a name. -/
def owner? (env : Environment) (scope : Scope) (name : Name) : Option FrameId :=
  scope.find? fun i => (env.frame i).binds name

def lookupIn (env : Environment) (scope : Scope) (name : Name) : Option Value :=
  (env.owner? scope name).bind fun i => (env.frame i).find? name

def lookup (env : Environment) (name : Name) : Option Value := env.lookupIn env.current name

def bindAt (env : Environment) (i : FrameId) (name : Name) (value : Value) : Environment :=
  { env with frames := env.frames.modify i (·.bind name value) }

/-- Binds a name in the innermost frame of a scope. -/
def defineIn (env : Environment) (scope : Scope) (name : Name) (value : Value) : Environment :=
  match scope with
  | i :: _ => env.bindAt i name value
  | [] => env

def define (env : Environment) (name : Name) (value : Value) : Environment :=
  env.defineIn env.current name value

/-- Makes a new frame inside a scope. -/
def child (env : Environment) (outer : Scope) (bindings : Frame) : Scope × Environment :=
  (env.frames.size :: outer, { env with frames := env.frames.push bindings })

/-- Makes a scope current, and gives the one that was. -/
def enter (env : Environment) (scope : Scope) : Scope × Environment :=
  (env.current, { env with current := scope })

def restore (env : Environment) (previous : Scope) : Environment :=
  { env with current := previous }

end Environment

end Tarn
