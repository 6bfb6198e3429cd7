/-! The printed lines of a program. -/
namespace Tarn

/-- Where printed lines go. -/
inductive Output where
  | captured (text : String)
  | silent
deriving DecidableEq, Repr

namespace Output

def println (o : Output) (line : String) : Output :=
  match o with
  | captured text => captured (text ++ line ++ "\n")
  | silent => silent

/-- All that was printed and not taken out since. -/
def text : Output → String
  | captured text => text
  | silent => ""

def clear : Output → Output
  | captured _ => captured ""
  | silent => silent

def isCapturing : Output → Bool
  | captured _ => true
  | silent => false

end Output

end Tarn
