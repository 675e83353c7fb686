import Peg.Sample.Expression
import Peg.Sample.Greetings

namespace Peg.Sample

inductive Program where
  | greetings
  | expression
deriving DecidableEq, Inhabited, Repr

namespace Program

def load : Program → Action (List (String × HandleId))
  | .greetings => do return (← Greetings.build).names
  | .expression => do return (← Expression.build).names

def lines : Program → List String → Action (List String)
  | .greetings, args => Greetings.lines args
  | .expression, _ => Expression.lines

def output (p : Program) (args : List String) : String :=
  match (p.lines args {}).1 with
  | .done ls => String.join (ls.map (· ++ "\n"))
  | _ => ""

end Program

end Peg.Sample
