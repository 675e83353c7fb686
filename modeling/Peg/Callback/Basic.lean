import Peg.Value

namespace Peg

inductive Stop where
  | fault (message : String)
  | abort (message : String)
deriving DecidableEq, Inhabited, Repr

/-- What is done with a value that was produced and is not used. -/
inductive Release where
  | text
  /-- Counts its calls under a tag, logs them, and stops at the calls listed. -/
  | logged (tag : String) (stopsAt : List Nat) (stop : Stop)
  | parser
  | notCallable (got : Shape)
deriving DecidableEq, Inhabited, Repr

def Release.callable : Release → Bool
  | .notCallable _ => false
  | _ => true

/-- How a list of values becomes one. -/
inductive Fold where
  | concat
  | nothing
  | list
  /-- Keeps the value at an index, counted from the end if negative, and releases the others. -/
  | keep (index : Int) (release : Option Release)
  | discard (release : Option Release)
  | size
  | difference
  | stop (how : Stop)
  | box (release : Option Release)
  /-- Logs the values and goes on as `inner`. -/
  | logged (tag : String) (inner : Fold)
  | numeral
  /-- A first operand and a list of operators with their operands, worked off from the left. -/
  | chain
  | notCallable (got : Shape)
deriving Inhabited

def Fold.callable : Fold → Bool
  | .notCallable _ => false
  | _ => true

def Fold.first : Fold := .keep 0 none

def Fold.last : Fold := .keep (-1) none

inductive Act where
  | log (tag : String)
  /-- Stops, if the value is the one given or none is given. -/
  | stop (how : Stop) (only : Option Template)
  | const (value : Template)
  | wrap (first : Template)
  | delete (register : String)
  | define (register other : String)
  | parse (register text : String)
deriving Inhabited

/-- What is done with the value of a parser that succeeded. -/
inductive Func where
  | box
  | number
  | length
  | operator
  /-- Acts in turn, up to one that ends the function; without such an act the value stays. -/
  | acts (list : List Act)
  | notCallable (got : Shape)
deriving Inhabited

def Func.callable : Func → Bool
  | .notCallable _ => false
  | _ => true

end Peg
