import Peg.Number.Binary64

namespace Peg

inductive Operator where
  | plus
  | minus
  | times
  | over
deriving DecidableEq, Inhabited, Repr

def Operator.sign : Operator → String
  | .plus => "+"
  | .minus => "-"
  | .times => "*"
  | .over => "/"

inductive Shape where
  | null
  | text
  | integer
  | boolean
  | list
  | object
  | float
  | box
  | operator
  | parser
deriving DecidableEq, Inhabited, Repr

def Shape.word : Shape → String
  | .null => "NoneType"
  | .text => "str"
  | .integer => "int"
  | .boolean => "bool"
  | .list => "list"
  | .object => "dict"
  | .float => "float"
  | .box => "Box"
  | .operator => "function"
  | .parser => "Parser"

inductive Value where
  | null
  | boolean (b : Bool)
  | integer (n : Int)
  | float (x : Binary64)
  | text (s : String)
  | list (items : List Value)
  | box (id : Nat) (text : String)
  | operator (op : Operator)
deriving Inhabited

namespace Value

def shape : Value → Shape
  | .null => .null
  | .boolean _ => .boolean
  | .integer _ => .integer
  | .float _ => .float
  | .text _ => .text
  | .list _ => .list
  | .box _ _ => .box
  | .operator _ => .operator

mutual

/-- Equality as a program over values sees it: numbers are compared by their amount whatever their
kind, boxes by their identity, everything else by its parts. -/
def same : Value → Value → Bool
  | .null, .null => true
  | .boolean a, .boolean b => a == b
  | .boolean a, .integer n => n == a.toInt
  | .boolean a, .float x => x.isInt a.toInt
  | .integer n, .boolean b => n == b.toInt
  | .integer n, .integer m => n == m
  | .integer n, .float x => x.isInt n
  | .float x, .boolean b => x.isInt b.toInt
  | .float x, .integer n => x.isInt n
  | .float x, .float y => x.same y
  | .text s, .text t => s == t
  | .list vs, .list ws => sameAll vs ws
  | .box i _, .box j _ => i == j
  | .operator p, .operator q => p == q
  | _, _ => false

def sameAll : List Value → List Value → Bool
  | [], [] => true
  | v :: vs, w :: ws => same v w && sameAll vs ws
  | _, _ => false

end

end Value

/-- A value whose boxes are still to be made. -/
inductive Template where
  | null
  | boolean (b : Bool)
  | integer (n : Int)
  | float (x : Binary64)
  | text (s : String)
  | list (items : List Template)
  | box (text : String)
deriving Inhabited

namespace Template

mutual

def make (boxes : Nat) : Template → Value × Nat
  | .null => (.null, boxes)
  | .boolean b => (.boolean b, boxes)
  | .integer n => (.integer n, boxes)
  | .float x => (.float x, boxes)
  | .text s => (.text s, boxes)
  | .list ts =>
    let (vs, boxes) := makeAll boxes ts
    (.list vs, boxes)
  | .box s => (.box (boxes + 1) s, boxes + 1)

def makeAll (boxes : Nat) : List Template → List Value × Nat
  | [] => ([], boxes)
  | t :: ts =>
    let (v, boxes) := make boxes t
    let (vs, boxes) := makeAll boxes ts
    (v :: vs, boxes)

end

end Template

end Peg
