import Peg.Grammar.Teardown
import Peg.Number.Arithmetic
import Peg.Parsing

/-!
The standard meaning of callbacks. A function may run a parser of its own, whose callbacks may do so
again: how far this goes is bounded by a number of levels, since nothing in the callbacks bounds it.
-/

namespace Peg

namespace Standard

def release : Release → Value → Action Unit
  | .text, _ => return ()
  | .parser, _ => Proc.raise .parserAsRelease
  | .notCallable got, _ => Proc.raise (.notCallable got)
  | .logged tag stopsAt how, v => do
    let n ← Action.update fun s => s.countCall tag
    Action.note (.released tag v)
    if n ∈ stopsAt then Action.stop how else return ()

def releaseEach (r : Option Release) (vs : List Value) : Action Unit :=
  match r with
  | none => return ()
  | some r => vs.forM (release r)

def join (index : Nat) : List Value → Except Fault String
  | [] => .ok ""
  | .text s :: vs => do return s ++ (← join (index + 1) vs)
  | v :: _ => .error (.notText index v.shape)

def position (index : Int) (length : Nat) : Int := if index < 0 then length + index else index

def kept (place : Int) (vs : List Value) : Value :=
  if place < 0 then .null else (vs[place.toNat]?).getD .null

def others (place : Int) (vs : List Value) : List Value :=
  if place < 0 then vs else vs.eraseIdx place.toNat

def boxedText : Value → String
  | .text s => s
  | .box _ s => s
  | _ => ""

abbrev Calculation := Operator → Value → Value → Except Fault Value

def chain (compute : Calculation) (acc : Value) : List Value → Except Fault Value
  | [] => .ok acc
  | .list [.operator op, v] :: rest => do chain compute (← compute op acc v) rest
  | _ :: _ => .error (.unsuited "an operator and an operand are wanted")

def fold (compute : Calculation) : Fold → List Value → Action Value
  | .concat, vs => Proc.ofExcept do
    return .text (← join 0 (vs.filter fun v => v.shape ≠ .null))
  | .nothing, _ => return .null
  | .list, vs => return .list vs
  | .keep index r, vs => do
    let place := position index vs.length
    releaseEach r (others place vs)
    return kept place vs
  | .discard r, vs => do
    releaseEach r vs
    return .null
  | .size, vs => return .integer vs.length
  | .difference, v :: w :: _ => Proc.ofExcept (compute .minus v w)
  | .difference, _ => Proc.raise (.unsuited "list index out of range")
  | .stop how, _ => do
    Action.stop how
    return .null
  | .box r, vs => do
    releaseEach r vs
    Action.update fun s => s.makeBox (String.join (vs.map boxedText))
  | .logged tag inner, vs => do
    Action.note (.folded tag vs)
    fold compute inner vs
  | .numeral, vs => Proc.ofExcept do
    return .integer (← (Value.text (← join 0 vs)).toInteger)
  | .chain, [v, .list rest] => Proc.ofExcept (chain compute v rest)
  | .chain, _ => Proc.raise (.unsuited "an operand and a list of steps are wanted")
  | .notCallable got, _ => Proc.raise (.notCallable got)

def acts (nested : HandleId → String → Action Result) (v : Value) : List Act → Action Value
  | [] => return v
  | .log tag :: rest => do
    Action.note (.mapped tag v)
    acts nested v rest
  | .stop how only :: rest => do
    let wanted ← Action.read fun s => only.all fun t => v.same (s.makeValue t).1
    if wanted then Action.stop how
    acts nested v rest
  | .const t :: _ => Action.makeValue t
  | .wrap t :: _ => do return .list [← Action.makeValue t, v]
  | .delete id :: rest => do
    Action.deleteInside (← Action.register id)
    acts nested v rest
  | .define id other :: rest => do
    Action.define (← Action.register id) (← Action.register other)
    acts nested v rest
  | .parse id text :: rest => do
    Action.note (.nested (← nested (← Action.register id) text))
    acts nested v rest

def apply (nested : HandleId → String → Action Result) : Func → Value → Action Value
  | .box, .text text => Action.update fun s => s.makeBox text
  | .box, _ => Proc.raise (.unsuited "a text is wanted")
  | .number, v => Proc.ofExcept do return .integer (← v.toInteger)
  | .length, .text s => return .integer s.length
  | .length, .list vs => return .integer vs.length
  | .length, v => Proc.raise (.unsuited ("object of type '" ++ v.shape.word ++ "' has no len()"))
  | .operator, .text s =>
    return ([Operator.plus, .minus, .times, .over].find? (·.sign == s)).elim .null .operator
  | .operator, _ => return .null
  | .acts list, v => acts nested v list
  | .notCallable got, _ => Proc.raise (.notCallable got)

end Standard

namespace Meaning

def withNested (compute : Standard.Calculation) (nested : HandleId → String → Action Result) :
    Meaning where
  release r v := (Standard.release r v).callback
  fold f vs := (Standard.fold compute f vs).callback
  apply f v := (Standard.apply nested f v).callback

/-- The standard meaning, parses being nested in callbacks at most `levels` deep. -/
def standard (compute : Standard.Calculation) : Nat → Meaning
  | 0 => withNested compute fun _ _ => Proc.raise .nestingLimit
  | levels + 1 =>
    withNested compute fun h text => (standard compute levels).parse h text Config.standard

def nestingLevels : Nat := 1000

def usual : Meaning := standard Operator.apply nestingLevels

end Meaning

end Peg
