import Peg.Fault
import Peg.Number.Numeral

namespace Peg

inductive Number where
  | integer (n : Int)
  | float (x : Binary64)
deriving DecidableEq, Inhabited

namespace Number

def toValue : Number → Value
  | .integer n => .integer n
  | .float x => .float x

def ofValue? : Value → Option Number
  | .integer n => some (.integer n)
  | .boolean b => some (.integer b.toInt)
  | .float x => some (.float x)
  | _ => none

def toBinary64 : Number → Except Fault Binary64
  | .float x => .ok x
  | .integer n =>
    match Binary64.ofInt? n with
    | some x => .ok x
    | none => .error .integerTooLarge

/-- An exact operation on two integers, or a floating-point one on anything else. -/
def combine (exact : Int → Int → Int) (rounded : Binary64 → Binary64 → Binary64) :
    Number → Number → Except Fault Number
  | .integer n, .integer m => .ok (.integer (exact n m))
  | a, b => do return .float (rounded (← a.toBinary64) (← b.toBinary64))

def div : Number → Number → Except Fault Number
  | .integer n, .integer m =>
    if m = 0 then .error .divisionByZero
    else
      match Binary64.ofRatio? (decide (n < 0) != decide (m < 0)) n.natAbs m.natAbs with
      | some x => .ok (.float x)
      | none => .error .quotientTooLarge
  | a, b => do
    let x ← a.toBinary64
    let y ← b.toBinary64
    if y.isZero then .error .floatDivisionByZero else return .float (x.div y)

/-- The integer that a number becomes, cut off towards zero. -/
def truncate : Number → Except Fault Int
  | .integer n => .ok n
  | .float x =>
    if x.isNaN then .error .noNumberToInteger
    else if x.isFinite then .ok x.truncate
    else .error .infinityToInteger

end Number

def Value.toInteger : Value → Except Fault Int
  | .text s =>
    match Numeral.int? s with
    | some n => .ok n
    | none => .error (.notNumeral s)
  | v =>
    match Number.ofValue? v with
    | some n => n.truncate
    | none =>
      .error (.unsuited ("int() argument must be a string, a bytes-like object or a real " ++
        "number, not '" ++ v.shape.word ++ "'"))

namespace Operator

def onNumbers : Operator → Number → Number → Except Fault Number
  | .plus => Number.combine (· + ·) Binary64.add
  | .minus => Number.combine (· - ·) Binary64.sub
  | .times => Number.combine (· * ·) Binary64.mul
  | .over => Number.div

def apply (op : Operator) (v w : Value) : Except Fault Value :=
  match Number.ofValue? v, Number.ofValue? w with
  | some a, some b => do return (← op.onNumbers a b).toValue
  | _, _ =>
    .error (.unsuited ("unsupported operand type(s) for " ++ op.sign ++ ": '" ++ v.shape.word ++
      "' and '" ++ w.shape.word ++ "'"))

end Operator

end Peg
