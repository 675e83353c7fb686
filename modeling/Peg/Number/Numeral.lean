import Peg.Text.Blank
import Peg.Text.Digit

namespace Peg.Numeral

def afterDigit (n : Nat) : List Char → Option Nat
  | [] => some n
  | '_' :: c :: cs => do afterDigit (10 * n + (← Text.digitValue? c)) cs
  | c :: cs => do afterDigit (10 * n + (← Text.digitValue? c)) cs

def natural? : List Char → Option Nat
  | [] => none
  | c :: cs => do afterDigit (← Text.digitValue? c) cs

/-- The number that digits with or without a sign before them denote. -/
def signed? : List Char → Option Int
  | '+' :: cs => do return (← natural? cs)
  | '-' :: cs => do return -(← natural? cs)
  | cs => do return (← natural? cs)

def int? (text : String) : Option Int := signed? (Text.trimmed text.toList)

end Peg.Numeral
