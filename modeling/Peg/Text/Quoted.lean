import Peg.Text.Printable

namespace Peg.Text

def hexDigit (n : Nat) : Char :=
  (['0', '1', '2', '3', '4', '5', '6', '7', '8', '9', 'a', 'b', 'c', 'd', 'e', 'f'][n]?).getD '0'

def hexDigits : Nat → Nat → List Char
  | 0, _ => []
  | width + 1, n => hexDigits width (n / 16) ++ [hexDigit (n % 16)]

def numericEscape (n : Nat) : List Char :=
  if n < 0x100 then '\\' :: 'x' :: hexDigits 2 n
  else if n < 0x10000 then '\\' :: 'u' :: hexDigits 4 n
  else '\\' :: 'U' :: hexDigits 8 n

def escape (printable : Char → Bool) (mark c : Char) : List Char :=
  if c = mark ∨ c = '\\' then ['\\', c]
  else if c = '\n' then ['\\', 'n']
  else if c = '\r' then ['\\', 'r']
  else if c = '\t' then ['\\', 't']
  else if printable c then [c]
  else numericEscape c.toNat

/-- Single marks, unless the text holds a single mark and no double one. -/
def chooseMark (cs : List Char) : Char :=
  if '\'' ∈ cs ∧ '"' ∉ cs then '"' else '\''

theorem chooseMark_eq (cs : List Char) : chooseMark cs = '\'' ∨ chooseMark cs = '"' := by
  unfold chooseMark
  split
  · exact .inr rfl
  · exact .inl rfl

def encode (printable : Char → Bool) (cs : List Char) : List Char :=
  chooseMark cs :: (cs.flatMap (escape printable (chooseMark cs)) ++ [chooseMark cs])

def quote (s : String) (printable : Char → Bool := isPrintable) : String :=
  String.ofList (encode printable s.toList)

theorem toList_quote (s : String) (printable : Char → Bool) :
    (quote s printable).toList = encode printable s.toList := String.toList_ofList

def quoteUpTo (length : Nat) (s : String) : String :=
  String.ofList ((quote s).toList.take length)

end Peg.Text
