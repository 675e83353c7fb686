import Peg.Cursor
import Peg.Labels

namespace Peg

structure Failure where
  expected : Labels
  position : Int

namespace Failure

/-- Two alternatives that both failed: all that either expected, at the furthest position. -/
def merge (f g : Failure) : Failure :=
  ⟨f.expected.union g.expected, max f.position g.position⟩

def message (f : Failure) (printable : Char → Bool := Text.isPrintable) : String :=
  "expected " ++ f.expected.message printable ++ s!" at position {f.position}"

end Failure

structure Diagnostic where
  expected : Labels
  position : Int
  line : Nat
  column : Nat
  found : String
  sourceName : String

namespace Diagnostic

def foundAt (input : Input) (pos : Nat) : String :=
  match input[pos]? with
  | some c => Text.quote (String.singleton c)
  | none => "end of input"

def ofFailure (f : Failure) (input : Input) (sourceName : String) : Except Fault Diagnostic := do
  let cursor ← Cursor.ofPos input f.position
  let (line, column) := cursor.lineColumn
  return ⟨f.expected, f.position, line, column, foundAt input cursor.pos, sourceName⟩

def message (d : Diagnostic) : String :=
  (if d.sourceName = "" then "" else d.sourceName ++ ":") ++ s!"{d.line}:{d.column}" ++
    ": expected " ++ d.expected.message ++ " at " ++ d.found

end Diagnostic

end Peg
