import Peg.Build
import Peg.Callback.Standard
import Peg.Grammar.Description
import Peg.Text.Padded
import Peg.Value.Printed

namespace Peg.Sample

structure Expression where
  digit : HandleId
  number : HandleId
  spaces : HandleId
  factor : HandleId
  term : HandleId
  expr : HandleId
  program : HandleId
  triple : HandleId

namespace Expression

def inOrder (f : Fold) (ps : List HandleId) : Action HandleId :=
  Build.sequence f (ps.map fun h => .pair (.parser h) none)

def lexeme (spaces h : HandleId) : Action HandleId := inOrder (.keep 0 none) [h, spaces]

def symbol (spaces : HandleId) (s : String) : Action HandleId := do
  lexeme spaces (← Build.string (.inl s))

def chain (spaces operand : HandleId) (ops : List Operator) : Action HandleId := do
  let signs ← ops.mapM fun op => symbol spaces op.sign
  let op ← Build.map (← Build.choice (signs.map .parser)) .operator
  let step ← inOrder .list [op, operand]
  let steps ← Build.many .list (.parser step) none
  inOrder .chain [operand, steps]

def build : Action Expression := do
  let digits ← ["0", "1", "2", "3", "4", "5", "6", "7", "8", "9"].mapM fun d => Build.string (.inl d)
  let digit ← Build.expect (.parser (← Build.choice (digits.map .parser))) "digit"
  let number ← Build.many1 .numeral (.parser digit) none
  let spaces ← Build.many .nothing (.parser (← Build.string (.inl " "))) none
  let expr ← Build.placeholder "expr"
  let atom ← lexeme spaces number
  let opening ← symbol spaces "("
  let closing ← symbol spaces ")"
  let bracketed ← inOrder (.keep 1 none) [opening, expr, closing]
  let factor ← Build.choice [.parser atom, .parser bracketed]
  let term ← chain spaces factor [.times, .over]
  Action.define expr (← chain spaces term [.plus, .minus])
  let program ← inOrder (.keep 1 none) [spaces, expr, ← Build.eof]
  let comma ← Build.maybe (.parser (← symbol spaces ",")) .null
  let one ← inOrder (.keep 0 none) [expr, comma]
  let three ← Build.count 3 .list (.parser one) none
  let triple ← inOrder (.keep 0 none) [spaces, three]
  return { digit, number, spaces, factor, term, expr, program, triple }

def names (e : Expression) : List (String × HandleId) :=
  [("digit", e.digit), ("number", e.number), ("spaces", e.spaces), ("factor", e.factor),
    ("term", e.term), ("expr", e.expr), ("program", e.program), ("triple", e.triple)]

def outcome (h : HandleId) (text : String) : Action String := do
  match ← Meaning.usual.runParser h text Config.standard with
  | .inl v => return v.printed
  | .inr d => return d.message

def examples : List String := ["2 + 3", "2 + 3 * 4", "(2 + 3) * 4", "10 / 2 + 3", "2 +"]

def lines : Action (List String) := do
  let e ← build
  let shown ← Action.read fun s => s.grammar.describe e.expr
  let reports ← examples.mapM fun text => do
    return Text.padded 20 text ++ " | " ++ (← outcome e.program text)
  let first ← match ← Meaning.usual.runParser e.triple "1, 2 * 3, (4)" Config.standard with
    | .inl v => Pure.pure v.printed
    | .inr _ => Pure.pure Value.null.printed
  let _ ← Action.deleteAll [e.program, e.triple]
  return ("expr = " ++ shown) :: reports ++ [first]

end Expression

end Peg.Sample
