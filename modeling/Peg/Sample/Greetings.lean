import Peg.Build
import Peg.Callback.Standard
import Peg.Grammar.Description
import Peg.Text.Padded
import Peg.Value.Printed

namespace Peg.Sample

structure Greetings where
  flatmate : HandleId
  greet : HandleId
  greetings : HandleId

namespace Greetings

def flatmates : List String := ["Dan", "Chess", "Adam", "Lewis"]

def build : Action Greetings := do
  let names ← flatmates.mapM fun name => Build.string (.inl name)
  let flatmate ← Build.choice (names.map .parser)
  let hello ← Build.string (.inl "Hello ")
  let greet ← Build.sequence .concat
    [.pair (.parser hello) (some .text), .pair (.parser flatmate) (some .text)]
  let greetings ← Build.many .concat (.parser greet) none
  return { flatmate, greet, greetings }

def names (g : Greetings) : List (String × HandleId) :=
  [("flatmate", g.flatmate), ("greet", g.greet), ("greetings", g.greetings)]

def report (g : Greetings) (text : String) : Action String := do
  let outcome ← match ← Meaning.usual.runParser g.greetings text Config.standard with
    | .inl v => Pure.pure v.quoted
    | .inr d => Pure.pure ("Error: " ++ d.message)
  return Text.padded 25 (Text.quote text) ++ " | " ++ outcome

def lines (args : List String) : Action (List String) := do
  let g ← build
  let texts := if args.isEmpty then ["Hello DanHello Adam", "Hello Bob", "Goodbye Dan"] else args
  let shown ← Action.read fun s => s.grammar.describe g.greetings
  let reports ← texts.mapM (report g)
  let _ ← Action.deleteAll [g.greetings]
  return ("Grammar: " ++ shown) :: reports

end Greetings

end Peg.Sample
