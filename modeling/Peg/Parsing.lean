import Peg.Run.Call

namespace Peg

namespace Meaning

variable (m : Meaning)

def parse (h : HandleId) (text : String) (config : Config) : Action Result := do
  let input := Input.ofString text
  Action.log (← Action.read fun s => .running (s.grammar.get h) input.size)
  let r ← m.callAction (.fresh config) h (.start input)
  Action.log (← Action.read fun s =>
    match r with
    | .success _ c => .matchedUpTo (s.grammar.get h) c.pos
    | .failure f => .failedAtPosition (s.grammar.get h) f.position)
  return r

/-- Runs a handle from the start of a text: the value it yields, or a diagnostic. -/
def runParser (h : HandleId) (text : String) (config : Config) : Action (Value ⊕ Diagnostic) := do
  match ← m.parse h text config with
  | .success v _ => return .inl v
  | .failure f =>
    return .inr (← Proc.ofExcept (Diagnostic.ofFailure f (Input.ofString text) config.sourceName))

end Meaning

end Peg
