import Peg.Failure
import Peg.Grammar.Basic
import Peg.Proc

/-!
The world of callbacks. They may change the store: the grammar, and what they keep count of. They
are seen by events, which they cause and cannot look back on.
-/

namespace Peg

inductive Result where
  | success (value : Value) (cursor : Cursor)
  | failure (failure : Failure)

inductive Logger where
  | parser
  | prim
  | graph
deriving DecidableEq, Inhabited, Repr

/-- An entry of the log. A handle stands in it as it was at that moment. -/
inductive Record where
  | running (handle : Handle) (length : Nat)
  | matchedUpTo (handle : Handle) (pos : Nat)
  | failedAtPosition (handle : Handle) (pos : Int)
  | trying (handle : Handle) (pos : Nat)
  | matched (handle : Handle) (first last : Nat)
  | failed (handle : Handle) (pos : Int)
  | defined (name kind : String)
  | tornDown (count : Nat)

def Record.logger : Record → Logger
  | .running _ _ | .matchedUpTo _ _ | .failedAtPosition _ _ => .prim
  | .trying _ _ | .matched _ _ _ | .failed _ _ | .defined _ _ => .parser
  | .tornDown _ => .graph

def Record.message : Record → String
  | .running handle length => s!"Running {handle.shown} over {length} characters"
  | .matchedUpTo handle pos => s!"{handle.shown} matched up to position {pos}"
  | .failedAtPosition handle pos => s!"{handle.shown} failed at position {pos}"
  | .trying handle pos => s!"{handle.shown}: trying at {pos}"
  | .matched handle first last => s!"{handle.shown}: matched {first}..{last}"
  | .failed handle pos => s!"{handle.shown}: failed at {pos}"
  | .defined name kind => s!"Defined parser '{name}' as {kind}"
  | .tornDown count => s!"Deleted {count} parsers"

inductive Event where
  | released (tag : String) (value : Value)
  | folded (tag : String) (values : List Value)
  | mapped (tag : String) (value : Value)
  /-- A watcher was told of a handle torn down: the registers that hold it, and how it is shown. -/
  | torn (h : HandleId) (owners : List String) (shown : String)
  /-- A callback tore down so many handles. -/
  | deleted (count : Nat)
  /-- A parse inside a callback came to its result. -/
  | nested (result : Result)
  | logged (record : Record)

def Event.isLogged : Event → Bool
  | .logged _ => true
  | _ => false

/-- What callbacks may read and change. -/
structure Store where
  grammar : Grammar := {}
  registers : List (String × HandleId) := []
  /-- How often the releases of each tag were called. -/
  calls : List (String × Nat) := []
  boxes : Nat := 0

namespace Store

def assign (s : Store) (register : String) (h : HandleId) : Store :=
  { s with registers := (register, h) :: s.registers.filter (·.1 != register) }

def owners (s : Store) (h : HandleId) : List String :=
  (Labels.ofList ((s.registers.filter (·.2 == h)).map (·.1))).items

def shown (s : Store) (h : HandleId) : String := (s.grammar.get h).shown

def countCall (s : Store) (tag : String) : Nat × Store :=
  let n := (s.calls.lookup tag).getD 0 + 1
  (n, { s with calls := (tag, n) :: s.calls.filter (·.1 != tag) })

def makeBox (s : Store) (text : String) : Value × Store :=
  (.box (s.boxes + 1) text, { s with boxes := s.boxes + 1 })

def makeValue (s : Store) (t : Template) : Value × Store :=
  let (v, boxes) := t.make s.boxes
  (v, { s with boxes := boxes })

end Store

structure World where
  store : Store := {}
  events : List Event := []

abbrev Action (α : Type) := Proc World α

/-- What came of a callback: how it ended, the store it left, and the events it caused in order. -/
structure Effect (α : Type) where
  ending : Ending α
  store : Store
  events : List Event

abbrev Callback (α : Type) := Store → Effect α

namespace Action

def callback {α : Type} (action : Action α) : Callback α := fun s =>
  match action ⟨s, []⟩ with
  | (ending, w) => ⟨ending, w.store, w.events.reverse⟩

def read {α : Type} (f : Store → α) : Action α := fun w => (.done (f w.store), w)

def update {α : Type} (f : Store → α × Store) : Action α := fun w =>
  let (a, s) := f w.store
  (.done a, { w with store := s })

def note (e : Event) : Action Unit := fun w => (.done (), { w with events := e :: w.events })

def log (r : Record) : Action Unit := note (.logged r)

def register (id : String) : Action HandleId := fun w =>
  match w.store.registers.lookup id with
  | some h => (.done h, w)
  | none => (.raised (.unsuited ("no register " ++ id)), w)

def add (handle : Handle) : Action HandleId :=
  update fun s => (s.grammar.size, { s with grammar := s.grammar.add handle })

def make (node : Node) : Action HandleId :=
  update fun s => (s.grammar.size, { s with grammar := s.grammar.addNode node })

def makeValue (t : Template) : Action Value := update fun s => s.makeValue t

def define (h other : HandleId) : Action Unit := fun w =>
  match w.store.grammar.define h other with
  | .error fault => (.raised fault, w)
  | .ok grammar =>
    let handle := grammar.get h
    let kind := (handle.body?.map (·.node.kind)).getD ""
    log (.defined handle.name kind) { w with store := { w.store with grammar := grammar } }

def stop : Stop → Action Unit
  | .fault message => Proc.raise (.requested message)
  | .abort message => Proc.abort message

end Action

end Peg
