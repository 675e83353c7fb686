import Peg.Config
import Peg.World

/-!
Runs. A run applies a handle to a cursor. It changes the store through callbacks, it counts the
nesting of its parsers in a guard, and it keeps a journal of what it did. All that is seen of a run
can be read off its journal.

What the callbacks do is a parameter, a `Meaning`.
-/

namespace Peg

structure Meaning where
  release : Release → Value → Callback Unit
  fold : Fold → List Value → Callback Value
  apply : Func → Value → Callback Value

/-- An entry in the journal of a run, with the depth of the guard at that moment. A callback is
entered when it has ended, with the events it caused. -/
inductive Entry where
  /-- The guard let a handle in, and its node was started. -/
  | entered (h : HandleId) (node : Node) (pos : Nat) (depth : Int)
  /-- The handle that was entered last and is still open came to its end. -/
  | left (h : HandleId) (ending : Ending Result) (depth : Int)
  | refused (h : HandleId) (pos : Nat) (depth : Int)
  | missing (h : HandleId) (fault : Fault) (depth : Int)
  | released (release : Release) (value : Value) (ending : Ending Unit) (events : List Event)
      (depth : Int)
  | folded (fold : Fold) (values : List Value) (ending : Ending Value) (events : List Event)
      (depth : Int)
  | applied (func : Func) (value : Value) (ending : Ending Value) (events : List Event)
      (depth : Int)
  /-- The run was traced, and wrote to the log. -/
  | logged (record : Record)

def Entry.events : Entry → List Event
  | .released _ _ _ events _ | .folded _ _ _ events _ | .applied _ _ _ events _ => events
  | .logged record => [.logged record]
  | _ => []

/-- A run at some moment: its journal has the latest entry first. -/
structure Run where
  store : Store
  guard : Guard
  journal : List Entry

namespace Run

def record (s : Run) (e : Entry) : Run := { s with journal := e :: s.journal }

def events (s : Run) : List Event := s.journal.reverse.flatMap Entry.events

def leave (s : Run) (w : World) : World := ⟨s.store, s.events.reverse ++ w.events⟩

/-- A callback at work, entered into the journal with what came of it. -/
def callback {α : Type} (entry : Ending α → List Event → Int → Entry) (work : Callback α) :
    Proc Run α := fun s =>
  let e := work s.store
  (e.ending, { s with store := e.store }.record (entry e.ending e.events s.guard.depth))

def log (record : Store → Record) : Proc Run Unit := fun s =>
  (.done (), s.record (.logged (record s.store)))

end Run

abbrev Parse := Cursor → Proc Run Result

end Peg
