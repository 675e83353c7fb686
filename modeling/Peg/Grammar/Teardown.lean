import Peg.Grammar.Walk
import Peg.World

/-!
Teardown: everything that can be reached from some roots loses its node for good, in one walk.
Handles torn down before are passed over, so that overlapping grammars can be torn down one after
another. A watcher is told of each handle, after it was torn down; it may tear down further grammars
and it may stop the teardown there and then.
-/

namespace Peg

structure Reaction where
  /-- What it tears down, without a watcher of its own. -/
  deletes : List HandleId := []
  stop : Option Stop := none
deriving Inhabited

abbrev Watcher := Nat → Reaction

namespace Action

def tear (h : HandleId) : Action Unit :=
  update fun s => ((), { s with grammar := s.grammar.tear h })

/-- Tears down what a walk comes to, in at most so many steps of the walk, `told` being run after
each handle. Yields the number of handles torn down, `count` of them before. -/
def tearFrom (told : Nat → HandleId → Action Unit) : Nat → Walk → Nat → Action Nat
  | 0, _, count => return count
  | steps + 1, walk, count => fun w =>
    match walk.next? w.store.grammar with
    | none => (.done count, w)
    | some (h, walk) =>
      if (w.store.grammar.get h).isDeleted then tearFrom told steps walk count w
      else
        Proc.andThen (tear h)
          (fun _ => Proc.andThen (told (count + 1) h)
            (fun _ => tearFrom told steps walk (count + 1))) w

def tearDown (told : Nat → HandleId → Action Unit) (roots : List HandleId) : Action Nat := do
  -- Enough as long as no handle is made on the way: see `Action.tearDown_unbounded`.
  let steps ← read fun s => s.grammar.reach roots
  let count ← tearFrom told steps (.ofRoots roots) 0
  log (.tornDown count)
  return count

def deleteAll (roots : List HandleId) : Action Nat := tearDown (fun _ _ => pure ()) roots

def deleteInside (h : HandleId) : Action Unit := do note (.deleted (← deleteAll [h]))

def tell (watcher : Watcher) (call : Nat) (h : HandleId) : Action Unit := do
  note (← read fun s => .torn h (s.owners h) (s.shown h))
  (watcher call).deletes.forM deleteInside
  (watcher call).stop.forM stop

def deleteAllTelling (watcher : Watcher) (roots : List HandleId) : Action Nat :=
  tearDown (tell watcher) roots

end Action

end Peg
