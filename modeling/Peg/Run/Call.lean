import Peg.Run.Node

/-!
Calls of handles. A call looks its node up, passes the guard, runs the node and comes back through
the guard, however the node ends.
-/

namespace Peg

namespace Parse

/-- Writes to the log how a parser sets out and how it comes back with a result, if the run is
traced. -/
def traced (trace : Bool) (h : HandleId) (p : Parse) : Parse := fun c =>
  if trace then do
    Run.log fun s => .trying (s.grammar.get h) c.pos
    let r ← p c
    Run.log fun s =>
      match r with
      | .success _ next => .matched (s.grammar.get h) c.pos next.pos
      | .failure f => .failed (s.grammar.get h) f.position
    return r
  else p c

/-- Goes through the guard for a node and comes back out. -/
def guarded (h : HandleId) (node : Node) (p : Parse) : Parse := fun c s =>
  match s.guard.enter with
  | .error fault => (.raised fault, s.record (.refused h c.pos s.guard.depth))
  | .ok guard =>
    match p c ({ s with guard := guard }.record (.entered h node c.pos guard.depth)) with
    | (ending, s) =>
      (ending, { s with guard := s.guard.exit }.record (.left h ending s.guard.exit.depth))

/-- Calls a handle, `body` being what a node does. -/
def visit (trace : Bool) (body : Node → Parse) (h : HandleId) : Parse := fun c s =>
  let handle := s.store.grammar.get h
  match handle.status with
  | .deleted =>
    let fault := .deleted handle.calling
    (.raised fault, s.record (.missing h fault s.guard.depth))
  | .undefined =>
    let fault := .undefined handle.name
    (.raised fault, s.record (.missing h fault s.guard.depth))
  | .defined found => guarded h found.node (traced trace h (body found.node)) c s

end Parse

namespace Meaning

variable (m : Meaning)

/-- Calls a handle where the guard has room for `levels` levels more. It is the guard that refuses
what goes deeper: where it has no room, the node is not reached. -/
def callAt (trace : Bool) : Nat → HandleId → Parse
  | 0 => Parse.visit trace fun _ _ => Proc.raise (.engine "the guard has no room")
  | levels + 1 => Parse.visit trace (m.node (callAt trace levels))

def call (ctx : Context) (h : HandleId) (c : Cursor) (s : Store) : Ending Result × Run :=
  m.callAt ctx.config.trace ctx.guard.room h c ⟨s, ctx.guard, []⟩

def callAction (ctx : Context) (h : HandleId) (c : Cursor) : Action Result := fun w =>
  match m.call ctx h c w.store with
  | (ending, run) => (ending, run.leave w)

end Meaning

end Peg
