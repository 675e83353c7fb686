import Peg.Run.Basic

namespace Peg

namespace Parse

def succeed (v : Value) : Parse := fun c => return .success v c

def fail (label : String) : Parse := fun c => return .failure ⟨.singleton label, c.pos⟩

def literal (text : String) : Parse := fun c =>
  if c.startsWith text then do
    let c ← Proc.ofExcept (c.advance text.length)
    succeed (.text text) c
  else fail text c

def eof : Parse := fun c => if c.atEnd then succeed .null c else fail "end of input" c

def choiceFrom (child : HandleId → Parse) (c : Cursor) :
    Failure → List HandleId → Proc Run Result
  | failed, [] => return .failure failed
  | failed, h :: hs => do
    match ← child h c with
    | .success v next => return .success v next
    | .failure f => choiceFrom child c (failed.merge f) hs

def choice (child : HandleId → Parse) (first : HandleId) (others : List HandleId) : Parse :=
  fun c => do
    match ← child first c with
    | .success v next => return .success v next
    | .failure f => choiceFrom child c f others

def labelled (item : Parse) (label : String) : Parse := fun c => do
  match ← item c with
  | .success v next => return .success v next
  | .failure f => if f.position = c.pos then fail label c else return .failure f

end Parse

/-- Values together with what they are released by, in the order in which they were produced. -/
abbrev Held := List (Value × Option Release)

namespace Meaning

variable (m : Meaning)

def runRelease (r : Release) (v : Value) : Proc Run Unit :=
  Run.callback (.released r v) (m.release r v)

def runFold (f : Fold) (vs : List Value) : Proc Run Value :=
  Run.callback (.folded f vs) (m.fold f vs)

def runApply (f : Func) (v : Value) : Proc Run Value :=
  Run.callback (.applied f v) (m.apply f v)

def releaseAll : Held → Proc Run Unit
  | [] => return ()
  | (_, none) :: rest => releaseAll rest
  | (v, some r) :: rest => do
    m.runRelease r v
    releaseAll rest

/-- Runs `p` while values are held: an ordinary fault that leaves `p` releases them. -/
def holding {α : Type} (held : Held) (p : Proc Run α) : Proc Run α :=
  Proc.onFault p (m.releaseAll held)

/-- Gives up what is held and fails. A fault of a release here leaves while the values are held, as
any other does. -/
def giveUp (held : Held) (f : Failure) : Proc Run Result := do
  m.holding held (m.releaseAll held)
  return .failure f

/-- Folds what is held. A fault of the fold releases nothing: the values are the fold's by now. -/
def finish (fold : Fold) (held : Held) : Parse := fun c => do
  let v ← m.runFold fold (held.map (·.1))
  return .success v c

/-- The items left to run while the values of those before are held. -/
def sequenceFrom (child : HandleId → Parse) (fold : Fold) :
    List (HandleId × Option Release) → Held → Parse
  | [], held, c => m.finish fold held c
  | (h, r) :: items, held, c => do
    match ← m.holding held (child h c) with
    | .failure f => m.giveUp held f
    | .success v next => sequenceFrom child fold items (held ++ [(v, r)]) next

/-- A repetition under way, with `turns` turns left. An unbounded one stops after a turn that did
not move. -/
def repeatFrom (item : Parse) (fold : Fold) (least : Int) (bounded : Bool)
    (release : Option Release) : Nat → Held → Parse
  | 0, held, c => m.finish fold held c
  | turns + 1, held, c => do
    match ← m.holding held (item c) with
    | .failure f => if held.length < least then m.giveUp held f else m.finish fold held c
    | .success v next =>
      let held := held ++ [(v, release)]
      if !bounded && next.pos == c.pos then m.finish fold held next
      else repeatFrom item fold least bounded release turns held next

/-- How many turns a repetition can take from a cursor: as many as its bound says, and without a
bound one for each character left and one that does not move. -/
def turns (most : Option Int) (c : Cursor) : Nat :=
  match most with
  | some n => n.toNat
  | none => c.input.size - c.pos + 1

def applied (item : Parse) (func : Func) : Parse := fun c => do
  match ← item c with
  | .failure f => return .failure f
  | .success v next => do
    let w ← m.runApply func v
    return .success w next

def node (child : HandleId → Parse) : Node → Parse
  | .literal text => Parse.literal text
  | .pure v => Parse.succeed v
  | .fail message => Parse.fail message
  | .eof => Parse.eof
  | .choice first others => Parse.choice child first others
  | .sequence fold items => m.sequenceFrom child fold items []
  | .repetition fold item least most release => fun c =>
    m.repeatFrom (child item) fold least most.isSome release (turns most c) [] c
  | .apply item func => m.applied (child item) func
  | .expect item label => Parse.labelled (child item) label

end Meaning

end Peg
