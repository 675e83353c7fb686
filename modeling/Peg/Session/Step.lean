import Peg.Session.Recipe

/-!
Sessions: grammars built, changed, run and looked at step by step. A step that ends early keeps what
it did until then, and the session goes on with the next.
-/

namespace Peg

structure Settings where
  maxDepth : Option Int := none
  trace : Option Bool := none
  sourceName : Option String := none
deriving Inhabited

def Settings.config (s : Settings) : Except Fault Config :=
  Config.make (s.maxDepth.getD defaultMaxDepth) (s.trace.getD false) (s.sourceName.getD "")

structure Watch where
  call : Option Nat := none
  delete : Option String := none
  stop : Option Stop := none
deriving Inhabited

inductive Step where
  | assign (id : String) (p : Recipe)
  | parse (p : Recipe) (text : String) (settings : Option Settings) (save : Option String)
  | run (p : Recipe) (text : String) (settings : Option Settings)
  | context (id : String) (settings : Option Settings)
  | call (p : Recipe) (text : String) (pos : Int) (context : Option String)
  | depth (context : String)
  | same (a b : String)
  | define (id : String) (p : Recipe)
  | delete (ids : List String) (watch : Option Watch)
  | describe (p : Recipe)
  | walk (ids : List String)
  | openWalk (id : String) (ids : List String)
  | nextOfWalk (id : String) (n : Nat)
  | states (ids : List String)
  | rename (id name : String)
  | sameNode (a b : String)
  | fold (fold : Fold) (values : List Template)

structure HandleView where
  owners : List String
  shown : String
deriving DecidableEq, Inhabited, Repr

structure StateView where
  shown : String
  name : String
  defined : Bool
  deleted : Bool
deriving DecidableEq, Inhabited, Repr

inductive Answer where
  | null
  | shown (text : String)
  | result (r : Result)
  | outcome (o : Value ⊕ Diagnostic)
  | number (n : Int)
  | flag (b : Bool)
  | handles (views : List HandleView)
  | states (views : List StateView)
  | value (v : Value)

def Result.same : Result → Result → Bool
  | .success v c, .success w d => v.same w && c == d
  | .failure f, .failure g => f.expected.items == g.expected.items && f.position == g.position
  | _, _ => false

structure Session where
  logging : Bool := false
  bench : Workbench := {}
  saved : List (String × Result) := []
  contexts : List (String × Context) := []
  walks : List (String × Walk) := []

def assigned {α : Type} (l : List (String × α)) (key : String) (a : α) : List (String × α) :=
  (key, a) :: l.filter (·.1 != key)

namespace Session

def act {α : Type} (action : Action α) : Proc Session α :=
  Proc.onPart Session.bench (fun b s => { s with bench := b }) (Workbench.act action)

def handle (p : Recipe) : Proc Session HandleId := do
  let operand ← Proc.onPart Session.bench (fun b s => { s with bench := b }) p.evaluate
  act operand.handle

def config : Option Settings → Proc Session Config
  | none => return Config.standard
  | some settings => Proc.ofExcept settings.config

def kept {α : Type} (part : Session → List (String × α)) (name : String) : Proc Session α :=
  fun s =>
    match (part s).lookup name with
    | some a => (.done a, s)
    | none => (.raised (.unsuited ("nothing is named " ++ name)), s)

def registers (ids : List String) : Proc Session (List HandleId) :=
  act (ids.mapM Action.register)

def view (s : Store) (h : HandleId) : HandleView := ⟨s.owners h, s.shown h⟩

def views (hs : List HandleId) : Proc Session Answer :=
  act (Action.read fun s => .handles (hs.map (view s)))

def stateView (s : Store) (h : HandleId) : StateView :=
  let handle := s.grammar.get h
  ⟨handle.shown, handle.name, handle.isDefined, handle.isDeleted⟩

def shown (h : HandleId) : Proc Session Answer := act (Action.read fun s => .shown (s.shown h))

def watcher (watch : Watch) : Action Watcher := do
  let deletes ← watch.delete.toList.mapM Action.register
  return fun call => if watch.call = some call then ⟨deletes, watch.stop⟩ else {}

def perform : Step → Proc Session Answer
  | .assign id p => do
    let h ← handle p
    act (Action.update fun s => ((), s.assign id h))
    shown h
  | .parse p text settings save => do
    let h ← handle p
    let config ← config settings
    let r ← act (Meaning.usual.parse h text config)
    match save with
    | none => return .result r
    | some name =>
      Proc.modify fun s => { s with saved := assigned s.saved name r }
      return .result r
  | .run p text settings => do
    let h ← handle p
    let config ← config settings
    return .outcome (← act (Meaning.usual.runParser h text config))
  | .context id settings => do
    let ctx := Context.fresh (← config settings)
    Proc.modify fun s => { s with contexts := assigned s.contexts id ctx }
    return .number ctx.guard.depth
  | .call p text pos context => do
    let h ← handle p
    let cursor ← Proc.ofExcept (Cursor.ofPos (Input.ofString text) pos)
    match context with
    | none => return .result (← act (Meaning.usual.callAction (.fresh Config.standard) h cursor))
    | some id => do
      let ctx ← kept Session.contexts id
      fun s =>
        match Meaning.usual.call ctx h cursor s.bench.world.store with
        | (ending, run) =>
          (ending.map .result,
            { s with
              bench := { s.bench with world := run.leave s.bench.world }
              contexts := assigned s.contexts id { ctx with guard := run.guard } })
  | .depth context => do return .number (← kept Session.contexts context).guard.depth
  | .same a b => do
    let r ← kept Session.saved a
    let q ← kept Session.saved b
    return .flag (a == b || r.same q)
  | .define id p => do
    let h ← act (Action.register id)
    let other ← handle p
    act (Action.define h other)
    shown h
  | .delete ids none => do
    let roots ← registers ids
    return .number (← act (Action.deleteAll roots))
  | .delete ids (some watch) => do
    let roots ← registers ids
    let watcher ← act (watcher watch)
    return .number (← act (Action.deleteAllTelling watcher roots))
  | .describe p => do
    let h ← handle p
    act (Action.read fun s => .shown (s.grammar.describe h))
  | .walk ids => do
    let roots ← registers ids
    views (← act (Action.read fun s => s.grammar.walk roots))
  | .openWalk id ids => do
    let roots ← registers ids
    Proc.modify fun s => { s with walks := assigned s.walks id (.ofRoots roots) }
    return .null
  | .nextOfWalk id n => do
    let walk ← kept Session.walks id
    let (hs, walk) ← act (Action.read fun s => walk.take s.grammar n)
    Proc.modify fun s => { s with walks := assigned s.walks id walk }
    views hs
  | .states ids => do
    let hs ← registers ids
    act (Action.read fun s => .states (hs.map (stateView s)))
  | .rename id name => do
    let h ← act (Action.register id)
    act (Action.update fun s => ((), { s with grammar := s.grammar.rename h name }))
    shown h
  | .sameNode a b => do
    let h ← act (Action.register a)
    let k ← act (Action.register b)
    act (Action.read fun s => .flag (s.grammar.sameBody h k))
  | .fold fold values => do
    let vs ← act (values.mapM Action.makeValue)
    return .value (← act (Standard.fold Operator.apply fold vs))

/-- What a step yields and what was seen of it, the earliest event first. -/
structure Report where
  ending : Ending Answer
  events : List Event

/-- Takes one step. The log is among the events only if it is kept. -/
def step (s : Session) (step : Step) : Report × Session :=
  let (ending, s) := perform step s
  let world := s.bench.world
  let events := world.events.reverse.filter fun e => s.logging || !e.isLogged
  (⟨ending, events⟩, { s with bench := { s.bench with world := { world with events := [] } } })

def steps (s : Session) : List Step → List Report
  | [] => []
  | first :: rest =>
    let (report, s) := s.step first
    report :: s.steps rest

def script (logging : Bool) (list : List Step) : List Report :=
  steps { logging := logging } list

end Session

end Peg
