import Mathlib
import Peg.Proofs.Diagnosis
import Peg.Proofs.Run.Simulation
import Peg.Proofs.Run.Stores

/-!
Tracing. A run that is traced writes to the log and does nothing else that it would not do
otherwise. What it writes is bracketed: a call that was let in says so before all that happens in
it, and if it comes to a result it says which after all that happened in it.
-/

namespace Peg

def Entry.isLogged : Entry → Bool
  | .logged _ => true
  | _ => false

/-- A run without what it wrote to the log. -/
def Run.untraced (s : Run) : Run := { s with journal := s.journal.filter fun e => !e.isLogged }

namespace Run

theorem untraced_opened (s : Run) (h : HandleId) (node : Node) (c : Cursor) (g : Guard) :
    (s.opened true h node c g).untraced = s.untraced.opened false h node c g := rfl

theorem untraced_closed (s : Run) (h : HandleId) (c : Cursor) (ending : Ending Result) :
    (s.closed true h c ending).untraced = s.untraced.closed false h c ending := by
  rcases ending with (_ | _) | _ | _ <;> rfl

theorem caused_untraced (s : Run) : s.untraced.caused = s.caused := by
  simp only [caused, untraced, ← List.filter_reverse]
  induction s.journal.reverse with
  | nil => rfl
  | cons e told ih =>
    cases e with
    | logged => exact ih
    | _ => exact congrArg (List.append _) ih

end Run

namespace Meaning

theorem views_untraced (m : Meaning) :
    Views m m true false (fun _ => True) (fun _ => True) Run.untraced where
  before _ _ := trivial
  store _ := rfl
  missing _ _ _ := ⟨trivial, rfl⟩
  refused _ _ _ _ enter _ := ⟨enter, trivial, rfl⟩
  opened _ _ _ _ _ enter := ⟨_, enter, trivial, Run.untraced_opened ..⟩
  closed _ _ _ _ := ⟨trivial, Run.untraced_closed ..⟩
  release _ work _ := by
    cases work
    exact ⟨rfl, trivial⟩
  fold _ work _ := by
    cases work
    exact ⟨rfl, trivial⟩
  apply _ work _ := by
    cases work
    exact ⟨rfl, trivial⟩

end Meaning

/-- A result does not lie before a place. -/
def Ending.From (pos : Nat) (ending : Ending Result) : Prop :=
  (∀ v next, ending = .done (.success v next) → pos ≤ next.pos) ∧
    ∀ f, ending = .done (.failure f) → (pos : Int) ≤ f.position

/-- What a traced call that was let in at a place writes when it ends. -/
def closing (handle : Handle) (pos : Nat) : Ending Result → List Entry
  | .done (.success _ next) => [.logged (.matched handle pos next.pos)]
  | .done (.failure f) => [.logged (.failed handle f.position)]
  | _ => []

mutual

/-- What a traced call of a handle at a place tells, in the order in which it happens, and the store
it leaves. A handle that has no node or that the guard refuses writes nothing to the log. One that
is let in sets out once, before all that happens in it, and tells of its result, if it comes to
one, after all that happened in it. Each time it stands in the log as it was at that moment. -/
inductive Called (m : Meaning) :
    HandleId → Nat → Guard → Store → Ending Result → List Entry → Store → Prop where
  | missing {h pos g s fault} : (s.grammar.get h).fault? = some fault →
      Called m h pos g s (.raised fault) [.missing h fault g.depth] s
  | refused {h pos g s body fault} : (s.grammar.get h).status = .defined body →
      g.enter = .error fault → Called m h pos g s (.raised fault) [.refused h pos g.depth] s
  | entered {h pos g g' s s' body ending inside} : (s.grammar.get h).status = .defined body →
      g.enter = .ok g' → Bracketed m g' s inside s' → Ending.From pos ending →
      Called m h pos g s ending
        (.entered h body.node pos g'.depth :: .logged (.trying (s.grammar.get h) pos) ::
          (inside ++ (closing (s'.grammar.get h) pos ending ++ [.left h ending g.depth]))) s'

/-- What a traced part of a run tells, under a guard: callbacks and calls, one after another. -/
inductive Bracketed (m : Meaning) : Guard → Store → List Entry → Store → Prop where
  | nil {g s} : Bracketed m g s [] s
  | callback {g s} {e : Entry} : e.IsCallback → e.Tells m s →
      Bracketed m g s [e] (e.after m s)
  | call {h pos g s ending told s'} : Called m h pos g s ending told s' →
      Bracketed m g s told s'
  | append {g s s₁ s' told told'} : Bracketed m g s told s₁ → Bracketed m g s₁ told' s' →
      Bracketed m g s (told ++ told') s'

end

namespace Run

def Calls (m : Meaning) (h : HandleId) (pos : Nat) (s : Run) (ending : Ending Result) (s' : Run) :
    Prop :=
  s'.guard = s.guard ∧ ∃ told, s'.journal = told.reverse ++ s.journal ∧
    Called m h pos s.guard s.store ending told s'.store

def Brackets (m : Meaning) (s s' : Run) : Prop :=
  s'.guard = s.guard ∧ ∃ told, s'.journal = told.reverse ++ s.journal ∧
    Bracketed m s.guard s.store told s'.store

variable {m : Meaning} {s s₁ s' : Run} {h : HandleId} {body : Body} {c : Cursor} {g : Guard}
  {fault : Fault} {ending : Ending Result}

theorem Brackets.trans (first : s.Brackets m s₁) (second : s₁.Brackets m s') : s.Brackets m s' := by
  obtain ⟨guard, told, journal, bracketed⟩ := first
  obtain ⟨guard', told', journal', bracketed'⟩ := second
  rw [guard] at bracketed'
  refine ⟨guard'.trans guard, told ++ told', ?_, bracketed.append bracketed'⟩
  rw [journal', journal, List.reverse_append, List.append_assoc]

theorem Brackets.callback {e : Entry} (store : s₁.store = e.after m s.store)
    (guard : s₁.guard = s.guard) (journal : s₁.journal = e :: s.journal) (callback : e.IsCallback)
    (tells : e.Tells m s.store) : s.Brackets m s₁ :=
  ⟨guard, [e], journal, store ▸ .callback callback tells⟩

theorem Calls.brackets {pos : Nat} (calls : s.Calls m h pos ending s') : s.Brackets m s' := by
  obtain ⟨guard, told, journal, called⟩ := calls
  exact ⟨guard, told, journal, .call called⟩

theorem calls_missing (pos : Nat) (missing : (s.store.grammar.get h).fault? = some fault) :
    s.Calls m h pos (.raised fault) (s.record (.missing h fault s.guard.depth)) :=
  ⟨rfl, [_], rfl, .missing missing⟩

theorem calls_refused (pos : Nat) (status : (s.store.grammar.get h).status = .defined body)
    (enter : s.guard.enter = .error fault) :
    s.Calls m h pos (.raised fault) (s.record (.refused h pos s.guard.depth)) :=
  ⟨rfl, [_], rfl, .refused status enter⟩

theorem journal_closed (s : Run) (h : HandleId) (c : Cursor) (ending : Ending Result) :
    (s.closed true h c ending).journal = .left h ending s.guard.exit.depth ::
      ((closing (s.store.grammar.get h) c.pos ending).reverse ++ s.journal) := by
  rcases ending with (_ | _) | _ | _ <;> rfl

theorem Brackets.calls (status : (s.store.grammar.get h).status = .defined body)
    (enter : s.guard.enter = .ok g) (inside : (s.opened true h body.node c g).Brackets m s')
    (ahead : ending.From c.pos) : s.Calls m h c.pos ending (s'.closed true h c ending) := by
  obtain ⟨guard, told, journal, bracketed⟩ := inside
  rw [guard_opened] at guard bracketed
  rw [store_opened] at bracketed
  have back : s'.guard.exit = s.guard := by rw [guard, Guard.exit_of_enter enter]
  have called := Called.entered status enter bracketed ahead
  refine ⟨by rw [guard_closed, back], _, ?_, by rwa [store_closed]⟩
  rw [journal_closed, journal, back]
  simp [opened, record]

end Run

namespace Meaning

variable {m : Meaning}

theorem Ran.from_start {h : HandleId} {node : Node} {c : Cursor} {s s' : Run} {g : Guard}
    {trace : Bool} {ending : Ending Result}
    (ran : m.Ran trace (.body node) c (s.opened trace h node c g) ending s') :
    ending.From c.pos := by
  constructor
  · rintro v next rfl
    exact ran.reaches.2
  · rintro f rfl
    exact (ran.sound (s.entered_opened trace h node c g)).start_le

theorem spans_brackets (m : Meaning) : m.Spans true fun s _ s' => s.Brackets m s' where
  done _ := ⟨rfl, [], rfl, .nil⟩
  next := Run.Brackets.trans
  resumed := Run.Brackets.trans
  replaced first second _ := first.trans second
  missing missing := (Run.calls_missing 0 missing).brackets
  refused status enter := (Run.calls_refused _ status enter).brackets
  entered status enter ran inside := (inside.calls status enter ran.from_start).brackets
  release h := by
    cases h
    exact .callback rfl rfl rfl trivial ⟨rfl, rfl⟩
  fold h := by
    cases h
    exact .callback rfl rfl rfl trivial ⟨rfl, rfl⟩
  apply h := by
    cases h
    exact .callback rfl rfl rfl trivial ⟨rfl, rfl⟩

/-- A call is one of the three that there are, whether or not it comes to a result. -/
theorem Ran.calls {h : HandleId} {c : Cursor} {s s' : Run} {ending : Ending Result}
    (ran : m.Ran true (.call h) c s ending s') : s.Calls m h c.pos ending s' := by
  cases ran with
  | missing missing => exact Run.calls_missing c.pos missing
  | refused status enter => exact Run.calls_refused c.pos status enter
  | entered status enter ran =>
    exact ((spans_brackets m).ran ran).calls status enter ran.from_start

end Meaning

def Context.tracing (trace : Bool) (ctx : Context) : Context :=
  { ctx with config := { ctx.config with trace := trace } }

/-- A run that is traced comes to the same end as one that is not, with the same store and the same
journal but for what it wrote to the log, and callbacks cause the same events in it. What it tells,
from the start on, is what a traced call of this handle tells that comes to this end. -/
theorem Meaning.call_tracing (m : Meaning) (ctx : Context) (h : HandleId) (c : Cursor) (s : Store) :
    (m.call (ctx.tracing false) h c s).1 = (m.call (ctx.tracing true) h c s).1 ∧
    (m.call (ctx.tracing false) h c s).2 = (m.call (ctx.tracing true) h c s).2.untraced ∧
    (m.call (ctx.tracing false) h c s).2.store = (m.call (ctx.tracing true) h c s).2.store ∧
    (m.call (ctx.tracing false) h c s).2.events = (m.call (ctx.tracing true) h c s).2.caused ∧
    Called m h c.pos ctx.guard s (m.call (ctx.tracing true) h c s).1
      (m.call (ctx.tracing true) h c s).2.journal.reverse
      (m.call (ctx.tracing true) h c s).2.store := by
  have shown : m.call (ctx.tracing false) h c s =
      ((m.call (ctx.tracing true) h c s).1, (m.call (ctx.tracing true) h c s).2.untraced) :=
    (views_untraced m).call rfl rfl h c trivial rfl trivial
  obtain ⟨_, told, journal, called⟩ := Ran.calls (ran_call (m := m) (ctx.tracing true) h c s)
  rw [List.append_nil] at journal
  rw [events_of_untraced rfl, shown]
  refine ⟨rfl, rfl, rfl, Run.caused_untraced _, ?_⟩
  rw [journal, List.reverse_reverse]
  exact called

namespace Meaning

def halves : Store where
  grammar := ⟨#[{ status := .defined ⟨0, .choice 1 [2]⟩ },
    { status := .defined ⟨1, .literal "b"⟩ },
    { status := .defined ⟨2, .sequence .list [(3, none), (4, none)]⟩ },
    { status := .defined ⟨3, .literal "a"⟩ }, { name := "later" }]⟩

def halvesRun (ctx : Context) : Ending Result × Run :=
  usual.call (ctx.tracing true) 0 (.start #['a']) halves

/-- The first alternative fails. The second is stopped: by its second half, which has no node, or
under a lower limit by its first half, which the guard refuses. Neither of these writes to the log,
and what they stop writes no closing record. -/
theorem halves_tracing :
    Called usual 0 0 shallow.guard halves (halvesRun shallow).1
      (halvesRun shallow).2.journal.reverse (halvesRun shallow).2.store ∧
    (halvesRun shallow).1 = .raised (.undefined "later") ∧
    (halvesRun shallow).2.events =
      [.logged (.trying (halves.grammar.get 0) 0), .logged (.trying (halves.grammar.get 1) 0),
        .logged (.failed (halves.grammar.get 1) 0), .logged (.trying (halves.grammar.get 2) 0),
        .logged (.trying (halves.grammar.get 3) 0),
        .logged (.matched (halves.grammar.get 3) 0 1)] ∧
    Called usual 0 0 tight.guard halves (halvesRun tight).1 (halvesRun tight).2.journal.reverse
      (halvesRun tight).2.store ∧
    (halvesRun tight).1 = .raised (.depthLimit 2) ∧
    (halvesRun tight).2.events =
      [.logged (.trying (halves.grammar.get 0) 0), .logged (.trying (halves.grammar.get 1) 0),
        .logged (.failed (halves.grammar.get 1) 0), .logged (.trying (halves.grammar.get 2) 0)] := by
  have called (ctx : Context) : Called usual 0 0 ctx.guard halves (halvesRun ctx).1
      (halvesRun ctx).2.journal.reverse (halvesRun ctx).2.store :=
    (call_tracing usual ctx 0 (.start #['a']) halves).2.2.2.2
  exact ⟨called shallow, by cbv, by cbv, called tight, by cbv, by cbv⟩

end Meaning

end Peg
