import Peg.Proofs.Lifecycle.Building
import Peg.Proofs.Run.Simulation

namespace Peg

def Run.after (before : List Entry) (s : Run) : Run := { s with journal := s.journal ++ before }

namespace Run

variable {before : List Entry}

@[simp] theorem store_after (s : Run) : (s.after before).store = s.store := rfl

@[simp] theorem guard_after (s : Run) : (s.after before).guard = s.guard := rfl

theorem eq_after (s : Run) : s = Run.after s.journal ⟨s.store, s.guard, []⟩ := rfl

theorem opened_after (s : Run) (trace : Bool) (h : HandleId) (node : Node) (c : Cursor)
    (g : Guard) :
    (s.opened trace h node c g).after before = (s.after before).opened trace h node c g := by
  cases trace <;> rfl

theorem closed_after (s : Run) (trace : Bool) (h : HandleId) (c : Cursor)
    (ending : Ending Result) :
    (s.closed trace h c ending).after before = (s.after before).closed trace h c ending := by
  rcases trace with _ | _ <;> rcases ending with (_ | _) | _ | _ <;> rfl

theorem caused_after (s : Run) :
    (s.after before).caused = before.reverse.flatMap Entry.caused ++ s.caused := by
  simp [caused, after]

theorem caused_record (s : Run) (e : Entry) : (s.record e).caused = s.caused ++ e.caused := by
  simp [caused, record]

theorem caused_opened (s : Run) (trace : Bool) (h : HandleId) (node : Node) (c : Cursor)
    (g : Guard) : (s.opened trace h node c g).caused = s.caused := by
  cases trace <;> simp [opened, caused, record, Entry.caused, Entry.events]

theorem caused_closed (s : Run) (trace : Bool) (h : HandleId) (c : Cursor)
    (ending : Ending Result) : (s.closed trace h c ending).caused = s.caused := by
  obtain ⟨s', rfl | ⟨record, rfl⟩, closed⟩ := s.closed_cases trace h c ending <;>
    simp [closed, caused, Run.record, Entry.caused, Entry.events]

def within (run : Run) (ctx : Context) (h : HandleId) (node : Node) (c : Cursor) (s : Store)
    (g : Guard) (ending : Ending Result) : Run :=
  (run.after (opened ⟨s, ctx.guard, []⟩ ctx.config.trace h node c g).journal).closed
    ctx.config.trace h c ending

section

variable (run : Run) (ctx : Context) (h : HandleId) (node : Node) (c : Cursor) (s : Store)
  (g : Guard) (ending : Ending Result)

@[simp] theorem store_within : (run.within ctx h node c s g ending).store = run.store := by
  rw [within, store_closed, store_after]

@[simp] theorem guard_within : (run.within ctx h node c s g ending).guard = run.guard.exit := by
  rw [within, guard_closed, guard_after]

@[simp] theorem caused_within : (run.within ctx h node c s g ending).caused = run.caused := by
  have opening := caused_opened ⟨s, ctx.guard, []⟩ ctx.config.trace h node c g
  rw [within, caused_closed, caused_after]
  simp only [caused] at opening ⊢
  rw [opening]
  rfl

end

end Run

namespace Meaning

variable {m : Meaning} {trace : Bool} {before : List Entry}

theorem views_after (m : Meaning) (trace : Bool) (before : List Entry) :
    Views m m trace trace (fun _ => True) (fun _ => True) (Run.after before) where
  before _ _ := trivial
  store _ := rfl
  missing _ _ _ := ⟨trivial, rfl⟩
  refused _ _ _ _ enter _ := ⟨enter, trivial, rfl⟩
  opened _ _ _ _ _ enter := ⟨_, enter, trivial, Run.opened_after ..⟩
  closed _ _ _ _ := ⟨trivial, Run.closed_after ..⟩
  release _ work _ := by
    cases work
    exact ⟨rfl, trivial⟩
  fold _ work _ := by
    cases work
    exact ⟨rfl, trivial⟩
  apply _ work _ := by
    cases work
    exact ⟨rfl, trivial⟩

theorem Ran.body_after {node : Node} {c : Cursor} {s s' : Run} {ending : Ending Result}
    (ran : m.Ran trace (.body node) c s ending s') (before : List Entry) :
    m.Ran trace (.body node) c (s.after before) ending (s'.after before) := by
  have nodes : node.Alike Eq Eq node := Node.alike_refl (fun _ _ => rfl) fun _ => rfl
  obtain ⟨ending', t', ran', alike, _, rfl⟩ := (views_after m trace before).simulates.ran ran
    (.body nodes node.calls_all) rfl ⟨trivial, rfl⟩ trivial
  rwa [Pairing.eq_of_same alike] at ran'

theorem Ran.call_after {h : HandleId} {c : Cursor} {s s' : Run} {ending : Ending Result}
    (ran : m.Ran trace (.call h) c s ending s') (before : List Entry) :
    m.Ran trace (.call h) c (s.after before) ending (s'.after before) := by
  obtain ⟨ending', t', ran', alike, _, rfl⟩ := (views_after m trace before).simulates.ran ran
    (.call rfl) rfl ⟨trivial, rfl⟩ trivial
  rwa [Pairing.eq_of_same alike] at ran'

theorem Ran.call_eq (ctx : Context) {h : HandleId} {c : Cursor} {s s' : Run}
    {ending : Ending Result} (guard : s.guard = ctx.guard)
    (ran : m.Ran ctx.config.trace (.call h) c s ending s') :
    ∃ run, m.call ctx h c s.store = (ending, run) ∧ s' = run.after s.journal := by
  have alone := (ran_call (m := m) ctx h c s.store).call_after s.journal
  rw [← guard, ← Run.eq_after] at alone
  obtain ⟨rfl, rfl⟩ := ran.unique alone
  exact ⟨_, rfl, rfl⟩

theorem exists_ran_body (m : Meaning) (trace : Bool) (node : Node) (c : Cursor) (s : Run) :
    ∃ ending s', m.Ran trace (.body node) c s ending s' := by
  have follows : Parse.Follows m trace s.guard (m.callAt trace s.guard.room) :=
    fun h d t guard => ran_callAt _ h d t (by rw [guard])
  exact ⟨_, _, ran_node follows node c rfl⟩

/-- A call that is let in is what its node does by itself, with the call around it. -/
theorem call_of_body {ctx : Context} {h : HandleId} {c : Cursor} {s : Store} {node : Node}
    (holds : s.grammar.Holds h node) {g : Guard} (enter : ctx.guard.enter = .ok g)
    {ending : Ending Result} {run : Run}
    (ran : m.Ran ctx.config.trace (.body node) c ⟨s, g, []⟩ ending run) :
    m.call ctx h c s = (ending, run.within ctx h node c s g ending) := by
  obtain ⟨body, status, rfl⟩ := holds
  let before := (Run.opened ⟨s, ctx.guard, []⟩ ctx.config.trace h body.node c g).journal
  have opened : Run.opened ⟨s, ctx.guard, []⟩ ctx.config.trace h body.node c g =
      Run.after before ⟨s, g, []⟩ := by
    cases traced : ctx.config.trace <;> simp only [before, traced] <;> rfl
  have inside := ran.body_after before
  rw [← opened] at inside
  obtain ⟨same, same'⟩ := (ran_call ctx h c s).unique (.entered status enter inside)
  exact Prod.ext same same'

theorem call_cases (m : Meaning) (ctx : Context) {h : HandleId} (c : Cursor) {s : Store}
    {node : Node} (holds : s.grammar.Holds h node) :
    (∃ fault, ctx.guard.enter = .error fault ∧ m.call ctx h c s =
      (.raised fault, Run.record ⟨s, ctx.guard, []⟩ (.refused h c.pos ctx.guard.depth))) ∨
    ∃ g ending run, ctx.guard.enter = .ok g ∧
      m.Ran ctx.config.trace (.body node) c ⟨s, g, []⟩ ending run ∧
      m.call ctx h c s = (ending, run.within ctx h node c s g ending) := by
  rcases enter : ctx.guard.enter with fault | g
  · obtain ⟨body, status, rfl⟩ := holds
    have refused : m.Ran ctx.config.trace (.call h) c ⟨s, ctx.guard, []⟩ _ _ :=
      .refused status enter
    obtain ⟨same, same'⟩ := (ran_call ctx h c s).unique refused
    exact .inl ⟨fault, rfl, Prod.ext same same'⟩
  · obtain ⟨ending, run, ran⟩ := exists_ran_body m ctx.config.trace node c ⟨s, g, []⟩
    exact .inr ⟨g, ending, run, rfl, ran, call_of_body holds enter ran⟩

theorem runFold_after {fold : Fold} {vs : List Value} {s s' : Run} {ending : Ending Value}
    (work : m.runFold fold vs s = (ending, s')) (before : List Entry) :
    m.runFold fold vs (s.after before) = (ending, s'.after before) := by
  cases work
  rfl

section

variable {held : Held} {fault : Fault} {f : Failure} {s s' : Run} {ending : Ending Result}

theorem unwind_after (pass : m.unwind held fault s = (ending, s')) (before : List Entry) :
    m.unwind held fault (s.after before) = (ending, s'.after before) := by
  obtain ⟨t', pass', _, _, rfl⟩ := (views_after m false before).simulates.unwind
    (fun _ _ _ _ => trivial) ⟨trivial, rfl⟩ pass trivial
  exact pass'

theorem giveUp_after (pass : m.giveUp held f s = (ending, s')) (before : List Entry) :
    m.giveUp held f (s.after before) = (ending, s'.after before) := by
  obtain ⟨_, t', pass', alike, _, rfl⟩ := (views_after m false before).simulates.giveUp
    (fun _ _ _ _ => trivial) rfl ⟨trivial, rfl⟩ pass trivial
  rwa [Pairing.eq_of_same alike] at pass'

end

end Meaning

end Peg
