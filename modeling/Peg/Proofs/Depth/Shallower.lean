import Peg.Proofs.Depth.Limit
import Peg.Proofs.Releasing.Passes
import Peg.Proofs.Run.After
import Peg.Proofs.Run.Stores

namespace Peg

namespace Guard

def lowered (levels : Nat) (g : Guard) : Guard := { g with depth := g.depth - levels }

variable {g g' : Guard} {levels : Nat}

@[simp] theorem lowered_zero (g : Guard) : g.lowered 0 = g := by simp [lowered]

theorem exit_lowered (g : Guard) (levels : Nat) :
    (g.lowered levels).exit = g.exit.lowered levels := by
  simp only [lowered, exit]
  congr 1
  omega

theorem lowered_exit (g : Guard) (levels : Nat) :
    g.exit.lowered levels = g.lowered (levels + 1) := by
  simp only [lowered, exit]
  congr 1
  omega

theorem enter_lowered (enter : g.enter = .ok g') (levels : Nat) :
    (g.lowered levels).enter = .ok (g'.lowered levels) := by
  obtain ⟨room, rfl⟩ := enter_eq_ok_iff.mp enter
  refine enter_eq_ok_iff.mpr ⟨?_, ?_⟩
  · simp only [lowered]
    omega
  · simp only [lowered]
    congr 1
    omega

end Guard

/-- Two runs come to the same, the second some levels less deep and refused nowhere. Their journals
tell the same of callbacks. -/
structure Run.Shallower (levels : Nat) (s t : Run) : Prop where
  store : t.store = s.store
  guard : t.guard = s.guard.lowered levels
  caused : t.caused = s.caused
  unrefused : Unrefused t.journal

namespace Run.Shallower

variable {levels : Nat} {s t : Run}

theorem record (pair : s.Shallower levels t) {store store' : Store} (same : store' = store)
    {e e' : Entry} (caused : e'.caused = e.caused)
    (entry : ∀ h pos depth, e' ≠ .refused h pos depth) :
    Run.Shallower levels (Run.record { s with store := store } e)
      (Run.record { t with store := store' } e') where
  store := same
  guard := pair.guard
  caused := by
    rw [caused_record, caused_record, caused]
    exact congrArg (· ++ e.caused) pair.caused
  unrefused := pair.unrefused.cons entry

theorem enter (pair : s.Shallower levels t) {g : Guard} (enter : s.guard.enter = .ok g) :
    t.guard.enter = .ok (g.lowered levels) :=
  pair.guard ▸ Guard.enter_lowered enter levels

theorem opened (pair : s.Shallower levels t) (trace : Bool) (h k : HandleId) (node node' : Node)
    (c : Cursor) (g : Guard) :
    (s.opened trace h node c g).Shallower levels
      (t.opened trace k node' c (g.lowered levels)) where
  store := by rw [store_opened, store_opened, pair.store]
  guard := by rw [guard_opened, guard_opened]
  caused := by rw [caused_opened, caused_opened, pair.caused]
  unrefused := unrefused_opened pair.unrefused _ _ _ _ _

theorem closed (pair : s.Shallower levels t) (trace : Bool) (h k : HandleId) (c : Cursor)
    (ending : Ending Result) :
    (s.closed trace h c ending).Shallower levels (t.closed trace k c ending) where
  store := by rw [store_closed, store_closed, pair.store]
  guard := by rw [guard_closed, guard_closed, pair.guard, Guard.exit_lowered]
  caused := by rw [caused_closed, caused_closed, pair.caused]
  unrefused := unrefused_closed pair.unrefused _ _ _ _

theorem opened_left (pair : s.Shallower levels t) {g : Guard} (enter : s.guard.enter = .ok g)
    (trace : Bool) (h : HandleId) (node : Node) (c : Cursor) :
    (s.opened trace h node c g).Shallower (levels + 1) t where
  store := by rw [store_opened, pair.store]
  guard := by
    rw [guard_opened, pair.guard, ← Guard.exit_of_enter enter, Guard.lowered_exit]
  caused := by rw [caused_opened, pair.caused]
  unrefused := pair.unrefused

theorem closed_left (pair : s.Shallower (levels + 1) t) (trace : Bool) (h : HandleId) (c : Cursor)
    (ending : Ending Result) : (s.closed trace h c ending).Shallower levels t where
  store := by rw [store_closed, pair.store]
  guard := by rw [guard_closed, pair.guard, Guard.lowered_exit]
  caused := by rw [caused_closed, pair.caused]
  unrefused := pair.unrefused

end Run.Shallower

def Overtaken (journal : List Entry) : Prop :=
  ∃ after h pos depth before, journal = after ++ .refused h pos depth :: before ∧
    ∃ r v ending events level, Entry.released r v ending events level ∈ after ∧ ending ≠ .done ()

namespace Meaning

variable {m : Meaning} {trace : Bool} {levels : Nat}

theorem callback_shallower {α : Type} {entry : Ending α → List Event → Int → Entry}
    {work : Callback α} {s t s' : Run} {ending : Ending α} (pair : s.Shallower levels t)
    (called : Run.callback entry work s = (ending, s'))
    (events : ∀ ending events depth, (entry ending events depth).caused = events)
    (calls : ∀ ending events depth, (entry ending events depth).IsCallback) :
    ∃ t', Run.callback entry work t = (ending, t') ∧ s'.Shallower levels t' := by
  cases called
  refine ⟨(Run.callback entry work t).2, ?_, ?_⟩
  · simp only [Run.callback, pair.store]
  · simp only [Run.callback, pair.store]
    exact pair.record rfl ((events ..).trans (events ..).symm) (calls _ _ _).ne_refused

theorem simulates_shallower (m : Meaning) (trace : Bool) (levels : Nat) :
    (Pairing.same Eq .all (Run.Shallower levels)).Simulates m m trace trace Unrefused where
  toAgrees := Pairing.agrees_same
  before earlier unrefused := unrefused.suffix earlier
  missing := by
    rintro s t h _ fault pair rfl missing
    exact ⟨by rwa [pair.store], pair.record pair.store rfl nofun⟩
  found := by
    rintro s t h _ body pair rfl status
    refine ⟨body, by rwa [pair.store], Node.alike_refl (fun _ _ => rfl) fun _ => rfl, ?_⟩
    exact Node.calls_all _
  -- The one step that the levels would change.
  refused _ _ _ _ late := absurd (List.mem_cons_self ..) (late _ _ _)
  opened := by
    rintro s t h _ node node' c _ g pair rfl _ rfl enter
    exact ⟨_, pair.enter enter, pair.opened ..⟩
  closed := by
    rintro s t h _ c _ ending ending' pair rfl rfl alike
    cases Pairing.eq_of_same alike
    exact pair.closed ..
  release _ pair work _ := callback_shallower pair work (fun _ _ _ => rfl) fun _ _ _ => trivial
  fold _ pair work _ := callback_shallower pair work (fun _ _ _ => rfl) fun _ _ _ => trivial
  apply _ pair work _ := callback_shallower pair work (fun _ _ _ => rfl) fun _ _ _ => trivial

theorem Ran.call_shallower {h : HandleId} {c : Cursor} {s s' t : Run} {ending : Ending Result}
    (ran : m.Ran trace (.call h) c s ending s') (pair : s.Shallower levels t)
    (unrefused : Unrefused s'.journal) :
    ∃ t', m.Ran trace (.call h) c t ending t' ∧ s'.Shallower levels t' := by
  obtain ⟨_, t', ran', alike, pair'⟩ :=
    (simulates_shallower m trace levels).ran ran (.call rfl) rfl pair unrefused
  cases Pairing.eq_of_same alike
  exact ⟨t', ran', pair'⟩

theorem unrefused_of_done {ctx : Context} {h : HandleId} {c : Cursor} {s : Store} {r : Result}
    (done : (m.call ctx h c s).1 = .done r) : Unrefused (m.call ctx h c s).2.journal :=
  (spans_unrefused m ctx.config.trace).ran (ran_call ctx h c s)
    (Ending.outcome_eq_done_iff.mpr ⟨r, done⟩) fun _ _ _ => List.not_mem_nil

theorem latest_append (limit : Int) (after before : List Entry) :
    latest limit (after ++ before) = (latest limit after).or (latest limit before) :=
  List.findSome?_append

theorem call_refused (m : Meaning) (ctx : Context) (h : HandleId) (c : Cursor) (s : Store) :
    Unrefused (m.call ctx h c s).2.journal ∨
      (m.call ctx h c s).1 = .raised (.depthLimit ctx.guard.maxDepth) ∨
      Overtaken (m.call ctx h c s).2.journal := by
  by_cases unrefused : Unrefused (m.call ctx h c s).2.journal
  · exact .inl unrefused
  refine .inr ?_
  obtain ⟨last, _, told, _⟩ := call_sweeps m ctx h c s
  simp only [Unrefused, not_forall, not_not] at unrefused
  obtain ⟨k, pos, depth, mem⟩ := unrefused
  obtain ⟨after, before, split⟩ := List.append_of_mem mem
  have here : latest ctx.guard.maxDepth (.refused k pos depth :: before) =
      some (.raised (.depthLimit ctx.guard.maxDepth)) := latest_cons ..
  -- Nothing came up after the refusal, or else something did that took its place.
  rcases later : latest ctx.guard.maxDepth after with _ | ended
  · refine .inl ?_
    rw [split, latest_append, later, here] at last
    rcases ending : (m.call ctx h c s).1 with _ | _ | _ <;> rw [ending] at last <;> cases last
    rfl
  · obtain ⟨x, mem, raises⟩ := List.exists_of_findSome?_eq_some later
    obtain ⟨late, early, rfl⟩ := List.append_of_mem mem
    have accounted := told late x (early ++ .refused k pos depth :: before) (by rw [split]; simp)
    have begun : latest ctx.guard.maxDepth (early ++ .refused k pos depth :: before) ≠ none := by
      rw [latest_append, here]
      cases latest ctx.guard.maxDepth early <;> nofun
    cases x with
    | released r v ending events level =>
      refine .inr ⟨_, k, pos, depth, before, split, r, v, ending, events, level, mem, ?_⟩
      rintro rfl
      cases raises
    | left | logged => cases raises
    -- Only a release may be called once something has come up.
    | entered | refused | missing | folded | applied => exact absurd accounted begun

end Meaning

end Peg
