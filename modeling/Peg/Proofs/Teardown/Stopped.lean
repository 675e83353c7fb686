import Peg.Proofs.Teardown.Watched
import Peg.Proofs.Walk.Preorder

namespace Peg

namespace Grammar

variable {g g' : Grammar} {hs : List HandleId} {h : HandleId}

theorem Tears.get_of_not_mem (tears : g.Tears hs g') (other : h ∉ hs) : g'.get h = g.get h := by
  induction tears with
  | nil => rfl
  | cons _ _ _ ih =>
    rw [List.mem_cons, not_or] at other
    rw [ih other.2, get_tear_other other.1]

theorem Tears.get_of_mem (tears : g.Tears hs g') (mem : h ∈ hs) : g'.get h = (g.get h).torn := by
  induction tears with
  | nil => cases mem
  | @cons g g' k hs lt _ rest ih =>
    by_cases same : h = k
    · subst same
      have gone : ((g.tear h).get h).status = .deleted := by
        rw [get_tear_self lt]
        rfl
      rw [rest.get_of_not_mem (rest.deleted gone).2, get_tear_self lt]
    · rw [ih ((List.mem_cons.mp mem).resolve_left same), get_tear_other same]

/-- Those of some handles that have not been torn down. -/
def standing (g : Grammar) (hs : List HandleId) : List HandleId :=
  hs.filter fun h => !(g.get h).isDeleted

theorem standing_cons_deleted (gone : (g.get h).isDeleted = true) :
    g.standing (h :: hs) = g.standing hs := by
  simp [standing, gone]

theorem standing_cons (stands : ¬ (g.get h).isDeleted = true) :
    g.standing (h :: hs) = h :: g.standing hs := by
  simp [standing, stands]

theorem Explores.length_le {roots order : List HandleId} (explores : g.Explores [] roots order) :
    order.length < g.reach roots := by
  obtain ⟨order', explores', le⟩ := g.exists_explores [] roots
  cases explores.unique explores'
  simp only [reach]
  exact Nat.lt_succ_of_le le

/-- What a walk in a grammar that is taken apart comes to next: the first handle that is left of the
search in the grammar as it was, since what it has not met is still there. -/
theorem Explores.next {walk : Walk} {out : List HandleId}
    (explores : g.Explores walk.seen walk.pending out)
    (unmet : ∀ h, h ∉ walk.seen → g'.get h = g.get h) :
    (walk.next? g' = none ∧ out = []) ∨
    ∃ h walk' rest, walk.next? g' = some (h, walk') ∧ out = h :: rest ∧
      walk'.seen = h :: walk.seen ∧ h ∉ walk.seen ∧
      g.Explores walk'.seen walk'.pending rest := by
  rcases next : walk.next? g' with _ | ⟨h, walk'⟩
  · left
    have passed := Walk.nextOf_eq_none_iff.mp next
    rw [← List.append_nil walk.pending, skip_iff passed] at explores
    cases explores
    exact ⟨rfl, rfl⟩
  · right
    obtain ⟨new, before, after, pending, passed, rfl⟩ := Walk.nextOf_eq_some_iff.mp next
    rw [pending, skip_iff passed, first_iff new] at explores
    obtain ⟨rest, rfl, explores⟩ := explores
    exact ⟨h, _, rest, rfl, rfl, rfl, new, by rwa [unmet h new]⟩

end Grammar

def Stop.ending {α : Type} : Stop → Ending α
  | .fault message => .raised (.requested message)
  | .abort message => .aborted message

/-- The watcher that does nothing until one of its calls, and stops the teardown there. -/
def Watcher.stopsAt (n : Nat) (how : Stop) : Watcher := fun call =>
  if call = n then { stop := some how } else {}

namespace Action

theorem stop_eq (how : Stop) (w : World) : Action.stop how w = (how.ending, w) := by
  cases how <;> rfl

def tornEvent (s : Store) (h : HandleId) : Event :=
  .torn h (s.owners h) (s.grammar.get h).torn.shown

variable {s : Store} {n : Nat} {how : Stop}

theorem tell_stopsAt {g : Grammar} {h : HandleId} (torn : g.get h = (s.grammar.get h).torn)
    (call : Nat) (events : List Event) :
    tell (.stopsAt n how) call h ⟨{ s with grammar := g }, events⟩ =
      (if call = n then how.ending else .done (),
        ⟨{ s with grammar := g }, tornEvent s h :: events⟩) := by
  have noted : Action.read (fun s => Event.torn h (s.owners h) (s.shown h))
      ⟨{ s with grammar := g }, events⟩ =
        (.done (tornEvent s h), ⟨{ s with grammar := g }, events⟩) := by
    rw [tornEvent, ← torn]
    rfl
  have note : Action.note (tornEvent s h) ⟨{ s with grammar := g }, events⟩ =
      (.done (), ⟨{ s with grammar := g }, tornEvent s h :: events⟩) := rfl
  simp only [tell, Proc.bind_eq]
  rw [Proc.andThen_done noted, Proc.andThen_done note]
  by_cases last : call = n
  · simp only [Watcher.stopsAt, if_pos last]
    exact stop_eq how _
  · simp only [Watcher.stopsAt, if_neg last]
    rfl

theorem andThen_stopped {α β : Type} {p : Action α} {f : α → Action β} {w w' : World}
    (ran : p w = (how.ending, w')) : Proc.andThen p f w = (how.ending, w') := by
  cases how with
  | fault message => exact Proc.andThen_raised ran
  | abort message => exact Proc.andThen_aborted ran

variable (how) in
theorem tearFrom_stopped {g : Grammar} {steps : Nat} {walk : Walk} {count : Nat}
    {out : List HandleId} (explores : s.grammar.Explores walk.seen walk.pending out)
    (exist : ∀ h ∈ out, h < g.size) (unmet : ∀ h, h ∉ walk.seen → g.get h = s.grammar.get h)
    (enough : out.length < steps) {left : Nat} (last : count + left + 1 = n)
    (reached : left < (s.grammar.standing out).length) (events : List Event) :
    ∃ g', g.Tears ((s.grammar.standing out).take (left + 1)) g' ∧
      tearFrom (tell (.stopsAt n how)) steps walk count ⟨{ s with grammar := g }, events⟩ =
        (how.ending, ⟨{ s with grammar := g' },
          (((s.grammar.standing out).take (left + 1)).map (tornEvent s)).reverse ++ events⟩) := by
  -- `out` is what is left of the search through the grammar as it was, `left` the calls before the
  -- last one.
  induction steps generalizing g walk count out left events with
  | zero => omega
  | succ steps ih =>
    obtain ⟨_, rfl⟩ | ⟨h, walk', rest, next, rfl, seen, new, explores'⟩ := explores.next unmet
    · simp [Grammar.standing] at reached
    have same := unmet h new
    have met {k : HandleId} (other : k ∉ walk'.seen) : k ≠ h ∧ k ∉ walk.seen := by
      rwa [seen, List.mem_cons, not_or] at other
    rw [List.length_cons] at enough
    by_cases gone : (s.grammar.get h).isDeleted
    · rw [Grammar.standing_cons_deleted gone] at reached ⊢
      rw [tearFrom_skip (w := ⟨{ s with grammar := g }, events⟩) next (by rwa [same])]
      exact ih explores' (fun k mem => exist k (List.mem_cons_of_mem _ mem))
        (fun k other => unmet k (met other).2) (by omega) last reached events
    · rw [Grammar.standing_cons gone] at reached ⊢
      have lt : h < g.size := exist h (List.mem_cons_self ..)
      have stands : ¬ (g.get h).isDeleted = true := by rwa [same]
      have torn : (g.tear h).get h = (s.grammar.get h).torn := by
        rw [Grammar.get_tear_self lt, same]
      have told : tell (.stopsAt n how) (count + 1) h
          ⟨{ s with grammar := g.tear h }, events⟩ = _ := tell_stopsAt torn (count + 1) events
      rw [tearFrom_turn (w := ⟨{ s with grammar := g }, events⟩) next stands, List.take_succ_cons]
      cases left with
      | zero =>
        rw [if_pos last] at told
        exact ⟨g.tear h, .cons lt (mt Handle.isDeleted_iff.mpr stands) .nil, andThen_stopped told⟩
      | succ left =>
        rw [if_neg (by omega)] at told
        rw [List.length_cons] at reached
        have untouched (k : HandleId) (other : k ∉ walk'.seen) :
            (g.tear h).get k = s.grammar.get k := by
          rw [Grammar.get_tear_other (met other).1, unmet k (met other).2]
        have one_less : count + 1 + left + 1 = n := by omega
        obtain ⟨g', tears, run⟩ := ih (g := g.tear h) explores'
          (fun k mem => by simpa using exist k (List.mem_cons_of_mem _ mem)) untouched
          (by omega) one_less (by omega) (tornEvent s h :: events)
        refine ⟨g', .cons lt (mt Handle.isDeleted_iff.mpr stands) tears, ?_⟩
        rw [Proc.andThen_done told, run]
        simp

/-- A watcher that only stops the teardown, at its `n`-th call, leaves the first `n` handles torn
down that were standing, in the order of the recursive search through the grammar as it was. It was
told of these in this order, and of no other. The fault or the abort leaves the teardown, and all
other handles are as they were. -/
theorem deleteAllTelling_stopped {s : Store} {roots order : List HandleId} {n : Nat}
    (closed : s.grammar.Closed) (exist : ∀ r ∈ roots, r < s.grammar.size)
    (explores : s.grammar.Explores [] roots order) (called : 1 ≤ n)
    (reached : n ≤ (s.grammar.standing order).length) (how : Stop) (events : List Event) :
    ∃ g', deleteAllTelling (.stopsAt n how) roots ⟨s, events⟩ =
        (how.ending, ⟨{ s with grammar := g' },
          (((s.grammar.standing order).take n).map (tornEvent s)).reverse ++ events⟩) ∧
      s.grammar.Tears ((s.grammar.standing order).take n) g' ∧
      ∀ h, g'.get h = if h ∈ (s.grammar.standing order).take n then (s.grammar.get h).torn
        else s.grammar.get h := by
  have exist_all : ∀ h ∈ order, h < s.grammar.size := fun h mem =>
    (explores.reachable h mem).lt_size closed exist
  obtain ⟨left, rfl⟩ : ∃ left, n = left + 1 := ⟨n - 1, by omega⟩
  have last : 0 + left + 1 = left + 1 := by omega
  have search : s.grammar.Explores (Walk.ofRoots roots).seen (Walk.ofRoots roots).pending order :=
    explores
  obtain ⟨g', tears, run⟩ := tearFrom_stopped how search exist_all (fun _ _ => rfl)
    explores.length_le last reached events
  refine ⟨g', ?_, tears, fun h => ?_⟩
  · have measured : Action.read (fun s => s.grammar.reach roots) ⟨s, events⟩ =
        (.done (s.grammar.reach roots), ⟨s, events⟩) := rfl
    simp only [deleteAllTelling, tearDown, Proc.bind_eq]
    rw [Proc.andThen_done measured]
    exact andThen_stopped run
  · split
    · next mem => exact tears.get_of_mem mem
    · next other => exact tears.get_of_not_mem other

/-- From both ends of the tangle, where a handle has been torn down before and one is a placeholder:
the fourth call is for the last root. -/
theorem tangle_stopped :
    tangle.grammar.Closed ∧ (∀ r ∈ [6, 0], r < tangle.grammar.size) ∧
    tangle.grammar.Explores [] [6, 0] [6, 4, 5, 3, 0, 1, 2] ∧ 1 ≤ 4 ∧
    4 ≤ (tangle.grammar.standing [6, 4, 5, 3, 0, 1, 2]).length ∧
    ∃ g', deleteAllTelling (.stopsAt 4 (.abort "enough")) [6, 0] ⟨tangle, []⟩ =
        (.aborted "enough", ⟨{ tangle with grammar := g' },
          ([6, 4, 3, 0].map (tornEvent tangle)).reverse ++ []⟩) ∧
      tangle.grammar.Tears [6, 4, 3, 0] g' ∧ g'.get 1 = tangle.grammar.get 1 ∧
      g'.get 2 = tangle.grammar.get 2 := by
  have closed : tangle.grammar.Closed := Grammar.closed_of_handles (by decide)
  have exist : ∀ r ∈ [6, 0], r < tangle.grammar.size := by decide
  have explores : tangle.grammar.Explores [] [6, 0] [6, 4, 5, 3, 0, 1, 2] :=
    tangle.grammar.explores_walk [6, 0]
  have standing : tangle.grammar.standing [6, 4, 5, 3, 0, 1, 2] = [6, 4, 3, 0, 1, 2] := rfl
  have reached : 4 ≤ (tangle.grammar.standing [6, 4, 5, 3, 0, 1, 2]).length := by decide
  obtain ⟨g', run, tears, left⟩ :=
    deleteAllTelling_stopped closed exist explores (by decide) reached (.abort "enough") []
  exact ⟨closed, exist, explores, by decide, reached, g', run, tears, left 1, left 2⟩

end Action

end Peg
