import Mathlib.Data.List.Perm.Subperm
import Peg.Proofs.Run.Edits
import Peg.Proofs.Teardown.Reachable

/-!
Passes of a teardown. A pass takes up one handle after another, and it is told to stop after so many
steps. These are never used up: it meets no handle twice, and none but its roots and what a node
referred to at the start. Between two steps a watcher may run passes of its own.
-/

namespace Peg

/-- What a walk has met, once each, and what it may still come to: handles out of one list. -/
structure Walk.Within (known : List HandleId) (g : Grammar) (walk : Walk) : Prop where
  once : walk.seen.Nodup
  met : walk.seen ⊆ known
  pending : walk.pending ⊆ known
  referred : ∀ h body, (g.get h).status = .defined body → body.node.children ⊆ known

namespace Walk.Within

variable {known : List HandleId} {g g' : Grammar} {walk next : Walk} {h : HandleId}

theorem start (g : Grammar) (roots : List HandleId) :
    ∃ known, (ofRoots roots).Within known g ∧ known.length ≤ g.reach roots := by
  refine ⟨roots ++ g.handles.toList.flatMap (·.children),
    ⟨List.nodup_nil, List.nil_subset _, List.subset_append_left .., fun h body status k mem => ?_⟩,
    by simp [Grammar.reach, Grammar.references]⟩
  have lt : h < g.handles.size := by
    by_contra ge
    rw [Grammar.get_of_size_le (Nat.le_of_not_lt ge)] at status
    cases status
  have at_h : g.get h ∈ g.handles.toList := by simp [Grammar.get, lt]
  rw [← Handle.children_of_defined status] at mem
  exact List.mem_append_right _ (List.mem_flatMap.mpr ⟨_, at_h, mem⟩)

theorem step (within : walk.Within known g) (found : walk.next? g = some (h, next)) :
    next.Within known g ∧ next.seen.length = walk.seen.length + 1 := by
  obtain ⟨new, before, after, cut, _, rfl⟩ := nextOf_eq_some_iff.mp found
  have pending := within.pending
  rw [cut] at pending
  have known_h : h ∈ known := pending (by simp)
  refine ⟨⟨List.nodup_cons.mpr ⟨new, within.once⟩, List.cons_subset.mpr ⟨known_h, within.met⟩,
    fun k mem => ?_, within.referred⟩, rfl⟩
  rcases List.mem_append.mp mem with child | later
  · rcases status : (g.get h).status with _ | body | _
    · simp [Handle.children, Handle.body?, status] at child
    · exact within.referred h body status (Handle.children_of_defined status ▸ child)
    · rw [Handle.children_of_deleted status] at child
      cases child
  · exact pending (by simp [later])

theorem edited (within : walk.Within known g) (edited : g.Edited g') : walk.Within known g' where
  once := within.once
  met := within.met
  pending := within.pending
  referred h body status := by
    obtain ⟨k, there⟩ := edited.exists_defined status
    exact within.referred k body there

theorem exhausted (within : walk.Within known g) (all : known.length ≤ walk.seen.length) :
    walk.next? g = none := by
  have same := (List.subperm_of_subset within.once within.met).perm_of_length_le all
  exact nextOf_eq_none_iff.mpr fun h mem => same.mem_iff.mpr (within.pending mem)

end Walk.Within

/-- A handle torn down by a pass, and what was torn down by each of the passes inside it. -/
structure Turn where
  handle : HandleId
  inside : List (List HandleId)

namespace Turn

def torn (t : Turn) : List HandleId := t.handle :: t.inside.flatten

end Turn

theorem Grammar.Tears.edited {g g' : Grammar} {hs : List HandleId} (tears : g.Tears hs g') :
    g.Edited g' := by
  induction tears with
  | nil => exact .unchanged
  | @cons g _ h _ _ _ _ ih => exact (Edited.tear h .unchanged).trans ih

namespace Action

section

variable {told : Nat → HandleId → Action Unit} {steps count : Nat} {walk walk' : Walk} {w : World}
  {h : HandleId}

theorem tearFrom_skip (next : walk.next? w.store.grammar = some (h, walk'))
    (gone : (w.store.grammar.get h).isDeleted = true) :
    tearFrom told (steps + 1) walk count w = tearFrom told steps walk' count w := by
  simp [tearFrom, next, gone]

theorem tearFrom_turn (next : walk.next? w.store.grammar = some (h, walk'))
    (stands : ¬ (w.store.grammar.get h).isDeleted = true) :
    tearFrom told (steps + 1) walk count w =
      Proc.andThen (told (count + 1) h) (fun _ => tearFrom told steps walk' (count + 1))
        { w with store.grammar := w.store.grammar.tear h } := by
  have tearing : tear h w = (.done (), { w with store.grammar := w.store.grammar.tear h }) := rfl
  simp only [tearFrom, next]
  rw [if_neg stands, Proc.andThen_done tearing]

end

theorem tearFrom_add {told : Nat → HandleId → Action Unit} (edits : ∀ call h, (told call h).Edits)
    {known : List HandleId} {steps : Nat} {walk : Walk} {w : World}
    (within : walk.Within known w.store.grammar) (enough : known.length ≤ walk.seen.length + steps)
    (count more : Nat) :
    tearFrom told (steps + more) walk count w = tearFrom told steps walk count w := by
  -- Each step meets a handle of `known`, and when the steps are used up it has met them all.
  induction steps generalizing walk count w with
  | zero =>
    cases more with
    | zero => rfl
    | succ more =>
      simp only [tearFrom, within.exhausted enough]
      rfl
  | succ steps ih =>
    rw [Nat.succ_add]
    rcases found : walk.next? w.store.grammar with _ | ⟨h, next⟩
    · simp only [tearFrom, found]
    · obtain ⟨within', further⟩ := within.step found
      have enough' : known.length ≤ next.seen.length + steps := by omega
      by_cases gone : (w.store.grammar.get h).isDeleted
      · rw [tearFrom_skip found gone, tearFrom_skip found gone]
        exact ih within' enough' count
      · rw [tearFrom_turn found gone, tearFrom_turn found gone]
        have torn := within'.edited (.tear h .unchanged)
        have edited := edits (count + 1) h { w with store.grammar := w.store.grammar.tear h }
        rcases telling : told (count + 1) h { w with store.grammar := w.store.grammar.tear h } with
          ⟨_ | fault | message, w'⟩ <;> rw [telling] at edited
        · rw [Proc.andThen_done telling, Proc.andThen_done telling]
          exact ih (torn.edited edited) enough' (count + 1)
        · rw [Proc.andThen_raised telling, Proc.andThen_raised telling]
        · rw [Proc.andThen_aborted telling, Proc.andThen_aborted telling]

theorem tearDown_unbounded {told : Nat → HandleId → Action Unit}
    (edits : ∀ call h, (told call h).Edits) (roots : List HandleId) (w : World) (more : Nat) :
    tearDown told roots w =
      Proc.andThen (tearFrom told (w.store.grammar.reach roots + more) (.ofRoots roots) 0)
        (fun count => Proc.andThen (log (.tornDown count)) fun _ => Proc.done count) w := by
  obtain ⟨known, within, enough⟩ := Walk.Within.start w.store.grammar roots
  have same := tearFrom_add edits within (by simpa [Walk.ofRoots] using enough) 0 more
  change Proc.andThen (tearFrom told (w.store.grammar.reach roots) (.ofRoots roots) 0) _ w = _
  simp only [Proc.andThen, same]
  rfl

/-- Whatever a watcher tears down and wherever it stops, its teardown ends there or where nothing is
left to be met, and not for want of steps. -/
theorem deleteAllTelling_unbounded (watcher : Watcher) (roots : List HandleId) (w : World)
    (more : Nat) :
    deleteAllTelling watcher roots w =
      Proc.andThen
        (tearFrom (tell watcher) (w.store.grammar.reach roots + more) (.ofRoots roots) 0)
        (fun count => Proc.andThen (log (.tornDown count)) fun _ => Proc.done count) w :=
  tearDown_unbounded (Edits.tell watcher) roots w more

def requested (requests : Nat → List HandleId) (first calls : Nat) : List HandleId :=
  (List.range' first calls).flatMap requests

theorem requested_succ (requests : Nat → List HandleId) (first calls : Nat) :
    requested requests first (calls + 1) = requests first ++ requested requests (first + 1) calls := by
  simp [requested, List.range'_succ]

/-- A watcher that does nothing but run a pass for each handle requested at its call, `tale` being
what is seen of it in a turn. -/
def Tells (told : Nat → HandleId → Action Unit) (requests : Nat → List HandleId)
    (tale : Store → Turn → List Event) : Prop :=
  ∀ (s : Store) (g : Grammar) (events : List Event) (call : Nat) (h : HandleId),
    g.get h = (s.grammar.get h).torn → g.Closed → (∀ x ∈ requests call, x < g.size) →
    ∃ inside g', inside.length = (requests call).length ∧ g.Tears inside.flatten g' ∧
      g.Felled (requests call) g' ∧
      told call h ⟨{ s with grammar := g }, events⟩ =
        (.done (), ⟨{ s with grammar := g' }, (tale s ⟨h, inside⟩).reverse ++ events⟩)

section

variable {told : Nat → HandleId → Action Unit} {requests : Nat → List HandleId}
  {tale : Store → Turn → List Event} {s : Store}

/-- What a pass comes to from some point on, `count` handles having been torn down before. -/
structure Swept (requests : Nat → List HandleId) (start : Grammar) (sources : List HandleId)
    (count : Nat) (g : Grammar) (turns : List Turn) (g' : Grammar) : Prop where
  tears : g.Tears (turns.flatMap Turn.torn) g'
  felled : start.Felled (requested requests (count + 1) turns.length ++ sources) g'
  inside : turns.map (·.inside.length) =
    (List.range' (count + 1) turns.length).map fun call => (requests call).length

theorem Swept.none {start g : Grammar} {sources : List HandleId} (felled : start.Felled sources g)
    (count : Nat) : Swept requests start sources count g [] g where
  tears := .nil
  felled := felled
  inside := rfl

theorem Swept.turn {start g g₁ g' : Grammar} {sources : List HandleId} {count : Nat} {t : Turn}
    {turns : List Turn} (tears : g.Tears t.torn g₁)
    (inside : t.inside.length = (requests (count + 1)).length)
    (rest : Swept requests start (requests (count + 1) ++ sources) (count + 1) g₁ turns g') :
    Swept requests start sources count g (t :: turns) g' where
  tears := tears.append rest.tears
  felled := by
    refine rest.felled.congr fun x => ?_
    rw [List.length_cons, requested_succ]
    simp only [List.mem_append]
    tauto
  inside := by
    rw [List.length_cons, List.range'_succ, List.map_cons, List.map_cons, inside, rest.inside]

theorem tearFrom_swept (tells : Tells told requests tale) (closed : s.grammar.Closed)
    (requests_exist : ∀ call, ∀ x ∈ requests call, x < s.grammar.size) {known : List HandleId}
    (steps : Nat) (walk : Walk) (count : Nat) (g : Grammar) (events : List Event)
    (sources : List HandleId) (exist : ∀ x ∈ sources, x < s.grammar.size)
    (wave : s.grammar.Wave sources walk.pending walk.seen g) (within : walk.Within known g)
    (enough : known.length ≤ walk.seen.length + steps) :
    ∃ turns g', Swept requests s.grammar sources count g turns g' ∧
      tearFrom told steps walk count ⟨{ s with grammar := g }, events⟩ =
        (.done (count + turns.length),
          ⟨{ s with grammar := g' }, (turns.flatMap (tale s)).reverse ++ events⟩) := by
  induction steps generalizing walk count g events sources with
  | zero =>
    have done := wave.finish (Walk.nextOf_eq_none_iff.mp (within.exhausted enough))
    exact ⟨[], g, .none done count, rfl⟩
  | succ steps ih =>
    rcases found : walk.next? g with _ | ⟨h, next⟩
    · refine ⟨[], g, .none (wave.finish (Walk.nextOf_eq_none_iff.mp found)) count, ?_⟩
      simp only [tearFrom, found]
      rfl
    · obtain ⟨within', further⟩ := within.step found
      have enough' : known.length ≤ next.seen.length + steps := by omega
      obtain ⟨_, before, after, cut, passed, rfl⟩ := Walk.nextOf_eq_some_iff.mp found
      rw [cut] at wave
      by_cases gone : (g.get h).isDeleted
      · rw [tearFrom_skip (w := ⟨{ s with grammar := g }, events⟩) found gone]
        exact ih _ count g events sources exist (wave.skip passed (Handle.isDeleted_iff.mp gone))
          within' enough'
      · have lt : h < s.grammar.size :=
          (wave.due h (by simp)).lt_size closed exist
        have torn := wave.tear passed lt
        rw [← wave.size] at lt
        obtain ⟨inside, g₂, length, tears, felled, telling⟩ :=
          tells s (g.tear h) events (count + 1) h (by rw [Grammar.get_tear_self lt, wave.torn_eq])
            (torn.closed closed) (by simpa [wave.size] using requests_exist (count + 1))
        -- By now the handle is torn down, and whatever it asked for as well.
        have later := (within'.edited (.tear h .unchanged)).edited tears.edited
        have exist' : ∀ x ∈ requests (count + 1) ++ sources, x < s.grammar.size := by
          intro x mem
          rcases List.mem_append.mp mem with mem | mem
          · exact requests_exist _ x mem
          · exact exist x mem
        obtain ⟨turns, g', swept, run⟩ :=
          ih ⟨(g.get h).children ++ after, h :: walk.seen⟩ (count + 1) g₂
            ((tale s ⟨h, inside⟩).reverse ++ events) (requests (count + 1) ++ sources) exist'
            (torn.interrupted felled) later enough'
        refine ⟨⟨h, inside⟩ :: turns, g',
          .turn (.cons lt (mt Handle.isDeleted_iff.mpr gone) tears) length swept, ?_⟩
        rw [tearFrom_turn (w := ⟨{ s with grammar := g }, events⟩) found gone,
          Proc.andThen_done telling, run]
        simp [Nat.add_assoc, Nat.add_comm 1]

theorem tearDown_swept (tells : Tells told requests tale) (closed : s.grammar.Closed)
    (requests_exist : ∀ call, ∀ x ∈ requests call, x < s.grammar.size) {roots : List HandleId}
    (exist : ∀ r ∈ roots, r < s.grammar.size) (events : List Event) :
    ∃ turns g', Swept requests s.grammar roots 0 s.grammar turns g' ∧
      tearDown told roots ⟨s, events⟩ =
        (.done turns.length, ⟨{ s with grammar := g' },
          .logged (.tornDown turns.length) :: ((turns.flatMap (tale s)).reverse ++ events)⟩) := by
  obtain ⟨known, within, enough⟩ := Walk.Within.start s.grammar roots
  obtain ⟨turns, g', swept, run⟩ := tearFrom_swept tells closed requests_exist
    (s.grammar.reach roots) (.ofRoots roots) 0 s.grammar events roots exist (.start _ _) within
    (by simpa [Walk.ofRoots] using enough)
  refine ⟨turns, g', swept, ?_⟩
  rw [Nat.zero_add] at run
  have counted : (tearFrom told (s.grammar.reach roots) (.ofRoots roots) 0) ⟨s, events⟩ = _ := run
  have measured : Action.read (fun s => s.grammar.reach roots) ⟨s, events⟩ =
      (.done (s.grammar.reach roots), ⟨s, events⟩) := rfl
  simp only [tearDown, Proc.bind_eq]
  rw [Proc.andThen_done measured, Proc.andThen_done counted]
  rfl

end

/-- A pass without a watcher tears down what can be reached, and nothing else. -/
theorem deleteAll_fells (s : Store) {g : Grammar} (closed : g.Closed) {roots : List HandleId}
    (exist : ∀ r ∈ roots, r < g.size) (events : List Event) :
    ∃ hs g', g.Tears hs g' ∧ g.Felled roots g' ∧
      deleteAll roots ⟨{ s with grammar := g }, events⟩ =
        (.done hs.length, ⟨{ s with grammar := g' }, .logged (.tornDown hs.length) :: events⟩) := by
  have silent : Tells (fun _ _ => pure ()) (fun _ => []) fun _ _ => [] :=
    fun s g events _ h _ _ _ => ⟨[], g, rfl, .nil, .nothing g, rfl⟩
  obtain ⟨turns, g', swept, run⟩ :=
    tearDown_swept (s := { s with grammar := g }) silent closed (fun _ _ mem => nomatch mem) exist
      events
  have alone : turns.flatMap Turn.torn = turns.map (·.handle) := by
    rw [List.map_eq_flatMap]
    refine List.flatMap_congr fun t mem => ?_
    have length : t.inside.length ∈ turns.map (·.inside.length) := List.mem_map_of_mem mem
    rw [swept.inside] at length
    have none : turns ≠ [] ∧ t.inside = [] := by simpa using length
    simp [Turn.torn, none.2]
  refine ⟨turns.map (·.handle), g', alone ▸ swept.tears, ?_, ?_⟩
  · exact swept.felled.congr fun h => by simp [requested]
  · rw [deleteAll, run]
    simp

theorem deleteInside_fells (s : Store) {g : Grammar} (closed : g.Closed) {h : HandleId}
    (exist : h < g.size) (events : List Event) :
    ∃ hs g', g.Tears hs g' ∧ g.Felled [h] g' ∧
      deleteInside h ⟨{ s with grammar := g }, events⟩ =
        (.done (), ⟨{ s with grammar := g' },
          .deleted hs.length :: .logged (.tornDown hs.length) :: events⟩) := by
  obtain ⟨hs, g', tears, felled, run⟩ :=
    deleteAll_fells s closed (List.forall_mem_singleton.mpr exist) events
  refine ⟨hs, g', tears, felled, ?_⟩
  rw [deleteInside, Proc.bind_eq, Proc.andThen_done run]
  rfl

end Action

end Peg
