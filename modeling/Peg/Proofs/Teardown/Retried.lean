import Peg.Proofs.Lifecycle.Soundness
import Peg.Proofs.Teardown.Stopped

namespace Peg

namespace Grammar

variable {g g' : Grammar} {roots : List HandleId} {h : HandleId}

/-- What could be reached from some roots by way of handles that stand in a later grammar. -/
inductive StillReachable (g g' : Grammar) (roots : List HandleId) : HandleId → Prop where
  | root {h : HandleId} : h ∈ roots → StillReachable g g' roots h
  | child {h k : HandleId} : StillReachable g g' roots h → (g'.get h).status ≠ .deleted →
      k ∈ (g.get h).children → StillReachable g g' roots k

theorem StillReachable.before (still : g.StillReachable g' roots h) : g.Reachable roots h := by
  induction still with
  | root mem => exact .root mem
  | child _ _ mem ih => exact ih.child mem

theorem StillReachable.after {changes : List Change} (evolves : g.Evolves changes g')
    (closed : g.Closed) (exist : ∀ r ∈ roots, r < g.size)
    (still : g.StillReachable g' roots h) : g'.Reachable roots h := by
  induction still with
  | root mem => exact .root mem
  | @child h k still stands mem ih =>
    obtain ⟨body, status⟩ := Handle.isDefined_iff.mp (Handle.isDefined_of_child mem)
    have lives := evolves.lives (still.before.lt_size closed exist)
    have kept := (lives.keeps_node body status).resolve_right stands
    rw [Handle.children_of_defined status, ← Handle.children_of_defined kept] at mem
    exact ih.child mem

theorem Reachable.still {changes : List Change} (evolves : g.Evolves changes g')
    (closed : g.Closed) (exist : ∀ r ∈ roots, r < g.size)
    (unfilled : ∀ h < g.size, (g'.get h).isDefined = true → (g.get h).isDefined = true)
    (reachable : g'.Reachable roots h) : g.StillReachable g' roots h := by
  induction reachable with
  | root mem => exact .root mem
  | @child h k _ mem still =>
    have lt := still.before.lt_size closed exist
    have defined := Handle.isDefined_of_child mem
    obtain ⟨body', status'⟩ := Handle.isDefined_iff.mp defined
    obtain ⟨body, status⟩ := Handle.isDefined_iff.mp (unfilled h lt defined)
    have stands : (g'.get h).status ≠ .deleted := by simp [status']
    have kept := ((evolves.lives lt).keeps_node body status).resolve_right stands
    rw [Handle.children_of_defined kept, ← Handle.children_of_defined status] at mem
    exact still.child stands mem

end Grammar

namespace Action

def sprig : Store where
  grammar := ⟨#[{ status := .defined ⟨0, .literal "x"⟩ },
    { status := .defined ⟨1, .repetition .concat 0 0 none none⟩ }]⟩

/-- Stopped when the root was torn down, the teardown cannot be made up for: the root leads nowhere
by then. -/
theorem sprig_left :
    sprig.grammar.Reachable [1] 0 ∧
    ∃ w, deleteAllTelling (.stopsAt 1 (.fault "x")) [1] ⟨sprig, []⟩ =
        (.raised (.requested "x"), w) ∧
      (deleteAll [1] w).1 = .done 0 ∧
      ((deleteAll [1] w).2.store.grammar.get 0).isDeleted = false := by
  have root : sprig.grammar.Reachable [1] 1 := .root (List.mem_singleton.mpr rfl)
  have child : 0 ∈ (sprig.grammar.get 1).children := by decide
  exact ⟨root.child child, _, rfl, rfl, rfl⟩

/-- After a teardown that was interrupted, or ended in any other way, one from the same roots
without a watcher comes to its end, and tears down what can be reached by then. That is all that
could be reached at the start by way of handles that the first has left standing; and no more than
that, if meanwhile no placeholder was filled in. -/
theorem deleteAll_retried {told : Nat → HandleId → Action Unit} {s : Store}
    {roots : List HandleId} {events : List Event} {ending : Ending Nat} {w : World}
    (changes : ∀ call h, (told call h).Changes) (sound : s.Sound)
    (exist : ∀ r ∈ roots, r < s.grammar.size)
    (ran : tearDown told roots ⟨s, events⟩ = (ending, w)) :
    ∃ count g', deleteAll roots w =
        (.done count, ⟨{ w.store with grammar := g' }, .logged (.tornDown count) :: w.events⟩) ∧
      w.store.grammar.Felled roots g' ∧
      (∀ h, s.grammar.StillReachable w.store.grammar roots h → (g'.get h).status = .deleted) ∧
      ((∀ h < s.grammar.size,
          (w.store.grammar.get h).isDefined = true → (s.grammar.get h).isDefined = true) →
        ∀ h, (g'.get h).status = .deleted ↔ (w.store.grammar.get h).status = .deleted ∨
          s.grammar.StillReachable w.store.grammar roots h) := by
  have becomes := Store.becoming.tearDown changes roots ⟨s, events⟩
  rw [ran] at becomes
  obtain ⟨sound', _, evolves⟩ := becomes sound
  have exist' : ∀ r ∈ roots, r < w.store.grammar.size := fun r mem =>
    Nat.lt_of_lt_of_le (exist r mem) evolves.size_le
  obtain ⟨hs, g', _, felled, run⟩ := deleteAll_fells w.store sound'.closed exist' w.events
  have deleted (h : HandleId) (still : s.grammar.StillReachable w.store.grammar roots h) :
      (g'.get h).status = .deleted := felled.deleted (still.after evolves sound.closed exist)
  refine ⟨hs.length, g', run, felled, deleted, fun unfilled h => ?_⟩
  constructor
  · intro gone
    by_cases fell : (w.store.grammar.get h).status = .deleted
    · exact .inl fell
    · exact .inr ((felled.reachable_of_fallen gone fell).still evolves sound.closed exist unfilled)
  · rintro (gone | still)
    · exact felled.still_deleted gone
    · exact deleted h still

/-- Stopped at its second call, when one root and a placeholder were torn down, the teardown has
left standing what both roots lead to; the other root still leads to it. -/
theorem tangle_retried :
    (∀ call h, (tell (.stopsAt 2 (.fault "x")) call h).Changes) ∧ tangle.Sound ∧
    (∀ r ∈ [6, 0], r < tangle.grammar.size) ∧
    ∃ w, tearDown (tell (.stopsAt 2 (.fault "x"))) [6, 0] ⟨tangle, []⟩ =
        (.raised (.requested "x"), w) ∧
      tangle.grammar.StillReachable w.store.grammar [6, 0] 3 ∧
      ∃ count g', deleteAll [6, 0] w = (.done count,
          ⟨{ w.store with grammar := g' }, .logged (.tornDown count) :: w.events⟩) ∧
        (g'.get 3).status = .deleted := by
  have changes : ∀ call h, (tell (.stopsAt 2 (.fault "x")) call h).Changes :=
    Store.becoming.tell _
  have sound : tangle.Sound :=
    ⟨Grammar.closed_of_handles (by decide), fun _ mem => nomatch mem⟩
  have exist : ∀ r ∈ [6, 0], r < tangle.grammar.size := by decide
  obtain ⟨w, ran⟩ : ∃ w, tearDown (tell (.stopsAt 2 (.fault "x"))) [6, 0] ⟨tangle, []⟩ =
      (.raised (.requested "x"), w) := ⟨_, rfl⟩
  have stand : (w.store.grammar.get 0).isDeleted = false ∧
      (w.store.grammar.get 1).isDeleted = false := by
    have final := congrArg Prod.snd ran
    subst final
    decide +kernel
  simp only [← Bool.not_eq_true, Handle.isDeleted_iff] at stand
  have root : tangle.grammar.StillReachable w.store.grammar [6, 0] 0 := .root (by decide)
  have inner : tangle.grammar.StillReachable w.store.grammar [6, 0] 1 :=
    root.child stand.1 (by decide)
  have shared : tangle.grammar.StillReachable w.store.grammar [6, 0] 3 :=
    inner.child stand.2 (by decide)
  obtain ⟨count, g', run, _, reached, _⟩ := deleteAll_retried changes sound exist ran
  exact ⟨changes, sound, exist, w, ran, shared, count, g', run, reached 3 shared⟩

end Action

end Peg
