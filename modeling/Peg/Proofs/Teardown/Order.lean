import Mathlib
import Peg.Proofs.Teardown.Pass

namespace Peg

namespace Action

theorem schedule_fells (s : Store) {g : Grammar} (closed : g.Closed)
    {schedule : List (List HandleId)} (exist : ∀ group ∈ schedule, ∀ r ∈ group, r < g.size)
    (events : List Event) :
    ∃ (hss : List (List HandleId)) (g' : Grammar), hss.length = schedule.length ∧
      g.Tears hss.flatten g' ∧ g.Felled schedule.flatten g' ∧
      schedule.mapM deleteAll ⟨{ s with grammar := g }, events⟩ =
        (.done (hss.map List.length), ⟨{ s with grammar := g' },
          (hss.map fun hs => Event.logged (.tornDown hs.length)).reverse ++ events⟩) := by
  induction schedule generalizing g events with
  | nil => exact ⟨[], g, rfl, .nil, .nothing g, rfl⟩
  | cons group schedule ih =>
    obtain ⟨hs, g₁, tears, felled, run⟩ :=
      deleteAll_fells s closed (exist group (List.mem_cons_self ..)) events
    obtain ⟨hss, g', length, tears', felled', run'⟩ :=
      ih (felled.closed closed)
        (fun other mem => by rw [felled.size]; exact exist other (List.mem_cons_of_mem _ mem))
        (.logged (.tornDown hs.length) :: events)
    refine ⟨hs :: hss, g', by simp [length], tears.append tears', ?_, ?_⟩
    · exact (felled.next felled').congr fun h => by simp [or_comm]
    · rw [List.mapM_cons, Proc.bind_eq, Proc.andThen_done run, Proc.bind_eq,
        Proc.andThen_done run']
      simp
      rfl

/-- Roots torn down together, or in whatever order and groups, some of them again and again: the
handles are left the same, and the calls count the same number of handles in all. -/
theorem schedules_agree {s : Store} {roots : List HandleId} {schedule : List (List HandleId)}
    (closed : s.grammar.Closed) (exist : ∀ r ∈ roots, r < s.grammar.size)
    (same : ∀ h, h ∈ schedule.flatten ↔ h ∈ roots) (events : List Event) :
    ∃ (count : Nat) (counts : List Nat) (g' : Grammar),
      deleteAll roots ⟨s, events⟩ =
        (.done count, ⟨{ s with grammar := g' }, .logged (.tornDown count) :: events⟩) ∧
      schedule.mapM deleteAll ⟨s, events⟩ =
        (.done counts, ⟨{ s with grammar := g' },
          (counts.map fun count => Event.logged (.tornDown count)).reverse ++ events⟩) ∧
      counts.length = schedule.length ∧ counts.sum = count := by
  have exist' : ∀ group ∈ schedule, ∀ r ∈ group, r < s.grammar.size := fun group mem r mem' =>
    exist r ((same r).mp (List.mem_flatten.mpr ⟨group, mem, mem'⟩))
  obtain ⟨hs, g', tears, felled, run⟩ := deleteAll_fells s closed exist events
  obtain ⟨hss, g'', length, tears', felled', run'⟩ := schedule_fells s closed exist' events
  obtain rfl : g'' = g' := (felled'.congr same).unique felled
  refine ⟨hs.length, hss.map List.length, g'', run, ?_, by simpa using length, ?_⟩
  · rw [run']
    simp [Function.comp_def]
  · rw [← List.length_flatten, tears'.length_eq, tears.length_eq]

def overlap : Store where
  grammar := ⟨#[{ status := .defined ⟨0, .choice 1 [2]⟩ },
    { status := .defined ⟨1, .sequence .list [(0, none), (3, none)]⟩ }, { status := .deleted },
    { status := .defined ⟨3, .apply 4 .number⟩ }, { name := "later" },
    { status := .defined ⟨5, .choice 3 [2, 0]⟩ }]⟩

/-- Torn down together or from the shared part on, in three calls and one root twice. -/
theorem overlap_schedules :
    overlap.grammar.Closed ∧ (∀ r ∈ [5, 3], r < overlap.grammar.size) ∧
    (∀ h, h ∈ [[3], [], [5, 3]].flatten ↔ h ∈ [5, 3]) ∧
    ∃ (count : Nat) (counts : List Nat) (g' : Grammar),
      deleteAll [5, 3] ⟨overlap, []⟩ =
        (.done count, ⟨{ overlap with grammar := g' }, [.logged (.tornDown count)]⟩) ∧
      [[3], [], [5, 3]].mapM deleteAll ⟨overlap, []⟩ =
        (.done counts, ⟨{ overlap with grammar := g' },
          (counts.map fun count => Event.logged (.tornDown count)).reverse ++ []⟩) ∧
      counts.length = 3 ∧ counts.sum = count := by
  have closed : overlap.grammar.Closed := Grammar.closed_of_handles (by decide)
  have exist : ∀ r ∈ [5, 3], r < overlap.grammar.size := by decide
  have same : ∀ h, h ∈ [[3], [], [5, 3]].flatten ↔ h ∈ [5, 3] := by
    intro h
    simp
    omega
  exact ⟨closed, exist, same, schedules_agree closed exist same []⟩

end Action

end Peg
