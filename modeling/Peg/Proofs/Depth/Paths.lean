import Mathlib.Data.List.Nodup
import Mathlib.Data.List.Perm.Subperm
import Mathlib.Data.Nat.SuccPred
import Mathlib.Order.SuccPred.Archimedean
import Peg.Proofs.Teardown.Reachable

namespace Peg.Grammar

variable {g : Grammar} {h k : HandleId} {hs : List HandleId} {n : Nat}

def Path (g : Grammar) (hs : List HandleId) : Prop :=
  hs.IsChain fun h k => k ∈ (g.get h).children

/-- How many handles there are on each path from a handle, itself included. -/
def Lengths (g : Grammar) (h : HandleId) : Set Nat :=
  {n | ∃ hs, g.Path (h :: hs) ∧ (h :: hs).length = n}

/-- No handle that can be reached from `h` can be reached from its own children. -/
def AcyclicFrom (g : Grammar) (h : HandleId) : Prop :=
  ∀ k, g.Reachable [h] k → ¬ g.Reachable (g.get k).children k

theorem Path.reachable (path : g.Path (h :: hs)) (mem : k ∈ hs) :
    g.Reachable (g.get h).children k := by
  induction hs generalizing h with
  | nil => cases mem
  | cons next hs ih =>
    obtain ⟨child, path⟩ := List.isChain_cons_cons.mp path
    rcases List.mem_cons.mp mem with rfl | mem
    · exact .root child
    · exact (ih path mem).of_roots fun r below => (Reachable.root child).child below

theorem AcyclicFrom.child (acyclic : g.AcyclicFrom h) (mem : k ∈ (g.get h).children) :
    g.AcyclicFrom k := by
  have from_h : g.Reachable [h] k := (Reachable.root (List.mem_cons_self ..)).child mem
  refine fun j reachable => acyclic j (reachable.of_roots fun r root => ?_)
  rwa [List.mem_singleton.mp root]

theorem AcyclicFrom.nodup (acyclic : g.AcyclicFrom h) (path : g.Path (h :: hs)) :
    (h :: hs).Nodup := by
  induction hs generalizing h with
  | nil => exact List.nodup_singleton h
  | cons next hs ih =>
    obtain ⟨child, rest⟩ := List.isChain_cons_cons.mp path
    refine List.nodup_cons.mpr ⟨fun mem => ?_, ih (acyclic.child child) rest⟩
    exact acyclic h (.root (List.mem_cons_self ..)) (path.reachable mem)

/-- Only the last handle of a path may be one that there is not. -/
theorem Path.dropLast_subset (path : g.Path hs) : hs.dropLast ⊆ List.range g.size := by
  induction hs with
  | nil => exact List.nil_subset _
  | cons h hs ih =>
    cases hs with
    | nil => exact List.nil_subset _
    | cons next hs =>
      obtain ⟨child, rest⟩ := List.isChain_cons_cons.mp path
      refine List.cons_subset.mpr ⟨List.mem_range.mpr ?_, ih rest⟩
      by_contra beyond
      rw [get_of_size_le (Nat.le_of_not_lt beyond)] at child
      cases child

theorem AcyclicFrom.exists_height (acyclic : g.AcyclicFrom h) :
    ∃ height, IsGreatest (g.Lengths h) height := by
  have bounded : g.size + 1 ∈ upperBounds (g.Lengths h) := by
    rintro n ⟨hs, path, rfl⟩
    have distinct := (acyclic.nodup path).sublist (List.dropLast_sublist _)
    have le := (List.subperm_of_subset distinct path.dropLast_subset).length_le
    rw [List.length_dropLast, List.length_range] at le
    exact Nat.le_add_of_sub_le le
  exact BddAbove.exists_isGreatest_of_nonempty ⟨_, bounded⟩ ⟨1, [], List.IsChain.singleton h, rfl⟩

theorem pos_of_mem_upperBounds (bound : n ∈ upperBounds (g.Lengths h)) : 0 < n :=
  bound ⟨[], List.IsChain.singleton h, rfl⟩

theorem upperBounds_child (bound : n + 1 ∈ upperBounds (g.Lengths h))
    (mem : k ∈ (g.get h).children) : n ∈ upperBounds (g.Lengths k) := by
  rintro _ ⟨hs, path, rfl⟩
  exact Nat.le_of_succ_le_succ (bound ⟨k :: hs, List.isChain_cons_cons.mpr ⟨mem, path⟩, rfl⟩)

section

variable {rank : HandleId → Nat} (lower : ∀ h, ∀ k ∈ (g.get h).children, rank k < rank h)
include lower

theorem Reachable.rank_le {roots : List HandleId} (reachable : g.Reachable roots k) :
    ∃ r ∈ roots, rank k ≤ rank r := by
  induction reachable with
  | root mem => exact ⟨_, mem, Nat.le_refl _⟩
  | child _ mem ih =>
    obtain ⟨r, root, le⟩ := ih
    exact ⟨r, root, Nat.le_trans (Nat.le_of_lt (lower _ _ mem)) le⟩

theorem acyclicFrom_of_rank (h : HandleId) : g.AcyclicFrom h := by
  intro k _ back
  obtain ⟨r, child, le⟩ := Reachable.rank_le lower back
  exact absurd (lower k r child) (Nat.not_lt.mpr le)

theorem rank_mem_upperBounds (h : HandleId) : rank h + 1 ∈ upperBounds (g.Lengths h) := by
  rintro _ ⟨hs, path, rfl⟩
  induction hs generalizing h with
  | nil => exact Nat.le_add_left ..
  | cons next hs ih =>
    obtain ⟨child, rest⟩ := List.isChain_cons_cons.mp path
    have shorter := ih next rest
    have step := lower h next child
    rw [List.length_cons]
    omega

end

end Peg.Grammar
