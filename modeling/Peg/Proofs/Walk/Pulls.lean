import Mathlib.Data.List.Nodup
import Mathlib.Data.List.Perm.Subperm
import Peg.Grammar.Walk
import Peg.Proofs.Lifecycle.Changes
import Peg.Proofs.Teardown.Reachable

/-!
Walks that are taken up again after a grammar has changed. Between two pulls handles may have been
made, filled in, torn down or renamed. A walk is bound to what it saw: it owes its roots, and the
children of each handle as they were when it came to the handle.
-/

namespace Peg

structure Pull where
  handle : HandleId
  children : List HandleId
deriving DecidableEq, Inhabited, Repr

namespace Grammar

/-- A walk that is pulled while the grammar changes: from one grammar and state of the walk to
another, the pulls made in order. -/
inductive Pulled : Grammar → Walk → List Pull → Grammar → Walk → Prop where
  | nil {g : Grammar} {w : Walk} : Pulled g w [] g w
  | changed {g g₁ g' : Grammar} {w w' : Walk} {changes : List Change} {pulls : List Pull} :
      g.Evolves changes g₁ → g₁.Closed → Pulled g₁ w pulls g' w' → Pulled g w pulls g' w'
  | pulled {g g' : Grammar} {w w₁ w' : Walk} {h : HandleId} {pulls : List Pull} :
      w.next? g = some (h, w₁) → Pulled g w₁ pulls g' w' →
      Pulled g w (⟨h, (g.get h).children⟩ :: pulls) g' w'

theorem Pulled.append {g g₁ g' : Grammar} {w w₁ w' : Walk} {pulls pulls' : List Pull}
    (first : g.Pulled w pulls g₁ w₁) (second : g₁.Pulled w₁ pulls' g' w') :
    g.Pulled w (pulls ++ pulls') g' w' := by
  induction first with
  | nil => exact second
  | changed evolves closed _ ih => exact .changed evolves closed (ih second)
  | pulled next _ ih => exact .pulled next (ih second)

end Grammar

/-- What a walk has been offered: its roots, and what it saw below the handles that it came to. -/
def Offered (roots : List HandleId) (pulls : List Pull) (h : HandleId) : Prop :=
  h ∈ roots ∨ ∃ p ∈ pulls, h ∈ p.children

theorem offered_append {roots : List HandleId} {pulls : List Pull} {p : Pull} {h : HandleId} :
    Offered roots (pulls ++ [p]) h ↔ Offered roots pulls h ∨ h ∈ p.children := by
  simp only [Offered, List.mem_append, List.mem_singleton]
  constructor
  · rintro (root | ⟨q, mem | rfl, child⟩)
    · exact .inl (.inl root)
    · exact .inl (.inr ⟨q, mem, child⟩)
    · exact .inr child
  · rintro ((root | ⟨q, mem, child⟩) | child)
    · exact .inl root
    · exact .inr ⟨q, .inl mem, child⟩
    · exact .inr ⟨p, .inr rfl, child⟩

def Led (roots : List HandleId) (pulls : List Pull) : Prop :=
  ∀ before p after, pulls = before ++ p :: after → Offered roots before p.handle

theorem Led.snoc {roots : List HandleId} {pulls : List Pull} {p : Pull} (led : Led roots pulls)
    (offered : Offered roots pulls p.handle) : Led roots (pulls ++ [p]) := by
  intro before q after cut
  obtain rfl | ⟨after, last, rfl⟩ := List.eq_nil_or_concat after
  · obtain ⟨rfl, eq⟩ := List.append_inj' cut rfl
    cases eq
    exact offered
  · rw [List.concat_eq_append, ← List.cons_append, ← List.append_assoc] at cut
    exact led before q after (List.append_inj' cut rfl).1

/-- What a walk has come to: no handle twice, and no more than there are; none that it was not
offered; and all that it was offered, once it is exhausted. -/
structure Toured (roots : List HandleId) (pulls : List Pull) (g : Grammar) (w : Walk) : Prop where
  once : (pulls.map (·.handle)).Nodup
  bounded : pulls.length ≤ g.size
  led : Led roots pulls
  complete : w.next? g = none → ∀ h, Offered roots pulls h → h ∈ pulls.map (·.handle)

/-- A walk under way: it has met what it came to, and all else that it was offered is pending. -/
structure Walk.Tours (roots : List HandleId) (pulls : List Pull) (g : Grammar) (w : Walk) :
    Prop where
  met : ∀ h, h ∈ w.seen ↔ h ∈ pulls.map (·.handle)
  once : (pulls.map (·.handle)).Nodup
  led : Led roots pulls
  due : ∀ h ∈ w.pending, Offered roots pulls h
  ahead : ∀ h, Offered roots pulls h → h ∈ w.seen ∨ h ∈ w.pending
  exist : ∀ h, Offered roots pulls h → h < g.size

namespace Walk.Tours

open Grammar

variable {roots : List HandleId} {pulls : List Pull} {g g' : Grammar} {w : Walk}

theorem start (exist : ∀ r ∈ roots, r < g.size) : (ofRoots roots).Tours roots [] g where
  met h := by simp [ofRoots]
  once := List.nodup_nil
  led before p after eq := by simp at eq
  due h mem := .inl mem
  ahead h := by
    rintro (root | ⟨p, mem, _⟩)
    · exact .inr root
    · cases mem
  exist h := by
    rintro (root | ⟨p, mem, _⟩)
    · exact exist h root
    · cases mem

theorem changed {changes : List Change} (tours : w.Tours roots pulls g)
    (evolves : g.Evolves changes g') : w.Tours roots pulls g' where
  met := tours.met
  once := tours.once
  led := tours.led
  due := tours.due
  ahead := tours.ahead
  exist h offered := Nat.lt_of_lt_of_le (tours.exist h offered) evolves.size_le

theorem pulled {w' : Walk} {h : HandleId} (tours : w.Tours roots pulls g) (closed : g.Closed)
    (next : w.next? g = some (h, w')) :
    w'.Tours roots (pulls ++ [⟨h, (g.get h).children⟩]) g := by
  obtain ⟨new, before, after, pending, passed, rfl⟩ := Walk.nextOf_eq_some_iff.mp next
  have due : Offered roots pulls h := tours.due h (by simp [pending])
  constructor
  · intro k
    simp [tours.met k, or_comm]
  · rw [List.map_append, List.map_singleton, ← List.concat_eq_append]
    exact List.Nodup.concat (mt (tours.met h).mpr new) tours.once
  · exact tours.led.snoc due
  · intro k mem
    rw [offered_append]
    rcases List.mem_append.mp mem with child | mem
    · exact .inr child
    · exact .inl (tours.due k (by simp [pending, mem]))
  -- What was offered before is met or pending; only `h` itself passes from the one to the other.
  · intro k offered
    simp only [List.mem_cons, List.mem_append]
    obtain offered | child := offered_append.mp offered
    · rcases tours.ahead k offered with seen | mem
      · exact .inl (.inr seen)
      · rw [pending, List.mem_append, List.mem_cons] at mem
        obtain mem | rfl | mem := mem
        · exact .inl (.inr (passed k mem))
        · exact .inl (.inl rfl)
        · exact .inr (.inr mem)
    · exact .inr (.inl child)
  · intro k offered
    obtain offered | child := offered_append.mp offered
    · exact tours.exist k offered
    · exact closed h k child

theorem handle_offered (tours : w.Tours roots pulls g) {h : HandleId}
    (mem : h ∈ pulls.map (·.handle)) : Offered roots pulls h := by
  obtain ⟨p, mem', rfl⟩ := List.mem_map.mp mem
  obtain ⟨before, after, rfl⟩ := List.append_of_mem mem'
  obtain root | ⟨q, mem'', child⟩ := tours.led before p after rfl
  · exact .inl root
  · exact .inr ⟨q, List.mem_append_left _ mem'', child⟩

theorem toured (tours : w.Tours roots pulls g) : Toured roots pulls g w where
  once := tours.once
  bounded := by
    have inside : pulls.map (·.handle) ⊆ List.range g.size := fun h mem =>
      List.mem_range.mpr (tours.exist h (tours.handle_offered mem))
    simpa using (List.subperm_of_subset tours.once inside).length_le
  led := tours.led
  complete none h offered := by
    have passed := Walk.nextOf_eq_none_iff.mp none
    rw [← tours.met]
    exact (tours.ahead h offered).elim id (passed h)

theorem through {g' : Grammar} {w' : Walk} {more : List Pull} (tours : w.Tours roots pulls g)
    (closed : g.Closed) (run : g.Pulled w more g' w') : w'.Tours roots (pulls ++ more) g' := by
  induction run generalizing pulls with
  | nil => rwa [List.append_nil]
  | changed evolves closed' _ ih => exact ih (tours.changed evolves) closed'
  | pulled next _ ih =>
    rw [List.append_cons]
    exact ih (tours.pulled closed next) closed

end Walk.Tours

end Peg
