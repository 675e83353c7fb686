import Peg.Grammar.Walk
import Peg.Proofs.Teardown.Reachable

/-!
The order of a walk. A walk keeps what it is still to look at in one list, where a handle may stand
many times. It comes to handles in the order of a recursive search, which explores all that lies
below a handle before it goes on to the next, and it stops when there is nothing left to come to.
-/

namespace Peg

namespace Grammar

/-- A recursive search that is sent to some handles in turn, after it has met others: those that it
comes to for the first time, each of them before what lies below it. -/
inductive Explores (g : Grammar) : List HandleId → List HandleId → List HandleId → Prop where
  | done {met : List HandleId} : Explores g met [] []
  | again {met hs out : List HandleId} {h : HandleId} : h ∈ met → Explores g met hs out →
      Explores g met (h :: hs) out
  | first {met hs below out : List HandleId} {h : HandleId} : h ∉ met →
      Explores g (h :: met) (g.get h).children below → Explores g (below ++ h :: met) hs out →
      Explores g met (h :: hs) (h :: (below ++ out))

namespace Explores

variable {g : Grammar} {met hs ks out : List HandleId} {h : HandleId}

theorem congr {met' : List HandleId} (explores : g.Explores met hs out)
    (same : ∀ k, k ∈ met ↔ k ∈ met') : g.Explores met' hs out := by
  induction explores generalizing met' with
  | done => exact .done
  | again mem _ ih => exact .again ((same _).mp mem) (ih same)
  | first new _ _ ih ih' =>
    refine .first (mt (same _).mpr new) (ih fun k => ?_) (ih' fun k => ?_)
    · simp [same]
    · simp [same]

theorem unique {out' : List HandleId} (explores : g.Explores met hs out)
    (explores' : g.Explores met hs out') : out = out' := by
  induction explores generalizing out' with
  | done =>
    cases explores'
    rfl
  | again mem _ ih =>
    cases explores' with
    | again _ rest => exact ih rest
    | first new => exact absurd mem new
  | first new _ _ ih ih' =>
    cases explores' with
    | again mem => exact absurd mem new
    | first _ below rest =>
      obtain rfl := ih below
      rw [ih' rest]

theorem append {out' : List HandleId} (explores : g.Explores met hs out)
    (explores' : g.Explores (out ++ met) ks out') : g.Explores met (hs ++ ks) (out ++ out') := by
  induction explores generalizing out' with
  | done => exact explores'
  | again mem _ ih => exact .again mem (ih explores')
  | @first met hs below out h new inside _ _ ih =>
    rw [List.cons_append, List.cons_append, List.append_assoc]
    refine .first new inside (ih (explores'.congr fun k => ?_))
    simp only [List.cons_append, List.append_assoc, List.mem_cons, List.mem_append]
    tauto

theorem split (explores : g.Explores met (hs ++ ks) out) :
    ∃ out₁ out₂, g.Explores met hs out₁ ∧ g.Explores (out₁ ++ met) ks out₂ ∧
      out = out₁ ++ out₂ := by
  induction hs generalizing met out with
  | nil => exact ⟨[], out, .done, explores, rfl⟩
  | cons h hs ih =>
    cases explores with
    | again mem rest =>
      obtain ⟨out₁, out₂, first, second, rfl⟩ := ih rest
      exact ⟨out₁, out₂, .again mem first, second, rfl⟩
    | @first _ _ below _ _ new inside rest =>
      obtain ⟨out₁, out₂, first, second, rfl⟩ := ih rest
      refine ⟨h :: (below ++ out₁), out₂, .first new inside first, second.congr fun k => ?_, ?_⟩
      · simp only [List.cons_append, List.append_assoc, List.mem_cons, List.mem_append]
        tauto
      · simp

theorem first_iff (new : h ∉ met) :
    g.Explores met (h :: hs) out ↔
      ∃ rest, out = h :: rest ∧ g.Explores (h :: met) ((g.get h).children ++ hs) rest := by
  constructor
  · intro explores
    cases explores with
    | again mem => exact absurd mem new
    | first _ below rest => exact ⟨_, rfl, below.append rest⟩
  · rintro ⟨_, rfl, explores⟩
    obtain ⟨_, _, below, rest, rfl⟩ := explores.split
    exact .first new below rest

theorem skip_iff {before : List HandleId} (passed : ∀ k ∈ before, k ∈ met) :
    g.Explores met (before ++ hs) out ↔ g.Explores met hs out := by
  induction before with
  | nil => rfl
  | cons k before ih =>
    have mem := passed k (List.mem_cons_self ..)
    rw [List.cons_append, ← ih fun a ha => passed a (List.mem_cons_of_mem _ ha)]
    constructor
    · intro explores
      cases explores with
      | again _ rest => exact rest
      | first new => exact absurd mem new
    · exact .again mem

theorem fresh (explores : g.Explores met hs out) : out.Nodup ∧ ∀ k ∈ out, k ∉ met := by
  induction explores with
  | done => exact ⟨List.nodup_nil, fun _ mem => nomatch mem⟩
  | again _ _ ih => exact ih
  | @first met hs below out h new _ _ ih ih' =>
    obtain ⟨below_nodup, below_new⟩ := ih
    obtain ⟨rest_nodup, rest_new⟩ := ih'
    simp only [List.mem_cons, not_or, List.mem_append] at below_new rest_new
    refine ⟨List.nodup_cons.mpr ⟨fun mem => ?_, ?_⟩, fun k mem => ?_⟩
    · rcases List.mem_append.mp mem with mem | mem
      · exact (below_new h mem).1 rfl
      · exact (rest_new h mem).2.1 rfl
    · refine List.nodup_append.mpr ⟨below_nodup, rest_nodup, fun k mem l mem' same => ?_⟩
      exact (rest_new l mem').1 (same ▸ mem)
    · rcases List.mem_cons.mp mem with rfl | mem
      · exact new
      · rcases List.mem_append.mp mem with mem | mem
        · exact (below_new k mem).2
        · exact (rest_new k mem).2.2

theorem reachable (explores : g.Explores met hs out) : ∀ k ∈ out, g.Reachable hs k := by
  induction explores with
  | done => exact fun _ mem => nomatch mem
  | again _ _ ih => exact fun k mem => (ih k mem).mono (List.subset_cons_self ..)
  | @first met hs below out h _ _ _ ih ih' =>
    have root : g.Reachable (h :: hs) h := .root (List.mem_cons_self ..)
    intro k mem
    rcases List.mem_cons.mp mem with rfl | mem
    · exact root
    · rcases List.mem_append.mp mem with mem | mem
      · exact (ih k mem).of_roots fun _ child => root.child child
      · exact (ih' k mem).mono (List.subset_cons_self ..)

theorem closed (explores : g.Explores met hs out) :
    (∀ k ∈ hs, k ∈ met ∨ k ∈ out) ∧
    ∀ k ∈ out, ∀ l ∈ (g.get k).children, l ∈ met ∨ l ∈ out := by
  induction explores with
  | done => exact ⟨nofun, nofun⟩
  | again mem _ ih =>
    refine ⟨fun k mem' => ?_, ih.2⟩
    rcases List.mem_cons.mp mem' with rfl | mem'
    · exact .inl mem
    · exact ih.1 k mem'
  | @first met hs below out h _ _ _ ih ih' =>
    have inside {k : HandleId} (mem : k ∈ h :: met ∨ k ∈ below) :
        k ∈ met ∨ k ∈ h :: (below ++ out) := by
      simp only [List.mem_cons, List.mem_append] at mem ⊢
      tauto
    have after {k : HandleId} (mem : k ∈ below ++ h :: met ∨ k ∈ out) :
        k ∈ met ∨ k ∈ h :: (below ++ out) := by
      simp only [List.mem_cons, List.mem_append] at mem ⊢
      tauto
    refine ⟨fun k mem => ?_, fun k mem l child => ?_⟩
    · rcases List.mem_cons.mp mem with rfl | mem
      · exact .inr (List.mem_cons_self ..)
      · exact after (ih'.1 k mem)
    · rcases List.mem_cons.mp mem with rfl | mem
      · exact inside (ih.1 l child)
      · rcases List.mem_append.mp mem with mem | mem
        · exact inside (ih.2 k mem l child)
        · exact after (ih'.2 k mem l child)

theorem mem_iff (explores : g.Explores [] hs out) : h ∈ out ↔ g.Reachable hs h := by
  refine ⟨explores.reachable h, fun reachable => ?_⟩
  induction reachable with
  | root mem => exact (explores.closed.1 _ mem).resolve_left List.not_mem_nil
  | child _ mem ih => exact (explores.closed.2 _ ih _ mem).resolve_left List.not_mem_nil

end Explores

theorem tear_of_size_le {g : Grammar} {h : HandleId} (le : g.size ≤ h) : g.tear h = g := by
  refine ext_get (size_tear g h) fun k => ?_
  by_cases same : k = h
  · subst same
    rw [get_of_size_le le, get_of_size_le (by simpa using le)]
  · exact get_tear_other same

/-- The grammar without the nodes that have been met. -/
def beyond (g : Grammar) (met : List HandleId) : Grammar := met.foldr (fun h g => g.tear h) g

theorem get_beyond {g : Grammar} {met : List HandleId} {h : HandleId} (new : h ∉ met) :
    (g.beyond met).get h = g.get h := by
  induction met with
  | nil => rfl
  | cons k met ih =>
    rw [List.mem_cons, not_or] at new
    exact (get_tear_other new.1).trans (ih new.2)

theorem references_beyond {g : Grammar} {met : List HandleId} {h : HandleId} (new : h ∉ met) :
    (g.beyond (h :: met)).references + (g.get h).children.length = (g.beyond met).references := by
  rw [← get_beyond new]
  obtain lt | ge := Nat.lt_or_ge h (g.beyond met).size
  · exact references_eq _ lt
  · rw [get_of_size_le ge, beyond, List.foldr_cons]
    exact congrArg references (tear_of_size_le ge)

theorem exists_explores (g : Grammar) (met hs : List HandleId) :
    ∃ out, g.Explores met hs out ∧ out.length ≤ hs.length + (g.beyond met).references := by
  induction measure : hs.length + (g.beyond met).references using Nat.strongRecOn
    generalizing met hs with
  | _ bound ih =>
    cases hs with
    | nil => exact ⟨[], .done, Nat.zero_le _⟩
    | cons h hs =>
      rw [List.length_cons] at measure
      by_cases mem : h ∈ met
      · obtain ⟨out, explores, le⟩ := ih _ (by omega) met hs rfl
        exact ⟨out, .again mem explores, by omega⟩
      · have fewer := references_beyond (g := g) mem
        obtain ⟨out, explores, le⟩ :=
          ih _ (by rw [List.length_append]; omega) (h :: met) ((g.get h).children ++ hs) rfl
        rw [List.length_append] at le
        refine ⟨h :: out, (Explores.first_iff mem).mpr ⟨out, rfl, explores⟩, ?_⟩
        rw [List.length_cons]
        omega

theorem Explores.take_eq {g : Grammar} {w : Walk} {out : List HandleId}
    (explores : g.Explores w.seen w.pending out) (n : Nat) : (w.take g n).1 = out.take n := by
  induction n generalizing w out with
  | zero => rfl
  | succ n ih =>
    rw [Walk.take]
    rcases next : w.next? g with _ | ⟨h, w'⟩
    · have passed := Walk.nextOf_eq_none_iff.mp next
      rw [← List.append_nil w.pending, skip_iff passed] at explores
      cases explores
      rfl
    · obtain ⟨new, before, after, pending, passed, rfl⟩ := Walk.nextOf_eq_some_iff.mp next
      rw [pending, skip_iff passed, first_iff new] at explores
      obtain ⟨rest, rfl, explores⟩ := explores
      exact congrArg (h :: ·) (ih explores)

theorem explores_walk (g : Grammar) (roots : List HandleId) :
    g.Explores [] roots (g.walk roots) := by
  obtain ⟨out, explores, le⟩ := g.exists_explores [] roots
  have all : g.walk roots = out := by
    refine (explores.take_eq (w := Walk.ofRoots roots) _).trans (List.take_of_length_le ?_)
    exact Nat.le_succ_of_le le
  rwa [all]

/-- A walk is a recursive search in preorder, wherever it is stopped. It comes to all that can be
reached from its roots and to nothing else, and to each handle once. -/
theorem walk_preorder (g : Grammar) (roots : List HandleId) :
    (∀ out, g.Explores [] roots out ↔ out = g.walk roots) ∧
    (∀ h, h ∈ g.walk roots ↔ g.Reachable roots h) ∧
    (g.walk roots).Nodup ∧
    ∀ n, ((Walk.ofRoots roots).take g n).1 = (g.walk roots).take n := by
  have explores := g.explores_walk roots
  refine ⟨fun out => ⟨fun explores' => explores'.unique explores, ?_⟩, fun h => explores.mem_iff,
    explores.fresh.1, explores.take_eq (w := Walk.ofRoots roots)⟩
  rintro rfl
  exact explores

end Grammar

end Peg
