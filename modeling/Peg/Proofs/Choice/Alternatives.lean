import Peg.Proofs.Run.After
import Peg.Proofs.Run.Steady
import Peg.Proofs.Semantics.Adequacy

namespace Peg

namespace Failure

variable {f g : Failure} {fs gs : List Failure}

theorem merge_assoc (f g k : Failure) : (f.merge g).merge k = f.merge (g.merge k) := by
  have labels : (f.expected.union g.expected).union k.expected =
      f.expected.union (g.expected.union k.expected) :=
    Labels.eq_of_mem_iff fun a => by simp only [Labels.mem_union, or_assoc]
  simp only [merge, labels, Int.max_assoc]

theorem join_merge (failed : Option Failure) (f g : Failure) :
    (join failed f).merge g = join failed (f.merge g) := by
  cases failed with
  | none => rfl
  | some first => exact merge_assoc first f g

theorem Unites.congr (unites : f.Unites fs) (same : ∀ g, g ∈ fs ↔ g ∈ gs) : f.Unites gs := by
  simpa only [Unites, same] using unites

def before (failed : Option Failure) : Option Failure → Option Failure
  | none => failed
  | some f => some (join failed f)

theorem join_before (failed failed' : Option Failure) (f : Failure) :
    join (before failed failed') f = join failed (join failed' f) := by
  cases failed' with
  | none => rfl
  | some first => exact join_merge failed first f

end Failure

namespace Meaning

variable {m : Meaning} {trace : Bool} {failed failed' : Option Failure} {hs ks : List HandleId}
  {c : Cursor} {s s₁ s' : Run} {f : Failure} {ending : Ending Result}

section

theorem Ran.alternatives_settled (ran : m.Ran trace (.alternatives failed hs) c s ending s')
    (unfailed : ∀ f, ending ≠ .done (.failure f)) :
    m.Ran trace (.alternatives failed' (hs ++ ks)) c s ending s' := by
  induction hs generalizing failed failed' s with
  | nil =>
    cases ran with
    | exhausted => exact absurd rfl (unfailed _)
  | cons h hs ih =>
    cases ran with
    | settled call _ => exact .settled call unfailed
    | passed call rest => exact .passed call (ih rest)

/-- What failed before is part of the failure. -/
theorem Ran.alternatives_before
    (ran : m.Ran trace (.alternatives failed' hs) c s (.done (.failure f)) s') :
    m.Ran trace (.alternatives (Failure.before failed failed') hs) c s
      (.done (.failure (Failure.join failed f))) s' := by
  induction hs generalizing failed' s with
  | nil =>
    cases ran with
    | exhausted => exact .exhausted
  | cons h hs ih =>
    cases ran with
    | settled _ unfailed => exact absurd rfl (unfailed f)
    | passed call rest =>
      refine .passed call ?_
      rw [Failure.join_before]
      exact ih rest

theorem Ran.alternatives_append
    (ran : m.Ran trace (.alternatives failed hs) c s (.done (.failure f)) s₁)
    (rest : m.Ran trace (.alternatives (some f) ks) c s₁ ending s') :
    m.Ran trace (.alternatives failed (hs ++ ks)) c s ending s' := by
  induction hs generalizing failed s with
  | nil =>
    cases ran with
    | exhausted => exact rest
  | cons h hs ih =>
    cases ran with
    | settled _ unfailed => exact absurd rfl (unfailed f)
    | passed call left => exact .passed call (ih left)

end

section

variable {ctx : Context} {g : Guard} {t : Store} {of : HandleId → Failure}

theorem Ran.unites {fs : List Failure} (steady : t.grammar.Steady m hs)
    (failing : ∀ h ∈ hs, (m.call ⟨ctx.config, g⟩ h c t).1 = .done (.failure (of h)))
    (joins : Failure.Joins failed fs) (grammar : s.store.grammar = t.grammar) (guard : s.guard = g)
    (ran : m.Ran ctx.config.trace (.alternatives failed hs) c s ending s') :
    ∃ f, ending = .done (.failure f) ∧ f.Unites (fs ++ hs.map of) := by
  -- What failed before the alternatives is part of the statement, as each of them adds to it.
  induction hs generalizing failed fs s with
  | nil =>
    cases ran with
    | @exhausted f =>
      rw [List.map_nil, List.append_nil]
      exact ⟨f, rfl, joins⟩
  | cons h hs ih =>
    obtain ⟨fails, failing'⟩ := List.forall_mem_cons.mp failing
    have inside : t.grammar.Steady m [h] := steady.of_roots fun r mem => by
      obtain rfl := List.mem_singleton.mp mem
      exact .root (List.mem_cons_self ..)
    have steady' : t.grammar.Steady m hs :=
      steady.of_roots fun r mem => .root (List.mem_cons_of_mem _ mem)
    obtain ⟨same, _⟩ := call_steady inside grammar ⟨ctx.config, g⟩ c
    rw [fails] at same
    cases ran with
    | settled call unfailed =>
      obtain ⟨_, alone, _⟩ := call.call_eq ⟨ctx.config, g⟩ guard
      rw [alone] at same
      exact absurd same (unfailed _)
    -- The alternative is run in a later store, but in the same grammar, so that it fails as in `t`.
    | @passed _ _ _ _ _ _ s₁ _ _ call rest =>
      have kept : (m.call ⟨ctx.config, g⟩ h c s.store).2.store.grammar = s.store.grammar :=
        (call_steady (grammar ▸ inside) rfl ⟨ctx.config, g⟩ c).2
      have guard' := call.guard_eq.trans guard
      obtain ⟨run, alone, after⟩ := call.call_eq ⟨ctx.config, g⟩ guard
      rw [alone] at same kept
      cases same
      have grammar' : s₁.store.grammar = t.grammar := by
        rw [after]
        exact kept.trans grammar
      obtain ⟨f, done, unites⟩ := ih steady' failing' (joins.join (of h)) grammar' guard' rest
      rw [List.append_assoc] at unites
      exact ⟨f, done, unites⟩

/-- Where its callbacks are steady, a choice whose alternatives all fail unites their failures. -/
theorem call_unites {s : Store} {h first : HandleId} {others : List HandleId}
    (holds : s.grammar.Holds h (.choice first others))
    (steady : s.grammar.Steady m (first :: others)) (enter : ctx.guard.enter = .ok g)
    (failing : ∀ p ∈ first :: others,
      (m.call ⟨ctx.config, g⟩ p c s).1 = .done (.failure (of p))) :
    ∃ f, (m.call ctx h c s).1 = .done (.failure f) ∧ f.Unites ((first :: others).map of) := by
  obtain ⟨_, _, ran⟩ := exists_ran_body m ctx.config.trace (.choice first others) c ⟨s, g, []⟩
  rw [call_of_body holds enter ran]
  cases ran with
  | leaf leaf => cases leaf
  | choice ran =>
    have none_failed : Failure.Joins none [] := rfl
    exact ran.unites steady failing none_failed rfl rfl

theorem call_reordered {s : Store} {h first : HandleId} {others : List HandleId}
    (holds : s.grammar.Holds h (.choice first others))
    (steady : s.grammar.Steady m (first :: others)) (enter : ctx.guard.enter = .ok g)
    (failing : ∀ p ∈ first :: others,
      ∃ f, (m.call ⟨ctx.config, g⟩ p c s).1 = .done (.failure f)) :
    ∃ f, ∀ k first' others', s.grammar.Holds k (.choice first' others') →
      (∀ p, p ∈ first' :: others' ↔ p ∈ first :: others) →
      (m.call ctx k c s).1 = .done (.failure f) := by
  have : Nonempty Failure := ⟨⟨.empty, 0⟩⟩
  choose! of failing using failing
  obtain ⟨f, _, unites⟩ := call_unites holds steady enter failing
  refine ⟨f, fun k first' others' holds' same => ?_⟩
  have steady' : s.grammar.Steady m (first' :: others') :=
    steady.of_roots fun p mem => .root ((same p).mp mem)
  obtain ⟨f', failed, unites'⟩ :=
    call_unites holds' steady' enter fun p mem => failing p ((same p).mp mem)
  have united : f'.Unites ((first :: others).map of) :=
    unites'.congr fun g => by simp only [List.mem_map, same]
  rw [failed, unites.unique united]

end

end Meaning

end Peg
