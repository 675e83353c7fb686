import Peg.Proofs.Ledger.Conservation

/-!
Balance. Where no release raises, every box that a run makes is released once or delivered, however
the run ends. Where releases raise, this is so just if the passes share out the boxes wherever
values are settled; it is not so after a release has raised on the first box of a failed sequence,
since the fault of that release has the sequence released again.
-/

namespace Peg

open Value

namespace Meaning

variable {compute : Standard.Calculation} {nested : HandleId → String → Action Result}

theorem call_accounts {ok : Release → Prop} {text : HandleId → Prop} {s : Store} {ctx : Context}
    {h : HandleId} {c : Cursor} {ending : Ending Result} {run : Run}
    (ordinary : ∀ r, ok r → r.Ordinary) (tracked : s.grammar.Tracked ok text)
    (call : (withNested compute nested).call ctx h c s = (ending, run)) :
    (∀ message, ending ≠ .aborted message) ∧
    (∀ id, settled id run.settlements + count id (delivered ending) =
      if s.boxes < id ∧ id ≤ run.store.boxes then 1 else 0) ∧
    (∀ id, run.passes id = called id run.settlements) ∧
    ((∀ r, ok r → r.Quiet) → ∀ x ∈ run.settlements, x.Exact) := by
  have ran := ran_call (m := withNested compute nested) ctx h c s
  rw [call] at ran
  obtain ⟨_, books⟩ := ran.balances ordinary [] rfl tracked
  refine ⟨books.unaborted, fun id => ?_, fun id => ?_, fun quiet => ?_⟩
  · have owned : run.store.made id + 0 + 0 = s.made id + settled id run.settlements + 0 +
        count id (delivered ending) := books.owned id
    simp only [Store.made] at owned
    split at owned <;> split at owned <;> split <;> omega
  · have passes : run.passes id + 0 = 0 + called id run.settlements + 0 := books.passes id
    omega
  · exact books.exact quiet fun x mem => absurd mem List.not_mem_nil

/-- In a tracked heap whose releases do not raise, a run makes no box that is not released once or
delivered, and releases nothing else. -/
theorem released_or_delivered {text : HandleId → Prop} {s : Store} {ctx : Context} {h : HandleId}
    {c : Cursor} {ending : Ending Result} {run : Run}
    (tracked : s.grammar.Tracked Release.Quiet text)
    (call : (withNested compute nested).call ctx h c s = (ending, run)) :
    (∀ message, ending ≠ .aborted message) ∧
    ∀ id, run.passes id + count id (delivered ending) =
      if s.boxes < id ∧ id ≤ run.store.boxes then 1 else 0 := by
  obtain ⟨unaborted, owned, passes, exact⟩ :=
    call_accounts (fun _ quiet => quiet.ordinary) tracked call
  refine ⟨unaborted, fun id => ?_⟩
  rw [passes id, called_of_exact id _ (exact fun _ quiet => quiet)]
  exact owned id

def pair (release : Release) : Store where
  grammar := ⟨#[{ status := .defined ⟨0, .literal "a"⟩ }, { status := .defined ⟨1, .literal "b"⟩ },
    { status := .defined ⟨2, .apply 0 .box⟩ }, { status := .defined ⟨3, .apply 1 .box⟩ },
    { status := .defined ⟨4, .sequence (.box (some release))
      [(2, some release), (3, some release)]⟩ }]⟩

theorem tracked_pair {ok : Release → Prop} {release : Release} (allowed : ok release) :
    (pair release).grammar.Tracked ok (· < 2) where
  node h body status := by
    rcases h with _ | _ | _ | _ | _ | h
    · cases status
      trivial
    · cases status
      trivial
    · cases status
      exact Nat.zero_lt_two
    · cases status
      exact Nat.one_lt_two
    · cases status
      refine ⟨⟨release, rfl, allowed⟩, fun item mem => ⟨release, ?_, allowed⟩⟩
      simp only [List.mem_cons, List.not_mem_nil, or_false] at mem
      rcases mem with rfl | rfl <;> rfl
    · rw [Grammar.get_of_size_le (by simp [pair, Grammar.size])] at status
      cases status
  wraps h lt body status := by
    rcases h with _ | _ | h
    · cases status
      trivial
    · cases status
      trivial
    · exact absurd (show h + 2 < 2 from lt) (by omega)
  filled h lt := by
    rcases h with _ | _ | h
    · intro undefined
      cases undefined
    · intro undefined
      cases undefined
    · exact absurd (show h + 2 < 2 from lt) (by omega)

def quiet : Release := .logged "release" [] (.fault "")

def flat : Meaning := withNested Operator.apply fun _ _ => Proc.raise .nestingLimit

theorem pair_released_or_delivered :
    (pair quiet).grammar.Tracked Release.Quiet (· < 2) ∧
    ∀ id, (flat.call (.fresh .standard) 4 (.start #['a', 'b']) (pair quiet)).2.passes id +
        count id (delivered (flat.call (.fresh .standard) 4 (.start #['a', 'b']) (pair quiet)).1) =
      if 0 < id ∧ id ≤ 3 then 1 else 0 := by
  have tracked : (pair quiet).grammar.Tracked Release.Quiet (· < 2) := tracked_pair rfl
  have boxes : (flat.call (.fresh .standard) 4 (.start #['a', 'b']) (pair quiet)).2.store.boxes =
      3 := by decide +kernel
  have balance := (released_or_delivered tracked
    (Prod.eta (flat.call (.fresh .standard) 4 (.start #['a', 'b']) (pair quiet))).symm).2
  refine ⟨tracked, fun id => ?_⟩
  rw [← boxes]
  exact balance id

/-- Whichever releases of a tracked heap raise, every box that a run makes and does not deliver is
released once just if the passes share out the boxes wherever values are settled. -/
theorem released_once_iff {text : HandleId → Prop} {s : Store} {ctx : Context} {h : HandleId}
    {c : Cursor} {ending : Ending Result} {run : Run}
    (tracked : s.grammar.Tracked Release.Ordinary text)
    (call : (withNested compute nested).call ctx h c s = (ending, run)) :
    (∀ id, s.boxes < id → id ≤ run.store.boxes → count id (delivered ending) = 0 →
      run.passes id = 1) ↔
    ∀ x ∈ run.settlements, x.Exact := by
  obtain ⟨_, owned, passes, _⟩ := call_accounts (fun _ ordinary => ordinary) tracked call
  have once : ∀ id, settled id run.settlements ≤ 1 := by
    intro id
    have owned := owned id
    split at owned <;> omega
  rw [exact_iff_called once]
  constructor
  · intro released id
    have owned := owned id
    have le := called_le id run.settlements
    by_cases made : s.boxes < id ∧ id ≤ run.store.boxes
    · rw [if_pos made] at owned
      by_cases kept : count id (delivered ending) = 0
      · have once := released id made.1 made.2 kept
        rw [passes id] at once
        omega
      · omega
    · rw [if_neg made] at owned
      omega
  · intro same id new there kept
    have owned := owned id
    rw [if_pos ⟨new, there⟩] at owned
    rw [passes id, same id]
    omega

def touchy : Release := .logged "release" [1] (.fault "x")

theorem pair_released_once_iff :
    (pair touchy).grammar.Tracked Release.Ordinary (· < 2) ∧
    ((∀ id, 0 < id →
        id ≤ (flat.call (.fresh .standard) 4 (.start #['a', 'x']) (pair touchy)).2.store.boxes →
        count id (delivered
          (flat.call (.fresh .standard) 4 (.start #['a', 'x']) (pair touchy)).1) = 0 →
        (flat.call (.fresh .standard) 4 (.start #['a', 'x']) (pair touchy)).2.passes id = 1) ↔
      ∀ x ∈ (flat.call (.fresh .standard) 4 (.start #['a', 'x']) (pair touchy)).2.settlements,
        x.Exact) := by
  have tracked : (pair touchy).grammar.Tracked Release.Ordinary (· < 2) :=
    tracked_pair (.inr ⟨"x", rfl⟩)
  exact ⟨tracked, released_once_iff tracked
    (Prod.eta (flat.call (.fresh .standard) 4 (.start #['a', 'x']) (pair touchy))).symm⟩

/-- The release of the first letter raises, and its fault has the letter released again. -/
theorem pair_released_twice :
    (pair touchy).grammar.Tracked Release.Ordinary (· < 2) ∧
    (flat.call (.fresh .standard) 4 (.start #['a', 'x']) (pair touchy)).2.store.boxes = 1 ∧
    count 1 (delivered (flat.call (.fresh .standard) 4 (.start #['a', 'x']) (pair touchy)).1) = 0 ∧
    (flat.call (.fresh .standard) 4 (.start #['a', 'x']) (pair touchy)).2.passes 1 = 2 := by
  refine ⟨tracked_pair (.inr ⟨"x", rfl⟩), ?_, ?_, ?_⟩ <;> decide +kernel

end Meaning

end Peg
