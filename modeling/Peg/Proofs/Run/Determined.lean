import Peg.Proofs.Run.Stages

namespace Peg

namespace Meaning

variable {m : Meaning} {trace : Bool}

/-- Rules for one stage are told apart by how its first part ends or by their side conditions. -/
theorem Ran.unique {stage : Stage} {c : Cursor} {s s₁ s₂ : Run} {ending₁ ending₂ : Ending Result}
    (ran₁ : m.Ran trace stage c s ending₁ s₁) (ran₂ : m.Ran trace stage c s ending₂ s₂) :
    ending₁ = ending₂ ∧ s₁ = s₂ := by
  -- The rule of the second run is found by cases; any other than the same one has a side condition
  -- or a first part that contradicts those of the first.
  induction ran₁ generalizing ending₂ s₂ with
  | missing missing =>
    cases ran₂ with
    | missing missing' =>
      rw [missing] at missing'
      cases missing'
      exact ⟨rfl, rfl⟩
    | refused status | entered status => simp [Handle.fault?, status] at missing
  | refused status enter =>
    cases ran₂ with
    | missing missing => simp [Handle.fault?, status] at missing
    | refused _ enter' =>
      rw [enter] at enter'
      cases enter'
      exact ⟨rfl, rfl⟩
    | entered _ enter' =>
      rw [enter] at enter'
      cases enter'
  | entered status enter _ ih =>
    cases ran₂ with
    | missing missing => simp [Handle.fault?, status] at missing
    | refused _ enter' =>
      rw [enter] at enter'
      cases enter'
    | entered status' enter' inside =>
      rw [status] at status'
      rw [enter] at enter'
      cases status'
      cases enter'
      obtain ⟨rfl, rfl⟩ := ih inside
      exact ⟨rfl, rfl⟩
  | leaf leaf =>
    cases ran₂ with
    | leaf leaf' => exact ⟨congrArg _ (leaf.unique leaf'), rfl⟩
    | choice | sequence | repetition | applied | unapplied | expect => cases leaf
  | choice _ ih =>
    cases ran₂ with
    | leaf leaf => cases leaf
    | choice ran => exact ih ran
  | exhausted =>
    cases ran₂
    exact ⟨rfl, rfl⟩
  | settled _ unfailed ih =>
    cases ran₂ with
    | settled ran => exact ih ran
    | passed ran =>
      obtain ⟨rfl, _⟩ := ih ran
      exact absurd rfl (unfailed _)
  | passed _ _ ih ih' =>
    cases ran₂ with
    | settled ran unfailed =>
      obtain ⟨rfl, _⟩ := ih ran
      exact absurd rfl (unfailed _)
    | passed ran rest =>
      obtain ⟨same, rfl⟩ := ih ran
      cases same
      exact ih' rest
  | awaited _ unraised ih =>
    cases ran₂ with
    | awaited ran => exact ih ran
    | unwound ran =>
      obtain ⟨rfl, _⟩ := ih ran
      exact absurd rfl (unraised _)
  | unwound _ pass ih =>
    cases ran₂ with
    | awaited ran unraised =>
      obtain ⟨rfl, _⟩ := ih ran
      exact absurd rfl (unraised _)
    | unwound ran pass' =>
      obtain ⟨same, rfl⟩ := ih ran
      cases same
      rw [pass] at pass'
      cases pass'
      exact ⟨rfl, rfl⟩
  | folded work =>
    cases ran₂ with
    | folded work' =>
      rw [work] at work'
      cases work'
      exact ⟨rfl, rfl⟩
  | gaveUp pass =>
    cases ran₂ with
    | gaveUp pass' =>
      rw [pass] at pass'
      cases pass'
      exact ⟨rfl, rfl⟩
  | sequence _ ih =>
    cases ran₂ with
    | leaf leaf => cases leaf
    | sequence ran => exact ih ran
  | itemsDone _ ih =>
    cases ran₂ with
    | itemsDone ran => exact ih ran
  | itemDone _ _ ih ih' =>
    cases ran₂ with
    | itemDone ran rest =>
      obtain ⟨same, rfl⟩ := ih ran
      cases same
      exact ih' rest
    | itemFailed ran => cases (ih ran).1
    | itemEnded ran early =>
      obtain ⟨rfl, _⟩ := ih ran
      exact absurd rfl (early _)
  | itemFailed _ _ ih ih' =>
    cases ran₂ with
    | itemDone ran => cases (ih ran).1
    | itemFailed ran rest =>
      obtain ⟨same, rfl⟩ := ih ran
      cases same
      exact ih' rest
    | itemEnded ran early =>
      obtain ⟨rfl, _⟩ := ih ran
      exact absurd rfl (early _)
  | itemEnded _ early ih =>
    cases ran₂ with
    | itemDone ran | itemFailed ran =>
      obtain ⟨rfl, _⟩ := ih ran
      exact absurd rfl (early _)
    | itemEnded ran => exact ih ran
  | repetition _ ih =>
    cases ran₂ with
    | leaf leaf => cases leaf
    | repetition ran => exact ih ran
  | turnsFull full _ ih =>
    cases ran₂ with
    | turnsFull _ ran => exact ih ran
    | turnMoved more | turnStill more | turnFailed more | turnShort more | turnEnded more =>
      exact absurd full more
  | turnMoved more _ moved _ ih ih' =>
    cases ran₂ with
    | turnsFull full => exact absurd full more
    | turnMoved _ ran _ rest =>
      obtain ⟨same, rfl⟩ := ih ran
      cases same
      exact ih' rest
    | turnStill _ ran still =>
      obtain ⟨same, _⟩ := ih ran
      cases same
      exact absurd still moved
    | turnFailed _ ran | turnShort _ ran => cases (ih ran).1
    | turnEnded _ ran early =>
      obtain ⟨rfl, _⟩ := ih ran
      exact absurd rfl (early _)
  | turnStill more _ still _ ih ih' =>
    cases ran₂ with
    | turnsFull full => exact absurd full more
    | turnMoved _ ran moved =>
      obtain ⟨same, _⟩ := ih ran
      cases same
      exact absurd still moved
    | turnStill _ ran _ rest =>
      obtain ⟨same, rfl⟩ := ih ran
      cases same
      exact ih' rest
    | turnFailed _ ran | turnShort _ ran => cases (ih ran).1
    | turnEnded _ ran early =>
      obtain ⟨rfl, _⟩ := ih ran
      exact absurd rfl (early _)
  | turnFailed more _ enough _ ih ih' =>
    cases ran₂ with
    | turnsFull full => exact absurd full more
    | turnMoved _ ran | turnStill _ ran => cases (ih ran).1
    | turnFailed _ ran _ rest =>
      obtain ⟨_, rfl⟩ := ih ran
      exact ih' rest
    | turnShort _ _ short => exact absurd short (Int.not_lt.mpr enough)
    | turnEnded _ ran early =>
      obtain ⟨rfl, _⟩ := ih ran
      exact absurd rfl (early _)
  | turnShort more _ short _ ih ih' =>
    cases ran₂ with
    | turnsFull full => exact absurd full more
    | turnMoved _ ran | turnStill _ ran => cases (ih ran).1
    | turnFailed _ _ enough => exact absurd short (Int.not_lt.mpr enough)
    | turnShort _ ran _ rest =>
      obtain ⟨same, rfl⟩ := ih ran
      cases same
      exact ih' rest
    | turnEnded _ ran early =>
      obtain ⟨rfl, _⟩ := ih ran
      exact absurd rfl (early _)
  | turnEnded more _ early ih =>
    cases ran₂ with
    | turnsFull full => exact absurd full more
    | turnMoved _ ran | turnStill _ ran | turnFailed _ ran | turnShort _ ran =>
      obtain ⟨rfl, _⟩ := ih ran
      exact absurd rfl (early _)
    | turnEnded _ ran => exact ih ran
  | applied _ work ih =>
    cases ran₂ with
    | leaf leaf => cases leaf
    | applied ran work' =>
      obtain ⟨same, rfl⟩ := ih ran
      cases same
      rw [work] at work'
      cases work'
      exact ⟨rfl, rfl⟩
    | unapplied ran unsuccessful =>
      obtain ⟨rfl, _⟩ := ih ran
      exact absurd rfl (unsuccessful _ _)
  | unapplied _ unsuccessful ih =>
    cases ran₂ with
    | leaf leaf => cases leaf
    | applied ran =>
      obtain ⟨rfl, _⟩ := ih ran
      exact absurd rfl (unsuccessful _ _)
    | unapplied ran => exact ih ran
  | expect _ ih =>
    cases ran₂ with
    | leaf leaf => cases leaf
    | expect ran =>
      obtain ⟨rfl, rfl⟩ := ih ran
      exact ⟨rfl, rfl⟩

end Meaning

end Peg
