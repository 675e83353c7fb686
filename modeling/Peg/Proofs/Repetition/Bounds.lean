import Mathlib
import Peg.Callback.Standard
import Peg.Proofs.Repetition.Turns

namespace Peg

namespace Meaning

variable {m : Meaning} {ctx : Context} {fold : Fold} {item : HandleId} {least : Int}
  {release : Option Release} {c : Cursor} {s : Store}

/-- A turn did not move before there were as many values as a lower bound asks for. -/
def CutShort (m : Meaning) (ctx : Context) (item : HandleId) (least : Int) (c : Cursor)
    (s : Store) : Prop :=
  ∃ vs told last t v next run, m.Strides ctx item c s vs told last t ∧
    m.call ctx item last t = (.done (.success v next), run) ∧ next.pos = last.pos ∧
    (vs.length : Int) + 1 < least

def Stays (m : Meaning) (ctx : Context) (item : HandleId) (c : Cursor) (s : Store) : Prop :=
  ∀ v next run, m.call ctx item c s = (.done (.success v next), run) → next.pos ≤ c.pos

theorem Stays.of_failed {f : Failure} {run : Run}
    (call : m.call ctx item c s = (.done (.failure f), run)) : m.Stays ctx item c s := by
  intro v next run again
  rw [call] at again
  cases again

theorem Stays.of_still {v : Value} {next : Cursor} {run : Run}
    (call : m.call ctx item c s = (.done (.success v next), run)) (still : next.pos = c.pos) :
    m.Stays ctx item c s := by
  intro v next run again
  rw [call] at again
  cases again
  exact Nat.le_of_eq still

theorem Strides.unique {vs vs' : List Value} {told told' : List Entry} {last last' : Cursor}
    {t t' : Store} (strides : m.Strides ctx item c s vs told last t)
    (stays : m.Stays ctx item last t) (strides' : m.Strides ctx item c s vs' told' last' t')
    (stays' : m.Stays ctx item last' t') : vs' = vs ∧ last' = last ∧ t' = t := by
  induction strides generalizing vs' told' with
  | nil =>
    cases strides' with
    | nil => exact ⟨rfl, rfl, rfl⟩
    | cons call moved => exact absurd moved (Nat.not_lt.mpr (stays _ _ _ call))
  | cons call moved _ ih =>
    cases strides' with
    | nil => exact absurd moved (Nat.not_lt.mpr (stays' _ _ _ call))
    | cons call' _ rest =>
      rw [call] at call'
      cases call'
      obtain ⟨rfl, rfl, rfl⟩ := ih stays rest
      exact ⟨rfl, rfl, rfl⟩

section

variable {trace : Bool} {n : Int} {held : Held} {v : Value} {next : Cursor} {s s' : Run}

theorem Ran.finish_folded {ending : Ending Result}
    (ran : m.Ran trace (.finish fold held) c s ending s')
    (success : ending = .done (.success v next)) :
    m.runFold fold (held.map (·.1)) s = (.done v, s') ∧ next = c := by
  cases ran with
  | @folded _ _ _ _ ending _ work =>
    cases ending <;> cases success
    exact ⟨work, rfl⟩

theorem Ran.folded_within (least_le : least ≤ n) (held_le : (held.length : Int) ≤ n)
    (ran : m.Ran trace (.turns fold item least (some n) release held) c s (.done (.success v next))
      s') :
    ∃ vs before, m.runFold fold vs before = (.done v, s') ∧
      least ≤ (vs.length : Int) ∧ (vs.length : Int) ≤ n := by
  -- The turns that the upper bound still allows: none are left exactly where it is reached.
  induction left : (n - held.length).toNat generalizing held c s with
  | zero =>
    have full : Full (some n) held.length := ⟨n, rfl, by omega⟩
    cases ran with
    | turnsFull _ finish =>
      obtain ⟨folded, _⟩ := finish.finish_folded rfl
      refine ⟨_, s, folded, ?_, ?_⟩ <;> rw [List.length_map] <;> omega
    | turnMoved more | turnStill more | turnFailed more | turnShort more | turnEnded more =>
      exact absurd full more
  | succ left ih =>
    cases ran with
    | turnsFull full =>
      obtain ⟨_, bound, le⟩ := full
      cases bound
      omega
    | turnMoved _ _ _ rest =>
      refine ih ?_ rest ?_ <;> rw [List.length_append, List.length_singleton] <;> omega
    | turnStill _ _ still => nomatch still.1
    | @turnFailed _ _ _ _ _ _ _ _ _ s₁ _ _ _ _ enough finish =>
      obtain ⟨folded, _⟩ := finish.finish_folded rfl
      refine ⟨_, s₁, folded, ?_, ?_⟩ <;> rwa [List.length_map]
    | turnShort _ _ _ rest =>
      cases rest with
      | gaveUp pass => cases giveUp_done pass
    | turnEnded _ _ early => exact absurd rfl (early _)

end

theorem LastTurn.folded_iff {vs : List Value} {told : List Entry} {last next : Cursor} {t : Store}
    {v : Value} {run : Run} (strides : m.Strides ctx item c s vs told last t)
    (final : m.LastTurn ctx fold item least release vs last t (.done (.success v next)) run) :
    ∃ vs' before, m.runFold fold vs' before = (.done v, run) ∧
      ((vs'.length : Int) < least ↔ m.CutShort ctx item least c s) := by
  generalize eq : Ending.done (Result.success v next) = ending at final
  cases final with
  | @failed f before _ ending call enough folded =>
    cases ending <;> cases eq
    refine ⟨vs, before, folded, fun short => by omega, ?_⟩
    rintro ⟨_, _, _, _, _, _, _, strides', call', still, _⟩
    obtain ⟨rfl, rfl, rfl⟩ := strides.unique (.of_failed call) strides' (.of_still call' still)
    rw [call] at call'
    cases call'
  | short _ _ pass => cases giveUp_done (eq ▸ pass)
  | @still w after before _ ending call still folded =>
    cases ending <;> cases eq
    refine ⟨vs ++ [w], before, folded, fun short => ?_, ?_⟩
    · rw [List.length_append, List.length_singleton] at short
      exact ⟨vs, told, last, t, w, next, before, strides, call, still, by omega⟩
    · rintro ⟨_, _, _, _, _, _, _, strides', call', still', short⟩
      obtain ⟨rfl, rfl, rfl⟩ :=
        strides.unique (.of_still call still) strides' (.of_still call' still')
      rw [List.length_append, List.length_singleton]
      omega
  | raised _ pass => exact absurd eq.symm (unwind_ne_done pass _)
  | aborted => cases eq

/-- A repetition that succeeds has folded some values at the end: no more than its upper bound, and
as many as its lower bound asks for unless it has no upper bound and a turn did not move before
there were so many. -/
theorem call_repetition {most : Option Int} (nonneg : 0 ≤ least)
    (ordered : ∀ n, most = some n → least ≤ n) {h : HandleId}
    (holds : s.grammar.Holds h (.repetition fold item least most release)) {v : Value}
    {next : Cursor} (success : (m.call ctx h c s).1 = .done (.success v next)) :
    ∃ g vs before run, ctx.guard.enter = .ok g ∧ m.runFold fold vs before = (.done v, run) ∧
      (m.call ctx h c s).2 = run.within ctx h (.repetition fold item least most release) c s g
        (.done (.success v next)) ∧
      (∀ n, most = some n → (vs.length : Int) ≤ n) ∧
      ((vs.length : Int) < least ↔ most = none ∧ m.CutShort ⟨ctx.config, g⟩ item least c s) := by
  obtain ⟨_, _, refused⟩ | ⟨g, ending, run, enter, ran, call⟩ := call_cases m ctx c holds
  · rw [refused] at success
    cases success
  · rw [call] at success ⊢
    obtain rfl : ending = .done (.success v next) := success
    cases ran with
    | leaf leaf => cases leaf
    | repetition turns =>
      cases most with
      | some n =>
        have least_le := ordered n rfl
        have none_held : ((List.length ([] : Held) : Nat) : Int) ≤ n := Int.le_trans nonneg least_le
        obtain ⟨vs, before, folded, enough, within⟩ := turns.folded_within least_le none_held
        refine ⟨g, vs, before, run, enter, folded, rfl, ?_, fun short => by omega, nofun⟩
        rintro _ ⟨⟩
        exact within
      | none =>
        have none_held : m.Ran ctx.config.trace
          (.turns fold item least none release (.uniform release [])) c ⟨s, g, []⟩ _ run := turns
        obtain ⟨_, told, _, _, run', strides, final, rfl⟩ :=
          none_held.strides ⟨ctx.config, g⟩ rfl
        obtain ⟨vs, before, folded, short_iff⟩ := final.folded_iff strides
        exact ⟨g, vs, _, _, enter, runFold_after folded _, rfl, nofun, by simpa using short_iff⟩

def blanks : Store where
  grammar := ⟨#[{ status := .defined ⟨0, .pure (.integer 7)⟩ },
    { status := .defined ⟨1, .repetition .size 0 2 none none⟩ },
    { status := .defined ⟨2, .literal "a"⟩ },
    { status := .defined ⟨3, .repetition .size 2 2 (some 3) none⟩ }]⟩

def fourLetters : Cursor := .start #['a', 'a', 'a', 'a']

/-- Of four letters three are taken. -/
theorem blanks_bounded :
    (0 : Int) ≤ 2 ∧ (∀ n, some (3 : Int) = some n → (2 : Int) ≤ n) ∧
    blanks.grammar.Holds 3 (.repetition .size 2 2 (some 3) none) ∧
    (usual.call shallow 3 fourLetters blanks).1 =
      .done (.success (.integer 3) ⟨#['a', 'a', 'a', 'a'], 3, by decide⟩) ∧
    ∃ vs before run, usual.runFold .size vs before = (.done (.integer 3), run) ∧
      (2 : Int) ≤ vs.length ∧ (vs.length : Int) ≤ 3 := by
  have holds : blanks.grammar.Holds 3 (.repetition .size 2 2 (some 3) none) := ⟨_, rfl, rfl⟩
  have ordered : ∀ n, some (3 : Int) = some n → (2 : Int) ≤ n := by
    rintro n ⟨⟩
    decide
  have three : (usual.call shallow 3 fourLetters blanks).1 =
      .done (.success (.integer 3) ⟨#['a', 'a', 'a', 'a'], 3, by decide⟩) := by cbv
  obtain ⟨_, vs, before, run, _, folded, _, at_most, short_iff⟩ :=
    call_repetition (by decide) ordered holds three
  have enough : ¬ (vs.length : Int) < 2 := fun short =>
    Option.some_ne_none 3 (short_iff.mp short).1
  exact ⟨by decide, ordered, holds, three, vs, before, run, folded, by omega, at_most 3 rfl⟩

/-- Nothing is found once and, since that does not move, not sought again, though it was to be found
twice. -/
theorem blanks_short :
    (0 : Int) ≤ 2 ∧ blanks.grammar.Holds 1 (.repetition .size 0 2 none none) ∧
    (usual.call shallow 1 (.start #[]) blanks).1 =
      .done (.success (.integer 1) (.start #[])) ∧
    ∃ vs events depth, Entry.folded .size vs (.done (.integer 1)) events depth ∈
        (usual.call shallow 1 (.start #[]) blanks).2.journal ∧ (vs.length : Int) < 2 := by
  have journal : (usual.call shallow 1 (.start #[]) blanks).2.journal =
      [.left 1 (.done (.success (.integer 1) (.start #[]))) 0,
        .folded .size [.integer 7] (.done (.integer 1)) [] 1,
        .left 0 (.done (.success (.integer 7) (.start #[]))) 1,
        .entered 0 (.pure (.integer 7)) 0 2,
        .entered 1 (.repetition .size 0 2 none none) 0 1] := by cbv
  refine ⟨by decide, ⟨_, rfl, rfl⟩, by cbv, [.integer 7], [], 1, ?_, by decide⟩
  rw [journal]
  exact List.mem_cons_of_mem _ (List.mem_cons_self ..)

end Meaning

end Peg
