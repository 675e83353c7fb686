import Peg.Proofs.Run.After

namespace Peg

def Held.uniform (release : Option Release) (vs : List Value) : Held := vs.map fun v => (v, release)

@[simp] theorem Held.length_uniform (release : Option Release) (vs : List Value) :
    (Held.uniform release vs).length = vs.length := List.length_map ..

@[simp] theorem Held.uniform_append (release : Option Release) (vs : List Value) (v : Value) :
    Held.uniform release vs ++ [(v, release)] = Held.uniform release (vs ++ [v]) := by
  simp [uniform]

@[simp] theorem Held.map_fst_uniform (release : Option Release) (vs : List Value) :
    (Held.uniform release vs).map (·.1) = vs := by
  simp [uniform, Function.comp_def]

namespace Meaning

/-- Calls of an item one after another, each of which yields a value and moves. What they entered
into their journals is kept, the latest first. -/
inductive Strides (m : Meaning) (ctx : Context) (item : HandleId) :
    Cursor → Store → List Value → List Entry → Cursor → Store → Prop where
  | nil {c : Cursor} {s : Store} : Strides m ctx item c s [] [] c s
  | cons {c next last : Cursor} {s t : Store} {v : Value} {run : Run} {vs : List Value}
      {told : List Entry} : m.call ctx item c s = (.done (.success v next), run) →
      c.pos < next.pos → Strides m ctx item next run.store vs told last t →
      Strides m ctx item c s (v :: vs) (told ++ run.journal) last t

/-- The last turn of a repetition without a bound, values being held, and what is made of them
after it. -/
inductive LastTurn (m : Meaning) (ctx : Context) (fold : Fold) (item : HandleId) (least : Int)
    (release : Option Release) (vs : List Value) (c : Cursor) (s : Store) :
    Ending Result → Run → Prop where
  | failed {f : Failure} {run run' : Run} {ending : Ending Value} :
      m.call ctx item c s = (.done (.failure f), run) → least ≤ (vs.length : Int) →
      m.runFold fold vs run = (ending, run') →
      LastTurn m ctx fold item least release vs c s (ending.map (.success · c)) run'
  | short {f : Failure} {run run' : Run} {ending : Ending Result} :
      m.call ctx item c s = (.done (.failure f), run) → (vs.length : Int) < least →
      m.giveUp (.uniform release vs) f run = (ending, run') →
      LastTurn m ctx fold item least release vs c s ending run'
  | still {v : Value} {next : Cursor} {run run' : Run} {ending : Ending Value} :
      m.call ctx item c s = (.done (.success v next), run) → next.pos = c.pos →
      m.runFold fold (vs ++ [v]) run = (ending, run') →
      LastTurn m ctx fold item least release vs c s (ending.map (.success · next)) run'
  | raised {fault : Fault} {run run' : Run} {ending : Ending Result} :
      m.call ctx item c s = (.raised fault, run) →
      m.unwind (.uniform release vs) fault run = (ending, run') →
      LastTurn m ctx fold item least release vs c s ending run'
  | aborted {message : String} {run : Run} : m.call ctx item c s = (.aborted message, run) →
      LastTurn m ctx fold item least release vs c s (.aborted message) run

variable {m : Meaning} {ctx : Context} {fold : Fold} {item : HandleId} {least : Int}
  {release : Option Release} {c last : Cursor} {s t : Store} {vs : List Value}

theorem Strides.reaches {told : List Entry} (strides : m.Strides ctx item c s vs told last t) :
    last.input = c.input ∧ c.pos + vs.length ≤ last.pos := by
  induction strides with
  | nil => exact ⟨rfl, Nat.le_refl _⟩
  | @cons c next last s t v run vs told call moved _ ih =>
    have ran := ran_call (m := m) ctx item c s
    rw [call] at ran
    obtain ⟨input, le⟩ := ih
    refine ⟨input.trans ran.reaches.1, ?_⟩
    rw [List.length_cons]
    omega

theorem Strides.length_le {told : List Entry} (strides : m.Strides ctx item c s vs told last t) :
    vs.length ≤ c.input.size - c.pos := by
  obtain ⟨input, le⟩ := strides.reaches
  have within := last.pos_le
  rw [input] at within
  omega

theorem Ran.turn {held : Held} {s s' : Run} {ending : Ending Result} (guard : s.guard = ctx.guard)
    (ran : m.Ran ctx.config.trace (.waiting item held) c s ending s') :
    ∃ ending₁ run, m.call ctx item c s.store = (ending₁, run) ∧
      ((∃ fault, ending₁ = .raised fault ∧
          m.unwind held fault (run.after s.journal) = (ending, s')) ∨
        ((∀ fault, ending₁ ≠ .raised fault) ∧ ending = ending₁ ∧ s' = run.after s.journal)) := by
  cases ran with
  | awaited call unraised =>
    obtain ⟨run, alone, rfl⟩ := call.call_eq ctx guard
    exact ⟨_, run, alone, .inr ⟨unraised, rfl, rfl⟩⟩
  | unwound call pass =>
    obtain ⟨run, alone, rfl⟩ := call.call_eq ctx guard
    exact ⟨_, run, alone, .inl ⟨_, rfl, pass⟩⟩

theorem Ran.turn_done {held : Held} {s s' : Run} {r : Result} (guard : s.guard = ctx.guard)
    (ran : m.Ran ctx.config.trace (.waiting item held) c s (.done r) s') :
    ∃ run, m.call ctx item c s.store = (.done r, run) ∧ s' = run.after s.journal := by
  obtain ⟨_, run, call, ⟨_, _, pass⟩ | ⟨_, rfl, rfl⟩⟩ := ran.turn guard
  · exact absurd rfl (unwind_ne_done pass r)
  · exact ⟨run, call, rfl⟩

theorem Ran.finished {held : Held} {run s' : Run} {before : List Entry} {ending : Ending Result}
    {trace : Bool} (ran : m.Ran trace (.finish fold held) c (run.after before) ending s') :
    ∃ ending₁ run', m.runFold fold (held.map (·.1)) run = (ending₁, run') ∧
      ending = ending₁.map (.success · c) ∧ s' = run'.after before := by
  cases ran with
  | folded work =>
    cases work
    exact ⟨_, _, rfl, rfl, rfl⟩

theorem Ran.givenUp {held : Held} {f : Failure} {run s' : Run} {before : List Entry}
    {ending : Ending Result} {trace : Bool}
    (ran : m.Ran trace (.giveUp held f) c (run.after before) ending s') :
    ∃ run', m.giveUp held f run = (ending, run') ∧ s' = run'.after before := by
  cases ran with
  | gaveUp pass =>
    rcases alone : m.giveUp held f run with ⟨ending', run'⟩
    have pass' := giveUp_after alone before
    rw [pass] at pass'
    cases pass'
    exact ⟨run', rfl, rfl⟩

theorem Ran.moved {trace : Bool} {held : Held} {v : Value} {next : Cursor} {s s' : Run}
    (wait : m.Ran trace (.waiting item held) c s (.done (.success v next)) s')
    (moved : ¬ Still none c next) :
    c.pos < next.pos ∧ next.input.size - next.pos < c.input.size - c.pos := by
  obtain ⟨input, le⟩ := wait.reaches
  have forward : c.pos < next.pos := Nat.lt_of_le_of_ne le fun eq => moved ⟨rfl, eq.symm⟩
  have within := next.pos_le
  rw [input] at within ⊢
  omega

theorem Ran.strides (ctx : Context) {s s' : Run} {ending : Ending Result}
    (guard : s.guard = ctx.guard)
    (ran : m.Ran ctx.config.trace (.turns fold item least none release (.uniform release vs)) c s
      ending s') :
    ∃ more told last t run, m.Strides ctx item c s.store more told last t ∧
      m.LastTurn ctx fold item least release (vs ++ more) last t ending run ∧
      s' = run.after (told ++ s.journal) := by
  -- The characters that are left bound the turns that move.
  induction left : c.input.size - c.pos using Nat.strongRecOn generalizing c vs s with
  | _ left ih =>
    subst left
    cases ran with
    | turnsFull full =>
      obtain ⟨_, bound, _⟩ := full
      cases bound
    | @turnMoved _ _ _ _ _ _ _ _ v _ _ _ _ _ wait moved rest =>
      obtain ⟨run, call, rfl⟩ := wait.turn_done guard
      obtain ⟨forward, fewer⟩ := wait.moved moved
      have same : (run.after s.journal).guard = ctx.guard := wait.guard_eq.trans guard
      rw [Held.uniform_append] at rest
      obtain ⟨more, told, last, t, run', strides, final, rfl⟩ := ih _ fewer same rest rfl
      refine ⟨v :: more, told ++ run.journal, last, t, run', .cons call forward strides, ?_, ?_⟩
      · simpa using final
      · simp [Run.after]
    | turnStill _ wait still rest =>
      obtain ⟨run, call, rfl⟩ := wait.turn_done guard
      obtain ⟨_, run', folded, rfl, rfl⟩ := rest.finished
      rw [Held.uniform_append, Held.map_fst_uniform] at folded
      exact ⟨[], [], c, s.store, run', .nil, by simpa using .still call still.2 folded, rfl⟩
    | turnFailed _ wait enough rest =>
      obtain ⟨run, call, rfl⟩ := wait.turn_done guard
      obtain ⟨_, run', folded, rfl, rfl⟩ := rest.finished
      rw [Held.map_fst_uniform] at folded
      rw [Held.length_uniform] at enough
      exact ⟨[], [], c, s.store, run', .nil, by simpa using .failed call enough folded, rfl⟩
    | turnShort _ wait short rest =>
      obtain ⟨run, call, rfl⟩ := wait.turn_done guard
      obtain ⟨run', gaveUp, rfl⟩ := rest.givenUp
      rw [Held.length_uniform] at short
      exact ⟨[], [], c, s.store, run', .nil, by simpa using .short call short gaveUp, rfl⟩
    | turnEnded _ wait early =>
      obtain ⟨ending₁, run, call, ⟨fault, rfl, pass⟩ | ⟨unraised, rfl, rfl⟩⟩ := wait.turn guard
      · rcases alone : m.unwind (.uniform release vs) fault run with ⟨ending', run'⟩
        have pass' := unwind_after alone s.journal
        rw [pass] at pass'
        cases pass'
        exact ⟨[], [], c, s.store, run', .nil, by simpa using .raised call alone, rfl⟩
      · rcases ending with r | fault | message
        · exact absurd rfl (early r)
        · exact absurd rfl (unraised fault)
        · exact ⟨[], [], c, s.store, run, .nil, by simpa using .aborted call, rfl⟩

end Meaning

end Peg
