import Peg.Proofs.Run.Calls
import Peg.Proofs.Run.Determined

namespace Peg

namespace Guard

/-- How something ends that needs so many levels. -/
def allows (g : Guard) (depth : Nat) (ending : Ending Result) : Ending Result :=
  if depth ≤ g.room then ending else .raised (.depthLimit g.maxDepth)

variable {g : Guard} {d e : Nat} {ending : Ending Result}

theorem allows_of_le (le : d ≤ g.room) : g.allows d ending = ending := if_pos le

theorem allows_of_lt (lt : g.room < d) : g.allows d ending = .raised (.depthLimit g.maxDepth) :=
  if_neg (Nat.not_le.mpr lt)

theorem allows_zero : g.allows 0 ending = ending := allows_of_le (Nat.zero_le _)

theorem allows_cases (g : Guard) (d : Nat) (ending : Ending Result) :
    g.allows d ending = ending ∨ ∃ fault, g.allows d ending = .raised fault := by
  unfold allows
  split
  · exact .inl rfl
  · exact .inr ⟨_, rfl⟩

theorem allows_max_of_le (le : d ≤ g.room) : g.allows (max d e) ending = g.allows e ending := by
  simp only [allows, Nat.max_le, le, true_and]

theorem allows_max_of_lt (lt : g.room < d) :
    g.allows (max d e) ending = .raised (.depthLimit g.maxDepth) :=
  allows_of_lt (Nat.lt_of_lt_of_le lt (Nat.le_max_left ..))

theorem allows_of_enter {g' : Guard} (enter : g.enter = .ok g') :
    g.allows (d + 1) ending = g'.allows d ending := by
  have room := room_of_enter enter
  obtain ⟨_, rfl⟩ := enter_eq_ok_iff.mp enter
  simp only [allows, room, Nat.add_le_add_iff_right]

end Guard

def Callback.Gives {α : Type} (work : Callback α) (ending : Ending α) : Prop :=
  ∀ s, (work s).ending = ending ∧ (work s).store = s

def Ending.ofExcept {α : Type} : Except Fault α → Ending α
  | .ok a => .done a
  | .error fault => .raised fault

theorem Callback.gives_ofExcept {α : Type} (e : Except Fault α) :
    (Action.callback (Proc.ofExcept e)).Gives (.ofExcept e) := by
  intro s
  cases e <;> exact ⟨rfl, rfl⟩

theorem Callback.gives_ok {α : Type} {e : Except Fault α} {a : α} (ok : e = .ok a) :
    (Action.callback (Proc.ofExcept e)).Gives (.done a) := by
  subst ok
  exact gives_ofExcept _

theorem Callback.gives_done {α : Type} (a : α) : (Action.callback (Proc.done a)).Gives (.done a) :=
  fun _ => ⟨rfl, rfl⟩

def Held.Idle (m : Meaning) (held : Held) : Prop :=
  ∀ x ∈ held, ∀ r, x.2 = some r → (m.release r x.1).Gives (.done ())

def loose (vs : List Value) : Held := vs.map fun v => (v, none)

theorem idle_loose (m : Meaning) (vs : List Value) : (loose vs).Idle m := by
  intro x mem r some_release
  obtain ⟨v, _, rfl⟩ := List.mem_map.mp mem
  cases some_release

@[simp] theorem length_loose (vs : List Value) : (loose vs).length = vs.length := List.length_map ..

@[simp] theorem loose_append_singleton (vs : List Value) (v : Value) :
    loose vs ++ [(v, none)] = loose (vs ++ [v]) := by simp [loose]

@[simp] theorem map_fst_loose (vs : List Value) : (loose vs).map (·.1) = vs := by
  simp [loose, Function.comp_def]

namespace Meaning

variable {m : Meaning} {g : Grammar} {stage stage₁ stage₂ : Stage} {c c₁ next : Cursor} {d e : Nat}
  {ending : Ending Result} {r : Result} {v : Value} {f : Failure} {vs : List Value}
  {fold : Fold} {h : HandleId} {least : Int}

/-- In every run that finds the grammar, a stage that needs so many levels ends like this, and
leaves the store as it is. -/
def Settles (m : Meaning) (g : Grammar) (stage : Stage) (c : Cursor) (depth : Nat)
    (ending : Ending Result) : Prop :=
  ∀ (trace : Bool) (s : Run), s.store.grammar = g → ∃ s' : Run, s'.store = s.store ∧
    m.Ran trace stage c s (s.guard.allows depth ending) s'

theorem releaseAll_idle {held : Held} (idle : held.Idle m) (s : Run) :
    ∃ s', m.releaseAll held s = (.done (), s') ∧ s'.store = s.store := by
  induction held generalizing s with
  | nil => exact ⟨s, rfl, rfl⟩
  | cons x held ih =>
    obtain ⟨now, later⟩ := List.forall_mem_cons.mp idle
    obtain ⟨v, _ | r⟩ := x
    · exact ih later s
    · obtain ⟨ended, store⟩ := now r rfl s.store
      have first : m.runRelease r v s = (.done (), (m.runRelease r v s).2) := by
        rw [← ended]
        rfl
      obtain ⟨s', rest, store'⟩ := ih later (m.runRelease r v s).2
      refine ⟨s', ?_, store'.trans store⟩
      rw [releaseAll, Proc.bind_eq, Proc.andThen_done first, rest]

namespace Settles

theorem congr (settles : m.Settles g stage c d ending) (depth : d = e) :
    m.Settles g stage c e ending := depth ▸ settles

theorem call_eq (settles : m.Settles g (.call h) c d ending) (ctx : Context) {s : Store}
    (grammar : s.grammar = g) : (m.call ctx h c s).1 = ctx.guard.allows d ending := by
  obtain ⟨_, _, ran⟩ := settles ctx.config.trace ⟨s, ctx.guard, []⟩ grammar
  exact ((ran_call ctx h c s).unique ran).1

theorem andThen (first : m.Settles g stage₁ c d (.done r)) (rest : m.Settles g stage₂ c₁ e ending)
    (goes_on : ∀ {trace s s₁ s' x}, m.Ran trace stage₁ c s (.done r) s₁ →
      m.Ran trace stage₂ c₁ s₁ x s' → m.Ran trace stage c s x s')
    (ends : ∀ {trace s s' x}, m.Ran trace stage₁ c s x s' → (∀ r, x ≠ .done r) →
      m.Ran trace stage c s x s') :
    m.Settles g stage c (max d e) ending := by
  intro trace s grammar
  obtain ⟨s₁, store, ran⟩ := first trace s grammar
  obtain lt | le := Nat.lt_or_ge s.guard.room d
  · rw [Guard.allows_of_lt lt] at ran
    rw [Guard.allows_max_of_lt lt]
    exact ⟨s₁, store, ends ran nofun⟩
  · rw [Guard.allows_of_le le] at ran
    obtain ⟨s', store', ran'⟩ := rest trace s₁ (by rw [store, grammar])
    rw [ran.guard_eq] at ran'
    rw [Guard.allows_max_of_le le]
    exact ⟨s', store'.trans store, goes_on ran ran'⟩

theorem via (settles : m.Settles g stage₁ c d ending)
    (goes : ∀ {trace s x s'}, m.Ran trace stage₁ c s x s' → x = ending ∨ (∃ fault, x = .raised fault) →
      m.Ran trace stage c s x s') : m.Settles g stage c d ending := by
  intro trace s grammar
  obtain ⟨s', store, ran⟩ := settles trace s grammar
  exact ⟨s', store, goes ran (s.guard.allows_cases d ending)⟩

theorem parse_eq {text : String} (settles : m.Settles g (.call h) (.start (Input.ofString text)) d
    ending) (config : Config) {w : World} (grammar : w.store.grammar = g) :
    (m.parse h text config w).1 =
      if d ≤ config.maxDepth then ending else .raised (.depthLimit config.maxDepth) := by
  have room : d ≤ (Context.fresh config).guard.room ↔ d ≤ config.maxDepth := by
    have one_le := config.one_le
    simp only [Context.fresh, Guard.room]
    omega
  rw [parse_ending, settles.call_eq (.fresh config) grammar]
  simp only [Guard.allows, room]
  rfl

theorem parse_of_unlimited {text : String} (settles : m.Settles g (.call h)
    (.start (Input.ofString text)) d ending) {config : Config} {w : World}
    (grammar : w.store.grammar = g)
    (unlimited : (m.parse h text config w).1 ≠ .raised (.depthLimit config.maxDepth)) :
    (m.parse h text config w).1 = ending := by
  rw [settles.parse_eq config grammar] at unlimited ⊢
  by_cases room : d ≤ config.maxDepth
  · exact if_pos room
  · exact absurd (if_neg room) unlimited

theorem call {body : Body} (status : (g.get h).status = .defined body)
    (inside : m.Settles g (.body body.node) c d ending) :
    m.Settles g (.call h) c (d + 1) ending := by
  intro trace s grammar
  have status' : (s.store.grammar.get h).status = .defined body := by rw [grammar, status]
  rcases enter : s.guard.enter with fault | guard
  · obtain ⟨full, rfl⟩ := Guard.enter_eq_error_iff.mp enter
    rw [Guard.allows_of_lt (by omega)]
    exact ⟨_, Run.store_record .., .refused status' enter⟩
  · obtain ⟨s', store, ran⟩ := inside trace (s.opened trace h body.node c guard) (by simpa)
    rw [Run.guard_opened] at ran
    rw [Guard.allows_of_enter enter]
    exact ⟨_, by simpa using store, .entered status' enter ran⟩

theorem leaf {node : Node} (leaf : Leaf node c r) : m.Settles g (.body node) c 0 (.done r) :=
  fun _ s _ => ⟨s, rfl, by rw [Guard.allows_zero]; exact .leaf leaf⟩

section Choice

variable {hs : List HandleId} {failed : Option Failure}

theorem choice {first : HandleId} {others : List HandleId}
    (settles : m.Settles g (.alternatives none (first :: others)) c d ending) :
    m.Settles g (.body (.choice first others)) c d ending :=
  settles.via fun ran _ => .choice ran

theorem exhausted : m.Settles g (.alternatives (some f) []) c 0 (.done (.failure f)) :=
  fun _ s _ => ⟨s, rfl, by rw [Guard.allows_zero]; exact .exhausted⟩

theorem settled (first : m.Settles g (.call h) c d ending)
    (unfailed : ∀ f, ending ≠ .done (.failure f)) :
    m.Settles g (.alternatives failed (h :: hs)) c d ending := by
  refine first.via fun ran ended => .settled ran ?_
  obtain rfl | ⟨_, rfl⟩ := ended
  · exact unfailed
  · exact nofun

theorem passed (first : m.Settles g (.call h) c d (.done (.failure f)))
    (rest : m.Settles g (.alternatives (some (Failure.join failed f)) hs) c e ending) :
    m.Settles g (.alternatives failed (h :: hs)) c (max d e) ending :=
  first.andThen rest .passed fun ran unfinished => .settled ran fun _ => unfinished _

theorem chosen {before after : List HandleId}
    (others : ∀ k ∈ before, ∃ f, m.Settles g (.call k) c d (.done (.failure f)))
    (this : m.Settles g (.call h) c e ending) (unfailed : ∀ f, ending ≠ .done (.failure f))
    (le : d ≤ e) : m.Settles g (.alternatives failed (before ++ h :: after)) c e ending := by
  induction before generalizing failed with
  | nil => exact this.settled unfailed
  | cons k before ih =>
    obtain ⟨f, first⟩ := others k (List.mem_cons_self ..)
    have rest := @ih (some (Failure.join failed f))
      fun k' mem => others k' (List.mem_cons_of_mem _ mem)
    exact (first.passed rest).congr (Nat.max_eq_right le)

theorem all_failed (others : ∀ k ∈ hs, ∃ f, m.Settles g (.call k) c d (.done (.failure f)))
    (some_left : hs ≠ []) :
    ∃ f, m.Settles g (.alternatives failed hs) c d (.done (.failure f)) := by
  induction hs generalizing failed with
  | nil => exact absurd rfl some_left
  | cons k hs ih =>
    obtain ⟨f, first⟩ := others k (List.mem_cons_self ..)
    cases hs with
    | nil => exact ⟨_, (first.passed exhausted).congr (Nat.max_zero d)⟩
    | cons k' hs =>
      obtain ⟨f', rest⟩ := @ih (some (Failure.join failed f))
        (fun k'' mem => others k'' (List.mem_cons_of_mem _ mem)) (List.cons_ne_nil _ _)
      exact ⟨f', (first.passed rest).congr (Nat.max_self d)⟩

end Choice

section Held

variable {held : Held}

theorem waiting_idle (idle : held.Idle m) (settles : m.Settles g (.call h) c d ending) :
    m.Settles g (.waiting h held) c d ending := by
  intro trace s grammar
  obtain ⟨s₁, store, ran⟩ := settles trace s grammar
  cases allowed : s.guard.allows d ending with
  | done r => exact ⟨s₁, store, .awaited (allowed ▸ ran) (by simp)⟩
  | raised fault =>
    obtain ⟨s', pass, store'⟩ := releaseAll_idle idle s₁
    refine ⟨s', store'.trans store, .unwound (allowed ▸ ran) ?_⟩
    rw [unwind, Proc.andThen_done pass]
    rfl
  | aborted message => exact ⟨s₁, store, .awaited (allowed ▸ ran) (by simp)⟩

theorem givenUp_idle (idle : held.Idle m) :
    m.Settles g (.giveUp held f) c 0 (.done (.failure f)) := by
  intro trace s _
  obtain ⟨s', pass, store⟩ := releaseAll_idle idle s
  exact ⟨s', store, by rw [Guard.allows_zero]; exact .gaveUp (giveUp_of_done f pass)⟩

theorem finish_held {ending : Ending Value} (gives : (m.fold fold (held.map (·.1))).Gives ending) :
    m.Settles g (.finish fold held) c 0 (ending.map (.success · c)) := by
  intro trace s _
  obtain ⟨ended, store⟩ := gives s.store
  have work : m.runFold fold (held.map (·.1)) s =
      (ending, (m.runFold fold (held.map (·.1)) s).2) := by
    rw [← ended]
    rfl
  exact ⟨_, store, by rw [Guard.allows_zero]; exact .folded work⟩

end Held

theorem waiting (settles : m.Settles g (.call h) c d ending) :
    m.Settles g (.waiting h (loose vs)) c d ending :=
  waiting_idle (idle_loose m vs) settles

theorem givenUp : m.Settles g (.giveUp (loose vs) f) c 0 (.done (.failure f)) :=
  givenUp_idle (idle_loose m vs)

theorem finish {ending : Ending Value} (gives : (m.fold fold vs).Gives ending) :
    m.Settles g (.finish fold (loose vs)) c 0 (ending.map (.success · c)) :=
  finish_held (by rwa [map_fst_loose])

section Sequence

variable {items : List (HandleId × Option Release)}

theorem sequence (settles : m.Settles g (.items fold items (loose [])) c d ending) :
    m.Settles g (.body (.sequence fold items)) c d ending :=
  settles.via fun ran _ => .sequence ran

theorem itemsDone {held : Held} (settles : m.Settles g (.finish fold held) c d ending) :
    m.Settles g (.items fold [] held) c d ending :=
  settles.via fun ran _ => .itemsDone ran

theorem itemDone_idle {held : Held} {release : Option Release} (idle : held.Idle m)
    (first : m.Settles g (.call h) c d (.done (.success v next)))
    (rest : m.Settles g (.items fold items (held ++ [(v, release)])) next e ending) :
    m.Settles g (.items fold ((h, release) :: items) held) c (max d e) ending :=
  (first.waiting_idle idle).andThen rest .itemDone .itemEnded

theorem itemFailed_idle {held : Held} {release : Option Release} (idle : held.Idle m)
    (first : m.Settles g (.call h) c d (.done (.failure f))) :
    m.Settles g (.items fold ((h, release) :: items) held) c d (.done (.failure f)) :=
  ((first.waiting_idle idle).andThen (givenUp_idle idle) .itemFailed .itemEnded).congr
    (Nat.max_zero d)

theorem itemDone (first : m.Settles g (.call h) c d (.done (.success v next)))
    (rest : m.Settles g (.items fold items (loose (vs ++ [v]))) next e ending) :
    m.Settles g (.items fold ((h, none) :: items) (loose vs)) c (max d e) ending := by
  rw [← loose_append_singleton] at rest
  exact first.itemDone_idle (idle_loose m vs) rest

theorem itemLast (first : m.Settles g (.call h) c d (.done (.success v next)))
    {ending : Ending Value} (gives : (m.fold fold (vs ++ [v])).Gives ending) :
    m.Settles g (.items fold [(h, none)] (loose vs)) c d (ending.map (.success · next)) :=
  (first.itemDone (itemsDone (finish gives))).congr (Nat.max_zero d)

theorem itemFailed (first : m.Settles g (.call h) c d (.done (.failure f))) :
    m.Settles g (.items fold ((h, none) :: items) (loose vs)) c d (.done (.failure f)) :=
  first.itemFailed_idle (idle_loose m vs)

theorem itemEnded {fault : Fault} (first : m.Settles g (.call h) c d (.raised fault)) :
    m.Settles g (.items fold ((h, none) :: items) (loose vs)) c d (.raised fault) :=
  first.waiting.via fun ran ended => .itemEnded ran (by obtain rfl | ⟨_, rfl⟩ := ended <;> nofun)

end Sequence

section Repetition

theorem repetition (settles : m.Settles g (.turns fold h least none none (loose [])) c d ending) :
    m.Settles g (.body (.repetition fold h least none none)) c d ending :=
  settles.via fun ran _ => .repetition ran

theorem turnMoved (first : m.Settles g (.call h) c d (.done (.success v next)))
    (moved : next.pos ≠ c.pos)
    (rest : m.Settles g (.turns fold h least none none (loose (vs ++ [v]))) next e ending) :
    m.Settles g (.turns fold h least none none (loose vs)) c (max d e) ending := by
  rw [← loose_append_singleton] at rest
  have unbounded : ¬ Full none (loose vs).length := nofun
  exact first.waiting.andThen rest
    (fun ran ran' => .turnMoved unbounded ran (fun still => moved still.2) ran')
    (.turnEnded unbounded)

theorem turnFailed (first : m.Settles g (.call h) c d (.done (.failure f)))
    (enough : least ≤ vs.length) {ending : Ending Value} (gives : (m.fold fold vs).Gives ending) :
    m.Settles g (.turns fold h least none none (loose vs)) c d (ending.map (.success · c)) := by
  have unbounded : ¬ Full none (loose vs).length := nofun
  have wait : m.Settles g (.waiting h (loose vs)) c d _ := first.waiting
  have settles : m.Settles g (.turns fold h least none none (loose vs)) c (max d 0) _ :=
    wait.andThen (finish gives)
      (fun ran ran' => .turnFailed unbounded ran (by simpa using enough) ran')
      (.turnEnded unbounded)
  exact settles.congr (Nat.max_zero d)

theorem turnShort (first : m.Settles g (.call h) c d (.done (.failure f)))
    (short : vs.length < least) :
    m.Settles g (.turns fold h least none none (loose vs)) c d (.done (.failure f)) := by
  have unbounded : ¬ Full none (loose vs).length := nofun
  have wait : m.Settles g (.waiting h (loose vs)) c d _ := first.waiting
  have settles : m.Settles g (.turns fold h least none none (loose vs)) c (max d 0) _ :=
    wait.andThen (givenUp : m.Settles g (.giveUp (loose vs) f) c 0 _)
      (fun ran ran' => .turnShort unbounded ran (by simpa using short) ran') (.turnEnded unbounded)
  exact settles.congr (Nat.max_zero d)

theorem turnEnded {fault : Fault} (first : m.Settles g (.call h) c d (.raised fault)) :
    m.Settles g (.turns fold h least none none (loose vs)) c d (.raised fault) :=
  first.waiting.via fun ran ended =>
    .turnEnded nofun ran (by obtain rfl | ⟨_, rfl⟩ := ended <;> nofun)

end Repetition

theorem applied {func : Func} (first : m.Settles g (.call h) c d (.done (.success v next)))
    {ending : Ending Value} (gives : (m.apply func v).Gives ending) :
    m.Settles g (.body (.apply h func)) c d (ending.map (.success · next)) := by
  intro trace s grammar
  obtain ⟨s₁, store, ran⟩ := first trace s grammar
  obtain lt | le := Nat.lt_or_ge s.guard.room d
  · rw [Guard.allows_of_lt lt] at ran ⊢
    exact ⟨s₁, store, .unapplied ran nofun⟩
  · rw [Guard.allows_of_le le] at ran ⊢
    obtain ⟨ended, store'⟩ := gives s₁.store
    have work : m.runApply func v s₁ = (ending, (m.runApply func v s₁).2) := by
      rw [← ended]
      rfl
    exact ⟨_, store'.trans store, .applied ran work⟩

theorem unapplied {func : Func} (first : m.Settles g (.call h) c d (.done (.failure f))) :
    m.Settles g (.body (.apply h func)) c d (.done (.failure f)) :=
  first.via fun ran ended => .unapplied ran (by obtain rfl | ⟨_, rfl⟩ := ended <;> nofun)

theorem expect {label : String} (first : m.Settles g (.call h) c d (.done r)) :
    m.Settles g (.body (.expect h label)) c d (.done (r.labelled label c)) := by
  intro trace s grammar
  obtain ⟨s₁, store, ran⟩ := first trace s grammar
  have labelled : m.Ran trace (.body (.expect h label)) c s _ s₁ := .expect ran
  have same : (s.guard.allows d (.done r)).map (Result.labelled label c) =
      s.guard.allows d (.done (r.labelled label c)) := by
    unfold Guard.allows
    split <;> rfl
  exact ⟨s₁, store, same ▸ labelled⟩

theorem unexpected {label : String} (first : m.Settles g (.call h) c d (.done (.failure f))) :
    ∃ f', m.Settles g (.body (.expect h label)) c d (.done (.failure f')) := by
  obtain ⟨f', labelled⟩ : ∃ f', (Result.failure f).labelled label c = .failure f' := by
    by_cases still : f.position = c.pos
    · exact ⟨_, if_pos still⟩
    · exact ⟨_, if_neg still⟩
  exact ⟨f', labelled ▸ first.expect⟩

end Settles

end Meaning

end Peg
