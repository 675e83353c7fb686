import Peg.Callback.Standard
import Peg.Proofs.Run.Calls
import Peg.Proofs.Run.Frames

/-!
The level of a run. Wherever a run stands, the depth of its guard is the depth that it started from
and one for each call under way, and however a call ends, the guard is left as it was found. So a
context that runs have gone through is as good as a fresh one.

The guard changes only where a call is entered and where it is left, and the entries made there tell
the depth from then on, as those of callbacks tell the depth at which the callback works.
-/

namespace Peg

def Entry.depth? : Entry → Option Int
  | .entered _ _ _ depth | .left _ _ depth | .refused _ _ depth | .missing _ _ depth => some depth
  | .released _ _ _ _ depth | .folded _ _ _ _ depth | .applied _ _ _ _ depth => some depth
  | .logged _ => none

/-- Every entry of a journal is at the depth `start` and one for each call under way. A run that
starts within `limit` stays within it. -/
def Levelled (start limit : Int) : List Entry → Prop :=
  Along fun e before => ∀ depth, e.depth? = some depth →
    depth = start + (frames (e :: before)).length ∧ (start ≤ limit → depth ≤ limit)

structure Run.Level (s : Run) (start limit : Int) : Prop where
  maxDepth : s.guard.maxDepth = limit
  depth : s.guard.depth = start + s.frames.length
  depth_le : start ≤ limit → s.guard.depth ≤ limit
  journal : Levelled start limit s.journal

namespace Run.Level

variable {s : Run} {start limit : Int}

theorem record (level : s.Level start limit) {e : Entry} {g : Guard}
    (maxDepth : g.maxDepth = limit) (depth : g.depth = start + (e.replay s.frames).length)
    (depth_le : start ≤ limit → g.depth ≤ limit)
    (here : ∀ depth, e.depth? = some depth → depth = g.depth) :
    (Run.record { s with guard := g } e).Level start limit := by
  refine ⟨maxDepth, depth, depth_le, level.journal.cons fun d at_e => ?_⟩
  obtain rfl := here d at_e
  exact ⟨depth, depth_le⟩

theorem same (level : s.Level start limit) {e : Entry} (store : Store)
    (frames : (e.replay s.frames).length = s.frames.length)
    (here : ∀ depth, e.depth? = some depth → depth = s.guard.depth) :
    (Run.record { s with store := store } e).Level start limit :=
  have kept : Run.Level { s with store := store } start limit :=
    ⟨level.maxDepth, level.depth, level.depth_le, level.journal⟩
  kept.record level.maxDepth (frames ▸ level.depth) level.depth_le here

theorem opened (level : s.Level start limit) {g : Guard} (enter : s.guard.enter = .ok g)
    (trace : Bool) (h : HandleId) (node : Node) (c : Cursor) :
    (s.opened trace h node c g).Level start limit := by
  obtain ⟨room, rfl⟩ := Guard.enter_eq_ok_iff.mp enter
  have deeper : s.guard.depth + 1 =
      start + ({ handle := h, node := node : Frame } :: s.frames).length := by
    rw [level.depth, List.length_cons]
    omega
  have within : start ≤ limit → s.guard.depth + 1 ≤ limit := fun _ => level.maxDepth ▸ room
  have entered := level.record (e := .entered h node c.pos (s.guard.depth + 1))
    (g := { s.guard with depth := s.guard.depth + 1 }) level.maxDepth deeper within
    fun depth at_e => by cases at_e; rfl
  cases trace with
  | false => exact entered
  | true => exact entered.same _ rfl nofun

theorem closed (level : s.Level start limit) (inside : 0 < s.frames.length) (trace : Bool)
    (h : HandleId) (c : Cursor) (ending : Ending Result) :
    (s.closed trace h c ending).Level start limit := by
  obtain ⟨F, fs, frames⟩ := List.exists_cons_of_length_pos inside
  obtain ⟨s', before, closed⟩ := s.closed_cases trace h c ending
  have logged : s'.Level start limit ∧ s'.frames = s.frames := by
    obtain rfl | ⟨record, rfl⟩ := before
    · exact ⟨level, rfl⟩
    · exact ⟨level.same _ rfl nofun, rfl⟩
  have outer : ((Entry.left h ending s.guard.exit.depth).replay s'.frames).length = fs.length := by
    rw [logged.2, frames]
    exact length_receive ending fs
  have depth := level.depth
  rw [frames, List.length_cons] at depth
  rw [closed]
  refine logged.1.record level.maxDepth ?_ (fun start_le => ?_) fun depth at_e => by cases at_e; rfl
  · rw [outer]
    simp only [Guard.exit]
    omega
  · have depth_le := level.depth_le start_le
    simp only [Guard.exit]
    omega

end Run.Level

theorem length_replay_released (fs : List Frame) (r : Release) (v : Value) (ending : Ending Unit)
    (events : List Event) (depth : Int) :
    ((Entry.released r v ending events depth).replay fs).length = fs.length := by
  cases fs <;> rfl

theorem length_replay_folded (fs : List Frame) (fold : Fold) (vs : List Value)
    (ending : Ending Value) (events : List Event) (depth : Int) :
    ((Entry.folded fold vs ending events depth).replay fs).length = fs.length := by
  cases fs <;> rfl

namespace Meaning

variable {m : Meaning} {trace : Bool} {start limit : Int}

theorem spans_level (m : Meaning) (trace : Bool) (start limit : Int) :
    m.Spans trace fun s _ s' =>
      s'.guard = s.guard ∧ (s.Level start limit → s'.Level start limit) where
  done _ := ⟨rfl, id⟩
  next first second := ⟨second.1.trans first.1, second.2 ∘ first.2⟩
  resumed first second := ⟨second.1.trans first.1, second.2 ∘ first.2⟩
  replaced first second _ := ⟨second.1.trans first.1, second.2 ∘ first.2⟩
  missing _ := ⟨rfl, fun level => level.same _ rfl fun depth at_e => by cases at_e; rfl⟩
  refused _ _ := ⟨rfl, fun level => level.same _ rfl fun depth at_e => by cases at_e; rfl⟩
  entered := by
    intro h body c s g ending s' _ enter _ inside
    obtain ⟨guard, levels⟩ := inside
    rw [Run.guard_opened] at guard
    refine ⟨?_, fun level => ?_⟩
    · rw [Run.guard_closed, guard]
      exact Guard.exit_of_enter enter
    · have level' := levels (level.opened enter trace h body.node c)
      -- The guard is one level deeper than at the start, so there is a frame to close.
      have within : 0 < s'.frames.length := by
        obtain ⟨_, rfl⟩ := Guard.enter_eq_ok_iff.mp enter
        have depth := level'.depth
        rw [guard] at depth
        have before := level.depth
        simp only at depth
        omega
      exact level'.closed within trace h c ending
  release h := by
    cases h
    exact ⟨rfl, fun level => level.same _ (length_replay_released ..)
      fun depth at_e => by cases at_e; rfl⟩
  fold h := by
    cases h
    exact ⟨rfl, fun level => level.same _ (length_replay_folded ..)
      fun depth at_e => by cases at_e; rfl⟩
  apply h := by
    cases h
    exact ⟨rfl, fun level => level.same _ rfl fun depth at_e => by cases at_e; rfl⟩

end Meaning

structure Visit where
  meaning : Meaning
  handle : HandleId
  cursor : Cursor
  store : Store

def Visit.through (v : Visit) (ctx : Context) : Ending Result × Run :=
  v.meaning.call ctx v.handle v.cursor v.store

def Context.visits (ctx : Context) : List Visit → List (Ending Result × Run)
  | [] => []
  | v :: vs =>
    let out := v.through ctx
    out :: Context.visits { ctx with guard := out.2.guard } vs

namespace Meaning

theorem visits_eq (ctx : Context) (vs : List Visit) : ctx.visits vs = vs.map (·.through ctx) := by
  induction vs with
  | nil => rfl
  | cons v vs ih =>
    have guard : (v.through ctx).2.guard = ctx.guard := (ran_call ..).guard_eq
    rw [Context.visits, guard, List.map_cons, ← ih]

/-- At every moment of a call the guard is at the depth it started from and one for each call that
was let in and has not ended, and so within its limits if it was so before. The call leaves the
guard as it found it, however it ends; and so calls through one context are what each would be
through a fresh one. -/
theorem depth_balanced :
    (∀ (m : Meaning) (ctx : Context) (h : HandleId) (c : Cursor) (s : Store),
      (m.call ctx h c s).2.guard = ctx.guard ∧
      ∀ after e before depth, (m.call ctx h c s).2.journal = after ++ e :: before →
        e.depth? = some depth →
        depth = ctx.guard.depth + (frames (e :: before)).length ∧
        (0 ≤ ctx.guard.depth → ctx.guard.depth ≤ ctx.guard.maxDepth →
          0 ≤ depth ∧ depth ≤ ctx.guard.maxDepth)) ∧
    ∀ (config : Config) (vs : List Visit),
      (Context.fresh config).visits vs = vs.map (·.through (.fresh config)) := by
  refine ⟨fun m ctx h c s => ?_, fun config vs => visits_eq (.fresh config) vs⟩
  have ran := ran_call (m := m) ctx h c s
  have level := (spans_level m ctx.config.trace ctx.guard.depth ctx.guard.maxDepth).ran ran
  have started : Run.Level ⟨s, ctx.guard, []⟩ ctx.guard.depth ctx.guard.maxDepth :=
    ⟨rfl, (Int.add_zero _).symm, id, along_nil _⟩
  refine ⟨level.1, fun after e before depth split at_e => ?_⟩
  obtain ⟨rfl, depth_le⟩ := (level.2 started).journal after e before split depth at_e
  refine ⟨rfl, fun start_nonneg start_le => ⟨?_, depth_le start_le⟩⟩
  omega

def tower : Store where
  grammar := ⟨#[{ name := "letters", status := .defined ⟨0, .sequence .list
      [(1, some (.logged "letter" [] (.fault ""))), (0, none)]⟩ },
    { status := .defined ⟨1, .literal "a"⟩ }]⟩

/-- A guard with room for two lets the second letter not in. The first is released at the depth of
its sequence, which is then the only call under way, and a letter is read through the same context
afterwards. -/
theorem tower_balanced :
    (usual.call (.fresh ⟨2, false, "", by decide⟩) 0 (.start #['a', 'a']) tower).1 =
      .raised (.depthLimit 2) ∧
    (usual.call (.fresh ⟨2, false, "", by decide⟩) 0 (.start #['a', 'a']) tower).2.guard =
      ⟨2, 0⟩ ∧
    (∃ after e before, e = Entry.released (.logged "letter" [] (.fault "")) (.text "a") (.done ())
        [.released "letter" (.text "a")] 1 ∧
      (usual.call (.fresh ⟨2, false, "", by decide⟩) 0 (.start #['a', 'a']) tower).2.journal =
        after ++ e :: before ∧
      (1 : Int) = 0 + (frames (e :: before)).length) ∧
    (Context.fresh ⟨2, false, "", by decide⟩).visits
        [⟨usual, 0, .start #['a', 'a'], tower⟩, ⟨usual, 1, .start #['a'], tower⟩] =
      [usual.call (.fresh ⟨2, false, "", by decide⟩) 0 (.start #['a', 'a']) tower,
        usual.call (.fresh ⟨2, false, "", by decide⟩) 1 (.start #['a']) tower] := by
  have balanced := depth_balanced.1 usual (.fresh ⟨2, false, "", by decide⟩) 0
    (.start #['a', 'a']) tower
  let fault : Ending Result := .raised (.depthLimit 2)
  let release : Release := .logged "letter" [] (.fault "")
  let sequence : Node := .sequence .list [(1, some release), (0, none)]
  let before : List Entry := [.left 0 fault 1, .refused 1 1 2, .entered 0 sequence 1 2,
    .left 1 (.done (.success (.text "a") ⟨#['a', 'a'], 1, by decide⟩)) 1,
    .entered 1 (.literal "a") 0 2, .entered 0 sequence 0 1]
  have journal : (usual.call (.fresh ⟨2, false, "", by decide⟩) 0 (.start #['a', 'a'])
      tower).2.journal = [.left 0 fault 0] ++ .released release (.text "a") (.done ())
        [.released "letter" (.text "a")] 1 :: before := rfl
  exact ⟨rfl, balanced.1, ⟨_, _, before, rfl, journal, (balanced.2 _ _ _ 1 journal rfl).1⟩,
    depth_balanced.2 _ _⟩

end Meaning

end Peg
