import Peg.Callback.Standard
import Peg.Proofs.Run.Calls
import Peg.Proofs.Run.Frames

/-!
Unwinding. From the moment a fault arises a run only comes out of the calls that are under way. Each
of them, from the innermost outwards, releases what it holds, in order, and is left with that fault.
An abort leaves them without releasing anything.
-/

namespace Peg

/-- What a run does on its way out. -/
inductive Exit where
  | release (release : Release) (value : Value)
  | leave (h : HandleId) (ending : Ending Result)

def Entry.exit? : Entry → Option Exit
  | .released r v _ _ _ => some (.release r v)
  | .left h ending _ => some (.leave h ending)
  | _ => none

def Ending.early? {α : Type} : Ending α → Option (Ending Result)
  | .done _ => none
  | .raised fault => some (.raised fault)
  | .aborted message => some (.aborted message)

def Entry.arises? (limit : Int) : Entry → Option (Ending Result)
  | .refused _ _ _ => some (.raised (.depthLimit limit))
  | .missing _ fault _ => some (.raised fault)
  | .folded _ _ ending _ _ | .applied _ _ ending _ _ => ending.early?
  | _ => none

def Held.due (held : Held) : List Exit :=
  held.filterMap fun (v, release) => release.map (Exit.release · v)

/-- The way out of one call: an abort releases nothing. -/
def Frame.way (ending : Ending Result) (F : Frame) : List Exit :=
  (match ending with
    | .raised _ => F.held.due
    | _ => []) ++ [.leave F.handle ending]

def wayOut (ending : Ending Result) (frames : List Frame) : List Exit :=
  frames.flatMap (Frame.way ending)

/-- How a journal stands: calls are under way, or there is still so much left of the way out. -/
inductive Phase where
  | running (frames : List Frame)
  | leaving (ending : Ending Result) (left : List Exit)

/-- A journal can be read up to a phase: nothing arises before the way out begins, and from there on
it is followed. -/
inductive Reads (limit : Int) : List Entry → Phase → Prop where
  | start : Reads limit [] (.running [])
  | runs {journal frames e} : Reads limit journal (.running frames) → e.arises? limit = none →
      Reads limit (e :: journal) (.running (e.replay frames))
  | arises {journal frames e ending} : Reads limit journal (.running frames) →
      e.arises? limit = some ending →
      Reads limit (e :: journal) (.leaving ending (wayOut ending (e.replay frames)))
  | leaves {journal ending x left e} : Reads limit journal (.leaving ending (x :: left)) →
      e.exit? = some x → Reads limit (e :: journal) (.leaving ending left)

theorem arises_of_exit {limit : Int} {e : Entry} {x : Exit} (h : e.exit? = some x) :
    e.arises? limit = none := by
  cases e <;> first | rfl | cases h

namespace Reads

variable {limit : Int} {journal : List Entry}

theorem frames_eq {fs : List Frame} (reads : Reads limit journal (.running fs)) :
    frames journal = fs := by
  generalize eq : Phase.running fs = phase at reads
  induction reads generalizing fs with
  | start =>
    cases eq
    rfl
  | runs _ _ ih =>
    cases eq
    exact congrArg _ (ih rfl)
  | arises | leaves => cases eq

theorem of_arises {after before : List Entry} {e : Entry} {ending : Ending Result} {phase : Phase}
    (reads : Reads limit (after ++ e :: before) phase) (arises : e.arises? limit = some ending) :
    ∃ left, phase = .leaving ending left ∧
      (wayOut ending (frames (e :: before))).map some =
        after.reverse.map Entry.exit? ++ left.map some := by
  -- After it nothing arises any more, so every later entry is a step of the way out.
  induction after generalizing phase with
  | nil =>
    cases reads with
    | runs _ none => rw [none] at arises; cases arises
    | leaves _ exit => rw [arises_of_exit exit] at arises; cases arises
    | arises reads some =>
      rw [some] at arises
      cases arises
      refine ⟨_, rfl, ?_⟩
      have same : frames (e :: before) = e.replay (frames before) := rfl
      rw [same, reads.frames_eq]
      rfl
  | cons d after ih =>
    cases reads with
    | runs reads _ =>
      obtain ⟨_, eq, _⟩ := ih reads
      cases eq
    | arises reads _ =>
      obtain ⟨_, eq, _⟩ := ih reads
      cases eq
    | leaves reads exit =>
      obtain ⟨left, eq, way⟩ := ih reads
      cases eq
      exact ⟨_, rfl, by simp [way, exit]⟩

theorem exists_arises {ending : Ending Result} {left : List Exit}
    (reads : Reads limit journal (.leaving ending left)) :
    ∃ e ∈ journal, e.arises? limit = some ending := by
  generalize eq : Phase.leaving ending left = phase at reads
  induction reads generalizing left with
  | start | runs => cases eq
  | arises _ arises =>
    cases eq
    exact ⟨_, List.mem_cons_self .., arises⟩
  | leaves _ _ ih =>
    cases eq
    obtain ⟨e, mem, arises⟩ := ih rfl
    exact ⟨e, List.mem_cons_of_mem _ mem, arises⟩

end Reads

/-- No release was stopped early. -/
def Calm (journal : List Entry) : Prop :=
  ∀ r v ending events depth, Entry.released r v ending events depth ∈ journal → ending = .done ()

theorem Calm.suffix {before journal : List Entry} (calm : Calm journal) (h : before <:+ journal) :
    Calm before :=
  fun r v ending events depth mem => calm r v ending events depth (h.subset mem)

@[simp] theorem wayOut_nil (ending : Ending Result) : wayOut ending [] = [] := rfl

@[simp] theorem wayOut_cons (ending : Ending Result) (F : Frame) (fs : List Frame) :
    wayOut ending (F :: fs) = F.way ending ++ wayOut ending fs := rfl

theorem way_of_empty {F : Frame} (empty : F.held = []) (ending : Ending Result) :
    F.way ending = [.leave F.handle ending] := by
  rcases ending with _ | _ | _ <;> simp [Frame.way, Held.due, empty]

@[simp] theorem handle_receive (F : Frame) (r : Result) : (F.receive r).handle = F.handle := by
  cases r <;> rfl

@[simp] theorem handle_call (F : Frame) (x : ReleaseCall) : (F.call x).handle = F.handle := by
  unfold Frame.call
  split <;> rfl

def Run.Stands (s : Run) (limit : Int) (phase : Phase) : Prop :=
  s.guard.maxDepth = limit ∧ Reads limit s.journal phase

def Phase.after (ending : Ending Result) (fs : List Frame) : Phase :=
  match ending with
  | .done _ => .running (receive ending fs)
  | _ => .leaving ending (wayOut ending fs)

def Run.Comes (s : Run) (limit : Int) (ending : Ending Result) (F : Frame) (fs : List Frame) :
    Prop :=
  match ending with
  | .done _ => ∃ F' : Frame, F'.handle = F.handle ∧ s.Stands limit (.running (F' :: fs))
  | _ => s.Stands limit (.leaving ending (.leave F.handle ending :: wayOut ending fs))

/-- How a run that was standing among calls stands after a stage. -/
def Stage.Unwinds (limit : Int) (s : Run) (ending : Ending Result) (s' : Run) : Stage → Prop
  | .call _ => ∀ fs, s.Stands limit (.running fs) → s'.Stands limit (.after ending fs)
  | .waiting _ held => ∀ F fs, F.held = held → s.Stands limit (.running (F :: fs)) →
    match ending with
    | .done r => s'.Stands limit (.running (F.receive r :: fs))
    | _ => s'.Comes limit ending F fs
  | stage => ∀ F fs, stage.Fits F → s.Stands limit (.running (F :: fs)) →
    s'.Comes limit ending F fs

namespace Run

variable {s s' : Run} {limit : Int} {F : Frame} {fs : List Frame}

theorem Stands.runs {fs : List Frame} (stands : s.Stands limit (.running fs)) {e : Entry}
    (quiet : e.arises? limit = none) : (s.record e).Stands limit (.running (e.replay fs)) :=
  ⟨stands.1, .runs stands.2 quiet⟩

theorem Stands.arises {fs : List Frame} (stands : s.Stands limit (.running fs)) {e : Entry}
    {ending : Ending Result} (arises : e.arises? limit = some ending) :
    (s.record e).Stands limit (.leaving ending (wayOut ending (e.replay fs))) :=
  ⟨stands.1, .arises stands.2 arises⟩

theorem Stands.leaves {ending : Ending Result} {x : Exit} {left : List Exit}
    (stands : s.Stands limit (.leaving ending (x :: left))) {e : Entry} (exit : e.exit? = some x) :
    (s.record e).Stands limit (.leaving ending left) :=
  ⟨stands.1, .leaves stands.2 exit⟩

theorem Stands.opened {fs : List Frame} (stands : s.Stands limit (.running fs)) {g : Guard}
    (enter : s.guard.enter = .ok g) (trace : Bool) (h : HandleId) (node : Node) (c : Cursor) :
    (s.opened trace h node c g).Stands limit
      (.running ({ handle := h, node := node } :: fs)) := by
  have same : g.maxDepth = s.guard.maxDepth := by
    rw [← Guard.exit_of_enter enter]
    rfl
  have guarded : Run.Stands { s with guard := g } limit (.running fs) :=
    ⟨same.trans stands.1, stands.2⟩
  have entered := guarded.runs (e := .entered h node c.pos g.depth) rfl
  cases trace with
  | false => exact entered
  | true => exact entered.runs rfl

theorem Stands.closed (stands : s.Stands limit (.running (F :: fs))) (trace : Bool) (h : HandleId)
    (c : Cursor) (r : Result) :
    (s.closed trace h c (.done r)).Stands limit (.running (receive (.done r) fs)) := by
  have left {s : Run} (stands : s.Stands limit (.running (F :: fs))) :
      (Run.record { s with guard := s.guard.exit }
        (.left h (.done r) s.guard.exit.depth)).Stands limit (.running (receive (.done r) fs)) :=
    Stands.runs (s := { s with guard := s.guard.exit }) stands rfl
  cases trace with
  | false => exact left stands
  | true => cases r <;> exact left (stands.runs rfl)

theorem Stands.closed_early {ending : Ending Result} {h : HandleId} {way : List Exit}
    (stands : s.Stands limit (.leaving ending (.leave h ending :: way)))
    (early : ∀ r, ending ≠ .done r) (trace : Bool) (c : Cursor) :
    (s.closed trace h c ending).Stands limit (.leaving ending way) := by
  rcases ending with r | _ | _
  · exact absurd rfl (early r)
  all_goals
    have left : Run.Stands { s with guard := s.guard.exit } limit _ := stands
    cases trace <;> exact left.leaves rfl

theorem Comes.closed {ending : Ending Result} (comes : s.Comes limit ending F fs) (trace : Bool)
    (c : Cursor) : (s.closed trace F.handle c ending).Stands limit (.after ending fs) := by
  rcases ending with r | _ | _
  · obtain ⟨F', _, stands⟩ := comes
    exact stands.closed trace F.handle c r
  · exact Stands.closed_early comes (fun r done => by cases done) trace c
  · exact Stands.closed_early comes (fun r done => by cases done) trace c

theorem Stands.comes {ending : Ending Result} (stands : s.Stands limit (.after ending (F :: fs)))
    (empty : F.held = []) : s.Comes limit ending F fs := by
  rcases ending with r | _ | _
  · exact ⟨F.receive r, handle_receive F r, stands⟩
  all_goals
    simp only [Phase.after, wayOut_cons, way_of_empty empty] at stands
    exact stands

end Run

namespace Meaning

variable {m : Meaning} {trace : Bool} {limit : Int}

theorem runRelease_journal {r : Release} {v : Value} {s s' : Run} {ending : Ending Unit}
    (h : m.runRelease r v s = (ending, s')) :
    ∃ store events depth,
      s' = Run.record { s with store := store } (.released r v ending events depth) := by
  cases h
  exact ⟨_, _, _, rfl⟩

theorem releaseAll_runs {held : Held} {s s' : Run} {ending : Ending Unit} {F : Frame}
    {fs : List Frame} (h : m.releaseAll held s = (ending, s')) (calm : Calm s'.journal)
    (stands : s.Stands limit (.running (F :: fs))) :
    ending = .done () ∧
      ∃ F' : Frame, F'.handle = F.handle ∧ s'.Stands limit (.running (F' :: fs)) := by
  induction held generalizing s F with
  | nil =>
    cases h
    exact ⟨rfl, F, rfl, stands⟩
  | cons item held ih =>
    obtain ⟨v, _ | r⟩ := item
    · exact ih (releaseAll_cons_none v held ▸ h) stands
    · obtain ⟨s₁, first, rest⟩ | ⟨first, stopped⟩ := releaseAll_cons_some h
      · obtain ⟨store, events, depth, rfl⟩ := runRelease_journal first
        have called : Run.Stands { s with store := store } limit (.running (F :: fs)) := stands
        obtain ⟨done, F', handle, stands'⟩ := ih rest (called.runs rfl)
        exact ⟨done, F', handle.trans (handle_call F _), stands'⟩
      · obtain ⟨store, events, depth, rfl⟩ := runRelease_journal first
        exact absurd (calm r v ending events depth (List.mem_cons_self ..)) stopped

theorem releaseAll_leaves {held : Held} {s s' : Run} {ending : Ending Unit} {out : Ending Result}
    {left : List Exit} (h : m.releaseAll held s = (ending, s')) (calm : Calm s'.journal)
    (stands : s.Stands limit (.leaving out (held.due ++ left))) :
    ending = .done () ∧ s'.Stands limit (.leaving out left) := by
  induction held generalizing s with
  | nil =>
    cases h
    exact ⟨rfl, stands⟩
  | cons item held ih =>
    obtain ⟨v, _ | r⟩ := item
    · exact ih (releaseAll_cons_none v held ▸ h) stands
    · obtain ⟨s₁, first, rest⟩ | ⟨first, stopped⟩ := releaseAll_cons_some h
      · obtain ⟨store, events, depth, rfl⟩ := runRelease_journal first
        have called : Run.Stands { s with store := store } limit
            (.leaving out (.release r v :: (Held.due held ++ left))) := stands
        exact ih rest (called.leaves rfl)
      · obtain ⟨store, events, depth, rfl⟩ := runRelease_journal first
        exact absurd (calm r v ending events depth (List.mem_cons_self ..)) stopped

theorem unwind_leaves {held : Held} {fault : Fault} {s s' : Run} {ending : Ending Result}
    {left : List Exit} (h : m.unwind held fault s = (ending, s')) (calm : Calm s'.journal)
    (stands : s.Stands limit (.leaving (.raised fault) (held.due ++ left))) :
    ending = .raised fault ∧ s'.Stands limit (.leaving (.raised fault) left) := by
  obtain ⟨pass, rfl⟩ | ⟨_, pass, _⟩ | ⟨_, pass, _⟩ := unwind_cases h
  · exact ⟨rfl, (releaseAll_leaves pass calm stands).2⟩
  · cases (releaseAll_leaves pass calm stands).1
  · cases (releaseAll_leaves pass calm stands).1

theorem giveUp_comes {held : Held} {f : Failure} {s s' : Run} {ending : Ending Result} {F : Frame}
    {fs : List Frame} (h : m.giveUp held f s = (ending, s')) (calm : Calm s'.journal)
    (stands : s.Stands limit (.running (F :: fs))) : s'.Comes limit ending F fs := by
  obtain ⟨pass, rfl⟩ | ⟨_, s₁, pass, again⟩ | ⟨_, pass, _⟩ := giveUp_cases h
  · exact (releaseAll_runs pass calm stands).2
  · cases (releaseAll_runs pass (calm.suffix (steps_journal.unwind again)) stands).1
  · cases (releaseAll_runs pass calm stands).1

theorem runFold_comes {fold : Fold} {vs : List Value} {s s' : Run} {ending : Ending Value}
    {F : Frame} {fs : List Frame} (h : m.runFold fold vs s = (ending, s'))
    (stands : s.Stands limit (.running (F :: fs))) (c : Cursor) :
    s'.Comes limit (ending.map (.success · c)) F fs := by
  obtain ⟨store, events, depth, rfl⟩ : ∃ store events depth,
      s' = Run.record { s with store := store } (.folded fold vs ending events depth) := by
    cases h
    exact ⟨_, _, _, rfl⟩
  have worked : Run.Stands { s with store := store } limit (.running (F :: fs)) := stands
  have way := way_of_empty (F := F.hand) rfl
  rcases ending with v | fault | message
  · exact ⟨F.hand, rfl, worked.runs rfl⟩
  · have out := worked.arises (e := .folded fold vs (.raised fault) events depth) rfl
    simp only [Entry.replay, wayOut_cons, way] at out
    exact out
  · have out := worked.arises (e := .folded fold vs (.aborted message) events depth) rfl
    simp only [Entry.replay, wayOut_cons, way] at out
    exact out

theorem runApply_comes {func : Func} {v : Value} {s s' : Run} {ending : Ending Value} {F : Frame}
    {fs : List Frame} (h : m.runApply func v s = (ending, s')) (empty : F.held = [])
    (stands : s.Stands limit (.running (F :: fs))) (c : Cursor) :
    s'.Comes limit (ending.map (.success · c)) F fs := by
  obtain ⟨store, events, depth, rfl⟩ : ∃ store events depth,
      s' = Run.record { s with store := store } (.applied func v ending events depth) := by
    cases h
    exact ⟨_, _, _, rfl⟩
  have worked : Run.Stands { s with store := store } limit (.running (F :: fs)) := stands
  have way := way_of_empty empty
  rcases ending with w | fault | message
  · exact ⟨F, rfl, worked.runs rfl⟩
  · have out := worked.arises (e := .applied func v (.raised fault) events depth) rfl
    simp only [Entry.replay, wayOut_cons, way] at out
    exact out
  · have out := worked.arises (e := .applied func v (.aborted message) events depth) rfl
    simp only [Entry.replay, wayOut_cons, way] at out
    exact out

theorem Ran.unwinds {stage : Stage} {c : Cursor} {s s' : Run} {ending : Ending Result}
    (ran : m.Ran trace stage c s ending s') (calm : Calm s'.journal) :
    stage.Unwinds limit s ending s' := by
  induction ran with
  | missing =>
    intro fs stands
    exact stands.arises rfl
  | @refused h c s body fault _ enter =>
    intro fs stands
    obtain ⟨_, rfl⟩ := Guard.enter_eq_error_iff.mp enter
    obtain ⟨rfl, _⟩ := id stands
    exact stands.arises rfl
  | @entered h c s body g ending s' _ enter ran ih =>
    intro fs stands
    have inside := calm.suffix ((steps_journal (m := m)).closed s' trace h c ending)
    have comes := ih inside _ fs ⟨rfl, rfl⟩ (stands.opened enter trace h body.node c)
    exact comes.closed trace c
  | leaf =>
    intro F fs _ stands
    exact ⟨F, rfl, stands⟩
  | choice _ ih =>
    intro F fs fits stands
    obtain ⟨node, empty⟩ := fits
    exact ih calm F fs ⟨⟨_, _, node⟩, empty⟩ stands
  | exhausted =>
    intro F fs _ stands
    exact ⟨F, rfl, stands⟩
  | settled _ _ ih =>
    intro F fs fits stands
    obtain ⟨_, empty⟩ := fits
    exact (ih calm (F :: fs) stands).comes empty
  | @passed failed h hs c s f s₁ ending s' _ rest ih ih' =>
    intro F fs fits stands
    have called := ih (calm.suffix rest.journal) (F :: fs) stands
    exact ih' calm (F.receive (.failure f)) fs fits called
  | @awaited h held c s ending s' _ unraised ih =>
    intro F fs fits stands
    have called := ih calm (F :: fs) stands
    rcases ending with r | fault | message
    · exact called
    · exact absurd rfl (unraised fault)
    · exact called
  | @unwound h held c s fault s₁ ending s' _ pass ih =>
    intro F fs fits stands
    have called := ih (calm.suffix (steps_journal.unwind pass)) (F :: fs) stands
    -- What is held is the first part of the way out, and the pass takes it off.
    simp only [Phase.after, wayOut_cons, Frame.way, fits, List.append_assoc] at called
    obtain ⟨rfl, out⟩ := unwind_leaves pass calm called
    exact out
  | folded work =>
    intro F fs _ stands
    exact runFold_comes work stands _
  | gaveUp pass =>
    intro F fs _ stands
    exact giveUp_comes pass calm stands
  | sequence _ ih =>
    intro F fs fits stands
    obtain ⟨node, empty⟩ := fits
    exact ih calm F fs ⟨⟨[], node, rfl⟩, empty⟩ stands
  | itemsDone _ ih =>
    intro F fs fits stands
    obtain ⟨_, held⟩ := fits
    exact ih calm F fs held stands
  | @itemDone fold h r items held c s v next s₁ ending s' _ rest ih ih' =>
    intro F fs fits stands
    have waited := ih (calm.suffix rest.journal) F fs fits.2 stands
    exact ih' calm (F.receive (.success v next)) fs (Stage.fits_items_next fits v next) waited
  | @itemFailed fold h r items held c s f s₁ ending s' _ rest ih ih' =>
    intro F fs fits stands
    have waited := ih (calm.suffix rest.journal) F fs fits.2 stands
    exact ih' calm (F.receive (.failure f)) fs fits.2 waited
  | @itemEnded fold h r items held c s ending s' _ early ih =>
    intro F fs fits stands
    have waited := ih calm F fs fits.2 stands
    rcases ending with r | _ | _
    · exact absurd rfl (early r)
    · exact waited
    · exact waited
  | repetition _ ih =>
    intro F fs fits stands
    exact ih calm F fs fits stands
  | turnsFull _ _ ih =>
    intro F fs fits stands
    obtain ⟨_, held⟩ := fits
    exact ih calm F fs held stands
  | @turnMoved fold item least most release held c s v next s₁ ending s' _ _ _ rest ih ih' =>
    intro F fs fits stands
    have waited := ih (calm.suffix rest.journal) F fs fits.2 stands
    exact ih' calm (F.receive (.success v next)) fs (Stage.fits_turns_next fits v next) waited
  | @turnStill fold item least most release held c s v next s₁ ending s' _ _ _ rest ih ih' =>
    intro F fs fits stands
    have waited := ih (calm.suffix rest.journal) F fs fits.2 stands
    exact ih' calm (F.receive (.success v next)) fs (Stage.fits_turns_next fits v next).2 waited
  | @turnFailed fold item least most release held c s f s₁ ending s' _ _ _ rest ih ih' =>
    intro F fs fits stands
    have waited := ih (calm.suffix rest.journal) F fs fits.2 stands
    exact ih' calm (F.receive (.failure f)) fs fits.2 waited
  | @turnShort fold item least most release held c s f s₁ ending s' _ _ _ rest ih ih' =>
    intro F fs fits stands
    have waited := ih (calm.suffix rest.journal) F fs fits.2 stands
    exact ih' calm (F.receive (.failure f)) fs fits.2 waited
  | @turnEnded fold item least most release held c s ending s' _ _ early ih =>
    intro F fs fits stands
    have waited := ih calm F fs fits.2 stands
    rcases ending with r | _ | _
    · exact absurd rfl (early r)
    · exact waited
    · exact waited
  | @applied item func c s v next s₁ ending s' _ work ih =>
    intro F fs fits stands
    obtain ⟨node, empty⟩ := fits
    have called := ih (calm.suffix (steps_journal.apply work)) (F :: fs) stands
    have still : (F.receive (.success v next)).held = [] := by
      simp [Frame.receive, node, Node.hold, empty]
    exact runApply_comes work still called next
  | unapplied _ _ ih =>
    intro F fs fits stands
    obtain ⟨_, empty⟩ := fits
    exact (ih calm (F :: fs) stands).comes empty
  | @expect item label c s ending s' _ ih =>
    intro F fs fits stands
    obtain ⟨_, empty⟩ := fits
    have comes := (ih calm (F :: fs) stands).comes empty
    rcases ending with _ | _ | _ <;> exact comes

/-- However something arises in a run whose releases are not stopped, the run ends with it, and all
that follows is the way out of the calls under way at that moment. A run ends early only if
something arises. -/
theorem call_unwinds (ctx : Context) (h : HandleId) (c : Cursor) (s : Store)
    (calm : Calm (m.call ctx h c s).2.journal) :
    (∀ after e before ending, (m.call ctx h c s).2.journal = after ++ e :: before →
      e.arises? ctx.guard.maxDepth = some ending →
      (m.call ctx h c s).1 = ending ∧
        after.reverse.map Entry.exit? = (wayOut ending (frames (e :: before))).map some) ∧
    ((∀ r, (m.call ctx h c s).1 ≠ .done r) →
      ∃ e ∈ (m.call ctx h c s).2.journal,
        e.arises? ctx.guard.maxDepth = some (m.call ctx h c s).1) := by
  have out : Stage.Unwinds ctx.guard.maxDepth _ _ _ (.call h) := (ran_call ctx h c s).unwinds calm
  obtain ⟨_, reads⟩ := out [] ⟨rfl, .start⟩
  constructor
  · intro after e before ending split arises
    rw [split] at reads
    obtain ⟨left, phase, way⟩ := reads.of_arises arises
    rcases ended : (m.call ctx h c s).1 with r | _ | _ <;> rw [ended] at phase <;> cases phase
    · exact ⟨rfl, by simpa using way.symm⟩
    · exact ⟨rfl, by simpa using way.symm⟩
  · intro early
    rcases ended : (m.call ctx h c s).1 with r | _ | _ <;> rw [ended] at reads early
    · exact absurd rfl (early r)
    · exact reads.exists_arises
    · exact reads.exists_arises

def unfinished : Store where
  grammar := ⟨#[{ name := "later" }, { status := .defined ⟨1, .pure (.integer 1)⟩ },
    { status := .defined ⟨2, .pure (.integer 2)⟩ },
    { status := .defined ⟨3, .sequence .list
      [(1, some (.logged "r" [] (.fault ""))), (2, none), (0, none)]⟩ }]⟩

theorem unfinished_unwinds :
    Calm (usual.call (.fresh .standard) 3 (.start #[]) unfinished).2.journal ∧
    (usual.call (.fresh .standard) 3 (.start #[]) unfinished).1 = .raised (.undefined "later") ∧
    ∃ after before,
      (usual.call (.fresh .standard) 3 (.start #[]) unfinished).2.journal =
        after ++ .missing 0 (.undefined "later") 1 :: before ∧
      after.reverse.map Entry.exit? =
        [some (.release (.logged "r" [] (.fault "")) (.integer 1)),
          some (.leave 3 (.raised (.undefined "later")))] := by
  let fault : Ending Result := .raised (.undefined "later")
  let after : List Entry := [.left 3 fault 0, .released (.logged "r" [] (.fault "")) (.integer 1)
    (.done ()) [.released "r" (.integer 1)] 1]
  let before : List Entry := [.left 2 (.done (.success (.integer 2) (.start #[]))) 1,
    .entered 2 (.pure (.integer 2)) 0 2, .left 1 (.done (.success (.integer 1) (.start #[]))) 1,
    .entered 1 (.pure (.integer 1)) 0 2,
    .entered 3 (.sequence .list
      [(1, some (.logged "r" [] (.fault ""))), (2, none), (0, none)]) 0 1]
  have journal : (usual.call (.fresh .standard) 3 (.start #[]) unfinished).2.journal =
      after ++ .missing 0 (.undefined "later") 1 :: before := rfl
  have calm : Calm (usual.call (.fresh .standard) 3 (.start #[]) unfinished).2.journal := by
    intro r v ending events depth mem
    rw [journal] at mem
    simp only [after, before, List.mem_append, List.mem_cons, List.not_mem_nil, reduceCtorEq,
      or_false, false_or, Entry.released.injEq] at mem
    exact mem.2.2.1
  have out := (call_unwinds (.fresh .standard) 3 (.start #[]) unfinished calm).1 after _ before
    fault journal rfl
  exact ⟨calm, out.1, after, before, journal, out.2⟩

end Meaning

end Peg
