import Mathlib
import Peg.Proofs.Releasing.Sweep

/-!
The passes of a run. Every stage keeps account of the passes that its call makes, whatever its
releases do.
-/

namespace Peg

@[simp] theorem Ending.early?_map {α β : Type} (f : α → β) (ending : Ending α) :
    (ending.map f).early? = ending.early? := by
  cases ending <;> rfl

def Frame.received (F : Frame) : Ending Result → Frame
  | .done r => F.receive r
  | _ => F

section

variable (F : Frame)

theorem receive_cons (ending : Ending Result) (fs : List Frame) :
    receive ending (F :: fs) = F.received ending :: fs := by
  cases ending <;> rfl

theorem handle_received (ending : Ending Result) : (F.received ending).handle = F.handle := by
  rcases ending with (_ | _) | _ | _ <;> rfl

theorem failurePass_received (ending : Ending Result) :
    (F.received ending).failurePass = F.failurePass := by
  rcases ending with (_ | _) | _ | _ <;> rfl

theorem handlerPass_received (ending : Ending Result) :
    (F.received ending).handlerPass = F.handlerPass := by
  rcases ending with (_ | _) | _ | _ <;> rfl

theorem held_received {F : Frame} (empty : F.held = []) (plain : ∀ v, F.node.hold [] v = [])
    (ending : Ending Result) : (F.received ending).held = [] := by
  rcases ending with (⟨v, next⟩ | f) | _ | _
  · change F.node.hold F.held v = []
    rw [empty, plain]
  · exact empty
  · exact empty
  · exact empty

end

structure Run.Told (s : Run) (limit : Int) : Prop where
  maxDepth : s.guard.maxDepth = limit
  journal : Along (Accounted limit) s.journal

structure Run.Inside (s : Run) (limit : Int) (F : Frame) (fs : List Frame) : Prop where
  told : s.Told limit
  frames : s.frames = F :: fs
  latest : latest limit s.journal = none
  calls : callsSince s.journal = []
  failurePass : F.failurePass = []
  handlerPass : F.handlerPass = []

structure Run.Swept (s : Run) (limit : Int) (ending : Ending Result) (F : Frame)
    (fs : List Frame) : Prop where
  told : s.Told limit
  frames : s.frames = F :: fs
  latest : latest limit s.journal = ending.early?
  calls : callsSince s.journal = F.failurePass ++ F.handlerPass
  swept : F.Swept (lastChild limit s.journal)

structure Run.Returned (s : Run) (limit : Int) (ending : Ending Result) (fs : List Frame) :
    Prop where
  told : s.Told limit
  frames : s.frames = receive ending fs
  latest : latest limit s.journal = ending.early?
  child : lastChild limit s.journal = some ending
  calls : callsSince s.journal = []

/-- What becomes of a run by a pass. -/
structure Run.Passing (s : Run) (limit : Int) (F : Frame) (fs : List Frame)
    (calls : List ReleaseCall) (ending : Ending Unit) (s' : Run) : Prop where
  told : s'.Told limit
  frames : s'.frames = calls.foldl Frame.call F :: fs
  latest : latest limit s'.journal = ending.early?.or (latest limit s.journal)
  child : lastChild limit s'.journal = lastChild limit s.journal
  calls : callsSince s'.journal = callsSince s.journal ++ calls

namespace Run

variable {s s' : Run} {limit : Int} {F : Frame} {fs : List Frame} {ending : Ending Result}

theorem Told.record (told : s.Told limit) (store : Store) {g : Guard} {e : Entry}
    (maxDepth : g.maxDepth = limit) (here : Accounted limit e s.journal) :
    (Run.record ⟨store, g, s.journal⟩ e).Told limit :=
  ⟨maxDepth, told.journal.cons here⟩

theorem Inside.of_opened (told : s.Told limit) (frames : s.frames = fs)
    (unraised : Peg.latest limit s.journal = none) {g : Guard} (maxDepth : g.maxDepth = limit)
    (trace : Bool) (h : HandleId) (node : Node) (c : Cursor) :
    (s.opened trace h node c g).Inside limit { handle := h, node := node } fs := by
  have entered := told.record s.store (e := .entered h node c.pos g.depth) maxDepth unraised
  have opened : (s.opened trace h node c g).frames = { handle := h, node := node } :: fs := by
    rw [frames_opened, frames]
  cases trace with
  | false => exact ⟨entered, opened, unraised, rfl, rfl, rfl⟩
  | true => exact ⟨entered.record s.store maxDepth trivial, opened, unraised, rfl, rfl, rfl⟩

theorem Inside.swept_of_empty (inside : s.Inside limit F fs) (empty : F.held = [])
    (unraised : ending.early? = none) : s.Swept limit ending F fs where
  told := inside.told
  frames := inside.frames
  latest := inside.latest.trans unraised.symm
  calls := by rw [inside.calls, inside.failurePass, inside.handlerPass]; rfl
  swept := Frame.swept_of_empty empty inside.failurePass inside.handlerPass

theorem Returned.inside {r : Result} (returned : s'.Returned limit (.done r) (F :: fs))
    (inside : s.Inside limit F fs) : s'.Inside limit (F.receive r) fs where
  told := returned.told
  frames := returned.frames
  latest := returned.latest
  calls := returned.calls
  failurePass := (failurePass_received F (.done r)).trans inside.failurePass
  handlerPass := (handlerPass_received F (.done r)).trans inside.handlerPass

theorem Returned.swept (returned : s'.Returned limit ending (F :: fs))
    (inside : s.Inside limit F fs)
    (swept : (F.received ending).failurePass = [] → (F.received ending).handlerPass = [] →
      (F.received ending).Swept (some ending)) :
    s'.Swept limit ending (F.received ending) fs := by
  have failurePass := (failurePass_received F ending).trans inside.failurePass
  have handlerPass := (handlerPass_received F ending).trans inside.handlerPass
  refine ⟨returned.told, returned.frames.trans (receive_cons F ending fs), returned.latest, ?_, ?_⟩
  · rw [returned.calls, failurePass, handlerPass]
    rfl
  · rw [returned.child]
    exact swept failurePass handlerPass

theorem Returned.swept_of_empty (returned : s'.Returned limit ending (F :: fs))
    (inside : s.Inside limit F fs) (empty : F.held = []) (plain : ∀ v, F.node.hold [] v = []) :
    s'.Swept limit ending (F.received ending) fs :=
  returned.swept inside (Frame.swept_of_empty (held_received empty plain ending))

theorem Swept.logged (swept : s.Swept limit ending F fs) (record : Record) :
    (s.record (.logged record)).Swept limit ending F fs :=
  ⟨swept.told.record s.store swept.told.maxDepth trivial, swept.frames, swept.latest, swept.calls,
    swept.swept⟩

theorem Swept.closed (swept : s.Swept limit ending F fs) (trace : Bool) (c : Cursor) :
    (s.closed trace F.handle c ending).Returned limit ending fs := by
  have frames := frames_closed swept.frames trace F.handle c ending
  obtain ⟨s', before, closed⟩ := s.closed_cases trace F.handle c ending
  have logged : s'.Swept limit ending F fs := by
    obtain rfl | ⟨record, rfl⟩ := before
    · exact swept
    · exact swept.logged record
  rw [closed] at frames ⊢
  refine ⟨logged.told.record s'.store swept.told.maxDepth ?_, frames, logged.latest, rfl, rfl⟩
  exact ⟨logged.latest, F, fs, logged.frames, rfl, logged.calls, logged.swept⟩

end Run

namespace Stage

def Prepared (F : Frame) (last : Option (Ending Result)) : Stage → Prop
  | .body _ | .items _ _ _ | .turns _ _ _ _ _ _ => F.failing = false
  | .giveUp _ _ => F.failing = true ∧ F.Fails last
  | _ => True

/-- How the passes of a stage are accounted for. -/
def Sweeps (limit : Int) (s : Run) (ending : Ending Result) (s' : Run) : Stage → Prop
  | .call _ => ∀ fs, s.Told limit → s.frames = fs → latest limit s.journal = none →
    s'.Returned limit ending fs
  | .waiting _ held => ∀ F fs, s.Inside limit F fs → F.held = held → F.failing = false →
    match ending with
    | .done r => s'.Inside limit (F.receive r) fs ∧ lastChild limit s'.journal = some (.done r)
    | _ => ∃ F' : Frame, F'.handle = F.handle ∧ s'.Swept limit ending F' fs
  | stage => ∀ F fs, s.Inside limit F fs → stage.Fits F →
    stage.Prepared F (lastChild limit s.journal) →
    ∃ F' : Frame, F'.handle = F.handle ∧ s'.Swept limit ending F' fs

theorem sweeps_waiting_iff {limit : Int} {s s' : Run} {ending : Ending Result} {h : HandleId}
    {held : Held} (early : ∀ r, ending ≠ .done r) :
    (waiting h held).Sweeps limit s ending s' ↔
      ∀ F fs, s.Inside limit F fs → F.held = held → F.failing = false →
        ∃ F' : Frame, F'.handle = F.handle ∧ s'.Swept limit ending F' fs := by
  rcases ending with r | _ | _
  · exact absurd rfl (early r)
  · exact Iff.rfl
  · exact Iff.rfl

end Stage

namespace Meaning

variable {m : Meaning} {trace : Bool} {limit : Int} {F : Frame} {fs : List Frame}

theorem releaseAll_passing {held : Held} {s s' : Run} {ending : Ending Unit}
    (h : m.releaseAll held s = (ending, s')) (told : s.Told limit) (frames : s.frames = F :: fs) :
    ∃ calls, Sweep held calls ending ∧ s.Passing limit F fs calls ending s' := by
  induction held generalizing s F with
  | nil =>
    cases h
    exact ⟨[], .ended, told, frames, rfl, rfl, (List.append_nil _).symm⟩
  | cons item held ih =>
    obtain ⟨v, _ | r⟩ := item
    · obtain ⟨calls, sweep, passing⟩ := ih (releaseAll_cons_none v held ▸ h) told frames
      exact ⟨calls, sweep.skips, passing⟩
    · have inside : Peg.frames s.journal ≠ [] := by
        intro none
        cases frames.symm.trans none
      obtain ⟨s₁, first, rest⟩ | ⟨first, stopped⟩ := releaseAll_cons_some h
      · obtain ⟨store, events, depth, rfl⟩ := runRelease_journal first
        have called := told.record store (e := .released r v (.done ()) events depth)
          told.maxDepth inside
        have frames₁ : (Run.record { s with store := store }
            (.released r v (.done ()) events depth)).frames = F.call ⟨r, v, .done ()⟩ :: fs := by
          have same : Run.frames { s with store := store } = F :: fs := frames
          rw [frames_record, same]
          rfl
        obtain ⟨calls, sweep, passing⟩ := ih rest called frames₁
        refine ⟨_, sweep.calls, passing.told, passing.frames, passing.latest, passing.child, ?_⟩
        rw [passing.calls]
        exact List.append_assoc ..
      · obtain ⟨store, events, depth, rfl⟩ := runRelease_journal first
        refine ⟨_, .stops stopped, told.record store told.maxDepth inside, ?_, latest_cons .., rfl,
          rfl⟩
        have same : Run.frames { s with store := store } = F :: fs := frames
        rw [frames_record, same]
        rfl

theorem unwind_swept {held : Held} {fault : Fault} {s s' : Run} {ending : Ending Result}
    (h : m.unwind held fault s = (ending, s')) (told : s.Told limit) (frames : s.frames = F :: fs)
    (latest : latest limit s.journal = some (.raised fault)) (holds : F.held = held)
    (handling : F.failing = false) (handlerPass : F.handlerPass = [])
    (calls : callsSince s.journal = F.failurePass) (faulted : F.Faulted (lastChild limit s.journal))
    (failed : F.Fails (lastChild limit s.journal) → ∃ ending, Sweep F.held F.failurePass ending)
    (unfailed : ¬ F.Fails (lastChild limit s.journal) → F.failurePass = []) :
    ∃ F' : Frame, F'.handle = F.handle ∧ s'.Swept limit ending F' fs := by
  rcases released : m.releaseAll held s with ⟨out, s₁⟩
  obtain ⟨passed, sweep, passing⟩ := releaseAll_passing released told frames
  have frames' := passing.frames
  rw [foldl_call_handling handling, handlerPass, List.nil_append] at frames'
  have swept : Frame.Swept { F with handlerPass := passed } (lastChild limit s₁.journal) := by
    rw [passing.child]
    exact ⟨failed, unfailed, fun _ => ⟨out, holds ▸ sweep⟩,
      fun unfaulted => absurd faulted unfaulted⟩
  have since : callsSince s₁.journal = F.failurePass ++ passed := by rw [passing.calls, calls]
  have last := passing.latest
  rw [latest] at last
  obtain ⟨pass, rfl⟩ | ⟨other, pass, rfl⟩ | ⟨message, pass, rfl⟩ := unwind_cases h
  all_goals
    cases released.symm.trans pass
    exact ⟨{ F with handlerPass := passed }, rfl, passing.told, frames', last, since, swept⟩

theorem giveUp_swept {held : Held} {f : Failure} {s s' : Run} {ending : Ending Result}
    (h : m.giveUp held f s = (ending, s')) (inside : s.Inside limit F fs) (holds : F.held = held)
    (failing : F.failing = true) (fails : F.Fails (lastChild limit s.journal)) :
    ∃ F' : Frame, F'.handle = F.handle ∧ s'.Swept limit ending F' fs := by
  rcases released : m.releaseAll held s with ⟨out, s₁⟩
  obtain ⟨passed, sweep, passing⟩ := releaseAll_passing released inside.told inside.frames
  have frames₁ := passing.frames
  have last := passing.latest
  rw [inside.latest, Option.or_none] at last
  have since : callsSince s₁.journal = passed := by rw [passing.calls, inside.calls]; rfl
  rw [← holds] at sweep
  obtain ⟨⟨g, failed⟩, short⟩ := id fails
  have failed' : lastChild limit s₁.journal = some (.done (.failure g)) :=
    passing.child.trans failed
  -- The pass comes to its end, or it raises and the handler makes one more, or it is aborted.
  obtain ⟨pass, rfl⟩ | ⟨fault, s₂, pass, again⟩ | ⟨message, pass, rfl⟩ := giveUp_cases h
  · cases released.symm.trans pass
    rw [foldl_call_failing failing sweep.all_done, inside.failurePass, List.nil_append] at frames₁
    refine ⟨{ F with failurePass := passed }, rfl, passing.told, frames₁, last, ?_, ?_⟩
    · rw [since, inside.handlerPass, List.append_nil]
    · rw [failed']
      exact Frame.swept_of_failed short sweep inside.handlerPass fun _ => nofun
  · cases released.symm.trans pass
    obtain ⟨before, x, rfl, done, raised⟩ := sweep.stopped nofun
    rw [foldl_call_stopped failing done (by rw [raised]; nofun), inside.failurePass,
      List.nil_append] at frames₁
    refine unwind_swept (F := { F with failurePass := before ++ [x], failing := false }) again
      passing.told frames₁ last holds rfl inside.handlerPass since ?_ ?_ ?_
    · exact .inr ⟨x, List.mem_append_right _ (List.mem_singleton_self x), fault, raised⟩
    · exact fun _ => ⟨_, sweep⟩
    · exact fun unfailed => absurd ⟨⟨g, failed'⟩, short⟩ unfailed
  · cases released.symm.trans pass
    obtain ⟨before, x, rfl, done, aborted⟩ := sweep.stopped nofun
    rw [foldl_call_stopped failing done (by rw [aborted]; nofun), inside.failurePass,
      List.nil_append] at frames₁
    refine ⟨{ F with failurePass := before ++ [x], failing := false }, rfl, passing.told, frames₁,
      last, ?_, ?_⟩
    · rw [since, inside.handlerPass, List.append_nil]
    · rw [failed']
      exact Frame.swept_of_failed short sweep inside.handlerPass fun _ => nofun

theorem runFold_swept {fold : Fold} {vs : List Value} {s s' : Run} {ending : Ending Value}
    (h : m.runFold fold vs s = (ending, s')) (inside : s.Inside limit F fs) (c : Cursor) :
    s'.Swept limit (ending.map (.success · c)) F.hand fs := by
  cases h
  refine ⟨inside.told.record _ inside.told.maxDepth inside.latest, ?_, ?_, ?_,
    Frame.swept_of_empty rfl inside.failurePass inside.handlerPass⟩
  · have same : Run.frames { s with store := (m.fold fold vs s.store).store } = F :: fs :=
      inside.frames
    rw [frames_record, same]
    rfl
  · rw [Ending.early?_map]
    exact (latest_cons ..).trans (by rw [inside.latest]; exact Option.or_none)
  · exact inside.calls.trans (by rw [Frame.hand, inside.failurePass, inside.handlerPass]; rfl)

theorem runApply_swept {func : Func} {v : Value} {s s' : Run} {ending : Ending Value}
    (h : m.runApply func v s = (ending, s')) (inside : s.Inside limit F fs) (empty : F.held = [])
    (c : Cursor) : s'.Swept limit (ending.map (.success · c)) F fs := by
  cases h
  refine ⟨inside.told.record _ inside.told.maxDepth inside.latest, inside.frames, ?_, ?_,
    Frame.swept_of_empty empty inside.failurePass inside.handlerPass⟩
  · rw [Ending.early?_map]
    exact (latest_cons ..).trans (by rw [inside.latest]; exact Option.or_none)
  · exact inside.calls.trans (by rw [inside.failurePass, inside.handlerPass]; rfl)

theorem Ran.sweeps {stage : Stage} {c : Cursor} {s s' : Run} {ending : Ending Result}
    (ran : m.Ran trace stage c s ending s') : stage.Sweeps limit s ending s' := by
  induction ran with
  | missing =>
    intro fs told frames unraised
    refine ⟨told.record _ told.maxDepth unraised, ?_, rfl, rfl, rfl⟩
    rw [receive_raised, ← frames]
    rfl
  | refused _ enter =>
    intro fs told frames unraised
    obtain ⟨_, rfl⟩ := Guard.enter_eq_error_iff.mp enter
    obtain rfl := told.maxDepth
    refine ⟨told.record _ rfl unraised, ?_, rfl, rfl, rfl⟩
    rw [receive_raised, ← frames]
    rfl
  | @entered h c s body g ending s' _ enter _ ih =>
    intro fs told frames unraised
    have within : g.maxDepth = limit := by
      obtain ⟨_, rfl⟩ := Guard.enter_eq_ok_iff.mp enter
      exact told.maxDepth
    obtain ⟨F', handle, swept⟩ := ih { handle := h, node := body.node } fs
      (.of_opened told frames unraised within trace h body.node c) ⟨rfl, rfl⟩ rfl
    obtain rfl : F'.handle = h := handle
    exact swept.closed trace c
  | leaf =>
    intro F fs inside fits _
    exact ⟨F, rfl, inside.swept_of_empty fits.2 rfl⟩
  | choice _ ih =>
    intro F fs inside fits _
    exact ih F fs inside ⟨⟨_, _, fits.1⟩, fits.2⟩ trivial
  | exhausted =>
    intro F fs inside fits _
    exact ⟨F, rfl, inside.swept_of_empty fits.2 rfl⟩
  | settled _ _ ih =>
    intro F fs inside fits _
    obtain ⟨⟨first, others, node⟩, empty⟩ := fits
    exact ⟨_, handle_received F _, (ih _ inside.told inside.frames inside.latest).swept_of_empty
      inside empty fun v => by rw [node]; rfl⟩
  | passed _ _ ih ih' =>
    intro F fs inside fits _
    have returned := ih _ inside.told inside.frames inside.latest
    exact ih' (F.receive (.failure _)) fs (returned.inside inside) fits trivial
  | @awaited h held c s ending s' _ unraised ih =>
    intro F fs inside _ _
    have returned := ih _ inside.told inside.frames inside.latest
    rcases ending with r | fault | message
    · exact ⟨returned.inside inside, returned.child⟩
    · exact absurd rfl (unraised fault)
    · refine ⟨F, rfl, returned.swept inside fun failurePass handlerPass => ?_⟩
      -- An abort is neither a failure nor a fault: no pass is made.
      refine ⟨fun fails => ?_, fun _ => failurePass, fun faulted => ?_, fun _ => handlerPass⟩
      · obtain ⟨⟨_, eq⟩, _⟩ := fails
        cases eq
      · obtain ⟨_, eq⟩ | ⟨x, mem, _⟩ := faulted
        · cases eq
        · rw [failurePass] at mem
          exact absurd mem List.not_mem_nil
  | @unwound _ _ _ _ fault _ _ _ _ pass ih =>
    refine (Stage.sweeps_waiting_iff (unwind_ne_done pass)).mpr fun F fs inside holds handling => ?_
    have returned := ih _ inside.told inside.frames inside.latest
    refine unwind_swept pass returned.told returned.frames returned.latest holds handling
      inside.handlerPass (returned.calls.trans inside.failurePass.symm) ?_ ?_ ?_
    · exact .inl ⟨fault, returned.child⟩
    · rintro ⟨⟨_, failed⟩, _⟩
      cases returned.child.symm.trans failed
    · exact fun _ => inside.failurePass
  | folded work =>
    intro F fs inside _ _
    exact ⟨F.hand, rfl, runFold_swept work inside _⟩
  | gaveUp pass =>
    intro F fs inside fits prepared
    exact giveUp_swept pass inside fits prepared.1 prepared.2
  | sequence _ ih =>
    intro F fs inside fits prepared
    exact ih F fs inside ⟨⟨[], fits.1, rfl⟩, fits.2⟩ prepared
  | itemsDone _ ih | turnsFull _ _ ih =>
    intro F fs inside fits _
    exact ih F fs inside fits.2 trivial
  | itemDone _ _ ih ih' =>
    intro F fs inside fits prepared
    obtain ⟨inside', _⟩ := ih F fs inside fits.2 prepared
    exact ih' (F.receive (.success _ _)) fs inside' (Stage.fits_items_next fits _ _) prepared
  | @itemFailed _ _ _ _ _ _ _ f _ _ _ _ _ ih ih' =>
    intro F fs inside fits prepared
    obtain ⟨inside', child⟩ := ih F fs inside fits.2 prepared
    obtain ⟨⟨_, node, _⟩, _⟩ := id fits
    have short : (F.receive (.failure f)).Short := by simp [Frame.receive, Frame.Short, node]
    exact ih' (F.receive (.failure f)) fs inside' fits.2 ⟨rfl, ⟨f, child⟩, short⟩
  | itemEnded _ early ih =>
    intro F fs inside fits prepared
    exact (Stage.sweeps_waiting_iff early).mp ih F fs inside fits.2 prepared
  | repetition _ ih =>
    intro F fs inside fits prepared
    exact ih F fs inside fits prepared
  | turnMoved _ _ _ _ ih ih' =>
    intro F fs inside fits prepared
    obtain ⟨inside', _⟩ := ih F fs inside fits.2 prepared
    exact ih' (F.receive (.success _ _)) fs inside' (Stage.fits_turns_next fits _ _) prepared
  | turnStill _ _ _ _ ih ih' =>
    intro F fs inside fits prepared
    obtain ⟨inside', _⟩ := ih F fs inside fits.2 prepared
    exact ih' (F.receive (.success _ _)) fs inside' (Stage.fits_turns_next fits _ _).2 trivial
  | turnFailed _ _ _ _ ih ih' =>
    intro F fs inside fits prepared
    obtain ⟨inside', _⟩ := ih F fs inside fits.2 prepared
    exact ih' (F.receive (.failure _)) fs inside' fits.2 trivial
  | @turnShort _ _ _ _ _ _ _ _ f _ _ _ _ _ few _ ih ih' =>
    intro F fs inside fits prepared
    obtain ⟨inside', child⟩ := ih F fs inside fits.2 prepared
    obtain ⟨node, holds⟩ := id fits
    have short : (F.receive (.failure f)).Short := by
      simpa [Frame.receive, Frame.Short, node, holds] using few
    exact ih' (F.receive (.failure f)) fs inside' fits.2 ⟨rfl, ⟨f, child⟩, short⟩
  | turnEnded _ _ early ih =>
    intro F fs inside fits prepared
    exact (Stage.sweeps_waiting_iff early).mp ih F fs inside fits.2 prepared
  | @applied item func c s v next s₁ ending s' _ work ih =>
    intro F fs inside fits _
    obtain ⟨node, empty⟩ := fits
    have returned := ih _ inside.told inside.frames inside.latest
    have still : (F.receive (.success v next)).held = [] := by
      simp [Frame.receive, node, Node.hold, empty]
    exact ⟨F.receive (.success v next), rfl,
      runApply_swept work (returned.inside inside) still next⟩
  | unapplied _ _ ih =>
    intro F fs inside fits _
    obtain ⟨node, empty⟩ := fits
    exact ⟨_, handle_received F _, (ih _ inside.told inside.frames inside.latest).swept_of_empty
      inside empty fun v => by rw [node]; rfl⟩
  | expect _ ih =>
    intro F fs inside fits _
    obtain ⟨node, empty⟩ := fits
    have swept := (ih _ inside.told inside.frames inside.latest).swept_of_empty inside empty
      fun v => by rw [node]; rfl
    exact ⟨_, handle_received F _, swept.told, swept.frames,
      swept.latest.trans (Ending.early?_map ..).symm, swept.calls, swept.swept⟩

/-- Main result. A run ends with the fault or abort that came up last, if any did, and leaves all
its calls; each of them made the passes it had to make, and came to no value more than twice. Where
a child came back with a fault, what follows is the pass of the call around it, up to its end. -/
theorem call_sweeps (m : Meaning) (ctx : Context) (h : HandleId) (c : Cursor) (s : Store) :
    latest ctx.guard.maxDepth (m.call ctx h c s).2.journal = (m.call ctx h c s).1.early? ∧
    frames (m.call ctx h c s).2.journal = [] ∧
    Along (Accounted ctx.guard.maxDepth) (m.call ctx h c s).2.journal ∧
    (∀ after k ending depth before,
      (m.call ctx h c s).2.journal = after ++ .left k ending depth :: before →
      ∀ F fs, frames before = F :: fs → ∀ p : Exit → Bool,
        ((F.failurePass ++ F.handlerPass).map ReleaseCall.exit).countP p ≤
          2 * F.held.due.countP p ∧
        ((∀ x ∈ F.failurePass, ∀ fault, x.ending ≠ .raised fault) →
          ((F.failurePass ++ F.handlerPass).map ReleaseCall.exit).countP p ≤
            F.held.due.countP p)) ∧
    ∀ after before F fs fault, (m.call ctx h c s).2.journal = after ++ before →
      frames before = F :: fs → lastChild ctx.guard.maxDepth before = some (.raised fault) →
      ∃ later ending depth pass, after = later ++ .left F.handle ending depth :: pass ∧
        (∀ e ∈ pass, e.InPass) ∧
        ∃ F' out, frames (pass ++ before) = F' :: fs ∧ F'.held = F.held ∧
          Sweep F.held F'.handlerPass out := by
  have start : Run.Told ⟨s, ctx.guard, []⟩ ctx.guard.maxDepth := ⟨rfl, along_nil _⟩
  have returned := (ran_call (m := m) ctx h c s).sweeps [] start rfl rfl
  have told := returned.told.journal
  refine ⟨returned.latest, returned.frames, told, ?_, ?_⟩
  · intro after k ending depth before split F fs frames
    obtain ⟨_, F', fs', frames', _, _, swept⟩ := told after _ before split
    cases frames.symm.trans frames'
    exact swept.count_le
  · intro after before F fs fault split
    exact told.handled returned.frames split

def reluctant (tag : String) : Release := .logged tag [1] (.fault tag)

def stubborn : Store where
  grammar := ⟨#[{ status := .defined ⟨0, .pure (.integer 1)⟩ },
    { status := .defined ⟨1, .fail "more"⟩ },
    { status := .defined ⟨2, .sequence .list [(0, some (reluctant "inner")), (1, none)]⟩ },
    { status := .defined ⟨3, .sequence .list [(0, some (reluctant "outer")), (2, none)]⟩ }]⟩

def stubbornRun : Ending Result × Run := usual.call shallow 3 (.start #[]) stubborn

/-- The fault of the inner release takes the place of the failure, and that of the outer one takes
its place. The inner sequence makes both passes, and the outer one comes to its own. -/
theorem stubborn_sweeps :
    stubbornRun.1 = .raised (.requested "outer") ∧
    latest shallow.guard.maxDepth stubbornRun.2.journal = some (.raised (.requested "outer")) ∧
    (∃ F fs, frames (stubbornRun.2.journal.drop 3) = F :: fs ∧ F.failurePass.length = 1 ∧
      F.handlerPass.length = 1 ∧ (F.failurePass ++ F.handlerPass).length ≤ 2 * F.held.due.length) ∧
    ∃ later ending depth pass,
      stubbornRun.2.journal.take 2 = later ++ .left 3 ending depth :: pass ∧
      (∀ e ∈ pass, e.InPass) ∧
      ∃ F out, frames (pass ++ stubbornRun.2.journal.drop 2) = [F] ∧
        F.held = [(.integer 1, some (reluctant "outer"))] ∧
        Sweep [(.integer 1, some (reluctant "outer"))] F.handlerPass out := by
  have run : usual.call shallow 3 (.start #[]) stubborn = stubbornRun := rfl
  have sweeps := call_sweeps usual shallow 3 (.start #[]) stubborn
  rw [run] at sweeps
  obtain ⟨last, _, _, counts, handled⟩ := sweeps
  have ending : stubbornRun.1 = .raised (.requested "outer") := by cbv
  let inner : Frame :=
    { handle := 2
      node := .sequence .list [(0, some (reluctant "inner")), (1, none)]
      held := [(.integer 1, some (reluctant "inner"))]
      failurePass := [⟨reluctant "inner", .integer 1, .raised (.requested "inner")⟩]
      handlerPass := [⟨reluctant "inner", .integer 1, .done ()⟩] }
  let outer : Frame :=
    { handle := 3
      node := .sequence .list [(0, some (reluctant "outer")), (2, none)]
      held := [(.integer 1, some (reluctant "outer"))] }
  have inside : frames (stubbornRun.2.journal.drop 3) = [inner, outer] := by cbv
  have left : stubbornRun.2.journal = stubbornRun.2.journal.take 2 ++
      .left 2 (.raised (.requested "inner")) 1 :: stubbornRun.2.journal.drop 3 := by cbv
  have around : frames (stubbornRun.2.journal.drop 2) = [outer] := by cbv
  have child : lastChild shallow.guard.maxDepth (stubbornRun.2.journal.drop 2) =
      some (.raised (.requested "inner")) := by cbv
  refine ⟨ending, ?_, ⟨inner, _, inside, rfl, rfl, ?_⟩, ?_⟩
  · exact last.trans (congrArg Ending.early? ending)
  · have twice := (counts _ _ _ _ _ left _ _ inside fun _ => true).1
    simpa using twice
  · exact handled _ _ _ _ _ (List.take_append_drop 2 stubbornRun.2.journal).symm around child

end Meaning

end Peg
