import Peg.Proofs.Unwinding

/-!
Releasing, where releases may raise. A call passes over the values it holds after the failure of a
child that it fails with, and once more after a fault, be it of a child or of its own first pass.
A pass goes through them in order and stops at a release that does not come back. A fault that is
raised on the way takes the place of the one before it, so a run ends with the last.
-/

namespace Peg

/-- A pass over held values: it calls their releases in order, each of them once, and ends with the
first that does not come back. -/
inductive Sweep : Held → List ReleaseCall → Ending Unit → Prop where
  | ended : Sweep [] [] (.done ())
  | skips {v : Value} {held : Held} {calls : List ReleaseCall} {ending : Ending Unit} :
      Sweep held calls ending → Sweep ((v, none) :: held) calls ending
  | calls {v : Value} {r : Release} {held : Held} {calls : List ReleaseCall}
      {ending : Ending Unit} : Sweep held calls ending →
      Sweep ((v, some r) :: held) (⟨r, v, .done ()⟩ :: calls) ending
  | stops {v : Value} {r : Release} {held : Held} {ending : Ending Unit} : ending ≠ .done () →
      Sweep ((v, some r) :: held) [⟨r, v, ending⟩] ending

def ReleaseCall.exit (x : ReleaseCall) : Exit := .release x.release x.value

namespace Sweep

variable {held : Held} {calls : List ReleaseCall} {ending : Ending Unit}

theorem ending_of_mem (sweep : Sweep held calls ending) :
    ∀ x ∈ calls, x.ending = .done () ∨ x.ending = ending := by
  induction sweep with
  | ended => exact fun x mem => absurd mem List.not_mem_nil
  | skips _ ih => exact ih
  | calls _ ih =>
    intro x mem
    rcases List.mem_cons.mp mem with rfl | mem
    · exact .inl rfl
    · exact ih x mem
  | stops =>
    intro x mem
    obtain rfl := List.mem_singleton.mp mem
    exact .inr rfl

theorem all_done (sweep : Sweep held calls (.done ())) : ∀ x ∈ calls, x.ending = .done () :=
  fun x mem => (sweep.ending_of_mem x mem).elim id id

theorem stopped (sweep : Sweep held calls ending) (stopped : ending ≠ .done ()) :
    ∃ before x, calls = before ++ [x] ∧ (∀ y ∈ before, y.ending = .done ()) ∧
      x.ending = ending := by
  induction sweep with
  | ended => exact absurd rfl stopped
  | skips _ ih => exact ih stopped
  | calls _ ih =>
    obtain ⟨before, x, rfl, done, last⟩ := ih stopped
    refine ⟨_ :: before, x, rfl, fun y mem => ?_, last⟩
    rcases List.mem_cons.mp mem with rfl | mem
    · rfl
    · exact done y mem
  | stops => exact ⟨[], _, rfl, fun y mem => absurd mem List.not_mem_nil, rfl⟩

theorem due (sweep : Sweep held calls ending) : calls.map ReleaseCall.exit <+: held.due := by
  induction sweep with
  | ended => exact List.prefix_rfl
  | skips _ ih => exact ih
  | calls _ ih => exact List.cons_prefix_cons.mpr ⟨rfl, ih⟩
  | stops => exact List.cons_prefix_cons.mpr ⟨rfl, List.nil_prefix⟩

end Sweep

namespace Frame

def Short (F : Frame) : Prop :=
  match F.node with
  | .sequence _ _ => True
  | .repetition _ _ least _ _ => (F.held.length : Int) < least
  | _ => False

def Fails (F : Frame) (last : Option (Ending Result)) : Prop :=
  (∃ f, last = some (.done (.failure f))) ∧ F.Short

def Faulted (F : Frame) (last : Option (Ending Result)) : Prop :=
  (∃ fault, last = some (.raised fault)) ∨
    ∃ x ∈ F.failurePass, ∃ fault, x.ending = .raised fault

/-- A call made the passes it had to make and no others; `last` is how its last child came back. -/
structure Swept (F : Frame) (last : Option (Ending Result)) : Prop where
  failed : F.Fails last → ∃ ending, Sweep F.held F.failurePass ending
  unfailed : ¬ F.Fails last → F.failurePass = []
  faulted : F.Faulted last → ∃ ending, Sweep F.held F.handlerPass ending
  unfaulted : ¬ F.Faulted last → F.handlerPass = []

variable {F : Frame} {last : Option (Ending Result)}

theorem swept_of_empty (held : F.held = []) (failurePass : F.failurePass = [])
    (handlerPass : F.handlerPass = []) : F.Swept last := by
  have nothing : Sweep F.held [] (.done ()) := held ▸ .ended
  exact ⟨fun _ => ⟨_, failurePass ▸ nothing⟩, fun _ => failurePass,
    fun _ => ⟨_, handlerPass ▸ nothing⟩, fun _ => handlerPass⟩

theorem swept_of_failed {f : Failure} {ending : Ending Unit} (short : F.Short)
    (sweep : Sweep F.held F.failurePass ending) (handlerPass : F.handlerPass = [])
    (unraised : ∀ fault, ending ≠ .raised fault) : F.Swept (some (.done (.failure f))) where
  failed _ := ⟨ending, sweep⟩
  unfailed unfailed := absurd ⟨⟨f, rfl⟩, short⟩ unfailed
  faulted faulted := by
    obtain ⟨fault, eq⟩ | ⟨x, mem, fault, raised⟩ := faulted
    · cases eq
    · rcases sweep.ending_of_mem x mem with done | last
      · cases done.symm.trans raised
      · exact absurd (last.symm.trans raised) (unraised fault)
  unfaulted _ := handlerPass

namespace Swept

theorem failurePass_due (swept : F.Swept last) :
    F.failurePass.map ReleaseCall.exit <+: F.held.due := by
  by_cases fails : F.Fails last
  · obtain ⟨_, sweep⟩ := swept.failed fails
    exact sweep.due
  · rw [swept.unfailed fails]
    exact List.nil_prefix

theorem handlerPass_due (swept : F.Swept last) :
    F.handlerPass.map ReleaseCall.exit <+: F.held.due := by
  by_cases faulted : F.Faulted last
  · obtain ⟨_, sweep⟩ := swept.faulted faulted
    exact sweep.due
  · rw [swept.unfaulted faulted]
    exact List.nil_prefix

theorem count_le (swept : F.Swept last) (p : Exit → Bool) :
    ((F.failurePass ++ F.handlerPass).map ReleaseCall.exit).countP p ≤ 2 * F.held.due.countP p ∧
    ((∀ x ∈ F.failurePass, ∀ fault, x.ending ≠ .raised fault) →
      ((F.failurePass ++ F.handlerPass).map ReleaseCall.exit).countP p ≤
        F.held.due.countP p) := by
  have first := swept.failurePass_due.sublist.countP_le (p := p)
  have second := swept.handlerPass_due.sublist.countP_le (p := p)
  rw [List.map_append, List.countP_append]
  refine ⟨by omega, fun unraised => ?_⟩
  by_cases failed : F.Fails last
  · obtain ⟨⟨f, rfl⟩, _⟩ := failed
    have unfaulted : ¬ F.Faulted (some (.done (.failure f))) := by
      rintro (⟨fault, eq⟩ | ⟨x, mem, fault, raised⟩)
      · cases eq
      · exact unraised x mem fault raised
    rw [swept.unfaulted unfaulted]
    exact first
  · rw [swept.unfailed failed]
    simpa using second

end Swept

end Frame

def lastChild (limit : Int) : List Entry → Option (Ending Result)
  | .left _ ending _ :: _ => some ending
  | .missing _ fault _ :: _ => some (.raised fault)
  | .refused _ _ _ :: _ => some (.raised (.depthLimit limit))
  | .entered _ _ _ _ :: _ | [] => none
  | _ :: before => lastChild limit before

def callsSince : List Entry → List ReleaseCall
  | .released r v ending _ _ :: before => callsSince before ++ [⟨r, v, ending⟩]
  | .left _ _ _ :: _ | .missing _ _ _ :: _ | .refused _ _ _ :: _ | .entered _ _ _ _ :: _ | [] => []
  | _ :: before => callsSince before

def Entry.raises? (limit : Int) : Entry → Option (Ending Result)
  | .released _ _ ending _ _ => ending.early?
  | e => e.arises? limit

/-- The fault or abort that came up last. -/
def latest (limit : Int) (journal : List Entry) : Option (Ending Result) :=
  journal.findSome? (Entry.raises? limit)

/-- What an entry says of the passes. A call ends with what came up last, and until then it has made
its passes, all of them after its last child. Once something has come up, values are released and
calls are left, and nothing else is begun. -/
def Accounted (limit : Int) (e : Entry) (before : List Entry) : Prop :=
  match e with
  | .left h ending _ => latest limit before = ending.early? ∧
      ∃ F fs, frames before = F :: fs ∧ F.handle = h ∧
        callsSince before = F.failurePass ++ F.handlerPass ∧ F.Swept (lastChild limit before)
  | .released _ _ _ _ _ => frames before ≠ []
  | .logged _ => True
  | _ => latest limit before = none

@[simp] theorem latest_cons (limit : Int) (e : Entry) (journal : List Entry) :
    latest limit (e :: journal) = (e.raises? limit).or (latest limit journal) := by
  rw [latest, List.findSome?_cons]
  rcases e.raises? limit with _ | _ <;> rfl

def Entry.InPass : Entry → Prop
  | .released _ _ _ _ _ | .logged _ => True
  | _ => False

theorem exists_outside (after : List Entry) : (∀ e ∈ after, e.InPass) ∨
    ∃ later e pass, after = later ++ e :: pass ∧ (∀ d ∈ pass, d.InPass) ∧ ¬ e.InPass := by
  induction after with
  | nil => exact .inl fun e mem => absurd mem List.not_mem_nil
  | cons d after ih =>
    obtain all | ⟨later, e, pass, rfl, inPass, outside⟩ := ih
    · by_cases here : d.InPass
      · exact .inl (List.forall_mem_cons.mpr ⟨here, all⟩)
      · exact .inr ⟨[], d, after, rfl, all, here⟩
    · exact .inr ⟨d :: later, e, pass, rfl, inPass, outside⟩

theorem frames_pass {pass before : List Entry} (inPass : ∀ e ∈ pass, e.InPass) {F : Frame}
    {fs : List Frame} (there : frames before = F :: fs) (limit : Int) :
    ∃ F' : Frame, frames (pass ++ before) = F' :: fs ∧ F'.handle = F.handle ∧ F'.held = F.held ∧
      lastChild limit (pass ++ before) = lastChild limit before := by
  induction pass with
  | nil => exact ⟨F, there, rfl, rfl, rfl⟩
  | cons e pass ih =>
    obtain ⟨F', frames', handle, held, last⟩ :=
      ih fun d mem => inPass d (List.mem_cons_of_mem _ mem)
    have replayed : frames (e :: (pass ++ before)) = e.replay (F' :: fs) := by rw [← frames']; rfl
    have here := inPass e (List.mem_cons_self ..)
    cases e with
    | released r v ending =>
      refine ⟨F'.call ⟨r, v, ending⟩, replayed, (handle_call ..).trans handle, ?_, last⟩
      rw [← held, Frame.call]
      split <;> rfl
    | logged => exact ⟨F', replayed, handle, held, last⟩
    | entered | left | refused | missing | folded | applied => exact here.elim

namespace Along

variable {limit : Int} {journal after before : List Entry} {fault : Fault} {F : Frame}
  {fs : List Frame}

theorem latest_of_lastChild (told : Along (Accounted limit) journal)
    (child : lastChild limit journal = some (.raised fault)) : latest limit journal ≠ none := by
  induction journal with
  | nil => cases child
  | cons e journal ih =>
    have rest := ih (told.suffix (List.suffix_cons ..))
    rw [latest_cons]
    cases e with
    | left k ending depth =>
      cases child
      obtain ⟨last, _⟩ := told.head
      rw [last]
      nofun
    | missing | refused => nofun
    | entered => cases child
    | released | folded | applied | logged =>
      intro none
      exact rest child (Option.or_eq_none_iff.mp none).2

theorem handled (told : Along (Accounted limit) journal) (ended : frames journal = [])
    (split : journal = after ++ before) (there : frames before = F :: fs)
    (child : lastChild limit before = some (.raised fault)) :
    ∃ later ending depth pass, after = later ++ .left F.handle ending depth :: pass ∧
      (∀ e ∈ pass, e.InPass) ∧
      ∃ F' out, frames (pass ++ before) = F' :: fs ∧ F'.held = F.held ∧
        Sweep F.held F'.handlerPass out := by
  obtain all | ⟨later, e, pass, rfl, inPass, outside⟩ := exists_outside after
  · obtain ⟨F', frames', _⟩ := frames_pass all there limit
    rw [split, frames'] at ended
    cases ended
  · obtain ⟨F', frames', handle, held, last⟩ := frames_pass inPass there limit
    rw [List.append_assoc, List.cons_append] at split
    have here := told later e (pass ++ before) split
    have faulted : lastChild limit (pass ++ before) = some (.raised fault) := last.trans child
    have up : latest limit (pass ++ before) ≠ none := by
      refine latest_of_lastChild (told.suffix ⟨later ++ [e], ?_⟩) faulted
      simp [split]
    cases e with
    | left k ending depth =>
      obtain ⟨_, F'', fs', frames'', rfl, _, swept⟩ := here
      cases frames'.symm.trans frames''
      obtain ⟨out, sweep⟩ := swept.faulted (.inl ⟨fault, faulted⟩)
      exact ⟨later, ending, depth, pass, by rw [handle], inPass, F', out, frames', held,
        held ▸ sweep⟩
    | entered | refused | missing | folded | applied => exact absurd here up
    | released | logged => exact absurd trivial outside

end Along

end Peg
