import Peg.Proofs.Ledger.Books
import Peg.Proofs.Run.Calls

namespace Peg

open Value

def Held.Covered (ok : Release → Prop) (held : Held) : Prop := ∀ x ∈ held, Peg.Covered ok x.2

theorem Held.Covered.nil {ok : Release → Prop} : Held.Covered ok [] := by
  intro x mem
  cases mem

theorem Held.Covered.append {ok : Release → Prop} {held : Held} (covered : held.Covered ok)
    {v : Value} {release : Option Release} (last : Peg.Covered ok release) :
    Held.Covered ok (held ++ [(v, release)]) :=
  List.forall_mem_append.mpr ⟨covered, List.forall_mem_singleton.mpr last⟩

inductive Pass : Ending Unit → List ReleaseCall → Prop where
  | full {calls : List ReleaseCall} : (∀ x ∈ calls, x.ending = .done ()) → Pass (.done ()) calls
  | cut {calls : List ReleaseCall} {x : ReleaseCall} {fault : Fault} :
      (∀ y ∈ calls, y.ending = .done ()) → x.ending = .raised fault →
      Pass (.raised fault) (calls ++ [x])

theorem Pass.cons {ending : Ending Unit} {x : ReleaseCall} {calls : List ReleaseCall}
    (done : x.ending = .done ()) (pass : Pass ending calls) : Pass ending (x :: calls) := by
  cases pass with
  | full all =>
    refine .full fun y mem => ?_
    rcases List.mem_cons.mp mem with rfl | mem
    · exact done
    · exact all y mem
  | @cut before last fault all raised =>
    change Pass (.raised fault) ((x :: before) ++ [last])
    refine .cut (fun y mem => ?_) raised
    rcases List.mem_cons.mp mem with rfl | mem
    · exact done
    · exact all y mem

structure Run.Passed (s s' : Run) (vs : List Value) : Prop where
  grammar : s'.store.grammar = s.store.grammar
  boxes : s'.store.boxes = s.store.boxes
  settlements : s'.settlements = s.settlements
  passes : ∀ id, s'.passes id = s.passes id + count id vs

theorem Run.Passed.trans {s₁ s₂ s₃ : Run} {vs ws : List Value} (first : s₁.Passed s₂ vs)
    (second : s₂.Passed s₃ ws) : s₁.Passed s₃ (vs ++ ws) where
  grammar := second.grammar.trans first.grammar
  boxes := second.boxes.trans first.boxes
  settlements := second.settlements.trans first.settlements
  passes id := by rw [second.passes, first.passes, count_append, Nat.add_assoc]

theorem Run.Passed.books {ok : Release → Prop} {text : HandleId → Prop} {s s' : Run}
    {vs : List Value} (passed : s.Passed s' vs) (tracked : s.store.grammar.Tracked ok text)
    (held : List Value) {ending : Ending Result} (none : delivered ending = [])
    (unaborted : ∀ message, ending ≠ .aborted message) :
    s.Books ok text ending s' held held vs where
  heap := by
    rw [passed.grammar]
    exact tracked
  owned id := by
    rw [passed.settlements, none, Store.made, Store.made, passed.boxes]
    rfl
  passes id := by
    rw [passed.passes, passed.settlements]
    omega
  unaborted := unaborted
  exact _ exact := by
    rw [passed.settlements]
    exact exact

def Frame.Fresh (failing : Bool) (F : Frame) : Prop :=
  F.failing = failing ∧ F.failurePass = [] ∧ F.handlerPass = []

namespace Stage

def Wraps (text : HandleId → Prop) : Stage → Prop
  | .call h => text h
  | .body node => node.Wraps text
  | _ => False

def Tracked (ok : Release → Prop) (text : HandleId → Prop) : Stage → Prop
  | .call _ | .alternatives _ _ => True
  | .body node => node.Tracked ok text
  | .items fold left held =>
    fold.Tidy ok ∧ (∀ item ∈ left, Peg.Covered ok item.2) ∧ held.Covered ok
  | .turns fold _ _ _ release held => fold.Tidy ok ∧ Peg.Covered ok release ∧ held.Covered ok
  | .waiting _ held | .giveUp held _ => held.Covered ok
  | .finish fold _ => fold.Tidy ok

def Ready (F : Frame) : Stage → Prop
  | .body _ | .items _ _ _ | .turns _ _ _ _ _ _ | .waiting _ _ => F.Fresh false
  | .giveUp _ _ => F.Fresh true
  | _ => True

def held : Stage → Held
  | .items _ _ held | .turns _ _ _ _ _ held | .waiting _ held | .finish _ held
  | .giveUp held _ => held
  | _ => []

/-- The accounts of a stage. A call that was waiting and came to a result goes on. -/
def Balances (ok : Release → Prop) (text : HandleId → Prop) (s : Run) (ending : Ending Result)
    (s' : Run) : Stage → Prop
  | .call _ => ∀ fs, s.frames = fs → s.store.grammar.Tracked ok text →
    s'.frames = receive ending fs ∧ s.Books ok text ending s' [] [] []
  | .waiting h held => ∀ F fs, s.frames = F :: fs → s.store.grammar.Tracked ok text →
    Stage.Fits F (.waiting h held) → F.Fresh false → held.Covered ok →
    match ending with
    | .done r => s'.frames = F.receive r :: fs ∧ s.Books ok text ending s' [] [] []
    | _ => s.Posts ok text ending s' held fs
  | stage => ∀ F fs, s.frames = F :: fs → s.store.grammar.Tracked ok text →
    stage.Fits F → stage.Ready F → stage.Tracked ok text →
    s.Posts ok text ending s' stage.held fs

end Stage

namespace Meaning

variable {compute : Standard.Calculation} {nested : HandleId → String → Action Result}
  {ok : Release → Prop} {text : HandleId → Prop} {trace : Bool}

theorem run_callback {α : Type} {p : Action α} {entry : Ending α → List Event → Int → Entry}
    {s s' : Run} {ending : Ending α} (h : Run.callback entry p.callback s = (ending, s')) :
    ∃ w, p ⟨s.store, []⟩ = (ending, w) ∧
      s' = Run.record { s with store := w.store }
        (entry ending w.events.reverse s.guard.depth) := by
  simp only [Run.callback, Action.callback] at h
  rcases ran : p ⟨s.store, []⟩ with ⟨out, w⟩
  rw [ran] at h
  cases h
  exact ⟨w, rfl, rfl⟩

theorem runRelease_passed {r : Release} {v : Value} {s s' : Run} {ending : Ending Unit}
    {F : Frame} {fs : List Frame} (ordinary : r.Ordinary) (frames : s.frames = F :: fs)
    (h : (withNested compute nested).runRelease r v s = (ending, s')) :
    s.Passed s' [v] ∧ s'.frames = F.call ⟨r, v, ending⟩ :: fs ∧
      (∀ message, ending ≠ .aborted message) ∧ (r.Quiet → ending = .done ()) := by
  obtain ⟨w, worked, rfl⟩ := run_callback h
  obtain ⟨⟨⟨calls, store⟩, passed⟩, unaborted, quiet⟩ := release_passes ordinary worked
  refine ⟨⟨?_, ?_, rfl, fun id => ?_⟩, ?_, unaborted, quiet⟩
  · rw [Run.store_record, store]
  · rw [Run.store_record, store]
  · rw [passes_record, Entry.events, passed_reverse, passed]
    rfl
  · have same : Run.frames { s with store := w.store } = F :: fs := frames
    rw [frames_record, same]
    rfl

theorem releaseAll_passed {held : Held} {s s' : Run} {ending : Ending Unit} {F : Frame}
    {fs : List Frame} (ordinary : ∀ r, ok r → r.Ordinary) (covered : held.Covered ok)
    (frames : s.frames = F :: fs)
    (h : (withNested compute nested).releaseAll held s = (ending, s')) :
    ∃ calls, Pass ending calls ∧ calls.length ≤ held.length ∧
      (ending = .done () → calls.length = held.length) ∧
      s.Passed s' ((held.map (·.1)).take calls.length) ∧
      s'.frames = calls.foldl Frame.call F :: fs ∧
      ((∀ r, ok r → r.Quiet) → ending = .done ()) := by
  induction held generalizing s F with
  | nil =>
    cases h
    exact ⟨[], .full (by simp), Nat.le_refl _, fun _ => rfl, ⟨rfl, rfl, rfl, fun _ => rfl⟩, frames,
      fun _ => rfl⟩
  | cons item held ih =>
    obtain ⟨v, release⟩ := item
    obtain ⟨r, rfl, allowed⟩ : Peg.Covered ok release := covered _ (List.mem_cons_self ..)
    have rest_covered : Held.Covered ok held := fun x mem => covered x (List.mem_cons_of_mem _ mem)
    obtain ⟨s₁, first, rest⟩ | ⟨first, stopped⟩ := releaseAll_cons_some h
    · obtain ⟨passed, frames₁, _⟩ := runRelease_passed (ordinary r allowed) frames first
      obtain ⟨calls, pass, le, full, passed', frames', quiet⟩ := ih rest_covered frames₁ rest
      refine ⟨⟨r, v, .done ()⟩ :: calls, pass.cons rfl, Nat.succ_le_succ le, fun done => ?_,
        passed.trans passed', frames', quiet⟩
      exact congrArg (· + 1) (full done)
    · obtain ⟨passed, frames', unaborted, quiet⟩ :=
        runRelease_passed (ordinary r allowed) frames first
      rcases ending with _ | fault | message
      · exact absurd rfl stopped
      · have cut : Pass (.raised fault) ([] ++ [⟨r, v, .raised fault⟩]) := .cut (by simp) rfl
        refine ⟨_, cut, Nat.succ_le_succ (Nat.zero_le _), fun done => ?_, passed, frames',
          fun silent => ?_⟩
        · cases done
        · exact quiet (silent r allowed)
      · exact absurd rfl (unaborted message)

theorem unwind_passed {held : Held} {fault : Fault} {s s' : Run} {ending : Ending Result}
    {F : Frame} {fs : List Frame} (ordinary : ∀ r, ok r → r.Ordinary) (covered : held.Covered ok)
    (frames : s.frames = F :: fs) (handling : F.failing = false)
    (h : (withNested compute nested).unwind held fault s = (ending, s')) :
    (∃ other, ending = .raised other) ∧
    ∃ calls : List ReleaseCall, s.Passed s' ((held.map (·.1)).take calls.length) ∧
      s'.frames = { F with handlerPass := F.handlerPass ++ calls } :: fs ∧
      ((∀ r, ok r → r.Quiet) → calls.length = held.length) := by
  rcases released : (withNested compute nested).releaseAll held s with ⟨out, s₁⟩
  obtain ⟨calls, pass, _, full, passed, frames', quiet⟩ :=
    releaseAll_passed ordinary covered frames released
  rw [foldl_call_handling handling] at frames'
  obtain ⟨same, rfl⟩ | ⟨other, same, rfl⟩ | ⟨message, same, rfl⟩ := unwind_cases h
  · cases released.symm.trans same
    exact ⟨⟨fault, rfl⟩, calls, passed, frames', fun silent => full (quiet silent)⟩
  · cases released.symm.trans same
    exact ⟨⟨other, rfl⟩, calls, passed, frames', fun silent => full (quiet silent)⟩
  · cases released.symm.trans same
    cases pass

theorem unwind_posts {held : Held} {fault : Fault} {s s' : Run} {ending : Ending Result}
    {F : Frame} {fs : List Frame} (ordinary : ∀ r, ok r → r.Ordinary) (covered : held.Covered ok)
    (tracked : s.store.grammar.Tracked ok text) (frames : s.frames = F :: fs)
    (holds : F.held = held) (fresh : F.Fresh false)
    (h : (withNested compute nested).unwind held fault s = (ending, s')) :
    s.Posts ok text ending s' held fs := by
  obtain ⟨⟨other, rfl⟩, calls, passed, frames', full⟩ :=
    unwind_passed ordinary covered frames fresh.1 h
  have settlement : Frame.settlement { F with handlerPass := F.handlerPass ++ calls } =
      ⟨held.map (·.1), 0, calls.length⟩ := by
    simp [Frame.settlement, holds, fresh.2.1, fresh.2.2]
  refine ⟨_, frames', ?_, fun silent => ?_⟩
  · rw [settlement]
    exact passed.books tracked _ rfl (raised_unaborted other)
  · rw [settlement]
    exact Settlement.exact_second (Nat.le_of_eq (by rw [List.length_map, full silent]))

theorem giveUp_posts {held : Held} {f : Failure} {s s' : Run} {ending : Ending Result}
    {F : Frame} {fs : List Frame} (ordinary : ∀ r, ok r → r.Ordinary) (covered : held.Covered ok)
    (tracked : s.store.grammar.Tracked ok text) (frames : s.frames = F :: fs)
    (holds : F.held = held) (fresh : F.Fresh true)
    (h : (withNested compute nested).giveUp held f s = (ending, s')) :
    s.Posts ok text ending s' held fs := by
  rcases released : (withNested compute nested).releaseAll held s with ⟨out, s₁⟩
  obtain ⟨calls, pass, _, full, passed, frames₁, quiet⟩ :=
    releaseAll_passed ordinary covered frames released
  obtain ⟨same, rfl⟩ | ⟨fault, s₂, same, again⟩ | ⟨message, same, rfl⟩ := giveUp_cases h
  · cases released.symm.trans same
    cases pass with
    | full done =>
      rw [foldl_call_failing fresh.1 done] at frames₁
      have settlement : Frame.settlement { F with failurePass := F.failurePass ++ calls } =
          ⟨held.map (·.1), calls.length, 0⟩ := by
        simp [Frame.settlement, holds, fresh.2.1, fresh.2.2]
      refine ⟨_, frames₁, ?_, fun silent => ?_⟩
      · rw [settlement, Settlement.calls, List.take_zero, List.append_nil]
        exact passed.books tracked _ rfl (done_unaborted (Result.failure f))
      · rw [settlement]
        exact Settlement.exact_first (Nat.le_of_eq (by rw [List.length_map, full rfl]))
  · cases released.symm.trans same
    cases pass with
    -- The pass stopped at `x`, and the handler begins another one at the first value.
    | @cut before x _ done raised =>
      rw [foldl_call_stopped fresh.1 done (by simp [raised])] at frames₁
      obtain ⟨⟨other, rfl⟩, calls, passed', frames', _⟩ :=
        unwind_passed ordinary covered frames₁ rfl again
      have settlement : Frame.settlement { F with
          failurePass := F.failurePass ++ (before ++ [x]), failing := false,
          handlerPass := F.handlerPass ++ calls } =
          ⟨held.map (·.1), (before ++ [x]).length, calls.length⟩ := by
        simp [Frame.settlement, holds, fresh.2.1, fresh.2.2]
      refine ⟨_, frames', ?_, fun silent => ?_⟩
      · rw [settlement]
        exact (passed.trans passed').books tracked _ rfl (raised_unaborted other)
      · cases quiet silent
  · cases released.symm.trans same
    cases pass

theorem finish_posts {fold : Fold} {held : Held} {c : Cursor} {s s' : Run} {ending : Ending Value}
    {F : Frame} {fs : List Frame} (ordinary : ∀ r, ok r → r.Ordinary) (tidy : fold.Tidy ok)
    (tracked : s.store.grammar.Tracked ok text) (frames : s.frames = F :: fs)
    (h : (withNested compute nested).runFold fold (held.map (·.1)) s = (ending, s')) :
    s.Posts ok text (ending.map (.success · c)) s' held fs := by
  obtain ⟨w, worked, rfl⟩ := run_callback h
  obtain ⟨⟨n, folds⟩, quiet⟩ := fold_folds tidy ordinary worked
  have passed : Peg.passed w.events.reverse = (fold.disposes (held.map (·.1))).take n := by
    rw [passed_reverse, folds.passed]
    simp
  have far : (Peg.passed w.events.reverse).length = n := by
    rw [passed, List.length_take, Nat.min_eq_left folds.le]
  have shares := fold.count_shares (held.map (·.1))
  have same : Run.frames { s with store := w.store } = F :: fs := frames
  refine Run.Posts.of_empty (F := F.hand) ?_ rfl ?_
  · rw [frames_record, same]
    rfl
  obtain ⟨v, rfl, all, made⟩ | ⟨⟨fault, rfl⟩, boxes⟩ := folds.out
  · refine .of_settling (x := ⟨fold.disposes (held.map (·.1)), n, 0⟩) (by rwa [folds.grammar])
      (by rw [← far]; rfl) (fun id => ?_) (fun id => ?_) (done_unaborted _) fun _ => ?_
    · have made : w.store.made id + _ = s.store.made id + _ := made id
      have shares := shares id
      change _ = _ + count id (fold.disposes (held.map (·.1))) + count id [v]
      omega
    · rw [Entry.events, passed, Settlement.calls, List.take_zero, List.append_nil]
    · exact Settlement.exact_first (Nat.le_of_eq all.symm)
  · refine .of_settling
      (x := ⟨fold.disposes (held.map (·.1)) ++ fold.keeps (held.map (·.1)), n, 0⟩)
      (by rwa [folds.grammar]) (by rw [← far]; rfl) (fun id => ?_) (fun id => ?_)
      (raised_unaborted fault) fun silent => ?_
    · rw [Store.made, Store.made, boxes, count_append, shares id]
      rfl
    · rw [Entry.events, passed, Settlement.calls, List.take_zero, List.append_nil,
        List.take_append_of_le_length folds.le]
    · obtain ⟨v, done⟩ := quiet silent
      cases done

theorem apply_books {item : HandleId} {func : Func} {v : Value} {t : String} {c : Cursor}
    {s s' : Run} {ending : Ending Value} (node : (Node.apply item func).Tracked ok text)
    (tracked : s.store.grammar.Tracked ok text) (value : v = .text t)
    (h : (withNested compute nested).runApply func v s = (ending, s')) :
    s'.frames = s.frames ∧ s.Books ok text (ending.map (.success · c)) s' [v] [] [] := by
  subst value
  obtain ⟨w, worked, rfl⟩ := run_callback h
  have applies : World.Applies ok text ⟨s.store, []⟩ ending w := by
    cases func with
    | box => exact box_applies nested worked
    | acts list => exact acts_applies node.2 worked
    | number | length | operator | notCallable => exact node.elim
  refine ⟨rfl, applies.heap tracked, fun id => ?_, fun id => ?_, fun message aborted => ?_,
    fun _ exact => exact⟩
  · have made : w.store.made id = s.store.made id + count id ending.toList := applies.made id
    rw [delivered_map]
    change w.store.made id + settled id s.settlements + 0 =
      s.store.made id + settled id s.settlements + 0 + _
    omega
  · rw [passes_record, Entry.events, passed_reverse, applies.passed]
    rfl
  · rcases ending with _ | _ | message'
    · cases aborted
    · cases aborted
    · exact applies.unaborted message' rfl

theorem Ran.yields_text {stage : Stage} {c next : Cursor} {s s' : Run} {v : Value}
    (ran : (withNested compute nested).Ran trace stage c s (.done (.success v next)) s')
    (tracked : s.store.grammar.Tracked ok text) (wraps : stage.Wraps text) : ∃ t, v = .text t := by
  generalize eq : Ending.done (Result.success v next) = ending at ran
  induction ran generalizing v next with
  | missing | refused => cases eq
  | @entered h c s body _ _ _ status _ _ ih =>
    refine ih ?_ (tracked.wraps h wraps body status) eq
    rw [Run.store_opened]
    exact tracked
  | leaf leaf =>
    cases leaf with
    | read =>
      cases eq
      exact ⟨_, rfl⟩
    | unread => cases eq
    | pure | fail | ended | unended => exact wraps.elim
  | @applied item func c s u next' s₁ ending' s' _ work ih =>
    cases func with
    | acts list =>
      obtain ⟨t, rfl⟩ := ih tracked wraps.1 rfl
      obtain ⟨w, worked, rfl⟩ := run_callback work
      rcases ending' with u' | _ | _ <;> cases eq
      exact ⟨t, acts_yields _ wraps.2 _ _ _ worked⟩
    | box | number | length | operator | notCallable => exact wraps.elim
  | @unapplied item func c s ending' s' _ unsuccessful => exact absurd eq.symm (unsuccessful v next)
  | choice | exhausted | settled | passed | awaited | unwound | folded | gaveUp => exact wraps.elim
  | sequence | itemsDone | itemDone | itemFailed | itemEnded | repetition => exact wraps.elim
  | turnsFull | turnMoved | turnStill | turnFailed | turnShort | turnEnded => exact wraps.elim
  | expect => exact wraps.elim

theorem Ran.balances {stage : Stage} {c : Cursor} {s s' : Run} {ending : Ending Result}
    (ordinary : ∀ r, ok r → r.Ordinary)
    (ran : (withNested compute nested).Ran trace stage c s ending s') :
    stage.Balances ok text s ending s' := by
  induction ran with
  | missing | refused =>
    intro fs frames tracked
    exact ⟨by rw [receive_raised, ← frames]; rfl, .of_entry tracked rfl rfl⟩
  | @entered h c s body g ending s' status _ _ ih =>
    intro fs frames tracked
    have opened : (s.opened trace h body.node c g).frames =
        { handle := h, node := body.node } :: fs := by rw [frames_opened, frames]
    have heap : (s.opened trace h body.node c g).store.grammar.Tracked ok text := by
      rw [Run.store_opened]
      exact tracked
    exact Run.Posts.closed
      (ih _ fs opened heap ⟨rfl, rfl⟩ ⟨rfl, rfl, rfl⟩ (tracked.node h body status))
  | @leaf node c s r leaf =>
    intro F fs frames tracked fits _ allowed
    refine .of_empty frames fits.2 (.refl tracked (fun id => ?_) (done_unaborted r))
    cases leaf with
    | @pure v =>
      change 0 = 0 + count id [v]
      rw [count_of_shape allowed id]
    | read | unread | fail | ended | unended => rfl
  | choice _ ih =>
    intro F fs frames tracked fits _ _
    exact ih F fs frames tracked ⟨⟨_, _, fits.1⟩, fits.2⟩ trivial trivial
  | exhausted =>
    intro F fs frames tracked fits _ _
    exact .of_empty frames fits.2 (.refl tracked (fun _ => rfl) (done_unaborted _))
  | @settled failed h hs c s ending s' _ _ ih =>
    intro F fs frames tracked fits _ _
    obtain ⟨⟨first, others, node⟩, empty⟩ := fits
    obtain ⟨frames', books⟩ := ih (F :: fs) frames tracked
    exact .of_inside empty (fun v => by rw [node]; rfl) frames' books
  | @passed failed h hs c s f s₁ ending s' _ _ ih ih' =>
    intro F fs frames tracked fits _ _
    obtain ⟨frames', books⟩ := ih (F :: fs) frames tracked
    have rest := ih' (F.receive (.failure f)) fs frames' books.heap fits trivial trivial
    exact .next books rest rfl
  | @awaited h held c s ending s' _ unraised ih =>
    intro F fs frames tracked _ _ _
    obtain ⟨frames', books⟩ := ih (F :: fs) frames tracked
    rcases ending with r | fault | message
    · exact ⟨frames', books⟩
    · exact absurd rfl (unraised fault)
    · exact absurd rfl (books.unaborted message)
  | @unwound h held c s fault s₁ ending s' _ pass ih =>
    intro F fs frames tracked fits fresh covered
    obtain ⟨frames', books⟩ := ih (F :: fs) frames tracked
    -- The fault of the child and any fault of the pass over what is held deliver nothing.
    have posts := unwind_posts ordinary covered books.heap frames' fits fresh pass
    have whole := Run.Posts.next books posts (List.append_nil _).symm
    obtain ⟨_, rfl⟩ | ⟨_, _, rfl⟩ | ⟨_, _, rfl⟩ := unwind_cases pass <;> exact whole
  | folded work =>
    intro F fs frames tracked _ _ tidy
    exact finish_posts ordinary tidy tracked frames work
  | gaveUp pass =>
    intro F fs frames tracked fits fresh covered
    exact giveUp_posts ordinary covered tracked frames fits fresh pass
  | sequence _ ih =>
    intro F fs frames tracked fits fresh allowed
    exact ih F fs frames tracked ⟨⟨[], fits.1, rfl⟩, fits.2⟩ fresh
      ⟨allowed.1, allowed.2, Held.Covered.nil⟩
  | itemsDone _ ih =>
    intro F fs frames tracked fits _ allowed
    exact ih F fs frames tracked fits.2 trivial allowed.1
  | @itemDone fold h r items held c s v next s₁ ending s' _ _ ih ih' =>
    intro F fs frames tracked fits fresh allowed
    obtain ⟨tidy, left, covered⟩ := allowed
    obtain ⟨frames', books⟩ := ih F fs frames tracked fits.2 fresh covered
    have rest := ih' (F.receive (.success v next)) fs frames' books.heap
      (Stage.fits_items_next fits v next) fresh
      ⟨tidy, fun item mem => left item (List.mem_cons_of_mem _ mem),
        covered.append (left _ (List.mem_cons_self ..))⟩
    exact .next books rest List.map_append
  | @itemFailed fold h r items held c s f s₁ ending s' _ _ ih ih' =>
    intro F fs frames tracked fits fresh allowed
    obtain ⟨_, _, covered⟩ := allowed
    obtain ⟨frames', books⟩ := ih F fs frames tracked fits.2 fresh covered
    have rest := ih' (F.receive (.failure f)) fs frames' books.heap fits.2 ⟨rfl, fresh.2⟩ covered
    exact .next books rest (List.append_nil _).symm
  | @itemEnded fold h r items held c s ending s' _ early ih =>
    intro F fs frames tracked fits fresh allowed
    obtain ⟨_, _, covered⟩ := allowed
    have posts := ih F fs frames tracked fits.2 fresh covered
    rcases ending with r | _ | _
    · exact absurd rfl (early r)
    · exact posts
    · exact posts
  | repetition _ ih =>
    intro F fs frames tracked fits fresh allowed
    exact ih F fs frames tracked fits fresh ⟨allowed.1, allowed.2, Held.Covered.nil⟩
  | turnsFull _ _ ih =>
    intro F fs frames tracked fits _ allowed
    exact ih F fs frames tracked fits.2 trivial allowed.1
  | @turnMoved fold item least most release held c s v next s₁ ending s' _ _ _ _ ih ih' =>
    intro F fs frames tracked fits fresh allowed
    obtain ⟨tidy, released, covered⟩ := allowed
    obtain ⟨frames', books⟩ := ih F fs frames tracked fits.2 fresh covered
    have rest := ih' (F.receive (.success v next)) fs frames' books.heap
      (Stage.fits_turns_next fits v next) fresh ⟨tidy, released, covered.append released⟩
    exact .next books rest List.map_append
  | @turnStill fold item least most release held c s v next s₁ ending s' _ _ _ _ ih ih' =>
    intro F fs frames tracked fits fresh allowed
    obtain ⟨tidy, _, covered⟩ := allowed
    obtain ⟨frames', books⟩ := ih F fs frames tracked fits.2 fresh covered
    have rest := ih' (F.receive (.success v next)) fs frames' books.heap
      (Stage.fits_turns_next fits v next).2 trivial tidy
    exact .next books rest List.map_append
  | @turnFailed fold item least most release held c s f s₁ ending s' _ _ _ _ ih ih' =>
    intro F fs frames tracked fits fresh allowed
    obtain ⟨tidy, _, covered⟩ := allowed
    obtain ⟨frames', books⟩ := ih F fs frames tracked fits.2 fresh covered
    have rest := ih' (F.receive (.failure f)) fs frames' books.heap fits.2 trivial tidy
    exact .next books rest (List.append_nil _).symm
  | @turnShort fold item least most release held c s f s₁ ending s' _ _ _ _ ih ih' =>
    intro F fs frames tracked fits fresh allowed
    obtain ⟨_, _, covered⟩ := allowed
    obtain ⟨frames', books⟩ := ih F fs frames tracked fits.2 fresh covered
    have rest := ih' (F.receive (.failure f)) fs frames' books.heap fits.2 ⟨rfl, fresh.2⟩ covered
    exact .next books rest (List.append_nil _).symm
  | @turnEnded fold item least most release held c s ending s' _ _ early ih =>
    intro F fs frames tracked fits fresh allowed
    obtain ⟨_, _, covered⟩ := allowed
    have posts := ih F fs frames tracked fits.2 fresh covered
    rcases ending with r | _ | _
    · exact absurd rfl (early r)
    · exact posts
    · exact posts
  | @applied item func c s v next s₁ ending s' ran work ih =>
    intro F fs frames tracked fits _ allowed
    obtain ⟨node, empty⟩ := fits
    obtain ⟨frames', books⟩ := ih (F :: fs) frames tracked
    -- A function is called with a text: no box is lost with what it was called with.
    have wraps : text item := by
      cases func with
      | box => exact allowed
      | acts list => exact allowed.1
      | number | length | operator | notCallable => exact allowed.elim
    obtain ⟨t, value⟩ := ran.yields_text tracked wraps
    obtain ⟨frames'', books'⟩ := apply_books allowed books.heap value work
    exact .of_inside empty (fun v => by rw [node]; rfl) (frames''.trans frames')
      (books.next books')
  | @unapplied item func c s ending s' _ _ ih =>
    intro F fs frames tracked fits _ _
    obtain ⟨node, empty⟩ := fits
    obtain ⟨frames', books⟩ := ih (F :: fs) frames tracked
    exact .of_inside empty (fun v => by rw [node]; rfl) frames' books
  | @expect item label c s ending s' _ ih =>
    intro F fs frames tracked fits _ _
    obtain ⟨node, empty⟩ := fits
    obtain ⟨frames', books⟩ := ih (F :: fs) frames tracked
    refine .of_inside empty (fun v => by rw [node]; rfl) frames'
      (books.relabel (delivered_labelled ending label c) fun message aborted => ?_)
    rcases ending with _ | _ | message'
    · cases aborted
    · cases aborted
    · exact books.unaborted message' rfl

end Meaning

end Peg
