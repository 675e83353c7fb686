import Peg.Parsing
import Peg.Proofs.Run.Stages

namespace Peg

def Parse.Follows (m : Meaning) (trace : Bool) (g : Guard) (child : HandleId → Parse) : Prop :=
  ∀ h c s, s.guard = g → m.Ran trace (.call h) c s (child h c s).1 (child h c s).2

namespace Meaning

variable {m : Meaning} {trace : Bool} {g : Guard} {child : HandleId → Parse}

theorem ran_waiting (follows : Parse.Follows m trace g child) (h : HandleId) (held : Held)
    (c : Cursor) {s : Run} (guard : s.guard = g) :
    m.Ran trace (.waiting h held) c s (m.holding held (child h c) s).1
      (m.holding held (child h c) s).2 := by
  have call := follows h c s guard
  rcases called : child h c s with ⟨r | fault | message, s₁⟩
  · rw [called] at call
    rw [holding_unraised called nofun]
    exact .awaited call nofun
  · rw [called] at call
    rw [holding_raised called]
    exact .unwound call rfl
  · rw [called] at call
    rw [holding_unraised called nofun]
    exact .awaited call nofun

theorem ran_choiceFrom (follows : Parse.Follows m trace g child) (c : Cursor)
    (hs : List HandleId) (failed : Failure) {s : Run} (guard : s.guard = g) :
    m.Ran trace (.alternatives (some failed) hs) c s (Parse.choiceFrom child c failed hs s).1
      (Parse.choiceFrom child c failed hs s).2 := by
  induction hs generalizing failed s with
  | nil => exact .exhausted
  | cons h hs ih =>
    have call := follows h c s guard
    rw [Parse.choiceFrom, Proc.bind_eq]
    rcases called : child h c s with ⟨(⟨v, next⟩ | f) | fault | message, s₁⟩ <;>
      rw [called] at call
    · rw [Proc.andThen_done called]
      exact .settled call nofun
    · rw [Proc.andThen_done called]
      exact .passed call (ih _ (call.guard_eq.trans guard))
    · rw [Proc.andThen_raised called]
      exact .settled call nofun
    · rw [Proc.andThen_aborted called]
      exact .settled call nofun

theorem ran_choice (follows : Parse.Follows m trace g child) (first : HandleId)
    (others : List HandleId) (c : Cursor) {s : Run} (guard : s.guard = g) :
    m.Ran trace (.alternatives none (first :: others)) c s (Parse.choice child first others c s).1
      (Parse.choice child first others c s).2 := by
  have call := follows first c s guard
  rw [Parse.choice, Proc.bind_eq]
  rcases called : child first c s with ⟨(⟨v, next⟩ | f) | fault | message, s₁⟩ <;>
    rw [called] at call
  · rw [Proc.andThen_done called]
    exact .settled call nofun
  · rw [Proc.andThen_done called]
    exact .passed call (ran_choiceFrom follows c others f (call.guard_eq.trans guard))
  · rw [Proc.andThen_raised called]
    exact .settled call nofun
  · rw [Proc.andThen_aborted called]
    exact .settled call nofun

theorem ran_finish (trace : Bool) (fold : Fold) (held : Held) (c : Cursor) (s : Run) :
    m.Ran trace (.finish fold held) c s (m.finish fold held c s).1 (m.finish fold held c s).2 := by
  rw [finish, Proc.bind_eq]
  rcases worked : m.runFold fold (held.map (·.1)) s with ⟨v | fault | message, s₁⟩
  · rw [Proc.andThen_done worked]
    exact .folded worked
  · rw [Proc.andThen_raised worked]
    exact .folded worked
  · rw [Proc.andThen_aborted worked]
    exact .folded worked

theorem ran_sequenceFrom (follows : Parse.Follows m trace g child) (fold : Fold)
    (items : List (HandleId × Option Release)) (held : Held) (c : Cursor) {s : Run}
    (guard : s.guard = g) :
    m.Ran trace (.items fold items held) c s (m.sequenceFrom child fold items held c s).1
      (m.sequenceFrom child fold items held c s).2 := by
  induction items generalizing held c s with
  | nil => exact .itemsDone (ran_finish trace fold held c s)
  | cons item items ih =>
    obtain ⟨h, r⟩ := item
    have wait := ran_waiting follows h held c guard
    rw [sequenceFrom, Proc.bind_eq]
    rcases waited : m.holding held (child h c) s with ⟨(⟨v, next⟩ | f) | fault | message, s₁⟩ <;>
      rw [waited] at wait
    · rw [Proc.andThen_done waited]
      exact .itemDone wait (ih _ _ (wait.guard_eq.trans guard))
    · rw [Proc.andThen_done waited]
      exact .itemFailed wait (.gaveUp rfl)
    · rw [Proc.andThen_raised waited]
      exact .itemEnded wait nofun
    · rw [Proc.andThen_aborted waited]
      exact .itemEnded wait nofun

def TurnsLeft (most : Option Int) (held : Held) (c : Cursor) (left : Nat) : Prop :=
  match most with
  | some n => left = (n - held.length).toNat
  | none => c.input.size - c.pos < left

theorem turnsLeft_turns (most : Option Int) (c : Cursor) : TurnsLeft most [] c (turns most c) := by
  cases most with
  | none => exact Nat.lt_succ_self _
  | some n => simp [TurnsLeft, turns]

theorem full_of_turnsLeft_zero {most : Option Int} {held : Held} {c : Cursor}
    (left : TurnsLeft most held c 0) : Full most held.length := by
  cases most with
  | none => exact absurd left (Nat.not_lt_zero _)
  | some n =>
    simp only [TurnsLeft] at left
    exact ⟨n, rfl, by omega⟩

theorem not_full_of_turnsLeft_succ {most : Option Int} {held : Held} {c : Cursor} {n : Nat}
    (left : TurnsLeft most held c (n + 1)) : ¬ Full most held.length := by
  rintro ⟨bound, rfl, le⟩
  simp only [TurnsLeft] at left
  omega

theorem turnsLeft_next {most : Option Int} {held : Held} {c next : Cursor} {n : Nat} {v : Value}
    {release : Option Release} (left : TurnsLeft most held c (n + 1)) (reaches : c.Reaches next)
    (moved : ¬ Still most c next) : TurnsLeft most (held ++ [(v, release)]) next n := by
  cases most with
  | none =>
    have ne : next.pos ≠ c.pos := fun eq => moved ⟨rfl, eq⟩
    have le := next.pos_le
    have size : next.input.size = c.input.size := congrArg Array.size reaches.1
    have forward := reaches.2
    simp only [TurnsLeft] at left ⊢
    omega
  | some bound =>
    simp only [TurnsLeft, List.length_append, List.length_singleton] at left ⊢
    omega

theorem still_iff {most : Option Int} {c next : Cursor} :
    (!most.isSome && next.pos == c.pos) = true ↔ Still most c next := by
  cases most <;> simp [Still]

theorem ran_repeatFrom (follows : Parse.Follows m trace g child) (fold : Fold) (item : HandleId)
    (least : Int) (most : Option Int) (release : Option Release) (n : Nat) (held : Held)
    (c : Cursor) {s : Run} (left : TurnsLeft most held c n) (guard : s.guard = g) :
    m.Ran trace (.turns fold item least most release held) c s
      (m.repeatFrom (child item) fold least most.isSome release n held c s).1
      (m.repeatFrom (child item) fold least most.isSome release n held c s).2 := by
  induction n generalizing held c s with
  -- No turn is left only where the bound is reached: without a bound a turn is left even at the end
  -- of the input.
  | zero => exact .turnsFull (full_of_turnsLeft_zero left) (ran_finish trace fold held c s)
  | succ n ih =>
    have some_left := not_full_of_turnsLeft_succ left
    have wait := ran_waiting follows item held c guard
    rw [repeatFrom, Proc.bind_eq]
    rcases waited : m.holding held (child item c) s with ⟨(⟨v, next⟩ | f) | fault | message, s₁⟩ <;>
      rw [waited] at wait
    · rw [Proc.andThen_done waited]
      by_cases still : Still most c next
      · simp only [still_iff.mpr still, if_true]
        exact .turnStill some_left wait still (ran_finish trace fold _ next s₁)
      · simp only [mt still_iff.mp still]
        exact .turnMoved some_left wait still
          (ih _ _ (turnsLeft_next left wait.reaches still) (wait.guard_eq.trans guard))
    · rw [Proc.andThen_done waited]
      by_cases short : (held.length : Int) < least
      · simp only [if_pos short]
        exact .turnShort some_left wait short (.gaveUp rfl)
      · simp only [if_neg short]
        exact .turnFailed some_left wait (by omega) (ran_finish trace fold held c s₁)
    · rw [Proc.andThen_raised waited]
      exact .turnEnded some_left wait nofun
    · rw [Proc.andThen_aborted waited]
      exact .turnEnded some_left wait nofun

theorem ran_applied (follows : Parse.Follows m trace g child) (item : HandleId) (func : Func)
    (c : Cursor) {s : Run} (guard : s.guard = g) :
    m.Ran trace (.body (.apply item func)) c s (m.applied (child item) func c s).1
      (m.applied (child item) func c s).2 := by
  have call := follows item c s guard
  rw [applied, Proc.bind_eq]
  rcases called : child item c s with ⟨(⟨v, next⟩ | f) | fault | message, s₁⟩ <;>
    rw [called] at call
  · rw [Proc.andThen_done called]
    simp only [Proc.bind_eq]
    rcases worked : m.runApply func v s₁ with ⟨w | fault | message, s₂⟩
    · rw [Proc.andThen_done worked]
      exact .applied call worked
    · rw [Proc.andThen_raised worked]
      exact .applied call worked
    · rw [Proc.andThen_aborted worked]
      exact .applied call worked
  · rw [Proc.andThen_done called]
    exact .unapplied call nofun
  · rw [Proc.andThen_raised called]
    exact .unapplied call nofun
  · rw [Proc.andThen_aborted called]
    exact .unapplied call nofun

theorem ran_labelled (follows : Parse.Follows m trace g child) (item : HandleId) (label : String)
    (c : Cursor) {s : Run} (guard : s.guard = g) :
    m.Ran trace (.body (.expect item label)) c s (Parse.labelled (child item) label c s).1
      (Parse.labelled (child item) label c s).2 := by
  have expect : m.Ran trace (.body (.expect item label)) c s
      ((child item c s).1.map (Result.labelled label c)) (child item c s).2 :=
    .expect (follows item c s guard)
  rw [Parse.labelled, Proc.bind_eq]
  rcases called : child item c s with ⟨(⟨v, next⟩ | f) | fault | message, s₁⟩ <;>
    rw [called] at expect
  · rw [Proc.andThen_done called]
    exact expect
  · rw [Proc.andThen_done called]
    simp only [Ending.map, Result.labelled] at expect
    by_cases start : f.position = c.pos
    · simp only [if_pos start] at expect ⊢
      exact expect
    · simp only [if_neg start] at expect ⊢
      exact expect
  · rw [Proc.andThen_raised called]
    exact expect
  · rw [Proc.andThen_aborted called]
    exact expect

theorem ran_literal (trace : Bool) (text : String) (c : Cursor) (s : Run) :
    m.Ran trace (.body (.literal text)) c s (Parse.literal text c s).1
      (Parse.literal text c s).2 := by
  by_cases here : c.startsWith text
  · obtain ⟨next, advanced, input, pos⟩ := Cursor.advance_of_startsWith here
    have parsed : Parse.literal text c s = (.done (.success (.text text) next), s) := by
      simp only [Parse.literal, if_pos here, Proc.bind_eq, advanced]
      rfl
    rw [parsed]
    exact .leaf (.read (Input.holds_iff.mp here) input pos)
  · have parsed : Parse.literal text c s = (.done (.failure ⟨.singleton text, c.pos⟩), s) := by
      simp only [Parse.literal, if_neg here]
      rfl
    rw [parsed]
    exact .leaf (.unread (mt Input.holds_iff.mpr here))

theorem ran_eof (trace : Bool) (c : Cursor) (s : Run) :
    m.Ran trace (.body .eof) c s (Parse.eof c s).1 (Parse.eof c s).2 := by
  by_cases ended : c.pos = c.input.size
  · have parsed : Parse.eof c s = (.done (.success .null c), s) := by
      simp only [Parse.eof, Cursor.atEnd, ended, BEq.rfl, if_true]
      rfl
    rw [parsed]
    exact .leaf (.ended ended)
  · have parsed : Parse.eof c s = (.done (.failure ⟨.singleton "end of input", c.pos⟩), s) := by
      simp only [Parse.eof, Cursor.atEnd, beq_eq_false_iff_ne.mpr ended]
      rfl
    rw [parsed]
    exact .leaf (.unended ended)

theorem ran_node (follows : Parse.Follows m trace g child) (node : Node) (c : Cursor) {s : Run}
    (guard : s.guard = g) :
    m.Ran trace (.body node) c s (m.node child node c s).1 (m.node child node c s).2 := by
  cases node with
  | literal text => exact ran_literal trace text c s
  | pure v => exact .leaf .pure
  | fail message => exact .leaf .fail
  | eof => exact ran_eof trace c s
  | choice first others => exact .choice (ran_choice follows first others c guard)
  | sequence fold items => exact .sequence (ran_sequenceFrom follows fold items [] c guard)
  | repetition fold item least most release =>
    exact .repetition (ran_repeatFrom follows fold item least most release _ [] c
      (turnsLeft_turns most c) guard)
  | apply item func => exact ran_applied follows item func c guard
  | expect item label => exact ran_labelled follows item label c guard

theorem traced_eq (trace : Bool) (h : HandleId) (p : Parse) (node : Node) (c : Cursor) (s : Run)
    (g : Guard) :
    Parse.traced trace h p c ({ s with guard := g }.record (.entered h node c.pos g.depth)) =
      match p c (s.opened trace h node c g) with
      | (.done r, s') => (.done r, if trace then
          s'.record (.logged (match r with
            | .success _ next => .matched (s'.store.grammar.get h) c.pos next.pos
            | .failure f => .failed (s'.store.grammar.get h) f.position)) else s')
      | other => other := by
  cases trace with
  | false =>
    change p c (s.opened false h node c g) = _
    rcases p c (s.opened false h node c g) with ⟨_ | _ | _, _⟩ <;> rfl
  | true =>
    have set_out : Run.log (fun s => .trying (s.grammar.get h) c.pos)
        ({ s with guard := g }.record (.entered h node c.pos g.depth)) =
          (.done (), s.opened true h node c g) := rfl
    simp only [Parse.traced, if_true, Proc.bind_eq]
    rw [Proc.andThen_done set_out]
    rcases called : p c (s.opened true h node c g) with ⟨r | fault | message, s'⟩
    · rw [Proc.andThen_done called]
      cases r <;> rfl
    · rw [Proc.andThen_raised called]
    · rw [Proc.andThen_aborted called]

theorem guarded_ok {h : HandleId} {node : Node} {p : Parse} {c : Cursor} {s s' : Run} {g : Guard}
    {ending : Ending Result} (enter : s.guard.enter = .ok g)
    (ran : p c (s.opened trace h node c g) = (ending, s')) :
    Parse.guarded h node (Parse.traced trace h p) c s = (ending, s'.closed trace h c ending) := by
  simp only [Parse.guarded, enter, traced_eq, ran]
  cases trace <;> rcases ending with (_ | _) | _ | _ <;> rfl

theorem ran_visit {body : Node → Parse} (h : HandleId) (c : Cursor) (s : Run)
    (inside : ∀ g node, s.guard.enter = .ok g →
      m.Ran trace (.body node) c (s.opened trace h node c g)
        (body node c (s.opened trace h node c g)).1 (body node c (s.opened trace h node c g)).2) :
    m.Ran trace (.call h) c s (Parse.visit trace body h c s).1
      (Parse.visit trace body h c s).2 := by
  rcases status : (s.store.grammar.get h).status with _ | found | _
  · simp only [Parse.visit, status]
    exact .missing (by simp [Handle.fault?, status])
  · rcases enter : s.guard.enter with fault | g
    · simp only [Parse.visit, status, Parse.guarded, enter]
      exact .refused status enter
    · simp only [Parse.visit, status]
      rw [guarded_ok enter rfl]
      exact .entered status enter (inside g found.node enter)
  · simp only [Parse.visit, status]
    exact .missing (by simp [Handle.fault?, status])

/-- Where the guard has room for so many levels, calls at that level go through their stages. -/
theorem ran_callAt (levels : Nat) (h : HandleId) (c : Cursor) (s : Run)
    (room : s.guard.room = levels) :
    m.Ran trace (.call h) c s (m.callAt trace levels h c s).1 (m.callAt trace levels h c s).2 := by
  induction levels generalizing h c s with
  | zero =>
    refine ran_visit h c s fun g node enter => ?_
    have := Guard.room_of_enter enter
    omega
  | succ levels ih =>
    refine ran_visit h c s fun g node enter => ?_
    have room' := Guard.room_of_enter enter
    refine ran_node (g := g) ?_ node c (Run.guard_opened ..)
    intro k d t guard
    exact ih k d t (by rw [guard]; omega)

theorem ran_call (ctx : Context) (h : HandleId) (c : Cursor) (s : Store) :
    m.Ran ctx.config.trace (.call h) c ⟨s, ctx.guard, []⟩ (m.call ctx h c s).1
      (m.call ctx h c s).2 :=
  ran_callAt _ h c _ rfl

theorem parse_ending (m : Meaning) (h : HandleId) (text : String) (config : Config) (w : World) :
    (m.parse h text config w).1 =
      (m.call (.fresh config) h (.start (.ofString text)) w.store).1 := by
  simp only [parse, callAction, Proc.bind_eq, Proc.andThen, Action.read, Action.log, Action.note]
  rcases m.call (.fresh config) h (.start (.ofString text)) w.store with ⟨_ | _ | _, run⟩ <;> rfl

def shallow : Context := .fresh ⟨8, false, "", by decide⟩

def tight : Context := .fresh ⟨2, false, "", by decide⟩

end Meaning

end Peg
