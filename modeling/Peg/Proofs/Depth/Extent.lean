import Mathlib.Algebra.Ring.GeomSum
import Mathlib.Data.List.MinMax
import Peg.Proofs.Run.Edits

/-!
The extent of a run. A node calls only so many handles, one after another, and the guard lets them
nest only so deeply; so a run ends, on whatever graph, after so many calls at most. Cycles are cut
off by the guard, and an unbounded repetition goes on only as long as its cursor moves.
-/

namespace Peg

/-- How many handles a node calls at most, `left` characters being left of the input. -/
def Node.breadth (left : Nat) : Node → Nat
  | .literal _ | .pure _ | .fail _ | .eof => 0
  | .choice _ others => others.length + 1
  | .sequence _ items => items.length
  | .repetition _ _ _ most _ => most.elim (left + 1) Int.toNat
  | .apply _ _ | .expect _ _ => 1

def Handle.breadth (left : Nat) (handle : Handle) : Nat :=
  handle.body?.elim 0 (·.node.breadth left)

def Grammar.breadth (g : Grammar) (left : Nat) : Nat :=
  (g.handles.toList.map (Handle.breadth left)).foldr max 1

def Grammar.Narrow (g : Grammar) (breadth left : Nat) : Prop :=
  ∀ h body, (g.get h).status = .defined body → body.node.breadth left ≤ breadth

theorem Grammar.narrow_breadth (g : Grammar) (left : Nat) : g.Narrow (g.breadth left) left := by
  intro h body status
  obtain lt | ge := Nat.lt_or_ge h g.handles.size
  · have at_h : g.get h = g.handles[h] := by simp [get, lt]
    have mem : (g.get h).breadth left ∈ g.handles.toList.map (Handle.breadth left) := by
      rw [at_h]
      exact List.mem_map_of_mem (Array.getElem_mem_toList lt)
    have breadth : (g.get h).breadth left = body.node.breadth left := by
      simp [Handle.breadth, Handle.body?, status]
    exact List.le_max_of_le' 1 mem breadth.ge
  · rw [get_of_size_le ge] at status
    cases status

theorem Grammar.Narrow.edited {g g' : Grammar} {breadth left : Nat} (narrow : g.Narrow breadth left)
    (edited : g.Edited g') : g'.Narrow breadth left := by
  intro h body status
  obtain ⟨k, there⟩ := edited.exists_defined status
  exact narrow k body there

theorem Node.breadth_mono {left left' : Nat} (le : left ≤ left') (node : Node) :
    node.breadth left ≤ node.breadth left' := by
  cases node with
  | repetition fold item least most release =>
    cases most with
    | none => exact Nat.succ_le_succ le
    | some n => exact Nat.le_refl _
  | _ => exact Nat.le_refl _

def Entry.isCall : Entry → Bool
  | .entered _ _ _ _ | .refused _ _ _ | .missing _ _ _ => true
  | _ => false

def Run.calls (s : Run) : Nat := s.journal.countP Entry.isCall

namespace Run

theorem calls_record (s : Run) (e : Entry) :
    (s.record e).calls = s.calls + if e.isCall then 1 else 0 := List.countP_cons

theorem calls_opened (s : Run) (trace : Bool) (h : HandleId) (node : Node) (c : Cursor)
    (g : Guard) : (s.opened trace h node c g).calls = s.calls + 1 := by
  have entered := calls_record { s with guard := g } (.entered h node c.pos g.depth)
  cases trace with
  | false => exact entered
  | true => exact (calls_record _ _).trans entered

theorem calls_closed (s : Run) (trace : Bool) (h : HandleId) (c : Cursor)
    (ending : Ending Result) : (s.closed trace h c ending).calls = s.calls := by
  obtain ⟨s', before, closed⟩ := s.closed_cases trace h c ending
  rw [closed, calls_record]
  obtain rfl | ⟨record, rfl⟩ := before
  · rfl
  · exact calls_record s (.logged record)

end Run

def Stage.breadth (c : Cursor) : Stage → Nat
  | .call _ | .waiting _ _ => 1
  | .body node => node.breadth (c.input.size - c.pos)
  | .alternatives _ left => left.length
  | .items _ left _ => left.length
  | .turns _ _ _ most _ held =>
    most.elim (c.input.size - c.pos + 1) fun n => (n - held.length).toNat
  | .finish _ _ | .giveUp _ _ => 0

namespace Stage

variable {fold : Fold} {item : HandleId} {least : Int} {most : Option Int}
  {release : Option Release} {held : Held} {c next : Cursor} {v : Value}

theorem breadth_repetition :
    breadth c (.body (.repetition fold item least most release)) =
      breadth c (.turns fold item least most release []) := by
  cases most with
  | none => rfl
  | some n => simp [breadth, Node.breadth]

theorem breadth_turns_pos (more : ¬ Full most held.length) :
    1 ≤ breadth c (.turns fold item least most release held) := by
  cases most with
  | none => exact Nat.succ_pos _
  | some n =>
    have lt : (held.length : Int) < n := by
      by_contra le
      exact more ⟨n, rfl, by omega⟩
    simp only [breadth, Option.elim]
    omega

theorem breadth_turns_next (more : ¬ Full most held.length) (reaches : c.Reaches next)
    (moved : ¬ Still most c next) :
    breadth next (.turns fold item least most release (held ++ [(v, release)])) + 1 ≤
      breadth c (.turns fold item least most release held) := by
  cases most with
  | none =>
    have ne : next.pos ≠ c.pos := fun eq => moved ⟨rfl, eq⟩
    have le := next.pos_le
    have size : next.input.size = c.input.size := congrArg Array.size reaches.1
    have forward := reaches.2
    simp only [breadth, Option.elim]
    omega
  | some n =>
    have lt : (held.length : Int) < n := by
      by_contra le
      exact more ⟨n, rfl, by omega⟩
    simp only [breadth, Option.elim, List.length_append, List.length_singleton]
    omega

end Stage

namespace Meaning

variable {m : Meaning} {trace : Bool}

theorem passes_calls (m : Meaning) : m.Passes fun s _ s' => s'.calls = s.calls where
  done _ := rfl
  next first second := second.trans first
  resumed first second := second.trans first
  replaced first second _ := second.trans first
  release h := by
    cases h
    rfl

section

open Finset

theorem one_add_le_sum {breadth width : Nat} (le : width ≤ breadth) (room : Nat) :
    1 + width * ∑ i ∈ range (room + 1), breadth ^ i ≤ ∑ i ∈ range (room + 1 + 1), breadth ^ i := by
  rw [geom_sum_succ (n := room + 1), Nat.add_comm]
  exact Nat.add_le_add_right (Nat.mul_le_mul_right _ le) 1

theorem Ran.calls_next {breadth left : Nat} (edits : m.Edits) {stage : Stage} {c : Cursor}
    {s s₁ s' : Run} {ending : Ending Result} (ran : m.Ran trace stage c s ending s₁)
    (narrow : s.store.grammar.Narrow breadth left)
    (first : s₁.calls ≤ s.calls + 1 * ∑ i ∈ range (s.guard.room + 1), breadth ^ i)
    {width width' : Nat} (rest : s₁.store.grammar.Narrow breadth left →
      s'.calls ≤ s₁.calls + width' * ∑ i ∈ range (s₁.guard.room + 1), breadth ^ i)
    (le : width' + 1 ≤ width) :
    s'.calls ≤ s.calls + width * ∑ i ∈ range (s.guard.room + 1), breadth ^ i := by
  have second := rest (narrow.edited ((steps_edits edits).ran ran))
  rw [ran.guard_eq] at second
  have both := Nat.mul_le_mul_right (∑ i ∈ range (s.guard.room + 1), breadth ^ i) le
  rw [Nat.succ_mul] at both
  omega

/-- A stage calls so many handles as it can, and each of them calls as many in turn as the guard has
room for. -/
theorem Ran.calls_le {breadth left : Nat} (edits : m.Edits) {stage : Stage} {c : Cursor}
    {s s' : Run} {ending : Ending Result} (ran : m.Ran trace stage c s ending s')
    (narrow : s.store.grammar.Narrow breadth left) (near : c.input.size - c.pos ≤ left) :
    s'.calls ≤ s.calls + stage.breadth c * ∑ i ∈ range (s.guard.room + 1), breadth ^ i := by
  have one (n : Nat) : 1 ≤ 1 * ∑ i ∈ range (n + 1), breadth ^ i := by
    rw [Nat.one_mul, geom_sum_succ]
    exact Nat.le_add_left 1 _
  have wider {calls calls' sum width : Nat} (first : calls' ≤ calls + 1 * sum) (le : 1 ≤ width) :
      calls' ≤ calls + width * sum :=
    first.trans (Nat.add_le_add_left (Nat.mul_le_mul_right sum le) calls)
  induction ran with
  | missing =>
    rw [Run.calls_record]
    exact Nat.add_le_add_left (one _) _
  | refused =>
    rw [Run.calls_record]
    exact Nat.add_le_add_left (one _) _
  | @entered h c s body g ending s' status enter _ ih =>
    -- Inside there is room for one level less, and the call itself is the first term of the sum.
    have inside := ih (by rw [Run.store_opened]; exact narrow) near
    have width : body.node.breadth (c.input.size - c.pos) ≤ breadth :=
      (body.node.breadth_mono near).trans (narrow h body status)
    have sum := one_add_le_sum width g.room
    rw [Run.calls_opened, Run.guard_opened] at inside
    rw [Run.calls_closed, Guard.room_of_enter enter]
    simp only [Stage.breadth] at inside ⊢
    omega
  | leaf | exhausted => exact Nat.le_add_right _ _
  | choice _ ih | sequence _ ih => exact ih narrow near
  | repetition _ ih =>
    rw [Stage.breadth_repetition]
    exact ih narrow near
  | settled _ _ ih => exact wider (ih narrow near) (Nat.le_add_left 1 _)
  | passed ran _ ih ih' =>
    exact ran.calls_next edits narrow (ih narrow near) (ih' · near) (Nat.le_refl _)
  | awaited _ _ ih => exact ih narrow near
  | unwound _ pass ih =>
    rw [(passes_calls m).unwind rfl pass]
    exact ih narrow near
  | folded work =>
    cases work
    exact Nat.le_add_right _ _
  | gaveUp pass =>
    rw [(passes_calls m).giveUp pass]
    exact Nat.le_add_right _ _
  | itemsDone _ ih => exact ih narrow near
  | itemDone ran _ ih ih' =>
    have near' := ran.reaches.left_le.trans near
    exact ran.calls_next edits narrow (ih narrow near) (ih' · near') (Nat.le_refl _)
  | itemFailed ran _ ih ih' =>
    exact ran.calls_next edits narrow (ih narrow near) (ih' · near) (Nat.le_add_left 1 _)
  | itemEnded _ _ ih => exact wider (ih narrow near) (Nat.le_add_left 1 _)
  | turnsFull _ _ ih => exact (ih narrow near).trans (by simp [Stage.breadth])
  | turnMoved more ran moved _ ih ih' =>
    have near' := ran.reaches.left_le.trans near
    refine ran.calls_next edits narrow (ih narrow near) (ih' · near') ?_
    exact Stage.breadth_turns_next more ran.reaches moved
  | turnStill more ran _ _ ih ih' =>
    have near' := ran.reaches.left_le.trans near
    refine ran.calls_next edits narrow (ih narrow near) (ih' · near') ?_
    exact Stage.breadth_turns_pos more
  | turnFailed more ran _ _ ih ih' =>
    refine ran.calls_next edits narrow (ih narrow near) (ih' · near) ?_
    exact Stage.breadth_turns_pos more
  | turnShort more ran _ _ ih ih' =>
    refine ran.calls_next edits narrow (ih narrow near) (ih' · near) ?_
    exact Stage.breadth_turns_pos more
  | turnEnded more _ _ ih => exact wider (ih narrow near) (Stage.breadth_turns_pos more)
  | applied _ work ih =>
    cases work
    exact ih narrow near
  | unapplied _ _ ih => exact ih narrow near
  | expect _ ih => exact ih narrow near

/-- Every run ends, on whatever graph, if all that callbacks do to it is to tear handles down and to
fill placeholders in. From the start of a context it makes at most so many calls as a tree has nodes
whose branching is the breadth of the grammar and whose height is the limit of the guard. -/
theorem call_ends (edits : m.Edits) (config : Config) (h : HandleId) (c : Cursor) (s : Store) :
    ∃ ending run,
      m.Ran config.trace (.call h) c ⟨s, (Context.fresh config).guard, []⟩ ending run ∧
      m.call (.fresh config) h c s = (ending, run) ∧
      run.calls ≤ ∑ i ∈ range (config.maxDepth.toNat + 1),
        s.grammar.breadth (c.input.size - c.pos) ^ i := by
  have ran := ran_call (m := m) (.fresh config) h c s
  have room : (Context.fresh config).guard.room = config.maxDepth.toNat := by
    rw [Context.fresh, Guard.room, Int.sub_zero]
  have calls := ran.calls_le edits (s.grammar.narrow_breadth _) (Nat.le_refl _)
  simp only [room, Stage.breadth, Nat.one_mul] at calls
  exact ⟨_, _, ran, rfl, calls.trans (Nat.zero_add _).le⟩

def endless : Store where
  grammar := ⟨#[{ name := "expression", status := .defined ⟨0, .choice 1 [2]⟩ },
    { status := .defined ⟨1, .sequence .list [(0, none), (2, none)]⟩ },
    { status := .defined ⟨2, .repetition .size 3 0 none none⟩ },
    { status := .defined ⟨3, .pure .null⟩ }]⟩

/-- The expression begins with itself until the guard refuses it, the fourth call of at most fifteen.
The spaces take one turn, as they do not move. -/
theorem endless_ends :
    (standard Operator.apply 0).Edits ∧
    (∃ ending run, (standard Operator.apply 0).Ran false (.call 0) (.start #[])
        ⟨endless, ⟨3, 0⟩, []⟩ ending run ∧
      (standard Operator.apply 0).call (.fresh ⟨3, false, "", by decide⟩) 0 (.start #[]) endless =
        (ending, run) ∧
      run.calls ≤ 15) ∧
    ((standard Operator.apply 0).call (.fresh ⟨3, false, "", by decide⟩) 0 (.start #[])
      endless).2.calls = 4 ∧
    ((standard Operator.apply 0).call (.fresh ⟨3, false, "", by decide⟩) 2 (.start #[])
      endless).1 = .done (.success (.integer 1) (.start #[])) :=
  ⟨standard_edits _ 0, call_ends (standard_edits Operator.apply 0) ⟨3, false, "", by decide⟩ 0
    (.start #[]) endless, rfl, rfl⟩

end

end Meaning

end Peg
