import Peg.Proofs.Depth.Limit
import Peg.Proofs.Depth.Paths
import Peg.Proofs.Depth.Pruning
import Peg.Proofs.Diagnosis
import Peg.Proofs.Run.Stores

/-!
The height of a grammar. Where no cycle can be reached, calls nest along a path of the grammar, so
that a guard with room for the longest path refuses nothing: a sequence and a repetition call their
children one after another, and each call leaves the guard as it found it.
-/

namespace Peg

def Entry.By (among : Callbacks) : Entry → Prop
  | .released r _ _ _ _ => among.release r
  | .folded f _ _ _ _ => among.fold f
  | .applied f _ _ _ _ => among.func f
  | _ => True

/-- What a stage has left to call: handles of one kind, and callbacks of one kind. -/
def Stage.Calls (at_handle : HandleId → Prop) (among : Callbacks) : Stage → Prop
  | .call h => at_handle h
  | .body node => (∀ k ∈ node.children, at_handle k) ∧ node.Calls among
  | .alternatives _ left => ∀ k ∈ left, at_handle k
  | .items fold left held =>
    among.fold fold ∧ (∀ item ∈ left, at_handle item.1 ∧ among.Releases item.2) ∧ held.Calls among
  | .turns fold item _ _ release held =>
    among.fold fold ∧ at_handle item ∧ among.Releases release ∧ held.Calls among
  | .waiting h held => at_handle h ∧ held.Calls among
  | .finish fold _ => among.fold fold
  | .giveUp held _ => held.Calls among

structure Run.Spared (g : Grammar) (at_handle : HandleId → Prop) (among : Callbacks) (s : Run) :
    Prop where
  unrefused : Unrefused s.journal
  pruned : g.PrunedTo at_handle s.store.grammar
  called : ∀ e ∈ s.journal, e.By among

namespace Run.Spared

variable {m : Meaning} {g : Grammar} {at_handle : HandleId → Prop} {among : Callbacks} {s s' : Run}

theorem record (spared : s.Spared g at_handle among) (guard : Guard) {store : Store} {e : Entry}
    (pruned : g.PrunedTo at_handle store.grammar)
    (unrefused : ∀ h pos depth, e ≠ .refused h pos depth)
    (called : e.By among) : (Run.mk store guard (e :: s.journal)).Spared g at_handle among where
  unrefused := spared.unrefused.cons unrefused
  pruned := pruned
  called := List.forall_mem_cons.mpr ⟨called, spared.called⟩

theorem callback (spared : s.Spared g at_handle among) (guard : Guard) {store : Store} {e : Entry}
    (pruned : g.PrunedTo at_handle store.grammar) (callback : e.IsCallback)
    (called : e.By among) : (Run.mk store guard (e :: s.journal)).Spared g at_handle among :=
  spared.record guard pruned callback.ne_refused called

theorem opened (spared : s.Spared g at_handle among) (trace : Bool) (h : HandleId) (node : Node)
    (c : Cursor) (guard : Guard) : (s.opened trace h node c guard).Spared g at_handle among := by
  have entered := spared.record (e := .entered h node c.pos guard.depth) guard spared.pruned
    (fun _ _ _ => nofun) trivial
  cases trace with
  | false => exact entered
  | true => exact entered.record _ entered.pruned (fun _ _ _ => nofun) trivial

theorem closed (spared : s.Spared g at_handle among) (trace : Bool) (h : HandleId) (c : Cursor)
    (ending : Ending Result) : (s.closed trace h c ending).Spared g at_handle among := by
  obtain ⟨s', before, closed⟩ := s.closed_cases trace h c ending
  have logged : s'.Spared g at_handle among := by
    obtain rfl | ⟨record, rfl⟩ := before
    · exact spared
    · exact spared.record _ spared.pruned (fun _ _ _ => nofun) trivial
  rw [closed]
  exact logged.record _ logged.pruned (fun _ _ _ => nofun) trivial

section

variable (prunes : among.Within (m.pruning at_handle))
include prunes

theorem releaseAll {held : Held} {ending : Ending Unit} (spared : s.Spared g at_handle among)
    (calls : held.Calls among) (pass : m.releaseAll held s = (ending, s')) :
    s'.Spared g at_handle among := by
  induction held generalizing s with
  | nil =>
    cases pass
    exact spared
  | cons item held ih =>
    have rest_calls : Held.Calls among held := fun x mem => calls x (List.mem_cons_of_mem _ mem)
    obtain ⟨v, _ | r⟩ := item
    · exact ih spared rest_calls pass
    · have released {t : Run} {ending : Ending Unit} (work : m.runRelease r v s = (ending, t)) :
          t.Spared g at_handle among := by
        have called : among.release r := calls _ (List.mem_cons_self ..) r rfl
        cases work
        have pruned := spared.pruned.trans (prunes.release called v s.store)
        exact spared.callback _ pruned trivial called
      obtain ⟨s₁, first, rest⟩ | ⟨first, _⟩ := Meaning.releaseAll_cons_some pass
      · exact ih (released first) rest_calls rest
      · exact released first

theorem unwind {held : Held} {fault : Fault} {ending : Ending Result}
    (spared : s.Spared g at_handle among) (calls : held.Calls among)
    (pass : m.unwind held fault s = (ending, s')) : s'.Spared g at_handle among := by
  obtain ⟨pass, _⟩ | ⟨_, pass, _⟩ | ⟨_, pass, _⟩ := Meaning.unwind_cases pass <;>
    exact releaseAll prunes spared calls pass

theorem giveUp {held : Held} {f : Failure} {ending : Ending Result}
    (spared : s.Spared g at_handle among) (calls : held.Calls among)
    (pass : m.giveUp held f s = (ending, s')) : s'.Spared g at_handle among := by
  obtain ⟨pass, _⟩ | ⟨_, s₁, pass, again⟩ | ⟨_, pass, _⟩ := Meaning.giveUp_cases pass
  · exact releaseAll prunes spared calls pass
  · exact unwind prunes (releaseAll prunes spared calls pass) calls again
  · exact releaseAll prunes spared calls pass

end

end Run.Spared

def Grammar.Fits (g : Grammar) (root : HandleId) (room : Nat) (h : HandleId) : Prop :=
  g.Reachable [root] h ∧ room ∈ upperBounds (g.Lengths h)

theorem Grammar.Fits.child {g : Grammar} {root h k : HandleId} {room : Nat}
    (fits : g.Fits root (room + 1) h) (mem : k ∈ (g.get h).children) : g.Fits root room k :=
  ⟨fits.1.child mem, upperBounds_child fits.2 mem⟩

namespace Meaning

variable {m : Meaning} {trace : Bool} {g : Grammar} {root : HandleId} {among : Callbacks}

/-- Where there is room for the longest path from whatever a stage calls, the guard refuses
nothing. -/
theorem Ran.spared (prunes : among.Within (m.pruning (g.Reachable [root])))
    (calls : g.Calls among (g.Reachable [root])) {stage : Stage} {c : Cursor} {s s' : Run}
    {ending : Ending Result} (ran : m.Ran trace stage c s ending s') :
    s.Spared g (g.Reachable [root]) among → stage.Calls (g.Fits root s.guard.room) among →
      s'.Spared g (g.Reachable [root]) among := by
  -- Each part of a stage finds the guard as the stage did, and so the same room.
  induction ran with
  | missing =>
    intro spared _
    exact spared.record _ spared.pruned (by simp) trivial
  | refused _ enter =>
    intro _ fits
    obtain ⟨full, _⟩ := Guard.enter_eq_error_iff.mp enter
    have room := Grammar.pos_of_mem_upperBounds fits.2
    omega
  | @entered h c s body guard ending s' status enter _ ih =>
    intro spared fits
    have there := spared.pruned.status fits.1 status
    have children : body.node.children = (g.get h).children := by
      simp only [Handle.children, Handle.body?, there]
    refine (ih (spared.opened ..) ⟨fun k mem => ?_, calls h body fits.1 there⟩).closed ..
    rw [Run.guard_opened]
    rw [Stage.Calls, Guard.room_of_enter enter] at fits
    exact fits.child (children ▸ mem)
  | leaf | exhausted => exact fun spared _ => spared
  | choice _ ih => exact fun spared uses => ih spared uses.1
  | settled _ _ ih => exact fun spared uses => ih spared (uses _ (List.mem_cons_self ..))
  | passed first _ ih ih' =>
    intro spared uses
    obtain ⟨here, rest⟩ := List.forall_mem_cons.mp uses
    exact ih' (ih spared here) (first.guard_eq ▸ rest)
  | awaited _ _ ih => exact fun spared uses => ih spared uses.1
  | unwound _ pass ih => exact fun spared uses => (ih spared uses.1).unwind prunes uses.2 pass
  | folded work =>
    intro spared uses
    cases work
    exact spared.callback _ (spared.pruned.trans (prunes.fold uses _ _)) trivial uses
  | gaveUp pass => exact fun spared uses => spared.giveUp prunes uses pass
  | sequence _ ih =>
    intro spared uses
    refine ih spared ⟨uses.2.1, fun item mem => ⟨?_, uses.2.2 item mem⟩, .nil⟩
    exact uses.1 _ (List.mem_map_of_mem mem)
  | itemsDone _ ih => exact fun spared uses => ih spared uses.1
  | itemDone first _ ih ih' =>
    rintro spared ⟨fold, left, held⟩
    obtain ⟨here, rest⟩ := List.forall_mem_cons.mp left
    refine ih' (ih spared ⟨here.1, held⟩) ?_
    rw [first.guard_eq]
    exact ⟨fold, rest, held.append here.2⟩
  | itemFailed first _ ih ih' =>
    rintro spared ⟨_, left, held⟩
    exact ih' (ih spared ⟨(left _ (List.mem_cons_self ..)).1, held⟩) held
  | itemEnded _ _ ih =>
    rintro spared ⟨_, left, held⟩
    exact ih spared ⟨(left _ (List.mem_cons_self ..)).1, held⟩
  | repetition _ ih =>
    intro spared uses
    exact ih spared ⟨uses.2.1, uses.1 _ (List.mem_cons_self ..), uses.2.2, .nil⟩
  | turnsFull _ _ ih => exact fun spared uses => ih spared uses.1
  | turnMoved _ first _ _ ih ih' =>
    rintro spared ⟨fold, item, release, held⟩
    refine ih' (ih spared ⟨item, held⟩) ?_
    rw [first.guard_eq]
    exact ⟨fold, item, release, held.append release⟩
  | turnStill _ _ _ _ ih ih' | turnFailed _ _ _ _ ih ih' =>
    rintro spared ⟨fold, item, _, held⟩
    exact ih' (ih spared ⟨item, held⟩) fold
  | turnShort _ _ _ _ ih ih' =>
    rintro spared ⟨_, item, _, held⟩
    exact ih' (ih spared ⟨item, held⟩) held
  | turnEnded _ _ _ ih =>
    rintro spared ⟨_, item, _, held⟩
    exact ih spared ⟨item, held⟩
  | applied _ work ih =>
    intro spared uses
    have spared := ih spared (uses.1 _ (List.mem_cons_self ..))
    cases work
    exact spared.callback _ (spared.pruned.trans (prunes.func uses.2 _ _)) trivial uses.2
  | unapplied _ _ ih | expect _ ih =>
    exact fun spared uses => ih spared (uses.1 _ (List.mem_cons_self ..))

theorem call_spared {s : Store} (prunes : among.Within (m.pruning (s.grammar.Reachable [root])))
    (calls : s.grammar.Calls among (s.grammar.Reachable [root])) {height : Nat}
    (greatest : IsGreatest (s.grammar.Lengths root) height) {config : Config}
    (room : (height : Int) ≤ config.maxDepth) (c : Cursor) :
    (m.call (.fresh config) root c s).2.Spared s.grammar (s.grammar.Reachable [root]) among := by
  have started : Run.Spared s.grammar (s.grammar.Reachable [root]) among
      ⟨s, (Context.fresh config).guard, []⟩ :=
    ⟨fun _ _ _ => List.not_mem_nil, .refl _, fun _ mem => absurd mem List.not_mem_nil⟩
  refine (ran_call (.fresh config) root c s).spared prunes calls started ?_
  refine ⟨.root (List.mem_cons_self ..), fun n length => (greatest.2 length).trans ?_⟩
  simp only [Context.fresh, Guard.room]
  omega

theorem exists_raising {ctx : Context} {h : HandleId} {c : Cursor} {s : Store}
    (unrefused : Unrefused (m.call ctx h c s).2.journal) {n : Int}
    (raised : (m.call ctx h c s).1 = .raised (.depthLimit n)) :
    ∃ e ∈ (m.call ctx h c s).2.journal, e.IsCallback ∧ e.Raises (.depthLimit n) := by
  have sources := (spans_sources m ctx.config.trace).ran (ran_call ctx h c s)
  obtain ⟨e, mem, raises⟩ := sources.raised _ (Ending.outcome_eq_raised_iff.mpr raised)
  refine ⟨e, mem, ?_, raises⟩
  cases e with
  | entered | left | logged => exact raises
  | refused => exact absurd mem (unrefused _ _ _)
  | missing =>
    obtain ⟨_, _, undefined | deleted⟩ := raises
    · cases undefined
    · cases deleted
  | released | folded | applied => trivial

theorem not_raises_of_unbinding {levels : Nat} {e : Entry} {s : Store} (called : e.By .unbinding)
    (callback : e.IsCallback) (tells : e.Tells (standard Operator.apply levels) s) (n : Int) :
    ¬ e.Raises (.depthLimit n) := by
  obtain ⟨nested, eq⟩ := standard_eq Operator.apply levels
  rw [eq] at tells
  intro raises
  cases e with
  | entered | left | logged | refused | missing => exact callback
  | released r v =>
    have unbinding : (Standard.release r v).Unbinding fun _ => True := .release r v
    exact (unbinding ⟨s, []⟩).2 n (tells.1.trans raises)
  | folded f vs =>
    have unbinding : (Standard.fold Operator.apply f vs).Unbinding fun _ => True := .fold f vs
    exact (unbinding ⟨s, []⟩).2 n (tells.1.trans raises)
  | applied f v =>
    have unbinding : (Standard.apply nested f v).Unbinding fun _ => True := .apply called nested v
    exact (unbinding ⟨s, []⟩).2 n (tells.1.trans raises)

/-- Where no cycle can be reached from a handle, its paths have a greatest length, and a run with
room for it is refused nowhere, however long the text: its callbacks being such that they delete
handles at most, only they can come up with the fault of the guard. The standard callbacks do not,
where they neither define handles nor run parsers. -/
theorem call_of_height {s : Store} {h : HandleId} (acyclic : s.grammar.AcyclicFrom h) :
    ∃ height : Nat, IsGreatest (s.grammar.Lengths h) height ∧
      ∀ (config : Config) (c : Cursor), (height : Int) ≤ config.maxDepth →
        (∀ m : Meaning,
          s.grammar.Calls (m.pruning (s.grammar.Reachable [h])) (s.grammar.Reachable [h]) →
          Unrefused (m.call (.fresh config) h c s).2.journal ∧
          ∀ n, (m.call (.fresh config) h c s).1 = .raised (.depthLimit n) →
            ∃ e ∈ (m.call (.fresh config) h c s).2.journal,
              e.IsCallback ∧ e.Raises (.depthLimit n)) ∧
        ∀ levels, s.grammar.Calls .unbinding (s.grammar.Reachable [h]) → ∀ n,
          ((standard Operator.apply levels).call (.fresh config) h c s).1 ≠
            .raised (.depthLimit n) := by
  obtain ⟨height, greatest⟩ := acyclic.exists_height
  refine ⟨height, greatest, fun config c room => ⟨fun m calls => ?_, ?_⟩⟩
  · have spared := call_spared ⟨id, id, id⟩ calls greatest room c
    exact ⟨spared.unrefused, fun n => exists_raising spared.unrefused⟩
  · intro levels calls n raised
    have prunes := unbinding_within_pruning levels (s.grammar.Reachable [h])
    have spared := call_spared prunes calls greatest room c
    obtain ⟨e, mem, callback, raises⟩ := exists_raising spared.unrefused raised
    obtain ⟨after, before, split⟩ := List.append_of_mem mem
    have faithful := (spans_faithful (standard Operator.apply levels) config.trace s).ran
      (ran_call (.fresh config) h c s) ⟨rfl, along_nil _⟩
    have tells := faithful.along after e before split
    exact not_raises_of_unbinding (spared.called e mem) callback tells n raises

def beads : Store where
  grammar := ⟨#[{ name := "beads", status := .defined ⟨0, .repetition .list 1 0 none none⟩ },
    { status := .defined ⟨1, .sequence .list [(2, none), (2, none)]⟩ },
    { status := .defined ⟨2, .apply 3 (.acts [.log "bead", .delete "spare"])⟩ },
    { status := .defined ⟨3, .literal "a"⟩ }, { status := .defined ⟨4, .literal "b"⟩ }]⟩
  registers := [("spare", 4)]

def sixBeads : Cursor := .start #['a', 'a', 'a', 'a', 'a', 'a']

theorem beads_lower : ∀ h, ∀ k ∈ (beads.grammar.get h).children, 3 - k < 3 - h := by
  intro h k mem
  rcases h with _ | _ | _ | _ | _ | h
  · obtain rfl := List.mem_singleton.mp mem
    decide
  · have eq : k = 2 := by simpa using (show k ∈ [2, 2] from mem)
    subst eq
    decide
  · obtain rfl := List.mem_singleton.mp mem
    decide
  · cases mem
  · cases mem
  · rw [Grammar.get_of_size_le (by simp [beads, Grammar.size])] at mem
    cases mem

/-- Four handles are nested in the beads at most, so that a guard for four lets any number of beads
through, and a guard for three does not. -/
theorem beads_height :
    beads.grammar.AcyclicFrom 0 ∧ IsGreatest (beads.grammar.Lengths 0) 4 ∧
    ((4 : Nat) : Int) ≤ (4 : Int) ∧
    beads.grammar.Calls .unbinding (beads.grammar.Reachable [0]) ∧
    beads.grammar.Calls (usual.pruning (beads.grammar.Reachable [0]))
      (beads.grammar.Reachable [0]) ∧
    Unrefused (usual.call (.fresh ⟨4, false, "", by decide⟩) 0 sixBeads beads).2.journal ∧
    (∀ n, (usual.call (.fresh ⟨4, false, "", by decide⟩) 0 sixBeads beads).1 ≠
      .raised (.depthLimit n)) ∧
    (usual.call (.fresh ⟨3, false, "", by decide⟩) 0 sixBeads beads).1 =
      .raised (.depthLimit 3) := by
  have acyclic := Grammar.acyclicFrom_of_rank beads_lower 0
  have unbinding : beads.grammar.Calls .unbinding (beads.grammar.Reachable [0]) := by
    intro h body _ status
    rcases h with _ | _ | _ | _ | _ | h
    · cases status
      exact ⟨trivial, nofun⟩
    · cases status
      exact ⟨trivial, fun _ _ _ _ => trivial⟩
    · cases status
      intro act mem
      simp only [List.mem_cons, List.not_mem_nil, or_false] at mem
      obtain rfl | rfl := mem <;> trivial
    · cases status
      trivial
    · cases status
      trivial
    · rw [Grammar.get_of_size_le (by simp [beads, Grammar.size])] at status
      cases status
  have within := unbinding_within_pruning nestingLevels (beads.grammar.Reachable [0])
  have pruning := within.calls unbinding
  have longest : IsGreatest (beads.grammar.Lengths 0) 4 := by
    refine ⟨⟨[1, 2, 3], ?_, rfl⟩, Grammar.rank_mem_upperBounds beads_lower 0⟩
    simp [Grammar.Path, beads, Grammar.get, Handle.children, Handle.body?, Node.children]
  obtain ⟨height, greatest, runs⟩ := call_of_height acyclic
  obtain rfl := greatest.unique longest
  obtain ⟨free, limit⟩ := runs ⟨4, false, "", by decide⟩ sixBeads (by decide)
  exact ⟨acyclic, longest, by decide, unbinding, pruning, (free usual pruning).1,
    limit nestingLevels unbinding, by cbv⟩

end Meaning

end Peg
