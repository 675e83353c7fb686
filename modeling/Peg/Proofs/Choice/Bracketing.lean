import Mathlib
import Peg.Callback.Standard
import Peg.Proofs.Choice.Alternatives
import Peg.Proofs.Depth.Shallower

/-!
Choices in brackets. A choice whose alternatives are choices in turn, and so on, comes to the same
as one choice of all that stands in the brackets, which is nested less deeply. They are told apart
only where a bracket is missing by the time the run comes to it, and where the guard refuses a
call.
-/

namespace Peg

structure Store.Ages (s s' : Store) : Prop where
  keeps : ∀ h body, (s.grammar.get h).status = .defined body →
    (s'.grammar.get h).status = .defined body ∨ (s'.grammar.get h).status = .deleted
  deleted : ∀ h, (s.grammar.get h).status = .deleted → (s'.grammar.get h).status = .deleted

theorem Store.aging : Passage Ages where
  same grammar _ := ⟨fun h body status => .inl (grammar ▸ status), fun h gone => grammar ▸ gone⟩
  trans first second := by
    refine ⟨fun h body status => ?_, fun h gone => second.deleted h (first.deleted h gone)⟩
    obtain kept | gone := first.keeps h body status
    · exact second.keeps h body kept
    · exact .inr (second.deleted h gone)
  tear s h := by
    refine ⟨fun k body status => ?_, fun k gone => ?_⟩
    · obtain torn | same := Grammar.get_tear s.grammar h k
      · exact .inr torn
      · exact .inl ((congrArg Handle.status same).trans status)
    · obtain torn | same := Grammar.get_tear s.grammar h k
      · exact torn
      · exact (congrArg Handle.status same).trans gone
  define := by
    intro s g h other done
    refine ⟨fun k body status => ?_, fun k gone => ?_⟩
    · obtain same | ⟨undefined, _⟩ := Grammar.get_define done k
      · exact .inl ((congrArg Handle.status same).trans status)
      · simp [undefined] at status
    · obtain same | ⟨undefined, _⟩ := Grammar.get_define done k
      · exact (congrArg Handle.status same).trans gone
      · simp [undefined] at gone

/-- The second list of handles is the first with some of the choices in it opened, those among
`bracket`, and with some of the choices in these opened, and so on. -/
inductive Grammar.Unfolds (g : Grammar) (bracket : HandleId → Prop) :
    List HandleId → List HandleId → Prop where
  | nil : Unfolds g bracket [] []
  | leaf {h : HandleId} {hs ps : List HandleId} : Unfolds g bracket hs ps →
      Unfolds g bracket (h :: hs) (h :: ps)
  | opened {h first : HandleId} {others hs ps ps' : List HandleId} : bracket h →
      g.Holds h (.choice first others) → Unfolds g bracket (first :: others) ps →
      Unfolds g bracket hs ps' → Unfolds g bracket (h :: hs) (ps ++ ps')

/-- A run ended with the fault of a bracket that was missing when the run came to it, only brackets
being under way then. -/
def BrokenOff (bracket : HandleId → Prop) (ending : Ending Result) (journal : List Entry) : Prop :=
  ∃ after h fault depth before, ending = .raised fault ∧
    journal = after ++ .missing h fault depth :: before ∧ bracket h ∧
    ∀ F ∈ frames before, bracket F.handle

theorem not_brokenOff_done (bracket : HandleId → Prop) (r : Result) (journal : List Entry) :
    ¬ BrokenOff bracket (.done r) journal := by
  rintro ⟨_, _, _, _, _, raised, _⟩
  cases raised

theorem BrokenOff.suffix {bracket : HandleId → Prop} {ending : Ending Result}
    {before journal : List Entry} (broken : BrokenOff bracket ending before)
    (earlier : before <:+ journal) : BrokenOff bracket ending journal := by
  obtain ⟨later, rfl⟩ := earlier
  obtain ⟨after, h, fault, depth, early, raised, rfl, rest⟩ := broken
  exact ⟨later ++ after, h, fault, depth, early, raised, by rw [List.append_assoc], rest⟩

theorem map_handle_receive (ending : Ending Result) (fs : List Frame) :
    (receive ending fs).map (·.handle) = fs.map (·.handle) := by
  cases fs with
  | nil => rfl
  | cons F fs =>
    rcases ending with (_ | _) | _ | _ <;> rfl

namespace Meaning

variable {m : Meaning} {trace : Bool} {bracket : HandleId → Prop}

theorem spans_handles (m : Meaning) (trace : Bool) :
    m.Spans trace fun s _ s' => s'.frames.map (·.handle) = s.frames.map (·.handle) where
  done _ := rfl
  next first second := second.trans first
  resumed first second := second.trans first
  replaced first second _ := second.trans first
  missing _ := rfl
  refused _ _ := rfl
  entered _ _ _ inside := by
    rw [frames_opened, List.map_cons] at inside
    obtain ⟨F, fs, frames, _, outer⟩ := List.map_eq_cons_iff.mp inside
    rw [frames_closed frames, map_handle_receive, outer]
  release {r v s ending s'} h := by
    cases h
    change List.map _ (Entry.replay _ s.frames) = _
    cases s.frames with
    | nil => rfl
    | cons F fs => exact congrArg (· :: fs.map (·.handle)) (handle_call F _)
  fold {f vs s ending s'} h := by
    cases h
    change List.map _ (Entry.replay _ s.frames) = _
    cases s.frames <;> rfl
  apply h := by
    cases h
    rfl

end Meaning

def Run.InBrackets (bracket : HandleId → Prop) (s : Run) : Prop :=
  ∀ F ∈ s.frames, bracket F.handle

namespace Meaning

variable {m : Meaning} {trace : Bool} {bracket : HandleId → Prop} {start : Store}
  {h first : HandleId} {others hs ps ps' : List HandleId} {c : Cursor} {levels : Nat}

theorem Ran.inBrackets {stage : Stage} {s s' : Run} {ending : Ending Result}
    (ran : m.Ran trace stage c s ending s') (inside : s.InBrackets bracket) :
    s'.InBrackets bracket := by
  have handles := (spans_handles m trace).ran ran
  have all : ∀ h ∈ s.frames.map (·.handle), bracket h := List.forall_mem_map.mpr inside
  exact List.forall_mem_map.mp (handles ▸ all)

theorem Ran.ages {stage : Stage} {s s' : Run} {ending : Ending Result} (moves : m.Moves Store.Ages)
    (ran : m.Ran trace stage c s ending s') (ages : start.Ages s.store) : start.Ages s'.store :=
  Store.aging.trans ages ((Store.aging.steps moves).ran ran)

/-- Some handles in brackets come to the same as others without them, which are called less deeply:
whatever has failed before, unless the run breaks off or the guard refuses a call. -/
def Flattens (m : Meaning) (trace : Bool) (bracket : HandleId → Prop) (start : Store)
    (hs ps : List HandleId) : Prop :=
  ∀ ⦃failed : Option Failure⦄ ⦃c : Cursor⦄ ⦃s s' t : Run⦄ ⦃ending : Ending Result⦄ ⦃levels : Nat⦄,
    m.Ran trace (.alternatives failed hs) c s ending s' → start.Ages s.store →
    s.InBrackets bracket → s.Shallower levels t → Unrefused s'.journal →
    BrokenOff bracket ending s'.journal ∨
      ∃ t', m.Ran trace (.alternatives failed ps) c t ending t' ∧ s'.Shallower levels t'

theorem Flattens.call (flattens : m.Flattens trace bracket start (first :: others) ps)
    (among : bracket h) (holds : start.grammar.Holds h (.choice first others)) {s s' t : Run}
    {ending : Ending Result} (ran : m.Ran trace (.call h) c s ending s')
    (ages : start.Ages s.store) (inside : s.InBrackets bracket) (pair : s.Shallower levels t)
    (unrefused : Unrefused s'.journal) :
    BrokenOff bracket ending s'.journal ∨
      ∃ t', m.Ran trace (.alternatives none ps) c t ending t' ∧ s'.Shallower levels t' := by
  obtain ⟨body, status, at_h⟩ := holds
  cases ran with
  | missing missing => exact .inl ⟨[], h, _, _, s.journal, rfl, rfl, among, inside⟩
  | refused => exact absurd (List.mem_cons_self ..) (unrefused _ _ _)
  | @entered _ _ _ body' g _ s₁ status' enter ran =>
    -- The bracket was let in, so it has not been deleted, and it still holds its choice.
    obtain kept | gone := ages.keeps h body status
    · rw [kept] at status'
      cases status'
      rw [at_h] at ran
      cases ran with
      | leaf leaf => cases leaf
      | choice ran =>
        have earlier := (steps_journal (m := m)).closed s₁ trace h c ending
        have inside' : (s.opened trace h (.choice first others) c g).InBrackets bracket := by
          rw [Run.InBrackets, frames_opened]
          exact List.forall_mem_cons.mpr ⟨among, inside⟩
        have ages' : start.Ages (s.opened trace h (.choice first others) c g).store := by
          rwa [Run.store_opened]
        obtain broken | ⟨t', ran', pair'⟩ := flattens ran ages' inside'
          (pair.opened_left enter trace h _ c) (unrefused.suffix earlier)
        · exact .inl (broken.suffix earlier)
        · exact .inr ⟨t', ran', pair'.closed_left trace h c ending⟩
    · rw [gone] at status'
      cases status'

theorem flattens_nil : m.Flattens trace bracket start [] [] := by
  intro failed c s s' t ending levels ran _ _ pair _
  cases ran with
  | exhausted => exact .inr ⟨t, .exhausted, pair⟩

theorem Flattens.leaf (moves : m.Moves Store.Ages)
    (flattens : m.Flattens trace bracket start hs ps) :
    m.Flattens trace bracket start (h :: hs) (h :: ps) := by
  intro failed c s s' t ending levels ran ages inside pair unrefused
  cases ran with
  | settled call unfailed =>
    obtain ⟨t', call', pair'⟩ := call.call_shallower pair unrefused
    exact .inr ⟨t', .settled call' unfailed, pair'⟩
  | passed call rest =>
    obtain ⟨t₁, call', pair₁⟩ := call.call_shallower pair (unrefused.suffix rest.journal)
    obtain broken | ⟨t', rest', pair'⟩ :=
      flattens rest (call.ages moves ages) (call.inBrackets inside) pair₁ unrefused
    · exact .inl broken
    · exact .inr ⟨t', .passed call' rest', pair'⟩

theorem Flattens.opened (moves : m.Moves Store.Ages) (among : bracket h)
    (holds : start.grammar.Holds h (.choice first others))
    (within : m.Flattens trace bracket start (first :: others) ps)
    (flattens : m.Flattens trace bracket start hs ps') :
    m.Flattens trace bracket start (h :: hs) (ps ++ ps') := by
  intro failed c s s' t ending levels ran ages inside pair unrefused
  cases ran with
  | settled call unfailed =>
    obtain broken | ⟨t', ran', pair'⟩ := within.call among holds call ages inside pair unrefused
    · exact .inl broken
    · exact .inr ⟨t', ran'.alternatives_settled unfailed, pair'⟩
  | passed call rest =>
    have early := unrefused.suffix rest.journal
    -- What ends with a failure did not break off.
    obtain ⟨_, _, _, _, _, raised, _⟩ | ⟨t₁, ran', pair₁⟩ :=
      within.call among holds call ages inside pair early
    · cases raised
    · obtain broken | ⟨t', rest', pair'⟩ :=
        flattens rest (call.ages moves ages) (call.inBrackets inside) pair₁ unrefused
      · exact .inl broken
      · have whole : m.Ran trace (.alternatives (Failure.before failed none) ps) c t _ t₁ :=
          ran'.alternatives_before
        exact .inr ⟨t', whole.alternatives_append rest', pair'⟩

theorem flattens_of_unfolds (moves : m.Moves Store.Ages) (trace : Bool)
    (unfolds : start.grammar.Unfolds bracket hs ps) : m.Flattens trace bracket start hs ps := by
  induction unfolds with
  | nil => exact flattens_nil
  | leaf _ ih => exact ih.leaf moves
  | opened among holds _ _ ih ih' => exact .opened moves among holds ih ih'

/-- How a choice in brackets, at `q`, and one of all that stands in them, at `p`, are run from one
place. -/
structure Bracketed (m : Meaning) (ctx : Context) (bracket : HandleId → Prop) (q p : HandleId)
    (leaves : List HandleId) (c : Cursor) (s : Store) : Prop where
  same : Unrefused (m.call ctx q c s).2.journal →
    ¬ BrokenOff bracket (m.call ctx q c s).1 (m.call ctx q c s).2.journal →
    (m.call ctx p c s).1 = (m.call ctx q c s).1 ∧
    (m.call ctx p c s).2.store = (m.call ctx q c s).2.store ∧
    (m.call ctx p c s).2.guard = (m.call ctx q c s).2.guard ∧
    (m.call ctx p c s).2.caused = (m.call ctx q c s).2.caused ∧
    (ctx.config.trace = false → (m.call ctx p c s).2.events = (m.call ctx q c s).2.events) ∧
    Unrefused (m.call ctx p c s).2.journal
  /-- A refusal ends the run with the fault of the guard, unless a release is stopped early
  after it. -/
  refused : Unrefused (m.call ctx q c s).2.journal ∨
    (m.call ctx q c s).1 = .raised (.depthLimit ctx.guard.maxDepth) ∨
    Overtaken (m.call ctx q c s).2.journal
  /-- Where all of them fail, their order does not show in the failure. -/
  reordered : ∀ g, ctx.guard.enter = .ok g → s.grammar.Steady m leaves →
    (∀ i ∈ leaves, ∃ f, (m.call ⟨ctx.config, g⟩ i c s).1 = .done (.failure f)) →
    ∃ f, ∀ k first others, s.grammar.Holds k (.choice first others) →
      (∀ i, i ∈ first :: others ↔ i ∈ leaves) → (m.call ctx k c s).1 = .done (.failure f)

theorem call_unfolded (moves : m.Moves Store.Ages) {s : Store} {q p leaf : HandleId}
    {leaves : List HandleId} (root : bracket q) (at_q : s.grammar.Holds q (.choice first others))
    (at_p : s.grammar.Holds p (.choice leaf leaves))
    (unfolds : s.grammar.Unfolds bracket (first :: others) (leaf :: leaves)) {ctx : Context}
    (unrefused : Unrefused (m.call ctx q c s).2.journal)
    (unbroken : ¬ BrokenOff bracket (m.call ctx q c s).1 (m.call ctx q c s).2.journal) :
    (m.call ctx p c s).1 = (m.call ctx q c s).1 ∧
      (m.call ctx q c s).2.Shallower 0 (m.call ctx p c s).2 := by
  obtain ⟨body, status, node⟩ := at_q
  obtain ⟨body', status', node'⟩ := at_p
  have ran := ran_call (m := m) ctx q c s
  rcases called : m.call ctx q c s with ⟨ending, run⟩
  rw [called] at ran unrefused unbroken
  dsimp only at ran unrefused unbroken
  cases ran with
  | missing missing => simp [Handle.fault?, status] at missing
  | refused => exact absurd (List.mem_cons_self ..) (unrefused _ _ _)
  | @entered _ _ _ _ g _ s₁ found enter ran =>
    rw [status] at found
    cases found
    rw [node] at ran
    cases ran with
    | leaf leaf => cases leaf
    | choice ran =>
      have earlier := (steps_journal (m := m)).closed s₁ ctx.config.trace q c ending
      have start : Run.Shallower 0 ⟨s, ctx.guard, []⟩ ⟨s, ctx.guard, []⟩ :=
        ⟨rfl, (Guard.lowered_zero _).symm, rfl, fun _ _ _ => List.not_mem_nil⟩
      -- Both calls are open now, so that the alternatives begin equally deep.
      have opened := start.opened ctx.config.trace q p (.choice first others) (.choice leaf leaves)
        c g
      rw [Guard.lowered_zero] at opened
      have inside : Run.InBrackets bracket
          (Run.opened ⟨s, ctx.guard, []⟩ ctx.config.trace q (.choice first others) c g) := by
        rw [Run.InBrackets, frames_opened]
        exact List.forall_mem_singleton.mpr root
      have ages : s.Ages
          (Run.opened ⟨s, ctx.guard, []⟩ ctx.config.trace q (.choice first others) c g).store := by
        rw [Run.store_opened]
        exact Store.aging.refl s
      obtain broken | ⟨t', ran', pair⟩ := flattens_of_unfolds moves ctx.config.trace unfolds
        ran ages inside opened (unrefused.suffix earlier)
      · exact absurd (broken.suffix earlier) unbroken
      · have flat : m.Ran ctx.config.trace (.call p) c ⟨s, ctx.guard, []⟩ ending _ :=
          .entered status' enter (by rw [node']; exact .choice ran')
        obtain ⟨same, same'⟩ := (ran_call ctx p c s).unique flat
        rw [same, same']
        exact ⟨rfl, pair.closed ..⟩

/-- Choices in brackets are built from choices. Such a choice comes to the same as one choice of all
that stands in the brackets, unless the guard refuses it a call or it comes to a bracket that is
missing; then the other is refused nothing either. And where they all fail, it does not matter in
which order they stand. -/
theorem call_bracketed (m : Meaning) (moves : m.Moves Store.Ages) :
    (∀ first others, (Build.choice ((first :: others).map .parser)).Builds fun h g =>
      g.Holds h (.choice first others)) ∧
    (∀ h k, (Build.alternative h (.parser k)).Builds fun l g => g.Holds l (.choice h [k])) ∧
    ∀ (s : Store) (bracket : HandleId → Prop) (q p first leaf : HandleId)
      (others leaves : List HandleId), bracket q → s.grammar.Holds q (.choice first others) →
      s.grammar.Holds p (.choice leaf leaves) →
      s.grammar.Unfolds bracket (first :: others) (leaf :: leaves) →
      ∀ (ctx : Context) (c : Cursor), m.Bracketed ctx bracket q p (leaf :: leaves) c s := by
  refine ⟨Build.builds_choice, fun h k => Build.builds_made _, ?_⟩
  intro s bracket q p first leaf others leaves root at_q at_p unfolds ctx c
  refine ⟨fun unrefused unbroken => ?_, call_refused m ctx q c s, fun g enter steady failing => ?_⟩
  · obtain ⟨same, pair⟩ := call_unfolded moves root at_q at_p unfolds unrefused unbroken
    have guard := pair.guard
    rw [Guard.lowered_zero] at guard
    refine ⟨same, pair.store, guard, pair.caused, fun untraced => ?_, pair.unrefused⟩
    rw [events_of_untraced untraced, events_of_untraced untraced, pair.caused]
  · exact call_reordered at_p steady enter failing

def menu : Store where
  grammar := ⟨#[{ status := .defined ⟨0, .literal "a"⟩ },
    { status := .defined ⟨1, .apply 0 (.acts [.log "letter"])⟩ },
    { status := .defined ⟨2, .literal "b"⟩ }, { status := .defined ⟨3, .literal "c"⟩ },
    { status := .defined ⟨4, .choice 1 [2]⟩ }, { status := .defined ⟨5, .choice 4 [3]⟩ },
    { status := .defined ⟨6, .choice 1 [2, 3]⟩ }, { status := .defined ⟨7, .choice 3 [1, 2, 1]⟩ }]⟩

def menuBracket (h : HandleId) : Prop := h = 4 ∨ h = 5

theorem menu_unfolds : menu.grammar.Unfolds menuBracket [4, 3] [1, 2, 3] := by
  have inside : menu.grammar.Unfolds menuBracket [1, 2] [1, 2] := .leaf (.leaf .nil)
  have after : menu.grammar.Unfolds menuBracket [3] [3] := .leaf .nil
  exact .opened (.inl rfl) ⟨_, rfl, rfl⟩ inside after

theorem menu_steady : menu.grammar.Steady usual [1, 2, 3] := by
  have logs : (usual.steadyIn menu.grammar).func (.acts [.log "letter"]) :=
    fun v => ⟨.done v, fun s grammar => ⟨rfl, grammar⟩⟩
  refine Grammar.steady_of_handles _ fun handle mem body status => ?_
  fin_cases mem <;> cases status <;> first | exact logs | trivial

/-- The logged letter is read with and without brackets, and of another letter all that might have
been is said, in whatever order it stands. -/
theorem menu_bracketed :
    usual.Moves Store.Ages ∧ menuBracket 5 ∧ menu.grammar.Holds 5 (.choice 4 [3]) ∧
    menu.grammar.Holds 6 (.choice 1 [2, 3]) ∧
    menu.grammar.Unfolds menuBracket [4, 3] [1, 2, 3] ∧
    (usual.call shallow 5 (.start #['a']) menu).1 =
      .done (.success (.text "a") ⟨#['a'], 1, by decide⟩) ∧
    (usual.call shallow 6 (.start #['a']) menu).1 =
      .done (.success (.text "a") ⟨#['a'], 1, by decide⟩) ∧
    (usual.call shallow 6 (.start #['a']) menu).2.caused = [.mapped "letter" (.text "a")] ∧
    ∃ f, (usual.call shallow 6 (.start #['x']) menu).1 = .done (.failure f) ∧
      (usual.call shallow 7 (.start #['x']) menu).1 = .done (.failure f) := by
  have moves : usual.Moves Store.Ages := Store.aging.standard Operator.apply nestingLevels
  have at_5 : menu.grammar.Holds 5 (.choice 4 [3]) := ⟨_, rfl, rfl⟩
  have at_6 : menu.grammar.Holds 6 (.choice 1 [2, 3]) := ⟨_, rfl, rfl⟩
  have at_7 : menu.grammar.Holds 7 (.choice 3 [1, 2, 1]) := ⟨_, rfl, rfl⟩
  have bracketed := fun c => (call_bracketed usual moves).2.2 menu menuBracket 5 6 4 1 [3] [2, 3]
    (.inr rfl) at_5 at_6 menu_unfolds shallow c
  have read : (usual.call shallow 5 (.start #['a']) menu).1 =
      .done (.success (.text "a") ⟨#['a'], 1, by decide⟩) := by cbv
  have caused : (usual.call shallow 5 (.start #['a']) menu).2.caused =
      [.mapped "letter" (.text "a")] := by cbv
  obtain ⟨same, _, _, caused', _, _⟩ := (bracketed (.start #['a'])).same (unrefused_of_done read)
    (by rw [read]; exact not_brokenOff_done _ _ _)
  have failing : ∀ i ∈ [1, 2, 3], ∃ f,
      (usual.call ⟨shallow.config, ⟨8, 1⟩⟩ i (.start #['x']) menu).1 = .done (.failure f) := by
    intro i mem
    fin_cases mem
    · exact ⟨⟨.singleton "a", 0⟩, by cbv⟩
    · exact ⟨⟨.singleton "b", 0⟩, by cbv⟩
    · exact ⟨⟨.singleton "c", 0⟩, by cbv⟩
  obtain ⟨f, reordered⟩ :=
    (bracketed (.start #['x'])).reordered ⟨8, 1⟩ rfl menu_steady failing
  exact ⟨moves, .inr rfl, at_5, at_6, menu_unfolds, read, same.trans read, caused'.trans caused, f,
    reordered 6 1 [2, 3] at_6 fun _ => Iff.rfl, reordered 7 3 [1, 2, 1] at_7 fun i => by
      simp only [List.mem_cons, List.not_mem_nil]
      tauto⟩

def capped : Store where
  grammar := ⟨#[{ status := .defined ⟨0, .literal "a"⟩ }, { status := .defined ⟨1, .literal "b"⟩ },
    { status := .defined ⟨2, .apply 1 (.acts [])⟩ },
    { status := .defined ⟨3, .sequence .list [(0, some (reluctant "x")), (2, none)]⟩ },
    { status := .defined ⟨4, .literal "c"⟩ }, { status := .defined ⟨5, .literal "d"⟩ },
    { status := .defined ⟨6, .choice 3 [4]⟩ }, { status := .defined ⟨7, .choice 6 [5]⟩ },
    { status := .defined ⟨8, .choice 3 [4, 5]⟩ }]⟩

def withdrawn : Store where
  grammar := ⟨#[{ status := .defined ⟨0, .pure .null⟩ },
    { status := .defined ⟨1, .apply 0 (.acts [.delete "others"])⟩ },
    { status := .defined ⟨2, .fail "more"⟩ },
    { status := .defined ⟨3, .sequence .list [(1, none), (2, none)]⟩ },
    { name := "first", status := .defined ⟨4, .literal "a"⟩ },
    { status := .defined ⟨5, .literal "b"⟩ }, { status := .defined ⟨6, .choice 4 [5]⟩ },
    { status := .defined ⟨7, .choice 3 [6]⟩ }, { status := .defined ⟨8, .choice 3 [4, 5]⟩ }]⟩
  registers := [("others", 6)]

/-- With room for four, the brackets leave no room for the second letter, and the release has the
fault of the guard forgotten; neither run ends with it. Where the brackets are deleted before they
are tried, it is they that are found missing, and not what stands in them. And a traced run writes
of the brackets too. -/
theorem brackets_apart :
    (usual.call (.fresh ⟨4, false, "", by decide⟩) 7 (.start #['a', 'b']) capped).1 =
      .raised (.requested "x") ∧
    (usual.call (.fresh ⟨4, false, "", by decide⟩) 8 (.start #['a', 'b']) capped).1 =
      .done (.success (.list [.text "a", .text "b"]) ⟨#['a', 'b'], 2, by decide⟩) ∧
    (usual.call shallow 7 (.start #['a']) withdrawn).1 = .raised (.deleted "Parser(<deleted>)") ∧
    (usual.call shallow 8 (.start #['a']) withdrawn).1 = .raised (.deleted "first") ∧
    (usual.call (.fresh ⟨8, true, "", by decide⟩) 5 (.start #['b']) menu).2.events.length = 10 ∧
    (usual.call (.fresh ⟨8, true, "", by decide⟩) 6 (.start #['b']) menu).2.events.length = 8 :=
  ⟨by cbv, by cbv, by cbv, by cbv, by cbv, by cbv⟩

end Meaning

end Peg
