import Mathlib
import Peg.Proofs.Relabelling.Blind

/-!
Labels and runs. Two runs on grammars that are equal but for labels go the same way, and only what
their failures expected may differ: no branch depends on what a failure expected, and whether a
label takes its place depends on where the failure is.
-/

namespace Peg

namespace Run

theorem bare_record (s : Run) (e : Entry) : (s.record e).bare = s.bare.record e.bare := rfl

theorem bare_opened (s : Run) (trace : Bool) (h : HandleId) (node : Node) (c : Cursor) (g : Guard) :
    (s.opened trace h node c g).bare = s.bare.opened trace h node.bare c g := by
  have handle : (s.store.grammar.get h).bare = s.bare.store.grammar.get h :=
    (Grammar.get_bare _ h).symm
  cases trace with
  | false => rfl
  | true => exact congrArg (fun handle => Run.mk _ _ (.logged (.trying handle c.pos) :: _)) handle

theorem bare_closed (s : Run) (trace : Bool) (h : HandleId) (c : Cursor) (ending : Ending Result) :
    (s.closed trace h c ending).bare = s.bare.closed trace h c (ending.map Result.bare) := by
  have handle : s.bare.store.grammar.get h = (s.store.grammar.get h).bare := Grammar.get_bare _ h
  cases trace with
  | false => rcases ending with (_ | _) | _ | _ <;> rfl
  | true =>
    rcases ending with (_ | _) | _ | _
    · simp only [closed, Ending.map, Result.bare, handle]
      rfl
    · simp only [closed, Ending.map, Result.bare, handle]
      rfl
    · rfl
    · rfl

theorem events_bare (s : Run) : s.bare.events = s.events.map Event.bare := by
  have entry (e : Entry) : e.bare.events = e.events.map Event.bare := by cases e <;> rfl
  simp only [events, bare, ← List.map_reverse, List.flatMap_map, List.map_flatMap, entry]

variable {s t : Run}

theorem get_of_bare (same : t.bare = s.bare) (h : HandleId) :
    (t.store.grammar.get h).bare = (s.store.grammar.get h).bare := by
  rw [← Grammar.get_bare, ← Grammar.get_bare]
  exact congrArg (fun r : Run => r.store.grammar.get h) same

theorem guard_of_bare (same : t.bare = s.bare) : t.guard = s.guard := by
  change t.bare.guard = s.bare.guard
  rw [same]

end Run

def relabelling (among : Callbacks) : Pairing where
  handle := Eq
  label _ _ := True
  cursor := Eq
  failure f f' := f'.position = f.position
  run s t := t.bare = s.bare ∧ s.store.grammar.Calls among fun _ => True
  among := among

section

variable {among : Callbacks}

theorem bare_of_relabelling {ending ending' : Ending Result}
    (alike : (relabelling among).Endings ending ending') :
    ending'.map Result.bare = ending.map Result.bare := by
  cases alike with
  | done results =>
    cases results with
    | success next =>
      cases next
      rfl
    | failure failure =>
      exact congrArg (fun pos => Ending.done (Result.failure ⟨.empty, pos⟩)) failure
  | raised | aborted => rfl

theorem agrees_relabelling : (relabelling among).Agrees where
  leaf nodes cursor leaf := by
    cases cursor
    cases leaf with
    | read | pure | ended =>
      cases nodes
      refine ⟨_, ?_, .success rfl⟩
      constructor <;> assumption
    | fail =>
      cases nodes
      exact ⟨_, .fail, .failure rfl⟩
    | unread | unended =>
      cases nodes
      refine ⟨_, ?_, .failure rfl⟩
      constructor
      assumption
  still cursor cursor' := by
    cases cursor
    cases cursor'
    rfl
  unmoved cursor failure := by
    cases cursor
    rw [show _ = _ from failure]
  merge failure failure' := congrArg₂ max failure failure'
  labelled cursor _ := by
    cases cursor
    rfl

theorem callback_relabelling {α : Type} {entry : Ending α → List Event → Int → Entry}
    (bare : ∀ ending events depth, (entry ending events depth).bare =
      entry ending (events.map Event.bare) depth)
    {work : Callback α} (blind : work.Blind among) {s t s' : Run} {ending : Ending α}
    (run : (relabelling among).run s t) (h : Run.callback entry work s = (ending, s')) :
    ∃ t', Run.callback entry work t = (ending, t') ∧ (relabelling among).run s' t' := by
  obtain ⟨same, calls⟩ := run
  have store : t.store.bare = s.store.bare := congrArg Run.store same
  have journal : t.journal.map Entry.bare = s.journal.map Entry.bare := congrArg Run.journal same
  have left : Run.bare { t with store := (work t.store).store } =
      Run.bare { s with store := (work s.store).store } := by
    simp only [Run.bare, blind.store store, Run.guard_of_bare same, journal]
  have entered : (entry (work t.store).ending (work t.store).events t.guard.depth).bare =
      (entry (work s.store).ending (work s.store).events s.guard.depth).bare := by
    rw [bare, bare, blind.ending store, blind.events store, Run.guard_of_bare same]
  cases h
  exact ⟨_, Prod.ext (blind.ending store) rfl, congrArg₂ Run.record left entered,
    blind.calls calls⟩

theorem simulates_relabelling {m : Meaning} (blind : m.Blind among) (trace : Bool) :
    (relabelling among).Simulates m m trace trace fun _ => True where
  toAgrees := agrees_relabelling
  before _ _ := trivial
  missing := by
    rintro s t h _ fault ⟨same, calls⟩ rfl missing
    refine ⟨?_, ?_, calls⟩
    · rw [← Handle.fault?_bare, Run.get_of_bare same, Handle.fault?_bare]
      exact missing
    · rw [Run.bare_record, Run.bare_record, same, Run.guard_of_bare same]
  found := by
    rintro s t h _ body ⟨same, calls⟩ rfl status
    have there : (t.store.grammar.get h).status.bare = .defined body.bare := by
      rw [← Handle.status_bare, Run.get_of_bare same, Handle.status_bare, status]
      rfl
    rcases found : (t.store.grammar.get h).status with _ | body' | _ <;> rw [found] at there
    · cases there
    · have bodies : body'.bare = body.bare := Status.defined.inj there
      exact ⟨body', rfl, Node.alike_iff_bare.mpr (congrArg Body.node bodies),
        calls h body trivial status⟩
    · cases there
  refused := by
    rintro s t h _ c _ fault ⟨same, calls⟩ rfl rfl enter _
    refine ⟨Run.guard_of_bare same ▸ enter, ?_, calls⟩
    rw [Run.bare_record, Run.bare_record, same, Run.guard_of_bare same]
  opened := by
    rintro s t h _ node node' c _ g ⟨same, calls⟩ rfl nodes rfl enter
    refine ⟨g, Run.guard_of_bare same ▸ enter, ?_, by rwa [Run.store_opened]⟩
    rw [Run.bare_opened, Run.bare_opened, same, Node.alike_iff_bare.mp nodes]
  closed := by
    rintro s t h _ c _ ending ending' ⟨same, calls⟩ rfl rfl alike
    refine ⟨?_, by rwa [Run.store_closed]⟩
    rw [Run.bare_closed, Run.bare_closed, same, bare_of_relabelling alike]
  release mem run work _ :=
    callback_relabelling (fun _ _ _ => rfl) (blind.release _ mem _) run work
  fold mem run work _ := callback_relabelling (fun _ _ _ => rfl) (blind.fold _ mem _) run work
  apply mem run work _ := callback_relabelling (fun _ _ _ => rfl) (blind.apply _ mem _) run work

end

/-- What came of two runs is equal but for labels: they end alike, with one value at one place, or
with failures at one place, or early for the same reason. They called the same handles in the same
order, the same events are seen of them, and they leave the same handles. A failure may expect
something else, and a handle may have other labels, also where it stands in a record of the log. -/
structure Relabelled (out out' : Ending Result × Run) : Prop where
  ending : out'.1.map Result.bare = out.1.map Result.bare
  journal : out'.2.journal.map Entry.bare = out.2.journal.map Entry.bare
  events : out'.2.events.map Event.bare = out.2.events.map Event.bare
  store : out'.2.store.bare = out.2.store.bare
  guard : out'.2.guard = out.2.guard

namespace Meaning

theorem call_of_blind {m : Meaning} {among : Callbacks} (blind : m.Blind among) (ctx : Context)
    (h : HandleId) (c : Cursor) {s t : Store} (same : t.bare = s.bare)
    (calls : s.grammar.Calls among fun _ => True) :
    Relabelled (m.call ctx h c s) (m.call ctx h c t) := by
  obtain ⟨alike, run, _⟩ := (simulates_relabelling blind ctx.config.trace).call ctx ctx h h c c s t
    rfl rfl rfl rfl ⟨congrArg (Run.mk · ctx.guard []) same, calls⟩ trivial
  refine ⟨bare_of_relabelling alike, congrArg Run.journal run, ?_, congrArg Run.store run,
    Run.guard_of_bare run⟩
  rw [← Run.events_bare, ← Run.events_bare]
  exact congrArg Run.events run

/-- Labels never influence a run: where grammars are equal but for labels, so are runs whose
callbacks do not look at them. The standard callbacks do not, unless they parse. -/
theorem call_relabelled (ctx : Context) (h : HandleId) (c : Cursor) {s t : Store}
    (same : t.bare = s.bare) :
    (∀ (m : Meaning) (among : Callbacks), m.Blind among → (s.grammar.Calls among fun _ => True) →
      Relabelled (m.call ctx h c s) (m.call ctx h c t)) ∧
    ∀ compute levels, (s.grammar.Calls .plain fun _ => True) →
      Relabelled ((standard compute levels).call ctx h c s)
        ((standard compute levels).call ctx h c t) :=
  ⟨fun _ _ blind => call_of_blind blind ctx h c same,
    fun compute levels => call_of_blind (standard_blind compute levels) ctx h c same⟩

def signpost (label message : String) : Store where
  grammar := ⟨#[{ status := .defined ⟨0, .literal "a"⟩ },
    { status := .defined ⟨1, .expect 0 label⟩ }, { status := .defined ⟨2, .fail message⟩ },
    { status := .defined ⟨3, .choice 1 [2]⟩ },
    { status := .defined ⟨4, .sequence .list
      [(0, some (.logged "letter" [] (.fault ""))), (3, none)]⟩ }]⟩

theorem signpost_bare (label message : String) :
    (signpost label message).bare = signpost "" "" := by
  simp [Store.bare, Grammar.bare, signpost, Handle.bare, Status.bare, Body.bare, Node.bare]

theorem signpost_plain (label message : String) :
    (signpost label message).grammar.Calls .plain fun _ => True := by
  intro h body _ status
  rcases h with _ | _ | _ | _ | _ | h
  · cases status
    trivial
  · cases status
    trivial
  · cases status
    trivial
  · cases status
    trivial
  · cases status
    exact ⟨trivial, fun _ _ _ _ => trivial⟩
  · rw [Grammar.get_of_size_le (by simp [signpost, Grammar.size])] at status
    cases status

def signpostRun (label message : String) : Ending Result × Run :=
  usual.call shallow 4 (.start #['a', '!']) (signpost label message)

theorem signpost_relabelled :
    (signpost "vowel" "no more").bare = (signpost "a" "stop").bare ∧
    (signpost "a" "stop").grammar.Calls .plain (fun _ => True) ∧
    (signpostRun "a" "stop").1 = .done (.failure ⟨.ofList ["a", "stop"], 1⟩) ∧
    (signpostRun "vowel" "no more").1.map Result.bare = .done (.failure ⟨.empty, 1⟩) ∧
    (signpostRun "vowel" "no more").2.events.map Event.bare = [.released "letter" (.text "a")] := by
  have plain := signpost_plain "a" "stop"
  have same : (signpost "vowel" "no more").bare = (signpost "a" "stop").bare := by
    rw [signpost_bare, signpost_bare]
  have ending : (signpostRun "a" "stop").1 = .done (.failure ⟨.ofList ["a", "stop"], 1⟩) := by cbv
  have events : (signpostRun "a" "stop").2.events = [.released "letter" (.text "a")] := by cbv
  have relabelled := (call_relabelled shallow 4 (.start #['a', '!']) same).2 Operator.apply
    nestingLevels plain
  refine ⟨same, plain, ending, relabelled.ending.trans ?_, relabelled.events.trans ?_⟩
  · exact congrArg (Ending.map Result.bare) ending
  · exact congrArg (List.map Event.bare) events

end Meaning

end Peg
