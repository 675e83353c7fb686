import Peg.Callback.Standard
import Peg.Proofs.Nesting.Pure
import Peg.Proofs.Run.Stores
import Peg.Proofs.Walk.Preorder

/-!
Runs inside a run. A function of a run may parse a text of its own, by a handle that the run is at
work on or by another, before it returns its argument. The run inside has a guard and a journal of
its own. So the run around it goes as if the function had returned its argument straight away, and
what the run inside comes to is what it would come to by itself.
-/

namespace Peg

namespace Meaning

/-- What a function does that parses texts by the way, one after another, and returns its
argument. -/
def asides (n : Meaning) (v : Value) : List (HandleId × String) → Action Value
  | [] => return v
  | (q, text) :: rest => do
    Action.note (.nested (← n.parse q text Config.standard))
    n.asides v rest

def muted (m : Meaning) (mute : Func → Bool) : Meaning :=
  { m with apply := fun f v => if mute f then fun s => ⟨.done v, s, []⟩ else m.apply f v }

/-- In a store, a function that is called with `v` parses texts by the way, with the callbacks of
`n`: those of the handles are pure, and each parse comes to a result. -/
structure Detour (m n : Meaning) (f : Func) (v : Value) (errands : List (HandleId × String))
    (s : Store) : Prop where
  aside : m.apply f v s = (n.asides v errands).callback s
  pure : ∀ e ∈ errands, s.grammar.Calls (n.pureIn s) (s.grammar.Reachable [e.1])
  comes : ∀ e ∈ errands, ∃ r, (n.parse e.1 e.2 Config.standard ⟨s, []⟩).1 = .done r

/-- Wherever some functions were applied in a run that began with a store, they parsed texts by the
way. -/
def Detours (m n : Meaning) (mute : Func → Bool) (start : Store) : List Entry → Prop :=
  Along fun e before => ∀ f v ending events depth, e = .applied f v ending events depth →
    mute f = true → ∃ errands, m.Detour n f v errands (m.storeAfter start before)

theorem Detours.other {m n : Meaning} {mute : Func → Bool} {start : Store} {e : Entry}
    {journal : List Entry} (detours : m.Detours n mute start journal) (other : ¬ e.IsCallback) :
    m.Detours n mute start (e :: journal) :=
  Along.cons detours fun _ _ _ _ _ eq _ => absurd (eq ▸ trivial) other

/-- The events of parses one after another: for each of them those that the same parse causes by
itself wherever the handles are those of the store, and then its result, which is the one that the
same parse comes to there. -/
inductive Reports (n : Meaning) (s : Store) : List (HandleId × String) → List Event → Prop where
  | none : Reports n s [] []
  | next {q : HandleId} {text : String} {rest : List (HandleId × String)} {told events : List Event}
      {r : Result} :
      (∀ w : World, s.SameHandles w.store →
        n.parse q text Config.standard w = (.done r, ⟨w.store, told.reverse ++ w.events⟩)) →
      Reports n s rest events → Reports n s ((q, text) :: rest) (told ++ .nested r :: events)

theorem asides_pure {n : Meaning} {s : Store} (v : Value) {errands : List (HandleId × String)}
    (pure : ∀ e ∈ errands, s.grammar.Calls (n.pureIn s) (s.grammar.Reachable [e.1]))
    (comes : ∀ e ∈ errands, ∃ r, (n.parse e.1 e.2 Config.standard ⟨s, []⟩).1 = .done r) :
    ∃ events, n.Reports s errands events ∧ ∀ w : World, s.SameHandles w.store →
      n.asides v errands w = (.done v, ⟨w.store, events.reverse ++ w.events⟩) := by
  induction errands with
  | nil => exact ⟨[], .none, fun _ _ => rfl⟩
  | cons errand errands ih =>
    obtain ⟨q, text⟩ := errand
    obtain ⟨pure_here, pure⟩ := List.forall_mem_cons.mp pure
    obtain ⟨⟨r, comes_here⟩, comes⟩ := List.forall_mem_cons.mp comes
    obtain ⟨events, reports, does⟩ := ih pure comes
    obtain ⟨ending, told, parses⟩ := parse_pure pure_here text Config.standard
    obtain rfl : ending = .done r := by
      rw [parses ⟨s, []⟩ (.refl s)] at comes_here
      exact comes_here
    refine ⟨told.reverse ++ .nested r :: events, .next (fun w handles => ?_) reports,
      fun w handles => ?_⟩
    · rw [List.reverse_reverse]
      exact parses w handles
    · have rest := does ⟨w.store, .nested r :: (told ++ w.events)⟩ handles
      simp only [asides, Proc.bind_eq]
      rw [Proc.andThen_done (parses w handles)]
      exact rest.trans (by simp)

theorem Detour.eq {m n : Meaning} {f : Func} {v : Value} {errands : List (HandleId × String)}
    {s : Store} (detour : m.Detour n f v errands s) :
    ∃ events, n.Reports s errands events ∧ m.apply f v s = ⟨.done v, s, events⟩ := by
  obtain ⟨events, reports, does⟩ := asides_pure v detour.pure detour.comes
  refine ⟨events, reports, ?_⟩
  rw [detour.aside, Action.callback, does ⟨s, []⟩ (.refl s)]
  simp

end Meaning

def Entry.muted (mute : Func → Bool) : Entry → Entry
  | .applied f v ending events depth =>
    .applied f v ending (if mute f then [] else events) depth
  | e => e

def Run.muted (mute : Func → Bool) (s : Run) : Run :=
  { s with journal := s.journal.map (Entry.muted mute) }

namespace Run

variable (mute : Func → Bool) (s : Run)

theorem muted_opened (trace : Bool) (h : HandleId) (node : Node) (c : Cursor) (g : Guard) :
    (s.opened trace h node c g).muted mute = (s.muted mute).opened trace h node c g := by
  cases trace <;> rfl

theorem muted_closed (trace : Bool) (h : HandleId) (c : Cursor) (ending : Ending Result) :
    (s.closed trace h c ending).muted mute = (s.muted mute).closed trace h c ending := by
  rcases trace with _ | _ <;> rcases ending with (_ | _) | _ | _ <;> rfl

end Run

namespace Meaning

theorem runApply_muted {m n : Meaning} {mute : Func → Bool} {start : Store} {f : Func} {v : Value}
    {s s' : Run} {ending : Ending Value} (faithful : s.Faithful m start)
    (work : m.runApply f v s = (ending, s')) (detours : m.Detours n mute start s'.journal) :
    (m.muted mute).runApply f v (s.muted mute) = (ending, s'.muted mute) := by
  cases work
  by_cases muted : mute f = true
  · obtain ⟨errands, detour⟩ := detours.head f v _ _ _ rfl muted
    rw [← faithful.store] at detour
    obtain ⟨_, _, does⟩ := detour.eq
    simp [runApply, Run.callback, Meaning.muted, Run.muted, Run.record, Entry.muted, muted, does]
  · simp [runApply, Run.callback, Meaning.muted, Run.muted, Run.record, Entry.muted, muted]

theorem views_muted (m n : Meaning) (mute : Func → Bool) (start : Store) (trace : Bool) :
    Views m (m.muted mute) trace trace (m.Detours n mute start) (Run.Faithful m start)
      (Run.muted mute) where
  before earlier detours := detours.suffix earlier
  store _ := rfl
  missing _ _ faithful := ⟨faithful.record _ id, rfl⟩
  refused _ _ _ faithful enter _ := ⟨enter, faithful.record _ id, rfl⟩
  opened _ _ _ _ faithful enter := ⟨_, enter, faithful.opened .., Run.muted_opened ..⟩
  closed _ _ _ faithful := ⟨faithful.closed .., Run.muted_closed ..⟩
  release faithful work _ := by
    cases work
    exact ⟨rfl, faithful.callback rfl ⟨rfl, rfl⟩⟩
  fold faithful work _ := by
    cases work
    exact ⟨rfl, faithful.callback rfl ⟨rfl, rfl⟩⟩
  apply faithful work detours := by
    refine ⟨runApply_muted faithful work detours, ?_⟩
    cases work
    exact faithful.callback rfl ⟨rfl, rfl⟩

/-- Main result. A run in which some functions parse texts by the way, at whatever depth, goes as
it would go if they returned their argument straight away: it comes to the same end with the same
store and the same journal, but for the events that these functions caused. And wherever in a run a
function parses texts by the way, it returns its argument, and the events that it causes tell what
the same parses come to by themselves, wherever the handles are as they were then. -/
theorem call_isolated (m n : Meaning) (mute : Func → Bool) (ctx : Context) (h : HandleId)
    (c : Cursor) (s : Store) :
    (m.Detours n mute s (m.call ctx h c s).2.journal →
      ((m.muted mute).call ctx h c s).1 = (m.call ctx h c s).1 ∧
      ((m.muted mute).call ctx h c s).2 = (m.call ctx h c s).2.muted mute ∧
      ((m.muted mute).call ctx h c s).2.store = (m.call ctx h c s).2.store) ∧
    Along (fun e before => ∀ f v ending events depth errands,
        e = .applied f v ending events depth → m.Detour n f v errands (m.storeAfter s before) →
      ending = .done v ∧ n.Reports (m.storeAfter s before) errands events)
      (m.call ctx h c s).2.journal := by
  have begins : Run.Faithful m s ⟨s, ctx.guard, []⟩ := ⟨rfl, along_nil _⟩
  constructor
  · intro detours
    have shown := (views_muted m n mute s ctx.config.trace).call rfl rfl h c begins rfl detours
    rw [shown]
    exact ⟨rfl, rfl, rfl⟩
  · rintro after e before split f v ending events depth errands rfl detour
    have faithful := (spans_faithful m ctx.config.trace s).ran (ran_call ctx h c s) begins
    obtain ⟨at_ending, at_events⟩ := faithful.along after _ before split
    obtain ⟨caused, reports, does⟩ := detour.eq
    rw [does] at at_ending at_events
    exact ⟨at_ending.symm, at_events ▸ reports⟩

theorem standard_aside (compute : Standard.Calculation) (levels : Nat) {s : Store} {id : String}
    {q : HandleId} (named : s.registers.lookup id = some q) (text : String) (v : Value) :
    (standard compute (levels + 1)).apply (.acts [.parse id text]) v s =
      ((standard compute levels).asides v [(q, text)]).callback s := by
  have register : Action.register id ⟨s, []⟩ = (.done q, ⟨s, []⟩) := by
    simp only [Action.register, named]
  change Action.callback (Proc.andThen (Action.register id) fun h => Proc.andThen
    ((standard compute levels).parse h text Config.standard) fun r =>
      Proc.andThen (Action.note (.nested r)) fun _ => Proc.done v) s = _
  simp only [Action.callback, Proc.andThen_done register]
  rfl

def fetch : Func := .acts [.parse "pair" "aa"]

def errand : Store where
  grammar := ⟨#[{ status := .defined ⟨0, .literal "a"⟩ },
    { status := .defined ⟨1, .apply 0 fetch⟩ },
    { status := .defined ⟨2, .sequence .list [(0, none), (0, none)]⟩ },
    { status := .defined ⟨3, .expect 2 "pair"⟩ }, { status := .defined ⟨4, .choice 3 [0]⟩ }]⟩
  registers := [("pair", 4)]

theorem errand_parsed : ((standard Operator.apply 0).parse 4 "aa" Config.standard ⟨errand, []⟩).1 =
    .done (.success (.list [.text "a", .text "a"]) ⟨#['a', 'a'], 2, by decide⟩) := rfl

theorem errand_pure : errand.grammar.Calls ((standard Operator.apply 0).pureIn errand)
    (errand.grammar.Reachable [4]) := by
  intro h body reachable status
  -- The handles that can be reached are those that a walk comes to, and there are four of them.
  have met : h ∈ errand.grammar.walk [4] :=
    (errand.grammar.explores_walk [4]).mem_iff.mpr reachable
  have walk : errand.grammar.walk [4] = [4, 3, 2, 0] := by decide
  simp only [walk, List.mem_cons, List.not_mem_nil, or_false] at met
  rcases met with rfl | rfl | rfl | rfl <;> cases status
  · trivial
  · trivial
  · refine ⟨fun vs => (Action.PureIn.done _).callback, fun item mem r release => ?_⟩
    simp only [List.mem_cons, List.not_mem_nil, or_false, or_self] at mem
    subst mem
    cases release
  · trivial

theorem errand_detour (v : Value) : (standard Operator.apply 1).Detour (standard Operator.apply 0)
    fetch v [(4, "aa")] errand where
  aside := standard_aside Operator.apply 0 rfl "aa" v
  pure := by
    rintro e mem
    obtain rfl := List.mem_singleton.mp mem
    exact errand_pure
  comes := by
    rintro e mem
    obtain rfl := List.mem_singleton.mp mem
    exact ⟨_, errand_parsed⟩

def fetches : Func → Bool
  | .acts [.parse _ _] => true
  | _ => false

def errandRun (m : Meaning) : Ending Result × Run := m.call tight 1 (.start #['a']) errand

theorem errandRun_eq {m : Meaning} {events : List Event}
    (work : m.apply fetch (.text "a") errand = ⟨.done (.text "a"), errand, events⟩) :
    let letter := .done (.success (.text "a") ⟨#['a'], 1, by decide⟩)
    (errandRun m).1 = letter ∧
    (errandRun m).2.journal = [.left 1 letter 0,
      .applied fetch (.text "a") (.done (.text "a")) events 1, .left 0 letter 1,
      .entered 0 (.literal "a") 0 2, .entered 1 (.apply 0 fetch) 0 1] := by
  intro letter
  let start : Run := ⟨errand, ⟨2, 0⟩, []⟩
  let within := start.opened false 1 (.apply 0 fetch) (.start #['a']) ⟨2, 1⟩
  let read := (within.opened false 0 (.literal "a") (.start #['a']) ⟨2, 2⟩).closed false 0
    (.start #['a']) letter
  have literal : (errand.grammar.get 0).status = .defined ⟨0, .literal "a"⟩ := rfl
  have apply : (errand.grammar.get 1).status = .defined ⟨1, .apply 0 fetch⟩ := rfl
  have inner : m.Ran false (.call 0) (.start #['a']) within letter read :=
    .entered literal rfl (.leaf (.read (by decide) rfl rfl))
  have applied : m.runApply fetch (.text "a") read = (.done (.text "a"),
      read.record (.applied fetch (.text "a") (.done (.text "a")) events 1)) := by
    have store : read.store = errand := rfl
    simp only [runApply, Run.callback, store, work]
    rfl
  have outer : m.Ran false (.call 1) (.start #['a']) start letter _ :=
    .entered apply rfl (.applied inner applied)
  obtain ⟨ending, run⟩ := (ran_call tight 1 (.start #['a']) errand).unique outer
  exact ⟨ending, congrArg Run.journal run⟩

theorem errand_detours : (standard Operator.apply 1).Detours (standard Operator.apply 0)
    fetches errand (errandRun (standard Operator.apply 1)).2.journal := by
  obtain ⟨_, _, does⟩ := (errand_detour (.text "a")).eq
  rw [(errandRun_eq does).2]
  have before : (standard Operator.apply 1).Detours (standard Operator.apply 0) fetches errand
      [.left 0 (.done (.success (.text "a") ⟨#['a'], 1, by decide⟩)) 1,
        .entered 0 (.literal "a") 0 2, .entered 1 (.apply 0 fetch) 0 1] :=
    .other (.other (.other (along_nil _) id) id) id
  refine .other (Along.cons before ?_) id
  intro f v ending events depth eq _
  cases eq
  exact ⟨[(4, "aa")], errand_detour (.text "a")⟩

theorem errand_isolated :
    (standard Operator.apply 1).Detours (standard Operator.apply 0) fetches errand
      (errandRun (standard Operator.apply 1)).2.journal ∧
    (errandRun ((standard Operator.apply 1).muted fetches)).1 =
      (errandRun (standard Operator.apply 1)).1 ∧
    (errandRun ((standard Operator.apply 1).muted fetches)).1 =
      .done (.success (.text "a") ⟨#['a'], 1, by decide⟩) ∧
    (errandRun ((standard Operator.apply 1).muted fetches)).2.events = [] ∧
    .nested (.success (.list [.text "a", .text "a"]) ⟨#['a', 'a'], 2, by decide⟩) ∈
      (errandRun (standard Operator.apply 1)).2.events := by
  have ⟨isolated, results⟩ := call_isolated (standard Operator.apply 1) (standard Operator.apply 0)
    fetches tight 1 (.start #['a']) errand
  rw [← errandRun, ← errandRun] at isolated
  rw [← errandRun] at results
  have mute : ((standard Operator.apply 1).muted fetches).apply fetch (.text "a") errand =
      ⟨.done (.text "a"), errand, []⟩ := rfl
  have ⟨muted, mutedJournal⟩ := errandRun_eq mute
  refine ⟨errand_detours, (isolated errand_detours).1, muted, ?_, ?_⟩
  · rw [Run.events, mutedJournal]
    rfl
  · obtain ⟨events, _, does⟩ := (errand_detour (.text "a")).eq
    have journal := (errandRun_eq does).2
    rw [journal] at results
    have ⟨_, reports⟩ := (results.suffix ⟨[_], rfl⟩).head fetch (.text "a") _ _ _ _ rfl
      (errand_detour (.text "a"))
    rw [Run.events, journal]
    cases reports with
    | next alone rest =>
      have parsed := congrArg Prod.fst (alone ⟨errand, []⟩ (.refl errand))
      obtain rfl := Ending.done.inj (errand_parsed.symm.trans parsed)
      simp [Entry.events]

end Meaning

end Peg
