import Peg.Proofs.Run.Simulation
import Peg.Proofs.Teardown.Reachable

namespace Peg

structure Store.SameHandles (s t : Store) : Prop where
  grammar : t.grammar = s.grammar
  registers : t.registers = s.registers

theorem Store.SameHandles.refl (s : Store) : s.SameHandles s := ⟨rfl, rfl⟩

/-- A callback that does one thing wherever the handles are those of a store. -/
def Callback.PureIn (s : Store) {α : Type} (work : Callback α) : Prop :=
  ∃ ending events, ∀ t, s.SameHandles t → work t = ⟨ending, t, events⟩

def Action.PureIn (s : Store) {α : Type} (p : Action α) : Prop :=
  ∃ ending told, ∀ w : World, s.SameHandles w.store → p w = (ending, ⟨w.store, told ++ w.events⟩)

def Meaning.pureIn (m : Meaning) (s : Store) : Callbacks where
  release r := ∀ v, (m.release r v).PureIn s
  fold f := ∀ vs, (m.fold f vs).PureIn s
  func f := ∀ v, (m.apply f v).PureIn s

namespace Action.PureIn

variable {s : Store} {α β : Type}

theorem done (a : α) : PureIn s (Proc.done a) := ⟨.done a, [], fun _ _ => rfl⟩

theorem read {f : Store → α} (same : ∀ t, s.SameHandles t → f t = f s) :
    PureIn s (Action.read f) := by
  refine ⟨.done (f s), [], fun w handles => ?_⟩
  rw [← same w.store handles]
  rfl

theorem note (e : Event) : PureIn s (Action.note e) := ⟨.done (), [e], fun _ _ => rfl⟩

theorem andThen {p : Action α} {f : α → Action β} (hp : p.PureIn s) (hf : ∀ a, (f a).PureIn s) :
    PureIn s (Proc.andThen p f) := by
  obtain ⟨ending, told, hp⟩ := hp
  rcases ending with a | fault | message
  · obtain ⟨ending', told', hf⟩ := hf a
    refine ⟨ending', told' ++ told, fun w handles => ?_⟩
    rw [Proc.andThen_done (hp w handles), List.append_assoc]
    exact hf ⟨w.store, told ++ w.events⟩ handles
  · exact ⟨.raised fault, told, fun w handles => Proc.andThen_raised (hp w handles)⟩
  · exact ⟨.aborted message, told, fun w handles => Proc.andThen_aborted (hp w handles)⟩

theorem callback {p : Action α} (pure : p.PureIn s) : p.callback.PureIn s := by
  obtain ⟨ending, told, does⟩ := pure
  refine ⟨ending, told.reverse, fun t handles => ?_⟩
  simp only [Action.callback, does ⟨t, []⟩ handles, List.append_nil]

end Action.PureIn

def sidelong (m : Meaning) (q : HandleId) (s t : Store) : Pairing :=
  .same (fun h k => h = k ∧ s.grammar.Reachable [q] h) (m.pureIn s) fun run run' =>
    run.store = s ∧ run' = { run with store := t }

section

variable {m : Meaning} {q : HandleId} {s t : Store}

theorem callback_sidelong {α : Type} {entry : Ending α → List Event → Int → Entry}
    {work : Callback α} (pure : work.PureIn s) (handles : s.SameHandles t) {run run' out : Run}
    {ending : Ending α} (pair : (sidelong m q s t).run run run')
    (h : Run.callback entry work run = (ending, out)) :
    ∃ out', Run.callback entry work run' = (ending, out') ∧ (sidelong m q s t).run out out' := by
  obtain ⟨store, rfl⟩ := pair
  obtain ⟨ending', events, does⟩ := pure
  have here := does s (.refl s)
  have there := does t handles
  simp only [Run.callback, store, here] at h
  cases h
  simp only [Run.callback, there]
  exact ⟨_, rfl, rfl, rfl⟩

theorem simulates_sidelong (handles : s.SameHandles t)
    (pure : s.grammar.Calls (m.pureIn s) (s.grammar.Reachable [q])) (trace : Bool) :
    (sidelong m q s t).Simulates m m trace trace fun _ => True where
  toAgrees := Pairing.agrees_same
  before _ _ := trivial
  missing := by
    rintro run _ h _ fault ⟨store, rfl⟩ ⟨rfl, _⟩ missing
    refine ⟨?_, store, rfl⟩
    rw [handles.grammar, ← store]
    exact missing
  found := by
    rintro run _ h _ body ⟨store, rfl⟩ ⟨rfl, reachable⟩ status
    rw [store] at status
    have children : (s.grammar.get h).children = body.node.children := by
      simp only [Handle.children, Handle.body?, status]
    refine ⟨body, handles.grammar ▸ status, Node.alike_refl (fun k mem => ?_) fun _ => rfl,
      pure h body reachable status⟩
    exact ⟨rfl, reachable.child (children ▸ mem)⟩
  refused := by
    rintro run _ h _ c _ fault ⟨store, rfl⟩ ⟨rfl, _⟩ rfl enter _
    exact ⟨enter, store, rfl⟩
  opened := by
    rintro run _ h _ node node' c _ g ⟨store, rfl⟩ ⟨rfl, _⟩ nodes rfl enter
    have same : node' = node := (nodes.mono (fun _ _ => And.left) fun _ _ => id).eq
    have handle : t.grammar = run.store.grammar := by rw [handles.grammar, store]
    refine ⟨g, enter, by rwa [Run.store_opened], ?_⟩
    subst same
    cases trace with
    | false => rfl
    | true => simp only [Run.opened, Run.record, handle, if_true]
  closed := by
    rintro run _ h _ c _ ending ending' ⟨store, rfl⟩ ⟨rfl, _⟩ rfl alike
    cases Pairing.eq_of_same alike
    have handle : t.grammar = run.store.grammar := by rw [handles.grammar, store]
    refine ⟨by rwa [Run.store_closed], ?_⟩
    rcases trace with _ | _ <;> rcases ending with (_ | _) | _ | _ <;>
      simp only [Run.closed, Run.record, handle]
  release pure pair work _ := callback_sidelong (pure _) handles pair work
  fold pure pair work _ := callback_sidelong (pure _) handles pair work
  apply pure pair work _ := callback_sidelong (pure _) handles pair work

end

namespace Meaning

variable {m : Meaning} {q : HandleId} {s : Store}

theorem call_pure (pure : s.grammar.Calls (m.pureIn s) (s.grammar.Reachable [q])) (ctx : Context)
    (c : Cursor) {t : Store} (handles : s.SameHandles t) :
    m.call ctx q c t = ((m.call ctx q c s).1, { (m.call ctx q c s).2 with store := t }) := by
  have start : s.grammar.Reachable [q] q := .root (List.mem_cons_self ..)
  obtain ⟨alike, _, run⟩ := (simulates_sidelong handles pure ctx.config.trace).call ctx ctx q q c c
    s t rfl rfl ⟨rfl, start⟩ rfl ⟨rfl, rfl⟩ trivial
  exact Prod.ext (Pairing.eq_of_same alike) run

/-- A parse by a handle whose callbacks are pure does one thing wherever the handles are the same,
and changes nothing. -/
theorem parse_pure (pure : s.grammar.Calls (m.pureIn s) (s.grammar.Reachable [q])) (text : String)
    (config : Config) : (m.parse q text config).PureIn s := by
  have call : (m.callAction (.fresh config) q (.start (.ofString text))).PureIn s := by
    refine ⟨(m.call (.fresh config) q (.start (.ofString text)) s).1,
      (m.call (.fresh config) q (.start (.ofString text)) s).2.events.reverse, fun w handles => ?_⟩
    simp only [callAction, call_pure pure _ _ handles]
    rfl
  simp only [parse, Proc.bind_eq, Proc.pure_eq]
  refine .andThen (.read fun t handles => by rw [handles.grammar]) fun _ => ?_
  refine .andThen (.note _) fun _ => .andThen call fun r => ?_
  refine .andThen (.read fun t handles => by rw [handles.grammar]) fun _ => ?_
  exact .andThen (.note _) fun _ => .done r

end Meaning

end Peg
