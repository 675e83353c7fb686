import Peg.Proofs.Run.Simulation
import Peg.Proofs.Teardown.Reachable

namespace Peg

/-- A callback that ends in one way wherever the grammar is `g`, and leaves it so. -/
def Callback.SteadyIn (g : Grammar) {α : Type} (work : Callback α) : Prop :=
  ∃ ending, ∀ s, s.grammar = g → (work s).ending = ending ∧ (work s).store.grammar = g

def Meaning.steadyIn (m : Meaning) (g : Grammar) : Callbacks where
  release r := ∀ v, (m.release r v).SteadyIn g
  fold f := ∀ vs, (m.fold f vs).SteadyIn g
  func f := ∀ v, (m.apply f v).SteadyIn g

/-- All callbacks of the nodes that can be reached from some handles are steady. -/
def Grammar.Steady (g : Grammar) (m : Meaning) (roots : List HandleId) : Prop :=
  g.Calls (m.steadyIn g) (g.Reachable roots)

theorem Grammar.Steady.of_roots {g : Grammar} {m : Meaning} {roots roots' : List HandleId}
    (steady : g.Steady m roots) (reached : ∀ r ∈ roots', g.Reachable roots r) :
    g.Steady m roots' :=
  fun h body here => steady h body (here.of_roots reached)

theorem Grammar.steady_of_handles {g : Grammar} {m : Meaning} (roots : List HandleId)
    (all : ∀ handle ∈ g.handles.toList, ∀ body, handle.status = .defined body →
      body.node.Calls (m.steadyIn g)) : g.Steady m roots := by
  intro h body _ status
  obtain lt | ge := Nat.lt_or_ge h g.handles.size
  · have at_h : g.get h = g.handles[h] := by simp [get, lt]
    exact all (g.get h) (at_h ▸ Array.getElem_mem_toList lt) body status
  · rw [get_of_size_le ge] at status
    cases status

def steadily (m : Meaning) (g : Grammar) (roots : List HandleId) : Pairing :=
  .same (fun h k => h = k ∧ g.Reachable roots h) (m.steadyIn g) fun s t =>
    s.store.grammar = g ∧ t.store.grammar = g ∧ t.guard = s.guard

section

variable {m : Meaning} {g : Grammar} {roots : List HandleId}

theorem callback_steadily {α : Type} {entry : Ending α → List Event → Int → Entry}
    {work : Callback α} (steady : work.SteadyIn g) {s t s' : Run} {ending : Ending α}
    (pair : (steadily m g roots).run s t) (called : Run.callback entry work s = (ending, s')) :
    ∃ t', Run.callback entry work t = (ending, t') ∧ (steadily m g roots).run s' t' := by
  obtain ⟨here, there, guard⟩ := pair
  obtain ⟨ended, ends⟩ := steady
  obtain ⟨ending_s, grammar_s⟩ := ends s.store here
  obtain ⟨ending_t, grammar_t⟩ := ends t.store there
  cases called
  refine ⟨(Run.callback entry work t).2, ?_, grammar_s, grammar_t, guard⟩
  simp only [Run.callback, ending_s, ending_t]

theorem simulates_steadily (steady : g.Steady m roots) (trace : Bool) :
    (steadily m g roots).Simulates m m trace trace fun _ => True where
  toAgrees := Pairing.agrees_same
  before _ _ := trivial
  missing := by
    rintro s t h _ fault ⟨here, there, guard⟩ ⟨rfl, _⟩ missing
    rw [here] at missing
    exact ⟨there ▸ missing, here, there, guard⟩
  found := by
    rintro s t h _ body ⟨here, there, _⟩ ⟨rfl, reachable⟩ status
    rw [here] at status
    have children : (g.get h).children = body.node.children := by
      simp only [Handle.children, Handle.body?, status]
    refine ⟨body, there ▸ status, Node.alike_refl (fun k mem => ?_) fun _ => rfl,
      steady h body reachable status⟩
    exact ⟨rfl, reachable.child (children ▸ mem)⟩
  refused := by
    rintro s t h _ c _ fault ⟨here, there, guard⟩ ⟨rfl, _⟩ rfl enter _
    exact ⟨guard ▸ enter, here, there, guard⟩
  opened := by
    rintro s t h _ node node' c _ guard' ⟨here, there, guard⟩ ⟨rfl, _⟩ _ rfl enter
    refine ⟨guard', guard ▸ enter, by rwa [Run.store_opened], by rwa [Run.store_opened], ?_⟩
    rw [Run.guard_opened, Run.guard_opened]
  closed := by
    rintro s t h _ c _ ending ending' ⟨here, there, guard⟩ ⟨rfl, _⟩ rfl _
    refine ⟨by rwa [Run.store_closed], by rwa [Run.store_closed], ?_⟩
    rw [Run.guard_closed, Run.guard_closed, guard]
  release steady pair work _ := callback_steadily (steady _) pair work
  fold steady pair work _ := callback_steadily (steady _) pair work
  apply steady pair work _ := callback_steadily (steady _) pair work

end

namespace Meaning

/-- Where the callbacks are steady, a call leaves the grammar as it is and ends alike in every store
with that grammar. -/
theorem call_steady {m : Meaning} {s t : Store} {h : HandleId} (steady : s.grammar.Steady m [h])
    (grammar : t.grammar = s.grammar) (ctx : Context) (c : Cursor) :
    (m.call ctx h c t).1 = (m.call ctx h c s).1 ∧
      (m.call ctx h c s).2.store.grammar = s.grammar := by
  obtain ⟨alike, here, _⟩ := (simulates_steadily steady ctx.config.trace).call ctx ctx h h c c s t
    rfl rfl ⟨rfl, .root (List.mem_cons_self ..)⟩ rfl ⟨rfl, grammar, rfl⟩ trivial
  exact ⟨Pairing.eq_of_same alike, here⟩

end Meaning

end Peg
