import Peg.Proofs.Sharing.Aloof

namespace Peg

/-- Handles that hold the same, as far as it shows, and lead to related handles. -/
inductive Handle.Alike (R : HandleId → HandleId → Prop) (a b : Handle) : Prop where
  | defined {body body' : Body} : a.status = .defined body → b.status = .defined body' →
      body.node.Alike R Eq body'.node → Alike R a b
  | undefined : a.status = .undefined → b.status = .undefined → b.name = a.name → Alike R a b
  | deleted : a.status = .deleted → b.status = .deleted → b.calling = a.calling → Alike R a b

def Grammar.Bisimilar (R : HandleId → HandleId → Prop) (g g' : Grammar) : Prop :=
  ∀ h k, R h k → (g.get h).Alike R (g'.get k)

inductive Record.Alike (R : HandleId → HandleId → Prop) : Record → Record → Prop where
  | trying {a b : Handle} {pos : Nat} : a.Alike R b → Alike R (.trying a pos) (.trying b pos)
  | matched {a b : Handle} {first last : Nat} : a.Alike R b →
      Alike R (.matched a first last) (.matched b first last)
  | failed {a b : Handle} {pos : Int} : a.Alike R b → Alike R (.failed a pos) (.failed b pos)

inductive Entry.Alike (R : HandleId → HandleId → Prop) : Entry → Entry → Prop where
  | entered {h k : HandleId} {node node' : Node} {pos : Nat} {depth : Int} : R h k →
      node.Alike R Eq node' → Alike R (.entered h node pos depth) (.entered k node' pos depth)
  | left {h k : HandleId} {ending : Ending Result} {depth : Int} : R h k →
      Alike R (.left h ending depth) (.left k ending depth)
  | refused {h k : HandleId} {pos : Nat} {depth : Int} : R h k →
      Alike R (.refused h pos depth) (.refused k pos depth)
  | missing {h k : HandleId} {fault : Fault} {depth : Int} : R h k →
      Alike R (.missing h fault depth) (.missing k fault depth)
  | released (r : Release) (v : Value) (ending : Ending Unit) (events : List Event) (depth : Int) :
      Alike R (.released r v ending events depth) (.released r v ending events depth)
  | folded (f : Fold) (vs : List Value) (ending : Ending Value) (events : List Event)
      (depth : Int) : Alike R (.folded f vs ending events depth) (.folded f vs ending events depth)
  | applied (f : Func) (v : Value) (ending : Ending Value) (events : List Event) (depth : Int) :
      Alike R (.applied f v ending events depth) (.applied f v ending events depth)
  | logged {record record' : Record} : record.Alike R record' →
      Alike R (.logged record) (.logged record')

section

variable {R E : HandleId → HandleId → Prop}

theorem Entry.Alike.caused_eq {e e' : Entry} (alike : e.Alike R e') : e'.caused = e.caused := by
  cases alike <;> rfl

theorem caused_of_alike {s t : Run} (alike : List.Forall₂ (Entry.Alike R) s.journal t.journal) :
    t.caused = s.caused := by
  have reversed := List.forall₂_reverse_iff.mpr alike
  unfold Run.caused
  generalize s.journal.reverse = told, t.journal.reverse = told' at reversed
  induction reversed with
  | nil => rfl
  | cons here _ ih => rw [List.flatMap_cons, List.flatMap_cons, here.caused_eq, ih]

theorem Handle.Alike.fault?_eq {a b : Handle} (alike : a.Alike R b) : b.fault? = a.fault? := by
  cases alike with
  | defined there there' => simp only [Handle.fault?, there, there']
  | undefined there there' name => simp only [Handle.fault?, there, there', name]
  | deleted there there' calling => simp only [Handle.fault?, there, there', calling]

/-- The runs of two stores whose grammars are related. -/
def sharing (m : Meaning) (R : HandleId → HandleId → Prop) (s t : Store) : Pairing :=
  .same R m.aloof fun run run' => run.store.grammar = s.grammar ∧
    run'.store = run.store.over t.grammar t.registers ∧ run'.guard = run.guard ∧
    List.Forall₂ (Entry.Alike R) run.journal run'.journal

variable {m : Meaning} {s t : Store}

theorem callback_sharing {α : Type} {entry : Ending α → List Event → Int → Entry}
    (same : ∀ ending events depth, (entry ending events depth).Alike R (entry ending events depth))
    {work : Callback α} (aloof : work.Aloof) {run run' out : Run} {ending : Ending α}
    (pair : (sharing m R s t).run run run')
    (h : Run.callback entry work run = (ending, out)) :
    ∃ out', Run.callback entry work run' = (ending, out') ∧ (sharing m R s t).run out out' := by
  obtain ⟨grammar, store, guard, journal⟩ := pair
  obtain ⟨events, journal_eq, grammar_eq, guard_eq, worked⟩ := aloof.run store guard h
  refine ⟨_, worked, grammar_eq.trans grammar, rfl, guard.trans guard_eq.symm, ?_⟩
  rw [journal_eq]
  exact .cons (same ..) journal

theorem simulates_sharing (bisimilar : Grammar.Bisimilar R s.grammar t.grammar)
    (aloof : s.grammar.Calls m.aloof fun h => ∃ k, R h k) (trace : Bool) :
    (sharing m R s t).Simulates m m trace trace fun _ => True where
  toAgrees := Pairing.agrees_same
  before _ _ := trivial
  missing := by
    rintro run run' h k fault ⟨grammar, store, guard, journal⟩ related missing
    refine ⟨?_, grammar, store, guard, ?_⟩
    · rw [store]
      rw [grammar] at missing
      exact (bisimilar h k related).fault?_eq.trans missing
    · rw [guard]
      exact .cons (.missing related) journal
  found := by
    rintro run run' h k body ⟨grammar, store, _, _⟩ related status
    rw [grammar] at status
    rw [store]
    cases bisimilar h k related with
    | @defined body₁ body' there there' alike =>
      rw [there] at status
      cases status
      exact ⟨body', there', alike, aloof h body ⟨k, related⟩ there⟩
    | undefined there => simp [there] at status
    | deleted there => simp [there] at status
  refused := by
    rintro run run' h k c c' fault ⟨grammar, store, guard, journal⟩ related rfl enter _
    refine ⟨guard ▸ enter, grammar, store, guard, ?_⟩
    rw [guard]
    exact .cons (.refused related) journal
  opened := by
    rintro run run' h k n n' c c' g ⟨grammar, store, guard, journal⟩ related nodes rfl enter
    have entered : List.Forall₂ (Entry.Alike R) (.entered h n c.pos g.depth :: run.journal)
        (.entered k n' c.pos g.depth :: run'.journal) := .cons (.entered related nodes) journal
    have handles : (run.store.grammar.get h).Alike R (run'.store.grammar.get k) := by
      rw [grammar, store]
      exact bisimilar h k related
    refine ⟨g, guard ▸ enter, ?_⟩
    rcases trace with _ | _
    · exact ⟨grammar, store, rfl, entered⟩
    · exact ⟨grammar, store, rfl, .cons (.logged (.trying handles)) entered⟩
  closed := by
    rintro run run' h k c c' ending ending' ⟨grammar, store, guard, journal⟩ related rfl alike
    cases Pairing.eq_of_same alike
    have exits : run'.guard.exit = run.guard.exit := by rw [guard]
    have closing {before before' : List Entry}
        (alike : List.Forall₂ (Entry.Alike R) before before') :
        List.Forall₂ (Entry.Alike R) (.left h ending run.guard.exit.depth :: before)
          (.left k ending run'.guard.exit.depth :: before') := by
      rw [exits]
      exact .cons (.left related) alike
    have handles : (run.store.grammar.get h).Alike R (run'.store.grammar.get k) := by
      rw [grammar, store]
      exact bisimilar h k related
    rcases trace with _ | _
    · exact ⟨grammar, store, exits, closing journal⟩
    · rcases ending with (_ | _) | _ | _
      · exact ⟨grammar, store, exits, closing (.cons (.logged (.matched handles)) journal)⟩
      · exact ⟨grammar, store, exits, closing (.cons (.logged (.failed handles)) journal)⟩
      · exact ⟨grammar, store, exits, closing journal⟩
      · exact ⟨grammar, store, exits, closing journal⟩
  release aloof pair work _ := callback_sharing (.released _ _) (aloof _) pair work
  fold aloof pair work _ := callback_sharing (.folded _ _) (aloof _) pair work
  apply aloof pair work _ := callback_sharing (.applied _ _) (aloof _) pair work

end

end Peg
