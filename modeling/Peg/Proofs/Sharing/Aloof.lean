import Peg.Proofs.Run.Actions
import Peg.Proofs.Run.Simulation

namespace Peg

def Store.over (s : Store) (g : Grammar) (registers : List (String × HandleId)) : Store :=
  { s with grammar := g, registers := registers }

def World.over (g : Grammar) (registers : List (String × HandleId)) (w : World) : World :=
  { w with store := w.store.over g registers }

def Callback.Aloof {α : Type} (work : Callback α) : Prop :=
  ∀ s g registers, work (s.over g registers) =
    { work s with store := (work s).store.over g registers }

def Action.Aloof {α : Type} (p : Action α) : Prop :=
  ∀ g registers, p.Commutes (World.over g registers)

def Meaning.aloof (m : Meaning) : Callbacks where
  release r := ∀ v, (m.release r v).Aloof
  fold f := ∀ vs, (m.fold f vs).Aloof
  func f := ∀ v, (m.apply f v).Aloof

namespace Callback.Aloof

variable {α : Type} {work : Callback α}

theorem grammar_eq (aloof : work.Aloof) (s : Store) : (work s).store.grammar = s.grammar :=
  congrArg (·.store.grammar) (aloof s s.grammar s.registers)

theorem run {entry : Ending α → List Event → Int → Entry} (aloof : work.Aloof) {s t s' : Run}
    {ending : Ending α} {g : Grammar} {registers : List (String × HandleId)}
    (store : t.store = s.store.over g registers) (guard : t.guard = s.guard)
    (h : Run.callback entry work s = (ending, s')) :
    ∃ events, s'.journal = entry ending events s.guard.depth :: s.journal ∧
      s'.store.grammar = s.store.grammar ∧ s'.guard = s.guard ∧
      Run.callback entry work t = (ending, ⟨s'.store.over g registers, t.guard,
        entry ending events s.guard.depth :: t.journal⟩) := by
  cases h
  refine ⟨(work s.store).events, rfl, aloof.grammar_eq s.store, rfl, ?_⟩
  simp only [Run.callback, store, aloof s.store, guard]
  rfl

end Callback.Aloof

namespace Action.Aloof

variable {α : Type}

theorem callback {p : Action α} (aloof : p.Aloof) : p.callback.Aloof := by
  intro s g registers
  have commutes := aloof g registers ⟨s, []⟩
  have start : World.over g registers ⟨s, []⟩ = ⟨s.over g registers, []⟩ := rfl
  rw [start] at commutes
  simp only [Action.callback, commutes]
  rfl

theorem compositional : Action.Compositional @Aloof where
  done a _ _ := Proc.commutes_done a
  raise fault _ _ := Proc.commutes_raise fault
  andThen hp hf g registers := (hp g registers).andThen fun a => hf a g registers
  stop how := by
    cases how <;> exact fun _ _ _ => rfl
  released _ _ _ _ _ := rfl
  folded _ _ _ _ _ := rfl
  mapped _ _ _ _ _ := rfl
  countCall _ _ _ _ := rfl
  makeBox _ _ _ _ := rfl
  makeValue _ _ _ _ := rfl
  isWanted _ _ _ _ _ := rfl

theorem apply {nested : HandleId → String → Action Result} {func : Func} (aloof : func.Aloof)
    (v : Value) : Aloof (Standard.apply nested func v) := by
  refine compositional.apply fun list acts => compositional.acts fun act mem => .inl ?_
  subst acts
  exact aloof act mem

end Action.Aloof

namespace Meaning

/-- All standard callbacks keep away from the grammar but for functions that delete, define or
parse. -/
theorem standard_aloof (compute : Standard.Calculation) (levels : Nat) :
    (∀ r, (standard compute levels).aloof.release r) ∧
    (∀ f, (standard compute levels).aloof.fold f) ∧
    ∀ f, f.Aloof → (standard compute levels).aloof.func f := by
  cases levels <;>
    exact ⟨fun r v => (Action.Aloof.compositional.release r v).callback,
      fun f vs => (Action.Aloof.compositional.fold compute f vs).callback,
      fun f aloof v => (Action.Aloof.apply aloof v).callback⟩

end Meaning

end Peg
