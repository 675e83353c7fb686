import Peg.Proofs.Run.Actions
import Peg.Proofs.Run.Calls

namespace Peg

/-- A grammar in which handles were torn down and placeholders filled in, one after another. -/
inductive Grammar.Edited (g : Grammar) : Grammar → Prop where
  | unchanged : Edited g g
  | tear {g' : Grammar} (h : HandleId) : Edited g g' → Edited g (g'.tear h)
  | define {g' g'' : Grammar} {h other : HandleId} : Edited g g' → g'.define h other = .ok g'' →
      Edited g g''

namespace Grammar.Edited

variable {g g' g'' : Grammar}

theorem trans (first : g.Edited g') (second : g'.Edited g'') : g.Edited g'' := by
  induction second with
  | unchanged => exact first
  | tear h _ ih => exact ih.tear h
  | define _ defined ih => exact ih.define defined

theorem exists_defined (edited : g.Edited g') {h : HandleId} {body : Body}
    (status : (g'.get h).status = .defined body) : ∃ k, (g.get k).status = .defined body := by
  induction edited generalizing h with
  | unchanged => exact ⟨h, status⟩
  | @tear g' k _ ih =>
    obtain gone | same := get_tear g' k h
    · rw [gone] at status
      cases status
    · exact ih (same ▸ status)
  | @define g' g'' k other _ defined ih =>
    obtain same | ⟨_, found, there, status'⟩ := get_define defined h
    · exact ih (same ▸ status)
    · rw [status'] at status
      cases status
      exact ih there

end Grammar.Edited

/-- A relation between the stores before and after what callbacks do, one thing after another. -/
structure Store.Passage (R : Store → Store → Prop) : Prop where
  same : ∀ {s s'}, s'.grammar = s.grammar → s'.registers = s.registers → R s s'
  trans : ∀ {s s' s''}, R s s' → R s' s'' → R s s''
  tear : ∀ s h, R s { s with grammar := s.grammar.tear h }
  define : ∀ {s g h other}, s.grammar.define h other = .ok g → R s { s with grammar := g }

def Action.Moves {α : Type} (R : Store → Store → Prop) (p : Action α) : Prop :=
  ∀ w : World, R w.store (p w).2.store

def Callback.Moves {α : Type} (R : Store → Store → Prop) (work : Callback α) : Prop :=
  ∀ s : Store, R s (work s).store

structure Meaning.Moves (R : Store → Store → Prop) (m : Meaning) : Prop where
  release : ∀ r v, (m.release r v).Moves R
  fold : ∀ fold vs, (m.fold fold vs).Moves R
  apply : ∀ func v, (m.apply func v).Moves R

namespace Store.Passage

variable {α β : Type} {R : Store → Store → Prop} (passage : Passage R)
include passage

theorem refl (s : Store) : R s s := passage.same rfl rfl

theorem of_same {p : Action α} (same : ∀ w : World, (p w).2.store = w.store) : p.Moves R := by
  intro w
  rw [same]
  exact passage.refl w.store

theorem done (a : α) : Action.Moves R (Proc.done a) := passage.of_same fun _ => rfl

theorem raise (fault : Fault) : Action.Moves (α := α) R (Proc.raise fault) :=
  passage.of_same fun _ => rfl

theorem read (f : Store → α) : (Action.read f).Moves R := passage.of_same fun _ => rfl

theorem note (e : Event) : (Action.note e).Moves R := passage.of_same fun _ => rfl

theorem stop (how : Stop) : (Action.stop how).Moves R := by
  cases how <;> exact passage.of_same fun _ => rfl

theorem register (id : String) : (Action.register id).Moves R := by
  apply passage.of_same
  intro w
  unfold Action.register
  split <;> rfl

theorem andThen {p : Action α} {f : α → Action β} (hp : p.Moves R) (hf : ∀ a, (f a).Moves R) :
    Action.Moves R (Proc.andThen p f) := by
  intro w
  have first := hp w
  rcases ran : p w with ⟨a | fault | message, w₁⟩ <;> rw [ran] at first
  · rw [Proc.andThen_done ran]
    exact passage.trans first (hf a w₁)
  · rw [Proc.andThen_raised ran]
    exact first
  · rw [Proc.andThen_aborted ran]
    exact first

theorem tearFrom {told : Nat → HandleId → Action Unit} (htold : ∀ call h, (told call h).Moves R)
    (steps : Nat) (walk : Walk) (count : Nat) :
    (Action.tearFrom told steps walk count).Moves R := by
  induction steps generalizing walk count with
  | zero => exact passage.done count
  | succ steps ih =>
    intro w
    simp only [Action.tearFrom]
    split
    · exact passage.done count w
    · next h walk _ =>
      split
      · exact ih walk count w
      · have tear : (Action.tear h).Moves R := fun w => passage.tear w.store h
        refine passage.andThen tear (fun _ => ?_) w
        exact passage.andThen (htold _ h) fun _ => ih walk (count + 1)

theorem tearDown {told : Nat → HandleId → Action Unit} (htold : ∀ call h, (told call h).Moves R)
    (roots : List HandleId) : (Action.tearDown told roots).Moves R := by
  rw [Action.tearDown]
  refine passage.andThen (passage.read _) fun steps => ?_
  refine passage.andThen (passage.tearFrom htold steps _ 0) fun count => ?_
  exact passage.andThen (passage.note _) fun _ => passage.done count

theorem deleteAll (roots : List HandleId) : (Action.deleteAll roots).Moves R :=
  passage.tearDown (fun _ _ => passage.done ()) roots

theorem deleteInside (h : HandleId) : (Action.deleteInside h).Moves R :=
  passage.andThen (passage.deleteAll [h]) fun count => passage.note (.deleted count)

theorem tell (watcher : Watcher) (call : Nat) (h : HandleId) :
    (Action.tell watcher call h).Moves R := by
  have deletes (hs : List HandleId) : (hs.forM Action.deleteInside).Moves R := by
    induction hs with
    | nil => exact passage.done ()
    | cons h hs ih => exact passage.andThen (passage.deleteInside h) fun _ => ih
  have stops (how : Option Stop) : (how.forM Action.stop).Moves R := by
    cases how with
    | none => exact passage.done ()
    | some how => exact passage.stop how
  rw [Action.tell]
  refine passage.andThen (passage.read _) fun event => ?_
  refine passage.andThen (passage.note event) fun _ => ?_
  exact passage.andThen (deletes _) fun _ => stops _

theorem defined (h other : HandleId) : (Action.define h other).Moves R := by
  intro w
  unfold Action.define
  split
  · exact passage.refl w.store
  · next g done => exact passage.define done

theorem compositional : Action.Compositional (Action.Moves R) where
  done := passage.done
  raise := passage.raise
  andThen := passage.andThen
  stop := passage.stop
  released _ _ := passage.note _
  folded _ _ := passage.note _
  mapped _ _ := passage.note _
  countCall _ := fun _ => passage.same rfl rfl
  makeBox _ := fun _ => passage.same rfl rfl
  makeValue _ := fun _ => passage.same rfl rfl
  isWanted _ _ := passage.read _

theorem apply {nested : HandleId → String → Action Result}
    (hnested : ∀ h text, (nested h text).Moves R) (func : Func) (v : Value) :
    (Standard.apply nested func v).Moves R := by
  refine passage.compositional.apply fun list _ => passage.compositional.acts fun act _ => ?_
  cases act with
  | log | stop | const | wrap => exact .inl trivial
  | delete id =>
    refine .inr fun rest ih => passage.andThen (passage.register id) fun h => ?_
    exact passage.andThen (passage.deleteInside h) fun _ => ih
  | define id other =>
    refine .inr fun rest ih => passage.andThen (passage.register id) fun h => ?_
    refine passage.andThen (passage.register other) fun k => ?_
    exact passage.andThen (passage.defined h k) fun _ => ih
  | parse id text =>
    refine .inr fun rest ih => passage.andThen (passage.register id) fun h => ?_
    exact passage.andThen (hnested h text) fun r => passage.andThen (passage.note _) fun _ => ih

section

variable {m : Meaning} (moves : m.Moves R)
include moves

theorem steps : m.Steps fun s s' => R s.store s'.store where
  refl s := passage.refl s.store
  trans := passage.trans
  record s _ := passage.refl s.store
  guard s _ := passage.refl s.store
  release h := by
    cases h
    exact moves.release _ _ _
  fold h := by
    cases h
    exact moves.fold _ _ _
  apply h := by
    cases h
    exact moves.apply _ _ _

theorem call (ctx : Context) (h : HandleId) (c : Cursor) : (m.callAction ctx h c).Moves R :=
  fun w => (passage.steps moves).ran (Meaning.ran_call ctx h c w.store)

theorem parse (h : HandleId) (text : String) (config : Config) :
    (m.parse h text config).Moves R := by
  simp only [Meaning.parse, Proc.bind_eq, Proc.pure_eq]
  refine passage.andThen (passage.read _) fun _ => passage.andThen (passage.note _) fun _ => ?_
  refine passage.andThen (passage.call moves _ h _) fun r => ?_
  refine passage.andThen (passage.read _) fun _ => passage.andThen (passage.note _) fun _ => ?_
  exact passage.done r

end

theorem withNested (compute : Standard.Calculation) {nested : HandleId → String → Action Result}
    (hnested : ∀ h text, (nested h text).Moves R) :
    (Meaning.withNested compute nested).Moves R where
  release r v s := passage.compositional.release r v ⟨s, []⟩
  fold fold vs s := passage.compositional.fold compute fold vs ⟨s, []⟩
  apply func v s := passage.apply hnested func v ⟨s, []⟩

theorem standard (compute : Standard.Calculation) (levels : Nat) :
    (Meaning.standard compute levels).Moves R := by
  induction levels with
  | zero => exact passage.withNested compute fun _ _ => passage.raise _
  | succ levels ih => exact passage.withNested compute fun h text => passage.parse ih h text _

end Store.Passage

def Action.Edits {α : Type} (p : Action α) : Prop :=
  ∀ w : World, w.store.grammar.Edited (p w).2.store.grammar

def Callback.Edits {α : Type} (work : Callback α) : Prop :=
  ∀ s : Store, s.grammar.Edited (work s).store.grammar

structure Meaning.Edits (m : Meaning) : Prop where
  release : ∀ r v, (m.release r v).Edits
  fold : ∀ fold vs, (m.fold fold vs).Edits
  apply : ∀ func v, (m.apply func v).Edits

theorem Store.editing : Passage fun s s' => s.grammar.Edited s'.grammar where
  same same _ := same ▸ .unchanged
  trans := Grammar.Edited.trans
  tear _ h := .tear h .unchanged
  define done := .define .unchanged done

namespace Action.Edits

variable {α : Type}

theorem raise (fault : Fault) : Edits (α := α) (Proc.raise fault) := Store.editing.raise fault

theorem read (f : Store → α) : Edits (Action.read f) := Store.editing.read f

theorem register (id : String) : Edits (Action.register id) := Store.editing.register id

theorem tearDown {told : Nat → HandleId → Action Unit} (htold : ∀ call h, (told call h).Edits)
    (roots : List HandleId) : Edits (Action.tearDown told roots) :=
  Store.editing.tearDown htold roots

theorem deleteAll (roots : List HandleId) : Edits (Action.deleteAll roots) :=
  Store.editing.deleteAll roots

theorem tell (watcher : Watcher) (call : Nat) (h : HandleId) : Edits (Action.tell watcher call h) :=
  Store.editing.tell watcher call h

theorem define (h other : HandleId) : Edits (Action.define h other) := Store.editing.defined h other

theorem compositional : Action.Compositional @Edits := Store.editing.compositional

theorem apply {nested : HandleId → String → Action Result}
    (hnested : ∀ h text, (nested h text).Edits) (func : Func) (v : Value) :
    Edits (Standard.apply nested func v) := Store.editing.apply hnested func v

end Action.Edits

namespace Meaning

variable {m : Meaning}

theorem Edits.moves (edits : m.Edits) : m.Moves fun s s' => s.grammar.Edited s'.grammar :=
  ⟨edits.release, edits.fold, edits.apply⟩

theorem steps_edits (edits : m.Edits) :
    m.Steps fun s s' => s.store.grammar.Edited s'.store.grammar := Store.editing.steps edits.moves

theorem call_edits (edits : m.Edits) (ctx : Context) (h : HandleId) (c : Cursor) :
    (m.callAction ctx h c).Edits := Store.editing.call edits.moves ctx h c

theorem parse_edits (edits : m.Edits) (h : HandleId) (text : String) (config : Config) :
    (m.parse h text config).Edits := Store.editing.parse edits.moves h text config

theorem standard_edits (compute : Standard.Calculation) (levels : Nat) :
    (standard compute levels).Edits := by
  obtain ⟨release, fold, apply⟩ := Store.editing.standard compute levels
  exact ⟨release, fold, apply⟩

end Meaning

end Peg
