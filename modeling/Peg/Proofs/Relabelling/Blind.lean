import Peg.Proofs.Relabelling.Bare
import Peg.Proofs.Run.Edits

namespace Peg

/-- A callback that does the same where grammars are equal but for labels, and that leaves grammars
with callbacks of the same kind. -/
structure Callback.Blind (among : Callbacks) {α : Type} (work : Callback α) : Prop where
  ending : ∀ {s t : Store}, t.bare = s.bare → (work t).ending = (work s).ending
  store : ∀ {s t : Store}, t.bare = s.bare → (work t).store.bare = (work s).store.bare
  events : ∀ {s t : Store}, t.bare = s.bare →
    (work t).events.map Event.bare = (work s).events.map Event.bare
  calls : ∀ {s : Store}, s.grammar.Calls among (fun _ => True) →
    (work s).store.grammar.Calls among fun _ => True

structure Meaning.Blind (m : Meaning) (among : Callbacks) : Prop where
  release : ∀ r, among.release r → ∀ v, (m.release r v).Blind among
  fold : ∀ f, among.fold f → ∀ vs, (m.fold f vs).Blind among
  apply : ∀ f, among.func f → ∀ v, (m.apply f v).Blind among

theorem Grammar.Edited.calls {g g' : Grammar} {among : Callbacks} (edited : g.Edited g')
    (calls : g.Calls among fun _ => True) : g'.Calls among fun _ => True := by
  intro h body _ status
  obtain ⟨k, there⟩ := edited.exists_defined status
  exact calls k body trivial there

def Action.Bare {α : Type} (p : Action α) : Prop := p.Commutes World.bare

namespace Action.Bare

variable {α : Type}

theorem compositional : Action.Compositional @Bare where
  done := Proc.commutes_done
  raise := Proc.commutes_raise
  andThen := Proc.Commutes.andThen
  stop how := by
    cases how <;> exact fun _ => rfl
  released _ _ _ := rfl
  folded _ _ _ := rfl
  mapped _ _ _ := rfl
  countCall _ _ := rfl
  makeBox _ _ := rfl
  makeValue _ _ := rfl
  isWanted _ _ _ := rfl

theorem register (id : String) : Bare (Action.register id) := by
  intro w
  unfold Action.register
  rcases found : w.store.registers.lookup id with _ | h
  · simp only [World.bare, Store.bare, found]
  · simp only [World.bare, Store.bare, found]

theorem tear (h : HandleId) : Bare (Action.tear h) := by
  intro w
  simp only [Action.tear, Action.update, World.bare, Store.bare, Grammar.tear_bare]

theorem next?_bare (g : Grammar) (walk : Walk) : walk.next? g.bare = walk.next? g := by
  obtain ⟨pending, seen⟩ := walk
  induction pending with
  | nil => rfl
  | cons h rest ih =>
    simp only [Walk.next?, Walk.nextOf, Grammar.get_bare, Handle.children_bare]
    split
    · exact ih
    · rfl

theorem tearFrom {told : Nat → HandleId → Action Unit} (htold : ∀ call h, (told call h).Bare)
    (steps : Nat) (walk : Walk) (count : Nat) : Bare (Action.tearFrom told steps walk count) := by
  induction steps generalizing walk count with
  | zero => exact Proc.commutes_done count
  | succ steps ih =>
    intro w
    have next : walk.next? w.bare.store.grammar = walk.next? w.store.grammar := next?_bare _ _
    have deleted (h : HandleId) : (w.bare.store.grammar.get h).isDeleted =
        (w.store.grammar.get h).isDeleted := by
      simp only [World.bare, Store.bare, Grammar.get_bare, Handle.isDeleted_bare]
    simp only [Action.tearFrom, next, deleted]
    split
    · rfl
    · next h walk _ =>
      split
      · exact ih walk count w
      · have rest := (htold (count + 1) h).andThen fun _ => ih walk (count + 1)
        exact (tear h).andThen (fun _ => rest) w

theorem deleteInside (h : HandleId) : Bare (Action.deleteInside h) := by
  have reach : Bare (Action.read fun s => s.grammar.reach [h]) := by
    intro w
    simp only [Action.read, World.bare, Store.bare, Grammar.reach, Grammar.references_bare]
  have deleteAll : Bare (Action.deleteAll [h]) := by
    rw [Action.deleteAll, Action.tearDown]
    refine reach.andThen fun steps => ?_
    refine (tearFrom (fun _ _ => Proc.commutes_done ()) steps _ 0).andThen fun count => ?_
    exact Proc.Commutes.andThen (fun _ => rfl) fun _ => Proc.commutes_done count
  exact deleteAll.andThen fun count _ => rfl

theorem define (h other : HandleId) : Bare (Action.define h other) := by
  intro w
  have defined : w.bare.store.grammar.define h other =
      (w.store.grammar.define h other).map Grammar.bare := Grammar.define_bare _ _ _
  simp only [Action.define, defined]
  rcases w.store.grammar.define h other with fault | g
  · rfl
  · simp only [Except.map, Grammar.get_bare, Handle.body?_bare]
    rcases (g.get h).body? with _ | body
    · rfl
    · simp only [Option.map_some, Body.bare, Node.kind_bare]
      rfl

theorem callback {p : Action α} (bare : p.Bare) (edits : p.Edits) (among : Callbacks) :
    p.callback.Blind among := by
  have same {s t : Store} (same : t.bare = s.bare) : (p ⟨t, []⟩).1 = (p ⟨s, []⟩).1 ∧
      (p ⟨t, []⟩).2.bare = (p ⟨s, []⟩).2.bare := by
    have alike := bare ⟨t, []⟩
    have start : World.bare ⟨t, []⟩ = World.bare ⟨s, []⟩ := congrArg (World.mk · []) same
    rw [start, bare ⟨s, []⟩] at alike
    exact ⟨(congrArg Prod.fst alike).symm, (congrArg Prod.snd alike).symm⟩
  refine ⟨fun eq => (same eq).1, fun eq => congrArg World.store (same eq).2, fun eq => ?_,
    fun calls => (edits ⟨_, []⟩).calls calls⟩
  simp only [Action.callback, List.map_reverse]
  exact congrArg (List.reverse ∘ World.events) (same eq).2

end Action.Bare

def Act.Plain : Act → Prop
  | .parse _ _ => False
  | _ => True

def Func.Plain : Func → Prop
  | .acts list => ∀ act ∈ list, act.Plain
  | _ => True

def Callbacks.plain : Callbacks := ⟨fun _ => True, fun _ => True, Func.Plain⟩

theorem Action.Bare.apply {nested : HandleId → String → Action Result} {func : Func}
    (plain : func.Plain) (v : Value) : Bare (Standard.apply nested func v) := by
  refine compositional.apply fun list acts => compositional.acts fun act mem => ?_
  subst acts
  have here : act.Plain := plain act mem
  cases act with
  | log | stop | const | wrap => exact .inl trivial
  | delete id =>
    refine .inr fun rest ih => ?_
    exact (register id).andThen fun h => (deleteInside h).andThen fun _ => ih
  | define id other =>
    refine .inr fun rest ih => ?_
    exact (register id).andThen fun h => (register other).andThen fun k =>
      (define h k).andThen fun _ => ih
  | parse => exact here.elim

namespace Meaning

theorem withNested_blind (compute : Standard.Calculation)
    {nested : HandleId → String → Action Result} (hnested : ∀ h text, (nested h text).Edits) :
    (withNested compute nested).Blind .plain where
  release r _ v := (Action.Bare.compositional.release r v).callback
    (Action.Edits.compositional.release r v) _
  fold f _ vs := (Action.Bare.compositional.fold compute f vs).callback
    (Action.Edits.compositional.fold compute f vs) _
  apply f plain v := (Action.Bare.apply plain v).callback (Action.Edits.apply hnested f v) _

theorem standard_blind (compute : Standard.Calculation) (levels : Nat) :
    (standard compute levels).Blind .plain := by
  cases levels with
  | zero => exact withNested_blind compute fun _ _ => .raise _
  | succ levels =>
    refine withNested_blind compute fun h text => ?_
    exact parse_edits (standard_edits compute levels) h text _

end Meaning

end Peg
