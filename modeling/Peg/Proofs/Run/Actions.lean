import Peg.Callback.Standard

namespace Peg

/-- A property of actions that holds of one action and then another if it holds of both, and that
holds of what callbacks do without a look at the grammar. -/
structure Action.Compositional (Q : ∀ {α : Type}, Action α → Prop) : Prop where
  done : ∀ {α : Type} (a : α), Q (Proc.done a)
  raise : ∀ {α : Type} (fault : Fault), Q (α := α) (Proc.raise fault)
  andThen : ∀ {α β : Type} {p : Action α} {f : α → Action β}, Q p → (∀ a, Q (f a)) →
    Q (Proc.andThen p f)
  stop : ∀ how, Q (Action.stop how)
  released : ∀ tag v, Q (Action.note (.released tag v))
  folded : ∀ tag vs, Q (Action.note (.folded tag vs))
  mapped : ∀ tag v, Q (Action.note (.mapped tag v))
  countCall : ∀ tag, Q (Action.update fun s => s.countCall tag)
  makeBox : ∀ text, Q (Action.update fun s => s.makeBox text)
  makeValue : ∀ t, Q (Action.makeValue t)
  isWanted : ∀ (only : Option Template) (v : Value),
    Q (Action.read fun s => only.all fun t => v.same (s.makeValue t).1)

def Act.Aloof : Act → Prop
  | .delete _ | .define _ _ | .parse _ _ => False
  | _ => True

def Func.Aloof : Func → Prop
  | .acts list => ∀ act ∈ list, act.Aloof
  | _ => True

namespace Action.Compositional

variable {Q : ∀ {α : Type}, Action α → Prop} (compositional : Action.Compositional @Q)
include compositional

theorem ofExcept {α : Type} (e : Except Fault α) : Q (Proc.ofExcept e) := by
  cases e with
  | ok a => exact compositional.done a
  | error fault => exact compositional.raise fault

theorem release (r : Release) (v : Value) : Q (Standard.release r v) := by
  cases r with
  | text => exact compositional.done ()
  | parser | notCallable => exact compositional.raise _
  | logged tag stopsAt how =>
    simp only [Standard.release, Proc.bind_eq]
    refine compositional.andThen (compositional.countCall tag) fun n => ?_
    refine compositional.andThen (compositional.released tag v) fun _ => ?_
    split
    · exact compositional.stop how
    · exact compositional.done ()

theorem releaseEach (r : Option Release) (vs : List Value) : Q (Standard.releaseEach r vs) := by
  cases r with
  | none => exact compositional.done ()
  | some r =>
    induction vs with
    | nil => exact compositional.done ()
    | cons v vs ih => exact compositional.andThen (compositional.release r v) fun _ => ih

theorem fold (compute : Standard.Calculation) (fold : Fold) (vs : List Value) :
    Q (Standard.fold compute fold vs) := by
  induction fold with
  | concat | numeral => exact compositional.ofExcept _
  | nothing | list | size => exact compositional.done _
  | keep index r =>
    exact compositional.andThen (compositional.releaseEach r _) fun _ => compositional.done _
  | discard r =>
    exact compositional.andThen (compositional.releaseEach r _) fun _ => compositional.done _
  | difference =>
    rcases vs with _ | ⟨v, _ | ⟨w, vs⟩⟩
    · exact compositional.raise _
    · exact compositional.raise _
    · exact compositional.ofExcept _
  | stop how => exact compositional.andThen (compositional.stop how) fun _ => compositional.done _
  | box r =>
    exact compositional.andThen (compositional.releaseEach r _) fun _ => compositional.makeBox _
  | logged tag inner ih => exact compositional.andThen (compositional.folded tag vs) fun _ => ih
  | chain =>
    rcases vs with _ | ⟨v, _ | ⟨w, vs⟩⟩
    · exact compositional.raise _
    · exact compositional.raise _
    · cases w with
      | list rest =>
        cases vs with
        | nil => exact compositional.ofExcept _
        | cons => exact compositional.raise _
      | _ => exact compositional.raise _
  | notCallable => exact compositional.raise _

variable {nested : HandleId → String → Action Result}

theorem acts {v : Value} {list : List Act} (others : ∀ act ∈ list, act.Aloof ∨
      ∀ rest, Q (Standard.acts nested v rest) → Q (Standard.acts nested v (act :: rest))) :
    Q (Standard.acts nested v list) := by
  induction list with
  | nil => exact compositional.done v
  | cons act list ih =>
    have rest := ih fun act mem => others act (List.mem_cons_of_mem _ mem)
    obtain aloof | here := others act (List.mem_cons_self ..)
    · cases act with
      | log tag => exact compositional.andThen (compositional.mapped tag v) fun _ => rest
      | stop how only =>
        simp only [Standard.acts, Proc.bind_eq]
        refine compositional.andThen (compositional.isWanted only v) fun wanted => ?_
        cases wanted with
        | false => exact rest
        | true => exact compositional.andThen (compositional.stop how) fun _ => rest
      | const t => exact compositional.makeValue t
      | wrap t =>
        simp only [Standard.acts, Proc.bind_eq]
        exact compositional.andThen (compositional.makeValue t) fun _ => compositional.done _
      | delete | define | parse => exact aloof.elim
    · exact here list rest

theorem apply {func : Func} {v : Value}
    (acts : ∀ list, func = .acts list → Q (Standard.acts nested v list)) :
    Q (Standard.apply nested func v) := by
  cases func with
  | box =>
    cases v with
    | text => exact compositional.makeBox _
    | _ => exact compositional.raise _
  | number => exact compositional.ofExcept _
  | length =>
    cases v with
    | text | list => exact compositional.done _
    | _ => exact compositional.raise _
  | operator =>
    cases v with
    | text => exact compositional.done _
    | _ => exact compositional.done _
  | acts list => exact acts list rfl
  | notCallable => exact compositional.raise _

end Action.Compositional

end Peg
