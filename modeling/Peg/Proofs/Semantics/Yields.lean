import Peg.Proofs.Run.Stages

/-!
What a handle yields, stated without a run: no guard, no store, no loop and no fault. `Yields` is
the semantics of ordered choice over a graph of handles, and counts how deeply handles are nested.
It is functional, in its result and in the depth.
-/

namespace Peg

structure Denotation where
  fold : Fold → List Value → Value
  apply : Func → Value → Value

/-- All that several failures expected, at the furthest position of any. -/
def Failure.Unites (f : Failure) (fs : List Failure) : Prop :=
  (∀ a, a ∈ f.expected ↔ ∃ g ∈ fs, a ∈ g.expected) ∧
  (∀ g ∈ fs, g.position ≤ f.position) ∧ ∃ g ∈ fs, g.position = f.position

/-- What can yield a result: a handle, a node, the alternatives left after some have failed, the
items left after some have yielded values, and the turns left after some have. -/
inductive Goal where
  | handle (h : HandleId)
  | node (node : Node)
  | alternatives (failed : List Failure) (left : List HandleId)
  | items (fold : Fold) (left : List HandleId) (values : List Value)
  | turns (fold : Fold) (item : HandleId) (least : Int) (most : Option Int) (values : List Value)

/-- A goal yields a result, handles being nested so deep at most. -/
inductive Yields (g : Grammar) (den : Denotation) : Goal → Cursor → Result → Nat → Prop where
  | handle {h c body r d} : (g.get h).status = .defined body →
      Yields g den (.node body.node) c r d → Yields g den (.handle h) c r (d + 1)
  | leaf {node c r} : Leaf node c r → Yields g den (.node node) c r 0
  | choice {first others c r d} : Yields g den (.alternatives [] (first :: others)) c r d →
      Yields g den (.node (.choice first others)) c r d
  | chosen {fs h hs c v next d} : Yields g den (.handle h) c (.success v next) d →
      Yields g den (.alternatives fs (h :: hs)) c (.success v next) d
  | passed {fs h hs c f d r e} : Yields g den (.handle h) c (.failure f) d →
      Yields g den (.alternatives (fs ++ [f]) hs) c r e →
      Yields g den (.alternatives fs (h :: hs)) c r (max d e)
  | exhausted {fs f c} : f.Unites fs → Yields g den (.alternatives fs []) c (.failure f) 0
  | sequence {fold items c r d} : Yields g den (.items fold (items.map (·.1)) []) c r d →
      Yields g den (.node (.sequence fold items)) c r d
  | itemsDone {fold vs c} :
      Yields g den (.items fold [] vs) c (.success (den.fold fold vs) c) 0
  | itemDone {fold h hs vs c v next d r e} : Yields g den (.handle h) c (.success v next) d →
      Yields g den (.items fold hs (vs ++ [v])) next r e →
      Yields g den (.items fold (h :: hs) vs) c r (max d e)
  | itemFailed {fold h hs vs c f d} : Yields g den (.handle h) c (.failure f) d →
      Yields g den (.items fold (h :: hs) vs) c (.failure f) d
  | repetition {fold item least most release c r d} :
      Yields g den (.turns fold item least most []) c r d →
      Yields g den (.node (.repetition fold item least most release)) c r d
  | turnsFull {fold item least most vs c} : Full most vs.length →
      Yields g den (.turns fold item least most vs) c (.success (den.fold fold vs) c) 0
  | turnMoved {fold item least most vs c v next d r e} : ¬ Full most vs.length →
      Yields g den (.handle item) c (.success v next) d → ¬ Still most c next →
      Yields g den (.turns fold item least most (vs ++ [v])) next r e →
      Yields g den (.turns fold item least most vs) c r (max d e)
  | turnStill {fold item least most vs c v next d} : ¬ Full most vs.length →
      Yields g den (.handle item) c (.success v next) d → Still most c next →
      Yields g den (.turns fold item least most vs) c
        (.success (den.fold fold (vs ++ [v])) next) d
  | turnFailed {fold item least most vs c f d} : ¬ Full most vs.length →
      Yields g den (.handle item) c (.failure f) d → least ≤ (vs.length : Int) →
      Yields g den (.turns fold item least most vs) c (.success (den.fold fold vs) c) d
  | turnShort {fold item least most vs c f d} : ¬ Full most vs.length →
      Yields g den (.handle item) c (.failure f) d → (vs.length : Int) < least →
      Yields g den (.turns fold item least most vs) c (.failure f) d
  | applied {item func c v next d} : Yields g den (.handle item) c (.success v next) d →
      Yields g den (.node (.apply item func)) c (.success (den.apply func v) next) d
  | unapplied {item func c f d} : Yields g den (.handle item) c (.failure f) d →
      Yields g den (.node (.apply item func)) c (.failure f) d
  | expected {item label c v next d} : Yields g den (.handle item) c (.success v next) d →
      Yields g den (.node (.expect item label)) c (.success v next) d
  | relabelled {item label c f d} : Yields g den (.handle item) c (.failure f) d →
      f.position = c.pos →
      Yields g den (.node (.expect item label)) c (.failure ⟨.singleton label, c.pos⟩) d
  | unlabelled {item label c f d} : Yields g den (.handle item) c (.failure f) d →
      f.position ≠ c.pos → Yields g den (.node (.expect item label)) c (.failure f) d

theorem Failure.Unites.unique {f f' : Failure} {fs : List Failure} (unites : f.Unites fs)
    (unites' : f'.Unites fs) : f = f' := by
  obtain ⟨expected, furthest, k, mem, at_k⟩ := unites
  obtain ⟨expected', furthest', k', mem', at_k'⟩ := unites'
  have position : f.position = f'.position := by
    have le := furthest k' mem'
    have ge := furthest' k mem
    omega
  have labels : f.expected = f'.expected :=
    Labels.eq_of_mem_iff fun a => (expected a).trans (expected' a).symm
  cases f
  cases f'
  cases position
  cases labels
  rfl

theorem Failure.unites_singleton (f : Failure) : f.Unites [f] := by
  simp [Failure.Unites]

theorem Failure.Unites.merge {f g : Failure} {fs : List Failure} (unites : f.Unites fs) :
    (f.merge g).Unites (fs ++ [g]) := by
  obtain ⟨expected, furthest, k, mem, at_k⟩ := unites
  refine ⟨fun a => ?_, fun j there => ?_, ?_⟩
  · simp only [Failure.merge, Labels.mem_union, expected, List.mem_append, List.mem_singleton,
      or_and_right, exists_or, exists_eq_left]
  · simp only [Failure.merge]
    rcases List.mem_append.mp there with there | there
    · have le := furthest j there
      omega
    · obtain rfl := List.mem_singleton.mp there
      omega
  · simp only [Failure.merge]
    rcases Int.le_total f.position g.position with le | le
    · exact ⟨g, List.mem_append_right _ (List.mem_singleton_self g), by omega⟩
    · exact ⟨k, List.mem_append_left _ mem, by omega⟩

theorem Yields.unique {g : Grammar} {den : Denotation} {goal : Goal} {c : Cursor} {r r' : Result}
    {d d' : Nat} (yields : Yields g den goal c r d) (yields' : Yields g den goal c r' d') :
    r = r' ∧ d = d' := by
  -- Rules for one goal are told apart by what the first handle yields or by their side conditions.
  induction yields generalizing r' d' with
  | handle status _ ih =>
    cases yields' with
    | handle status' inside' =>
      rw [status] at status'
      cases status'
      obtain ⟨rfl, rfl⟩ := ih inside'
      exact ⟨rfl, rfl⟩
  | leaf leaf =>
    cases yields' with
    | leaf leaf' => exact ⟨leaf.unique leaf', rfl⟩
    | _ => cases leaf
  | choice _ ih =>
    cases yields' with
    | leaf leaf' => cases leaf'
    | choice inside' => exact ih inside'
  | chosen _ ih =>
    cases yields' with
    | chosen first' => exact ih first'
    | passed first' => cases (ih first').1
  | passed _ _ ih ih' =>
    cases yields' with
    | chosen first' => cases (ih first').1
    | passed first' rest' =>
      obtain ⟨same, rfl⟩ := ih first'
      cases same
      obtain ⟨rfl, rfl⟩ := ih' rest'
      exact ⟨rfl, rfl⟩
  | exhausted unites =>
    cases yields' with
    | exhausted unites' => exact ⟨congrArg _ (unites.unique unites'), rfl⟩
  | sequence _ ih =>
    cases yields' with
    | leaf leaf' => cases leaf'
    | sequence inside' => exact ih inside'
  | itemsDone =>
    cases yields'
    exact ⟨rfl, rfl⟩
  | itemDone _ _ ih ih' =>
    cases yields' with
    | itemDone first' rest' =>
      obtain ⟨same, rfl⟩ := ih first'
      cases same
      obtain ⟨rfl, rfl⟩ := ih' rest'
      exact ⟨rfl, rfl⟩
    | itemFailed first' => cases (ih first').1
  | itemFailed _ ih =>
    cases yields' with
    | itemDone first' => cases (ih first').1
    | itemFailed first' => exact ih first'
  | repetition _ ih =>
    cases yields' with
    | leaf leaf' => cases leaf'
    | repetition inside' => exact ih inside'
  | turnsFull full =>
    cases yields' with
    | turnsFull => exact ⟨rfl, rfl⟩
    | turnMoved more' | turnStill more' | turnFailed more' | turnShort more' =>
      exact absurd full more'
  | turnMoved more _ moved _ ih ih' =>
    cases yields' with
    | turnsFull full' => exact absurd full' more
    | turnMoved _ first' _ rest' =>
      obtain ⟨same, rfl⟩ := ih first'
      cases same
      obtain ⟨rfl, rfl⟩ := ih' rest'
      exact ⟨rfl, rfl⟩
    | turnStill _ first' still' =>
      cases (ih first').1
      exact absurd still' moved
    | turnFailed _ first' | turnShort _ first' => cases (ih first').1
  | turnStill more _ still ih =>
    cases yields' with
    | turnsFull full' => exact absurd full' more
    | turnMoved _ first' moved' =>
      cases (ih first').1
      exact absurd still moved'
    | turnStill _ first' =>
      obtain ⟨same, rfl⟩ := ih first'
      cases same
      exact ⟨rfl, rfl⟩
    | turnFailed _ first' | turnShort _ first' => cases (ih first').1
  | turnFailed more _ enough ih =>
    cases yields' with
    | turnsFull full' => exact absurd full' more
    | turnMoved _ first' | turnStill _ first' => cases (ih first').1
    | turnFailed _ first' => exact ⟨rfl, (ih first').2⟩
    | turnShort _ _ short' => omega
  | turnShort more _ short ih =>
    cases yields' with
    | turnsFull full' => exact absurd full' more
    | turnMoved _ first' | turnStill _ first' => cases (ih first').1
    | turnFailed _ _ enough' => omega
    | turnShort _ first' => exact ih first'
  | applied _ ih =>
    cases yields' with
    | leaf leaf' => cases leaf'
    | applied first' =>
      obtain ⟨same, rfl⟩ := ih first'
      cases same
      exact ⟨rfl, rfl⟩
    | unapplied first' => cases (ih first').1
  | unapplied _ ih =>
    cases yields' with
    | leaf leaf' => cases leaf'
    | applied first' => cases (ih first').1
    | unapplied first' => exact ih first'
  | expected _ ih =>
    cases yields' with
    | leaf leaf' => cases leaf'
    | expected first' => exact ih first'
    | relabelled first' | unlabelled first' => cases (ih first').1
  | relabelled _ start ih =>
    cases yields' with
    | leaf leaf' => cases leaf'
    | expected first' => cases (ih first').1
    | relabelled first' => exact ⟨rfl, (ih first').2⟩
    | unlabelled first' later' =>
      cases (ih first').1
      exact absurd start later'
  | unlabelled _ later ih =>
    cases yields' with
    | leaf leaf' => cases leaf'
    | expected first' => cases (ih first').1
    | relabelled first' start' =>
      cases (ih first').1
      exact absurd start' later
    | unlabelled first' => exact ih first'

namespace Yields

variable {g : Grammar} {den : Denotation} {c : Cursor} {r : Result} {d : Nat}

theorem choice_iff {first : HandleId} {others : List HandleId} :
    Yields g den (.node (.choice first others)) c r d ↔
      Yields g den (.alternatives [] (first :: others)) c r d := by
  constructor
  · intro yields
    cases yields with
    | leaf leaf => cases leaf
    | choice inside => exact inside
  · exact .choice

theorem sequence_iff {fold : Fold} {items : List (HandleId × Option Release)} :
    Yields g den (.node (.sequence fold items)) c r d ↔
      Yields g den (.items fold (items.map (·.1)) []) c r d := by
  constructor
  · intro yields
    cases yields with
    | leaf leaf => cases leaf
    | sequence inside => exact inside
  · exact .sequence

theorem repetition_iff {fold : Fold} {item : HandleId} {least : Int} {most : Option Int}
    {release : Option Release} :
    Yields g den (.node (.repetition fold item least most release)) c r d ↔
      Yields g den (.turns fold item least most []) c r d := by
  constructor
  · intro yields
    cases yields with
    | leaf leaf => cases leaf
    | repetition inside => exact inside
  · exact .repetition

section

variable {h item : HandleId} {hs : List HandleId} {fold : Fold} {vs : List Value} {least : Int}
  {most : Option Int}

theorem alternatives_first {fs : List Failure}
    (yields : Yields g den (.alternatives fs (h :: hs)) c r d) :
    ∃ r₁ d₁, d₁ ≤ d ∧ Yields g den (.handle h) c r₁ d₁ := by
  cases yields with
  | chosen first => exact ⟨_, _, Nat.le_refl _, first⟩
  | passed first => exact ⟨_, _, Nat.le_max_left .., first⟩

theorem items_first (yields : Yields g den (.items fold (h :: hs) vs) c r d) :
    ∃ r₁ d₁, d₁ ≤ d ∧ Yields g den (.handle h) c r₁ d₁ := by
  cases yields with
  | itemDone first => exact ⟨_, _, Nat.le_max_left .., first⟩
  | itemFailed first => exact ⟨_, _, Nat.le_refl _, first⟩

theorem turns_first (more : ¬ Full most vs.length)
    (yields : Yields g den (.turns fold item least most vs) c r d) :
    ∃ r₁ d₁, d₁ ≤ d ∧ Yields g den (.handle item) c r₁ d₁ := by
  cases yields with
  | turnsFull full => exact absurd full more
  | turnMoved _ first => exact ⟨_, _, Nat.le_max_left .., first⟩
  | turnStill _ first | turnFailed _ first | turnShort _ first =>
    exact ⟨_, _, Nat.le_refl _, first⟩

theorem apply_first {func : Func} (yields : Yields g den (.node (.apply item func)) c r d) :
    ∃ r₁ d₁, d₁ ≤ d ∧ Yields g den (.handle item) c r₁ d₁ := by
  cases yields with
  | leaf leaf => cases leaf
  | applied first | unapplied first => exact ⟨_, _, Nat.le_refl _, first⟩

theorem expect_first {label : String} (yields : Yields g den (.node (.expect item label)) c r d) :
    ∃ r₁ d₁, d₁ ≤ d ∧ Yields g den (.handle item) c r₁ d₁ := by
  cases yields with
  | leaf leaf => cases leaf
  | expected first | relabelled first | unlabelled first => exact ⟨_, _, Nat.le_refl _, first⟩

theorem alternatives_rest {fs : List Failure} {f : Failure} {e : Nat}
    (first : Yields g den (.handle h) c (.failure f) e)
    (yields : Yields g den (.alternatives fs (h :: hs)) c r d) :
    ∃ d', d' ≤ d ∧ Yields g den (.alternatives (fs ++ [f]) hs) c r d' := by
  cases yields with
  | chosen first' => cases (first.unique first').1
  | passed first' rest =>
    cases (first.unique first').1
    exact ⟨_, Nat.le_max_right .., rest⟩

theorem items_rest {v : Value} {next : Cursor} {e : Nat}
    (first : Yields g den (.handle h) c (.success v next) e)
    (yields : Yields g den (.items fold (h :: hs) vs) c r d) :
    ∃ d', d' ≤ d ∧ Yields g den (.items fold hs (vs ++ [v])) next r d' := by
  cases yields with
  | itemDone first' rest =>
    cases (first.unique first').1
    exact ⟨_, Nat.le_max_right .., rest⟩
  | itemFailed first' => cases (first.unique first').1

theorem turns_rest {v : Value} {next : Cursor} {e : Nat} (more : ¬ Full most vs.length)
    (first : Yields g den (.handle item) c (.success v next) e) (moved : ¬ Still most c next)
    (yields : Yields g den (.turns fold item least most vs) c r d) :
    ∃ d', d' ≤ d ∧ Yields g den (.turns fold item least most (vs ++ [v])) next r d' := by
  cases yields with
  | turnsFull full => exact absurd full more
  | turnMoved _ first' _ rest =>
    cases (first.unique first').1
    exact ⟨_, Nat.le_max_right .., rest⟩
  | turnStill _ first' still =>
    cases (first.unique first').1
    exact absurd still moved
  | turnFailed _ first' | turnShort _ first' => cases (first.unique first').1

end

end Yields

end Peg
