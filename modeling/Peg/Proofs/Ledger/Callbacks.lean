import Peg.Proofs.Ledger.Tracked

namespace Peg

open Value

def Ending.toList {α : Type} : Ending α → List α
  | .done a => [a]
  | _ => []

theorem made_makeBox (s : Store) (text : String) (id : Nat) :
    (s.makeBox text).2.made id = s.made id + count id [(s.makeBox text).1] := by
  change (if id ≤ s.boxes + 1 then 1 else 0) =
    (if id ≤ s.boxes then 1 else 0) + count id [.box (s.boxes + 1) text]
  rw [count_box]
  split <;> split <;> split <;> omega

structure World.Passes (w w' : World) (vs : List Value) : Prop where
  store : ∃ calls, w'.store = { w.store with calls := calls }
  passed : passed w'.events = vs.reverse ++ passed w.events

theorem World.Passes.trans {w₁ w₂ w₃ : World} {vs ws : List Value} (first : w₁.Passes w₂ vs)
    (second : w₂.Passes w₃ ws) : w₁.Passes w₃ (vs ++ ws) := by
  obtain ⟨_, store⟩ := first.store
  obtain ⟨calls, store'⟩ := second.store
  refine ⟨⟨calls, ?_⟩, ?_⟩
  · rw [store', store]
  · rw [second.passed, first.passed, List.reverse_append, List.append_assoc]

theorem release_passes {r : Release} {v : Value} {w w' : World} {ending : Ending Unit}
    (ordinary : r.Ordinary) (h : Standard.release r v w = (ending, w')) :
    w.Passes w' [v] ∧ (∀ message, ending ≠ .aborted message) ∧ (r.Quiet → ending = .done ()) := by
  cases r with
  | text | parser | notCallable => exact ordinary.elim
  | logged tag stopsAt how =>
    have passes : w.Passes ⟨(w.store.countCall tag).2, .released tag v :: w.events⟩ [v] :=
      ⟨⟨_, rfl⟩, rfl⟩
    change (if (w.store.countCall tag).1 ∈ stopsAt then Action.stop how else Proc.done ())
      ⟨(w.store.countCall tag).2, .released tag v :: w.events⟩ = (ending, w') at h
    by_cases stops : (w.store.countCall tag).1 ∈ stopsAt
    · rw [if_pos stops] at h
      obtain none | ⟨message, rfl⟩ := ordinary
      · rw [none] at stops
        cases stops
      · cases h
        refine ⟨passes, nofun, fun quiet => ?_⟩
        rw [show stopsAt = [] from quiet] at stops
        cases stops
    · rw [if_neg stops] at h
      cases h
      exact ⟨passes, nofun, fun _ => rfl⟩

theorem releaseEach_passes {r : Release} {vs : List Value} {w w' : World} {ending : Ending Unit}
    (ordinary : r.Ordinary) (h : Standard.releaseEach (some r) vs w = (ending, w')) :
    ∃ n, n ≤ vs.length ∧ w.Passes w' (vs.take n) ∧
      (ending = .done () ∧ n = vs.length ∨ ∃ fault, ending = .raised fault) ∧
      (r.Quiet → ending = .done ()) := by
  induction vs generalizing w with
  | nil =>
    cases h
    exact ⟨0, Nat.le_refl _, ⟨⟨_, rfl⟩, rfl⟩, .inl ⟨rfl, rfl⟩, fun _ => rfl⟩
  | cons v vs ih =>
    change Proc.andThen (Standard.release r v) (fun _ => Standard.releaseEach (some r) vs) w =
      (ending, w') at h
    rcases first : Standard.release r v w with ⟨_ | fault | message, w₁⟩
    · rw [Proc.andThen_done first] at h
      obtain ⟨passes, _, _⟩ := release_passes ordinary first
      obtain ⟨n, le, passes', out, quiet⟩ := ih h
      refine ⟨n + 1, Nat.succ_le_succ le, passes.trans passes', ?_, quiet⟩
      obtain ⟨done, all⟩ | raised := out
      · exact .inl ⟨done, congrArg (· + 1) all⟩
      · exact .inr raised
    · rw [Proc.andThen_raised first] at h
      cases h
      obtain ⟨passes, _, quiet⟩ := release_passes ordinary first
      refine ⟨1, Nat.succ_le_succ (Nat.zero_le _), passes, .inr ⟨fault, rfl⟩, fun silent => ?_⟩
      cases quiet silent
    · exact absurd rfl ((release_passes ordinary first).2.1 message)

theorem count_eraseIdx (vs : List Value) (n id : Nat) :
    count id (vs.eraseIdx n) + count id [(vs[n]?).getD .null] = count id vs := by
  induction vs generalizing n with
  | nil => rfl
  | cons v vs ih =>
    cases n with
    | zero =>
      rw [List.eraseIdx_cons_zero, count_cons id v vs]
      exact Nat.add_comm _ _
    | succ n =>
      have rest := ih n
      rw [List.eraseIdx_cons_succ, count_cons id v (vs.eraseIdx n), count_cons id v vs,
        List.getElem?_cons_succ]
      omega

theorem Fold.count_shares (fold : Fold) (vs : List Value) (id : Nat) :
    count id (fold.disposes vs) + count id (fold.keeps vs) = count id vs := by
  induction fold with
  | keep index release =>
    simp only [disposes, keeps, Standard.others, Standard.kept]
    split
    · rfl
    · exact count_eraseIdx vs _ id
  | logged tag inner ih => exact ih
  | concat | nothing | list | discard | size | difference | stop | box | numeral | chain
  | notCallable => rfl

/-- What a tidy fold comes to, having passed `n` values. -/
structure World.Folds (fold : Fold) (vs : List Value) (n : Nat) (w : World) (ending : Ending Value)
    (w' : World) : Prop where
  grammar : w'.store.grammar = w.store.grammar
  passed : passed w'.events = ((fold.disposes vs).take n).reverse ++ passed w.events
  le : n ≤ (fold.disposes vs).length
  out : (∃ v, ending = .done v ∧ n = (fold.disposes vs).length ∧
      ∀ id, w'.store.made id + count id (fold.keeps vs) = w.store.made id + count id [v]) ∨
    ((∃ fault, ending = .raised fault) ∧ w'.store.boxes = w.store.boxes)

theorem folds_of_releases (fold : Fold) (vs : List Value) {r : Release} {rest : Action Value}
    {w w' : World} {ending : Ending Value} (ordinary : r.Ordinary)
    (h : Proc.andThen (Standard.releaseEach (some r) (fold.disposes vs)) (fun _ => rest) w =
      (ending, w'))
    (yields : ∀ w, ∃ v s, rest w = (.done v, { w with store := s }) ∧ s.grammar = w.store.grammar ∧
      ∀ id, s.made id + count id (fold.keeps vs) = w.store.made id + count id [v]) :
    (∃ n, w.Folds fold vs n ending w') ∧ (r.Quiet → ∃ v, ending = .done v) := by
  rcases pass : Standard.releaseEach (some r) (fold.disposes vs) w with ⟨_ | fault | message, w₁⟩
  · rw [Proc.andThen_done pass] at h
    obtain ⟨n, le, passes, out, _⟩ := releaseEach_passes ordinary pass
    obtain ⟨calls, store⟩ := passes.store
    obtain ⟨v, s, done, grammar, made⟩ := yields w₁
    rw [done] at h
    cases h
    refine ⟨⟨n, ⟨?_, passes.passed, le, .inl ⟨v, rfl, ?_, fun id => ?_⟩⟩⟩, fun _ => ⟨v, rfl⟩⟩
    · rw [grammar, store]
    · obtain ⟨_, all⟩ | ⟨_, raised⟩ := out
      · exact all
      · cases raised
    · rw [made id, store]
      rfl
  -- The release that raised was the last one called, and no box was made.
  · rw [Proc.andThen_raised pass] at h
    cases h
    obtain ⟨n, le, passes, _, quiet⟩ := releaseEach_passes ordinary pass
    obtain ⟨calls, store⟩ := passes.store
    refine ⟨⟨n, ⟨?_, passes.passed, le, .inr ⟨⟨fault, rfl⟩, ?_⟩⟩⟩, fun silent => ?_⟩
    · rw [store]
    · rw [store]
    · cases quiet silent
  · obtain ⟨_, _, _, ⟨done, _⟩ | ⟨_, raised⟩, _⟩ := releaseEach_passes ordinary pass
    · cases done
    · cases raised

theorem fold_folds {compute : Standard.Calculation} {ok : Release → Prop} {fold : Fold}
    {vs : List Value} {w w' : World} {ending : Ending Value} (tidy : fold.Tidy ok)
    (ordinary : ∀ r, ok r → r.Ordinary)
    (h : Standard.fold compute fold vs w = (ending, w')) :
    (∃ n, w.Folds fold vs n ending w') ∧ ((∀ r, ok r → r.Quiet) → ∃ v, ending = .done v) := by
  induction fold generalizing w with
  | box release =>
    obtain ⟨r, rfl, allowed⟩ := tidy
    obtain ⟨folds, quiet⟩ := folds_of_releases (.box (some r)) vs (ordinary r allowed) h
      fun w => ⟨_, _, rfl, rfl, fun id => made_makeBox w.store _ id⟩
    exact ⟨folds, fun all => quiet (all r allowed)⟩
  | keep index release =>
    obtain ⟨r, rfl, allowed⟩ := tidy
    obtain ⟨folds, quiet⟩ := folds_of_releases (.keep index (some r)) vs (ordinary r allowed) h
      fun w => ⟨_, w.store, rfl, rfl, fun id => rfl⟩
    exact ⟨folds, fun all => quiet (all r allowed)⟩
  | discard release =>
    obtain ⟨r, rfl, allowed⟩ := tidy
    obtain ⟨folds, quiet⟩ := folds_of_releases (.discard (some r)) vs (ordinary r allowed) h
      fun w => ⟨.null, w.store, rfl, rfl, fun id => rfl⟩
    exact ⟨folds, fun all => quiet (all r allowed)⟩
  | logged tag inner ih =>
    obtain ⟨⟨n, folds⟩, quiet⟩ := ih (w := { w with events := .folded tag vs :: w.events }) tidy h
    exact ⟨⟨n, folds.grammar, folds.passed, folds.le, folds.out⟩, quiet⟩
  | concat | nothing | list | size | difference | stop | numeral | chain | notCallable =>
    exact tidy.elim

def Action.Yields (v : Value) (p : Action Value) : Prop :=
  ∀ w u w', p w = (.done u, w') → u = v

theorem Action.Yields.andThen {α : Type} {v : Value} {p : Action α} {f : α → Action Value}
    (hf : ∀ a, (f a).Yields v) : Yields v (Proc.andThen p f) := by
  intro w u w' h
  rcases ran : p w with ⟨a | _ | _, w₁⟩
  · rw [Proc.andThen_done ran] at h
    exact hf a w₁ u w' h
  · rw [Proc.andThen_raised ran] at h
    cases h
  · rw [Proc.andThen_aborted ran] at h
    cases h

theorem acts_yields {nested : HandleId → String → Action Result} (v : Value) {list : List Act}
    (benign : ∀ act ∈ list, act.Benign) : (Standard.acts nested v list).Yields v := by
  induction list with
  | nil =>
    intro w u w' h
    cases h
    rfl
  | cons act list ih =>
    have rest := ih fun act mem => benign act (List.mem_cons_of_mem _ mem)
    have head := benign act (List.mem_cons_self ..)
    cases act with
    | log tag =>
      rw [Standard.acts]
      exact .andThen fun _ => rest
    | stop how only =>
      rw [Standard.acts]
      refine .andThen fun wanted => ?_
      cases wanted with
      | false => exact rest
      | true => exact .andThen (p := Action.stop how) fun _ => rest
    | delete id =>
      rw [Standard.acts]
      exact .andThen fun _ => .andThen fun _ => rest
    | define id other =>
      rw [Standard.acts]
      exact .andThen fun _ => .andThen fun _ => .andThen fun _ => rest
    | const | wrap | parse => exact head.elim

structure World.Applies (ok : Release → Prop) (text : HandleId → Prop) (w : World)
    (ending : Ending Value) (w' : World) : Prop where
  heap : w.store.grammar.Tracked ok text → w'.store.grammar.Tracked ok text
  passed : passed w'.events = passed w.events
  made : ∀ id, w'.store.made id = w.store.made id + count id ending.toList
  unaborted : ∀ message, ending ≠ .aborted message

theorem acts_applies {ok : Release → Prop} {text : HandleId → Prop}
    {nested : HandleId → String → Action Result} {s : String} {list : List Act} {w w' : World}
    {ending : Ending Value} (benign : ∀ act ∈ list, act.Benign)
    (h : Standard.acts nested (.text s) list w = (ending, w')) : w.Applies ok text ending w' := by
  have acts : (Standard.acts nested (.text s) list).Tame ok text := .acts _ benign
  obtain ⟨tame, unaborted⟩ := acts w
  rw [h] at tame unaborted
  refine ⟨tame.heap, tame.passed, fun id => ?_, unaborted⟩
  have none : count id ending.toList = 0 := by
    rcases ending with u | _ | _
    · rw [acts_yields _ benign w u w' h]
      rfl
    · rfl
    · rfl
  rw [none, Store.made, Store.made, tame.boxes, Nat.add_zero]

theorem box_applies {ok : Release → Prop} {text : HandleId → Prop}
    (nested : HandleId → String → Action Result) {s : String} {w w' : World} {ending : Ending Value}
    (h : Standard.apply nested .box (.text s) w = (ending, w')) : w.Applies ok text ending w' := by
  cases h
  exact ⟨id, rfl, made_makeBox w.store s, nofun⟩

end Peg
