import Peg.Callback.Standard
import Peg.Proofs.Run.Frames

/-!
Settlements. Values that were produced have an owner: the call that holds them, or the fold they
were handed to. When the owner is done, its values are settled: they have been passed to releases as
far as the passes over them came. A call makes up to two passes, one after the failure of a child
and one after a fault; a fold makes one.

Settlements are read off the journal, as frames are.
-/

namespace Peg

def Value.isBox (id : Nat) : Value → Bool
  | .box i _ => i == id
  | _ => false

def Event.passed? : Event → Option Value
  | .released _ v => some v
  | _ => none

def passed (events : List Event) : List Value := events.filterMap Event.passed?

/-- The values that a fold is to release. -/
def Fold.disposes : Fold → List Value → List Value
  | .keep index _, vs => Standard.others (Standard.position index vs.length) vs
  | .logged _ inner, vs => inner.disposes vs
  | _, vs => vs

def Fold.keeps : Fold → List Value → List Value
  | .keep index _, vs => [Standard.kept (Standard.position index vs.length) vs]
  | .logged _ inner, vs => inner.keeps vs
  | _, _ => []

/-- Values whose owner is done, and how far each pass over them came. -/
structure Settlement where
  values : List Value
  first : Nat
  second : Nat

namespace Settlement

def calls (x : Settlement) : List Value := x.values.take x.first ++ x.values.take x.second

/-- Every box is come to by one of the passes, and by one only. -/
def Exact (x : Settlement) : Prop :=
  ∀ (i id : Nat) (text : String), x.values[i]? = some (.box id text) →
    (i < x.first ↔ ¬ i < x.second)

end Settlement

/-- What a call settles that is left now. -/
def Frame.settlement (F : Frame) : Settlement :=
  ⟨F.held.map (·.1), F.failurePass.length, F.handlerPass.length⟩

def Entry.settles (e : Entry) (frames : List Frame) : List Settlement :=
  match e, frames with
  | .left _ _ _, F :: _ => [F.settlement]
  | .folded fold vs (.done _) events _, _ => [⟨fold.disposes vs, (passed events).length, 0⟩]
  | .folded fold vs _ events _, _ =>
    [⟨fold.disposes vs ++ fold.keeps vs, (passed events).length, 0⟩]
  | _, _ => []

def settlements : List Entry → List Settlement
  | [] => []
  | e :: journal => e.settles (frames journal) ++ settlements journal

@[simp] theorem passed_nil : passed [] = [] := rfl

@[simp] theorem passed_append (es fs : List Event) : passed (es ++ fs) = passed es ++ passed fs :=
  List.filterMap_append

@[simp] theorem passed_reverse (es : List Event) : passed es.reverse = (passed es).reverse :=
  List.filterMap_reverse

namespace Value

theorem isBox_iff {id : Nat} {v : Value} : v.isBox id = true ↔ ∃ text, v = .box id text := by
  cases v with
  | box i text => simp [isBox]
  | null | boolean | integer | float | text | list | operator => simp [isBox]

theorem isBox_of_shape {v : Value} (shape : v.shape ≠ .box) (id : Nat) : v.isBox id = false := by
  cases v with
  | box => exact absurd rfl shape
  | null | boolean | integer | float | text | list | operator => rfl

def count (id : Nat) (vs : List Value) : Nat := vs.countP (isBox id)

@[simp] theorem count_nil (id : Nat) : count id [] = 0 := rfl

@[simp] theorem count_append (id : Nat) (vs ws : List Value) :
    count id (vs ++ ws) = count id vs + count id ws := List.countP_append

theorem count_cons (id : Nat) (v : Value) (vs : List Value) :
    count id (v :: vs) = count id [v] + count id vs := count_append id [v] vs

theorem count_box (id i : Nat) (text : String) :
    count id [.box i text] = if i = id then 1 else 0 := by
  simp [count, isBox]

theorem count_of_shape {v : Value} (shape : v.shape ≠ .box) (id : Nat) : count id [v] = 0 := by
  simp [count, isBox_of_shape shape]

theorem count_take_le (id n : Nat) (vs : List Value) : count id (vs.take n) ≤ count id vs :=
  (List.take_sublist n vs).countP_le

end Value

namespace Settlement

open Value

theorem exact_nil (n k : Nat) : Exact ⟨[], n, k⟩ := by
  intro i id text here
  cases here

theorem exact_first {vs : List Value} {n : Nat} (all : vs.length ≤ n) : Exact ⟨vs, n, 0⟩ := by
  intro i id text here
  have lt : i < vs.length := (List.getElem?_eq_some_iff.mp here).1
  change i < n ↔ ¬ i < 0
  omega

theorem exact_second {vs : List Value} {n : Nat} (all : vs.length ≤ n) : Exact ⟨vs, 0, n⟩ := by
  intro i id text here
  have lt : i < vs.length := (List.getElem?_eq_some_iff.mp here).1
  change i < 0 ↔ ¬ i < n
  omega

theorem count_passes (vs : List Value) (n k id : Nat)
    (exact : ∀ (i id : Nat) (text : String), vs[i]? = some (.box id text) → (i < n ↔ ¬ i < k)) :
    count id (vs.take n) + count id (vs.take k) = count id vs := by
  -- The first value is passed once if it is a box, and it does not matter whether it is if not.
  induction vs generalizing n k with
  | nil => simp
  | cons v vs ih =>
    have head : v.shape = .box → (0 < n ↔ ¬ 0 < k) := by
      intro shape
      cases v with
      | box i text => exact exact 0 i text rfl
      | null | boolean | integer | float | text | list | operator => cases shape
    have tail := ih (n - 1) (k - 1) fun i id text here => by
      have := exact (i + 1) id text here
      omega
    have first := count_cons id v vs
    by_cases shape : v.shape = .box
    · have head := head shape
      cases n with
      | zero =>
        cases k with
        | zero => omega
        | succ k =>
          rw [List.take_succ_cons, count_cons]
          simp only [Nat.zero_sub, Nat.add_sub_cancel, List.take_zero, count_nil] at tail ⊢
          omega
      | succ n =>
        cases k with
        | zero =>
          rw [List.take_succ_cons, count_cons]
          simp only [Nat.zero_sub, Nat.add_sub_cancel, List.take_zero, count_nil] at tail ⊢
          omega
        | succ k => omega
    · have none := count_of_shape shape id
      have shorter (n : Nat) : count id ((v :: vs).take n) = count id (vs.take (n - 1)) := by
        cases n with
        | zero => rfl
        | succ n =>
          rw [List.take_succ_cons, count_cons, none]
          simp
      rw [shorter, shorter]
      omega

theorem count_pass {vs : List Value} {i id : Nat} {text : String}
    (here : vs[i]? = some (.box id text)) (once : count id vs = 1) (n : Nat) :
    count id (vs.take n) = if i < n then 1 else 0 := by
  have split : count id (vs.take n) + count id (vs.drop n) = 1 := by
    rw [← count_append, List.take_append_drop, once]
  by_cases lt : i < n
  · have mem : Value.box id text ∈ vs.take n := by
      refine List.mem_of_getElem? (i := i) ?_
      rw [List.getElem?_take_of_lt lt, here]
    have pos : 0 < count id (vs.take n) :=
      List.countP_pos_iff.mpr ⟨_, mem, isBox_iff.mpr ⟨text, rfl⟩⟩
    rw [if_pos lt]
    omega
  · have mem : Value.box id text ∈ vs.drop n := by
      refine List.mem_of_getElem? (i := i - n) ?_
      rw [List.getElem?_drop, Nat.add_sub_cancel' (Nat.le_of_not_lt lt), here]
    have pos : 0 < count id (vs.drop n) :=
      List.countP_pos_iff.mpr ⟨_, mem, isBox_iff.mpr ⟨text, rfl⟩⟩
    rw [if_neg lt]
    omega

end Settlement

def settled (id : Nat) (xs : List Settlement) : Nat := Value.count id (xs.flatMap (·.values))

def called (id : Nat) (xs : List Settlement) : Nat := Value.count id (xs.flatMap (·.calls))

section

variable (id : Nat) (xs ys : List Settlement)

@[simp] theorem settled_append : settled id (xs ++ ys) = settled id xs + settled id ys := by
  simp [settled]

@[simp] theorem called_append : called id (xs ++ ys) = called id xs + called id ys := by
  simp [called]

@[simp] theorem settled_cons (x : Settlement) :
    settled id (x :: xs) = Value.count id x.values + settled id xs := by simp [settled]

@[simp] theorem called_cons (x : Settlement) :
    called id (x :: xs) = Value.count id x.calls + called id xs := by simp [called]

theorem called_le : called id xs ≤ 2 * settled id xs := by
  induction xs with
  | nil => exact Nat.le_refl _
  | cons x xs ih =>
    have first := Value.count_take_le id x.first x.values
    have second := Value.count_take_le id x.second x.values
    simp only [called_cons, settled_cons, Settlement.calls, Value.count_append]
    omega

theorem called_of_exact (exact : ∀ x ∈ xs, x.Exact) : called id xs = settled id xs := by
  induction xs with
  | nil => rfl
  | cons x xs ih =>
    have head :=
      Settlement.count_passes x.values x.first x.second id (exact x (List.mem_cons_self ..))
    have tail := ih fun y mem => exact y (List.mem_cons_of_mem _ mem)
    simp only [called_cons, settled_cons, Settlement.calls, Value.count_append]
    omega

end

/-- Where no box is settled twice, settlements are exact just if the passes come to every box as
often as it is settled. -/
theorem exact_iff_called {xs : List Settlement} (once : ∀ id, settled id xs ≤ 1) :
    (∀ x ∈ xs, x.Exact) ↔ ∀ id, called id xs = settled id xs := by
  constructor
  · intro exact id
    exact called_of_exact id xs exact
  · intro same x mem i id text here
    obtain ⟨before, after, rfl⟩ := List.append_of_mem mem
    have pos : 0 < Value.count id x.values :=
      List.countP_pos_iff.mpr ⟨_, List.mem_of_getElem? here, Value.isBox_iff.mpr ⟨text, rfl⟩⟩
    have once := once id
    have same := same id
    have before_le := called_le id before
    have after_le := called_le id after
    simp only [settled_append, called_append, settled_cons, called_cons, Settlement.calls,
      Value.count_append] at once same
    have alone : Value.count id x.values = 1 := by omega
    rw [Settlement.count_pass here alone, Settlement.count_pass here alone] at same
    split at same <;> split at same <;> omega

end Peg
