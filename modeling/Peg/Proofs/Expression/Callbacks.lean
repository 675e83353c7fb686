import Peg.Proofs.Expression.Syntax
import Peg.Proofs.Semantics.Settles

namespace Peg

namespace Sample.Expression

def letter (a : Char) : Value := .text (String.singleton a)

theorem join_letters (index : Nat) (as : List Char) :
    Standard.join index (as.map letter) = .ok (String.ofList as) := by
  induction as generalizing index with
  | nil => rfl
  | cons a as ih =>
    have joined : Standard.join index ((a :: as).map letter) =
        (Standard.join (index + 1) (as.map letter)).map (String.singleton a ++ ·) := rfl
    rw [joined, ih]
    simp [Except.map, String.ofList_cons]

theorem digitValue?_digitChar (i : Fin 10) : Text.digitValue? (digitChar i) = some i.val := by
  revert i
  decide

theorem isBlank_digitChar (i : Fin 10) : Text.isBlank (digitChar i) = false := by
  revert i
  decide

theorem afterDigit_digits (n : Nat) (ds : List (Fin 10)) :
    Numeral.afterDigit n (ds.map digitChar) = some (ds.foldl (fun n i => 10 * n + i.val) n) := by
  induction ds generalizing n with
  | nil => rfl
  | cons i ds ih =>
    have digit : digitChar i ≠ '_' := by
      revert i
      decide
    rw [List.map_cons, Numeral.afterDigit, digitValue?_digitChar]
    · exact ih _
    · exact fun _ _ underscore _ => digit underscore

theorem trimmed_digits (ds : List (Fin 10)) :
    Text.trimmed (ds.map digitChar) = ds.map digitChar := by
  have untouched (as : List Char) (digits : ∀ a ∈ as, Text.isBlank a = false) :
      as.dropWhile Text.isBlank = as := by
    cases as with
    | nil => rfl
    | cons a as => simp [digits a]
  have digits : ∀ a ∈ ds.map digitChar, Text.isBlank a = false := by
    simp [isBlank_digitChar]
  rw [Text.trimmed, untouched _ digits, untouched _ (by simpa using digits), List.reverse_reverse]

theorem int?_digits {ds : List (Fin 10)} (some_left : ds ≠ []) :
    Numeral.int? (String.ofList (ds.map digitChar)) = some (decimal ds : Int) := by
  rw [Numeral.int?, String.toList_ofList, trimmed_digits]
  cases ds with
  | nil => exact absurd rfl some_left
  | cons i ds =>
    have unsigned : ∀ i, digitChar i ≠ '+' ∧ digitChar i ≠ '-' := by decide
    rw [List.map_cons, Numeral.signed?]
    · simp [Numeral.natural?, digitValue?_digitChar, afterDigit_digits, decimal]
    · exact fun _ eq => (unsigned i).1 (List.cons.inj eq).1
    · exact fun _ eq => (unsigned i).2 (List.cons.inj eq).1

def stepValue (step : Operator × Value) : Value := .list [.operator step.1, step.2]

theorem chain_steps (compute : Standard.Calculation) (v : Value) (steps : List (Operator × Value)) :
    Standard.chain compute v (steps.map stepValue) =
      workOff compute v steps := by
  induction steps generalizing v with
  | nil => rfl
  | cons step steps ih =>
    rw [List.map_cons, workOff, List.foldlM_cons, stepValue, Standard.chain]
    exact bind_congr ih

/-- The callbacks of the expressions give what they should, their operators being `compute`. -/
structure Works (m : Meaning) (compute : Standard.Calculation) : Prop where
  nothing (vs : List Value) : (m.fold .nothing vs).Gives (.done .null)
  list (vs : List Value) : (m.fold .list vs).Gives (.done (.list vs))
  first (v w : Value) : (m.fold (.keep 0 none) [v, w]).Gives (.done v)
  middle (u v w : Value) : (m.fold (.keep 1 none) [u, v, w]).Gives (.done v)
  numeral (ds : List (Fin 10)) : ds ≠ [] →
    (m.fold .numeral ((ds.map digitChar).map letter)).Gives (.done (.integer (decimal ds)))
  operator (op : Operator) : (m.apply .operator (letter (mark op))).Gives (.done (.operator op))
  chain (v : Value) (steps : List (Operator × Value)) :
    (m.fold .chain [v, .list (steps.map stepValue)]).Gives
      (.ofExcept (workOff compute v steps))

theorem withNested_works (compute : Standard.Calculation)
    (nested : HandleId → String → Action Result) :
    Works (Meaning.withNested compute nested) compute where
  nothing _ := Callback.gives_done _
  list _ := Callback.gives_done _
  first _ _ := Callback.gives_done _
  middle _ _ _ := Callback.gives_done _
  numeral ds some_left := by
    have read : (Value.text (String.ofList (ds.map digitChar))).toInteger =
        .ok (decimal ds : Int) := by
      rw [Value.toInteger, int?_digits some_left]
    have worked : (do return .integer (← (Value.text (← Standard.join 0
        ((ds.map digitChar).map letter))).toInteger) : Except Fault Value) =
          .ok (.integer (decimal ds)) := by
      rw [join_letters]
      change (do return Value.integer (← (Value.text _).toInteger) : Except Fault Value) = _
      rw [read]
      rfl
    exact Callback.gives_ok worked
  operator op := by cases op <;> exact Callback.gives_done _
  chain v steps := by
    rw [← chain_steps]
    exact Callback.gives_ofExcept _

theorem standard_works (compute : Standard.Calculation) (levels : Nat) :
    Works (Meaning.standard compute levels) compute := by
  cases levels with
  | zero => exact withNested_works ..
  | succ levels => exact withNested_works ..

end Sample.Expression

end Peg
