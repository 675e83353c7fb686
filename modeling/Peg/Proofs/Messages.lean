import Mathlib
import Peg.Failure
import Peg.Proofs.Quoting

/-!
What the message of a failure tells. Nothing that a label holds can look like the end of it, like a
further label or like the words of the message: the labels that were expected, and the position, are
known from the message.
-/

namespace Peg

variable {printable : Char → Bool} {s t : String} {ss ts : List String} {r r' : List Char}

namespace Labels

def further (printable : Char → Bool) (s : String) : List Char :=
  ',' :: ' ' :: Text.encode printable s.toList

def row (printable : Char → Bool) (s : String) (ss : List String) : List Char :=
  Text.encode printable s.toList ++ ss.flatMap (further printable)

def heading (ss : List String) : List Char := if ss = [] then [] else "one of ".toList

theorem toList_intercalate (printable : Char → Bool) (s : String) (ss : List String) :
    (", ".intercalate ((s :: ss).map fun s => Text.quote s printable)).toList =
      row printable s ss := by
  induction ss generalizing s with
  | nil => simp [row, Text.toList_quote]
  | cons t ss ih =>
    have later := ih t
    rw [List.map_cons] at later
    rw [List.map_cons, List.map_cons, String.intercalate_cons_cons, String.toList_append, later]
    simp [row, further, Text.toList_quote]

theorem toList_message_nil : (message ⟨[], .nil⟩ printable).toList = "nothing".toList := rfl

theorem toList_message_cons (ascending : (s :: ss).Pairwise (· < ·)) :
    (message ⟨s :: ss, ascending⟩ printable).toList = heading ss ++ row printable s ss := by
  cases ss with
  | nil => simp [message, heading, row, Text.toList_quote]
  | cons t ss =>
    rw [← toList_intercalate, heading, if_neg (List.cons_ne_nil t ss), ← String.toList_append]
    rfl

theorem selfDelimiting_further (printable : Char → Bool) : SelfDelimiting (further printable) := by
  intro s t r r' same
  have quoted : Text.encode printable s.toList ++ r = Text.encode printable t.toList ++ r' := by
    simpa [further] using same
  obtain ⟨text, rest⟩ := Text.selfDelimiting_encode printable _ _ _ _ quoted
  exact ⟨String.toList_inj.mp text, rest⟩

theorem row_append_inj
    (same : row printable s ss ++ ' ' :: r = row printable t ts ++ ' ' :: r') :
    s :: ss = t :: ts ∧ r = r' := by
  have first : Text.encode printable s.toList ++ (ss.flatMap (further printable) ++ [' '] ++ r) =
      Text.encode printable t.toList ++ (ts.flatMap (further printable) ++ [' '] ++ r') := by
    simpa [row] using same
  obtain ⟨text, later⟩ := Text.selfDelimiting_encode printable _ _ _ _ first
  have apart : ∀ (u : String) (r r' : List Char), further printable u ++ r ≠ ' ' :: r' := by
    simp [further]
  obtain ⟨rfl, rest⟩ := (selfDelimiting_further printable).terminated apart _ _ _ _ later
  exact ⟨by rw [String.toList_inj.mp text], rest⟩

theorem row_append_ne {c : Char} (single : c ≠ '\'') (double : c ≠ '"') :
    row printable s ss ++ r ≠ c :: r' := by
  intro same
  have mark : Text.chooseMark s.toList = c := (List.cons.inj same).1
  rcases Text.chooseMark_eq s.toList with eq | eq
  · exact single (mark.symm.trans eq)
  · exact double (mark.symm.trans eq)

theorem nothing_ne (r r' : List Char) :
    "nothing".toList ++ r ≠ heading ss ++ (row printable s ss ++ r') := by
  unfold heading
  split
  · exact fun same => row_append_ne (by decide) (by decide) same.symm
  · simp

theorem heading_append_inj
    (same : heading ss ++ (row printable s ss ++ r) = heading ts ++ (row printable t ts ++ r')) :
    row printable s ss ++ r = row printable t ts ++ r' := by
  unfold heading at same
  split at same <;> split at same
  · exact same
  · exact absurd same (row_append_ne (by decide) (by decide))
  · exact absurd same.symm (row_append_ne (by decide) (by decide))
  · exact List.append_cancel_left same

theorem message_append_inj {l m : Labels}
    (same : (l.message printable).toList ++ ' ' :: r = (m.message printable).toList ++ ' ' :: r') :
    l = m ∧ r = r' := by
  obtain ⟨as, ascending⟩ := l
  obtain ⟨bs, ascending'⟩ := m
  cases as with
  | nil =>
    cases bs with
    | nil =>
      rw [toList_message_nil] at same
      exact ⟨rfl, (List.cons.inj (List.append_cancel_left same)).2⟩
    | cons t ts =>
      rw [toList_message_nil, toList_message_cons, List.append_assoc] at same
      exact absurd same (nothing_ne _ _)
  | cons s ss =>
    cases bs with
    | nil =>
      rw [toList_message_nil, toList_message_cons, List.append_assoc] at same
      exact absurd same.symm (nothing_ne _ _)
    | cons t ts =>
      rw [toList_message_cons, toList_message_cons, List.append_assoc, List.append_assoc] at same
      obtain ⟨labels, rest⟩ := row_append_inj (heading_append_inj same)
      exact ⟨eq_of_items_eq labels, rest⟩

end Labels

namespace Failure

theorem toList_message (f : Failure) : (f.message printable).toList =
    "expected ".toList ++ ((f.expected.message printable).toList ++
      ' ' :: ("at position ".toList ++ f.position.repr.toList)) := by
  have text : f.message printable =
      "expected " ++ f.expected.message printable ++ (" at position " ++ f.position.repr) := rfl
  simp [text]

/-- Failures with the same message expected the same labels and are at the same position, whatever
characters print: not even those of ASCII have to. -/
theorem message_unambiguous (printable : Char → Bool) (f g : Failure) :
    f.message printable = g.message printable ↔
      (∀ label, label ∈ f.expected ↔ label ∈ g.expected) ∧ f.position = g.position := by
  constructor
  · intro same
    have whole := congrArg String.toList same
    rw [toList_message, toList_message] at whole
    obtain ⟨labels, later⟩ := Labels.message_append_inj (List.append_cancel_left whole)
    have digits := String.toList_inj.mp (List.append_cancel_left later)
    exact ⟨fun _ => by rw [labels], Int.repr_injective digits⟩
  · rintro ⟨members, position⟩
    have labels := Labels.eq_of_mem_iff members
    rw [message, message, labels, position]

example : message ⟨.ofList ["a", "b"], 3⟩ = "expected one of 'a', 'b' at position 3" := by decide

example : message ⟨.singleton "a', 'b", 3⟩ = "expected \"a', 'b\" at position 3" := by decide

end Failure

end Peg
