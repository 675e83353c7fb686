import Peg.Proofs.Run.Stages

namespace Peg

namespace Cursor

def ahead (c : Cursor) : List Char := c.input.toList.drop c.pos

/-- A text stands between two places of one input. -/
def Spans (c : Cursor) (text : List Char) (next : Cursor) : Prop :=
  next.input = c.input ∧ c.ahead = text ++ next.ahead

variable {c next mid : Cursor} {text text' rest : List Char}

theorem length_ahead (c : Cursor) : c.ahead.length = c.input.size - c.pos := by
  simp [ahead]

namespace Spans

theorem nil (c : Cursor) : c.Spans [] c := ⟨rfl, rfl⟩

theorem trans (first : c.Spans text mid) (second : mid.Spans text' next) :
    c.Spans (text ++ text') next :=
  ⟨second.1.trans first.1, by rw [first.2, second.2, List.append_assoc]⟩

theorem length (spans : c.Spans text next) : c.ahead.length = text.length + next.ahead.length := by
  rw [spans.2, List.length_append]

theorem pos_eq (spans : c.Spans text next) : next.pos = c.pos + text.length := by
  have length := spans.length
  rw [length_ahead, length_ahead, spans.1] at length
  have le := c.pos_le
  have le' := next.pos_le
  rw [spans.1] at le'
  omega

theorem unique (spans : c.Spans text next) (spans' : c.Spans text mid) : next = mid :=
  eq_of_pos (spans.1.trans spans'.1.symm) (spans.pos_eq.trans spans'.pos_eq.symm)

theorem head {a : Char} (spans : c.Spans (a :: text) next) : c.ahead.head? = some a := by
  rw [spans.2]
  rfl

theorem head_ne {a b : Char} (spans : c.Spans (a :: text) next) (ne : b ≠ a) :
    c.ahead.head? ≠ some b := by
  rw [spans.head]
  exact fun eq => ne (Option.some.inj eq).symm

end Spans

theorem exists_spans (eq : c.ahead = text ++ rest) :
    ∃ next, c.Spans text next ∧ next.ahead = rest := by
  have fits : c.pos + text.length ≤ c.input.size := by
    have length := congrArg List.length eq
    rw [length_ahead, List.length_append] at length
    have le := c.pos_le
    omega
  have left : c.input.toList.drop (c.pos + text.length) = rest := by
    have dropped := congrArg (List.drop text.length) eq
    rw [List.drop_left] at dropped
    rw [← dropped, ahead, List.drop_drop]
  exact ⟨⟨c.input, c.pos + text.length, fits⟩, ⟨rfl, by rw [eq, ahead, left]⟩, left⟩

theorem Spans.split (spans : c.Spans (text ++ text') next) :
    ∃ mid, c.Spans text mid ∧ mid.Spans text' next := by
  obtain ⟨mid, first, ahead⟩ := exists_spans (spans.2.trans (List.append_assoc ..))
  exact ⟨mid, first, spans.1.trans first.1.symm, ahead⟩

section Whole

variable {source : String}

def finish (input : Input) : Cursor := ⟨input, input.size, Nat.le_refl _⟩

theorem ahead_start (source : String) :
    (start (Input.ofString source)).ahead = source.toList := by
  simp [ahead, start, Input.ofString]

theorem ahead_finish (input : Input) : (finish input).ahead = [] := by
  simp [ahead, finish]

theorem spans_finish (eq : source.toList = text) :
    (start (Input.ofString source)).Spans text (finish (Input.ofString source)) :=
  ⟨rfl, by rw [ahead_start, ahead_finish, eq, List.append_nil]⟩

theorem Spans.toList_eq (spans : (start (Input.ofString source)).Spans text next)
    (ended : next.pos = next.input.size) : source.toList = text := by
  have nothing : next.ahead = [] := List.length_eq_zero_iff.mp (by
    rw [next.length_ahead, ended, Nat.sub_self])
  rw [← ahead_start, spans.2, nothing, List.append_nil]

end Whole

end Cursor

end Peg
