import Peg.Fault

namespace Peg

abbrev Input := Array Char

def Input.ofString (s : String) : Input := s.toList.toArray

def Input.holds (input : Input) : Nat → List Char → Bool
  | _, [] => true
  | pos, c :: cs => input[pos]? == some c && Input.holds input (pos + 1) cs

theorem Input.holds_iff {input : Input} {pos : Nat} {cs : List Char} :
    input.holds pos cs = true ↔ cs <+: input.toList.drop pos := by
  induction cs generalizing pos with
  | nil => simp [Input.holds]
  | cons c cs ih =>
    rcases Nat.lt_or_ge pos input.size with lt | ge
    · have at_pos : input.toList.drop pos = input[pos] :: input.toList.drop (pos + 1) := by
        rw [List.drop_eq_getElem_cons (by simpa using lt)]
        simp
      rw [at_pos, List.cons_prefix_cons, ← ih]
      simp [Input.holds, Array.getElem?_eq_getElem lt, eq_comm (a := c)]
    · have past : input.toList.drop pos = [] := List.drop_eq_nil_of_le (by simpa using ge)
      simp [Input.holds, past, Array.getElem?_eq_none ge]

/-- The last place before `pos` at which a character stands, or -1 if it stands at none. -/
def Input.lastBefore (input : Input) (a : Char) : Nat → Int
  | 0 => -1
  | pos + 1 => if input[pos]? == some a then pos else Input.lastBefore input a pos

/-- A position from the start of the input up to its end. -/
structure Cursor where
  input : Input
  pos : Nat
  pos_le : pos ≤ input.size

namespace Cursor

def start (input : Input) : Cursor := ⟨input, 0, Nat.zero_le _⟩

def ofPos (input : Input) (pos : Int) : Except Fault Cursor :=
  if h : 0 ≤ pos ∧ pos ≤ input.size then .ok ⟨input, pos.toNat, by omega⟩
  else .error (.outsideInput pos input.size)

theorem ofPos_of_le {input : Input} {pos : Nat} (h : pos ≤ input.size) :
    ofPos input pos = .ok ⟨input, pos, h⟩ := by simp [ofPos, h]

def remaining (c : Cursor) : String := String.ofList (c.input.toList.drop c.pos)

def atEnd (c : Cursor) : Bool := c.pos == c.input.size

def startsWith (c : Cursor) (text : String) : Bool := c.input.holds c.pos text.toList

def advance (c : Cursor) (n : Int) : Except Fault Cursor := ofPos c.input (c.pos + n)

theorem advance_of_startsWith {c : Cursor} {text : String} (h : c.startsWith text = true) :
    ∃ next : Cursor, c.advance text.length = .ok next ∧ next.input = c.input ∧
      next.pos = c.pos + text.length := by
  have fits := (Input.holds_iff.mp h).length_le
  simp only [List.length_drop, Array.length_toList, String.length_toList] at fits
  have le : c.pos + text.length ≤ c.input.size := by have := c.pos_le; omega
  exact ⟨⟨c.input, c.pos + text.length, le⟩, by simpa [advance] using ofPos_of_le le, rfl, rfl⟩

/-- Line and column, both counted from one: a line ends with its newline, and the column counts on
from the newline that stands last before the cursor. -/
def lineColumn (c : Cursor) : Nat × Nat :=
  let column : Int := c.pos - (c.input.lastBefore '\n' c.pos + 1) + 1
  ((c.input.toList.take c.pos).count '\n' + 1, column.toNat)

instance : BEq Cursor where
  beq c d := c.input == d.input && c.pos == d.pos

end Cursor

end Peg
