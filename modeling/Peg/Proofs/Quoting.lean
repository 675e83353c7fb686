import Mathlib
import Peg.Text.Quoted

namespace Peg

/-- Written forms that can be told, with what they stand for, from anything that follows them. -/
def SelfDelimiting {α β : Type} (write : α → List β) : Prop :=
  ∀ (a b : α) (r s : List β), write a ++ r = write b ++ s → a = b ∧ r = s

namespace SelfDelimiting

variable {α β : Type} {write : α → List β}

theorem of_read {read : List β → Option (α × List β)}
    (reads : ∀ (a : α) (r : List β), read (write a ++ r) = some (a, r)) : SelfDelimiting write := by
  intro a b r s same
  have both := congrArg read same
  rw [reads, reads] at both
  exact Prod.mk.inj (Option.some.inj both)

/-- Written forms one after the other end at the first thing that none of them begins with. -/
theorem terminated (delimits : SelfDelimiting write) {stop : β}
    (apart : ∀ (a : α) (r s : List β), write a ++ r ≠ stop :: s) :
    SelfDelimiting fun as : List α => as.flatMap write ++ [stop] := by
  intro as
  induction as with
  | nil =>
    intro bs r s same
    cases bs with
    | nil => exact ⟨rfl, by simpa using same⟩
    | cons b bs =>
      have begins : write b ++ (bs.flatMap write ++ stop :: s) = stop :: r := by
        simpa using same.symm
      exact absurd begins (apart b _ r)
  | cons a as ih =>
    intro bs r s same
    cases bs with
    | nil =>
      have begins : write a ++ (as.flatMap write ++ stop :: r) = stop :: s := by
        simpa using same
      exact absurd begins (apart a _ s)
    | cons b bs =>
      have first : write a ++ (as.flatMap write ++ [stop] ++ r) =
          write b ++ (bs.flatMap write ++ [stop] ++ s) := by simpa using same
      obtain ⟨rfl, later⟩ := delimits _ _ _ _ first
      obtain ⟨rfl, rfl⟩ := ih _ _ _ later
      exact ⟨rfl, rfl⟩

end SelfDelimiting

namespace Text

def hexValue (d : Char) : Nat := if d.toNat < 0x3A then d.toNat - 0x30 else d.toNat - 0x57

def ofHexDigits (ds : List Char) : Nat := ds.foldl (fun n d => n * 16 + hexValue d) 0

def numbered (width : Nat) (cs : List Char) : Char × List Char :=
  (Char.ofNat (ofHexDigits (cs.take width)), cs.drop width)

def escaped (kind : Char) (cs : List Char) : Char × List Char :=
  match kind with
  | 'n' => ('\n', cs)
  | 'r' => ('\r', cs)
  | 't' => ('\t', cs)
  | 'x' => numbered 2 cs
  | 'u' => numbered 4 cs
  | 'U' => numbered 8 cs
  | c => (c, cs)

def unescape : List Char → Option (Char × List Char)
  | [] => none
  | '\\' :: kind :: cs => some (escaped kind cs)
  | c :: cs => some (c, cs)

theorem hexValue_hexDigit : ∀ n < 16, hexValue (hexDigit n) = n := by decide

theorem length_hexDigits (width n : Nat) : (hexDigits width n).length = width := by
  induction width generalizing n with
  | zero => rfl
  | succ width ih => simp [hexDigits, ih]

theorem ofHexDigits_concat (ds : List Char) (d : Char) :
    ofHexDigits (ds ++ [d]) = ofHexDigits ds * 16 + hexValue d := by
  simp [ofHexDigits]

theorem ofHexDigits_hexDigits {width n : Nat} (fits : n < 16 ^ width) :
    ofHexDigits (hexDigits width n) = n := by
  induction width generalizing n with
  | zero =>
    obtain rfl : n = 0 := Nat.lt_one_iff.mp fits
    rfl
  | succ width ih =>
    have higher : n / 16 < 16 ^ width := by
      rw [Nat.pow_succ] at fits
      omega
    have last := hexValue_hexDigit (n % 16) (Nat.mod_lt _ (by decide))
    rw [hexDigits, ofHexDigits_concat, ih higher, last]
    omega

theorem numbered_hexDigits {width : Nat} {c : Char} (fits : c.toNat < 16 ^ width) (r : List Char) :
    numbered width (hexDigits width c.toNat ++ r) = (c, r) := by
  have digits := length_hexDigits width c.toNat
  rw [numbered, List.take_left' digits, List.drop_left' digits, ofHexDigits_hexDigits fits,
    Char.ofNat_toNat]

section

variable {printable : Char → Bool} {mark c : Char}

theorem unescape_plain (plain : c ≠ '\\') (r : List Char) : unescape (c :: r) = some (c, r) := by
  unfold unescape
  split <;> simp_all

theorem unescape_numericEscape (c : Char) (r : List Char) :
    unescape (numericEscape c.toNat ++ r) = some (c, r) := by
  unfold numericEscape
  split
  · next short => exact congrArg some (numbered_hexDigits short r)
  split
  · next middle => exact congrArg some (numbered_hexDigits middle r)
  · have long : c.toNat < 16 ^ 8 := c.val.toNat_lt
    exact congrArg some (numbered_hexDigits long r)

theorem unescape_escape (marks : mark = '\'' ∨ mark = '"') (c : Char) (r : List Char) :
    unescape (escape printable mark c ++ r) = some (c, r) := by
  unfold escape
  split
  · next special =>
    obtain rfl | rfl := special
    · obtain rfl | rfl := marks <;> rfl
    · rfl
  next usual =>
  rw [not_or] at usual
  split
  · next newline => exact newline ▸ rfl
  split
  · next carriage => exact carriage ▸ rfl
  split
  · next tab => exact tab ▸ rfl
  split
  · exact unescape_plain usual.2 r
  · exact unescape_numericEscape c r

theorem selfDelimiting_escape (marks : mark = '\'' ∨ mark = '"') :
    SelfDelimiting (escape printable mark) :=
  .of_read (unescape_escape marks)

theorem escape_append_ne (marks : mark = '\'' ∨ mark = '"') (c : Char) (r s : List Char) :
    escape printable mark c ++ r ≠ mark :: s := by
  intro same
  have plain : mark ≠ '\\' := by rcases marks with rfl | rfl <;> decide
  -- What is read there is the mark, and the mark is written with a backslash.
  have read := congrArg unescape same
  rw [unescape_escape marks, unescape_plain plain] at read
  obtain rfl : c = mark := (Prod.mk.inj (Option.some.inj read)).1
  rw [escape, if_pos (.inl rfl)] at same
  exact plain (List.cons.inj same).1.symm

end

/-- A quoted text tells its text, and where it ends. -/
theorem selfDelimiting_encode (printable : Char → Bool) : SelfDelimiting (encode printable) := by
  intro a b r s same
  obtain ⟨mark, between⟩ := List.cons.inj same
  rw [← mark] at between
  have marks := chooseMark_eq a
  exact (selfDelimiting_escape marks).terminated (escape_append_ne marks) a b r s between

end Text

end Peg
