import Mathlib.Data.List.Induction
import Mathlib.Data.Prod.Lex
import Peg.Cursor

/-!
Lines and columns. The line and the column of a place are those that a reader comes to who starts at
the first character, and goes on to the next line after each newline. They locate the place: it can
be found again from them and the lines of the text, and of two places the later one comes later in
the order of lines and columns.
-/

namespace Peg

def Input.lines (input : Input) : List (List Char) := input.toList.splitOn '\n'

namespace Cursor

def passed (place : Nat × Nat) (a : Char) : Nat × Nat :=
  if a = '\n' then (place.1 + 1, 1) else (place.1, place.2 + 1)

/-- Where a reader is who has read a text from its start. -/
def scan (text : List Char) : Nat × Nat := text.foldl passed (1, 1)

def extent (lines : List (List Char)) : Nat := (lines.flatMap (· ++ ['\n'])).length

def placeAfter (text : List Char) : Nat × Nat :=
  (text.count '\n' + 1, (text.reverse.takeWhile (· != '\n')).length + 1)

section Text

variable {text tail : List Char} {full : List (List Char)} {place : Nat × Nat}

theorem placeAfter_concat (text : List Char) (a : Char) :
    placeAfter (text ++ [a]) = passed (placeAfter text) a := by
  by_cases newline : a = '\n'
  · subst newline
    simp [placeAfter, passed]
  · simp [placeAfter, passed, newline]

theorem placeAfter_eq_scan (text : List Char) : placeAfter text = scan text := by
  induction text using List.reverseRecOn with
  | nil => rfl
  | append_singleton text a ih =>
    rw [placeAfter_concat, ih]
    simp [scan]

theorem lt_passed (place : Nat × Nat) (a : Char) : toLex place < toLex (passed place a) := by
  rw [Prod.Lex.toLex_lt_toLex]
  unfold passed
  split
  · exact .inl (Nat.lt_succ_self _)
  · exact .inr ⟨rfl, Nat.lt_succ_self _⟩

theorem lt_foldl_passed (some_left : text ≠ []) :
    toLex place < toLex (text.foldl passed place) := by
  induction text generalizing place with
  | nil => exact absurd rfl some_left
  | cons a text ih =>
    rw [List.foldl_cons]
    have first := lt_passed place a
    cases text with
    | nil => exact first
    | cons b text => exact first.trans (ih (List.cons_ne_nil _ _))

theorem exists_lines (text : List Char) : ∃ (full : List (List Char)) (tail : List Char),
    (∀ line ∈ full, '\n' ∉ line) ∧ '\n' ∉ tail ∧ text = full.flatMap (· ++ ['\n']) ++ tail := by
  -- A character goes to the first full line, if there is one, and else to the part of a line.
  induction text with
  | nil => exact ⟨[], [], by simp⟩
  | cons a text ih =>
    obtain ⟨full, tail, bare, bare', rfl⟩ := ih
    by_cases newline : a = '\n'
    · exact ⟨[] :: full, tail, by simpa using bare, bare', by simp [newline]⟩
    · cases full with
      | nil => exact ⟨[], a :: tail, by simp, by simp [bare', Ne.symm newline], by simp⟩
      | cons line full =>
        refine ⟨(a :: line) :: full, tail, ?_, bare', by simp⟩
        rw [List.forall_mem_cons] at bare ⊢
        exact ⟨by simp [bare.1, Ne.symm newline], bare.2⟩

theorem takeWhile_bare (bare : '\n' ∉ text) (text' : List Char) :
    (text ++ text').takeWhile (· != '\n') = text ++ text'.takeWhile (· != '\n') := by
  refine List.takeWhile_append_of_pos fun a mem => ?_
  simpa using fun newline : a = '\n' => bare (newline ▸ mem)

theorem placeAfter_lines (bare : ∀ line ∈ full, '\n' ∉ line) (bare' : '\n' ∉ tail) :
    placeAfter (full.flatMap (· ++ ['\n']) ++ tail) = (full.length + 1, tail.length + 1) := by
  have newlines : (full.flatMap (· ++ ['\n'])).count '\n' = full.length := by
    induction full with
    | nil => rfl
    | cons line full ih =>
      rw [List.forall_mem_cons] at bare
      simp [ih bare.2, List.count_eq_zero.mpr bare.1]
  have stops : (full.flatMap (· ++ ['\n'])).reverse.takeWhile (· != '\n') = [] := by
    induction full using List.reverseRecOn with
    | nil => rfl
    | append_singleton full line _ => simp
  have bare'' : '\n' ∉ tail.reverse := by simpa using bare'
  have column := takeWhile_bare bare'' (full.flatMap (· ++ ['\n'])).reverse
  rw [stops, List.append_nil] at column
  simp [placeAfter, newlines, List.count_eq_zero.mpr bare', column]

theorem splitOn_lines (bare : ∀ line ∈ full, '\n' ∉ line) (rest : List Char) :
    (full.flatMap (· ++ ['\n']) ++ rest).splitOn '\n' = full ++ rest.splitOn '\n' := by
  induction full with
  | nil => rfl
  | cons line full ih =>
    rw [List.forall_mem_cons] at bare
    have cut := List.splitOn_append_cons_self_of_not_mem bare.1 (full.flatMap (· ++ ['\n']) ++ rest)
    simpa [ih bare.2] using cut

theorem exists_first_line (bare : '\n' ∉ tail) (rest : List Char) :
    ∃ line lines, (tail ++ rest).splitOn '\n' = line :: lines ∧ tail.length ≤ line.length := by
  induction tail with
  | nil =>
    obtain ⟨line, lines, cut⟩ := List.exists_cons_of_ne_nil (List.splitOn_ne_nil '\n' rest)
    exact ⟨line, lines, cut, Nat.zero_le _⟩
  | cons a tail ih =>
    rw [List.mem_cons, not_or] at bare
    obtain ⟨line, lines, cut, le⟩ := ih bare.2
    refine ⟨a :: line, lines, ?_, Nat.succ_le_succ le⟩
    simp [List.splitOn_cons_eq_if_modifyHead, Ne.symm bare.1, cut]

end Text

variable {c d : Cursor}

theorem sub_lastBefore {input : Input} {pos : Nat} (le : pos ≤ input.size) :
    (pos : Int) - (input.lastBefore '\n' pos + 1) =
      ((input.toList.take pos).reverse.takeWhile (· != '\n')).length := by
  induction pos with
  | zero => rfl
  | succ pos ih =>
    have lt : pos < input.size := le
    have further : input.toList.take (pos + 1) = input.toList.take pos ++ [input[pos]] :=
      List.take_succ_eq_append_getElem lt
    have rest := ih (Nat.le_of_succ_le le)
    rw [further, List.reverse_concat, List.takeWhile_cons, Input.lastBefore,
      Array.getElem?_eq_getElem lt]
    by_cases newline : input[pos] = '\n'
    · simp [newline]
    · simp [newline]
      omega

theorem lineColumn_eq_placeAfter (c : Cursor) :
    c.lineColumn = placeAfter (c.input.toList.take c.pos) := by
  rw [lineColumn, sub_lastBefore c.pos_le]
  rfl

theorem lineColumn_eq_scan (c : Cursor) : c.lineColumn = scan (c.input.toList.take c.pos) :=
  c.lineColumn_eq_placeAfter.trans (placeAfter_eq_scan _)

theorem exists_line (c : Cursor) : ∃ before column line, c.lineColumn = (before + 1, column + 1) ∧
    c.input.lines[before]? = some line ∧ column ≤ line.length ∧
    c.pos = extent (c.input.lines.take before) + column := by
  obtain ⟨full, tail, bare, bare', cut⟩ := exists_lines (c.input.toList.take c.pos)
  obtain ⟨line, lines, first, le⟩ := exists_first_line bare' (c.input.toList.drop c.pos)
  have split : c.input.lines = full ++ line :: lines := by
    rw [Input.lines, ← List.take_append_drop c.pos c.input.toList, cut, List.append_assoc,
      splitOn_lines bare, first]
  have length : c.pos = (c.input.toList.take c.pos).length := by
    simp [c.pos_le]
  refine ⟨full.length, tail.length, line, ?_, by simp [split], le, ?_⟩
  · have place := placeAfter_lines bare bare'
    rwa [← cut, ← lineColumn_eq_placeAfter] at place
  · rw [split, List.take_left, length, cut, List.length_append, extent]

theorem lineColumn_lt (input : c.input = d.input) (lt : c.pos < d.pos) :
    toLex c.lineColumn < toLex d.lineColumn := by
  have further : d.input.toList.take d.pos =
      d.input.toList.take c.pos ++ (d.input.toList.drop c.pos).take (d.pos - c.pos) := by
    rw [← List.take_add, Nat.add_sub_cancel' (Nat.le_of_lt lt)]
  have some_left : (d.input.toList.drop c.pos).take (d.pos - c.pos) ≠ [] := by
    have le := d.pos_le
    rw [← List.length_pos_iff, List.length_take, List.length_drop, Array.length_toList]
    omega
  rw [lineColumn_eq_scan, lineColumn_eq_scan d, input, further, scan, scan, List.foldl_append]
  exact lt_foldl_passed some_left

/-- Line and column are those of a reader, they lead back to the place by the lines of the text, and
later places have later ones, so that no two places of a text have the same. -/
theorem lineColumn_locates (c : Cursor) :
    c.lineColumn = scan (c.input.toList.take c.pos) ∧
    (∃ before column line, c.lineColumn = (before + 1, column + 1) ∧
      c.input.lines[before]? = some line ∧ column ≤ line.length ∧
      c.pos = extent (c.input.lines.take before) + column) ∧
    ∀ d : Cursor, c.input = d.input →
      (c.pos < d.pos → toLex c.lineColumn < toLex d.lineColumn) ∧
      (c.lineColumn = d.lineColumn → c.pos = d.pos) := by
  refine ⟨lineColumn_eq_scan c, exists_line c, fun d input => ⟨lineColumn_lt input, fun same => ?_⟩⟩
  rcases Nat.lt_trichotomy c.pos d.pos with lt | eq | gt
  · exact absurd (lineColumn_lt input lt) (by simp [same])
  · exact eq
  · exact absurd (lineColumn_lt input.symm gt) (by simp [same])

/-- An empty line: its only place is the one before its newline. -/
theorem blank_line_located :
    (⟨#['a', '\n', '\n', 'b'], 2, by decide⟩ : Cursor).lineColumn = (2, 1) ∧
    (⟨#['a', '\n', '\n', 'b'], 3, by decide⟩ : Cursor).lineColumn = (3, 1) ∧
    toLex (2, 1) < toLex (3, 1) := by
  let blank : Cursor := ⟨#['a', '\n', '\n', 'b'], 2, by decide⟩
  let next : Cursor := ⟨#['a', '\n', '\n', 'b'], 3, by decide⟩
  obtain ⟨scanned, _, later⟩ := lineColumn_locates blank
  have at_blank : blank.lineColumn = (2, 1) := scanned
  have at_next : next.lineColumn = (3, 1) := by decide
  have lt := (later next rfl).1 (by decide)
  rw [at_blank, at_next] at lt
  exact ⟨at_blank, at_next, lt⟩

end Cursor

end Peg
