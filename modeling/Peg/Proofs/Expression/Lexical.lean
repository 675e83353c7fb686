import Peg.Proofs.Expression.Callbacks
import Peg.Proofs.Expression.Layout

namespace Peg

theorem exists_run {ι : Type} (f : ι → Char) (text : List Char) :
    ∃ is rest, text = List.map f is ++ rest ∧ ∀ i, rest.head? ≠ some (f i) := by
  induction text with
  | nil => exact ⟨[], [], rfl, fun _ => nofun⟩
  | cons a text ih =>
    by_cases here : ∃ i, f i = a
    · obtain ⟨i, rfl⟩ := here
      obtain ⟨is, rest, rfl, stops⟩ := ih
      exact ⟨i :: is, rest, rfl, stops⟩
    · refine ⟨[], a :: text, rfl, fun i eq => here ⟨i, ?_⟩⟩
      exact (Option.some.inj eq).symm

namespace Meaning.Settles

variable {m : Meaning} {g : Grammar} {c next : Cursor} {h : HandleId} {a : Char}

theorem sign_read (sign : g.Sign h a) (spans : c.Spans [a] next) :
    m.Settles g (.call h) c 1 (.done (.success (.text (String.singleton a)) next)) :=
  literal_read sign (by rwa [String.toList_singleton])

theorem sign_unread (sign : g.Sign h a) (absent : c.ahead.head? ≠ some a) :
    ∃ f, m.Settles g (.call h) c 1 (.done (.failure f)) := by
  refine literal_unread sign fun there => absent ?_
  obtain ⟨rest, eq⟩ := there
  rw [String.toList_singleton] at eq
  rw [← eq]
  rfl

end Meaning.Settles

namespace Sample.Expression

open Meaning.Settles

variable {m : Meaning} {compute : Standard.Calculation} {g : Grammar} {L : Layout}
  {c mid next : Cursor} {h item : HandleId} {n d : Nat} {v : Value} {a : Char}

theorem exists_blanks (c : Cursor) :
    ∃ n next, c.Spans (blanks n) next ∧ next.ahead.head? ≠ some ' ' := by
  obtain ⟨is, rest, eq, stops⟩ := exists_run (fun _ : Unit => ' ') c.ahead
  rw [List.map_const'] at eq
  obtain ⟨next, spans, rfl⟩ := Cursor.exists_spans eq
  exact ⟨is.length, next, spans, stops ()⟩

theorem exists_digits (c : Cursor) : ∃ (ds : List (Fin 10)) (next : Cursor),
    c.Spans (ds.map digitChar) next ∧ ∀ i, next.ahead.head? ≠ some (digitChar i) := by
  obtain ⟨ds, rest, eq, stops⟩ := exists_run digitChar c.ahead
  obtain ⟨next, spans, rfl⟩ := Cursor.exists_spans eq
  exact ⟨ds, next, spans, stops⟩

theorem exists_symbol (here : c.ahead.head? = some a) :
    ∃ n next, c.Spans (a :: blanks n) next ∧ next.ahead.head? ≠ some ' ' := by
  obtain ⟨rest, eq⟩ := List.head?_eq_some_iff.mp here
  obtain ⟨mid, first, _⟩ : ∃ mid, c.Spans [a] mid ∧ mid.ahead = rest := Cursor.exists_spans eq
  obtain ⟨n, next, blanks_here, bare⟩ := exists_blanks mid
  exact ⟨n, next, first.trans blanks_here, bare⟩

/-- A repetition reads a run of letters up to its end, and folds them. -/
theorem run_read {ι : Type} {f : ι → Char} {fold : Fold} {least : Int} {is : List ι}
    {vs : List Value}
    (read : ∀ {c mid : Cursor} {i : ι}, c.Spans [f i] mid →
      m.Settles g (.call item) c d (.done (.success (letter (f i)) mid)))
    (unread : ∃ failure, m.Settles g (.call item) next d (.done (.failure failure)))
    (spans : c.Spans (is.map f) next) (enough : least ≤ vs.length + is.length)
    (gives : (m.fold fold (vs ++ (is.map f).map letter)).Gives (.done v)) :
    m.Settles g (.turns fold item least none none (loose vs)) c d (.done (.success v next)) := by
  induction is generalizing c vs with
  | nil =>
    obtain rfl := spans.unique (.nil c)
    obtain ⟨_, failed⟩ := unread
    rw [List.map_nil, List.map_nil, List.append_nil] at gives
    exact failed.turnFailed (by simpa using enough) gives
  | cons i is ih =>
    obtain ⟨mid, first, rest⟩ : ∃ mid, c.Spans [f i] mid ∧ mid.Spans (is.map f) next := spans.split
    have moved : mid.pos ≠ c.pos := by
      rw [first.pos_eq]
      exact Nat.succ_ne_self _
    have later : m.Settles g (.turns fold item least none none (loose (vs ++ [letter (f i)]))) mid d
        (.done (.success v next)) := by
      refine ih rest ?_ ?_
      · rw [List.length_append, List.length_singleton]
        rw [List.length_cons] at enough
        omega
      · rw [List.append_assoc]
        exact gives
    exact ((read first).turnMoved moved later).congr (Nat.max_self d)

variable (works : Works m compute) (laid : L.In g)
include works laid

theorem spaces_read (spans : c.Spans (blanks n) next) (stops : next.ahead.head? ≠ some ' ') :
    m.Settles g (.call L.spaces) c 2 (.done (.success .null next)) := by
  obtain ⟨blank, sign, spaces⟩ := laid.spaces
  rw [blanks, ← List.map_replicate (f := fun _ : Unit => ' ') (a := ())] at spans
  have turns : m.Settles g (.turns .nothing blank 0 none none (loose [])) c 1 _ :=
    run_read (fun here => sign_read sign here) (sign_unread sign stops) spans
      (Int.natCast_nonneg _) (works.nothing _)
  exact holds spaces (repetition turns)

theorem lexeme_read (lexeme : g.Lexeme L.spaces item h)
    (first : m.Settles g (.call item) c d (.done (.success v mid)))
    (spans : mid.Spans (blanks n) next) (stops : next.ahead.head? ≠ some ' ') :
    m.Settles g (.call h) c (max d 2 + 1) (.done (.success v next)) := by
  have last : m.Settles g (.items (.keep 0 none) [(L.spaces, none)] (loose [v])) mid 2 _ :=
    (spaces_read works laid spans stops).itemLast (works.first v .null)
  exact holds lexeme (sequence (first.itemDone last))

omit works laid in
theorem lexeme_unread (lexeme : g.Lexeme L.spaces item h) {f : Failure}
    (first : m.Settles g (.call item) c d (.done (.failure f))) :
    m.Settles g (.call h) c (d + 1) (.done (.failure f)) :=
  holds lexeme (sequence first.itemFailed)

theorem symbol_read (symbol : g.Symbol L.spaces h a) (spans : c.Spans (a :: blanks n) next)
    (stops : next.ahead.head? ≠ some ' ') :
    m.Settles g (.call h) c 3 (.done (.success (letter a) next)) := by
  obtain ⟨literal, sign, lexeme⟩ := symbol
  obtain ⟨mid, first, rest⟩ : ∃ mid, c.Spans [a] mid ∧ mid.Spans (blanks n) next := spans.split
  exact lexeme_read works laid lexeme (sign_read sign first) rest stops

omit works laid in
theorem symbol_unread (symbol : g.Symbol L.spaces h a) (absent : c.ahead.head? ≠ some a) :
    ∃ f, m.Settles g (.call h) c 2 (.done (.failure f)) := by
  obtain ⟨literal, sign, lexeme⟩ := symbol
  obtain ⟨f, first⟩ := sign_unread (m := m) sign absent
  exact ⟨f, lexeme_unread lexeme first⟩

section Digit

variable {digits digit : HandleId}
  (oneOf : g.OneOf g.Sign ((List.finRange 10).map digitChar) digits)
  (at_digit : g.Holds digit (.expect digits "digit"))
include oneOf at_digit

omit works laid in
theorem digit_read {i : Fin 10} (spans : c.Spans [digitChar i] next) :
    m.Settles g (.call digit) c 3 (.done (.success (letter (digitChar i)) next)) := by
  have read : m.Settles g (.call digits) c 2 (.done (.success (letter (digitChar i)) next)) :=
    oneOf_read oneOf (List.mem_map_of_mem (List.mem_finRange i))
      (fun k b _ sign ne => sign_unread sign (spans.head_ne ne))
      (fun k sign => sign_read sign spans) (Nat.le_refl 1)
  exact holds at_digit (expect read)

omit works laid in
theorem digit_unread (absent : ∀ i, c.ahead.head? ≠ some (digitChar i)) :
    ∃ f, m.Settles g (.call digit) c 3 (.done (.failure f)) := by
  obtain ⟨f, failed⟩ : ∃ f, m.Settles g (.call digits) c 2 (.done (.failure f)) :=
    oneOf_unread oneOf fun k b mem sign => by
      obtain ⟨i, _, rfl⟩ := List.mem_map.mp mem
      exact sign_unread sign (absent i)
  obtain ⟨f', failed'⟩ := unexpected failed
  exact ⟨f', holds at_digit failed'⟩

end Digit

theorem atom_read {ds : List (Fin 10)} (number_here : c.Spans (ds.map digitChar) mid)
    (some_left : ds ≠ []) (stops : ∀ i, mid.ahead.head? ≠ some (digitChar i))
    (blanks_here : mid.Spans (blanks n) next) (bare : next.ahead.head? ≠ some ' ') :
    m.Settles g (.call L.atom) c 5 (.done (.success (.integer (decimal ds)) next)) := by
  obtain ⟨digits, digit, number, oneOf, at_digit, at_number, lexeme⟩ := laid.atom
  have enough : (1 : Int) ≤ ([] : List Value).length + ds.length := by
    have pos := List.length_pos_iff.mpr some_left
    rw [List.length_nil]
    omega
  have turns : m.Settles g (.turns .numeral digit 1 none none (loose [])) c 3 _ :=
    run_read (digit_read oneOf at_digit) (digit_unread oneOf at_digit stops) number_here enough
      (works.numeral ds some_left)
  have read : m.Settles g (.call number) c 4 _ := holds at_number (repetition turns)
  exact lexeme_read works laid lexeme read blanks_here bare

omit works in
theorem atom_unread (absent : ∀ i, c.ahead.head? ≠ some (digitChar i)) :
    ∃ f, m.Settles g (.call L.atom) c 5 (.done (.failure f)) := by
  obtain ⟨digits, digit, number, oneOf, at_digit, at_number, lexeme⟩ := laid.atom
  obtain ⟨f, failed⟩ := digit_unread (m := m) oneOf at_digit absent
  have short : m.Settles g (.turns .numeral digit 1 none none (loose [])) c 3 _ :=
    failed.turnShort Int.zero_lt_one
  exact ⟨f, lexeme_unread lexeme (holds at_number (repetition short))⟩

variable {level : Level} {op : Operator}

theorem op_read (mem : op ∈ level.operators) (spans : c.Spans (mark op :: blanks n) next)
    (stops : next.ahead.head? ≠ some ' ') :
    m.Settles g (.call (L.op level)) c 5 (.done (.success (.operator op) next)) := by
  obtain ⟨⟨signs, oneOf, at_op⟩, _⟩ := laid.chain level
  have read : m.Settles g (.call signs) c 4 (.done (.success (letter (mark op)) next)) :=
    oneOf_read oneOf mem
      (fun k op' _ symbol ne => symbol_unread symbol (spans.head_ne (mark_injective.ne ne)))
      (fun k symbol => symbol_read works laid symbol spans stops) (Nat.le_succ 2)
  exact holds at_op (applied read (works.operator op))

omit works in
theorem op_unread (absent : ∀ op ∈ level.operators, c.ahead.head? ≠ some (mark op)) :
    ∃ f, m.Settles g (.call (L.op level)) c 4 (.done (.failure f)) := by
  obtain ⟨⟨signs, oneOf, at_op⟩, _⟩ := laid.chain level
  obtain ⟨f, failed⟩ : ∃ f, m.Settles g (.call signs) c 3 (.done (.failure f)) :=
    oneOf_unread oneOf fun k op mem symbol => symbol_unread symbol (absent op mem)
  exact ⟨f, holds at_op (unapplied failed)⟩

end Sample.Expression

end Peg
