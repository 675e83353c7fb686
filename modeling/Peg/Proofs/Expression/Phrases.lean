import Peg.Proofs.Expression.Lexical

namespace Peg

inductive Ending.Stops : Ending Result → Prop where
  | failed (f : Failure) : Stops (.done (.failure f))
  | raised (fault : Fault) : Stops (.raised fault)

theorem Meaning.Settles.itemStopped {m : Meaning} {g : Grammar} {h : HandleId} {fold : Fold}
    {items : List (HandleId × Option Release)} {vs : List Value} {c : Cursor} {d : Nat}
    {ending : Ending Result} (first : m.Settles g (.call h) c d ending) (stops : ending.Stops) :
    m.Settles g (.items fold ((h, none) :: items) (loose vs)) c d ending := by
  cases stops with
  | failed f => exact first.itemFailed
  | raised fault => exact first.itemEnded

namespace Sample.Expression

open Meaning.Settles

variable {m : Meaning} {compute : Standard.Calculation} {g : Grammar} {L : Layout}
  {c mid inside next : Cursor} {text : List Char} {n before after d e : Nat} {v : Value}
  {vs : List Value} {ending : Ending Result} {level : Level} {op : Operator}
  (works : Works m compute) (laid : L.In g)

section Bracketed

variable (opened : c.Spans ('(' :: blanks before) mid) (bare : mid.ahead.head? ≠ some ' ')
include works laid opened bare

theorem bracketed_read
    (inner : m.Settles g (.call (L.handle (.chain .sum))) mid d (.done (.success v inside)))
    (closed : inside.Spans (')' :: blanks after) next) (bare' : next.ahead.head? ≠ some ' ') :
    m.Settles g (.call L.bracketed) c (max 3 d + 1) (.done (.success v next)) := by
  have opening := symbol_read works laid laid.opening opened bare
  have closing := symbol_read works laid laid.closing closed bare'
  have items : m.Settles g (.items (.keep 1 none) _ (loose [])) c (max 3 (max d 3)) _ :=
    opening.itemDone (inner.itemDone (closing.itemLast (works.middle _ v _)))
  exact (holds laid.bracketed (sequence items)).congr (by omega)

theorem bracketed_stopped (inner : m.Settles g (.call (L.handle (.chain .sum))) mid d ending)
    (stops : ending.Stops) : m.Settles g (.call L.bracketed) c (max 3 d + 1) ending := by
  have opening := symbol_read works laid laid.opening opened bare
  exact holds laid.bracketed (sequence (opening.itemDone (inner.itemStopped stops)))

theorem bracketed_unclosed
    (inner : m.Settles g (.call (L.handle (.chain .sum))) mid d (.done (.success v inside)))
    (absent : inside.ahead.head? ≠ some ')') :
    ∃ f, m.Settles g (.call L.bracketed) c (max 3 (max d 2) + 1) (.done (.failure f)) := by
  have opening := symbol_read works laid laid.opening opened bare
  obtain ⟨f, closing⟩ := symbol_unread (m := m) laid.closing absent
  exact ⟨f, holds laid.bracketed (sequence (opening.itemDone (inner.itemDone closing.itemFailed)))⟩

end Bracketed

include laid

theorem bracketed_unopened (absent : c.ahead.head? ≠ some '(') :
    ∃ f, m.Settles g (.call L.bracketed) c 3 (.done (.failure f)) := by
  obtain ⟨f, opening⟩ := symbol_unread (m := m) laid.opening absent
  exact ⟨f, holds laid.bracketed (sequence opening.itemFailed)⟩

section Factor

include works in
theorem factor_number {ds : List (Fin 10)} (number_here : c.Spans (ds.map digitChar) mid)
    (some_left : ds ≠ []) (stops : ∀ i, mid.ahead.head? ≠ some (digitChar i))
    (blanks_here : mid.Spans (blanks n) next) (bare : next.ahead.head? ≠ some ' ') :
    m.Settles g (.call (L.handle .factor)) c 6
      (.done (.success (.integer (decimal ds)) next)) := by
  have atom := atom_read works laid number_here some_left stops blanks_here bare
  exact holds laid.factor (choice (atom.settled nofun))

variable (absent : ∀ i, c.ahead.head? ≠ some (digitChar i))
include absent

theorem factor_bracketed (bracketed : m.Settles g (.call L.bracketed) c d ending)
    (unfailed : ∀ f, ending ≠ .done (.failure f)) :
    m.Settles g (.call (L.handle .factor)) c (max 5 d + 1) ending := by
  obtain ⟨f, atom⟩ := atom_unread (m := m) laid absent
  exact holds laid.factor (choice (atom.passed (bracketed.settled unfailed)))

theorem factor_unread {f : Failure}
    (bracketed : m.Settles g (.call L.bracketed) c d (.done (.failure f))) :
    ∃ f', m.Settles g (.call (L.handle .factor)) c (max 5 (max d 0) + 1) (.done (.failure f')) := by
  obtain ⟨f, atom⟩ := atom_unread (m := m) laid absent
  exact ⟨_, holds laid.factor (choice (atom.passed (bracketed.passed exhausted)))⟩

end Factor

section Steps

theorem steps_none (works : Works m compute)
    (absent : ∀ op ∈ level.operators, c.ahead.head? ≠ some (mark op)) :
    m.Settles g (.turns .list (L.step level) 0 none none (loose vs)) c 5
      (.done (.success (.list vs) c)) := by
  obtain ⟨f, sign⟩ := op_unread (m := m) laid absent
  have step : m.Settles g (.call (L.step level)) c 5 _ :=
    holds (laid.chain level).2.1 (sequence sign.itemFailed)
  exact step.turnFailed (Int.natCast_nonneg _) (works.list vs)

variable (mem : op ∈ level.operators) (spans : c.Spans (mark op :: blanks n) mid)
  (bare : mid.ahead.head? ≠ some ' ')
include works mem spans bare

theorem steps_more (operand : m.Settles g (.call (L.handle level.operand)) mid d
      (.done (.success v next))) (spans' : mid.Spans text next)
    (rest : m.Settles g
      (.turns .list (L.step level) 0 none none (loose (vs ++ [stepValue (op, v)]))) next e ending) :
    m.Settles g (.turns .list (L.step level) 0 none none (loose vs)) c
      (max (max 5 d + 1) e) ending := by
  have sign := op_read works laid mem spans bare
  have items : m.Settles g (.items .list _ (loose [])) c (max 5 d) _ :=
    sign.itemDone (operand.itemLast (works.list _))
  have step : m.Settles g (.call (L.step level)) c (max 5 d + 1)
      (.done (.success (stepValue (op, v)) next)) := holds (laid.chain level).2.1 (sequence items)
  have moved : next.pos ≠ c.pos := by
    rw [spans'.pos_eq, spans.pos_eq, List.length_cons]
    omega
  exact step.turnMoved moved rest

theorem step_stopped (operand : m.Settles g (.call (L.handle level.operand)) mid d ending)
    (stops : ending.Stops) : m.Settles g (.call (L.step level)) c (max 5 d + 1) ending := by
  have sign := op_read works laid mem spans bare
  exact holds (laid.chain level).2.1 (sequence (sign.itemDone (operand.itemStopped stops)))

theorem steps_unread {f : Failure}
    (operand : m.Settles g (.call (L.handle level.operand)) mid d (.done (.failure f))) :
    m.Settles g (.turns .list (L.step level) 0 none none (loose vs)) c (max 5 d + 1)
      (.done (.success (.list vs) c)) :=
  (step_stopped works laid mem spans bare operand (.failed f)).turnFailed (Int.natCast_nonneg _)
    (works.list vs)

theorem steps_raised {fault : Fault}
    (operand : m.Settles g (.call (L.handle level.operand)) mid d (.raised fault)) :
    m.Settles g (.turns .list (L.step level) 0 none none (loose vs)) c (max 5 d + 1)
      (.raised fault) :=
  (step_stopped works laid mem spans bare operand (.raised fault)).turnEnded

end Steps

section Chain

theorem chain_stopped (operand : m.Settles g (.call (L.handle level.operand)) c d ending)
    (stops : ending.Stops) : m.Settles g (.call (L.handle (.chain level))) c (d + 1) ending :=
  holds (laid.chain level).2.2.2 (sequence (operand.itemStopped stops))

variable
  (operand : m.Settles g (.call (L.handle level.operand)) c d (.done (.success v mid)))
include operand

include works in
/-- The operators are worked off as soon as the last operand is read. -/
theorem chain_read {ps : List (Operator × Value)}
    (steps : m.Settles g (.turns .list (L.step level) 0 none none (loose [])) mid e
      (.done (.success (.list (ps.map stepValue)) next))) :
    m.Settles g (.call (L.handle (.chain level))) c (max d (e + 1) + 1)
      ((Ending.ofExcept (workOff compute v ps)).map (.success · next)) := by
  obtain ⟨_, _, at_steps, at_chain⟩ := laid.chain level
  have steps' : m.Settles g (.call (L.steps level)) mid (e + 1) _ :=
    holds at_steps (repetition steps)
  exact holds at_chain (sequence (operand.itemDone (steps'.itemLast (works.chain v ps))))

theorem chain_steps_stopped
    (steps : m.Settles g (.turns .list (L.step level) 0 none none (loose [])) mid e ending)
    (stops : ending.Stops) :
    m.Settles g (.call (L.handle (.chain level))) c (max d (e + 1) + 1) ending := by
  obtain ⟨_, _, at_steps, at_chain⟩ := laid.chain level
  have steps' : m.Settles g (.call (L.steps level)) mid (e + 1) _ :=
    holds at_steps (repetition steps)
  exact holds at_chain (sequence (operand.itemDone (steps'.itemStopped stops)))

end Chain

end Sample.Expression

end Peg
