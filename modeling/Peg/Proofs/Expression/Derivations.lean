import Peg.Proofs.Expression.Phrases

namespace Peg.Sample.Expression

namespace Phrase

/-- The stage that reads a phrase; of the steps of a chain, some may have been read before. -/
def stage (L : Layout) (vs : List Value) : Phrase → Stage
  | .one n => .call (L.handle n)
  | .steps level => .turns .list (L.step level) 0 none none (loose vs)

def result (vs : List Value) : (p : Phrase) → p.Meaning → Value
  | .one _, v => v
  | .steps _, ps => .list (vs ++ ps.map stepValue)

theorem result_nil (vs : List Value) (level : Level) :
    (steps level).result vs [] = .list vs := by simp [result]

theorem result_cons (vs : List Value) (level : Level) (step : Operator × Value)
    (ps : List (Operator × Value)) :
    (steps level).result vs (step :: ps) = (steps level).result (vs ++ [stepValue step]) ps := by
  simp [result]

def barred : Phrase → List Char
  | .one n => n.barred
  | .steps level => (Nonterminal.chain level).barred

end Phrase

namespace Tree

variable {m : Meaning} {compute : Standard.Calculation} {g : Grammar} {L : Layout}
  {c next : Cursor} {vs : List Value} {p : Phrase}

structure Costs (compute : Standard.Calculation) (t : Tree p) (d : Nat) : Prop where
  le : d ≤ t.depth
  eq {x : p.Meaning} : t.eval compute = .ok x → d = t.depth

namespace Costs

variable {t : Tree p} {d : Nat}

theorem all (eq : d = t.depth) : t.Costs compute d := ⟨Nat.le_of_eq eq, fun _ => eq⟩

theorem raised {fault : Fault} (worth : t.eval compute = .error fault) (le : d ≤ t.depth) :
    t.Costs compute d := by
  refine ⟨le, fun ok => ?_⟩
  rw [worth] at ok
  cases ok

end Costs

def ending (compute : Standard.Calculation) (vs : List Value) (t : Tree p) (next : Cursor) :
    Ending Result :=
  (Ending.ofExcept (t.eval compute)).map fun x => .success (p.result vs x) next

theorem ending_ok {t : Tree p} {x : p.Meaning} (worth : t.eval compute = .ok x) :
    t.ending compute vs next = .done (.success (p.result vs x) next) := by
  rw [ending, worth]
  rfl

theorem ending_error {t : Tree p} {fault : Fault} (worth : t.eval compute = .error fault) :
    t.ending compute vs next = .raised fault := by
  rw [ending, worth]
  rfl

/-- Wherever its text stands and may not go on, the tree is read. -/
def Reads (m : Meaning) (compute : Standard.Calculation) (g : Grammar) (L : Layout) (t : Tree p) :
    Prop :=
  ∀ {c next : Cursor} (vs : List Value), c.Spans t.text next → Bars p.barred next.ahead →
    ∃ d, t.Costs compute d ∧ m.Settles g (p.stage L vs) c d (t.ending compute vs next)

theorem bare {n : Nonterminal} (t : Tree (.one n)) {text : List Char} :
    (t.text ++ text).head? ≠ some ' ' := by
  obtain ⟨a, rest, eq, ne⟩ := t.text_head
  rw [eq]
  exact fun blank => ne (Option.some.inj blank)

theorem head_after_number {n : Nat} {text : List Char} (bars : Bars lexical text) (i : Fin 10) :
    (blanks n ++ text).head? ≠ some (digitChar i) := by
  cases n with
  | zero => exact bars _ (digitChar_mem_lexical i)
  | succ n =>
    intro eq
    have other : ∀ i, ' ' ≠ digitChar i := by decide
    exact other i (Option.some.inj eq)

variable {level : Level} (works : Works m compute) (laid : L.In g)
include works laid

theorem reads_number {first : Fin 10} {others : List (Fin 10)} {n : Nat} :
    (number first others n).Reads m compute g L := by
  intro c next vs spans bars
  obtain ⟨mid, number_here, blanks_here⟩ := spans.split
  have stops : ∀ i, mid.ahead.head? ≠ some (digitChar i) :=
    blanks_here.2 ▸ head_after_number bars
  exact ⟨6, .all rfl, factor_number works laid number_here (List.cons_ne_nil _ _) stops blanks_here
    (bars _ (List.mem_cons_self ..))⟩

theorem reads_bracketed {before after : Nat} {inner : Tree (.one (.chain .sum))}
    (reads : inner.Reads m compute g L) : (bracketed before inner after).Reads m compute g L := by
  intro c next vs spans bars
  obtain ⟨inside, spans', closed⟩ := spans.split
  obtain ⟨mid, opened, spans'⟩ := spans'.split
  have bare : mid.ahead.head? ≠ some ' ' := spans'.2 ▸ inner.bare
  have bare' : next.ahead.head? ≠ some ' ' := bars _ (List.mem_cons_self ..)
  have closes : Bars (Nonterminal.chain .sum).barred inside.ahead :=
    closed.2 ▸ bars_cons (by decide)
  -- A factor tries the digits before it tries the parenthesis.
  have absent (i : Fin 10) : c.ahead.head? ≠ some (digitChar i) := by
    rw [opened.head]
    revert i
    decide
  obtain ⟨d, cost, settles⟩ := reads [] spans' closes
  have le := cost.le
  cases worth : inner.eval compute with
  | error fault =>
    rw [ending_error worth] at settles
    rw [ending_error (t := bracketed before inner after) worth]
    refine ⟨_, .raised (t := bracketed before inner after) worth ?_,
      factor_bracketed laid absent
        (bracketed_stopped works laid opened bare settles (.raised fault)) (by simp)⟩
    rw [depth]
    omega
  | ok v =>
    have eq := cost.eq worth
    rw [ending_ok worth] at settles
    rw [ending_ok (t := bracketed before inner after) worth]
    refine ⟨_, .all ?_, factor_bracketed laid absent
      (bracketed_read works laid opened bare settles closed bare') (by simp)⟩
    rw [depth]
    omega

theorem reads_chain {first : Tree (.one level.operand)} {steps : Tree (.steps level)}
    (reads : first.Reads m compute g L) (reads' : steps.Reads m compute g L) :
    (chain first steps).Reads m compute g L := by
  intro c next vs spans bars
  obtain ⟨mid, spans', spans''⟩ := spans.split
  obtain ⟨d, cost, operand⟩ := reads [] spans' (spans''.2 ▸ steps.bars_steps bars)
  obtain ⟨e, cost', later⟩ := reads' [] spans'' bars
  have le := cost.le
  have le' := cost'.le
  cases worth : first.eval compute with
  | error fault =>
    rw [ending_error worth] at operand
    rw [ending_error (eval_chain_first worth)]
    refine ⟨_, .raised (eval_chain_first worth) ?_, chain_stopped laid operand (.raised fault)⟩
    rw [depth]
    omega
  | ok v =>
    rw [ending_ok worth] at operand
    cases worth' : steps.eval compute with
    | error fault =>
      rw [ending_error worth'] at later
      rw [ending_error (eval_chain_steps worth worth')]
      refine ⟨_, .raised (eval_chain_steps worth worth') ?_,
        chain_steps_stopped laid operand later (.raised fault)⟩
      rw [depth]
      omega
    | ok ps =>
      -- The operators are worked off last, so that nothing is spared where one of them raises.
      have eq := cost.eq worth
      have eq' := cost'.eq worth'
      rw [ending_ok worth'] at later
      rw [ending, eval_chain worth worth']
      refine ⟨_, .all ?_, chain_read works laid operand later⟩
      rw [depth, eq, eq']

theorem reads_nil : (nil : Tree (.steps level)).Reads m compute g L := by
  intro c next vs spans bars
  obtain rfl := spans.unique (.nil c)
  have absent (op : Operator) (mem : op ∈ level.operators) : next.ahead.head? ≠ some (mark op) :=
    bars _ (Level.mark_mem_barred mem)
  rw [ending_ok rfl, Phrase.result_nil]
  exact ⟨5, .all rfl, steps_none laid works absent⟩

theorem reads_cons {op : Operator} {mem : op ∈ level.operators} {n : Nat}
    {operand : Tree (.one level.operand)} {rest : Tree (.steps level)}
    (reads : operand.Reads m compute g L) (reads' : rest.Reads m compute g L) :
    (cons op mem n operand rest).Reads m compute g L := by
  intro c next vs spans bars
  obtain ⟨after, spans', spans''⟩ := spans.split
  obtain ⟨mid, sign, spans'⟩ := spans'.split
  have bare : mid.ahead.head? ≠ some ' ' := spans'.2 ▸ operand.bare
  obtain ⟨d, cost, first⟩ := reads [] spans' (spans''.2 ▸ rest.bars_steps bars)
  have le := cost.le
  cases worth : operand.eval compute with
  | error fault =>
    rw [ending_error worth] at first
    rw [ending_error (eval_cons_operand worth)]
    refine ⟨_, .raised (eval_cons_operand worth) ?_, steps_raised works laid mem sign bare first⟩
    rw [depth]
    omega
  | ok v =>
    rw [ending_ok worth] at first
    obtain ⟨e, cost', later⟩ := reads' (vs ++ [stepValue (op, v)]) spans'' bars
    have le' := cost'.le
    have all := steps_more works laid mem sign bare first spans' later
    cases worth' : rest.eval compute with
    | error fault =>
      rw [ending_error worth'] at all
      rw [ending_error (eval_cons_rest worth worth')]
      refine ⟨_, .raised (eval_cons_rest worth worth') ?_, all⟩
      rw [depth]
      omega
    | ok ps =>
      have eq := cost.eq worth
      have eq' := cost'.eq worth'
      rw [ending_ok worth'] at all
      rw [ending_ok (eval_cons worth worth'), Phrase.result_cons]
      refine ⟨_, .all ?_, all⟩
      rw [depth]
      omega

theorem reads (t : Tree p) : t.Reads m compute g L := by
  induction t with
  | number first others n => exact reads_number works laid
  | bracketed before inner after reads => exact reads_bracketed works laid reads
  | chain first steps reads reads' => exact reads_chain works laid reads reads'
  | nil => exact reads_nil works laid
  | cons op mem n operand rest reads reads' => exact reads_cons works laid reads reads'

end Tree

end Peg.Sample.Expression
