import Peg.Proofs.Expression.Derivations

namespace Peg.Sample.Expression

variable {m : Meaning} {compute : Standard.Calculation} {g : Grammar} {L : Layout} {p : Phrase}
  {level : Level} {bound : Nat}

inductive Verdict (compute : Standard.Calculation) (p : Phrase) (vs : List Value) (c : Cursor) :
    Ending Result → Prop where
  | read {t : Tree p} {x : p.Meaning} {next : Cursor} : c.Spans t.text next →
      t.eval compute = .ok x → Verdict compute p vs c (.done (.success (p.result vs x) next))
  | unread (f : Failure) : Verdict compute p vs c (.done (.failure f))
  | raised {op : Operator} {v w : Value} {fault : Fault} : compute op v w = .error fault →
      Verdict compute p vs c (.raised fault)

/-- A phrase comes to one of these where at most so many characters are left. -/
def Judged (m : Meaning) (compute : Standard.Calculation) (g : Grammar) (L : Layout) (p : Phrase)
    (bound : Nat) : Prop :=
  ∀ (c : Cursor) (vs : List Value), c.ahead.length ≤ bound →
    ∃ d ending, Verdict compute p vs c ending ∧ m.Settles g (p.stage L vs) c d ending

theorem verdict_nil {vs : List Value} {c : Cursor} :
    Verdict compute (.steps level) vs c (.done (.success (.list vs) c)) := by
  rw [← Phrase.result_nil]
  exact .read (t := .nil) (.nil c) rfl

theorem Judged.mono {bound' : Nat} (judged : Judged m compute g L p bound') (le : bound ≤ bound') :
    Judged m compute g L p bound :=
  fun c vs short => judged c vs (Nat.le_trans short le)

variable (works : Works m compute) (laid : L.In g)
include works laid

theorem judged_factor (inner : ∀ shorter < bound,
      Judged m compute g L (.one (.chain .sum)) shorter) :
    Judged m compute g L (.one .factor) bound := by
  intro c vs short
  obtain ⟨ds, mid, number_here, stops⟩ := exists_digits c
  cases ds with
  | cons first others =>
    obtain ⟨n, next, blanks_here, bare⟩ := exists_blanks mid
    exact ⟨_, _, .read (t := .number first others n) (number_here.trans blanks_here) rfl,
      factor_number works laid number_here (List.cons_ne_nil _ _) stops blanks_here bare⟩
  | nil =>
    obtain rfl := number_here.unique (.nil c)
    by_cases here : mid.ahead.head? = some '('
    · obtain ⟨before, start, opened, bare⟩ := exists_symbol here
      have length := opened.length
      rw [List.length_cons] at length
      obtain ⟨d, ending, verdict, settles⟩ := inner start.ahead.length (by omega) start [] (Nat.le_refl _)
      cases verdict with
      | @read t v inside spans worth =>
        by_cases there : inside.ahead.head? = some ')'
        · obtain ⟨after, next, closed, bare'⟩ := exists_symbol there
          exact ⟨_, _, .read (t := .bracketed before t after) ((opened.trans spans).trans closed)
            worth, factor_bracketed laid stops
              (bracketed_read works laid opened bare settles closed bare') nofun⟩
        · obtain ⟨f, unclosed⟩ := bracketed_unclosed works laid opened bare settles there
          obtain ⟨f', unread⟩ := factor_unread laid stops unclosed
          exact ⟨_, _, .unread f', unread⟩
      | unread f =>
        have failed := bracketed_stopped works laid opened bare settles (.failed f)
        obtain ⟨f', unread⟩ := factor_unread laid stops failed
        exact ⟨_, _, .unread f', unread⟩
      | raised worth =>
        have raised := bracketed_stopped works laid opened bare settles (.raised _)
        exact ⟨_, _, .raised worth, factor_bracketed laid stops raised nofun⟩
    · obtain ⟨f, unopened⟩ := bracketed_unopened laid here
      obtain ⟨f', unread⟩ := factor_unread laid stops unopened
      exact ⟨_, _, .unread f', unread⟩

theorem judged_steps (operand : Judged m compute g L (.one level.operand) bound) :
    Judged m compute g L (.steps level) bound := by
  induction bound using Nat.strongRecOn with
  | _ bound ih =>
    intro c vs short
    by_cases here : ∃ op ∈ level.operators, c.ahead.head? = some (mark op)
    · obtain ⟨op, mem, here⟩ := here
      obtain ⟨n, mid, sign, bare⟩ := exists_symbol here
      have length := sign.length
      rw [List.length_cons] at length
      obtain ⟨d, ending, verdict, first⟩ := operand mid [] (by omega)
      cases verdict with
      | @read t v after spans worth =>
        have length' := spans.length
        -- The operator is passed over, so that less is left for the steps after this one.
        obtain ⟨e, ending', verdict', later⟩ := ih after.ahead.length (by omega)
          (operand.mono (by omega)) after (vs ++ [stepValue (op, v)]) (Nat.le_refl _)
        have all := steps_more works laid mem sign bare first spans later
        cases verdict' with
        | @read t' ps next spans' worth' =>
          rw [← Phrase.result_cons] at all
          exact ⟨_, _, .read (t := .cons op mem n t t') ((sign.trans spans).trans spans')
            (Tree.eval_cons worth worth'), all⟩
        | unread f => exact ⟨_, _, .unread f, all⟩
        | raised worth' => exact ⟨_, _, .raised worth', all⟩
      | unread f => exact ⟨_, _, verdict_nil, steps_unread works laid mem sign bare first⟩
      | raised worth => exact ⟨_, _, .raised worth, steps_raised works laid mem sign bare first⟩
    · exact ⟨_, _, verdict_nil, steps_none laid works fun op mem eq => here ⟨op, mem, eq⟩⟩

theorem judged_chain (operand : Judged m compute g L (.one level.operand) bound) :
    Judged m compute g L (.one (.chain level)) bound := by
  intro c vs short
  obtain ⟨d, ending, verdict, first⟩ := operand c [] short
  cases verdict with
  | @read t v mid spans worth =>
    have le : mid.ahead.length ≤ bound := by
      have length := spans.length
      omega
    obtain ⟨e, ending', verdict', later⟩ := judged_steps works laid operand mid [] le
    cases verdict' with
    | @read t' ps next spans' worth' =>
      have worth_all := Tree.eval_chain worth worth'
      have settles : m.Settles g ((Phrase.one (.chain level)).stage L vs) c (max d (e + 1) + 1)
          ((Tree.chain t t').ending compute vs next) := by
        rw [Tree.ending, worth_all]
        exact chain_read works laid first later
      cases whole : (Tree.chain t t').eval compute with
      | ok x =>
        rw [Tree.ending_ok whole] at settles
        exact ⟨_, _, .read (t := .chain t t') (spans.trans spans') whole, settles⟩
      | error fault =>
        rw [Tree.ending_error whole] at settles
        obtain ⟨op, v, w, worth⟩ := workOff_raised (worth_all.symm.trans whole)
        exact ⟨_, _, .raised worth, settles⟩
    | unread f => exact ⟨_, _, .unread f, chain_steps_stopped laid first later (.failed f)⟩
    | raised worth' =>
      exact ⟨_, _, .raised worth', chain_steps_stopped laid first later (.raised _)⟩
  | unread f => exact ⟨_, _, .unread f, chain_stopped laid first (.failed f)⟩
  | raised worth => exact ⟨_, _, .raised worth, chain_stopped laid first (.raised _)⟩

theorem judged (bound : Nat) (n : Nonterminal) : Judged m compute g L (.one n) bound := by
  induction bound using Nat.strongRecOn generalizing n with
  | _ bound ih =>
    -- An expression is asked for again only after a parenthesis, a term and a factor on the spot.
    have factor := judged_factor works laid fun shorter lt => ih shorter lt (.chain .sum)
    have product : Judged m compute g L (.one (.chain .product)) bound :=
      judged_chain works laid factor
    have sum : Judged m compute g L (.one (.chain .sum)) bound := judged_chain works laid product
    match n with
    | .factor => exact factor
    | .chain .product => exact product
    | .chain .sum => exact sum

end Peg.Sample.Expression
