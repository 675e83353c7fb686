import Peg.Proofs.Expression.Verdicts

/-!
The program of the expressions on whole texts. It accepts the sentences and nothing else, works them
out as they are derived, and needs eight levels for a pair of parentheses; there are sentences that
need all of them.
-/

namespace Peg

namespace Sample.Expression

open Meaning.Settles

section Program

variable {m : Meaning} {compute : Standard.Calculation} {g : Grammar} {L : Layout}
  {c mid next : Cursor} {n d : Nat} {v : Value} {ending : Ending Result}
  (works : Works m compute) (laid : L.In g)
  (spans : c.Spans (blanks n) mid) (bare : mid.ahead.head? ≠ some ' ')
include works laid spans bare

theorem program_read
    (expr : m.Settles g (.call (L.handle (.chain .sum))) mid d (.done (.success v next)))
    (ended : next.pos = next.input.size) :
    m.Settles g (.call L.program) c (max 2 (max d 1) + 1) (.done (.success v next)) := by
  obtain ⟨eof, at_eof, at_program⟩ := laid.program
  have spaces := spaces_read works laid spans bare
  have eof_read : m.Settles g (.call eof) next 1 _ := holds at_eof (leaf (.ended ended))
  have items : m.Settles g (.items (.keep 1 none) _ (loose [])) c (max 2 (max d 1)) _ :=
    spaces.itemDone (expr.itemDone (eof_read.itemLast (works.middle _ v _)))
  exact holds at_program (sequence items)

theorem program_left
    (expr : m.Settles g (.call (L.handle (.chain .sum))) mid d (.done (.success v next)))
    (unended : next.pos ≠ next.input.size) :
    ∃ f, m.Settles g (.call L.program) c (max 2 (max d 1) + 1) (.done (.failure f)) := by
  obtain ⟨eof, at_eof, at_program⟩ := laid.program
  have spaces := spaces_read works laid spans bare
  have eof_unread : m.Settles g (.call eof) next 1 _ := holds at_eof (leaf (.unended unended))
  exact ⟨_, holds at_program (sequence (spaces.itemDone (expr.itemDone eof_unread.itemFailed)))⟩

theorem program_stopped
    (expr : m.Settles g (.call (L.handle (.chain .sum))) mid d ending) (stops : ending.Stops) :
    m.Settles g (.call L.program) c (max 2 d + 1) ending := by
  obtain ⟨eof, at_eof, at_program⟩ := laid.program
  have spaces := spaces_read works laid spans bare
  exact holds at_program (sequence (spaces.itemDone (expr.itemStopped stops)))

end Program

section Whole

variable {m : Meaning} {compute : Standard.Calculation} {g : Grammar} {L : Layout} {text : String}
  (works : Works m compute) (laid : L.In g)

def Sentence.ending (compute : Standard.Calculation) (s : Sentence) (text : String) :
    Ending Result :=
  (Ending.ofExcept (s.eval compute)).map fun v => .success v (.finish (Input.ofString text))

def Refused (compute : Standard.Calculation) (ending : Ending Result) : Prop :=
  (∃ f, ending = .done (.failure f)) ∨
    ∃ op v w fault, compute op v w = .error fault ∧ ending = .raised fault

include works laid

theorem sentence_settles (s : Sentence) (eq : text.toList = s.text) :
    ∃ d, d ≤ s.expr.depth + 1 ∧ (∀ v, s.eval compute = .ok v → d = s.expr.depth + 1) ∧
      m.Settles g (.call L.program) (.start (Input.ofString text)) d (s.ending compute text) := by
  obtain ⟨mid, spans, spans'⟩ := (Cursor.spans_finish eq).split
  have bare : mid.ahead.head? ≠ some ' ' := spans'.2 ▸ s.expr.bare
  have bars : Bars (Nonterminal.chain .sum).barred (Cursor.finish (Input.ofString text)).ahead :=
    Cursor.ahead_finish _ ▸ bars_nil _
  obtain ⟨d, cost, settles⟩ := s.expr.reads works laid [] spans' bars
  have le := cost.le
  have le' := s.expr.le_depth
  cases worth : s.expr.eval compute with
  | error fault =>
    rw [Tree.ending_error worth] at settles
    have stopped := program_stopped works laid spans bare settles (.raised fault)
    refine ⟨max 2 d + 1, by omega, fun v ok => ?_, ?_⟩
    · rw [Sentence.eval, worth] at ok
      cases ok
    · rw [Sentence.ending, Sentence.eval, worth]
      exact stopped
  | ok v =>
    have eq := cost.eq worth
    rw [Tree.ending_ok worth] at settles
    have read := program_read works laid spans bare settles rfl
    refine ⟨max 2 (max d 1) + 1, by omega, fun _ _ => by omega, ?_⟩
    rw [Sentence.ending, Sentence.eval, worth]
    exact read

theorem other_settles (other : ∀ s : Sentence, text.toList ≠ s.text) :
    ∃ d ending, Refused compute ending ∧
      m.Settles g (.call L.program) (.start (Input.ofString text)) d ending := by
  obtain ⟨n, mid, spans, bare⟩ := exists_blanks (.start (Input.ofString text))
  obtain ⟨d, ending, verdict, settles⟩ :=
    judged works laid mid.ahead.length (.chain .sum) mid [] (Nat.le_refl _)
  cases verdict with
  | @read t v next spans' worth =>
    have unended : next.pos ≠ next.input.size :=
      fun ended => other ⟨n, t⟩ ((spans.trans spans').toList_eq ended)
    obtain ⟨f, failed⟩ := program_left works laid spans bare settles unended
    exact ⟨_, _, .inl ⟨f, rfl⟩, failed⟩
  | unread f =>
    exact ⟨_, _, .inl ⟨f, rfl⟩, program_stopped works laid spans bare settles (.failed f)⟩
  | raised worth =>
    exact ⟨_, _, .inr ⟨_, _, _, _, worth, rfl⟩,
      program_stopped works laid spans bare settles (.raised _)⟩

end Whole

/-- A parser of texts that accepts the sentences and works them out. -/
structure Decides (run : String → Config → Ending Result) (compute : Standard.Calculation) :
    Prop where
  /-- However many levels there are, the ending is right unless they are too few. -/
  sentence {text : String} {config : Config} (s : Sentence) : text.toList = s.text →
    run text config ≠ .raised (.depthLimit config.maxDepth) →
    run text config = s.ending compute text
  other {text : String} {config : Config} : (∀ s : Sentence, text.toList ≠ s.text) →
    run text config ≠ .raised (.depthLimit config.maxDepth) → Refused compute (run text config)
  enough {text : String} {config : Config} (s : Sentence) (k : Nat) : text.toList = s.text →
    s.nesting ≤ k → 13 + 8 * k ≤ config.maxDepth → run text config = s.ending compute text
  /-- Where no operator raises, fewer levels do not do for all sentences. -/
  needed : (∀ op v w, ∃ x, compute op v w = .ok x) → ∀ k, ∃ s : Sentence, s.nesting = k ∧
    ∀ config : Config, config.maxDepth < 13 + 8 * k →
      run (String.ofList s.text) config = .raised (.depthLimit config.maxDepth)

/-- What is built decides the sentences, whatever the operators are and however deeply the callbacks
may nest parses, in every later world that keeps the parsers. -/
theorem program_decides (w : World) : ∃ e w', build w = (.done e, w') ∧
    ∀ (compute : Standard.Calculation) (levels : Nat) (later : World),
      w'.store.grammar.KeptIn later.store.grammar →
      Decides (fun text config =>
        ((Meaning.standard compute levels).parse e.program text config later).1) compute := by
  obtain ⟨e, w', ran, _, _, post⟩ := build_builds w
  refine ⟨e, w', ran, fun compute levels later kept => ?_⟩
  obtain ⟨L, laid, program⟩ := post _ kept
  have works := standard_works compute levels
  rw [program]
  exact
    { sentence := fun s eq unlimited => by
        obtain ⟨d, _, _, settles⟩ := sentence_settles works laid s eq
        exact settles.parse_of_unlimited rfl unlimited
      other := fun other unlimited => by
        obtain ⟨d, ending, refused, settles⟩ := other_settles works laid other
        rw [settles.parse_of_unlimited rfl unlimited]
        exact refused
      enough := fun {text config} s k eq nested room => by
        obtain ⟨d, le, _, settles⟩ := sentence_settles works laid s eq
        have le' : s.expr.depth ≤ 12 + 8 * s.nesting := s.expr.depth_le
        rw [settles.parse_eq config rfl, if_pos (by omega)]
      needed := fun total k => by
        refine ⟨⟨0, .tower k⟩, Tree.nesting_tower k, fun config short => ?_⟩
        obtain ⟨d, _, exact_depth, settles⟩ :=
          sentence_settles works laid ⟨0, .tower k⟩ String.toList_ofList
        obtain ⟨v, worth⟩ := (Tree.tower k).exists_eval total
        have depth := exact_depth v worth
        rw [Tree.depth_tower] at depth
        rw [settles.parse_eq config rfl, if_neg (by omega)] }

theorem program_decides_nested : ∃ e w', build {} = (.done e, w') ∧
    (Meaning.usual.parse e.program "2+ 3*(4-1) " ⟨21, false, "", by decide⟩ w').1 =
      .done (.success (.integer 11) (.finish (Input.ofString "2+ 3*(4-1) "))) := by
  obtain ⟨e, w', built, decides⟩ := program_decides {}
  have decides_usual := decides Operator.apply Meaning.nestingLevels w' (.refl _)
  let difference : Tree (.one (.chain .sum)) :=
    .chain (@Tree.chain .product (.number 4 [] 0) .nil)
      (.cons .minus (by decide) 0 (@Tree.chain .product (.number 1 [] 0) .nil) .nil)
  let sum : Sentence := ⟨0, .chain (@Tree.chain .product (.number 2 [] 0) .nil)
    (.cons .plus (by decide) 1 (@Tree.chain .product (.number 3 [] 0)
      (.cons .times (by decide) 0 (.bracketed 0 difference 1) .nil)) .nil)⟩
  exact ⟨e, w', built, decides_usual.enough sum 1 (by decide) (by decide) (by decide)⟩

end Sample.Expression

end Peg
