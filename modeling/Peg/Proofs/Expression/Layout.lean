import Peg.Proofs.Expression.Syntax
import Peg.Proofs.Semantics.Choices
import Peg.Sample.Expression

namespace Peg

namespace Grammar

variable (g : Grammar)

def Sign (h : HandleId) (a : Char) : Prop := g.Holds h (.literal (String.singleton a))

def Lexeme (spaces item h : HandleId) : Prop :=
  g.Holds h (.sequence (.keep 0 none) [(item, none), (spaces, none)])

def Symbol (spaces h : HandleId) (a : Char) : Prop :=
  ∃ literal, g.Sign literal a ∧ g.Lexeme spaces literal h

/-- A first operand, and then steps of an operator and an operand each. -/
def Chain (spaces operand : HandleId) (ops : List Operator) (h op step steps : HandleId) : Prop :=
  (∃ signs, g.OneOf (fun h op => g.Symbol spaces h (Sample.Expression.mark op)) ops signs ∧
    g.Holds op (.apply signs .operator)) ∧
  g.Holds step (.sequence .list [(op, none), (operand, none)]) ∧
  g.Holds steps (.repetition .list step 0 none none) ∧
  g.Holds h (.sequence .chain [(operand, none), (steps, none)])

end Grammar

namespace Sample.Expression

open Grammar

def Level.each {α : Type} (product sum : α) : Level → α
  | .product => product
  | .sum => sum

def Nonterminal.each {α : Type} (factor : α) (chains : Level → α) : Nonterminal → α
  | .factor => factor
  | .chain level => chains level

structure Layout where
  spaces : HandleId
  atom : HandleId
  opening : HandleId
  closing : HandleId
  bracketed : HandleId
  handle : Nonterminal → HandleId
  op : Level → HandleId
  step : Level → HandleId
  steps : Level → HandleId
  program : HandleId

structure Layout.In (L : Layout) (g : Grammar) : Prop where
  spaces : ∃ blank, g.Sign blank ' ' ∧ g.Holds L.spaces (.repetition .nothing blank 0 none none)
  atom : ∃ digits digit number, g.OneOf g.Sign ((List.finRange 10).map digitChar) digits ∧
    g.Holds digit (.expect digits "digit") ∧
    g.Holds number (.repetition .numeral digit 1 none none) ∧ g.Lexeme L.spaces number L.atom
  opening : g.Symbol L.spaces L.opening '('
  closing : g.Symbol L.spaces L.closing ')'
  bracketed : g.Holds L.bracketed (.sequence (.keep 1 none)
    [(L.opening, none), (L.handle (.chain .sum), none), (L.closing, none)])
  factor : g.Holds (L.handle .factor) (.choice L.atom [L.bracketed])
  chain (level : Level) : g.Chain L.spaces (L.handle level.operand) level.operators
    (L.handle (.chain level)) (L.op level) (L.step level) (L.steps level)
  program : ∃ eof, g.Holds eof .eof ∧ g.Holds L.program
    (.sequence (.keep 1 none) [(L.spaces, none), (L.handle (.chain .sum), none), (eof, none)])

theorem sign_eq (op : Operator) : op.sign = String.singleton (mark op) := by
  cases op <;> rfl

theorem builds_string (text : String) (a : Char) (single : text = String.singleton a) :
    (Build.string (.inl text)).Builds fun h g => g.Sign h a := by
  subst single
  exact Action.builds_make _

theorem builds_expect (h : HandleId) (label : String) :
    (Build.expect (.parser h) label).Builds fun k g => g.Holds k (.expect h label) :=
  Build.builds_made _

theorem builds_either (h k : HandleId) :
    (Build.choice [.parser h, .parser k]).Builds fun l g => g.Holds l (.choice h [k]) :=
  Build.builds_made _

theorem builds_many1 (h : HandleId) : (Build.many1 .numeral (.parser h) none).Builds fun k g =>
    g.Holds k (.repetition .numeral h 1 none none) :=
  Build.builds_made _

theorem builds_many (fold : Fold) (callable : fold.callable = true) (h : HandleId) :
    (Build.many fold (.parser h) none).Builds fun k g =>
      g.Holds k (.repetition fold h 0 none none) :=
  Build.builds_repetition .many callable rfl h 0 none

theorem mapM_checkPart (ps : List HandleId) :
    (ps.map fun p => Part.pair (.parser p) none).mapM Build.checkPart =
      .ok (ps.map fun p => (p, none)) := by
  induction ps with
  | nil => rfl
  | cons p ps ih =>
    rw [List.map_cons, List.mapM_cons, ih]
    rfl

theorem builds_inOrder (fold : Fold) (callable : fold.callable = true) {ps : List HandleId}
    (some_left : ps ≠ []) : (inOrder fold ps).Builds fun h g =>
      g.Holds h (.sequence fold (ps.map fun p => (p, none))) := by
  have checked : inOrder fold ps =
      Build.made (.ok (.sequence fold (ps.map fun p => (p, none)))) := by
    cases ps with
    | nil => exact absurd rfl some_left
    | cons p ps =>
      rw [inOrder, Build.sequence, mapM_checkPart, Build.checkFold, if_pos callable]
      rfl
  rw [checked]
  exact Build.builds_made _

theorem builds_lexeme (spaces item : HandleId) :
    (lexeme spaces item).Builds fun h g => g.Lexeme spaces item h :=
  builds_inOrder _ rfl (List.cons_ne_nil _ _)

theorem builds_symbol (spaces : HandleId) (text : String) (a : Char)
    (single : text = String.singleton a) :
    (symbol spaces text).Builds fun h g => g.Symbol spaces h a :=
  (builds_string text a single).bind fun literal _ => builds_lexeme spaces literal

theorem builds_chain (spaces operand : HandleId) (level : Level) :
    (chain spaces operand level.operators).Builds fun h g =>
      ∃ op step steps, g.Chain spaces operand level.operators h op step steps := by
  have some_left : level.operators ≠ [] := by cases level <;> exact List.cons_ne_nil _ _
  have symbols : (level.operators.mapM fun op => symbol spaces op.sign).Builds fun hs g =>
      List.Forall₂ (fun h op => g.Symbol spaces h (mark op)) hs level.operators :=
    .mapM (R := fun h op g => g.Symbol spaces h (mark op))
      (fun op => builds_symbol spaces op.sign (mark op) (sign_eq op)) level.operators
  have built := symbols.bind fun hs made => (Build.builds_oneOf some_left made).bind fun signs _ =>
    (Action.builds_make (.apply signs .operator)).bind fun op _ =>
    (builds_inOrder .list rfl (List.cons_ne_nil op [operand])).bind fun step _ =>
    (builds_many .list rfl step).bind fun steps _ =>
    builds_inOrder .chain rfl (List.cons_ne_nil operand [steps])
  intro w
  obtain ⟨h, w', ran, kept, opens, post⟩ := built w
  refine ⟨h, w', ran, kept, opens, fun g later => ?_⟩
  obtain ⟨hs, stand, signs, ⟨first, others, rfl, choice⟩, op, apply, step, sequence, steps,
    repetition, chain⟩ := post g later
  exact ⟨op, step, steps, ⟨signs, ⟨first, others, choice, stand⟩, apply⟩, sequence, repetition,
    chain⟩

theorem builds_outer (spaces expr : HandleId) {β : Type} (result : HandleId → HandleId → β) :
    (do
      let program ← inOrder (.keep 1 none) [spaces, expr, ← Build.eof]
      let comma ← Build.maybe (.parser (← symbol spaces ",")) .null
      let one ← inOrder (.keep 0 none) [expr, comma]
      let three ← Build.count 3 .list (.parser one) none
      let triple ← inOrder (.keep 0 none) [spaces, three]
      return result program triple : Action β).Builds fun b g => ∃ program triple eof,
        b = result program triple ∧ g.Holds eof .eof ∧
        g.Holds program (.sequence (.keep 1 none) [(spaces, none), (expr, none), (eof, none)]) := by
  have maybe (h : HandleId) : (Build.maybe (.parser h) .null).Builds _ :=
    (Action.builds_make (.pure .null)).bind fun null _ => builds_either h null
  have count (h : HandleId) : (Build.count 3 .list (.parser h) none).Builds _ :=
    Build.builds_made (.repetition .list h 3 (some 3) none)
  have built := (Action.builds_make .eof).bind fun eof _ =>
    (builds_inOrder (.keep 1 none) rfl (List.cons_ne_nil spaces [expr, eof])).bind fun program _ =>
    (builds_symbol spaces "," ',' rfl).bind fun comma _ => (maybe comma).bind fun optional _ =>
    (builds_inOrder (.keep 0 none) rfl (List.cons_ne_nil expr [optional])).bind fun one _ =>
    (count one).bind fun three _ =>
    (builds_inOrder (.keep 0 none) rfl (List.cons_ne_nil spaces [three])).bind fun triple _ =>
    Action.Builds.done (result program triple)
  intro w
  obtain ⟨b, w', ran, kept, opens, post⟩ := built w
  refine ⟨b, w', ran, kept, opens, fun g later => ?_⟩
  obtain ⟨eof, at_eof, program, at_program, _, _, _, _, _, _, _, _, triple, _, rfl⟩ := post g later
  exact ⟨program, triple, eof, rfl, at_eof, at_program⟩

theorem builds_digits :
    (["0", "1", "2", "3", "4", "5", "6", "7", "8", "9"].mapM
      fun d => Build.string (.inl d)).Builds fun hs g =>
        List.Forall₂ g.Sign hs ((List.finRange 10).map digitChar) := by
  have signs : ["0", "1", "2", "3", "4", "5", "6", "7", "8", "9"] =
      ((List.finRange 10).map digitChar).map String.singleton := by decide
  rw [signs, List.mapM_map]
  exact .mapM (fun a => Action.builds_make (.literal (String.singleton a))) _

/-- What `build` makes is laid out as it should be. -/
theorem build_builds : build.Builds fun e g => ∃ L : Layout, L.In g ∧ e.program = L.program := by
  have inner (digit number spaces expr : HandleId) :=
    Action.Fills.bind (builds_lexeme spaces number) fun atom _ =>
    Action.Fills.bind (builds_symbol spaces "(" '(' rfl) fun opening _ =>
    Action.Fills.bind (builds_symbol spaces ")" ')' rfl) fun closing _ =>
    Action.Fills.bind (builds_inOrder (.keep 1 none) rfl
      (List.cons_ne_nil opening [expr, closing])) fun bracketed _ =>
    Action.Fills.bind (builds_either atom bracketed) fun factor _ =>
    Action.Fills.bind (builds_chain spaces factor .product) fun term _ =>
    Action.Fills.define expr (builds_chain spaces term .sum)
      (fun h g ⟨_, _, _, _, _, _, holds⟩ => ⟨_, holds⟩)
      fun _ _ => builds_outer spaces expr fun program triple =>
        { digit, number, spaces, factor, term, expr, program, triple : Expression }
  have built := builds_digits.bind fun ds made =>
    (Build.builds_oneOf (by decide) made).bind fun digits _ =>
    (builds_expect digits "digit").bind fun digit _ => (builds_many1 digit).bind fun number _ =>
    (builds_string " " ' ' rfl).bind fun blank _ =>
    (builds_many .nothing rfl blank).bind fun spaces _ =>
    Action.Builds.placeholder (by decide : "expr" ≠ "") (inner digit number spaces)
  intro w
  obtain ⟨e, w', ran, kept, opens, post⟩ := built w
  refine ⟨e, w', ran, kept, opens, fun g later => ?_⟩
  obtain ⟨ds, stand, digits, ⟨first, others, rfl, choice⟩, digit, at_digit, number, at_number,
    blank, at_blank, spaces, at_spaces, expr, atom, at_atom, opening, at_opening, closing,
    at_closing, bracketed, at_bracketed, factor, at_factor, term, ⟨op, step, steps, at_term⟩, sum,
    ⟨op', step', steps', at_sum⟩, filled, program, triple, eof, rfl, at_eof, at_program⟩ :=
    post g later
  -- The placeholder holds what the chain of sums holds, and the brackets ask for the placeholder.
  obtain ⟨signs, at_step, at_steps, at_chain⟩ := at_sum
  let L : Layout :=
    { spaces, atom, opening, closing, bracketed, program
      handle := Nonterminal.each factor (Level.each term expr)
      op := Level.each op op'
      step := Level.each step step'
      steps := Level.each steps steps' }
  refine ⟨L, ?_, rfl⟩
  exact
    { spaces := ⟨blank, at_blank, at_spaces⟩
      atom := ⟨digits, digit, number, ⟨first, others, choice, stand⟩, at_digit, at_number, at_atom⟩
      opening := at_opening
      closing := at_closing
      bracketed := at_bracketed
      factor := at_factor
      chain := by
        rintro (_ | _)
        · exact at_term
        · exact ⟨signs, at_step, at_steps, filled _ at_chain⟩
      program := ⟨eof, at_eof, at_program⟩ }

end Sample.Expression

end Peg
