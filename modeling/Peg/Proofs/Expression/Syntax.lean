import Peg.Callback.Standard

/-!
Arithmetic expressions as a context-free language, apart from any parser:

    sentence := " "* expr
    expr     := term (("+" | "-") " "* term)*
    term     := factor (("*" | "/") " "* factor)*
    factor   := digit+ " "* | "(" " "* expr ")" " "*

A tree is a derivation. Its text, its value and how deeply its parentheses nest are read off it by
recursion.
-/

namespace Peg.Sample.Expression

inductive Level where
  | product
  | sum
deriving DecidableEq

inductive Nonterminal where
  | factor
  | chain (level : Level)

namespace Level

def operators : Level → List Operator
  | .product => [.times, .over]
  | .sum => [.plus, .minus]

def operand : Level → Nonterminal
  | .product => .factor
  | .sum => .chain .product

end Level

/-- What a tree derives: a nonterminal, or the operators of a chain with the operands after the
first. -/
inductive Phrase where
  | one (n : Nonterminal)
  | steps (level : Level)

inductive Tree : Phrase → Type where
  | number (first : Fin 10) (others : List (Fin 10)) (blanks : Nat) : Tree (.one .factor)
  | bracketed (before : Nat) (inner : Tree (.one (.chain .sum))) (after : Nat) :
      Tree (.one .factor)
  | chain {level : Level} (first : Tree (.one level.operand)) (steps : Tree (.steps level)) :
      Tree (.one (.chain level))
  | nil {level : Level} : Tree (.steps level)
  | cons {level : Level} (op : Operator) (mem : op ∈ level.operators) (blanks : Nat)
      (operand : Tree (.one level.operand)) (rest : Tree (.steps level)) : Tree (.steps level)

abbrev Phrase.Meaning : Phrase → Type
  | .one _ => Value
  | .steps _ => List (Operator × Value)

def mark : Operator → Char
  | .plus => '+'
  | .minus => '-'
  | .times => '*'
  | .over => '/'

theorem mark_injective : Function.Injective mark := by
  intro op op'
  cases op <;> cases op' <;> simp [mark]

def digitChar (i : Fin 10) : Char := Nat.digitChar i

def blanks (n : Nat) : List Char := List.replicate n ' '

def workOff (compute : Standard.Calculation) (v : Value) (steps : List (Operator × Value)) :
    Except Fault Value :=
  steps.foldlM (fun acc step => compute step.1 acc step.2) v

section WorkOff

variable {compute : Standard.Calculation} {v : Value} {steps : List (Operator × Value)}

theorem exists_workOff (total : ∀ op v w, ∃ x, compute op v w = .ok x) :
    ∃ x, workOff compute v steps = .ok x := by
  induction steps generalizing v with
  | nil => exact ⟨v, rfl⟩
  | cons step steps ih =>
    obtain ⟨v', worth⟩ := total step.1 v step.2
    rw [workOff, List.foldlM_cons, worth]
    exact ih

theorem workOff_raised {fault : Fault} (raised : workOff compute v steps = .error fault) :
    ∃ op v w, compute op v w = .error fault := by
  induction steps generalizing v with
  | nil => cases raised
  | cons step steps ih =>
    rw [workOff, List.foldlM_cons] at raised
    cases worth : compute step.1 v step.2 with
    | error fault' =>
      rw [worth] at raised
      cases raised
      exact ⟨_, _, _, worth⟩
    | ok v' =>
      rw [worth] at raised
      exact ih raised

end WorkOff

def decimal (ds : List (Fin 10)) : Nat := ds.foldl (fun n i => 10 * n + i.val) 0

namespace Tree

def text {p : Phrase} : Tree p → List Char
  | .number first others n => (first :: others).map digitChar ++ blanks n
  | .bracketed before inner after =>
    '(' :: blanks before ++ inner.text ++ ')' :: blanks after
  | .chain first steps => first.text ++ steps.text
  | .nil => []
  | .cons op _ n operand rest => mark op :: blanks n ++ operand.text ++ rest.text

def eval (compute : Standard.Calculation) {p : Phrase} : Tree p → Except Fault p.Meaning
  | .number first others _ => .ok (.integer (decimal (first :: others)))
  | .bracketed _ inner _ => inner.eval compute
  | .chain first steps => do
    let v ← first.eval compute
    let rest ← steps.eval compute
    workOff compute v rest
  | .nil => .ok []
  | .cons op _ _ operand rest => do
    let v ← operand.eval compute
    let rest ← rest.eval compute
    return (op, v) :: rest

section Eval

variable {compute : Standard.Calculation} {level : Level} {first : Tree (.one level.operand)}
  {steps : Tree (.steps level)} {op : Operator} {mem : op ∈ level.operators} {n : Nat} {v : Value}
  {ps : List (Operator × Value)} {fault : Fault}

theorem eval_chain (worth : first.eval compute = .ok v) (worth' : steps.eval compute = .ok ps) :
    (chain first steps).eval compute = workOff compute v ps := by
  rw [eval, worth, worth']
  rfl

theorem eval_chain_first (worth : first.eval compute = .error fault) :
    (chain first steps).eval compute = .error fault := by
  rw [eval, worth]
  rfl

theorem eval_chain_steps (worth : first.eval compute = .ok v)
    (worth' : steps.eval compute = .error fault) :
    (chain first steps).eval compute = .error fault := by
  rw [eval, worth, worth']
  rfl

theorem eval_cons (worth : first.eval compute = .ok v) (worth' : steps.eval compute = .ok ps) :
    (cons op mem n first steps).eval compute = .ok ((op, v) :: ps) := by
  rw [eval, worth, worth']
  rfl

theorem eval_cons_operand (worth : first.eval compute = .error fault) :
    (cons op mem n first steps).eval compute = .error fault := by
  rw [eval, worth]
  rfl

theorem eval_cons_rest (worth : first.eval compute = .ok v)
    (worth' : steps.eval compute = .error fault) :
    (cons op mem n first steps).eval compute = .error fault := by
  rw [eval, worth, worth']
  rfl

end Eval

theorem exists_eval {compute : Standard.Calculation}
    (total : ∀ op v w, ∃ x, compute op v w = .ok x) {p : Phrase} (t : Tree p) :
    ∃ x, t.eval compute = .ok x := by
  induction t with
  | number first others n => exact ⟨_, rfl⟩
  | bracketed before inner after ih => exact ih
  | chain first steps ih ih' =>
    obtain ⟨v, worth⟩ := ih
    obtain ⟨ps, worth'⟩ := ih'
    rw [eval_chain worth worth']
    exact exists_workOff total
  | nil => exact ⟨_, rfl⟩
  | cons op mem n operand rest ih ih' =>
    obtain ⟨v, worth⟩ := ih
    obtain ⟨ps, worth'⟩ := ih'
    exact ⟨_, eval_cons worth worth'⟩

def nesting {p : Phrase} : Tree p → Nat
  | .number _ _ _ => 0
  | .bracketed _ inner _ => inner.nesting + 1
  | .chain first steps => max first.nesting steps.nesting
  | .nil => 0
  | .cons _ _ _ operand rest => max operand.nesting rest.nesting

/-- How many levels a parser needs for a tree that it works out to the end. -/
def depth {p : Phrase} : Tree p → Nat
  | .number _ _ _ => 6
  | .bracketed _ inner _ => max 6 (inner.depth + 2)
  | .chain first steps => max first.depth (steps.depth + 1) + 1
  | .nil => 5
  | .cons _ _ _ operand rest => max (max 6 (operand.depth + 1)) rest.depth

end Tree

structure Sentence where
  before : Nat
  expr : Tree (.one (.chain .sum))

namespace Sentence

def text (s : Sentence) : List Char := blanks s.before ++ s.expr.text

def eval (compute : Standard.Calculation) (s : Sentence) : Except Fault Value := s.expr.eval compute

def nesting (s : Sentence) : Nat := s.expr.nesting

end Sentence

def Phrase.depth : Phrase → Nat
  | .one .factor => 6
  | .steps .product => 7
  | .one (.chain .product) => 9
  | .steps .sum => 10
  | .one (.chain .sum) => 12

theorem Level.depth_steps (level : Level) :
    (Phrase.steps level).depth = (Phrase.one level.operand).depth + 1 := by
  cases level <;> rfl

theorem Level.depth_chain (level : Level) :
    (Phrase.one (.chain level)).depth = (Phrase.one level.operand).depth + 3 := by
  cases level <;> rfl

theorem Level.le_depth_operand (level : Level) : 6 ≤ (Phrase.one level.operand).depth := by
  cases level <;> decide

namespace Tree

/-- A pair of parentheses takes eight levels. -/
theorem depth_le {p : Phrase} (t : Tree p) : t.depth ≤ p.depth + 8 * t.nesting := by
  induction t with
  | number => exact Nat.le_refl _
  | bracketed before inner after ih =>
    simp only [depth, nesting, Phrase.depth] at ih ⊢
    omega
  | @chain level first steps ih ih' =>
    have depth_steps := level.depth_steps
    have depth_chain := level.depth_chain
    simp only [depth, nesting]
    omega
  | @nil level =>
    have depth_steps := level.depth_steps
    have le := level.le_depth_operand
    simp only [depth]
    omega
  | @cons level op mem n operand rest ih ih' =>
    have depth_steps := level.depth_steps
    have le := level.le_depth_operand
    simp only [depth, nesting]
    omega

theorem le_depth {n : Nonterminal} : (t : Tree (.one n)) → 6 ≤ t.depth
  | .number _ _ _ => Nat.le_refl _
  | .bracketed _ _ _ => Nat.le_max_left ..
  | .chain first steps => by
    have le := first.le_depth
    simp only [depth]
    omega

end Tree

namespace Tree

def zero : Tree (.one .factor) := .number 0 [] 0

def last (factor : Tree (.one .factor)) : Tree (.one (.chain .sum)) :=
  .chain (@chain .product zero .nil)
    (.cons .plus (by decide) 0 (@chain .product zero (.cons .times (by decide) 0 factor .nil)) .nil)

/-- Trees that need as many levels as any that nest as deeply: `0+0*(0+0*(…))`. -/
def tower : Nat → Tree (.one (.chain .sum))
  | 0 => last zero
  | k + 1 => last (.bracketed 0 (tower k) 0)

theorem nesting_last (factor : Tree (.one .factor)) : (last factor).nesting = factor.nesting := by
  dsimp only [last, nesting, zero, Level.operand]
  omega

theorem depth_last (factor : Tree (.one .factor)) : (last factor).depth = factor.depth + 6 := by
  have le := factor.le_depth
  dsimp only [last, depth, zero, Level.operand]
  omega

theorem nesting_tower (k : Nat) : (tower k).nesting = k := by
  induction k with
  | zero => rfl
  | succ k ih => rw [tower, nesting_last, nesting, ih]

theorem depth_tower (k : Nat) : (tower k).depth = 12 + 8 * k := by
  induction k with
  | zero => rfl
  | succ k ih =>
    rw [tower, depth_last, depth, ih]
    omega

end Tree

/-- A text that does not begin with a character of these. -/
def Bars (chars text : List Char) : Prop := ∀ a ∈ chars, text.head? ≠ some a

def lexical : List Char := ' ' :: (List.finRange 10).map digitChar

def Nonterminal.barred : Nonterminal → List Char
  | .factor => lexical
  | .chain .product => lexical ++ ['*', '/']
  | .chain .sum => lexical ++ ['*', '/', '+', '-']

theorem Bars.mono {chars chars' text : List Char} (bars : Bars chars' text)
    (subset : chars ⊆ chars') : Bars chars text :=
  fun a mem => bars a (subset mem)

theorem bars_nil (chars : List Char) : Bars chars [] := fun _ _ => nofun

theorem bars_cons {chars text : List Char} {a : Char} (not_mem : a ∉ chars) :
    Bars chars (a :: text) := by
  intro b mem eq
  cases Option.some.inj eq
  exact not_mem mem

namespace Level

theorem barred_operand_subset (level : Level) :
    level.operand.barred ⊆ (Nonterminal.chain level).barred := by
  cases level
  · exact List.subset_append_left ..
  · exact List.append_subset.mpr ⟨List.subset_append_left .., by decide⟩

theorem mark_mem_barred {level : Level} {op : Operator} (mem : op ∈ level.operators) :
    mark op ∈ (Nonterminal.chain level).barred := by
  revert op
  cases level <;> decide

theorem mark_not_mem_barred {level : Level} {op : Operator} (mem : op ∈ level.operators) :
    mark op ∉ level.operand.barred := by
  revert op
  cases level <;> decide

end Level

theorem digitChar_mem_lexical (i : Fin 10) : digitChar i ∈ lexical :=
  List.mem_cons_of_mem _ (List.mem_map_of_mem (List.mem_finRange i))

namespace Tree

theorem text_head {n : Nonterminal} : (t : Tree (.one n)) → ∃ a rest, t.text = a :: rest ∧ a ≠ ' '
  | .number first others m => ⟨digitChar first, _, rfl, by revert first; decide⟩
  | .bracketed _ _ _ => ⟨'(', _, rfl, by decide⟩
  | .chain first steps => by
    obtain ⟨a, rest, eq, ne⟩ := first.text_head
    exact ⟨a, rest ++ steps.text, by simp [text, eq], ne⟩

theorem bars_steps {level : Level} (t : Tree (.steps level)) {rest : List Char}
    (bars : Bars (Nonterminal.chain level).barred rest) :
    Bars level.operand.barred (t.text ++ rest) := by
  cases t with
  | nil => exact bars.mono level.barred_operand_subset
  | cons op mem => exact bars_cons (Level.mark_not_mem_barred mem)

end Tree

end Peg.Sample.Expression
