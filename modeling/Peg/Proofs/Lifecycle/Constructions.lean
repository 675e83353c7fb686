import Peg.Proofs.Lifecycle.Soundness

/-!
Grammars that were built by the combinators and by filling in placeholders, and not changed
otherwise. A handle without a name is given its node when it is made, so that it leads to older
handles only: whatever leads back to itself does so by way of a placeholder.
-/

namespace Peg

inductive Construction where
  | string (text : String ⊕ Shape)
  | pure (value : Value)
  | fail (message : String)
  | eof
  | placeholder (name : String)
  | choice (ps : List Operand)
  | alternative (h : HandleId) (q : Operand)
  | sequence (fold : Fold) (parts : List Part)
  | many (fold : Fold) (p : Operand) (release : Option Release)
  | many1 (fold : Fold) (p : Operand) (release : Option Release)
  | count (n : Int) (fold : Fold) (p : Operand) (release : Option Release)
  | maybe (p : Operand) (default : Value)
  | apply (p : Operand) (func : Func)
  | map (h : HandleId) (func : Func)
  | expect (p : Operand) (text : String)
  | label (h : HandleId) (text : String)
  | define (h other : HandleId)

namespace Construction

def act : Construction → Action HandleId
  | .string text => Build.string text
  | .pure v => Build.pure v
  | .fail message => Build.fail message
  | .eof => Build.eof
  | .placeholder name => Build.placeholder name
  | .choice ps => Build.choice ps
  | .alternative h q => Build.alternative h q
  | .sequence fold parts => Build.sequence fold parts
  | .many fold p release => Build.many fold p release
  | .many1 fold p release => Build.many1 fold p release
  | .count n fold p release => Build.count n fold p release
  | .maybe p default => Build.maybe p default
  | .apply p func => Build.apply p func
  | .map h func => Build.map h func
  | .expect p text => Build.expect p text
  | .label h text => Build.expect (.parser h) text
  | .define h other => do
    Action.define h other
    return h

def Within (n : Nat) : Construction → Prop
  | .string _ | .pure _ | .fail _ | .eof | .placeholder _ => True
  | .choice ps => ∀ p ∈ ps, p.Within n
  | .alternative h q => h < n ∧ q.Within n
  | .sequence _ parts => ∀ part ∈ parts, part.Within n
  | .many _ p _ | .many1 _ p _ | .count _ _ p _ | .maybe p _ | .apply p _ | .expect p _ => p.Within n
  | .map h _ | .label h _ => h < n
  | .define h other => h < n ∧ other < n

instance (n : Nat) : (p : Operand) → Decidable (p.Within n)
  | .parser h => inferInstanceAs (Decidable (h < n))
  | .other _ => inferInstanceAs (Decidable True)

instance (n : Nat) : (part : Part) → Decidable (part.Within n)
  | .pair p _ => inferInstanceAs (Decidable (p.Within n))
  | .malformed => inferInstanceAs (Decidable True)

instance (n : Nat) : (c : Construction) → Decidable (c.Within n)
  | .string _ | .pure _ | .fail _ | .eof | .placeholder _ => inferInstanceAs (Decidable True)
  | .choice ps => inferInstanceAs (Decidable (∀ p ∈ ps, p.Within n))
  | .alternative h q => inferInstanceAs (Decidable (h < n ∧ q.Within n))
  | .sequence _ parts => inferInstanceAs (Decidable (∀ part ∈ parts, part.Within n))
  | .many _ p _ | .many1 _ p _ | .count _ _ p _ | .maybe p _ | .apply p _ | .expect p _ =>
    inferInstanceAs (Decidable (p.Within n))
  | .map h _ | .label h _ => inferInstanceAs (Decidable (h < n))
  | .define h other => inferInstanceAs (Decidable (h < n ∧ other < n))

theorem act_makes {gauge : Gauge World} [Build.Suits gauge] {n : Nat} {c : Construction}
    (defines : ∀ h other, (Action.define h other).Makes gauge n Anything) (within : c.Within n) :
    c.act.MakesHandle gauge n := by
  cases c with
  | string text => exact Build.string_makes text
  | pure | fail | eof => exact Build.Suits.node fun _ mem => nomatch mem
  | placeholder name => exact Build.placeholder_makes name
  | choice ps => exact Build.choice_makes within
  | alternative h q => exact Build.alternative_makes within.1 within.2
  | sequence fold parts => exact Build.sequence_makes within
  | many | many1 => exact Build.repeated_makes _ _ within _ _ _
  | count n fold p release => exact Build.count_makes n fold within release
  | maybe p default => exact Build.maybe_makes within default
  | apply p func => exact Build.apply_makes within func
  | map h func => exact Build.map_makes within func
  | expect p text => exact Build.expect_makes within text
  | label h text => exact Build.expect_makes (Operand.within_handle within) text
  | define h other =>
    exact .bind (defines h other) fun m le _ _ => .done fun m' le' =>
      Nat.lt_of_lt_of_le within.1 (Nat.le_trans le le')

end Construction

/-- A world that comes of constructions on handles there are, whether they succeed or not. -/
inductive World.Built : World → Prop where
  | start : Built {}
  | next {w : World} {c : Construction} : Built w → c.Within w.store.grammar.size →
      Built (c.act w).2

/-- Handles without a name lead to older ones only, and what is yet to be filled in has a name. -/
structure Grammar.Grown (g : Grammar) : Prop where
  older : ∀ h, (g.get h).name = "" → ∀ k ∈ (g.get h).children, k < h
  named : ∀ h < g.size, (g.get h).status = .undefined → (g.get h).name ≠ ""

namespace Grammar.Grown

variable {g g' : Grammar}

theorem add {handle : Handle} (grown : g.Grown)
    (older : handle.name = "" → ∀ k ∈ handle.children, k < g.size)
    (named : handle.status = .undefined → handle.name ≠ "") : (g.add handle).Grown := by
  constructor
  · intro h
    by_cases new : h = g.size
    · subst new
      rw [get_add_self]
      exact older
    · rw [get_add_other _ new]
      exact grown.older h
  · intro h lt
    rw [size_add] at lt
    by_cases new : h = g.size
    · subst new
      rw [get_add_self]
      exact named
    · rw [get_add_other _ new]
      exact grown.named h (by omega)

theorem define {h other : HandleId} (grown : g.Grown) (done : g.define h other = .ok g') :
    g'.Grown := by
  obtain ⟨undefined, _, body, _, rfl⟩ := define_eq_ok_iff.mp done
  obtain lt | ge := Nat.lt_or_ge h g.size
  · constructor
    · intro k name
      by_cases same : k = h
      · subst same
        rw [get_set_self _ lt] at name
        exact absurd name (grown.named k lt undefined)
      · rw [get_set_other _ same] at name ⊢
        exact grown.older k name
    · intro k lt' status
      by_cases same : k = h
      · subst same
        rw [get_set_self _ lt] at status
        cases status
      · rw [get_set_other _ same] at status ⊢
        exact grown.named k (by simpa using lt') status
  · have unchanged : g.set h { g.get h with status := .defined body } = g := by
      unfold Grammar.set
      rw [Array.setIfInBounds_eq_of_size_le ge]
    rwa [unchanged]

end Grammar.Grown

def World.growth : Gauge World := ⟨fun w => w.store.grammar.Grown, fun w => w.store.grammar.size⟩

instance : Build.Suits World.growth where
  placeholder n name w grown _ := by
    refine ⟨grown.add (fun unnamed => absurd unnamed name) fun _ => name, ?_, ?_⟩
    · simp [Action.add, Action.update, World.growth]
    · rintro _ ⟨rfl⟩
      simp [Action.add, Action.update, World.growth]
  node {node n} fits w grown le := by
    refine ⟨grown.add (fun _ k mem => Nat.lt_of_lt_of_le (fits k mem) le) nofun, ?_, ?_⟩
    · simp [Action.make, Action.update, World.growth, Grammar.addNode]
    · rintro _ ⟨rfl⟩
      simp [Action.make, Action.update, World.growth, Grammar.addNode]

theorem Action.define_grows (h other : HandleId) (n : Nat) :
    (Action.define h other).Makes World.growth n Anything := by
  intro w grown _
  unfold Action.define
  rcases done : w.store.grammar.define h other with fault | g
  · exact ⟨grown, Nat.le_refl _, fun _ _ => trivial⟩
  · obtain ⟨_, _, _, _, rfl⟩ := Grammar.define_eq_ok_iff.mp done
    exact ⟨Grammar.Grown.define grown done, by simp [World.growth, log, note], fun _ _ => trivial⟩

theorem World.Built.grown {w : World} (built : w.Built) : w.store.grammar.Grown := by
  induction built with
  | start =>
    refine ⟨fun h _ k mem => ?_, fun h lt => absurd lt (Nat.not_lt_zero h)⟩
    rw [Grammar.get_of_size_le (Nat.zero_le h)] at mem
    cases mem
  | @next w c _ within ih =>
    have makes := c.act_makes (fun h other => Action.define_grows h other _) within
    exact (makes w ih (Nat.le_refl _)).1

end Peg
