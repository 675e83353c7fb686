import Mathlib.Data.List.Forall2
import Peg.Build
import Peg.Proofs.Lifecycle.Changes

namespace Peg

namespace Grammar

def Holds (g : Grammar) (h : HandleId) (node : Node) : Prop :=
  ∃ body, (g.get h).status = .defined body ∧ body.node = node

def KeptIn (g g' : Grammar) : Prop :=
  ∀ h body, (g.get h).status = .defined body → (g'.get h).status = .defined body

/-- A placeholder that is still to be filled in. -/
def Open (g : Grammar) (h : HandleId) : Prop := h < g.size ∧ (g.get h).status = .undefined

variable {g g' g'' : Grammar} {h : HandleId}

theorem KeptIn.refl (g : Grammar) : g.KeptIn g := fun _ _ => id

theorem KeptIn.trans (kept : g.KeptIn g') (kept' : g'.KeptIn g'') : g.KeptIn g'' :=
  fun h body status => kept' h body (kept h body status)

theorem keptIn_add (handle : Handle) : g.KeptIn (g.add handle) := by
  intro k body status
  have ne : k ≠ g.size := by
    rintro rfl
    rw [get_of_size_le (Nat.le_refl _)] at status
    cases status
  rw [get_add_other _ ne, status]

theorem Open.add (isOpen : g.Open h) (handle : Handle) : (g.add handle).Open h :=
  ⟨by rw [size_add]; exact Nat.lt_succ_of_lt isOpen.1,
    by rw [get_add_other _ (Nat.ne_of_lt isOpen.1), isOpen.2]⟩

end Grammar

namespace Action

variable {α β : Type}

/-- A construction: it comes to its end, keeps all nodes and leaves placeholders open, and so does
`post` hold of what it made in every later grammar. -/
def Builds (p : Action α) (post : α → Grammar → Prop) : Prop :=
  ∀ w : World, ∃ a w', p w = (.done a, w') ∧ w.store.grammar.KeptIn w'.store.grammar ∧
    (∀ h, w.store.grammar.Open h → w'.store.grammar.Open h) ∧
    ∀ g, w'.store.grammar.KeptIn g → post a g

/-- A construction in which one placeholder is filled in. -/
def Fills (expr : HandleId) (p : Action α) (post : α → Grammar → Prop) : Prop :=
  ∀ w : World, w.store.grammar.Open expr → ∃ a w', p w = (.done a, w') ∧
    w.store.grammar.KeptIn w'.store.grammar ∧
    (∀ h, h ≠ expr → w.store.grammar.Open h → w'.store.grammar.Open h) ∧
    ∀ g, w'.store.grammar.KeptIn g → post a g

variable {p : Action α} {f : α → Action β} {P : α → Grammar → Prop} {Q : α → β → Grammar → Prop}

theorem Builds.done (a : α) : Builds (Proc.done a) fun b _ => b = a :=
  fun w => ⟨a, w, rfl, .refl _, fun _ => id, fun _ _ => rfl⟩

theorem Builds.bind (first : p.Builds P) (rest : ∀ a, (∃ g, P a g) → (f a).Builds (Q a)) :
    (p >>= f).Builds fun b g => ∃ a, P a g ∧ Q a b g := by
  intro w
  obtain ⟨a, w₁, ran, kept, opens, post⟩ := first w
  obtain ⟨b, w₂, ran', kept', opens', post'⟩ := rest a ⟨_, post _ (.refl _)⟩ w₁
  refine ⟨b, w₂, ?_, kept.trans kept', fun h => opens' h ∘ opens h, fun g later => ?_⟩
  · rw [Proc.bind_eq, Proc.andThen_done ran, ran']
  · exact ⟨a, post g (kept'.trans later), post' g later⟩

theorem Fills.bind {expr : HandleId} (first : p.Builds P)
    (rest : ∀ a, (∃ g, P a g) → (f a).Fills expr (Q a)) :
    (p >>= f).Fills expr fun b g => ∃ a, P a g ∧ Q a b g := by
  intro w isOpen
  obtain ⟨a, w₁, ran, kept, opens, post⟩ := first w
  obtain ⟨b, w₂, ran', kept', opens', post'⟩ :=
    rest a ⟨_, post _ (.refl _)⟩ w₁ (opens expr isOpen)
  refine ⟨b, w₂, ?_, kept.trans kept', fun h ne => opens' h ne ∘ opens h, fun g later => ?_⟩
  · rw [Proc.bind_eq, Proc.andThen_done ran, ran']
  · exact ⟨a, post g (kept'.trans later), post' g later⟩

theorem Fills.define (expr : HandleId) {p : Action HandleId} {f : HandleId → Action β}
    {P : HandleId → Grammar → Prop} {Q : HandleId → β → Grammar → Prop} (first : p.Builds P)
    (filled : ∀ h g, P h g → ∃ node, g.Holds h node)
    (rest : ∀ h, (∃ g, P h g) → (f h).Builds (Q h)) :
    (p >>= fun h => Action.define expr h >>= fun _ => f h).Fills expr fun b g =>
      ∃ h, P h g ∧ (∀ node, g.Holds h node → g.Holds expr node) ∧ Q h b g := by
  intro w isOpen
  obtain ⟨h, w₁, ran, kept, opens, post⟩ := first w
  obtain ⟨lt, undefined⟩ := opens expr isOpen
  obtain ⟨_, body, status, _⟩ := filled h _ (post _ (.refl _))
  -- What was just made holds a node, and the placeholder holds none, so they are different.
  have ne : h ≠ expr := by
    rintro rfl
    simp [undefined] at status
  have done := Grammar.define_eq_ok_iff.mpr ⟨undefined, ne, body, status, rfl⟩
  obtain ⟨w₂, ran₂, grammar⟩ : ∃ w₂, Action.define expr h w₁ = (.done (), w₂) ∧
      w₂.store.grammar = w₁.store.grammar.set expr
        { w₁.store.grammar.get expr with status := .defined body } := by
    simp [Action.define, done, log, note]
  have status_expr : (w₂.store.grammar.get expr).status = .defined body := by
    rw [grammar, Grammar.get_set_self _ lt]
  have get_other (k : HandleId) (other : k ≠ expr) :
      w₂.store.grammar.get k = w₁.store.grammar.get k := by
    rw [grammar, Grammar.get_set_other _ other]
  have kept₂ : w₁.store.grammar.KeptIn w₂.store.grammar := by
    intro k body' status'
    rw [get_other k (by rintro rfl; simp [undefined] at status'), status']
  obtain ⟨b, w₃, ran₃, kept₃, opens₃, post₃⟩ := rest h ⟨_, post _ (.refl _)⟩ w₂
  refine ⟨b, w₃, ?_, (kept.trans kept₂).trans kept₃, fun k other open_k => ?_, fun g later => ?_⟩
  · rw [Proc.bind_eq, Proc.andThen_done ran, Proc.bind_eq, Proc.andThen_done ran₂, ran₃]
  · refine opens₃ k ⟨?_, by rw [get_other k other, (opens k open_k).2]⟩
    simpa [grammar] using (opens k open_k).1
  · refine ⟨h, post g ((kept₂.trans kept₃).trans later), fun node holds => ?_, post₃ g later⟩
    obtain ⟨body', status', same⟩ := holds
    have at_h := (kept₂.trans kept₃).trans later h body status
    rw [at_h] at status'
    cases status'
    exact ⟨body, later expr body (kept₃ expr body status_expr), same⟩

theorem Builds.placeholder {name : String} {f : HandleId → Action β}
    {Q : HandleId → β → Grammar → Prop} (named : name ≠ "") (rest : ∀ h, (f h).Fills h (Q h)) :
    (Build.placeholder name >>= f).Builds fun b g => ∃ h, Q h b g := by
  intro w
  let g := w.store.grammar
  let w₁ : World := { w with store := { w.store with grammar := g.add { name := name } } }
  have ran : Build.placeholder name w = (.done g.size, w₁) := by
    rw [Build.placeholder, if_neg named]
    rfl
  have isOpen : w₁.store.grammar.Open g.size :=
    ⟨by simp [w₁], by rw [Grammar.get_add_self]⟩
  obtain ⟨b, w', ran', kept, opens, post⟩ := rest g.size w₁ isOpen
  refine ⟨b, w', ?_, (Grammar.keptIn_add _).trans kept, fun h open_h => ?_, fun g' later => ?_⟩
  · rw [Proc.bind_eq, Proc.andThen_done ran, ran']
  · exact opens h (Nat.ne_of_lt open_h.1) (open_h.add _)
  · exact ⟨_, post g' later⟩

theorem Builds.mapM {γ : Type} {f : γ → Action α} {R : α → γ → Grammar → Prop}
    (each : ∀ x, (f x).Builds fun a => R a x) (xs : List γ) :
    (xs.mapM f).Builds fun as g => List.Forall₂ (fun a x => R a x g) as xs := by
  induction xs with
  | nil =>
    intro w
    exact ⟨[], w, rfl, .refl _, fun _ => id, fun _ _ => .nil⟩
  | cons x xs ih =>
    intro w
    rw [List.mapM_cons]
    obtain ⟨as, w', ran, kept, opens, post⟩ :=
      Builds.bind (each x) (fun a _ => Builds.bind ih fun as _ => Builds.done (a :: as)) w
    refine ⟨as, w', ran, kept, opens, fun g later => ?_⟩
    obtain ⟨a, head, as', tail, rfl⟩ := post g later
    exact .cons head tail

theorem builds_make (node : Node) : (Action.make node).Builds fun h g => g.Holds h node := by
  intro w
  let g := w.store.grammar
  have status : ((g.addNode node).get g.size).status = .defined ⟨g.size, node⟩ := by
    rw [Grammar.addNode, Grammar.get_add_self]
  refine ⟨_, _, rfl, Grammar.keptIn_add _, fun h isOpen => isOpen.add _, fun g' later => ?_⟩
  exact ⟨_, later _ _ status, rfl⟩

end Action

namespace Build

theorem builds_made (node : Node) : (made (.ok node)).Builds fun h g => g.Holds h node :=
  Action.builds_make node

theorem mapM_checkParser (site : Combinator) (hs : List HandleId) :
    (hs.map Operand.parser).mapM (checkParser site) = .ok hs := by
  induction hs with
  | nil => rfl
  | cons h hs ih =>
    rw [List.map_cons, List.mapM_cons, ih]
    rfl

theorem builds_choice (first : HandleId) (others : List HandleId) :
    (choice ((first :: others).map .parser)).Builds fun h g =>
      g.Holds h (.choice first others) := by
  have checked : choice ((first :: others).map .parser) = made (.ok (.choice first others)) := by
    rw [choice, mapM_checkParser]
    rfl
  rw [checked]
  exact builds_made _

theorem builds_repetition (site : Combinator) {fold : Fold} {release : Option Release}
    (folds : fold.callable = true) (releases : release.all Release.callable = true)
    (item : HandleId) (least : Int) (most : Option Int) :
    (repeated site fold (.parser item) least most release).Builds fun h g =>
      g.Holds h (.repetition fold item least most release) := by
  have checked : repeated site fold (.parser item) least most release =
      made (.ok (.repetition fold item least most release)) := by
    rw [repeated, checkFold, if_pos folds, checkRelease, if_pos releases]
    rfl
  rw [checked]
  exact builds_made _

end Build

end Peg
