import Peg.Proofs.Lifecycle.Changes
import Peg.Session.Recipe

namespace Peg

def Grammar.Nameless (changes : List Grammar.Change) : Prop :=
  ∀ h name, Grammar.Change.renamed h name ∉ changes

theorem Grammar.Nameless.append {changes changes' : List Change} (nameless : Nameless changes)
    (nameless' : Nameless changes') : Nameless (changes ++ changes') := by
  intro h name mem
  rcases List.mem_append.mp mem with mem | mem
  · exact nameless h name mem
  · exact nameless' h name mem

def Proc.Evolves {σ α : Type} (view : σ → Grammar) (p : Proc σ α) : Prop :=
  ∀ s, ∃ changes, (view s).Evolves changes (view (p s).2) ∧ Grammar.Nameless changes

namespace Proc.Evolves

variable {σ τ α β : Type} {view : σ → Grammar}

theorem of_same {p : Proc σ α} (same : ∀ s, view (p s).2 = view s) : p.Evolves view :=
  fun s => ⟨[], by rw [same]; exact .nil, fun _ _ => List.not_mem_nil⟩

theorem done (a : α) : (Proc.done a).Evolves view := of_same fun _ => rfl

theorem raise (fault : Fault) : (Proc.raise fault : Proc σ α).Evolves view :=
  of_same fun _ => rfl

theorem ofExcept (e : Except Fault α) : (Proc.ofExcept e : Proc σ α).Evolves view := by
  cases e with
  | ok a => exact done a
  | error fault => exact raise fault

theorem bind {p : Proc σ α} {f : α → Proc σ β} (hp : p.Evolves view)
    (hf : ∀ a, (f a).Evolves view) : (p >>= f).Evolves view := by
  intro s
  obtain ⟨changes, first, nameless⟩ := hp s
  rw [Proc.bind_eq]
  rcases ran : p s with ⟨a | fault | message, s₁⟩ <;> rw [ran] at first
  · obtain ⟨changes', second, nameless'⟩ := hf a s₁
    rw [Proc.andThen_done ran]
    exact ⟨changes ++ changes', first.append second, nameless.append nameless'⟩
  · rw [Proc.andThen_raised ran]
    exact ⟨changes, first, nameless⟩
  · rw [Proc.andThen_aborted ran]
    exact ⟨changes, first, nameless⟩

theorem mapM {f : α → Proc σ β} (hf : ∀ a, (f a).Evolves view) (as : List α) :
    (as.mapM f).Evolves view := by
  induction as with
  | nil => exact done []
  | cons a as ih =>
    rw [List.mapM_cons]
    exact bind (hf a) fun b => bind ih fun bs => done (b :: bs)

theorem onPart {part : τ → σ} {withPart : σ → τ → τ} {p : Proc σ α} (hp : p.Evolves view)
    (part_withPart : ∀ s t, part (withPart s t) = s) :
    (Proc.onPart part withPart p).Evolves (view ∘ part) := by
  intro t
  obtain ⟨changes, evolves, nameless⟩ := hp (part t)
  refine ⟨changes, ?_, nameless⟩
  unfold Proc.onPart
  rcases ran : p (part t) with ⟨ending, s⟩
  rw [ran] at evolves
  simpa [part_withPart] using evolves

end Proc.Evolves

theorem Grammar.Edited.evolves {g g' : Grammar} (edited : g.Edited g') :
    ∃ changes, g.Evolves changes g' ∧ Nameless changes := by
  induction edited with
  | unchanged => exact ⟨[], .nil, fun _ _ => List.not_mem_nil⟩
  | tear h _ ih =>
    obtain ⟨changes, evolves, nameless⟩ := ih
    refine ⟨changes ++ [.torn h], evolves.append (.torn .nil), nameless.append ?_⟩
    simp [Nameless]
  | @define g' g'' h other _ defined ih =>
    obtain ⟨changes, evolves, nameless⟩ := ih
    refine ⟨changes ++ [.defined h other], evolves.append (.defined defined .nil),
      nameless.append ?_⟩
    simp [Nameless]

def World.grammar (w : World) : Grammar := w.store.grammar

def Workbench.grammar (k : Workbench) : Grammar := k.world.grammar

namespace Action

variable {α : Type}

theorem Edits.evolves {p : Action α} (edits : p.Edits) : p.Evolves World.grammar :=
  fun w => (edits w).evolves

theorem add_evolves (name : String) : (Action.add { name := name }).Evolves World.grammar :=
  fun _ => ⟨[.made { name := name }], .made (.inl rfl) .nil, by simp [Grammar.Nameless]⟩

theorem make_evolves (node : Node) : (Action.make node).Evolves World.grammar := by
  intro w
  refine ⟨[.made { status := .defined ⟨w.grammar.size, node⟩ }], .made (.inr ⟨node, rfl⟩) .nil, ?_⟩
  simp [Grammar.Nameless]

theorem makeValue_evolves (t : Template) : (Action.makeValue t).Evolves World.grammar :=
  .of_same fun _ => rfl

end Action

theorem Operand.handle_evolves (operand : Operand) : operand.handle.Evolves World.grammar := by
  cases operand with
  | parser h => exact .done h
  | other got => exact .raise _

namespace Build

theorem made_evolves (node : Except Fault Node) : (made node).Evolves World.grammar :=
  .bind (.ofExcept node) Action.make_evolves

theorem string_evolves (text : String ⊕ Shape) : (string text).Evolves World.grammar := by
  cases text with
  | inl text => exact Action.make_evolves _
  | inr got => exact .raise _

theorem placeholder_evolves (name : String) : (placeholder name).Evolves World.grammar := by
  unfold placeholder
  split
  · exact .raise _
  · exact Action.add_evolves name

theorem count_evolves (n : Int) (f : Fold) (p : Operand) (r : Option Release) :
    (count n f p r).Evolves World.grammar := by
  unfold count
  split
  · exact .raise _
  · exact made_evolves _

theorem maybe_evolves (p : Operand) (default : Value) :
    (maybe p default).Evolves World.grammar := by
  unfold maybe
  exact .bind (Action.make_evolves _) fun _ => made_evolves _

end Build

namespace Sample

theorem Greetings.build_evolves : Greetings.build.Evolves World.grammar := by
  unfold Greetings.build
  refine .bind (.mapM (fun _ => Build.string_evolves _) _) fun names => ?_
  refine .bind (Build.made_evolves _) fun flatmate => .bind (Build.string_evolves _) fun hello => ?_
  exact .bind (Build.made_evolves _) fun greet => .bind (Build.made_evolves _) fun _ => .done _

namespace Expression

theorem symbol_evolves (spaces : HandleId) (s : String) :
    (symbol spaces s).Evolves World.grammar := by
  unfold symbol
  exact .bind (Build.string_evolves _) fun h => Build.made_evolves _

theorem chain_evolves (spaces operand : HandleId) (ops : List Operator) :
    (chain spaces operand ops).Evolves World.grammar := by
  unfold chain
  refine .bind (.mapM (fun _ => symbol_evolves _ _) _) fun signs => ?_
  refine .bind (Build.made_evolves _) fun sign => .bind (Action.make_evolves _) fun op => ?_
  refine .bind (Build.made_evolves _) fun step => .bind (Build.made_evolves _) fun steps => ?_
  exact Build.made_evolves _

theorem build_evolves : build.Evolves World.grammar := by
  unfold build
  refine .bind (.mapM (fun _ => Build.string_evolves _) _) fun digits => ?_
  refine .bind (Build.made_evolves _) fun anyDigit => .bind (Build.made_evolves _) fun digit => ?_
  refine .bind (Build.made_evolves _) fun number => .bind (Build.string_evolves _) fun blank => ?_
  refine .bind (Build.made_evolves _) fun spaces => .bind (Build.placeholder_evolves _) fun expr => ?_
  refine .bind (Build.made_evolves _) fun atom => .bind (symbol_evolves _ _) fun opening => ?_
  refine .bind (symbol_evolves _ _) fun closing => .bind (Build.made_evolves _) fun bracketed => ?_
  refine .bind (Build.made_evolves _) fun factor => .bind (chain_evolves _ _ _) fun term => ?_
  refine .bind (chain_evolves _ _ _) fun sum => .bind (Action.Edits.define _ _).evolves fun _ => ?_
  refine .bind (Action.make_evolves _) fun eof => .bind (Build.made_evolves _) fun program => ?_
  refine .bind (symbol_evolves _ _) fun comma => .bind (Build.maybe_evolves _ _) fun optional => ?_
  refine .bind (Build.made_evolves _) fun one => .bind (Build.count_evolves _ _ _ _) fun three => ?_
  exact .bind (Build.made_evolves _) fun triple => .done _

end Expression

theorem Program.load_evolves (p : Program) : p.load.Evolves World.grammar := by
  cases p with
  | greetings => exact .bind Greetings.build_evolves fun _ => .done _
  | expression => exact .bind Expression.build_evolves fun _ => .done _

end Sample

namespace Workbench

theorem act_evolves {α : Type} {action : Action α} (evolves : action.Evolves World.grammar) :
    (act action).Evolves Workbench.grammar :=
  .onPart evolves fun _ _ => rfl

theorem parsersOf_evolves (program : Sample.Program) :
    (parsersOf program).Evolves Workbench.grammar := by
  intro k
  unfold parsersOf
  split
  · exact ⟨[], .nil, fun _ _ => List.not_mem_nil⟩
  · exact Proc.Evolves.bind (act_evolves program.load_evolves)
      (fun _ => .of_same fun _ => rfl) k

end Workbench

namespace Recipe

theorem made_evolves {action : Action HandleId} (evolves : action.Evolves World.grammar) :
    (made action).Evolves Workbench.grammar :=
  .bind (Workbench.act_evolves evolves) fun _ => .done _

theorem assign_evolves (id : String) (operand : Operand) :
    (Action.update fun s => ((), s.assignOperand id operand)).Evolves World.grammar := by
  cases operand with
  | parser h => exact .of_same fun _ => rfl
  | other got => exact .of_same fun _ => rfl

mutual

theorem evaluate_evolves (recipe : Recipe) : recipe.evaluate.Evolves Workbench.grammar := by
  cases recipe <;> rw [evaluate]
  case register id => exact made_evolves (Action.Edits.register id).evolves
  case other got => exact .done _
  case named id recipe =>
    refine .bind (evaluate_evolves recipe) fun operand => ?_
    exact .bind (Workbench.act_evolves (assign_evolves id operand)) fun _ => .done _
  case string text => exact made_evolves (Build.string_evolves text)
  case pure value =>
    exact made_evolves (.bind (Action.makeValue_evolves value) fun _ => Action.make_evolves _)
  case fail message => exact made_evolves (Action.make_evolves _)
  case eof => exact made_evolves (Action.make_evolves _)
  case placeholder name => exact made_evolves (Build.placeholder_evolves name)
  case raw name => exact made_evolves (Action.add_evolves name)
  case choice ps =>
    exact .bind (evaluateAll_evolves ps) fun _ => made_evolves (Build.made_evolves _)
  case alternative p q =>
    refine .bind (evaluate_evolves p) fun p => .bind (evaluate_evolves q) fun q => made_evolves ?_
    exact .bind p.handle_evolves fun _ => Build.made_evolves _
  case sequence fold items =>
    exact .bind (evaluateItems_evolves items) fun _ => made_evolves (Build.made_evolves _)
  case many fold p release =>
    exact .bind (evaluate_evolves p) fun _ => made_evolves (Build.made_evolves _)
  case many1 fold p release =>
    exact .bind (evaluate_evolves p) fun _ => made_evolves (Build.made_evolves _)
  case count n fold p release =>
    exact .bind (evaluate_evolves p) fun _ => made_evolves (Build.count_evolves _ _ _ _)
  case repetition fold p least most release =>
    refine .bind (evaluate_evolves p) fun p => made_evolves ?_
    exact .bind p.handle_evolves fun _ => Action.make_evolves _
  case maybe p default =>
    refine .bind (evaluate_evolves p) fun p => made_evolves ?_
    exact .bind (Action.makeValue_evolves default) fun _ => Build.maybe_evolves _ _
  case apply p func =>
    exact .bind (evaluate_evolves p) fun _ => made_evolves (Build.made_evolves _)
  case map p func =>
    refine .bind (evaluate_evolves p) fun p => made_evolves ?_
    exact .bind p.handle_evolves fun _ => Action.make_evolves _
  case expect p text =>
    exact .bind (evaluate_evolves p) fun _ => made_evolves (Build.made_evolves _)
  case label p text =>
    refine .bind (evaluate_evolves p) fun p => made_evolves ?_
    exact .bind p.handle_evolves fun _ => Build.made_evolves _
  case sample program name =>
    refine .bind (Workbench.parsersOf_evolves program) fun parsers => ?_
    split
    · exact .done _
    · exact .raise _

theorem evaluateAll_evolves (ps : List Recipe) : (evaluateAll ps).Evolves Workbench.grammar := by
  cases ps <;> rw [evaluateAll]
  case nil => exact .done _
  case cons p ps =>
    exact .bind (evaluate_evolves p) fun _ => .bind (evaluateAll_evolves ps) fun _ => .done _

theorem evaluateItem_evolves (item : Item) : (evaluateItem item).Evolves Workbench.grammar := by
  cases item <;> rw [evaluateItem]
  case pair p release => exact .bind (evaluate_evolves p) fun _ => .done _
  case group ps =>
    refine .bind (evaluateAll_evolves ps) fun ps => ?_
    split
    · exact .done _
    · exact .done _
  case loose ps => exact .bind (evaluateAll_evolves ps) fun _ => .done _

theorem evaluateItems_evolves (items : List Item) :
    (evaluateItems items).Evolves Workbench.grammar := by
  cases items <;> rw [evaluateItems]
  case nil => exact .done _
  case cons item items =>
    exact .bind (evaluateItem_evolves item) fun _ =>
      .bind (evaluateItems_evolves items) fun _ => .done _

end

end Recipe

end Peg
