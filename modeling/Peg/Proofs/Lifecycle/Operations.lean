import Peg.Proofs.Lifecycle.Recipes
import Peg.Session.Step

/-!
Operations, one after another, on the handles of a session. Whatever they are and however they end,
each handle goes through its life: undefined, defined, deleted.
-/

namespace Peg

namespace Session

variable {α : Type}

def grammar (s : Session) : Grammar := s.bench.grammar

theorem act_evolves {action : Action α} (evolves : action.Evolves World.grammar) :
    (act action).Evolves Session.grammar :=
  .onPart (Workbench.act_evolves evolves) fun _ _ => rfl

theorem edits_evolves {action : Action α} (edits : action.Edits) :
    (act action).Evolves Session.grammar :=
  act_evolves edits.evolves

theorem handle_evolves (p : Recipe) : (handle p).Evolves Session.grammar := by
  unfold handle
  refine .bind (.onPart p.evaluate_evolves fun _ _ => rfl) fun operand => ?_
  exact act_evolves operand.handle_evolves

theorem config_evolves (settings : Option Settings) :
    (config settings).Evolves Session.grammar := by
  cases settings with
  | none => exact .done _
  | some settings => exact .ofExcept _

theorem kept_evolves (part : Session → List (String × α)) (name : String) :
    (kept part name).Evolves Session.grammar := by
  refine .of_same fun s => ?_
  unfold kept
  split <;> rfl

theorem register_evolves (id : String) : (act (Action.register id)).Evolves Session.grammar :=
  edits_evolves (.register id)

theorem registers_evolves (ids : List String) : (registers ids).Evolves Session.grammar :=
  act_evolves (.mapM (fun id => (Action.Edits.register id).evolves) ids)

theorem read_evolves (f : Store → α) : (act (Action.read f)).Evolves Session.grammar :=
  edits_evolves (.read f)

theorem watcher_evolves (watch : Watch) : (act (watcher watch)).Evolves Session.grammar := by
  unfold watcher
  exact act_evolves (.bind (.mapM (fun id => (Action.Edits.register id).evolves) _) fun _ => .done _)

theorem usual_edits : Meaning.usual.Edits := Meaning.standard_edits _ _

theorem runParser_evolves (h : HandleId) (text : String) (config : Config) :
    (act (Meaning.usual.runParser h text config)).Evolves Session.grammar := by
  unfold Meaning.runParser
  refine act_evolves (.bind (Meaning.parse_edits usual_edits h text config).evolves fun r => ?_)
  cases r with
  | success v c => exact .done _
  | failure f => exact .bind (.ofExcept _) fun _ => .done _

theorem perform_evolves (st : Step) (unnamed : ∀ id name, st ≠ .rename id name) :
    (perform st).Evolves Session.grammar := by
  cases st with
  | assign id p =>
    refine .bind (handle_evolves p) fun h => .bind (act_evolves ?_) fun _ => read_evolves _
    exact .of_same fun _ => rfl
  | parse p text settings save =>
    refine .bind (handle_evolves p) fun h => .bind (config_evolves settings) fun config => ?_
    refine .bind (edits_evolves (Meaning.parse_edits usual_edits h text config)) fun r => ?_
    cases save with
    | none => exact .done _
    | some name => exact .bind (.of_same fun _ => rfl) fun _ => .done _
  | run p text settings =>
    refine .bind (handle_evolves p) fun h => .bind (config_evolves settings) fun config => ?_
    exact .bind (runParser_evolves h text config) fun _ => .done _
  | context id settings =>
    exact .bind (config_evolves settings) fun _ => .bind (.of_same fun _ => rfl) fun _ => .done _
  | call p text pos context =>
    refine .bind (handle_evolves p) fun h => .bind (.ofExcept _) fun c => ?_
    cases context with
    | none => exact .bind (edits_evolves (Meaning.call_edits usual_edits _ h c)) fun _ => .done _
    | some id =>
      refine .bind (kept_evolves _ _) fun ctx s => ?_
      exact (Meaning.call_edits usual_edits ctx h c s.bench.world).evolves
  | depth context => exact .bind (kept_evolves _ _) fun _ => .done _
  | same a b => exact .bind (kept_evolves _ _) fun _ => .bind (kept_evolves _ _) fun _ => .done _
  | define id p =>
    refine .bind (register_evolves id) fun h => .bind (handle_evolves p) fun other => ?_
    exact .bind (edits_evolves (.define h other)) fun _ => read_evolves _
  | delete ids watch =>
    cases watch with
    | none =>
      refine .bind (registers_evolves ids) fun roots => ?_
      exact .bind (edits_evolves (.deleteAll roots)) fun _ => .done _
    | some watch =>
      refine .bind (registers_evolves ids) fun roots => .bind (watcher_evolves watch) fun w => ?_
      exact .bind (edits_evolves (.tearDown (.tell w) roots)) fun _ => .done _
  | describe p => exact .bind (handle_evolves p) fun _ => read_evolves _
  | walk ids =>
    exact .bind (registers_evolves ids) fun _ => .bind (read_evolves _) fun _ => read_evolves _
  | openWalk id ids =>
    exact .bind (registers_evolves ids) fun _ => .bind (.of_same fun _ => rfl) fun _ => .done _
  | nextOfWalk id n =>
    refine .bind (kept_evolves _ _) fun walk => .bind (read_evolves _) fun _ => ?_
    exact .bind (.of_same fun _ => rfl) fun _ => read_evolves _
  | states ids => exact .bind (registers_evolves ids) fun _ => read_evolves _
  | rename id name => exact absurd rfl (unnamed id name)
  | sameNode a b =>
    exact .bind (register_evolves a) fun _ => .bind (register_evolves b) fun _ => read_evolves _
  | fold fold values =>
    refine .bind (act_evolves (.mapM Action.makeValue_evolves values)) fun vs => ?_
    have edits := Action.Edits.compositional.fold Operator.apply fold vs
    exact .bind (edits_evolves edits) fun _ => .done _

theorem perform_rename (s : Session) (id name : String) :
    (perform (.rename id name) s).2.grammar = s.grammar ∨
    ∃ h, s.bench.world.store.registers.lookup id = some h ∧
      (perform (.rename id name) s).2.grammar = s.grammar.rename h name := by
  rcases there : s.bench.world.store.registers.lookup id with _ | h
  · left
    simp [perform, Proc.bind_eq, Proc.andThen, act, Workbench.act, Proc.onPart, Action.register,
      there, grammar]
  · right
    refine ⟨h, rfl, ?_⟩
    simp [perform, Proc.bind_eq, Proc.andThen, act, Workbench.act, Proc.onPart, Action.register,
      there, grammar, Action.update, shown, Action.read, Workbench.grammar, World.grammar]

end Session

/-- What is done to a session: a step, a teardown that tells anyone of each handle, or a run with
callbacks of any meaning. -/
inductive Operation where
  | step (st : Step)
  | teardown (told : Nat → HandleId → Action Unit) (roots : List HandleId)
  | run (m : Meaning) (ctx : Context) (h : HandleId) (c : Cursor)

namespace Operation

def take : Operation → Session → Session
  | .step st, s => (s.step st).2
  | .teardown told roots, s => (Session.act (Action.tearDown told roots) s).2
  | .run m ctx h c, s => (Session.act (m.callAction ctx h c) s).2

/-- Those who are told and the callbacks define, tear down, raise and run parsers, and change the
grammar in no other way. -/
def Edits : Operation → Prop
  | .step _ => True
  | .teardown told _ => ∀ call h, (told call h).Edits
  | .run m _ _ _ => m.Edits

def Renames (s : Session) (h : HandleId) (name : String) (op : Operation) : Prop :=
  ∃ id, op = .step (.rename id name) ∧ s.bench.world.store.registers.lookup id = some h

theorem take_evolves {op : Operation} (edits : op.Edits) (s : Session) :
    ∃ changes, s.grammar.Evolves changes (op.take s).grammar ∧
      (Grammar.Nameless changes ∨
        ∃ h name, changes = [.renamed h name] ∧ op.Renames s h name) := by
  cases op with
  | step st =>
    by_cases renames : ∃ id name, st = .rename id name
    · obtain ⟨id, name, rfl⟩ := renames
      obtain same | ⟨h, there, renamed⟩ := s.perform_rename id name
      · exact ⟨[], by exact same ▸ .nil, .inl fun _ _ => List.not_mem_nil⟩
      · exact ⟨[.renamed h name], .renamed (renamed ▸ .nil), .inr ⟨h, name, rfl, id, rfl, there⟩⟩
    · have unnamed : ∀ id name, st ≠ .rename id name := fun id name eq => renames ⟨id, name, eq⟩
      obtain ⟨changes, evolves, nameless⟩ := Session.perform_evolves st unnamed s
      exact ⟨changes, evolves, .inl nameless⟩
  | teardown told roots =>
    obtain ⟨changes, evolves, nameless⟩ := Session.edits_evolves (.tearDown edits roots) s
    exact ⟨changes, evolves, .inl nameless⟩
  | run m ctx h c =>
    obtain ⟨changes, evolves, nameless⟩ := Session.edits_evolves (Meaning.call_edits edits ctx h c) s
    exact ⟨changes, evolves, .inl nameless⟩

end Operation

def Session.through (s : Session) (ops : List Operation) : Session :=
  ops.foldl (fun s op => op.take s) s

/-- The changes that operations make, from one to the next. A name is given by an operation that
renames, to the handle that is in its register by then. -/
structure Session.History (s : Session) (ops : List Operation) (changes : List Grammar.Change) :
    Prop where
  evolves : s.grammar.Evolves changes (s.through ops).grammar
  reaches : ∀ earlier later, ops = earlier ++ later → ∃ before after, changes = before ++ after ∧
    s.grammar.Evolves before (s.through earlier).grammar
  named : ∀ before h name after, changes = before ++ .renamed h name :: after →
    ∃ earlier op later, ops = earlier ++ op :: later ∧
      s.grammar.Evolves before (s.through earlier).grammar ∧ op.Renames (s.through earlier) h name

namespace Session.History

theorem nil (s : Session) : s.History [] [] where
  evolves := .nil
  reaches earlier later eq := by
    obtain ⟨rfl, rfl⟩ := List.append_eq_nil_iff.mp eq.symm
    exact ⟨[], [], rfl, .nil⟩
  named before h name after eq := by simp at eq

theorem cons {s : Session} {op : Operation} {ops : List Operation}
    {first rest : List Grammar.Change} (evolves : s.grammar.Evolves first (op.take s).grammar)
    (named : Grammar.Nameless first ∨ ∃ h name, first = [.renamed h name] ∧ op.Renames s h name)
    (history : (op.take s).History ops rest) : s.History (op :: ops) (first ++ rest) where
  evolves := evolves.append history.evolves
  reaches earlier later eq := by
    cases earlier with
    | nil => exact ⟨[], first ++ rest, rfl, .nil⟩
    | cons _ earlier =>
      obtain ⟨rfl, eq'⟩ := List.cons.inj eq
      obtain ⟨before, after, rfl, evolves'⟩ := history.reaches earlier later eq'
      exact ⟨first ++ before, after, (List.append_assoc ..).symm, evolves.append evolves'⟩
  named before h name after cut := by
    have later (x : List Grammar.Change) (eq : rest = x ++ .renamed h name :: after) :
        ∃ earlier op' later, op :: ops = earlier ++ op' :: later ∧
          s.grammar.Evolves (first ++ x) (s.through earlier).grammar ∧
          op'.Renames (s.through earlier) h name := by
      obtain ⟨earlier, op', later, rfl, evolves', renames⟩ := history.named x h name after eq
      exact ⟨op :: earlier, op', later, rfl, evolves.append evolves', renames⟩
    -- The name is given by one of the later operations, or else by the first.
    obtain ⟨x, rfl, eq⟩ | ⟨x, rfl, eq⟩ := List.append_eq_append_iff.mp cut
    · exact later x eq
    · cases x with
      | nil => simpa using later [] (by simpa using eq.symm)
      | cons c x =>
        obtain ⟨rfl, rfl⟩ := List.cons.inj eq
        obtain nameless | ⟨h', name', single, renames⟩ := named
        · exact absurd (by simp) (nameless h name)
        · cases before with
          | nil =>
            cases single
            exact ⟨[], op, ops, rfl, .nil, renames⟩
          | cons => simp at single

end Session.History

theorem Session.through_history {ops : List Operation} (edits : ∀ op ∈ ops, op.Edits)
    (s : Session) : ∃ changes, s.History ops changes := by
  induction ops generalizing s with
  | nil => exact ⟨[], .nil s⟩
  | cons op ops ih =>
    obtain ⟨first, evolves, named⟩ := Operation.take_evolves (edits op (List.mem_cons_self ..)) s
    obtain ⟨rest, history⟩ :=
      ih (fun op' mem => edits op' (List.mem_cons_of_mem _ mem)) (op.take s)
    exact ⟨first ++ rest, .cons evolves named history⟩

/-- What is asked of a placeholder and another handle for the one to be filled in from the other. -/
def Grammar.Fillable (g : Grammar) (p q : HandleId) : Prop :=
  (g.get p).isDeleted = false ∧ (g.get p).isDefined = false ∧ q ≠ p ∧
    (g.get q).isDeleted = false ∧ (g.get q).isDefined = true

instance (g : Grammar) (p q : HandleId) : Decidable (g.Fillable p q) :=
  inferInstanceAs (Decidable (_ ∧ _))

theorem Grammar.fillable_iff {g : Grammar} {p q : HandleId} :
    g.Fillable p q ↔ ∃ g', g.define p q = .ok g' := by
  simp only [Fillable, define_eq_ok_iff, Handle.isDeleted, Handle.isDefined, Handle.body?]
  rcases (g.get p).status with _ | body | _
  · rcases (g.get q).status with _ | body | _
    · simp
    · simp
    · simp
  · simp
  · simp

namespace Action

theorem define_cases (w : World) {p : HandleId} (lt : p < w.grammar.size) (q : HandleId) :
    (w.grammar.Fillable p q ∧ (define p q w).1 = .done () ∧
      (define p q w).2.grammar.size = w.grammar.size ∧
      ((define p q w).2.grammar.get p).body? = (w.grammar.get q).body? ∧
      ((define p q w).2.grammar.get p).name = (w.grammar.get p).name ∧
      ∀ h, h ≠ p → (define p q w).2.grammar.get h = w.grammar.get h) ∨
    (¬ w.grammar.Fillable p q ∧ (∃ fault, (define p q w).1 = .raised fault) ∧
      (define p q w).2 = w) := by
  rcases done : w.grammar.define p q with fault | g
  · right
    have failed : define p q w = (.raised fault, w) := by
      unfold World.grammar at done
      simp [define, done]
    rw [failed, Grammar.fillable_iff, done]
    exact ⟨by simp, ⟨fault, rfl⟩, rfl⟩
  · left
    have grammar : (define p q w).2.grammar = g := by
      unfold World.grammar at done
      simp [define, done, log, note, World.grammar]
    have ended : (define p q w).1 = .done () := by
      unfold World.grammar at done
      simp [define, done, log, note]
    refine ⟨Grammar.fillable_iff.mpr ⟨g, done⟩, ended, ?_⟩
    obtain ⟨_, _, body, there, rfl⟩ := Grammar.define_eq_ok_iff.mp done
    rw [grammar]
    refine ⟨by simp, ?_, ?_, fun h ne => Grammar.get_set_other _ ne⟩
    · rw [Grammar.get_set_self _ lt]
      simp [Handle.body?, there]
    · rw [Grammar.get_set_self _ lt]

end Action

/-- A handle that is deleted has no node. Through any operations a handle stays deleted once it is,
keeps the node it has until then, gets one only by being defined while it is neither, and is called
by the last name it was given. To define it takes what `Fillable` asks, and changes it alone. -/
theorem handle_lifecycle :
    (∀ (s : Session) (ops : List Operation), (∀ op ∈ ops, op.Edits) →
      ∃ changes, s.History ops changes ∧
        ∀ before between after, changes = before ++ between ++ after → ∃ g₁ g₂,
          s.grammar.Evolves before g₁ ∧ g₁.Evolves between g₂ ∧
          g₂.Evolves after (s.through ops).grammar ∧
          ∀ h < g₁.size, ((g₁.get h).isDeleted = true → (g₁.get h).body? = none) ∧
            g₁.Lives between g₂ h) ∧
    ∀ (w : World) (p q : HandleId), p < w.grammar.size →
      (w.grammar.Fillable p q ∧ (Action.define p q w).1 = .done () ∧
        (Action.define p q w).2.grammar.size = w.grammar.size ∧
        ((Action.define p q w).2.grammar.get p).body? = (w.grammar.get q).body? ∧
        ((Action.define p q w).2.grammar.get p).name = (w.grammar.get p).name ∧
        ∀ h, h ≠ p → (Action.define p q w).2.grammar.get h = w.grammar.get h) ∨
      (¬ w.grammar.Fillable p q ∧ (∃ fault, (Action.define p q w).1 = .raised fault) ∧
        (Action.define p q w).2 = w) := by
  refine ⟨fun s ops edits => ?_, fun w p q lt => Action.define_cases w lt q⟩
  obtain ⟨changes, history⟩ := Session.through_history edits s
  refine ⟨changes, history, fun before between after cut => ?_⟩
  obtain ⟨g₂, earlier, last⟩ := (cut ▸ history.evolves).split
  obtain ⟨g₁, first, second⟩ := earlier.split
  refine ⟨g₁, g₂, first, second, last, fun h lt => ⟨Handle.body?_of_isDeleted, second.lives lt⟩⟩

def workshop : List Operation :=
  [.step (.assign "p" (.placeholder "p")), .step (.assign "a" (.string (.inl "a"))),
    .step (.assign "f" (.map (.register "a")
      (.acts [.define "p" "a", .delete "a", .stop (.fault "enough") none]))),
    .run .usual (.fresh .standard) 2 (.start #['a']), .step (.rename "p" "q"),
    .teardown (Action.tell fun _ => ⟨[0], some (.fault "enough")⟩) [2]]

/-- After the third operation the placeholder can be filled in, after the fifth it has a node and a
new name, and in the end it is deleted. -/
theorem workshop_lifecycle :
    (∀ op ∈ workshop, op.Edits) ∧ (∃ changes, ({} : Session).History workshop changes) ∧
    0 < (({} : Session).through (workshop.take 3)).grammar.size ∧
    (({} : Session).through (workshop.take 3)).grammar.Fillable 0 1 ∧
    (Action.define 0 1 (({} : Session).through (workshop.take 3)).bench.world).1 = .done () ∧
    ((({} : Session).through (workshop.take 5)).grammar.get 0).isDefined = true ∧
    ((({} : Session).through workshop).grammar.get 0).isDeleted = true ∧
    ((({} : Session).through workshop).grammar.get 0).name = "q" := by
  have edits : ∀ op ∈ workshop, op.Edits := by
    simp [workshop, Operation.Edits, Session.usual_edits, Action.Edits.tell]
  obtain ⟨changes, history, _⟩ := handle_lifecycle.1 {} workshop edits
  have exists_p : 0 < (({} : Session).through (workshop.take 3)).grammar.size := by decide +kernel
  have fillable : (({} : Session).through (workshop.take 3)).grammar.Fillable 0 1 := by
    decide +kernel
  obtain ⟨_, done, _⟩ | ⟨refused, _⟩ := handle_lifecycle.2 _ 0 1 exists_p
  · exact ⟨edits, ⟨changes, history⟩, exists_p, fillable, done, by decide +kernel,
      by decide +kernel, by decide +kernel⟩
  · exact absurd fillable refused

end Peg
