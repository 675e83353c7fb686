import Peg.Proofs.Lifecycle.Sessions
import Peg.Proofs.Walk.Pulls

namespace Peg

namespace Walk

def pulls (g : Grammar) (n : Nat) (w : Walk) : List Pull :=
  (w.take g n).1.map fun h => ⟨h, (g.get h).children⟩

theorem pulled_take (g : Grammar) (n : Nat) (w : Walk) :
    g.Pulled w (w.pulls g n) g (w.take g n).2 := by
  induction n generalizing w with
  | zero => exact .nil
  | succ n ih =>
    unfold pulls take
    rcases next : w.next? g with _ | ⟨h, w'⟩
    · exact .nil
    · exact .pulled next (ih w')

end Walk

section

variable {α : Type} {l : List (String × α)} {key other : String} {a : α}

theorem lookup_assigned_self : (assigned l key a).lookup key = some a := by
  simp [assigned]

theorem lookup_assigned_other (ne : other ≠ key) :
    (assigned l key a).lookup other = l.lookup other := by
  have skip : (other == key) = false := by simpa using ne
  simp only [assigned, List.lookup_cons, skip]
  induction l with
  | nil => rfl
  | cons entry l ih =>
    obtain ⟨name, b⟩ := entry
    by_cases same : name = key
    · subst same
      simp [List.lookup_cons, skip, ih]
    · simp [same, List.lookup_cons, ih]

end

namespace Operation

def Opens (id : String) (op : Operation) : Prop := ∃ ids, op = .step (.openWalk id ids)

def pulls (id : String) (s : Session) : Operation → List Pull
  | .step (.nextOfWalk name n) =>
    if name = id then
      match s.walks.lookup id with
      | some w => w.pulls s.grammar n
      | none => []
    else []
  | _ => []

end Operation

namespace Session

def pulls (id : String) : Session → List Operation → List Pull
  | _, [] => []
  | s, op :: ops => op.pulls id s ++ pulls id (op.take s) ops

variable {s : Session} {id : String} {w : Walk}

theorem perform_nextOfWalk (there : s.walks.lookup id = some w) (n : Nat) :
    perform (.nextOfWalk id n) s =
      (.done (.handles ((w.take s.grammar n).1.map (view s.bench.world.store))),
        { s with walks := assigned s.walks id (w.take s.grammar n).2 }) := by
  simp [perform, kept, there, Proc.bind_eq, Proc.andThen, act, Workbench.act, Proc.onPart,
    Action.read, Proc.modify, views, grammar, Workbench.grammar, World.grammar]

theorem take_spared {op : Operation} (unopened : ¬ op.Opens id)
    (unpulled : ∀ n, op ≠ .step (.nextOfWalk id n)) (sound : s.Sound)
    (there : s.walks.lookup id = some w) :
    (op.take s).walks.lookup id = some w ∧ op.pulls id s = [] := by
  cases op with
  | step st =>
    have other : ∀ name ∈ st.walk?, id ≠ name := by
      rintro name mem rfl
      cases st with
      | openWalk =>
        cases mem
        exact unopened ⟨_, rfl⟩
      | nextOfWalk =>
        cases mem
        exact unpulled _ rfl
      | _ => cases mem
    have makes := perform_makes (n := 0) (Q := fun walks => walks.lookup id = some w) st
      fun name mem walks walk kept => (lookup_assigned_other (other name mem)).trans kept
    refine ⟨(makes s ⟨sound, there⟩ (Nat.zero_le _)).1.2, ?_⟩
    cases st with
    | nextOfWalk name n => exact if_neg (Ne.symm (other name rfl))
    | _ => rfl
  | teardown told roots => exact ⟨there, rfl⟩
  | run m ctx h c => exact ⟨there, rfl⟩

theorem take_pulled {op : Operation} (changes : op.Changes) (unopened : ¬ op.Opens id)
    (sound : s.Sound) (there : s.walks.lookup id = some w) :
    ∃ w', (op.take s).walks.lookup id = some w' ∧
      s.grammar.Pulled w (op.pulls id s) (op.take s).grammar w' := by
  by_cases pulling : ∃ n, op = .step (.nextOfWalk id n)
  · obtain ⟨n, rfl⟩ := pulling
    have taken : (Operation.take (.step (.nextOfWalk id n)) s).walks =
        assigned s.walks id (w.take s.grammar n).2 := by
      simp [Operation.take, step, perform_nextOfWalk there]
    have same : (Operation.take (.step (.nextOfWalk id n)) s).grammar = s.grammar := by
      simp [Operation.take, step, perform_nextOfWalk there, grammar, Workbench.grammar,
        World.grammar]
    have pulls : Operation.pulls id s (.step (.nextOfWalk id n)) = w.pulls s.grammar n := by
      simp [Operation.pulls, there]
    rw [taken, same, pulls]
    exact ⟨_, lookup_assigned_self, w.pulled_take s.grammar n⟩
  · have unpulled : ∀ n, op ≠ .step (.nextOfWalk id n) := fun n eq => pulling ⟨n, eq⟩
    obtain ⟨kept, none⟩ := take_spared unopened unpulled sound there
    obtain ⟨sound', _, evolves⟩ := Operation.take_sound changes sound
    rw [none]
    exact ⟨w, kept, .changed evolves sound'.store.closed .nil⟩

theorem through_pulled {ops : List Operation} (changes : ∀ op ∈ ops, op.Changes)
    (unopened : ∀ op ∈ ops, ¬ op.Opens id) (sound : s.Sound)
    (there : s.walks.lookup id = some w) :
    ∃ w', (s.through ops).walks.lookup id = some w' ∧
      s.grammar.Pulled w (s.pulls id ops) (s.through ops).grammar w' := by
  induction ops generalizing s w with
  | nil => exact ⟨w, there, .nil⟩
  | cons op ops ih =>
    have mem := List.mem_cons_self (a := op) (l := ops)
    obtain ⟨w₁, there₁, first⟩ := take_pulled (changes op mem) (unopened op mem) sound there
    obtain ⟨w', there', rest⟩ := ih (fun op' mem => changes op' (List.mem_cons_of_mem _ mem))
      (fun op' mem => unopened op' (List.mem_cons_of_mem _ mem))
      (Operation.take_sound (changes op mem) sound).1 there₁
    exact ⟨w', there', first.append rest⟩

theorem take_openWalk {ids : List String} {roots : List HandleId} (sound : s.Sound)
    (found : (registers ids s).1 = .done roots) :
    (Operation.take (.step (.openWalk id ids)) s).walks.lookup id = some (.ofRoots roots) ∧
      ∀ r ∈ roots, r < (Operation.take (.step (.openWalk id ids)) s).grammar.size := by
  have makes := registers_makes (n := 0) (Q := fun _ => True) ids
  have exist := (makes s ⟨sound, trivial⟩ (Nat.zero_le _)).2.2 roots found
  rcases ran : registers ids s with ⟨ending, s₁⟩
  rw [ran] at found exist
  cases found
  have opened : perform (.openWalk id ids) s =
      (.done .null, { s₁ with walks := assigned s₁.walks id (.ofRoots roots) }) := by
    rw [perform, Proc.bind_eq, Proc.andThen_done ran]
    rfl
  simp only [Operation.take, step, opened]
  exact ⟨lookup_assigned_self, exist⟩

end Session

/-- Whatever is done between two pulls from a walk, it comes to each handle once, and to no more
than there are; to none but its roots and what it saw below the handles that it came to; and to all
of that before it is exhausted, whatever has become of the handles since. So it is where a grammar
changes between the pulls, and so it is in a session, where other operations come between them. A
step that pulls answers with the handles pulled. -/
theorem walk_toured :
    (∀ (g : Grammar) (roots : List HandleId) (pulls : List Pull) (g' : Grammar) (w' : Walk),
      g.Closed → (∀ r ∈ roots, r < g.size) → g.Pulled (.ofRoots roots) pulls g' w' →
      Toured roots pulls g' w') ∧
    (∀ (logging : Bool) (earlier later : List Operation) (id : String) (ids : List String)
      (s opened : Session) (roots : List HandleId),
      (∀ op ∈ earlier ++ later, op.Changes) → (∀ op ∈ later, ¬ op.Opens id) →
      s = ({ logging := logging } : Session).through earlier →
      (Session.registers ids s).1 = .done roots →
      opened = Operation.take (.step (.openWalk id ids)) s →
      ∃ w', (opened.through later).walks.lookup id = some w' ∧
        opened.grammar.Pulled (.ofRoots roots) (opened.pulls id later)
          (opened.through later).grammar w' ∧
        Toured roots (opened.pulls id later) (opened.through later).grammar w') ∧
    ∀ (s : Session) (id : String) (w : Walk) (n : Nat), s.walks.lookup id = some w →
      (Session.perform (.nextOfWalk id n) s).1 =
        .done (.handles ((Operation.pulls id s (.step (.nextOfWalk id n))).map
          fun p => Session.view s.bench.world.store p.handle)) := by
  have toured {g g' : Grammar} {roots : List HandleId} {pulls : List Pull} {w' : Walk}
      (closed : g.Closed) (exist : ∀ r ∈ roots, r < g.size)
      (run : g.Pulled (.ofRoots roots) pulls g' w') : Toured roots pulls g' w' :=
    ((Walk.Tours.start exist).through closed run).toured
  refine ⟨fun g roots pulls g' w' => toured, ?_, fun s id w n there => ?_⟩
  · rintro logging earlier later id ids _ _ roots changes unopened rfl found rfl
    have sound := Session.through_sound (fun op mem => changes op (List.mem_append_left _ mem))
      (Session.start_sound logging)
    obtain ⟨there, exist⟩ := @Session.take_openWalk _ id _ _ sound found
    have opening : (Operation.step (.openWalk id ids)).Changes := trivial
    have opened := (Operation.take_sound opening sound).1
    obtain ⟨w', there', run⟩ := Session.through_pulled
      (fun op mem => changes op (List.mem_append_right _ mem)) unopened opened there
    exact ⟨w', there', run, toured opened.store.closed exist run⟩
  · rw [Session.perform_nextOfWalk there]
    simp [Operation.pulls, there, Walk.pulls, Function.comp_def]

def groundwork : List Operation :=
  [.step (.assign "a" (.string (.inl "a"))), .step (.assign "p" (.placeholder "p")),
    .step (.assign "r" (.choice [.register "a", .register "p"]))]

def stroll : List Operation :=
  [.step (.nextOfWalk "w" 1),
    .step (.define "p" (.sequence .list [.pair (.register "a") none,
      .pair (.string (.inl "b")) none])),
    .step (.nextOfWalk "w" 2), .step (.delete ["r"] none), .step (.nextOfWalk "w" 2)]

def strolling : Session :=
  Operation.take (.step (.openWalk "w" ["r"])) (({} : Session).through groundwork)

/-- The last handle pulled was made after the walk began, and torn down before it was pulled. -/
theorem stroll_toured :
    (∀ op ∈ groundwork ++ stroll, op.Changes) ∧ (∀ op ∈ stroll, ¬ op.Opens "w") ∧
    (Session.registers ["r"] (({} : Session).through groundwork)).1 = .done [2] ∧
    ((strolling.through stroll).grammar.get 3).isDeleted = true ∧
    ∃ w', (strolling.through stroll).walks.lookup "w" = some w' ∧
      w'.next? (strolling.through stroll).grammar = none ∧
      strolling.grammar.Pulled (.ofRoots [2]) [⟨2, [0, 1]⟩, ⟨0, []⟩, ⟨1, [0, 3]⟩, ⟨3, []⟩]
        (strolling.through stroll).grammar w' ∧
      Toured [2] [⟨2, [0, 1]⟩, ⟨0, []⟩, ⟨1, [0, 3]⟩, ⟨3, []⟩]
        (strolling.through stroll).grammar w' := by
  have changes : ∀ op ∈ groundwork ++ stroll, op.Changes := by
    simp [groundwork, stroll, Operation.Changes]
  have unopened : ∀ op ∈ stroll, ¬ op.Opens "w" := by
    simp [stroll, Operation.Opens]
  have found : (Session.registers ["r"] (({} : Session).through groundwork)).1 = .done [2] := rfl
  have pulls : strolling.pulls "w" stroll = [⟨2, [0, 1]⟩, ⟨0, []⟩, ⟨1, [0, 3]⟩, ⟨3, []⟩] := by
    decide +kernel
  have exhausted : ((strolling.through stroll).walks.lookup "w").all
      (fun w => (w.next? (strolling.through stroll).grammar).isNone) = true := by decide +kernel
  obtain ⟨w', there, run, toured⟩ :=
    walk_toured.2.1 false groundwork stroll "w" ["r"] _ strolling [2] changes unopened rfl found rfl
  rw [pulls] at run toured
  rw [there] at exhausted
  exact ⟨changes, unopened, found, by decide +kernel, w', there, by simpa using exhausted, run,
    toured⟩

end Peg
