import Peg.Callback.Standard
import Peg.Proofs.Run.Calls
import Peg.Proofs.Semantics.Yields

/-!
Adequacy. Where the callbacks of a grammar compute and do no more, a run comes to what its handle
yields if the handles are nested no deeper than the guard lets in, and is stopped by the guard if
they are. Where a handle yields nothing, its run raises.
-/

namespace Peg

/-- A callback that comes to a value and leaves the grammar alone. -/
def Callback.Computes {α : Type} (work : Callback α) (g : Grammar) (value : α) : Prop :=
  ∀ s, s.grammar = g → (work s).ending = .done value ∧ (work s).store.grammar = g

section

variable (m : Meaning) (den : Denotation) (g : Grammar)

def Release.Total (r : Release) : Prop := ∀ v, (m.release r v).Computes g ()

def Fold.Total (fold : Fold) : Prop := ∀ vs, (m.fold fold vs).Computes g (den.fold fold vs)

def Func.Total (func : Func) : Prop := ∀ v, (m.apply func v).Computes g (den.apply func v)

def Node.Total : Node → Prop
  | .sequence fold items =>
    fold.Total m den g ∧ ∀ item ∈ items, ∀ r, item.2 = some r → r.Total m g
  | .repetition fold _ _ _ release => fold.Total m den g ∧ ∀ r, release = some r → r.Total m g
  | .apply _ func => func.Total m den g
  | _ => True

def Grammar.Total : Prop :=
  ∀ h body, (g.get h).status = .defined body → body.node.Total m den g

def Held.Total (held : Held) : Prop := ∀ x ∈ held, ∀ r, x.2 = some r → r.Total m g

def Stage.Total : Stage → Prop
  | .call _ | .alternatives _ _ => True
  | .body node => node.Total m den g
  | .items fold left held =>
    fold.Total m den g ∧ (∀ item ∈ left, ∀ r, item.2 = some r → r.Total m g) ∧ held.Total m g
  | .turns fold _ _ _ release held =>
    fold.Total m den g ∧ (∀ r, release = some r → r.Total m g) ∧ held.Total m g
  | .waiting _ held | .giveUp held _ => held.Total m g
  | .finish fold _ => fold.Total m den g

end

theorem Held.Total.append {m : Meaning} {g : Grammar} {held : Held} {v : Value}
    {release : Option Release} (total : held.Total m g)
    (last : ∀ r, release = some r → r.Total m g) : Held.Total m g (held ++ [(v, release)]) :=
  List.forall_mem_append.mpr ⟨total, List.forall_mem_singleton.mpr last⟩

/-- The faults by which a run of computing callbacks can end. -/
def Fault.Stops (limit : Int) (fault : Fault) : Prop :=
  fault = .depthLimit limit ∨ (∃ name, fault = .undefined name) ∨ ∃ name, fault = .deleted name

/-- How an ending that came of a goal agrees with what the goal yields. -/
def Goal.Agrees (g : Grammar) (den : Denotation) (guard : Guard) (c : Cursor)
    (ending : Ending Result) (goal : Goal) : Prop :=
  match ending with
  | .done r => ∃ d, d ≤ guard.room ∧ Yields g den goal c r d
  | .raised fault => fault.Stops guard.maxDepth ∧
    ∀ r d, Yields g den goal c r d → guard.room < d ∧ fault = .depthLimit guard.maxDepth
  | .aborted _ => False

def Failure.Joins (failed : Option Failure) (fs : List Failure) : Prop :=
  match failed with
  | none => fs = []
  | some f => f.Unites fs

theorem Failure.Joins.join {failed : Option Failure} {fs : List Failure}
    (joins : Failure.Joins failed fs) (f : Failure) :
    Failure.Joins (some (Failure.join failed f)) (fs ++ [f]) := by
  cases failed with
  | none =>
    obtain rfl : fs = [] := joins
    exact Failure.unites_singleton f
  | some before => exact Failure.Unites.merge joins

def Stage.Agrees (g : Grammar) (den : Denotation) (guard : Guard) (c : Cursor)
    (ending : Ending Result) : Stage → Prop
  | .call h | .waiting h _ => (Goal.handle h).Agrees g den guard c ending
  | .body node => (Goal.node node).Agrees g den guard c ending
  | .alternatives failed left =>
    ∀ fs, Failure.Joins failed fs → (Goal.alternatives fs left).Agrees g den guard c ending
  | .items fold left held =>
    (Goal.items fold (left.map (·.1)) (held.map (·.1))).Agrees g den guard c ending
  | .turns fold item least most _ held =>
    (Goal.turns fold item least most (held.map (·.1))).Agrees g den guard c ending
  | .finish fold held => ending = .done (.success (den.fold fold (held.map (·.1))) c)
  | .giveUp _ f => ending = .done (.failure f)

namespace Goal.Agrees

variable {g : Grammar} {den : Denotation} {guard : Guard} {c : Cursor} {ending : Ending Result}
  {goal goal' : Goal}

theorem congr (agrees : goal.Agrees g den guard c ending)
    (same : ∀ r d, Yields g den goal' c r d ↔ Yields g den goal c r d) :
    goal'.Agrees g den guard c ending := by
  rcases ending with r | fault | _
  · obtain ⟨d, le, yields⟩ := agrees
    exact ⟨d, le, (same r d).mpr yields⟩
  · obtain ⟨stops, deep⟩ := agrees
    exact ⟨stops, fun r d yields => deep r d ((same r d).mp yields)⟩
  · exact agrees

theorem first {h : HandleId} (agrees : (Goal.handle h).Agrees g den guard c ending)
    (early : ∀ r, ending ≠ .done r)
    (needs : ∀ r d, Yields g den goal c r d →
      ∃ r₁ d₁, d₁ ≤ d ∧ Yields g den (.handle h) c r₁ d₁) :
    goal.Agrees g den guard c ending := by
  rcases ending with r | fault | _
  · exact absurd rfl (early r)
  · obtain ⟨stops, deep⟩ := agrees
    refine ⟨stops, fun r d yields => ?_⟩
    obtain ⟨r₁, d₁, le, first⟩ := needs r d yields
    obtain ⟨lt, limit⟩ := deep r₁ d₁ first
    exact ⟨Nat.lt_of_lt_of_le lt le, limit⟩
  · exact agrees

theorem rest {c' : Cursor} {d : Nat} (agrees : goal'.Agrees g den guard c' ending)
    (le : d ≤ guard.room)
    (goes : ∀ r e, Yields g den goal' c' r e → Yields g den goal c r (max d e))
    (needs : ∀ r e, Yields g den goal c r e → ∃ d', d' ≤ e ∧ Yields g den goal' c' r d') :
    goal.Agrees g den guard c ending := by
  rcases ending with r | fault | _
  · obtain ⟨e, le', yields⟩ := agrees
    exact ⟨max d e, Nat.max_le.mpr ⟨le, le'⟩, goes r e yields⟩
  · obtain ⟨stops, deep⟩ := agrees
    refine ⟨stops, fun r e yields => ?_⟩
    obtain ⟨d', le', yields'⟩ := needs r e yields
    obtain ⟨lt, limit⟩ := deep r d' yields'
    exact ⟨Nat.lt_of_lt_of_le lt le', limit⟩
  · exact agrees

end Goal.Agrees

namespace Meaning

variable {m : Meaning} {den : Denotation} {g : Grammar} {trace : Bool}

theorem callback_computes {α : Type} {entry : Ending α → List Event → Int → Entry}
    {work : Callback α} {value : α} {s s' : Run} {ending : Ending α}
    (computes : work.Computes g value) (grammar : s.store.grammar = g)
    (h : Run.callback entry work s = (ending, s')) :
    ending = .done value ∧ s'.store.grammar = g := by
  obtain ⟨done, kept⟩ := computes s.store grammar
  cases h
  exact ⟨done, kept⟩

theorem releaseAll_total {held : Held} {s s' : Run} {ending : Ending Unit}
    (total : held.Total m g) (grammar : s.store.grammar = g)
    (h : m.releaseAll held s = (ending, s')) : ending = .done () ∧ s'.store.grammar = g := by
  induction held generalizing s with
  | nil =>
    cases h
    exact ⟨rfl, grammar⟩
  | cons item held ih =>
    obtain ⟨v, release⟩ := item
    have rest_total : Held.Total m g held := fun x mem => total x (List.mem_cons_of_mem _ mem)
    cases release with
    | none => exact ih rest_total grammar (releaseAll_cons_none v held ▸ h)
    | some r =>
      have computes := total _ (List.mem_cons_self ..) r rfl v
      obtain ⟨s₁, first, rest⟩ | ⟨first, stopped⟩ := releaseAll_cons_some h
      · exact ih rest_total (callback_computes computes grammar first).2 rest
      · exact absurd (callback_computes computes grammar first).1 stopped

theorem unwind_total {held : Held} {fault : Fault} {s s' : Run} {ending : Ending Result}
    (total : held.Total m g) (grammar : s.store.grammar = g)
    (h : m.unwind held fault s = (ending, s')) :
    ending = .raised fault ∧ s'.store.grammar = g := by
  obtain ⟨pass, rfl⟩ | ⟨_, pass, _⟩ | ⟨_, pass, _⟩ := unwind_cases h
  · exact ⟨rfl, (releaseAll_total total grammar pass).2⟩
  · cases (releaseAll_total total grammar pass).1
  · cases (releaseAll_total total grammar pass).1

theorem giveUp_total {held : Held} {f : Failure} {s s' : Run} {ending : Ending Result}
    (total : held.Total m g) (grammar : s.store.grammar = g)
    (h : m.giveUp held f s = (ending, s')) :
    ending = .done (.failure f) ∧ s'.store.grammar = g := by
  obtain ⟨pass, rfl⟩ | ⟨_, _, pass, _⟩ | ⟨_, pass, _⟩ := giveUp_cases h
  · exact ⟨rfl, (releaseAll_total total grammar pass).2⟩
  · cases (releaseAll_total total grammar pass).1
  · cases (releaseAll_total total grammar pass).1

theorem agrees_of_fault {h : HandleId} {c : Cursor} {guard : Guard} {fault : Fault}
    (missing : (g.get h).fault? = some fault) :
    (Goal.handle h).Agrees g den guard c (.raised fault) := by
  constructor
  · rcases status : (g.get h).status with _ | _ | _
    · simp only [Handle.fault?, status, Option.some.injEq] at missing
      exact .inr (.inl ⟨_, missing.symm⟩)
    · simp only [Handle.fault?, status, reduceCtorEq] at missing
    · simp only [Handle.fault?, status, Option.some.injEq] at missing
      exact .inr (.inr ⟨_, missing.symm⟩)
  · intro r d yields
    cases yields with
    | handle status _ => simp only [Handle.fault?, status, reduceCtorEq] at missing

theorem agrees_of_entered {h : HandleId} {c : Cursor} {guard guard' : Guard} {body : Body}
    {ending : Ending Result} (status : (g.get h).status = .defined body)
    (enter : guard.enter = .ok guard')
    (agrees : (Goal.node body.node).Agrees g den guard' c ending) :
    (Goal.handle h).Agrees g den guard c ending := by
  have room := Guard.room_of_enter enter
  have limit : guard'.maxDepth = guard.maxDepth := by
    rw [← Guard.exit_of_enter enter]
    rfl
  rcases ending with r | fault | _
  · obtain ⟨d, le, yields⟩ := agrees
    exact ⟨d + 1, by omega, .handle status yields⟩
  · obtain ⟨stops, deep⟩ := agrees
    refine ⟨limit ▸ stops, fun r d yields => ?_⟩
    cases yields with
    | handle status' inside =>
      rw [status] at status'
      cases status'
      obtain ⟨lt, fault⟩ := deep _ _ inside
      exact ⟨by omega, limit ▸ fault⟩
  · exact agrees

theorem Ran.agrees {stage : Stage} {c : Cursor} {s s' : Run} {ending : Ending Result}
    (defined : g.Total m den) (ran : m.Ran trace stage c s ending s') :
    s.store.grammar = g → stage.Total m den g →
      s'.store.grammar = g ∧ stage.Agrees g den s.guard c ending := by
  -- A stage that goes on to another is stopped by the guard where that one is, since its derivations
  -- hold derivations of that one.
  induction ran with
  | missing missing =>
    intro grammar _
    refine ⟨grammar, agrees_of_fault ?_⟩
    rw [← grammar]
    exact missing
  | @refused h c s body fault _ enter =>
    intro grammar _
    obtain ⟨room, limit⟩ := Guard.enter_eq_error_iff.mp enter
    refine ⟨grammar, .inl limit, fun r d yields => ?_⟩
    cases yields
    exact ⟨by omega, limit⟩
  | @entered h c s body guard ending s' status enter _ ih =>
    intro grammar _
    rw [grammar] at status
    obtain ⟨grammar', agrees⟩ := ih (by rw [Run.store_opened]; exact grammar)
      (defined h body status)
    rw [Run.guard_opened] at agrees
    refine ⟨?_, agrees_of_entered status enter agrees⟩
    rw [Run.store_closed]
    exact grammar'
  | leaf leaf =>
    intro grammar _
    exact ⟨grammar, 0, Nat.zero_le _, .leaf leaf⟩
  | choice _ ih =>
    intro grammar _
    obtain ⟨grammar', agrees⟩ := ih grammar trivial
    exact ⟨grammar', (agrees [] rfl).congr fun _ _ => Yields.choice_iff⟩
  | exhausted =>
    intro grammar _
    exact ⟨grammar, fun fs unites => ⟨0, Nat.zero_le _, .exhausted unites⟩⟩
  | @settled failed h hs c s ending s' _ unfailed ih =>
    intro grammar _
    obtain ⟨grammar', agrees⟩ := ih grammar trivial
    refine ⟨grammar', fun fs _ => ?_⟩
    rcases ending with (⟨v, next⟩ | f) | fault | message
    · obtain ⟨d, le, yields⟩ := agrees
      exact ⟨d, le, .chosen yields⟩
    · exact absurd rfl (unfailed f)
    · have called : (Goal.handle h).Agrees g den s.guard c (.raised fault) := agrees
      exact called.first (fun r done => by cases done) fun _ _ => Yields.alternatives_first
    · exact agrees
  | @passed failed h hs c s f s₁ ending s' ran _ ih ih' =>
    intro grammar _
    obtain ⟨grammar₁, d, le, first⟩ := ih grammar trivial
    obtain ⟨grammar', agrees⟩ := ih' grammar₁ trivial
    rw [ran.guard_eq] at agrees
    refine ⟨grammar', fun fs joins => ?_⟩
    exact Goal.Agrees.rest (agrees _ (joins.join f)) le (fun _ _ => .passed first)
      fun _ _ => first.alternatives_rest
  | awaited _ _ ih =>
    intro grammar _
    exact ih grammar trivial
  | unwound _ pass ih =>
    intro grammar total
    obtain ⟨grammar₁, agrees⟩ := ih grammar trivial
    obtain ⟨rfl, grammar'⟩ := unwind_total total grammar₁ pass
    exact ⟨grammar', agrees⟩
  | folded work =>
    intro grammar total
    obtain ⟨rfl, grammar'⟩ := callback_computes (total _) grammar work
    exact ⟨grammar', rfl⟩
  | gaveUp pass =>
    intro grammar total
    obtain ⟨rfl, grammar'⟩ := giveUp_total total grammar pass
    exact ⟨grammar', rfl⟩
  | sequence _ ih =>
    intro grammar total
    obtain ⟨grammar', agrees⟩ := ih grammar ⟨total.1, total.2, fun _ mem => nomatch mem⟩
    exact ⟨grammar', agrees.congr fun _ _ => Yields.sequence_iff⟩
  | itemsDone _ ih =>
    intro grammar total
    obtain ⟨grammar', rfl⟩ := ih grammar total.1
    exact ⟨grammar', 0, Nat.zero_le _, .itemsDone⟩
  | @itemDone fold h r items held c s v next s₁ ending s' ran _ ih ih' =>
    intro grammar total
    obtain ⟨folds, left, total⟩ := total
    obtain ⟨grammar₁, d, le, first⟩ := ih grammar total
    obtain ⟨grammar', agrees⟩ := ih' grammar₁
      ⟨folds, fun item mem => left item (List.mem_cons_of_mem _ mem),
        total.append (left _ (List.mem_cons_self ..))⟩
    rw [ran.guard_eq] at agrees
    simp only [Stage.Agrees, List.map_append, List.map_cons, List.map_nil] at agrees
    exact ⟨grammar', agrees.rest le (fun _ _ => .itemDone first) fun _ _ => first.items_rest⟩
  | @itemFailed fold h r items held c s f s₁ ending s' _ _ ih ih' =>
    intro grammar total
    obtain ⟨_, _, total⟩ := total
    obtain ⟨grammar₁, d, le, first⟩ := ih grammar total
    obtain ⟨grammar', rfl⟩ := ih' grammar₁ total
    exact ⟨grammar', d, le, .itemFailed first⟩
  | @itemEnded fold h r items held c s ending s' _ early ih =>
    intro grammar total
    obtain ⟨_, _, total⟩ := total
    obtain ⟨grammar', agrees⟩ := ih grammar total
    exact ⟨grammar', Goal.Agrees.first agrees early fun _ _ => Yields.items_first⟩
  | repetition _ ih =>
    intro grammar total
    obtain ⟨grammar', agrees⟩ := ih grammar ⟨total.1, total.2, fun _ mem => nomatch mem⟩
    exact ⟨grammar', agrees.congr fun _ _ => Yields.repetition_iff⟩
  | @turnsFull fold item least most release held c s ending s' full _ ih =>
    intro grammar total
    obtain ⟨grammar', rfl⟩ := ih grammar total.1
    exact ⟨grammar', 0, Nat.zero_le _, .turnsFull (by rwa [List.length_map])⟩
  | @turnMoved fold item least most release held c s v next s₁ ending s' more ran moved _ ih ih' =>
    intro grammar total
    obtain ⟨folds, releases, total⟩ := total
    obtain ⟨grammar₁, d, le, first⟩ := ih grammar total
    obtain ⟨grammar', agrees⟩ := ih' grammar₁ ⟨folds, releases, total.append releases⟩
    rw [ran.guard_eq] at agrees
    rw [← List.length_map (f := (·.1))] at more
    simp only [Stage.Agrees, List.map_append, List.map_cons, List.map_nil] at agrees
    exact ⟨grammar', agrees.rest le (fun _ _ => .turnMoved more first moved)
      fun _ _ => Yields.turns_rest more first moved⟩
  | @turnStill fold item least most release held c s v next s₁ ending s' more ran still _ ih ih' =>
    intro grammar total
    obtain ⟨folds, _, total⟩ := total
    obtain ⟨grammar₁, d, le, first⟩ := ih grammar total
    obtain ⟨grammar', rfl⟩ := ih' grammar₁ folds
    rw [← List.length_map (f := (·.1))] at more
    rw [List.map_append]
    exact ⟨grammar', d, le, .turnStill more first still⟩
  | @turnFailed fold item least most release held c s f s₁ ending s' more ran enough _ ih ih' =>
    intro grammar total
    obtain ⟨folds, _, total⟩ := total
    obtain ⟨grammar₁, d, le, first⟩ := ih grammar total
    obtain ⟨grammar', rfl⟩ := ih' grammar₁ folds
    rw [← List.length_map (f := (·.1))] at more enough
    exact ⟨grammar', d, le, .turnFailed more first enough⟩
  | @turnShort fold item least most release held c s f s₁ ending s' more ran short _ ih ih' =>
    intro grammar total
    obtain ⟨_, _, total⟩ := total
    obtain ⟨grammar₁, d, le, first⟩ := ih grammar total
    obtain ⟨grammar', rfl⟩ := ih' grammar₁ total
    rw [← List.length_map (f := (·.1))] at more short
    exact ⟨grammar', d, le, .turnShort more first short⟩
  | @turnEnded fold item least most release held c s ending s' more _ early ih =>
    intro grammar total
    obtain ⟨_, _, total⟩ := total
    obtain ⟨grammar', agrees⟩ := ih grammar total
    rw [← List.length_map (f := (·.1))] at more
    exact ⟨grammar', Goal.Agrees.first agrees early fun _ _ => Yields.turns_first more⟩
  | @applied item func c s v next s₁ ending s' _ work ih =>
    intro grammar total
    obtain ⟨grammar₁, d, le, first⟩ := ih grammar trivial
    obtain ⟨rfl, grammar'⟩ := callback_computes (total v) grammar₁ work
    exact ⟨grammar', d, le, .applied first⟩
  | @unapplied item func c s ending s' _ unsuccessful ih =>
    intro grammar _
    obtain ⟨grammar', agrees⟩ := ih grammar trivial
    refine ⟨grammar', ?_⟩
    rcases ending with (⟨v, next⟩ | f) | fault | message
    · exact absurd rfl (unsuccessful v next)
    · obtain ⟨d, le, yields⟩ := agrees
      exact ⟨d, le, .unapplied yields⟩
    · have called : (Goal.handle item).Agrees g den s.guard c (.raised fault) := agrees
      exact called.first (fun r done => by cases done) fun _ _ => Yields.apply_first
    · exact agrees
  | @expect item label c s ending s' _ ih =>
    intro grammar _
    obtain ⟨grammar', agrees⟩ := ih grammar trivial
    refine ⟨grammar', ?_⟩
    rcases ending with (⟨v, next⟩ | f) | fault | message
    · obtain ⟨d, le, yields⟩ := agrees
      exact ⟨d, le, .expected yields⟩
    · obtain ⟨d, le, yields⟩ := agrees
      by_cases start : f.position = c.pos
      · simp only [Ending.map, Result.labelled, if_pos start]
        exact ⟨d, le, .relabelled yields start⟩
      · simp only [Ending.map, Result.labelled, if_neg start]
        exact ⟨d, le, .unlabelled yields start⟩
    · have called : (Goal.handle item).Agrees g den s.guard c (.raised fault) := agrees
      exact called.first (fun r done => by cases done) fun _ _ => Yields.expect_first
    · exact agrees

/-- A run returns what its handle yields just if it is allowed the depth of the derivation; with
less it is stopped by the guard. What it returns is yielded, and where nothing is yielded it
raises. -/
theorem call_yields {s : Store} {config : Config} {h : HandleId} {c : Cursor}
    {ending : Ending Result} {run : Run} (total : s.grammar.Total m den)
    (call : m.call (.fresh config) h c s = (ending, run)) :
    (∀ r d, Yields s.grammar den (.handle h) c r d →
      ((d : Int) ≤ config.maxDepth → ending = .done r) ∧
      (config.maxDepth < d → ending = .raised (.depthLimit config.maxDepth))) ∧
    (∀ r, ending = .done r →
      ∃ d : Nat, (d : Int) ≤ config.maxDepth ∧ Yields s.grammar den (.handle h) c r d) ∧
    ((¬ ∃ r d, Yields s.grammar den (.handle h) c r d) →
      ∃ fault, ending = .raised fault ∧ fault.Stops config.maxDepth) := by
  have ran := ran_call (m := m) (.fresh config) h c s
  rw [call] at ran
  obtain ⟨_, agrees⟩ := ran.agrees total rfl trivial
  have room : (Context.fresh config).guard.room = config.maxDepth.toNat := by
    simp [Context.fresh, Guard.room]
  have positive := config.one_le
  refine ⟨fun r d yields => ⟨fun le => ?_, fun lt => ?_⟩, fun r done => ?_, fun nothing => ?_⟩
  · rcases ending with r' | fault | _
    · obtain ⟨d', _, yields'⟩ := agrees
      rw [(yields.unique yields').1]
    · obtain ⟨deep, _⟩ := agrees.2 r d yields
      rw [room] at deep
      omega
    · exact agrees.elim
  · rcases ending with r' | fault | _
    · obtain ⟨d', le, yields'⟩ := agrees
      have same := (yields.unique yields').2
      rw [room] at le
      omega
    · obtain ⟨_, limit⟩ := agrees.2 r d yields
      rw [limit]
      rfl
    · exact agrees.elim
  · subst done
    obtain ⟨d, le, yields⟩ := agrees
    rw [room] at le
    exact ⟨d, by omega, yields⟩
  · rcases ending with r | fault | _
    · obtain ⟨d, _, yields⟩ := agrees
      exact absurd ⟨r, d, yields⟩ nothing
    · exact ⟨fault, rfl, agrees.1⟩
    · exact agrees.elim

def letters : Store where
  grammar := ⟨#[{ name := "letters", status := .defined ⟨1, .choice 2 [3]⟩ },
    { status := .defined ⟨1, .choice 2 [3]⟩ },
    { status := .defined ⟨2, .sequence .list [(4, none), (0, none)]⟩ },
    { status := .defined ⟨3, .pure .null⟩ }, { status := .defined ⟨4, .literal "a"⟩ }]⟩

def listing : Denotation := ⟨fun _ vs => .list vs, fun _ v => v⟩

/-- The list of one letter is five handles deep: a guard with room for five lets it through, and a
guard with room for four does not. -/
theorem letters_yield :
    letters.grammar.Total (standard Operator.apply 0) listing ∧
    Yields letters.grammar listing (.handle 0) (.start #['a'])
      (.success (.list [.text "a", .null]) ⟨#['a'], 1, Nat.le_refl 1⟩) 5 ∧
    ((standard Operator.apply 0).call (.fresh ⟨5, false, "", by decide⟩) 0 (.start #['a'])
      letters).1 = .done (.success (.list [.text "a", .null]) ⟨#['a'], 1, Nat.le_refl 1⟩) ∧
    ((standard Operator.apply 0).call (.fresh ⟨4, false, "", by decide⟩) 0 (.start #['a'])
      letters).1 = .raised (.depthLimit 4) := by
  have total : letters.grammar.Total (standard Operator.apply 0) listing := by
    intro h body status
    rcases h with _ | _ | _ | _ | _ | h
    · cases status
      trivial
    · cases status
      trivial
    · cases status
      refine ⟨fun vs s grammar => ⟨rfl, grammar⟩, fun item mem r release => ?_⟩
      simp only [List.mem_cons, List.not_mem_nil, or_false] at mem
      rcases mem with rfl | rfl <;> cases release
    · cases status
      trivial
    · cases status
      trivial
    · rw [Grammar.get_of_size_le (by simp [letters, Grammar.size])] at status
      cases status
  have letter : Yields letters.grammar listing (.handle 4) (.start #['a'])
      (.success (.text "a") ⟨#['a'], 1, Nat.le_refl 1⟩) 1 :=
    .handle rfl (.leaf (.read (by decide) rfl rfl))
  have no_letter : Yields letters.grammar listing (.handle 4) ⟨#['a'], 1, Nat.le_refl 1⟩
      (.failure ⟨.singleton "a", 1⟩) 1 := .handle rfl (.leaf (.unread (by decide)))
  have no_more : Yields letters.grammar listing (.handle 2) ⟨#['a'], 1, Nat.le_refl 1⟩
      (.failure ⟨.singleton "a", 1⟩) 2 := .handle rfl (.sequence (.itemFailed no_letter))
  have null : Yields letters.grammar listing (.handle 3) ⟨#['a'], 1, Nat.le_refl 1⟩
      (.success .null ⟨#['a'], 1, Nat.le_refl 1⟩) 1 := .handle rfl (.leaf .pure)
  have nothing : Yields letters.grammar listing (.handle 0) ⟨#['a'], 1, Nat.le_refl 1⟩
      (.success .null ⟨#['a'], 1, Nat.le_refl 1⟩) 3 :=
    .handle rfl (.choice (.passed no_more (.chosen null)))
  have list : Yields letters.grammar listing (.handle 2) (.start #['a'])
      (.success (.list [.text "a", .null]) ⟨#['a'], 1, Nat.le_refl 1⟩) 4 :=
    .handle rfl (.sequence (.itemDone letter (.itemDone nothing .itemsDone)))
  have yields : Yields letters.grammar listing (.handle 0) (.start #['a'])
      (.success (.list [.text "a", .null]) ⟨#['a'], 1, Nat.le_refl 1⟩) 5 :=
    .handle rfl (.choice (.chosen list))
  have room := (call_yields total (Prod.eta ((standard Operator.apply 0).call
    (.fresh ⟨5, false, "", by decide⟩) 0 (.start #['a']) letters)).symm).1 _ _ yields
  have less := (call_yields total (Prod.eta ((standard Operator.apply 0).call
    (.fresh ⟨4, false, "", by decide⟩) 0 (.start #['a']) letters)).symm).1 _ _ yields
  exact ⟨total, yields, room.1 (by decide), less.2 (by decide)⟩

end Meaning

end Peg
