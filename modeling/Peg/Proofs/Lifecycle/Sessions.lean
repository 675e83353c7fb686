import Peg.Proofs.Lifecycle.Operations
import Peg.Proofs.Lifecycle.Soundness

namespace Peg

namespace Sample

variable {n : Nat}

def Named (n : Nat) (parsers : List (String × HandleId)) : Prop := ∀ entry ∈ parsers, entry.2 < n

theorem Named.mono {m : Nat} {parsers : List (String × HandleId)} (named : Named n parsers)
    (le : n ≤ m) : Named m parsers :=
  fun entry mem => Nat.lt_of_lt_of_le (named entry mem) le

theorem within_parsers {hs : List HandleId} (below : ∀ h ∈ hs, h < n) :
    ∀ p ∈ hs.map Operand.parser, p.Within n := by
  intro p mem
  obtain ⟨h, mem', rfl⟩ := List.mem_map.mp mem
  exact below h mem'

theorem Greetings.build_makes : build.Makes World.gauge n fun m g => Named m g.names := by
  unfold build
  refine .bind (.each (fun _ _ _ => Build.string_makes _) _) fun _ _ names below => ?_
  refine .bind (Build.choice_makes (within_parsers below)) fun _ _ flatmate _ => ?_
  refine .bind (Build.string_makes _) fun m _ hello _ => ?_
  have parts : ∀ part ∈ [Part.pair (.parser hello) (some .text),
      .pair (.parser flatmate) (some .text)], part.Within m := by
    simp [Part.Within, Operand.Within]
    lia
  refine .bind (Build.sequence_makes parts) fun _ _ greet lt => ?_
  refine .bind (Build.repeated_makes _ _ (Operand.within_handle lt) _ _ _) fun _ _ greetings _ => ?_
  refine .done fun m _ => ?_
  simp [Named, Greetings.names]
  lia

namespace Expression

theorem inOrder_makes {f : Fold} {hs : List HandleId} (below : ∀ h ∈ hs, h < n) :
    (inOrder f hs).MakesHandle World.gauge n := by
  refine Build.sequence_makes fun part mem => ?_
  obtain ⟨h, mem', rfl⟩ := List.mem_map.mp mem
  exact below h mem'

theorem lexeme_makes {spaces h : HandleId} (lt : spaces < n) (lt' : h < n) :
    (lexeme spaces h).MakesHandle World.gauge n :=
  inOrder_makes (by simp [lt, lt'])

theorem symbol_makes {spaces : HandleId} (lt : spaces < n) (s : String) :
    (symbol spaces s).MakesHandle World.gauge n :=
  .bind (Build.string_makes _) fun _ _ _ lt' => lexeme_makes (by lia) lt'

theorem chain_makes {spaces operand : HandleId} (lt : spaces < n) (lt' : operand < n)
    (ops : List Operator) : (chain spaces operand ops).MakesHandle World.gauge n := by
  unfold chain
  refine .bind (.each (fun _ _ _ => symbol_makes (by lia) _) _) fun _ _ signs below => ?_
  refine .bind (Build.choice_makes (within_parsers below)) fun _ _ sign lt => ?_
  refine .bind (Build.map_makes lt _) fun _ _ op _ => ?_
  refine .bind (inOrder_makes (by simp; lia)) fun _ _ step lt => ?_
  refine .bind (Build.repeated_makes _ _ (Operand.within_handle lt) _ _ _) fun _ _ steps _ => ?_
  exact inOrder_makes (by simp; lia)

theorem build_makes : build.Makes World.gauge n fun m e => Named m e.names := by
  unfold build
  refine .bind (.each (fun _ _ _ => Build.string_makes _) _) fun _ _ digits below => ?_
  refine .bind (Build.choice_makes (within_parsers below)) fun _ _ anyDigit lt => ?_
  refine .bind (Build.expect_makes (Operand.within_handle lt) _) fun _ _ digit lt => ?_
  refine .bind (Build.repeated_makes _ _ (Operand.within_handle lt) _ _ _) fun _ _ number _ => ?_
  refine .bind (Build.string_makes _) fun _ _ blank lt => ?_
  refine .bind (Build.repeated_makes _ _ (Operand.within_handle lt) _ _ _) fun _ _ spaces _ => ?_
  refine .bind (Build.placeholder_makes _) fun _ _ expr _ => ?_
  refine .bind (lexeme_makes (by lia) (by lia)) fun _ _ atom _ => ?_
  refine .bind (symbol_makes (by lia) _) fun _ _ opening _ => ?_
  refine .bind (symbol_makes (by lia) _) fun _ _ closing _ => ?_
  refine .bind (inOrder_makes (by simp; lia)) fun _ _ bracketed _ => ?_
  refine .bind (Build.choice_makes (by simp [Operand.Within]; lia)) fun _ _ factor _ => ?_
  refine .bind (chain_makes (by lia) (by lia) _) fun _ _ term _ => ?_
  refine .bind (chain_makes (by lia) (by lia) _) fun _ _ sum _ => ?_
  refine .next (Action.Changes.makes (Store.becoming.defined _ _)) fun _ => ?_
  refine .bind (Action.make_makes fun _ mem => nomatch mem) fun _ _ eof _ => ?_
  refine .bind (inOrder_makes (by simp; lia)) fun _ _ program _ => ?_
  refine .bind (symbol_makes (by lia) _) fun _ _ comma lt => ?_
  refine .bind (Build.maybe_makes (Operand.within_handle lt) _) fun _ _ optional _ => ?_
  refine .bind (inOrder_makes (by simp; lia)) fun _ _ one lt => ?_
  refine .bind (Build.count_makes _ _ (Operand.within_handle lt) _) fun _ _ three _ => ?_
  refine .bind (inOrder_makes (by simp; lia)) fun _ _ triple _ => .done fun _ _ => ?_
  simp [Named, names]
  lia

end Expression

theorem Program.load_makes (p : Program) : p.load.Makes World.gauge n Named := by
  cases p with
  | greetings => exact .bind Greetings.build_makes fun _ _ _ named => .done fun _ => named.mono
  | expression => exact .bind Expression.build_makes fun _ _ _ named => .done fun _ => named.mono

end Sample

structure Workbench.Sound (k : Workbench) : Prop where
  store : k.world.store.Sound
  loaded : ∀ entry ∈ k.loaded, Sample.Named k.grammar.size entry.2

def Workbench.gauge : Gauge Workbench := ⟨Workbench.Sound, fun k => k.grammar.size⟩

namespace Workbench

variable {α : Type} {n : Nat} {P : Nat → α → Prop}

theorem act_makes {action : Action α} (makes : action.Makes World.gauge n P) :
    (act action).Makes Workbench.gauge n P := by
  intro k sound le
  obtain ⟨store, grown, yields⟩ := makes k.world sound.store le
  refine ⟨⟨store, fun entry mem => ?_⟩, grown, yields⟩
  exact (sound.loaded entry mem).mono grown

theorem parsersOf_makes (program : Sample.Program) :
    (parsersOf program).Makes Workbench.gauge n Sample.Named := by
  intro k sound le
  unfold parsersOf
  split
  · next parsers found =>
    refine ⟨sound, Nat.le_refl _, fun named eq => ?_⟩
    cases eq
    exact sound.loaded _ (mem_of_lookup found)
  · refine Proc.Makes.bind (act_makes program.load_makes) (fun m le' parsers named => ?_) k sound le
    intro k' sound' le''
    refine ⟨⟨sound'.store, fun entry mem => ?_⟩, Nat.le_refl _, fun named' eq => ?_⟩
    · rcases List.mem_cons.mp mem with rfl | mem
      · exact named.mono le''
      · exact sound'.loaded entry mem
    · cases eq
      exact named.mono le''

end Workbench

namespace Recipe

variable {n : Nat}

theorem made_makes {action : Action HandleId} (makes : action.MakesHandle World.gauge n) :
    (made action).Makes Workbench.gauge n fun m operand => operand.Within m :=
  .bind (Workbench.act_makes makes) fun _ _ _ lt => .done fun _ le => Nat.lt_of_lt_of_le lt le

theorem assign_makes (id : String) {operand : Operand} (within : operand.Within n) :
    (Action.update fun s => ((), s.assignOperand id operand)).Makes World.gauge n Anything := by
  intro w sound le
  cases operand with
  | parser h =>
    refine ⟨⟨sound.closed, fun entry mem => ?_⟩, Nat.le_refl _, fun _ _ => trivial⟩
    rcases List.mem_cons.mp mem with rfl | mem
    · exact Nat.lt_of_lt_of_le within le
    · exact sound.registers entry (List.mem_of_mem_filter mem)
  | other got => exact ⟨sound, Nat.le_refl _, fun _ _ => trivial⟩

theorem makeValue_makes (t : Template) : (Action.makeValue t).Makes World.gauge n Anything :=
  Action.Changes.makes fun _ => Store.becoming.same rfl rfl

mutual

theorem evaluate_makes {n : Nat} (recipe : Recipe) :
    recipe.evaluate.Makes Workbench.gauge n fun m operand => operand.Within m := by
  cases recipe <;> rw [evaluate]
  case register id => exact made_makes (Action.register_makes id)
  case other got => exact .done fun _ _ => trivial
  case named id recipe =>
    refine .bind (evaluate_makes recipe) fun _ _ operand within => ?_
    exact .next (Workbench.act_makes (assign_makes id within)) fun _ => .done fun _ => within.mono
  case string text => exact made_makes (Build.string_makes text)
  case pure value =>
    refine made_makes (.next (makeValue_makes value) fun _ => ?_)
    exact Action.make_makes fun _ mem => nomatch mem
  case fail message => exact made_makes (Action.make_makes fun _ mem => nomatch mem)
  case eof => exact made_makes (Action.make_makes fun _ mem => nomatch mem)
  case placeholder name => exact made_makes (Build.placeholder_makes name)
  case raw name => exact made_makes (Action.add_makes fun _ mem => nomatch mem)
  case choice ps =>
    exact .bind (evaluateAll_makes ps) fun _ _ _ within => made_makes (Build.choice_makes within)
  case alternative p q =>
    refine .bind (evaluate_makes p) fun _ _ p within => ?_
    refine .bind (evaluate_makes q) fun _ le q within' => made_makes ?_
    refine .bind (Operand.handle_makes (within.mono le)) fun _ le h lt => ?_
    exact Build.alternative_makes lt (within'.mono le)
  case sequence fold items =>
    exact .bind (evaluateItems_makes items) fun _ _ _ within =>
      made_makes (Build.sequence_makes within)
  case many fold p release =>
    exact .bind (evaluate_makes p) fun _ _ _ within =>
      made_makes (Build.repeated_makes _ _ within _ _ _)
  case many1 fold p release =>
    exact .bind (evaluate_makes p) fun _ _ _ within =>
      made_makes (Build.repeated_makes _ _ within _ _ _)
  case count k fold p release =>
    exact .bind (evaluate_makes p) fun _ _ _ within =>
      made_makes (Build.count_makes _ _ within _)
  case repetition fold p least most release =>
    refine .bind (evaluate_makes p) fun _ _ p within => made_makes ?_
    refine .bind (Operand.handle_makes within) fun _ _ h lt => ?_
    exact Action.make_makes (List.forall_mem_singleton.mpr lt)
  case maybe p default =>
    refine .bind (evaluate_makes p) fun _ _ p within => made_makes ?_
    exact .next (makeValue_makes default) fun _ => Build.maybe_makes within _
  case apply p func =>
    exact .bind (evaluate_makes p) fun _ _ _ within => made_makes (Build.apply_makes within func)
  case map p func =>
    refine .bind (evaluate_makes p) fun _ _ p within => made_makes ?_
    exact .bind (Operand.handle_makes within) fun _ _ h lt => Build.map_makes lt func
  case expect p text =>
    exact .bind (evaluate_makes p) fun _ _ _ within => made_makes (Build.expect_makes within text)
  case label p text =>
    refine .bind (evaluate_makes p) fun _ _ p within => made_makes ?_
    exact .bind (Operand.handle_makes within) fun _ _ h lt =>
      Build.expect_makes (Operand.within_handle lt) text
  case sample program name =>
    refine .bind (Workbench.parsersOf_makes program) fun _ _ parsers named => ?_
    split
    · next found => exact .done fun _ le => Nat.lt_of_lt_of_le (named _ (mem_of_lookup found)) le
    · exact .raise _

theorem evaluateAll_makes {n : Nat} (ps : List Recipe) : (evaluateAll ps).Makes Workbench.gauge n
    fun m operands => ∀ operand ∈ operands, operand.Within m := by
  cases ps <;> rw [evaluateAll]
  case nil => exact .done fun _ _ _ mem => nomatch mem
  case cons p ps =>
    refine .bind (evaluate_makes p) fun _ _ operand within => ?_
    refine .bind (evaluateAll_makes ps) fun _ le operands all => .done fun _ le' => ?_
    refine List.forall_mem_cons.mpr ⟨within.mono (Nat.le_trans le le'), fun other mem => ?_⟩
    exact (all other mem).mono le'

theorem evaluateItem_makes {n : Nat} (item : Item) :
    (evaluateItem item).Makes Workbench.gauge n fun m part => part.Within m := by
  cases item <;> rw [evaluateItem]
  case pair p release =>
    exact .bind (evaluate_makes p) fun _ _ _ within => .done fun _ le => within.mono le
  case group ps =>
    refine .bind (evaluateAll_makes ps) fun _ _ operands all => ?_
    split
    · next p r => exact .done fun _ le => (all p (List.mem_cons_self ..)).mono le
    · exact .done fun _ _ => trivial
  case loose ps => exact .next (evaluateAll_makes ps) fun _ => .done fun _ _ => trivial

theorem evaluateItems_makes {n : Nat} (items : List Item) : (evaluateItems items).Makes
    Workbench.gauge n fun m parts => ∀ part ∈ parts, part.Within m := by
  cases items <;> rw [evaluateItems]
  case nil => exact .done fun _ _ _ mem => nomatch mem
  case cons item items =>
    refine .bind (evaluateItem_makes item) fun _ _ part within => ?_
    refine .bind (evaluateItems_makes items) fun _ le parts all => .done fun _ le' => ?_
    refine List.forall_mem_cons.mpr ⟨within.mono (Nat.le_trans le le'), fun other mem => ?_⟩
    exact (all other mem).mono le'

end

end Recipe

def Step.walk? : Step → Option String
  | .openWalk id _ | .nextOfWalk id _ => some id
  | _ => none

namespace Session

variable {α : Type} {n : Nat} {P : Nat → α → Prop} {Q : List (String × Walk) → Prop}

def Sound (s : Session) : Prop := s.bench.Sound

def gauge (Q : List (String × Walk) → Prop) : Gauge Session :=
  ⟨fun s => s.Sound ∧ Q s.walks, fun s => s.grammar.size⟩

theorem of_bench {p : Proc Session α} (bench : ∀ s, (p s).2.bench = s.bench)
    (walks : ∀ s, Q s.walks → Q (p s).2.walks) : p.Makes (gauge Q) n Anything := by
  intro s sound _
  refine ⟨⟨?_, walks s sound.2⟩, Nat.le_of_eq ?_, fun _ _ => trivial⟩
  · exact (congrArg Workbench.Sound (bench s)).mpr sound.1
  · exact congrArg (fun k => k.grammar.size) (bench s).symm

theorem act_makes {action : Action α} (makes : action.Makes World.gauge n P) :
    (act action).Makes (gauge Q) n P := by
  intro s sound le
  obtain ⟨sound', grown, yields⟩ := Workbench.act_makes makes s.bench sound.1 le
  exact ⟨⟨sound', sound.2⟩, grown, yields⟩

theorem changes_makes {action : Action α} (changes : action.Changes) :
    (act action).Makes (gauge Q) n Anything := act_makes changes.makes

theorem read_makes (f : Store → α) : (act (Action.read f)).Makes (gauge Q) n Anything :=
  changes_makes (Store.becoming.read f)

theorem handle_makes (p : Recipe) : (handle p).MakesHandle (gauge Q) n := by
  have operand : (Proc.onPart Session.bench (fun b s => { s with bench := b }) p.evaluate).Makes
      (gauge Q) n fun m operand => operand.Within m := by
    intro s sound le
    obtain ⟨sound', grown, yields⟩ := Recipe.evaluate_makes p s.bench sound.1 le
    exact ⟨⟨sound', sound.2⟩, grown, yields⟩
  exact .bind operand fun _ _ _ within => act_makes (Operand.handle_makes within)

theorem config_makes (settings : Option Settings) :
    (config settings).Makes (gauge Q) n Anything := by
  cases settings with
  | none => exact .done fun _ _ => trivial
  | some settings => exact .ofExcept _

theorem kept_makes (part : Session → List (String × α)) (name : String) :
    (kept part name).Makes (gauge Q) n Anything := by
  have same (s : Session) : (kept part name s).2 = s := by
    unfold kept
    split <;> rfl
  exact of_bench (fun s => congrArg Session.bench (same s)) fun s => (same s).symm ▸ id

theorem register_makes (id : String) : (act (Action.register id)).MakesHandle (gauge Q) n :=
  act_makes (Action.register_makes id)

theorem registers_makes (ids : List String) :
    (registers ids).Makes (gauge Q) n fun m hs => ∀ h ∈ hs, h < m :=
  act_makes (.each (fun _ _ id => Action.register_makes id) ids)

theorem assign_makes (id : String) {h : HandleId} (lt : h < n) :
    (act (Action.update fun s => ((), s.assign id h))).Makes (gauge Q) n Anything :=
  act_makes (Recipe.assign_makes id (Operand.within_handle lt))

theorem rename_makes (h : HandleId) (name : String) :
    (act (Action.update fun s => ((), { s with grammar := s.grammar.rename h name }))).Makes
      (gauge Q) n Anything := by
  refine changes_makes fun w sound => ?_
  have evolves : w.store.grammar.Evolves [.renamed h name] (w.store.grammar.rename h name) :=
    .renamed .nil
  exact ⟨sound.evolved evolves (Grammar.closed_rename sound.closed h name), _, evolves⟩

theorem usual_changes : Meaning.usual.Moves Store.Becomes := Store.becoming.standard _ _

theorem call_makes (ctx : Context) (h : HandleId) (c : Cursor) :
    (act (Meaning.usual.callAction ctx h c)).Makes (gauge Q) n Anything :=
  changes_makes (Store.becoming.call usual_changes ctx h c)

theorem parse_makes (h : HandleId) (text : String) (config : Config) :
    (act (Meaning.usual.parse h text config)).Makes (gauge Q) n Anything :=
  changes_makes (Store.becoming.parse usual_changes h text config)

theorem runParser_makes (h : HandleId) (text : String) (config : Config) :
    (act (Meaning.usual.runParser h text config)).Makes (gauge Q) n Anything := by
  refine changes_makes ?_
  unfold Meaning.runParser
  refine Store.becoming.andThen (Store.becoming.parse usual_changes h text config) fun r => ?_
  cases r with
  | success v c => exact Store.becoming.done _
  | failure f =>
    exact Store.becoming.andThen (Store.becoming.compositional.ofExcept _) fun _ =>
      Store.becoming.done _

theorem watcher_makes (watch : Watch) : (act (watcher watch)).Makes (gauge Q) n Anything := by
  unfold watcher
  refine act_makes (.next (.each (fun _ _ id => Action.register_makes id) _) fun _ => ?_)
  exact .done fun _ _ => trivial

theorem done_makes (a : α) : (Proc.done a : Proc Session α).Makes (gauge Q) n Anything :=
  .done fun _ _ => trivial

theorem perform_makes (st : Step)
    (spared : ∀ id ∈ st.walk?, ∀ walks walk, Q walks → Q (assigned walks id walk)) :
    (perform st).Makes (gauge Q) n Anything := by
  cases st with
  | assign id p =>
    refine .bind (handle_makes p) fun _ _ h lt => ?_
    exact .next (assign_makes id lt) fun _ => read_makes _
  | parse p text settings save =>
    refine .next (handle_makes p) fun h => .next (config_makes settings) fun config => ?_
    refine .next (parse_makes h text config) fun r => ?_
    cases save with
    | none => exact done_makes _
    | some name => exact .next (of_bench (fun _ => rfl) fun _ kept => kept) fun _ => done_makes _
  | run p text settings =>
    refine .next (handle_makes p) fun h => .next (config_makes settings) fun config => ?_
    exact .next (runParser_makes h text config) fun _ => done_makes _
  | context id settings =>
    refine .next (config_makes settings) fun config => ?_
    exact .next (of_bench (fun _ => rfl) fun _ kept => kept) fun _ => done_makes _
  | call p text pos context =>
    refine .next (handle_makes p) fun h => .next (.ofExcept _) fun c => ?_
    cases context with
    | none => exact .next (call_makes _ h c) fun _ => done_makes _
    | some id =>
      refine .next (kept_makes _ _) fun ctx s sound le => ?_
      obtain ⟨sound', grown, _⟩ := call_makes ctx h c s sound le
      exact ⟨sound', grown, fun _ _ => trivial⟩
  | depth context => exact .next (kept_makes _ _) fun _ => done_makes _
  | same a b => exact .next (kept_makes _ _) fun _ => .next (kept_makes _ _) fun _ => done_makes _
  | define id p =>
    refine .next (register_makes id) fun h => .next (handle_makes p) fun other => ?_
    exact .next (changes_makes (Store.becoming.defined h other)) fun _ => read_makes _
  | delete ids watch =>
    cases watch with
    | none =>
      refine .next (registers_makes ids) fun roots => ?_
      exact .next (changes_makes (Store.becoming.deleteAll roots)) fun _ => done_makes _
    | some watch =>
      refine .next (registers_makes ids) fun roots => .next (watcher_makes watch) fun w => ?_
      have changes := Store.becoming.tearDown (Store.becoming.tell w) roots
      exact .next (changes_makes changes) fun _ => done_makes _
  | describe p => exact .next (handle_makes p) fun _ => read_makes _
  | walk ids =>
    exact .next (registers_makes ids) fun _ => .next (read_makes _) fun _ => read_makes _
  | openWalk id ids =>
    refine .next (registers_makes ids) fun _ => ?_
    exact .next (of_bench (fun _ => rfl) fun _ => spared id rfl _ _) fun _ => done_makes _
  | nextOfWalk id k =>
    refine .next (kept_makes _ _) fun walk => .next (read_makes _) fun _ => ?_
    exact .next (of_bench (fun _ => rfl) fun _ => spared id rfl _ _) fun _ => read_makes _
  | states ids => exact .next (registers_makes ids) fun _ => read_makes _
  | rename id name =>
    exact .next (register_makes id) fun h => .next (rename_makes h name) fun _ => read_makes _
  | sameNode a b =>
    exact .next (register_makes a) fun _ => .next (register_makes b) fun _ => read_makes _
  | fold fold values =>
    have each := Proc.Makes.mapM (n := n) (Q := Anything) (fun _ => id)
      (fun _ _ => Recipe.makeValue_makes) values
    refine .next (act_makes each) fun vs => ?_
    have folded := Store.becoming.compositional.fold Operator.apply fold vs
    exact .next (changes_makes folded) fun _ => done_makes _

end Session

namespace Operation

def Changes : Operation → Prop
  | .step _ => True
  | .teardown told _ => ∀ call h, (told call h).Changes
  | .run m _ _ _ => m.Moves Store.Becomes

theorem changes_take {action : Action α} (changes : action.Changes) {s : Session}
    (sound : s.Sound) : (Session.act action s).2.Sound ∧
      ∃ changes, s.grammar.Evolves changes (Session.act action s).2.grammar := by
  have makes := Session.changes_makes (n := 0) (Q := fun _ => True) changes
  obtain ⟨⟨sound', _⟩, _⟩ := makes s ⟨sound, trivial⟩ (Nat.zero_le _)
  exact ⟨sound', (changes s.bench.world sound.store).2⟩

/-- An operation on a sound session leaves it sound, and changes its grammar step by step. -/
theorem take_sound {op : Operation} (changes : op.Changes) {s : Session} (sound : s.Sound) :
    (op.take s).Sound ∧ ∃ changes, s.grammar.Evolves changes (op.take s).grammar := by
  cases op with
  | step st =>
    have makes := Session.perform_makes (n := 0) (Q := fun _ => True) st fun _ _ _ _ => id
    obtain ⟨⟨sound', _⟩, _⟩ := makes s ⟨sound, trivial⟩ (Nat.zero_le _)
    have edits : (Operation.step st).Edits := trivial
    obtain ⟨changes, evolves, _⟩ := take_evolves edits s
    exact ⟨⟨sound'.store, sound'.loaded⟩, changes, evolves⟩
  | teardown told roots => exact changes_take (Store.becoming.tearDown changes roots) sound
  | run m ctx h c => exact changes_take (Store.becoming.call changes ctx h c) sound

end Operation

namespace Session

theorem through_sound {ops : List Operation} (changes : ∀ op ∈ ops, op.Changes) {s : Session}
    (sound : s.Sound) : (s.through ops).Sound := by
  induction ops generalizing s with
  | nil => exact sound
  | cons op ops ih =>
    have next := (Operation.take_sound (changes op (List.mem_cons_self ..)) sound).1
    exact ih (fun op' mem => changes op' (List.mem_cons_of_mem _ mem)) next

theorem start_sound (logging : Bool) : Sound { logging := logging } where
  store := ⟨Grammar.closed_of_handles (fun _ mem => nomatch mem), fun _ mem => nomatch mem⟩
  loaded _ mem := nomatch mem

end Session

end Peg
