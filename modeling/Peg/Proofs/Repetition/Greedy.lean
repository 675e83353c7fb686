import Mathlib
import Peg.Callback.Standard
import Peg.Proofs.Lifecycle.Building
import Peg.Proofs.Repetition.Turns
import Peg.Proofs.Run.Steady

/-!
Repetitions that go on as long as they can. Without a lower bound such a repetition never fails, and
with a lower bound of one it differs only where the item fails at once. It stops where its item
would fail or stay if it were run there once more.
-/

namespace Peg

namespace Node

def many (fold : Fold) (item : HandleId) (release : Option Release) : Node :=
  .repetition fold item 0 none release

def many1 (fold : Fold) (item : HandleId) (release : Option Release) : Node :=
  .repetition fold item 1 none release

end Node

namespace Meaning

variable {m : Meaning} {ctx : Context} {fold : Fold} {item : HandleId} {release : Option Release}
  {c last next : Cursor} {s t : Store} {vs : List Value}

/-- Values of an item that is run from a place and from every place where it comes to, each time in
the same store. -/
inductive Walks (m : Meaning) (ctx : Context) (item : HandleId) (t : Store) :
    Cursor → List Value → Cursor → Prop where
  | nil {c : Cursor} : Walks m ctx item t c [] c
  | cons {c next last : Cursor} {v : Value} {vs : List Value} :
      (m.call ctx item c t).1 = .done (.success v next) → Walks m ctx item t next vs last →
      Walks m ctx item t c (v :: vs) last

theorem Walks.append_one {v : Value} (walks : m.Walks ctx item t c vs last)
    (call : (m.call ctx item last t).1 = .done (.success v next)) :
    m.Walks ctx item t c (vs ++ [v]) next := by
  induction walks with
  | nil => exact .cons call .nil
  | cons first _ ih => exact .cons first (ih call)

theorem Walks.transfer (steady : s.grammar.Steady m [item]) (grammar : t.grammar = s.grammar)
    (walks : m.Walks ctx item s c vs last) : m.Walks ctx item t c vs last := by
  induction walks with
  | nil => exact .nil
  | cons call _ ih => exact .cons ((call_steady steady grammar ctx _).1.trans call) ih

theorem Strides.walks {told : List Entry} {s' : Store} (steady : t.grammar.Steady m [item])
    (strides : m.Strides ctx item c s vs told last s') (grammar : s.grammar = t.grammar) :
    s'.grammar = t.grammar ∧ m.Walks ctx item t c vs last := by
  induction strides with
  | nil => exact ⟨grammar, .nil⟩
  | @cons c next last s s' v run vs told call _ _ ih =>
    obtain ⟨same, _⟩ := call_steady steady grammar ctx c
    obtain ⟨_, kept⟩ := call_steady (s := s) (grammar ▸ steady) rfl ctx c
    rw [call] at same kept
    obtain ⟨grammar', walks⟩ := ih (kept.trans grammar)
    exact ⟨grammar', .cons same.symm walks⟩

section

variable {least : Int} {ending : Ending Result} {run : Run}

theorem LastTurn.unfailed (final : m.LastTurn ctx fold item 0 release vs c s ending run)
    (f : Failure) : ending ≠ .done (.failure f) := by
  rintro rfl
  generalize eq : Ending.done (Result.failure f) = ending at final
  cases final with
  | @failed _ _ _ ending | @still _ _ _ _ ending => cases ending <;> cases eq
  | short _ short => omega
  | raised _ pass => exact unwind_ne_done pass _ eq.symm
  | aborted => cases eq

theorem LastTurn.settled {v : Value} (steady : t.grammar.Steady m [item])
    (grammar : s.grammar = t.grammar)
    (final : m.LastTurn ctx fold item least release vs last s (.done (.success v next)) run)
    (walks : m.Walks ctx item t c vs last) :
    ∃ folded before, (folded = vs ∨ ∃ w, folded = vs ++ [w]) ∧
      m.runFold fold folded before = (.done v, run) ∧ m.Walks ctx item t c folded next ∧
      ∃ r, (m.call ctx item next t).1 = .done r ∧
        ∀ w after, r = .success w after → after.pos = next.pos := by
  obtain ⟨same, _⟩ := call_steady steady grammar ctx last
  generalize eq : Ending.done (Result.success v next) = ending at final
  cases final with
  | @failed f before _ ending call _ work =>
    cases ending <;> cases eq
    rw [call] at same
    exact ⟨vs, before, .inl rfl, work, walks, .failure f, same.symm, nofun⟩
  | short _ _ pass => cases giveUp_done (eq ▸ pass)
  | @still w after before _ ending call stays work =>
    cases ending <;> cases eq
    have ran := ran_call (m := m) ctx item last s
    rw [call] at same ran
    obtain rfl : next = last := Cursor.eq_of_pos ran.reaches.1 stays
    refine ⟨vs ++ [w], before, .inr ⟨w, rfl⟩, work, walks.append_one same.symm, .success w next,
      same.symm, ?_⟩
    rintro _ _ ⟨⟩
    rfl
  | raised _ pass => exact absurd eq.symm (unwind_ne_done pass _)
  | aborted => cases eq

end

section

variable {trace : Bool} {held : Held} {least : Int} {s s' : Run} {ending : Ending Result}

theorem Ran.turns_of_reached {least' : Int} (reached : least' ≤ (held.length : Int))
    (before : least ≤ (held.length : Int))
    (ran : m.Ran trace (.turns fold item least none release held) c s ending s') :
    m.Ran trace (.turns fold item least' none release held) c s ending s' := by
  induction left : c.input.size - c.pos using Nat.strongRecOn generalizing c held s with
  | _ left ih =>
    subst left
    cases ran with
    | turnsFull full finish => exact .turnsFull full finish
    | turnMoved more wait moved rest =>
      refine .turnMoved more wait moved (ih _ (wait.moved moved).2 ?_ ?_ rest rfl) <;>
      · rw [List.length_append, List.length_singleton]
        omega
    | turnStill more wait still finish => exact .turnStill more wait still finish
    | turnFailed more wait _ finish => exact .turnFailed more wait reached finish
    | turnShort _ _ short => omega
    | turnEnded more wait early => exact .turnEnded more wait early

theorem Ran.many1_of_many (ran : m.Ran trace (.body (.many fold item release)) c s ending s')
    (unfailed : ∀ f s₁, ¬ m.Ran trace (.call item) c s (.done (.failure f)) s₁) :
    m.Ran trace (.body (.many1 fold item release)) c s ending s' := by
  have called {f : Failure} {s₁ : Run} :
      ¬ m.Ran trace (.waiting item []) c s (.done (.failure f)) s₁ := by
    intro wait
    cases wait with
    | awaited call => exact unfailed f s₁ call
    | unwound _ pass => exact unwind_ne_done pass _ rfl
  cases ran with
  | leaf leaf => cases leaf
  | repetition turns =>
    refine .repetition ?_
    cases turns with
    | turnsFull full finish => exact .turnsFull full finish
    | turnMoved more wait moved rest =>
      have reached := rest.turns_of_reached (Int.le_refl 1) (Int.natCast_nonneg _)
      exact .turnMoved more wait moved reached
    | turnStill more wait still finish => exact .turnStill more wait still finish
    | turnFailed _ wait | turnShort _ wait => exact absurd wait called
    | turnEnded more wait early => exact .turnEnded more wait early

end

structure Turns (m : Meaning) (ctx : Context) (fold : Fold) (item : HandleId)
    (release : Option Release) (h : HandleId) (c : Cursor) (s : Store) (g : Guard)
    (vs : List Value) (told : List Entry) (last : Cursor) (t : Store) (ending : Ending Result)
    (run : Run) : Prop where
  strides : m.Strides ⟨ctx.config, g⟩ item c s vs told last t
  final : m.LastTurn ⟨ctx.config, g⟩ fold item 0 release vs last t ending run
  few : vs.length + 1 ≤ c.input.size - c.pos + 1
  call : m.call ctx h c s =
    (ending, (run.after told).within ctx h (.many fold item release) c s g ending)

/-- How a repetition of any number of items, at `h`, and one of at least one item, at `k`, are run
from one place. -/
structure Greedy (m : Meaning) (ctx : Context) (fold : Fold) (item : HandleId)
    (release : Option Release) (h k : HandleId) (c : Cursor) (s : Store) : Prop where
  unfailed : ∀ f, (m.call ctx h c s).1 ≠ .done (.failure f)
  turns : ∀ g, ctx.guard.enter = .ok g → ∃ vs told last t ending run,
    m.Turns ctx fold item release h c s g vs told last t ending run
  /-- Where the item fails at once, one of them folds no values and the other calls no callback. -/
  failed : ∀ g f run, ctx.guard.enter = .ok g →
    m.call ⟨ctx.config, g⟩ item c s = (.done (.failure f), run) →
    m.call ctx k c s = (.done (.failure f),
      run.within ctx k (.many1 fold item release) c s g (.done (.failure f))) ∧
    (m.call ctx h c s).1 = (m.fold fold [] run.store).ending.map (.success · c) ∧
    (m.call ctx h c s).2.store = (m.fold fold [] run.store).store ∧
    (m.call ctx h c s).2.caused = run.caused ++ (m.fold fold [] run.store).events
  otherwise : (∀ g f, ctx.guard.enter = .ok g →
      (m.call ⟨ctx.config, g⟩ item c s).1 ≠ .done (.failure f)) →
    (m.call ctx k c s).1 = (m.call ctx h c s).1 ∧
    (m.call ctx k c s).2.store = (m.call ctx h c s).2.store ∧
    (m.call ctx k c s).2.guard = (m.call ctx h c s).2.guard ∧
    (m.call ctx k c s).2.caused = (m.call ctx h c s).2.caused
  /-- The values that this run folds are those of the item from each place where it comes to, up to
  one where it fails or stays: those of the strides, and that of a last turn that stays. -/
  maximal : s.grammar.Steady m [item] → ∀ v next, (m.call ctx h c s).1 = .done (.success v next) →
    ∃ g vs told last t run folded before, ctx.guard.enter = .ok g ∧
      m.Turns ctx fold item release h c s g vs told last t (.done (.success v next)) run ∧
      (folded = vs ∨ ∃ w, folded = vs ++ [w]) ∧ m.runFold fold folded before = (.done v, run) ∧
      ∀ s', s'.grammar = s.grammar → m.Walks ⟨ctx.config, g⟩ item s' c folded next ∧
        ∃ r, (m.call ⟨ctx.config, g⟩ item next s').1 = .done r ∧
          ∀ w after, r = .success w after → after.pos = next.pos

section

variable {h k : HandleId}

theorem many_turns (at_h : s.grammar.Holds h (.many fold item release)) {g : Guard}
    (enter : ctx.guard.enter = .ok g) : ∃ vs told last t ending run,
      m.Turns ctx fold item release h c s g vs told last t ending run := by
  obtain ⟨ending, run, ran⟩ := exists_ran_body m ctx.config.trace (.many fold item release) c
    ⟨s, g, []⟩
  have call := call_of_body at_h enter ran
  cases ran with
  | leaf leaf => cases leaf
  | repetition turns =>
    have none_held : m.Ran ctx.config.trace
        (.turns fold item 0 none release (.uniform release [])) c ⟨s, g, []⟩ ending run := turns
    obtain ⟨vs, told, last, t, run, strides, final, rfl⟩ :=
      none_held.strides ⟨ctx.config, g⟩ rfl
    rw [List.append_nil] at call
    exact ⟨vs, told, last, t, ending, run, strides, final,
      Nat.succ_le_succ strides.length_le, call⟩

theorem many_failed (at_h : s.grammar.Holds h (.many fold item release)) {g : Guard} {f : Failure}
    {run : Run} (enter : ctx.guard.enter = .ok g)
    (first : m.call ⟨ctx.config, g⟩ item c s = (.done (.failure f), run)) :
    m.call ctx h c s = ((m.fold fold [] run.store).ending.map (.success · c),
      (m.runFold fold [] run).2.within ctx h (.many fold item release) c s g
        ((m.fold fold [] run.store).ending.map (.success · c))) := by
  have call := ran_call (m := m) ⟨ctx.config, g⟩ item c s
  rw [first] at call
  have finish : m.Ran ctx.config.trace (.finish fold []) c run
      ((m.fold fold [] run.store).ending.map (.success · c)) (m.runFold fold [] run).2 :=
    .folded rfl
  exact call_of_body at_h enter
    (.repetition (.turnFailed nofun (.awaited call nofun) (Int.le_refl 0) finish))

theorem many1_failed (at_k : s.grammar.Holds k (.many1 fold item release)) {g : Guard}
    {f : Failure} {run : Run} (enter : ctx.guard.enter = .ok g)
    (first : m.call ⟨ctx.config, g⟩ item c s = (.done (.failure f), run)) :
    m.call ctx k c s = (.done (.failure f),
      run.within ctx k (.many1 fold item release) c s g (.done (.failure f))) := by
  have call := ran_call (m := m) ⟨ctx.config, g⟩ item c s
  rw [first] at call
  exact call_of_body at_k enter
    (.repetition (.turnShort nofun (.awaited call nofun) Int.one_pos (.gaveUp rfl)))

theorem many1_otherwise (at_h : s.grammar.Holds h (.many fold item release))
    (at_k : s.grammar.Holds k (.many1 fold item release))
    (unfailed : ∀ g f, ctx.guard.enter = .ok g →
      (m.call ⟨ctx.config, g⟩ item c s).1 ≠ .done (.failure f)) :
    (m.call ctx k c s).1 = (m.call ctx h c s).1 ∧
    (m.call ctx k c s).2.store = (m.call ctx h c s).2.store ∧
    (m.call ctx k c s).2.guard = (m.call ctx h c s).2.guard ∧
    (m.call ctx k c s).2.caused = (m.call ctx h c s).2.caused := by
  obtain ⟨fault, enter, many⟩ | ⟨g, ending, run, enter, ran, many⟩ := call_cases m ctx c at_h
  · obtain ⟨fault', enter', many1⟩ | ⟨g, _, _, enter', _⟩ := call_cases m ctx c at_k
    · rw [enter] at enter'
      cases enter'
      rw [many, many1]
      exact ⟨rfl, rfl, rfl, rfl⟩
    · rw [enter] at enter'
      cases enter'
  · have same := ran.many1_of_many fun f s₁ failed => by
      obtain ⟨_, first, _⟩ := failed.call_eq ⟨ctx.config, g⟩ rfl
      exact unfailed g f enter (congrArg Prod.fst first)
    rw [many, call_of_body at_k enter same]
    simp

theorem many_maximal (at_h : s.grammar.Holds h (.many fold item release))
    (steady : s.grammar.Steady m [item]) {v : Value} {next : Cursor}
    (success : (m.call ctx h c s).1 = .done (.success v next)) :
    ∃ g vs told last t run folded before, ctx.guard.enter = .ok g ∧
      m.Turns ctx fold item release h c s g vs told last t (.done (.success v next)) run ∧
      (folded = vs ∨ ∃ w, folded = vs ++ [w]) ∧ m.runFold fold folded before = (.done v, run) ∧
      ∀ s', s'.grammar = s.grammar → m.Walks ⟨ctx.config, g⟩ item s' c folded next ∧
        ∃ r, (m.call ⟨ctx.config, g⟩ item next s').1 = .done r ∧
          ∀ w after, r = .success w after → after.pos = next.pos := by
  obtain ⟨_, _, many⟩ | ⟨g, _, _, enter, _⟩ := call_cases m ctx c at_h
  · rw [many] at success
    cases success
  · obtain ⟨vs, told, last, t, ending, run, turns⟩ := many_turns (m := m) (c := c) at_h enter
    obtain rfl : ending = .done (.success v next) := by rw [← success, turns.call]
    obtain ⟨grammar, walks⟩ := turns.strides.walks steady rfl
    obtain ⟨folded, before, own, work, walks', r, again, stays⟩ :=
      turns.final.settled steady grammar walks
    refine ⟨g, vs, told, last, t, run, folded, before, enter, turns, own, work, fun s' same =>
      ⟨walks'.transfer steady same, r, ?_, stays⟩⟩
    rw [(call_steady steady same _ next).1, again]

end

/-- Repetitions of any number of items and of at least one are built alike. The first never fails.
It takes a turn for each character that is left at most, and one more; and where its callbacks are
steady it stops where no more could be had. The second differs only where the item fails at once. -/
theorem call_many (m : Meaning) {fold : Fold} {item : HandleId} {release : Option Release}
    (folds : fold.callable = true) (releases : release.all Release.callable = true) :
    ((Build.many fold (.parser item) release).Builds fun h g =>
      g.Holds h (.many fold item release)) ∧
    ((Build.many1 fold (.parser item) release).Builds fun k g =>
      g.Holds k (.many1 fold item release)) ∧
    ∀ (s : Store) (h k : HandleId) (ctx : Context) (c : Cursor),
      s.grammar.Holds h (.many fold item release) →
      s.grammar.Holds k (.many1 fold item release) →
      m.Greedy ctx fold item release h k c s := by
  refine ⟨Build.builds_repetition .many folds releases item 0 none,
    Build.builds_repetition .many1 folds releases item 1 none, ?_⟩
  intro s h k ctx c at_h at_k
  refine ⟨fun f failed => ?_, fun g enter => many_turns at_h enter, ?_, many1_otherwise at_h at_k,
    fun steady v next => many_maximal at_h steady⟩
  · obtain ⟨_, _, many⟩ | ⟨g, _, _, enter, _⟩ := call_cases m ctx c at_h
    · rw [many] at failed
      cases failed
    · obtain ⟨_, _, _, _, _, _, turns⟩ := many_turns (m := m) (c := c) at_h enter
      rw [turns.call] at failed
      exact turns.final.unfailed f failed
  · intro g f run enter first
    refine ⟨many1_failed at_k enter first, ?_⟩
    rw [many_failed at_h enter first]
    refine ⟨rfl, Run.store_within .., ?_⟩
    rw [Run.caused_within]
    exact Run.caused_record ⟨_, run.guard, run.journal⟩ _

def rows : Store where
  grammar := ⟨#[{ status := .defined ⟨0, .literal "a"⟩ },
    { status := .defined ⟨1, .apply 0 (.acts [.log "letter"])⟩ },
    { status := .defined ⟨2, .many .list 1 none⟩ },
    { status := .defined ⟨3, .many1 .list 1 none⟩ }]⟩

theorem rows_steady : rows.grammar.Steady usual [1] := by
  have logs : (usual.steadyIn rows.grammar).func (.acts [.log "letter"]) :=
    fun v => ⟨.done v, fun s grammar => ⟨rfl, grammar⟩⟩
  have lists : (usual.steadyIn rows.grammar).fold .list :=
    fun vs => ⟨.done (.list vs), fun s grammar => ⟨rfl, grammar⟩⟩
  refine Grammar.steady_of_handles _ fun handle mem body status => ?_
  fin_cases mem <;> cases status <;> first | exact logs | exact ⟨lists, nofun⟩ | trivial

/-- Two letters are read, and the third place has none. Where there is no letter at all, any number
of them is none of them, and at least one is not to be had. -/
theorem rows_many :
    Fold.list.callable = true ∧ (none : Option Release).all Release.callable = true ∧
    rows.grammar.Holds 2 (.many .list 1 none) ∧ rows.grammar.Holds 3 (.many1 .list 1 none) ∧
    usual.Greedy shallow .list 1 none 2 3 (.start #['a', 'a', 'b']) rows ∧
    (usual.call shallow 2 (.start #['a', 'a', 'b']) rows).1 =
      .done (.success (.list [.text "a", .text "a"]) ⟨#['a', 'a', 'b'], 2, by decide⟩) ∧
    (∃ g, ∀ t, t.grammar = rows.grammar →
      usual.Walks ⟨shallow.config, g⟩ 1 t (.start #['a', 'a', 'b']) [.text "a", .text "a"]
        ⟨#['a', 'a', 'b'], 2, by decide⟩) ∧
    usual.Greedy shallow .list 1 none 2 3 (.start #['b']) rows ∧
    (usual.call shallow 2 (.start #['b']) rows).1 = .done (.success (.list []) (.start #['b'])) ∧
    (usual.call shallow 3 (.start #['b']) rows).1 = .done (.failure ⟨.singleton "a", 0⟩) := by
  have many : rows.grammar.Holds 2 (.many .list 1 none) := ⟨_, rfl, rfl⟩
  have many1 : rows.grammar.Holds 3 (.many1 .list 1 none) := ⟨_, rfl, rfl⟩
  obtain ⟨_, _, greedy⟩ := @call_many usual .list 1 none rfl rfl
  have two : (usual.call shallow 2 (.start #['a', 'a', 'b']) rows).1 =
      .done (.success (.list [.text "a", .text "a"]) ⟨#['a', 'a', 'b'], 2, by decide⟩) := by cbv
  have here := greedy rows 2 3 shallow (.start #['a', 'a', 'b']) many many1
  obtain ⟨g, _, _, _, _, _, folded, _, _, _, _, work, places⟩ := here.maximal rows_steady _ _ two
  have made : Ending.done (Value.list folded) = .done (.list [.text "a", .text "a"]) :=
    congrArg Prod.fst work
  obtain rfl := Value.list.inj (Ending.done.inj made)
  exact ⟨rfl, rfl, many, many1, here, two, ⟨g, fun t same => (places t same).1⟩,
    greedy rows 2 3 shallow (.start #['b']) many many1, by cbv, by cbv⟩

end Meaning

end Peg
