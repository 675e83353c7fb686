import Mathlib.Data.List.Forall2
import Peg.Proofs.Run.Calls
import Peg.Proofs.Run.Determined
import Peg.Proofs.Run.Frames

/-!
Two runs side by side. A pairing says which handles, cursors, failures and moments of one run stand
for which of another. Where each step that a run can take by itself has its counterpart in the other
run, so has the whole run, and both end alike. A fact about two runs is shown by showing this of
their steps, if need be only of those of runs whose journal is of some kind.
-/

namespace Peg

/-- Nodes of one kind with the same data, whose children are related one by one. Their labels and
messages are related only. -/
inductive Node.Alike (child : HandleId → HandleId → Prop) (label : String → String → Prop) :
    Node → Node → Prop where
  | literal (text : String) : Alike child label (.literal text) (.literal text)
  | pure (v : Value) : Alike child label (.pure v) (.pure v)
  | fail {l l' : String} : label l l' → Alike child label (.fail l) (.fail l')
  | eof : Alike child label .eof .eof
  | choice {h k : HandleId} {hs ks : List HandleId} : List.Forall₂ child (h :: hs) (k :: ks) →
      Alike child label (.choice h hs) (.choice k ks)
  | sequence {fold : Fold} {items items' : List (HandleId × Option Release)} :
      List.Forall₂ (fun x y => child x.1 y.1 ∧ x.2 = y.2) items items' →
      Alike child label (.sequence fold items) (.sequence fold items')
  | repetition {fold : Fold} {h k : HandleId} {least : Int} {most : Option Int}
      {release : Option Release} : child h k →
      Alike child label (.repetition fold h least most release)
        (.repetition fold k least most release)
  | apply {h k : HandleId} {func : Func} : child h k →
      Alike child label (.apply h func) (.apply k func)
  | expect {h k : HandleId} {l l' : String} : child h k → label l l' →
      Alike child label (.expect h l) (.expect k l')

namespace Node

variable {child : HandleId → HandleId → Prop} {label : String → String → Prop} {n n' : Node}

theorem alike_refl {n : Node} (children : ∀ h ∈ n.children, child h h) (labels : ∀ l, label l l) :
    n.Alike child label n := by
  cases n with
  | literal text => exact .literal text
  | pure v => exact .pure v
  | fail message => exact .fail (labels message)
  | eof => exact .eof
  | choice first others => exact .choice (List.forall₂_same.mpr children)
  | sequence fold items =>
    exact .sequence (List.forall₂_same.mpr fun item mem =>
      ⟨children _ (List.mem_map_of_mem mem), rfl⟩)
  | repetition fold item => exact .repetition (children item (List.mem_cons_self ..))
  | apply item => exact .apply (children item (List.mem_cons_self ..))
  | expect item message => exact .expect (children item (List.mem_cons_self ..)) (labels message)

theorem Alike.mono {child' : HandleId → HandleId → Prop} {label' : String → String → Prop}
    (alike : n.Alike child label n') (children : ∀ h k, child h k → child' h k)
    (labels : ∀ l l', label l l' → label' l l') : n.Alike child' label' n' := by
  cases alike with
  | literal text => exact .literal text
  | pure v => exact .pure v
  | fail same => exact .fail (labels _ _ same)
  | eof => exact .eof
  | choice hs => exact .choice (hs.imp children)
  | sequence items => exact .sequence (items.imp fun _ _ item => item.imp_left (children _ _))
  | repetition item => exact .repetition (children _ _ item)
  | apply item => exact .apply (children _ _ item)
  | expect item same => exact .expect (children _ _ item) (labels _ _ same)

theorem Alike.eq (alike : n.Alike Eq Eq n') : n' = n := by
  cases alike with
  | literal | pure | eof => rfl
  | fail same => rw [same]
  | choice children =>
    rw [List.forall₂_eq_eq_eq] at children
    cases children
    rfl
  | sequence items =>
    simp only [← Prod.ext_iff] at items
    rw [List.forall₂_eq_eq_eq] at items
    rw [items]
  | repetition child | apply child => rw [child]
  | expect child label => rw [child, label]

theorem Alike.leaf {n n' : Node} {c : Cursor} {r : Result} (alike : n.Alike child Eq n')
    (leaf : Leaf n c r) : Leaf n' c r := by
  cases alike with
  | literal | pure | eof => exact leaf
  | fail same => exact same ▸ leaf
  | choice | sequence | repetition | apply | expect => cases leaf

end Node

structure Callbacks where
  release : Release → Prop
  fold : Fold → Prop
  func : Func → Prop

def Callbacks.all : Callbacks := ⟨fun _ => True, fun _ => True, fun _ => True⟩

def Callbacks.Releases (among : Callbacks) (release : Option Release) : Prop :=
  ∀ r ∈ release, among.release r

def Node.Calls (among : Callbacks) : Node → Prop
  | .sequence fold items => among.fold fold ∧ ∀ item ∈ items, among.Releases item.2
  | .repetition fold _ _ _ release => among.fold fold ∧ among.Releases release
  | .apply _ func => among.func func
  | _ => True

theorem Node.calls_all (n : Node) : n.Calls .all := by
  cases n with
  | sequence => exact ⟨trivial, fun _ _ _ _ => trivial⟩
  | repetition => exact ⟨trivial, fun _ _ => trivial⟩
  | apply => exact trivial
  | literal | pure | fail | eof | choice | expect => exact trivial

/-- The nodes at some handles call callbacks of one kind only. -/
def Grammar.Calls (among : Callbacks) (g : Grammar) (at_handle : HandleId → Prop) : Prop :=
  ∀ h body, at_handle h → (g.get h).status = .defined body → body.node.Calls among

def Held.Calls (among : Callbacks) (held : Held) : Prop := ∀ x ∈ held, among.Releases x.2

namespace Held.Calls

variable {among : Callbacks} {held : Held}

theorem nil : Held.Calls among [] := fun _ mem => absurd mem List.not_mem_nil

theorem append (calls : held.Calls among) {v : Value} {release : Option Release}
    (last : among.Releases release) : Held.Calls among (held ++ [(v, release)]) :=
  List.forall_mem_append.mpr ⟨calls, List.forall_mem_singleton.mpr last⟩

end Held.Calls

/-- What stands for what in two runs side by side, and the callbacks that both may call. -/
structure Pairing where
  handle : HandleId → HandleId → Prop
  label : String → String → Prop
  cursor : Cursor → Cursor → Prop
  failure : Failure → Failure → Prop
  run : Run → Run → Prop
  among : Callbacks

namespace Pairing

variable (P : Pairing)

inductive Results : Result → Result → Prop where
  | success {v : Value} {next next' : Cursor} : P.cursor next next' →
      Results (.success v next) (.success v next')
  | failure {f f' : Failure} : P.failure f f' → Results (.failure f) (.failure f')

inductive Endings : Ending Result → Ending Result → Prop where
  | done {r r' : Result} : P.Results r r' → Endings (.done r) (.done r')
  | raised (fault : Fault) : Endings (.raised fault) (.raised fault)
  | aborted (message : String) : Endings (.aborted message) (.aborted message)

inductive Stages : Stage → Stage → Prop where
  | call {h k} : P.handle h k → Stages (.call h) (.call k)
  | body {n n'} : n.Alike P.handle P.label n' → n.Calls P.among → Stages (.body n) (.body n')
  | alternatives {failed failed' hs ks} : Option.Rel P.failure failed failed' →
      List.Forall₂ P.handle hs ks → Stages (.alternatives failed hs) (.alternatives failed' ks)
  | items {fold items items' held} : P.among.fold fold →
      List.Forall₂ (fun x y => P.handle x.1 y.1 ∧ x.2 = y.2) items items' →
      (∀ item ∈ items, P.among.Releases item.2) → held.Calls P.among →
      Stages (.items fold items held) (.items fold items' held)
  | turns {fold h k least most release held} : P.among.fold fold → P.handle h k →
      P.among.Releases release → held.Calls P.among →
      Stages (.turns fold h least most release held) (.turns fold k least most release held)
  | waiting {h k held} : P.handle h k → held.Calls P.among →
      Stages (.waiting h held) (.waiting k held)
  | finish {fold held} : P.among.fold fold → Stages (.finish fold held) (.finish fold held)
  | giveUp {held f f'} : P.failure f f' → held.Calls P.among →
      Stages (.giveUp held f) (.giveUp held f')

structure Agrees : Prop where
  leaf : ∀ {n n' c c' r}, n.Alike P.handle P.label n' → P.cursor c c' → Leaf n c r →
    ∃ r', Leaf n' c' r' ∧ P.Results r r'
  still : ∀ {c c' next next'}, P.cursor c c' → P.cursor next next' →
    (next'.pos = c'.pos ↔ next.pos = c.pos)
  unmoved : ∀ {c c' f f'}, P.cursor c c' → P.failure f f' →
    (f'.position = c'.pos ↔ f.position = c.pos)
  merge : ∀ {f f' g g'}, P.failure f f' → P.failure g g' → P.failure (f.merge g) (f'.merge g')
  labelled : ∀ {c c' l l'}, P.cursor c c' → P.label l l' →
    P.failure ⟨.singleton l, c.pos⟩ ⟨.singleton l', c'.pos⟩

/-- Every step that a run can take by itself has its counterpart, as long as its journal is `good`:
with a journal, those that it goes on from are good too. -/
structure Simulates (m m' : Meaning) (trace trace' : Bool) (good : List Entry → Prop) : Prop
    extends P.Agrees where
  before : ∀ {journal journal'}, journal <:+ journal' → good journal' → good journal
  missing : ∀ {s t h k fault}, P.run s t → P.handle h k →
    (s.store.grammar.get h).fault? = some fault →
    (t.store.grammar.get k).fault? = some fault ∧
      P.run (s.record (.missing h fault s.guard.depth)) (t.record (.missing k fault t.guard.depth))
  found : ∀ {s t h k body}, P.run s t → P.handle h k →
    (s.store.grammar.get h).status = .defined body →
    ∃ body', (t.store.grammar.get k).status = .defined body' ∧
      body.node.Alike P.handle P.label body'.node ∧ body.node.Calls P.among
  refused : ∀ {s t h k c c' fault}, P.run s t → P.handle h k → P.cursor c c' →
    s.guard.enter = .error fault → good (s.record (.refused h c.pos s.guard.depth)).journal →
    t.guard.enter = .error fault ∧
      P.run (s.record (.refused h c.pos s.guard.depth)) (t.record (.refused k c'.pos t.guard.depth))
  opened : ∀ {s t h k n n' c c' g}, P.run s t → P.handle h k → n.Alike P.handle P.label n' →
    P.cursor c c' → s.guard.enter = .ok g →
    ∃ g', t.guard.enter = .ok g' ∧ P.run (s.opened trace h n c g) (t.opened trace' k n' c' g')
  closed : ∀ {s t h k c c' ending ending'}, P.run s t → P.handle h k → P.cursor c c' →
    P.Endings ending ending' → P.run (s.closed trace h c ending) (t.closed trace' k c' ending')
  release : ∀ {r v s s' t ending}, P.among.release r → P.run s t →
    m.runRelease r v s = (ending, s') → good s'.journal →
    ∃ t', m'.runRelease r v t = (ending, t') ∧ P.run s' t'
  fold : ∀ {f vs s s' t ending}, P.among.fold f → P.run s t →
    m.runFold f vs s = (ending, s') → good s'.journal →
    ∃ t', m'.runFold f vs t = (ending, t') ∧ P.run s' t'
  apply : ∀ {f v s s' t ending}, P.among.func f → P.run s t →
    m.runApply f v s = (ending, s') → good s'.journal →
    ∃ t', m'.runApply f v t = (ending, t') ∧ P.run s' t'

variable {P}

namespace Endings

variable {ending ending' : Ending Result}

theorem eq_raised_iff (alike : P.Endings ending ending') (fault : Fault) :
    ending' = .raised fault ↔ ending = .raised fault := by
  cases alike <;> simp

theorem is_done_iff (alike : P.Endings ending ending') :
    (∃ r, ending' = .done r) ↔ ∃ r, ending = .done r := by
  cases alike <;> simp

theorem is_failure_iff (alike : P.Endings ending ending') :
    (∃ f, ending' = .done (.failure f)) ↔ ∃ f, ending = .done (.failure f) := by
  cases alike with
  | done results => cases results <;> simp
  | raised | aborted => simp

theorem is_success_iff (alike : P.Endings ending ending') :
    (∃ v next, ending' = .done (.success v next)) ↔
      ∃ v next, ending = .done (.success v next) := by
  cases alike with
  | done results => cases results <;> simp
  | raised | aborted => simp

theorem of_value (ending : Ending Value) {c c' : Cursor} (cursor : P.cursor c c') :
    P.Endings (ending.map (.success · c)) (ending.map (.success · c')) := by
  cases ending with
  | done v => exact .done (.success cursor)
  | raised fault => exact .raised fault
  | aborted message => exact .aborted message

end Endings

namespace Simulates

open Meaning

variable {m m' : Meaning} {trace trace' : Bool} {good : List Entry → Prop}
  (simulates : P.Simulates m m' trace trace' good)
include simulates

theorem still_iff {c c' next next' : Cursor} (cursor : P.cursor c c')
    (cursor' : P.cursor next next') (most : Option Int) :
    Still most c' next' ↔ Still most c next :=
  and_congr_right fun _ => simulates.still cursor cursor'

theorem join {failed failed' : Option Failure} {f f' : Failure}
    (before : Option.Rel P.failure failed failed') (failure : P.failure f f') :
    P.failure (Failure.join failed f) (Failure.join failed' f') := by
  cases before with
  | none => exact failure
  | some first => exact simulates.merge first failure

theorem labelled_ending {ending ending' : Ending Result} {c c' : Cursor} {l l' : String}
    (cursor : P.cursor c c') (label : P.label l l') (alike : P.Endings ending ending') :
    P.Endings (ending.map (Result.labelled l c)) (ending'.map (Result.labelled l' c')) := by
  cases alike with
  | raised fault => exact .raised fault
  | aborted message => exact .aborted message
  | done results =>
    cases results with
    | success next => exact .done (.success next)
    | @failure f f' failure =>
      simp only [Ending.map, Result.labelled, simulates.unmoved cursor failure]
      by_cases start : f.position = c.pos
      · simp only [if_pos start]
        exact .done (.failure (simulates.labelled cursor label))
      · simp only [if_neg start]
        exact .done (.failure failure)

theorem releaseAll {held : Held} {s s' t : Run} {ending : Ending Unit}
    (calls : held.Calls P.among) (run : P.run s t) (pass : m.releaseAll held s = (ending, s'))
    (late : good s'.journal) :
    ∃ t', m'.releaseAll held t = (ending, t') ∧ P.run s' t' := by
  induction held generalizing s t with
  | nil =>
    cases pass
    exact ⟨t, rfl, run⟩
  | cons item held ih =>
    have rest_calls : Held.Calls P.among held := fun x mem => calls x (List.mem_cons_of_mem _ mem)
    obtain ⟨v, _ | r⟩ := item
    · exact ih rest_calls run pass
    · have among : P.among.release r := calls _ (List.mem_cons_self ..) r rfl
      obtain ⟨s₁, first, rest⟩ | ⟨first, stopped⟩ := releaseAll_cons_some pass
      · have early := simulates.before ((steps_journal.spans false).releaseAll rest) late
        obtain ⟨t₁, first', run₁⟩ := simulates.release among run first early
        obtain ⟨t', rest', run'⟩ := ih rest_calls run₁ rest
        exact ⟨t', (Proc.andThen_done first').trans rest', run'⟩
      · obtain ⟨t', first', run'⟩ := simulates.release among run first late
        refine ⟨t', ?_, run'⟩
        rcases ending with _ | fault | message
        · exact absurd rfl stopped
        · exact Proc.andThen_raised first'
        · exact Proc.andThen_aborted first'

theorem unwind {held : Held} {fault : Fault} {s s' t : Run} {ending : Ending Result}
    (calls : held.Calls P.among) (run : P.run s t) (pass : m.unwind held fault s = (ending, s'))
    (late : good s'.journal) :
    ∃ t', m'.unwind held fault t = (ending, t') ∧ P.Endings ending ending ∧ P.run s' t' := by
  obtain ⟨released, rfl⟩ | ⟨other, released, rfl⟩ | ⟨message, released, rfl⟩ := unwind_cases pass
  · obtain ⟨t', released', run'⟩ := simulates.releaseAll calls run released late
    exact ⟨t', Proc.andThen_done released', .raised fault, run'⟩
  · obtain ⟨t', released', run'⟩ := simulates.releaseAll calls run released late
    exact ⟨t', Proc.andThen_raised released', .raised other, run'⟩
  · obtain ⟨t', released', run'⟩ := simulates.releaseAll calls run released late
    exact ⟨t', Proc.andThen_aborted released', .aborted message, run'⟩

theorem giveUp {held : Held} {f f' : Failure} {s s' t : Run} {ending : Ending Result}
    (calls : held.Calls P.among) (failure : P.failure f f') (run : P.run s t)
    (pass : m.giveUp held f s = (ending, s')) (late : good s'.journal) :
    ∃ ending' t', m'.giveUp held f' t = (ending', t') ∧ P.Endings ending ending' ∧ P.run s' t' := by
  obtain ⟨released, rfl⟩ | ⟨fault, s₁, released, again⟩ | ⟨message, released, rfl⟩ :=
    giveUp_cases pass
  · obtain ⟨t', released', run'⟩ := simulates.releaseAll calls run released late
    exact ⟨_, t', giveUp_of_done f' released', .done (.failure failure), run'⟩
  · have early := simulates.before (steps_journal.unwind again) late
    obtain ⟨t₁, released', run₁⟩ := simulates.releaseAll calls run released early
    obtain ⟨t', again', alike, run'⟩ := simulates.unwind calls run₁ again late
    exact ⟨_, t', (giveUp_of_raised f' released').trans again', alike, run'⟩
  · obtain ⟨t', released', run'⟩ := simulates.releaseAll calls run released late
    exact ⟨_, t', giveUp_of_aborted f' released', .aborted message, run'⟩

theorem ran {stage stage' : Stage} {c c' : Cursor} {s s' t : Run} {ending : Ending Result}
    (ran : m.Ran trace stage c s ending s') (stages : P.Stages stage stage')
    (cursor : P.cursor c c') (run : P.run s t) (late : good s'.journal) :
    ∃ ending' t', m'.Ran trace' stage' c' t ending' t' ∧ P.Endings ending ending' ∧
      P.run s' t' := by
  -- What is good of a journal is good of any earlier one, which is what a first part leaves.
  induction ran generalizing stage' c' t with
  | missing missing =>
    cases stages with
    | call handle =>
      obtain ⟨missing', run'⟩ := simulates.missing run handle missing
      exact ⟨_, _, .missing missing', .raised _, run'⟩
  | @refused h c s body fault status enter =>
    cases stages with
    | call handle =>
      obtain ⟨body', status', _⟩ := simulates.found run handle status
      obtain ⟨enter', run'⟩ := simulates.refused run handle cursor enter late
      exact ⟨_, _, .refused status' enter', .raised fault, run'⟩
  | @entered h c s body g ending s' status enter _ ih =>
    cases stages with
    | call handle =>
      obtain ⟨body', status', nodes, calls⟩ := simulates.found run handle status
      obtain ⟨g', enter', run₁⟩ := simulates.opened run handle nodes cursor enter
      have early := simulates.before ((steps_journal (m := m)).closed s' trace h c ending) late
      obtain ⟨_, _, inside, alike, run'⟩ := ih (.body nodes calls) cursor run₁ early
      exact ⟨_, _, .entered status' enter' inside, alike, simulates.closed run' handle cursor alike⟩
  | leaf leaf =>
    cases stages with
    | body nodes =>
      obtain ⟨r', leaf', results⟩ := simulates.leaf nodes cursor leaf
      exact ⟨_, _, .leaf leaf', .done results, run⟩
  | choice _ ih =>
    cases stages with
    | body nodes =>
      cases nodes with
      | choice children =>
        obtain ⟨_, _, inside, alike, run'⟩ := ih (.alternatives .none children) cursor run late
        exact ⟨_, _, .choice inside, alike, run'⟩
  | exhausted =>
    cases stages with
    | alternatives failed children =>
      cases failed with
      | some failure =>
        cases children
        exact ⟨_, _, .exhausted, .done (.failure failure), run⟩
  | settled _ unfailed ih =>
    cases stages with
    | alternatives failed children =>
      cases children with
      | cons child children =>
        obtain ⟨_, _, first, alike, run'⟩ := ih (.call child) cursor run late
        refine ⟨_, _, .settled first fun f' failed => ?_, alike, run'⟩
        obtain ⟨f, failed⟩ := alike.is_failure_iff.mp ⟨f', failed⟩
        exact unfailed f failed
  | passed _ rest ih ih' =>
    cases stages with
    | alternatives failed children =>
      cases children with
      | cons child children =>
        have early := simulates.before rest.journal late
        obtain ⟨_, _, first, alike, run₁⟩ := ih (.call child) cursor run early
        cases alike with
        | done results =>
          cases results with
          | failure failure =>
            have joined := simulates.join failed failure
            obtain ⟨_, _, rest, alike, run'⟩ :=
              ih' (.alternatives (.some joined) children) cursor run₁ late
            exact ⟨_, _, .passed first rest, alike, run'⟩
  | awaited _ unraised ih =>
    cases stages with
    | waiting handle calls =>
      obtain ⟨_, _, call, alike, run'⟩ := ih (.call handle) cursor run late
      exact ⟨_, _, .awaited call fun fault raised =>
        unraised fault ((alike.eq_raised_iff fault).mp raised), alike, run'⟩
  | unwound _ pass ih =>
    cases stages with
    | waiting handle calls =>
      have early := simulates.before (steps_journal.unwind pass) late
      obtain ⟨_, t₁, call, alike, run₁⟩ := ih (.call handle) cursor run early
      cases alike with
      | raised fault =>
        obtain ⟨t', pass', alike, run'⟩ := simulates.unwind calls run₁ pass late
        exact ⟨_, _, .unwound call pass', alike, run'⟩
  | folded work =>
    cases stages with
    | finish among =>
      obtain ⟨t', work', run'⟩ := simulates.fold among run work late
      exact ⟨_, _, .folded work', .of_value _ cursor, run'⟩
  | gaveUp pass =>
    cases stages with
    | giveUp failure calls =>
      obtain ⟨_, t', pass', alike, run'⟩ := simulates.giveUp calls failure run pass late
      exact ⟨_, _, .gaveUp pass', alike, run'⟩
  | sequence _ ih =>
    cases stages with
    | body nodes calls =>
      cases nodes with
      | sequence items =>
        obtain ⟨_, _, inside, alike, run'⟩ := ih (.items calls.1 items calls.2 .nil) cursor run late
        exact ⟨_, _, .sequence inside, alike, run'⟩
  | itemsDone _ ih =>
    cases stages with
    | items among items =>
      cases items
      obtain ⟨_, _, inside, alike, run'⟩ := ih (.finish among) cursor run late
      exact ⟨_, _, .itemsDone inside, alike, run'⟩
  | itemDone _ rest ih ih' =>
    cases stages with
    | items among items releases calls =>
      cases items with
      | @cons _ item' _ items' item items =>
        obtain ⟨k, r'⟩ := item'
        obtain ⟨handle, rfl⟩ := item
        have early := simulates.before rest.journal late
        obtain ⟨_, _, first, alike, run₁⟩ := ih (.waiting handle calls) cursor run early
        cases alike with
        | done results =>
          cases results with
          | success next =>
            obtain ⟨_, _, rest, alike, run'⟩ := ih' (.items among items
              (fun item mem => releases item (List.mem_cons_of_mem _ mem))
              (calls.append (releases _ (List.mem_cons_self ..)))) next run₁ late
            exact ⟨_, _, .itemDone first rest, alike, run'⟩
  | itemFailed _ rest ih ih' =>
    cases stages with
    | items among items releases calls =>
      cases items with
      | @cons _ item' _ items' item items =>
        obtain ⟨k, r'⟩ := item'
        have early := simulates.before rest.journal late
        obtain ⟨_, _, first, alike, run₁⟩ := ih (.waiting item.1 calls) cursor run early
        cases alike with
        | done results =>
          cases results with
          | failure failure =>
            obtain ⟨_, _, rest, alike, run'⟩ := ih' (.giveUp failure calls) cursor run₁ late
            exact ⟨_, _, .itemFailed first rest, alike, run'⟩
  | itemEnded _ early ih =>
    cases stages with
    | items among items releases calls =>
      cases items with
      | @cons _ item' _ items' item items =>
        obtain ⟨k, r'⟩ := item'
        obtain ⟨_, _, first, alike, run'⟩ := ih (.waiting item.1 calls) cursor run late
        refine ⟨_, _, .itemEnded first fun r' done => ?_, alike, run'⟩
        obtain ⟨r, done⟩ := alike.is_done_iff.mp ⟨r', done⟩
        exact early r done
  | repetition _ ih =>
    cases stages with
    | body nodes calls =>
      cases nodes with
      | repetition handle =>
        obtain ⟨_, _, inside, alike, run'⟩ :=
          ih (.turns calls.1 handle calls.2 .nil) cursor run late
        exact ⟨_, _, .repetition inside, alike, run'⟩
  | turnsFull full _ ih =>
    cases stages with
    | turns among =>
      obtain ⟨_, _, inside, alike, run'⟩ := ih (.finish among) cursor run late
      exact ⟨_, _, .turnsFull full inside, alike, run'⟩
  | turnMoved more _ moved rest ih ih' =>
    cases stages with
    | turns among handle release calls =>
      have early := simulates.before rest.journal late
      obtain ⟨_, _, first, alike, run₁⟩ := ih (.waiting handle calls) cursor run early
      cases alike with
      | done results =>
        cases results with
        | success next =>
          obtain ⟨_, _, rest, alike, run'⟩ :=
            ih' (.turns among handle release (calls.append release)) next run₁ late
          exact ⟨_, _, .turnMoved more first (mt (simulates.still_iff cursor next _).mp moved) rest,
            alike, run'⟩
  | turnStill more _ still rest ih ih' =>
    cases stages with
    | turns among handle release calls =>
      have early := simulates.before rest.journal late
      obtain ⟨_, _, first, alike, run₁⟩ := ih (.waiting handle calls) cursor run early
      cases alike with
      | done results =>
        cases results with
        | success next =>
          obtain ⟨_, _, rest, alike, run'⟩ := ih' (.finish among) next run₁ late
          exact ⟨_, _, .turnStill more first ((simulates.still_iff cursor next _).mpr still) rest,
            alike, run'⟩
  | turnFailed more _ enough rest ih ih' =>
    cases stages with
    | turns among handle release calls =>
      have early := simulates.before rest.journal late
      obtain ⟨_, _, first, alike, run₁⟩ := ih (.waiting handle calls) cursor run early
      cases alike with
      | done results =>
        cases results with
        | failure =>
          obtain ⟨_, _, rest, alike, run'⟩ := ih' (.finish among) cursor run₁ late
          exact ⟨_, _, .turnFailed more first enough rest, alike, run'⟩
  | turnShort more _ short rest ih ih' =>
    cases stages with
    | turns among handle release calls =>
      have early := simulates.before rest.journal late
      obtain ⟨_, _, first, alike, run₁⟩ := ih (.waiting handle calls) cursor run early
      cases alike with
      | done results =>
        cases results with
        | failure failure =>
          obtain ⟨_, _, rest, alike, run'⟩ := ih' (.giveUp failure calls) cursor run₁ late
          exact ⟨_, _, .turnShort more first short rest, alike, run'⟩
  | turnEnded more _ early ih =>
    cases stages with
    | turns among handle release calls =>
      obtain ⟨_, _, first, alike, run'⟩ := ih (.waiting handle calls) cursor run late
      refine ⟨_, _, .turnEnded more first fun r' done => ?_, alike, run'⟩
      obtain ⟨r, done⟩ := alike.is_done_iff.mp ⟨r', done⟩
      exact early r done
  | applied _ work ih =>
    cases stages with
    | body nodes calls =>
      cases nodes with
      | apply handle =>
        have early := simulates.before (steps_journal.apply work) late
        obtain ⟨_, _, call, alike, run₁⟩ := ih (.call handle) cursor run early
        cases alike with
        | done results =>
          cases results with
          | success next =>
            obtain ⟨t', work', run'⟩ := simulates.apply calls run₁ work late
            exact ⟨_, _, .applied call work', .of_value _ next, run'⟩
  | unapplied _ unsuccessful ih =>
    cases stages with
    | body nodes =>
      cases nodes with
      | apply handle =>
        obtain ⟨_, _, call, alike, run'⟩ := ih (.call handle) cursor run late
        refine ⟨_, _, .unapplied call fun v' next' done => ?_, alike, run'⟩
        obtain ⟨v, next, done⟩ := alike.is_success_iff.mp ⟨v', next', done⟩
        exact unsuccessful v next done
  | expect _ ih =>
    cases stages with
    | body nodes =>
      cases nodes with
      | expect handle label =>
        obtain ⟨_, _, call, alike, run'⟩ := ih (.call handle) cursor run late
        exact ⟨_, _, .expect call, simulates.labelled_ending cursor label alike, run'⟩

theorem call (ctx ctx' : Context) (h k : HandleId) (c c' : Cursor) (s t : Store)
    (traced : ctx.config.trace = trace) (traced' : ctx'.config.trace = trace')
    (handle : P.handle h k) (cursor : P.cursor c c')
    (run : P.run ⟨s, ctx.guard, []⟩ ⟨t, ctx'.guard, []⟩)
    (late : good (m.call ctx h c s).2.journal) :
    P.Endings (m.call ctx h c s).1 (m'.call ctx' k c' t).1 ∧
      P.run (m.call ctx h c s).2 (m'.call ctx' k c' t).2 := by
  subst traced traced'
  obtain ⟨ending', t', ran', alike, run'⟩ :=
    simulates.ran (ran_call ctx h c s) (.call handle) cursor run late
  obtain ⟨rfl, rfl⟩ := (ran_call ctx' k c' t).unique ran'
  exact ⟨alike, run'⟩

end Simulates

def same (R : HandleId → HandleId → Prop) (among : Callbacks) (run : Run → Run → Prop) :
    Pairing where
  handle := R
  label := Eq
  cursor := Eq
  failure := Eq
  run := run
  among := among

section

variable {R : HandleId → HandleId → Prop} {among : Callbacks} {run : Run → Run → Prop}

theorem results_same (r : Result) : (same R among run).Results r r := by
  cases r with
  | success => exact .success rfl
  | failure => exact .failure rfl

theorem eq_of_same {ending ending' : Ending Result}
    (alike : (same R among run).Endings ending ending') : ending' = ending := by
  cases alike with
  | done results =>
    cases results with
    | success next =>
      cases next
      rfl
    | failure failure =>
      cases failure
      rfl
  | raised | aborted => rfl

theorem agrees_same : (same R among run).Agrees where
  leaf nodes cursor leaf := by
    cases cursor
    exact ⟨_, nodes.leaf leaf, results_same _⟩
  still cursor cursor' := by
    cases cursor
    cases cursor'
    rfl
  unmoved cursor failure := by
    cases cursor
    cases failure
    rfl
  merge failure failure' := by
    cases failure
    cases failure'
    rfl
  labelled cursor label := by
    cases cursor
    cases label
    rfl

end

end Pairing

/-- A view of the runs of `m` shows them as runs of `m'`, with the store as it is: each step of a
run that keeps to a condition is seen as the same step. -/
structure Views (m m' : Meaning) (trace trace' : Bool) (good : List Entry → Prop)
    (keeps : Run → Prop) (view : Run → Run) : Prop where
  before : ∀ {journal journal'}, journal <:+ journal' → good journal' → good journal
  store : ∀ s, (view s).store = s.store
  missing : ∀ {s} h fault, keeps s → keeps (s.record (.missing h fault s.guard.depth)) ∧
    view (s.record (.missing h fault s.guard.depth)) =
      (view s).record (.missing h fault (view s).guard.depth)
  refused : ∀ {s} h pos {fault}, keeps s → s.guard.enter = .error fault →
    good (s.record (.refused h pos s.guard.depth)).journal →
    (view s).guard.enter = .error fault ∧ keeps (s.record (.refused h pos s.guard.depth)) ∧
      view (s.record (.refused h pos s.guard.depth)) =
        (view s).record (.refused h pos (view s).guard.depth)
  opened : ∀ {s} h node c {g}, keeps s → s.guard.enter = .ok g →
    ∃ g', (view s).guard.enter = .ok g' ∧ keeps (s.opened trace h node c g) ∧
      view (s.opened trace h node c g) = (view s).opened trace' h node c g'
  closed : ∀ {s} h c ending, keeps s → keeps (s.closed trace h c ending) ∧
    view (s.closed trace h c ending) = (view s).closed trace' h c ending
  release : ∀ {r v s s' ending}, keeps s → m.runRelease r v s = (ending, s') → good s'.journal →
    m'.runRelease r v (view s) = (ending, view s') ∧ keeps s'
  fold : ∀ {f vs s s' ending}, keeps s → m.runFold f vs s = (ending, s') → good s'.journal →
    m'.runFold f vs (view s) = (ending, view s') ∧ keeps s'
  apply : ∀ {f v s s' ending}, keeps s → m.runApply f v s = (ending, s') → good s'.journal →
    m'.runApply f v (view s) = (ending, view s') ∧ keeps s'

namespace Views

variable {m m' : Meaning} {trace trace' : Bool} {good : List Entry → Prop} {keeps : Run → Prop}
  {view : Run → Run}

theorem simulates (views : Views m m' trace trace' good keeps view) :
    (Pairing.same Eq .all fun s t => keeps s ∧ t = view s).Simulates m m' trace trace' good where
  toAgrees := Pairing.agrees_same
  before := views.before
  missing := by
    rintro s _ h _ fault ⟨kept, rfl⟩ rfl missing
    obtain ⟨kept', shown⟩ := views.missing h fault kept
    exact ⟨by rwa [views.store], kept', shown.symm⟩
  found := by
    rintro s _ h _ body ⟨_, rfl⟩ rfl status
    refine ⟨body, by rwa [views.store], Node.alike_refl (fun _ _ => rfl) fun _ => rfl, ?_⟩
    exact Node.calls_all _
  refused := by
    rintro s _ h _ c _ fault ⟨kept, rfl⟩ rfl rfl enter late
    obtain ⟨enter', kept', shown⟩ := views.refused h c.pos kept enter late
    exact ⟨enter', kept', shown.symm⟩
  opened := by
    rintro s _ h _ node node' c _ g ⟨kept, rfl⟩ rfl nodes rfl enter
    obtain ⟨g', enter', kept', shown⟩ := views.opened h node c kept enter
    cases nodes.eq
    exact ⟨g', enter', kept', shown.symm⟩
  closed := by
    rintro s _ h _ c _ ending ending' ⟨kept, rfl⟩ rfl rfl alike
    obtain ⟨kept', shown⟩ := views.closed h c ending kept
    cases Pairing.eq_of_same alike
    exact ⟨kept', shown.symm⟩
  release := by
    rintro r v s s' _ ending _ ⟨kept, rfl⟩ work late
    obtain ⟨work', kept'⟩ := views.release kept work late
    exact ⟨_, work', kept', rfl⟩
  fold := by
    rintro f vs s s' _ ending _ ⟨kept, rfl⟩ work late
    obtain ⟨work', kept'⟩ := views.fold kept work late
    exact ⟨_, work', kept', rfl⟩
  apply := by
    rintro f v s s' _ ending _ ⟨kept, rfl⟩ work late
    obtain ⟨work', kept'⟩ := views.apply kept work late
    exact ⟨_, work', kept', rfl⟩

theorem call (views : Views m m' trace trace' good keeps view) {ctx ctx' : Context}
    (traced : ctx.config.trace = trace) (traced' : ctx'.config.trace = trace') (h : HandleId)
    (c : Cursor) {s : Store} (kept : keeps ⟨s, ctx.guard, []⟩)
    (start : view ⟨s, ctx.guard, []⟩ = ⟨s, ctx'.guard, []⟩)
    (late : good (m.call ctx h c s).2.journal) :
    m'.call ctx' h c s = ((m.call ctx h c s).1, view (m.call ctx h c s).2) := by
  obtain ⟨alike, _, shown⟩ := views.simulates.call ctx ctx' h h c c s s traced traced' rfl rfl
    ⟨kept, start.symm⟩ late
  exact Prod.ext (Pairing.eq_of_same alike) shown

end Views

/-- The events of an entry that a callback caused. What a traced run writes to the log is its
own. -/
def Entry.caused : Entry → List Event
  | .logged _ => []
  | e => e.events

def Run.caused (s : Run) : List Event := s.journal.reverse.flatMap Entry.caused

/-- All that is seen of a run was caused by callbacks. -/
def Run.Silent (s : Run) : Prop := ∀ e ∈ s.journal, e.events = e.caused

namespace Run.Silent

variable {s : Run}

theorem record (silent : s.Silent) (store : Store) (guard : Guard) {e : Entry}
    (here : e.events = e.caused) : (Run.record ⟨store, guard, s.journal⟩ e).Silent := by
  intro d mem
  rcases List.mem_cons.mp mem with rfl | mem
  · exact here
  · exact silent d mem

theorem events_eq (silent : s.Silent) : s.events = s.caused :=
  List.flatMap_congr fun e mem => silent e (List.mem_reverse.mp mem)

end Run.Silent

namespace Meaning

variable {m : Meaning}

theorem spans_silent (m : Meaning) : m.Spans false fun s _ s' => s.Silent → s'.Silent where
  done _ := id
  next first second := second ∘ first
  resumed first second := second ∘ first
  replaced first second _ := second ∘ first
  missing _ silent := silent.record _ _ rfl
  refused _ _ silent := silent.record _ _ rfl
  entered _ _ _ inside silent := (inside (silent.record _ _ rfl)).record _ _ rfl
  release h silent := by
    cases h
    exact silent.record _ _ rfl
  fold h silent := by
    cases h
    exact silent.record _ _ rfl
  apply h silent := by
    cases h
    exact silent.record _ _ rfl

theorem events_of_untraced {ctx : Context} (untraced : ctx.config.trace = false) (h : HandleId)
    (c : Cursor) (s : Store) : (m.call ctx h c s).2.events = (m.call ctx h c s).2.caused := by
  have ran := ran_call (m := m) ctx h c s
  rw [untraced] at ran
  exact ((spans_silent m).ran ran fun _ mem => absurd mem List.not_mem_nil).events_eq

end Meaning

end Peg
