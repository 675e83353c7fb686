import Peg.Run.Call

/-!
Runs as a relation. A run goes through stages: a handle is called, a node is at work, some
alternatives, items or turns are left. `Ran` says how a stage ends and which run it leaves, given
how the stages inside it end. It counts neither levels nor turns, and it has no rule for what is
never reached. A fact about runs is shown by one case for each rule.
-/

namespace Peg

inductive Leaf : Node → Cursor → Result → Prop where
  | read {text : String} {c next : Cursor} : text.toList <+: c.input.toList.drop c.pos →
      next.input = c.input → next.pos = c.pos + text.length →
      Leaf (.literal text) c (.success (.text text) next)
  | unread {text : String} {c : Cursor} : ¬ text.toList <+: c.input.toList.drop c.pos →
      Leaf (.literal text) c (.failure ⟨.singleton text, c.pos⟩)
  | pure {v : Value} {c : Cursor} : Leaf (.pure v) c (.success v c)
  | fail {message : String} {c : Cursor} :
      Leaf (.fail message) c (.failure ⟨.singleton message, c.pos⟩)
  | ended {c : Cursor} : c.pos = c.input.size → Leaf .eof c (.success .null c)
  | unended {c : Cursor} : c.pos ≠ c.input.size →
      Leaf .eof c (.failure ⟨.singleton "end of input", c.pos⟩)

/-- A success is a place in the same input, no earlier than the start. -/
def Cursor.Reaches (c next : Cursor) : Prop := next.input = c.input ∧ c.pos ≤ next.pos

theorem Cursor.Reaches.trans {c d e : Cursor} (h : c.Reaches d) (h' : d.Reaches e) :
    c.Reaches e := ⟨h'.1.trans h.1, Nat.le_trans h.2 h'.2⟩

theorem Cursor.Reaches.left_le {c d : Cursor} (h : c.Reaches d) :
    d.input.size - d.pos ≤ c.input.size - c.pos := by
  rw [h.1]
  exact Nat.sub_le_sub_left h.2 _

theorem Leaf.reaches {node : Node} {c next : Cursor} {v : Value}
    (leaf : Leaf node c (.success v next)) : c.Reaches next := by
  cases leaf with
  | read _ input pos => exact ⟨input, by omega⟩
  | pure | ended _ => exact ⟨rfl, Nat.le_refl _⟩

theorem Cursor.eq_of_pos {c d : Cursor} (input : c.input = d.input) (pos : c.pos = d.pos) :
    c = d := by
  cases c
  cases d
  cases input
  cases pos
  rfl

theorem Leaf.unique {node : Node} {c : Cursor} {r r' : Result} (leaf : Leaf node c r)
    (leaf' : Leaf node c r') : r = r' := by
  cases leaf with
  | read here input pos =>
    cases leaf' with
    | read _ input' pos' => rw [Cursor.eq_of_pos (input.trans input'.symm) (pos.trans pos'.symm)]
    | unread elsewhere => exact absurd here elsewhere
  | unread elsewhere =>
    cases leaf' with
    | read here => exact absurd here elsewhere
    | unread => rfl
  | pure | fail =>
    cases leaf'
    rfl
  | ended here =>
    cases leaf' with
    | ended => rfl
    | unended elsewhere => exact absurd here elsewhere
  | unended elsewhere =>
    cases leaf' with
    | ended here => exact absurd here elsewhere
    | unended => rfl

def Result.labelled (label : String) (c : Cursor) : Result → Result
  | .success v next => .success v next
  | .failure f => if f.position = c.pos then .failure ⟨.singleton label, c.pos⟩ else .failure f

def Failure.join (failed : Option Failure) (f : Failure) : Failure :=
  failed.elim f (·.merge f)

def Ending.outcome {α : Type} (ending : Ending α) : Ending Unit := ending.map fun _ => ()

theorem Ending.outcome_map {α β : Type} (f : α → β) (ending : Ending α) :
    (ending.map f).outcome = ending.outcome := by
  cases ending <;> rfl

/-- A label changes no success. -/
theorem Ending.eq_success_of_labelled {label : String} {c next : Cursor} {v : Value}
    {ending : Ending Result}
    (eq : ending.map (Result.labelled label c) = .done (.success v next)) :
    ending = .done (.success v next) := by
  rcases ending with (_ | f) | _ | _
  · exact eq
  · simp only [map, Result.labelled] at eq
    split at eq <;> cases eq
  · cases eq
  · cases eq

theorem Ending.outcome_eq_done_iff {α : Type} {ending : Ending α} :
    ending.outcome = .done () ↔ ∃ a, ending = .done a := by
  cases ending <;> simp [outcome, map]

theorem Ending.outcome_eq_raised_iff {α : Type} {ending : Ending α} {fault : Fault} :
    ending.outcome = .raised fault ↔ ending = .raised fault := by
  cases ending <;> simp [outcome, Ending.map]

/-- What is wrong with calling a handle, whatever the depth. -/
def Handle.fault? (handle : Handle) : Option Fault :=
  match handle.status with
  | .deleted => some (.deleted handle.calling)
  | .undefined => some (.undefined handle.name)
  | .defined _ => none

def Full (most : Option Int) (taken : Nat) : Prop := ∃ n, most = some n ∧ n ≤ (taken : Int)

/-- Whether a turn that ended at `next` was the last, having not moved and having no bound. -/
def Still (most : Option Int) (c next : Cursor) : Prop := most = none ∧ next.pos = c.pos

namespace Run

def opened (s : Run) (trace : Bool) (h : HandleId) (node : Node) (c : Cursor) (g : Guard) : Run :=
  let s := { s with guard := g }.record (.entered h node c.pos g.depth)
  if trace then s.record (.logged (.trying (s.store.grammar.get h) c.pos)) else s

def closed (s : Run) (trace : Bool) (h : HandleId) (c : Cursor) (ending : Ending Result) : Run :=
  let s :=
    match trace, ending with
    | true, .done (.success _ next) =>
      s.record (.logged (.matched (s.store.grammar.get h) c.pos next.pos))
    | true, .done (.failure f) => s.record (.logged (.failed (s.store.grammar.get h) f.position))
    | _, _ => s
  { s with guard := s.guard.exit }.record (.left h ending s.guard.exit.depth)

theorem closed_cases (s : Run) (trace : Bool) (h : HandleId) (c : Cursor) (ending : Ending Result) :
    ∃ s', (s' = s ∨ ∃ record, s' = s.record (.logged record)) ∧
      s.closed trace h c ending =
        Run.record { s' with guard := s.guard.exit } (.left h ending s.guard.exit.depth) := by
  rcases trace with _ | _
  · exact ⟨s, .inl rfl, rfl⟩
  · rcases ending with (_ | _) | _ | _
    · exact ⟨_, .inr ⟨_, rfl⟩, rfl⟩
    · exact ⟨_, .inr ⟨_, rfl⟩, rfl⟩
    · exact ⟨s, .inl rfl, rfl⟩
    · exact ⟨s, .inl rfl, rfl⟩

@[simp] theorem store_record (s : Run) (e : Entry) : (s.record e).store = s.store := rfl

@[simp] theorem store_opened (s : Run) (trace : Bool) (h : HandleId) (node : Node) (c : Cursor)
    (g : Guard) : (s.opened trace h node c g).store = s.store := by
  cases trace <;> rfl

@[simp] theorem guard_opened (s : Run) (trace : Bool) (h : HandleId) (node : Node) (c : Cursor)
    (g : Guard) : (s.opened trace h node c g).guard = g := by
  cases trace <;> rfl

@[simp] theorem store_closed (s : Run) (trace : Bool) (h : HandleId) (c : Cursor)
    (ending : Ending Result) : (s.closed trace h c ending).store = s.store := by
  obtain ⟨_, rfl | ⟨_, rfl⟩, closed⟩ := s.closed_cases trace h c ending <;> rw [closed] <;> rfl

@[simp] theorem guard_closed (s : Run) (trace : Bool) (h : HandleId) (c : Cursor)
    (ending : Ending Result) : (s.closed trace h c ending).guard = s.guard.exit := by
  obtain ⟨_, _, closed⟩ := s.closed_cases trace h c ending
  rw [closed]
  rfl

theorem guard_callback {α : Type} {entry : Ending α → List Event → Int → Entry}
    {work : Callback α} {s s' : Run} {ending : Ending α}
    (h : Run.callback entry work s = (ending, s')) : s'.guard = s.guard := by
  cases h
  rfl

end Run

inductive Stage where
  | call (h : HandleId)
  | body (node : Node)
  /-- Alternatives to try, those before having failed as `failed` says. -/
  | alternatives (failed : Option Failure) (left : List HandleId)
  | items (fold : Fold) (left : List (HandleId × Option Release)) (held : Held)
  | turns (fold : Fold) (item : HandleId) (least : Int) (most : Option Int)
      (release : Option Release) (held : Held)
  /-- A child is called while values are held. -/
  | waiting (h : HandleId) (held : Held)
  | finish (fold : Fold) (held : Held)
  | giveUp (held : Held) (failure : Failure)

namespace Meaning

variable (m : Meaning)

def unwind (held : Held) (fault : Fault) : Proc Run Result :=
  Proc.andThen (m.releaseAll held) fun _ => Proc.raise fault

/-- How the stages of a run end. -/
inductive Ran (trace : Bool) : Stage → Cursor → Run → Ending Result → Run → Prop where
  | missing {h c s fault} : (s.store.grammar.get h).fault? = some fault →
      Ran trace (.call h) c s (.raised fault) (s.record (.missing h fault s.guard.depth))
  | refused {h c s body fault} : (s.store.grammar.get h).status = .defined body →
      s.guard.enter = .error fault →
      Ran trace (.call h) c s (.raised fault) (s.record (.refused h c.pos s.guard.depth))
  | entered {h c s body g ending s'} : (s.store.grammar.get h).status = .defined body →
      s.guard.enter = .ok g →
      Ran trace (.body body.node) c (s.opened trace h body.node c g) ending s' →
      Ran trace (.call h) c s ending (s'.closed trace h c ending)
  | leaf {node c s r} : Leaf node c r → Ran trace (.body node) c s (.done r) s
  | choice {first others c s ending s'} :
      Ran trace (.alternatives none (first :: others)) c s ending s' →
      Ran trace (.body (.choice first others)) c s ending s'
  | exhausted {f c s} : Ran trace (.alternatives (some f) []) c s (.done (.failure f)) s
  | settled {failed h hs c s ending s'} : Ran trace (.call h) c s ending s' →
      (∀ f, ending ≠ .done (.failure f)) →
      Ran trace (.alternatives failed (h :: hs)) c s ending s'
  | passed {failed h hs c s f s₁ ending s'} : Ran trace (.call h) c s (.done (.failure f)) s₁ →
      Ran trace (.alternatives (some (Failure.join failed f)) hs) c s₁ ending s' →
      Ran trace (.alternatives failed (h :: hs)) c s ending s'
  | awaited {h held c s ending s'} : Ran trace (.call h) c s ending s' →
      (∀ fault, ending ≠ .raised fault) → Ran trace (.waiting h held) c s ending s'
  | unwound {h held c s fault s₁ ending s'} : Ran trace (.call h) c s (.raised fault) s₁ →
      m.unwind held fault s₁ = (ending, s') → Ran trace (.waiting h held) c s ending s'
  | folded {fold held c s ending s'} : m.runFold fold (held.map (·.1)) s = (ending, s') →
      Ran trace (.finish fold held) c s (ending.map (.success · c)) s'
  | gaveUp {held f c s ending s'} : m.giveUp held f s = (ending, s') →
      Ran trace (.giveUp held f) c s ending s'
  | sequence {fold items c s ending s'} : Ran trace (.items fold items []) c s ending s' →
      Ran trace (.body (.sequence fold items)) c s ending s'
  | itemsDone {fold held c s ending s'} : Ran trace (.finish fold held) c s ending s' →
      Ran trace (.items fold [] held) c s ending s'
  | itemDone {fold h r items held c s v next s₁ ending s'} :
      Ran trace (.waiting h held) c s (.done (.success v next)) s₁ →
      Ran trace (.items fold items (held ++ [(v, r)])) next s₁ ending s' →
      Ran trace (.items fold ((h, r) :: items) held) c s ending s'
  | itemFailed {fold h r items held c s f s₁ ending s'} :
      Ran trace (.waiting h held) c s (.done (.failure f)) s₁ →
      Ran trace (.giveUp held f) c s₁ ending s' →
      Ran trace (.items fold ((h, r) :: items) held) c s ending s'
  | itemEnded {fold h r items held c s ending s'} : Ran trace (.waiting h held) c s ending s' →
      (∀ r, ending ≠ .done r) → Ran trace (.items fold ((h, r) :: items) held) c s ending s'
  | repetition {fold item least most release c s ending s'} :
      Ran trace (.turns fold item least most release []) c s ending s' →
      Ran trace (.body (.repetition fold item least most release)) c s ending s'
  | turnsFull {fold item least most release held c s ending s'} : Full most held.length →
      Ran trace (.finish fold held) c s ending s' →
      Ran trace (.turns fold item least most release held) c s ending s'
  | turnMoved {fold item least most release held c s v next s₁ ending s'} :
      ¬ Full most held.length →
      Ran trace (.waiting item held) c s (.done (.success v next)) s₁ → ¬ Still most c next →
      Ran trace (.turns fold item least most release (held ++ [(v, release)])) next s₁ ending s' →
      Ran trace (.turns fold item least most release held) c s ending s'
  | turnStill {fold item least most release held c s v next s₁ ending s'} :
      ¬ Full most held.length →
      Ran trace (.waiting item held) c s (.done (.success v next)) s₁ → Still most c next →
      Ran trace (.finish fold (held ++ [(v, release)])) next s₁ ending s' →
      Ran trace (.turns fold item least most release held) c s ending s'
  | turnFailed {fold item least most release held c s f s₁ ending s'} : ¬ Full most held.length →
      Ran trace (.waiting item held) c s (.done (.failure f)) s₁ → least ≤ (held.length : Int) →
      Ran trace (.finish fold held) c s₁ ending s' →
      Ran trace (.turns fold item least most release held) c s ending s'
  | turnShort {fold item least most release held c s f s₁ ending s'} : ¬ Full most held.length →
      Ran trace (.waiting item held) c s (.done (.failure f)) s₁ → (held.length : Int) < least →
      Ran trace (.giveUp held f) c s₁ ending s' →
      Ran trace (.turns fold item least most release held) c s ending s'
  | turnEnded {fold item least most release held c s ending s'} : ¬ Full most held.length →
      Ran trace (.waiting item held) c s ending s' → (∀ r, ending ≠ .done r) →
      Ran trace (.turns fold item least most release held) c s ending s'
  | applied {item func c s v next s₁ ending s'} :
      Ran trace (.call item) c s (.done (.success v next)) s₁ →
      m.runApply func v s₁ = (ending, s') →
      Ran trace (.body (.apply item func)) c s (ending.map (.success · next)) s'
  | unapplied {item func c s ending s'} : Ran trace (.call item) c s ending s' →
      (∀ v next, ending ≠ .done (.success v next)) →
      Ran trace (.body (.apply item func)) c s ending s'
  | expect {item label c s ending s'} : Ran trace (.call item) c s ending s' →
      Ran trace (.body (.expect item label)) c s (ending.map (Result.labelled label c)) s'

variable {m} {trace : Bool}

theorem releaseAll_cons_none (v : Value) (held : Held) :
    m.releaseAll ((v, none) :: held) = m.releaseAll held := rfl

theorem releaseAll_cons_some {v : Value} {r : Release} {held : Held} {s s' : Run}
    {ending : Ending Unit} (h : m.releaseAll ((v, some r) :: held) s = (ending, s')) :
    (∃ s₁, m.runRelease r v s = (.done (), s₁) ∧ m.releaseAll held s₁ = (ending, s')) ∨
    (m.runRelease r v s = (ending, s') ∧ ending ≠ .done ()) := by
  change Proc.andThen (m.runRelease r v) (fun _ => m.releaseAll held) s = _ at h
  rcases first : m.runRelease r v s with ⟨_ | fault | message, s₁⟩
  · rw [Proc.andThen_done first] at h
    exact .inl ⟨s₁, rfl, h⟩
  · rw [Proc.andThen_raised first] at h
    cases h
    exact .inr ⟨rfl, nofun⟩
  · rw [Proc.andThen_aborted first] at h
    cases h
    exact .inr ⟨rfl, nofun⟩

theorem unwind_cases {held : Held} {fault : Fault} {s s' : Run} {ending : Ending Result}
    (h : m.unwind held fault s = (ending, s')) :
    (m.releaseAll held s = (.done (), s') ∧ ending = .raised fault) ∨
    (∃ other, m.releaseAll held s = (.raised other, s') ∧ ending = .raised other) ∨
    (∃ message, m.releaseAll held s = (.aborted message, s') ∧ ending = .aborted message) := by
  rcases pass : m.releaseAll held s with ⟨_ | other | message, s₁⟩
  · rw [unwind, Proc.andThen_done pass] at h
    cases h
    exact .inl ⟨rfl, rfl⟩
  · rw [unwind, Proc.andThen_raised pass] at h
    cases h
    exact .inr (.inl ⟨other, rfl, rfl⟩)
  · rw [unwind, Proc.andThen_aborted pass] at h
    cases h
    exact .inr (.inr ⟨message, rfl, rfl⟩)

theorem unwind_ne_done {held : Held} {fault : Fault} {s s' : Run} {ending : Ending Result}
    (h : m.unwind held fault s = (ending, s')) (r : Result) : ending ≠ .done r := by
  obtain ⟨_, rfl⟩ | ⟨_, _, rfl⟩ | ⟨_, _, rfl⟩ := unwind_cases h <;> nofun

theorem holding_raised {held : Held} {p : Proc Run Result} {s s₁ : Run} {fault : Fault}
    (h : p s = (.raised fault, s₁)) : m.holding held p s = m.unwind held fault s₁ := by
  simp [holding, Proc.onFault, h, unwind]

theorem holding_unraised {held : Held} {p : Proc Run Result} {s s₁ : Run}
    {ending : Ending Result} (h : p s = (ending, s₁)) (unraised : ∀ fault, ending ≠ .raised fault) :
    m.holding held p s = (ending, s₁) := by
  rcases ending with _ | fault | _
  · simp [holding, Proc.onFault, h]
  · exact absurd rfl (unraised fault)
  · simp [holding, Proc.onFault, h]

theorem giveUp_of_done {held : Held} {s s' : Run} (f : Failure)
    (pass : m.releaseAll held s = (.done (), s')) :
    m.giveUp held f s = (.done (.failure f), s') := by
  have passed : m.holding held (m.releaseAll held) s = (.done (), s') := by
    simp [holding, Proc.onFault, pass]
  rw [giveUp, Proc.bind_eq, Proc.andThen_done passed]
  rfl

theorem giveUp_of_raised {held : Held} {s s₁ : Run} {fault : Fault} (f : Failure)
    (pass : m.releaseAll held s = (.raised fault, s₁)) :
    m.giveUp held f s = m.unwind held fault s₁ := by
  simp only [giveUp, Proc.bind_eq, holding, unwind, Proc.andThen, Proc.onFault, pass]
  rcases m.releaseAll held s₁ with ⟨_ | _ | _, _⟩ <;> rfl

theorem giveUp_of_aborted {held : Held} {s s' : Run} {message : String} (f : Failure)
    (pass : m.releaseAll held s = (.aborted message, s')) :
    m.giveUp held f s = (.aborted message, s') := by
  have passed : m.holding held (m.releaseAll held) s = (.aborted message, s') := by
    simp [holding, Proc.onFault, pass]
  rw [giveUp, Proc.bind_eq, Proc.andThen_aborted passed]

theorem giveUp_cases {held : Held} {f : Failure} {s s' : Run} {ending : Ending Result}
    (h : m.giveUp held f s = (ending, s')) :
    (m.releaseAll held s = (.done (), s') ∧ ending = .done (.failure f)) ∨
    (∃ fault s₁, m.releaseAll held s = (.raised fault, s₁) ∧
      m.unwind held fault s₁ = (ending, s')) ∨
    (∃ message, m.releaseAll held s = (.aborted message, s') ∧ ending = .aborted message) := by
  rcases pass : m.releaseAll held s with ⟨_ | fault | message, s₁⟩
  · rw [giveUp_of_done f pass] at h
    cases h
    exact .inl ⟨rfl, rfl⟩
  · rw [giveUp_of_raised f pass] at h
    exact .inr (.inl ⟨fault, s₁, rfl, h⟩)
  · rw [giveUp_of_aborted f pass] at h
    cases h
    exact .inr (.inr ⟨message, rfl, rfl⟩)

theorem giveUp_done {held : Held} {f : Failure} {s s' : Run} {r : Result}
    (h : m.giveUp held f s = (.done r, s')) : r = .failure f := by
  obtain ⟨_, done⟩ | ⟨_, _, _, again⟩ | ⟨_, _, aborted⟩ := giveUp_cases h
  · cases done
    rfl
  · exact absurd rfl (unwind_ne_done again r)
  · cases aborted

/-- A relation between a run, how a part of it ends, and the run that the part leaves. It holds of
every pass of releases if it holds of a release and of parts one after another: the second may be
what a handler does about the fault of the first. -/
structure Passes (m : Meaning) (Q : Run → Ending Unit → Run → Prop) : Prop where
  done : ∀ s, Q s (.done ()) s
  next : ∀ {s₁ s₂ s₃ ending}, Q s₁ (.done ()) s₂ → Q s₂ ending s₃ → Q s₁ ending s₃
  resumed : ∀ {s₁ s₂ s₃ fault}, Q s₁ (.raised fault) s₂ → Q s₂ (.done ()) s₃ →
    Q s₁ (.raised fault) s₃
  replaced : ∀ {s₁ s₂ s₃ fault ending}, Q s₁ (.raised fault) s₂ → Q s₂ ending s₃ →
    ending ≠ .done () → Q s₁ ending s₃
  release : ∀ {r v s ending s'}, m.runRelease r v s = (ending, s') → Q s ending s'

namespace Passes

variable {Q : Run → Ending Unit → Run → Prop} (passes : m.Passes Q)
include passes

theorem releaseAll {held : Held} {s s' : Run} {ending : Ending Unit}
    (h : m.releaseAll held s = (ending, s')) : Q s ending s' := by
  induction held generalizing s with
  | nil =>
    cases h
    exact passes.done _
  | cons item held ih =>
    obtain ⟨v, _ | r⟩ := item
    · exact ih (releaseAll_cons_none v held ▸ h)
    · obtain ⟨s₁, first, rest⟩ | ⟨first, _⟩ := releaseAll_cons_some h
      · exact passes.next (passes.release first) (ih rest)
      · exact passes.release first

theorem unwind {held : Held} {fault : Fault} {s s₁ s' : Run} {ending : Ending Result}
    (first : Q s (.raised fault) s₁) (h : m.unwind held fault s₁ = (ending, s')) :
    Q s ending.outcome s' := by
  obtain ⟨pass, rfl⟩ | ⟨_, pass, rfl⟩ | ⟨_, pass, rfl⟩ := unwind_cases h
  · exact passes.resumed first (passes.releaseAll pass)
  · exact passes.replaced first (passes.releaseAll pass) nofun
  · exact passes.replaced first (passes.releaseAll pass) nofun

theorem giveUp {held : Held} {f : Failure} {s s' : Run} {ending : Ending Result}
    (h : m.giveUp held f s = (ending, s')) : Q s ending.outcome s' := by
  obtain ⟨pass, rfl⟩ | ⟨_, s₁, pass, again⟩ | ⟨_, pass, rfl⟩ := giveUp_cases h
  · exact passes.releaseAll pass
  · exact passes.unwind (passes.releaseAll pass) again
  · exact passes.releaseAll pass

end Passes

/-- A relation as above that holds of every part of a run: it holds of callbacks, of calls that are
not let in, and of a call if it holds of what the node does. -/
structure Spans (m : Meaning) (trace : Bool) (Q : Run → Ending Unit → Run → Prop) : Prop
    extends m.Passes Q where
  missing : ∀ {h s fault}, (s.store.grammar.get h).fault? = some fault →
    Q s (.raised fault) (s.record (.missing h fault s.guard.depth))
  refused : ∀ {h pos s body fault}, (s.store.grammar.get h).status = .defined body →
    s.guard.enter = .error fault →
    Q s (.raised fault) (s.record (.refused h pos s.guard.depth))
  entered : ∀ {h body c s g ending s'}, (s.store.grammar.get h).status = .defined body →
    s.guard.enter = .ok g →
    m.Ran trace (.body body.node) c (s.opened trace h body.node c g) ending s' →
    Q (s.opened trace h body.node c g) (Ending.outcome ending) s' →
    Q s ending.outcome (s'.closed trace h c ending)
  fold : ∀ {fold vs s ending s'}, m.runFold fold vs s = (ending, s') → Q s ending.outcome s'
  apply : ∀ {func v s ending s'}, m.runApply func v s = (ending, s') → Q s ending.outcome s'

theorem Spans.ran {Q : Run → Ending Unit → Run → Prop} (spans : m.Spans trace Q) {stage : Stage}
    {c : Cursor} {s s' : Run} {ending : Ending Result}
    (ran : m.Ran trace stage c s ending s') : Q s ending.outcome s' := by
  induction ran with
  | missing missing => exact spans.missing missing
  | refused status enter => exact spans.refused status enter
  | leaf | exhausted => exact spans.done _
  | entered status enter ran ih => exact spans.entered status enter ran ih
  | choice _ ih | sequence _ ih | repetition _ ih => exact ih
  | settled _ _ ih | awaited _ _ ih | itemEnded _ _ ih | unapplied _ _ ih => exact ih
  | itemsDone _ ih | turnsFull _ _ ih | turnEnded _ _ _ ih => exact ih
  | passed _ _ ih₁ ih₂ | itemDone _ _ ih₁ ih₂ | itemFailed _ _ ih₁ ih₂ =>
    exact spans.next ih₁ ih₂
  | turnMoved _ _ _ _ ih₁ ih₂ | turnStill _ _ _ _ ih₁ ih₂ => exact spans.next ih₁ ih₂
  | turnFailed _ _ _ _ ih₁ ih₂ | turnShort _ _ _ _ ih₁ ih₂ => exact spans.next ih₁ ih₂
  | unwound _ pass ih => exact spans.unwind ih pass
  | folded work =>
    rw [Ending.outcome_map]
    exact spans.fold work
  | gaveUp pass => exact spans.giveUp pass
  | applied _ work ih =>
    rw [Ending.outcome_map]
    exact spans.next ih (spans.apply work)
  | expect _ ih =>
    rw [Ending.outcome_map]
    exact ih

/-- A relation between runs that holds of every step a run can take. -/
structure Steps (m : Meaning) (R : Run → Run → Prop) : Prop where
  refl : ∀ s, R s s
  trans : ∀ {s₁ s₂ s₃}, R s₁ s₂ → R s₂ s₃ → R s₁ s₃
  record : ∀ s e, R s (s.record e)
  guard : ∀ s g, R s { s with guard := g }
  release : ∀ {r v s ending s'}, m.runRelease r v s = (ending, s') → R s s'
  fold : ∀ {fold vs s ending s'}, m.runFold fold vs s = (ending, s') → R s s'
  apply : ∀ {func v s ending s'}, m.runApply func v s = (ending, s') → R s s'

namespace Steps

variable {R : Run → Run → Prop} (steps : m.Steps R)
include steps

theorem opened (s : Run) (trace : Bool) (h : HandleId) (node : Node) (c : Cursor) (g : Guard) :
    R s (s.opened trace h node c g) := by
  have entered := steps.trans (steps.guard s g) (steps.record _ (.entered h node c.pos g.depth))
  cases trace with
  | false => exact entered
  | true => exact steps.trans entered (steps.record _ _)

theorem closed (s : Run) (trace : Bool) (h : HandleId) (c : Cursor) (ending : Ending Result) :
    R s (s.closed trace h c ending) := by
  obtain ⟨s', before, closed⟩ := s.closed_cases trace h c ending
  have logged : R s s' := by
    obtain rfl | ⟨record, rfl⟩ := before
    · exact steps.refl _
    · exact steps.record _ _
  rw [closed]
  exact steps.trans logged (steps.trans (steps.guard _ _) (steps.record _ _))

theorem spans (trace : Bool) : m.Spans trace fun s _ s' => R s s' where
  done := steps.refl
  next := steps.trans
  resumed := steps.trans
  replaced first second _ := steps.trans first second
  missing _ := steps.record _ _
  refused _ _ := steps.record _ _
  entered _ _ _ inside := steps.trans (steps.trans (steps.opened ..) inside) (steps.closed ..)
  release := steps.release
  fold := steps.fold
  apply := steps.apply

theorem unwind {held : Held} {fault : Fault} {s s' : Run} {ending : Ending Result}
    (h : m.unwind held fault s = (ending, s')) : R s s' :=
  (steps.spans false).unwind (steps.refl s) h

theorem ran {trace : Bool} {stage : Stage} {c : Cursor} {s s' : Run} {ending : Ending Result}
    (ran : m.Ran trace stage c s ending s') : R s s' :=
  (steps.spans trace).ran ran

end Steps

theorem spans_guard (m : Meaning) (trace : Bool) :
    m.Spans trace fun s _ s' => s'.guard = s.guard where
  done _ := rfl
  next first second := second.trans first
  resumed first second := second.trans first
  replaced first second _ := second.trans first
  missing _ := rfl
  refused _ _ := rfl
  entered _ enter _ inside := by
    rw [Run.guard_closed, inside, Run.guard_opened]
    exact Guard.exit_of_enter enter
  release := Run.guard_callback
  fold := Run.guard_callback
  apply := Run.guard_callback

theorem Ran.guard_eq {stage : Stage} {c : Cursor} {s s' : Run} {ending : Ending Result}
    (ran : m.Ran trace stage c s ending s') : s'.guard = s.guard :=
  (spans_guard m trace).ran ran

theorem Ran.reaches {stage : Stage} {c next : Cursor} {s s' : Run} {v : Value}
    (ran : m.Ran trace stage c s (.done (.success v next)) s') : c.Reaches next := by
  generalize eq : Ending.done (Result.success v next) = ending at ran
  induction ran generalizing v next with
  | missing | refused | exhausted => cases eq
  | leaf leaf =>
    cases eq
    exact leaf.reaches
  | entered _ _ _ ih => exact ih eq
  | choice _ ih | sequence _ ih | repetition _ ih => exact ih eq
  | settled _ _ ih | awaited _ _ ih | itemEnded _ _ ih | unapplied _ _ ih => exact ih eq
  | itemsDone _ ih | turnsFull _ _ ih | turnEnded _ _ _ ih => exact ih eq
  | passed _ _ _ ih | itemFailed _ _ _ ih => exact ih eq
  | turnFailed _ _ _ _ _ ih => exact ih eq
  | turnShort _ _ _ _ _ ih => exact ih eq
  | itemDone _ _ ih₁ ih₂ => exact (ih₁ rfl).trans (ih₂ eq)
  | turnMoved _ _ _ _ ih₁ ih₂ | turnStill _ _ _ _ ih₁ ih₂ => exact (ih₁ rfl).trans (ih₂ eq)
  | unwound _ pass => exact absurd eq.symm (unwind_ne_done pass _)
  | gaveUp pass =>
    cases eq
    cases giveUp_done pass
  | @folded _ _ _ _ ending _ work =>
    rcases ending with _ | _ | _ <;> cases eq
    exact ⟨rfl, Nat.le_refl _⟩
  | @applied _ _ _ _ _ _ _ ending _ _ work ih =>
    rcases ending with _ | _ | _ <;> cases eq
    exact ih rfl
  | expect _ ih => exact ih (Ending.eq_success_of_labelled eq.symm).symm

end Meaning

end Peg
