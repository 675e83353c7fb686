import Peg.Proofs.Ledger.Settlement

namespace Peg

/-- A release that logs its calls, and raises at some of them at most. -/
def Release.Ordinary : Release → Prop
  | .logged _ stopsAt how => stopsAt = [] ∨ ∃ message, how = .fault message
  | _ => False

def Release.Quiet : Release → Prop
  | .logged _ stopsAt _ => stopsAt = []
  | _ => False

theorem Release.Quiet.ordinary {r : Release} (quiet : r.Quiet) : r.Ordinary := by
  cases r with
  | logged => exact .inl quiet
  | text | parser | notCallable => exact quiet

def Covered (ok : Release → Prop) (release : Option Release) : Prop :=
  ∃ r, release = some r ∧ ok r

def Fold.Tidy (ok : Release → Prop) : Fold → Prop
  | .box release | .keep _ release | .discard release => Covered ok release
  | .logged _ inner => inner.Tidy ok
  | _ => False

/-- An act that leaves the value as it is, and at worst raises. -/
def Act.Benign : Act → Prop
  | .log _ | .delete _ | .define _ _ => True
  | .stop how _ => ∃ message, how = .fault message
  | _ => False

def Node.Wraps (text : HandleId → Prop) : Node → Prop
  | .literal _ => True
  | .apply item (.acts list) => text item ∧ ∀ act ∈ list, act.Benign
  | _ => False

def Node.Tracked (ok : Release → Prop) (text : HandleId → Prop) : Node → Prop
  | .literal _ | .fail _ | .eof | .choice _ _ | .expect _ _ => True
  | .pure v => v.shape ≠ .box
  | .apply item .box => text item
  | .apply item (.acts list) => text item ∧ ∀ act ∈ list, act.Benign
  | .apply _ _ => False
  | .sequence fold items => fold.Tidy ok ∧ ∀ item ∈ items, Covered ok item.2
  | .repetition fold _ _ _ release => fold.Tidy ok ∧ Covered ok release

/-- A heap whose defined handles are tracked. A handle that yields texts has been defined. -/
structure Grammar.Tracked (ok : Release → Prop) (text : HandleId → Prop) (g : Grammar) : Prop where
  node : ∀ h body, (g.get h).status = .defined body → body.node.Tracked ok text
  wraps : ∀ h, text h → ∀ body, (g.get h).status = .defined body → body.node.Wraps text
  filled : ∀ h, text h → (g.get h).status ≠ .undefined

namespace Grammar

variable {ok : Release → Prop} {text : HandleId → Prop} {g g' : Grammar}

theorem Tracked.tear (tracked : g.Tracked ok text) (h : HandleId) : (g.tear h).Tracked ok text where
  node k body status := by
    obtain gone | same := get_tear g h k
    · rw [gone] at status
      cases status
    · exact tracked.node k body (same ▸ status)
  wraps k yields body status := by
    obtain gone | same := get_tear g h k
    · rw [gone] at status
      cases status
    · exact tracked.wraps k yields body (same ▸ status)
  filled k yields := by
    obtain gone | same := get_tear g h k
    · rw [gone]
      exact nofun
    · rw [same]
      exact tracked.filled k yields

theorem Tracked.define {h other : HandleId} (tracked : g.Tracked ok text)
    (defined : g.define h other = .ok g') : g'.Tracked ok text where
  node k body status := by
    obtain same | ⟨_, found, there, status'⟩ := get_define defined k
    · exact tracked.node k body (same ▸ status)
    · rw [status'] at status
      cases status
      exact tracked.node other _ there
  wraps k yields body status := by
    obtain same | ⟨undefined, _⟩ := get_define defined k
    · exact tracked.wraps k yields body (same ▸ status)
    · exact absurd undefined (tracked.filled k yields)
  filled k yields := by
    obtain same | ⟨undefined, _⟩ := get_define defined k
    · rw [same]
      exact tracked.filled k yields
    · exact absurd undefined (tracked.filled k yields)

end Grammar

def Store.made (s : Store) (id : Nat) : Nat := if id ≤ s.boxes then 1 else 0

structure World.Tame (ok : Release → Prop) (text : HandleId → Prop) (w w' : World) : Prop where
  heap : w.store.grammar.Tracked ok text → w'.store.grammar.Tracked ok text
  boxes : w'.store.boxes = w.store.boxes
  passed : passed w'.events = passed w.events

def Action.Tame {α : Type} (ok : Release → Prop) (text : HandleId → Prop) (p : Action α) : Prop :=
  ∀ w, w.Tame ok text (p w).2 ∧ ∀ message, (p w).1 ≠ .aborted message

namespace Action.Tame

variable {α β : Type} {ok : Release → Prop} {text : HandleId → Prop}

theorem of_same {p : Action α} (same : ∀ w, (p w).2 = w)
    (unaborted : ∀ w message, (p w).1 ≠ .aborted message) : p.Tame ok text := by
  intro w
  refine ⟨?_, unaborted w⟩
  rw [same]
  exact ⟨id, rfl, rfl⟩

theorem done (a : α) : Tame ok text (Proc.done a) := of_same (fun _ => rfl) fun _ => nofun

theorem raise (fault : Fault) : Tame (α := α) ok text (Proc.raise fault) :=
  of_same (fun _ => rfl) fun _ => nofun

theorem read (f : Store → α) : Tame ok text (Action.read f) := of_same (fun _ => rfl) fun _ => nofun

theorem register (id : String) : Tame ok text (Action.register id) := by
  apply of_same
  · intro w
    unfold Action.register
    split <;> rfl
  · intro w
    unfold Action.register
    split <;> exact nofun

theorem note {e : Event} (unpassed : e.passed? = none) : Tame ok text (Action.note e) := by
  intro w
  refine ⟨⟨id, rfl, ?_⟩, nofun⟩
  simp [Action.note, Peg.passed, unpassed]

theorem andThen {p : Action α} {f : α → Action β} (hp : p.Tame ok text)
    (hf : ∀ a, (f a).Tame ok text) : Tame ok text (Proc.andThen p f) := by
  intro w
  obtain ⟨first, unaborted⟩ := hp w
  rcases ran : p w with ⟨a | fault | message, w₁⟩ <;> rw [ran] at first unaborted
  · rw [Proc.andThen_done ran]
    obtain ⟨second, unaborted'⟩ := hf a w₁
    exact ⟨⟨fun tracked => second.heap (first.heap tracked), second.boxes.trans first.boxes,
      second.passed.trans first.passed⟩, unaborted'⟩
  · rw [Proc.andThen_raised ran]
    exact ⟨first, nofun⟩
  · exact absurd rfl (unaborted message)

theorem tear (h : HandleId) : Tame ok text (Action.tear h) :=
  fun _ => ⟨⟨fun tracked => tracked.tear h, rfl, rfl⟩, nofun⟩

theorem tearFrom (steps : Nat) (walk : Walk) (count : Nat) :
    Tame ok text (Action.tearFrom (fun _ _ => Proc.done ()) steps walk count) := by
  induction steps generalizing walk count with
  | zero => exact done count
  | succ steps ih =>
    intro w
    simp only [Action.tearFrom]
    split
    · exact done count w
    · next h walk _ =>
      split
      · exact ih walk count w
      · exact andThen (tear h) (fun _ => andThen (done ()) fun _ => ih walk (count + 1)) w

theorem deleteAll (roots : List HandleId) : Tame ok text (Action.deleteAll roots) := by
  rw [Action.deleteAll, Action.tearDown]
  refine andThen (read _) fun steps => andThen (tearFrom steps _ 0) fun count => ?_
  exact andThen (note rfl) fun _ => done count

theorem deleteInside (h : HandleId) : Tame ok text (Action.deleteInside h) :=
  andThen (deleteAll [h]) fun count => note (e := .deleted count) rfl

theorem define (h other : HandleId) : Tame ok text (Action.define h other) := by
  intro w
  unfold Action.define
  split
  · exact raise _ w
  · next g defined =>
    refine ⟨⟨fun tracked => tracked.define defined, rfl, ?_⟩, nofun⟩
    rfl

theorem acts {nested : HandleId → String → Action Result} (v : Value) {list : List Act}
    (benign : ∀ act ∈ list, act.Benign) : Tame ok text (Standard.acts nested v list) := by
  induction list with
  | nil => exact done v
  | cons act list ih =>
    have rest := ih fun act mem => benign act (List.mem_cons_of_mem _ mem)
    have head := benign act (List.mem_cons_self ..)
    cases act with
    | log tag => exact andThen (note rfl) fun _ => rest
    | stop how only =>
      obtain ⟨message, rfl⟩ := head
      refine andThen (read _) fun wanted => ?_
      cases wanted with
      | false => exact rest
      | true => exact andThen (p := Action.stop (.fault message)) (raise _) fun _ => rest
    | delete id => exact andThen (register id) fun h => andThen (deleteInside h) fun _ => rest
    | define id other =>
      exact andThen (register id) fun h => andThen (register other) fun k =>
        andThen (define h k) fun _ => rest
    | const | wrap | parse => exact head.elim

end Action.Tame

end Peg
