import Peg.Proofs.Ledger.Callbacks

/-!
The accounts of a run. One is of boxes: those that were made are held by a call, settled or
delivered. The other is of releases: those that were called belong to a call or to a settlement.
-/

namespace Peg

open Value

def delivered : Ending Result → List Value
  | .done (.success v _) => [v]
  | _ => []

theorem delivered_map (ending : Ending Value) (c : Cursor) :
    delivered (ending.map (.success · c)) = ending.toList := by
  cases ending <;> rfl

theorem delivered_labelled (ending : Ending Result) (label : String) (c : Cursor) :
    delivered (ending.map (Result.labelled label c)) = delivered ending := by
  rcases ending with (_ | f) | _ | _
  · rfl
  · simp only [Ending.map, Result.labelled]
    split <;> rfl
  · rfl
  · rfl

theorem done_unaborted {α : Type} (a : α) (message : String) :
    Ending.done a ≠ .aborted message := by
  intro eq
  cases eq

theorem raised_unaborted {α : Type} (fault : Fault) (message : String) :
    (.raised fault : Ending α) ≠ .aborted message := by
  intro eq
  cases eq

def Run.passes (s : Run) (id : Nat) : Nat := count id (passed s.events)

def Run.settlements (s : Run) : List Settlement := Peg.settlements s.journal

@[simp] theorem settlements_record (s : Run) (e : Entry) :
    (s.record e).settlements = e.settles s.frames ++ s.settlements := rfl

theorem events_record (s : Run) (e : Entry) : (s.record e).events = s.events ++ e.events := by
  simp [Run.events, Run.record]

@[simp] theorem passes_record (s : Run) (e : Entry) (id : Nat) :
    (s.record e).passes id = s.passes id + count id (passed e.events) := by
  rw [Run.passes, events_record, passed_append, count_append]
  rfl

theorem settlements_settling {s : Run} {e : Entry} {x : Settlement} (store : Store)
    (settles : e.settles s.frames = [x]) :
    (Run.record { s with store := store } e).settlements = x :: s.settlements := by
  rw [settlements_record]
  exact congrArg (· ++ s.settlements) settles

theorem settlements_opened (s : Run) (trace : Bool) (h : HandleId) (node : Node) (c : Cursor)
    (g : Guard) : (s.opened trace h node c g).settlements = s.settlements := by
  cases trace <;> rfl

theorem passes_opened (s : Run) (trace : Bool) (h : HandleId) (node : Node) (c : Cursor)
    (g : Guard) (id : Nat) : (s.opened trace h node c g).passes id = s.passes id := by
  cases trace with
  | false => exact passes_record _ _ id
  | true => exact (passes_record _ _ id).trans (passes_record _ _ id)

theorem settlements_closed {s : Run} {F : Frame} {fs : List Frame} (frames : s.frames = F :: fs)
    (trace : Bool) (h : HandleId) (c : Cursor) (ending : Ending Result) :
    (s.closed trace h c ending).settlements = F.settlement :: s.settlements := by
  have left : (Entry.left h ending s.guard.exit.depth).settles s.frames ++ s.settlements =
      F.settlement :: s.settlements := by
    rw [frames]
    rfl
  rcases trace with _ | _ <;> rcases ending with (_ | _) | _ | _ <;> exact left

theorem passes_closed (s : Run) (trace : Bool) (h : HandleId) (c : Cursor) (ending : Ending Result)
    (id : Nat) : (s.closed trace h c ending).passes id = s.passes id := by
  rcases trace with _ | _
  · exact passes_record _ _ id
  · rcases ending with (_ | _) | _ | _
    · exact (passes_record _ _ id).trans (passes_record _ _ id)
    · exact (passes_record _ _ id).trans (passes_record _ _ id)
    · exact passes_record _ _ id
    · exact passes_record _ _ id

/-- The accounts of a run from `s` to `s'`: what was held before is held still, settled or
delivered, and what was passed to a release was so by a settlement or is among `calls`. -/
structure Run.Books (ok : Release → Prop) (text : HandleId → Prop) (s : Run)
    (ending : Ending Result) (s' : Run) (held kept calls : List Value) : Prop where
  heap : s'.store.grammar.Tracked ok text
  owned : ∀ id, s'.store.made id + settled id s.settlements + count id held =
    s.store.made id + settled id s'.settlements + count id kept + count id (delivered ending)
  passes : ∀ id, s'.passes id + called id s.settlements =
    s.passes id + called id s'.settlements + count id calls
  unaborted : ∀ message, ending ≠ .aborted message
  exact : (∀ r, ok r → r.Quiet) → (∀ x ∈ s.settlements, x.Exact) → ∀ x ∈ s'.settlements, x.Exact

namespace Run.Books

variable {ok : Release → Prop} {text : HandleId → Prop} {s s₁ s' : Run} {ending : Ending Result}

theorem refl (tracked : s.store.grammar.Tracked ok text) {held kept : List Value}
    (same : ∀ id, count id held = count id kept + count id (delivered ending))
    (unaborted : ∀ message, ending ≠ .aborted message) : s.Books ok text ending s held kept [] where
  heap := tracked
  owned id := by
    have := same id
    omega
  passes _ := rfl
  unaborted := unaborted
  exact _ exact := exact

theorem of_entry {e : Entry} {fault : Fault} (tracked : s.store.grammar.Tracked ok text)
    (settles : e.settles s.frames = []) (unpassed : passed e.events = []) :
    s.Books ok text (.raised fault) (s.record e) [] [] [] where
  heap := tracked
  owned id := by
    rw [settlements_record, settles]
    rfl
  passes id := by
    rw [passes_record, settlements_record, settles, unpassed]
    rfl
  unaborted := nofun
  exact _ exact := by
    rw [settlements_record, settles]
    exact exact

theorem of_settling {e : Entry} {store : Store} {x : Settlement} {held : List Value}
    (heap : store.grammar.Tracked ok text) (settles : e.settles s.frames = [x])
    (owned : ∀ id, store.made id + count id held =
      s.store.made id + count id x.values + count id (delivered ending))
    (passes : ∀ id, count id (passed e.events) = count id x.calls)
    (unaborted : ∀ message, ending ≠ .aborted message)
    (exact : (∀ r, ok r → r.Quiet) → x.Exact) :
    s.Books ok text ending (Run.record { s with store := store } e) held [] [] where
  heap := heap
  owned id := by
    have owned := owned id
    have settlements := settlements_settling store settles
    have stored : (Run.record { s with store := store } e).store = store := rfl
    rw [settlements, settled_cons, stored, count_nil]
    omega
  passes id := by
    have settlements := settlements_settling store settles
    have same : Run.passes { s with store := store } id = s.passes id := rfl
    rw [settlements, called_cons, passes_record, passes id, same, count_nil]
    omega
  unaborted := unaborted
  exact quiet before y mem := by
    rw [settlements_settling store settles] at mem
    rcases List.mem_cons.mp mem with rfl | mem
    · exact exact quiet
    · exact before y mem

theorem relabel {ending' : Ending Result} {held kept calls : List Value}
    (books : s.Books ok text ending s' held kept calls)
    (same : delivered ending' = delivered ending)
    (unaborted : ∀ message, ending' ≠ .aborted message) :
    s.Books ok text ending' s' held kept calls :=
  ⟨books.heap, same ▸ books.owned, books.passes, unaborted, books.exact⟩

theorem next {first : Ending Result} {held kept calls : List Value}
    (call : s.Books ok text first s₁ [] [] [])
    (rest : s₁.Books ok text ending s' (held ++ delivered first) kept calls) :
    s.Books ok text ending s' held kept calls where
  heap := rest.heap
  owned id := by
    have before := call.owned id
    have after := rest.owned id
    simp only [count_append, count_nil] at before after
    omega
  passes id := by
    have before := call.passes id
    have after := rest.passes id
    simp only [count_nil] at before
    omega
  unaborted := rest.unaborted
  exact quiet exact := rest.exact quiet (call.exact quiet exact)

end Run.Books

/-- The accounts of a stage of the innermost call, which held `held` before. -/
def Run.Posts (ok : Release → Prop) (text : HandleId → Prop) (s : Run) (ending : Ending Result)
    (s' : Run) (held : Held) (fs : List Frame) : Prop :=
  ∃ F : Frame, s'.frames = F :: fs ∧
    s.Books ok text ending s' (held.map (·.1)) F.settlement.values F.settlement.calls ∧
    ((∀ r, ok r → r.Quiet) → F.settlement.Exact)

namespace Run.Posts

variable {ok : Release → Prop} {text : HandleId → Prop} {s s₁ s' : Run} {ending : Ending Result}
  {fs : List Frame}

theorem of_empty {F : Frame} {held : Held} (frames : s'.frames = F :: fs) (empty : F.held = [])
    (books : s.Books ok text ending s' (held.map (·.1)) [] []) :
    s.Posts ok text ending s' held fs := by
  have settlement : F.settlement = ⟨[], F.failurePass.length, F.handlerPass.length⟩ := by
    rw [Frame.settlement, empty]
    rfl
  refine ⟨F, frames, ?_, fun _ => ?_⟩
  · rw [settlement, Settlement.calls, List.take_nil, List.take_nil]
    exact books
  · rw [settlement]
    exact Settlement.exact_nil _ _

theorem of_inside {F : Frame} {inner : Ending Result} (empty : F.held = [])
    (plain : ∀ v, F.node.hold [] v = []) (frames : s'.frames = receive inner (F :: fs))
    (books : s.Books ok text ending s' [] [] []) : s.Posts ok text ending s' [] fs := by
  obtain ⟨F', eq, empty'⟩ := receive_empty empty plain inner fs
  exact .of_empty (frames.trans eq) empty' books

theorem next {first : Ending Result} {held held' : Held} (call : s.Books ok text first s₁ [] [] [])
    (rest : s₁.Posts ok text ending s' held' fs)
    (holds : held'.map (·.1) = held.map (·.1) ++ delivered first) :
    s.Posts ok text ending s' held fs := by
  obtain ⟨F, frames, books, exact⟩ := rest
  rw [holds] at books
  exact ⟨F, frames, call.next books, exact⟩

theorem closed {trace : Bool} {h : HandleId} {node : Node} {c : Cursor} {g : Guard}
    (posts : (s.opened trace h node c g).Posts ok text ending s' [] fs) :
    (s'.closed trace h c ending).frames = receive ending fs ∧
    s.Books ok text ending (s'.closed trace h c ending) [] [] [] := by
  obtain ⟨F, frames, books, exact⟩ := posts
  refine ⟨frames_closed frames trace h c ending, ?_, fun id => ?_, fun id => ?_, books.unaborted,
    fun quiet before x mem => ?_⟩
  · rw [Run.store_closed]
    exact books.heap
  · have owned := books.owned id
    rw [settlements_opened, Run.store_opened] at owned
    rw [settlements_closed frames, settled_cons, Run.store_closed]
    simp only [List.map_nil, count_nil] at owned ⊢
    omega
  · have passes := books.passes id
    rw [settlements_opened, passes_opened] at passes
    rw [settlements_closed frames, called_cons, passes_closed]
    simp only [count_nil]
    omega
  · rw [settlements_closed frames] at mem
    rcases List.mem_cons.mp mem with rfl | mem
    · exact exact quiet
    · exact books.exact quiet (by rw [settlements_opened]; exact before) x mem

end Run.Posts

end Peg
