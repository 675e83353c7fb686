import Peg.Proofs.Run.Stages

/-!
What a journal tells of the calls that are under way. A call that was let in opens a frame, and its
end closes it. A sequence or a repetition holds the values of its children that succeeded until it
folds them, and its frame counts the releases it calls: those of the pass that follows the failure
of a child, and those of the pass that follows a fault.

The frames are read off the journal alone. No definition of the run is used here.
-/

namespace Peg

structure ReleaseCall where
  release : Release
  value : Value
  ending : Ending Unit

/-- What a node holds after a child has yielded a value. -/
def Node.hold : Node → Held → Value → Held
  | .sequence _ items, held, v => held ++ [(v, (items[held.length]?).bind (·.2))]
  | .repetition _ _ _ _ release, held, v => held ++ [(v, release)]
  | _, held, _ => held

/-- A call under way. -/
structure Frame where
  handle : HandleId
  node : Node
  held : Held := []
  /-- A child has failed, and no release has stopped early since. -/
  failing : Bool := false
  failurePass : List ReleaseCall := []
  handlerPass : List ReleaseCall := []

namespace Frame

def receive (F : Frame) : Result → Frame
  | .success v _ => { F with held := F.node.hold F.held v }
  | .failure _ => { F with failing := true }

def call (F : Frame) (x : ReleaseCall) : Frame :=
  if F.failing then
    { F with
      failurePass := F.failurePass ++ [x]
      failing := match x.ending with
        | .done _ => true
        | _ => false }
  else { F with handlerPass := F.handlerPass ++ [x] }

def hand (F : Frame) : Frame := { F with held := [] }

end Frame

/-- A call inside the innermost frame has come to its end. -/
def receive (ending : Ending Result) : List Frame → List Frame
  | [] => []
  | F :: frames =>
    match ending with
    | .done r => F.receive r :: frames
    | _ => F :: frames

theorem receive_raised (fault : Fault) (fs : List Frame) : receive (.raised fault) fs = fs := by
  cases fs <;> rfl

@[simp] theorem length_receive (ending : Ending Result) (fs : List Frame) :
    (receive ending fs).length = fs.length := by
  cases fs with
  | nil => rfl
  | cons F fs => cases ending <;> rfl

theorem receive_empty {F : Frame} (empty : F.held = []) (plain : ∀ v, F.node.hold [] v = [])
    (ending : Ending Result) (fs : List Frame) :
    ∃ F' : Frame, receive ending (F :: fs) = F' :: fs ∧ F'.held = [] := by
  rcases ending with (⟨v, next⟩ | f) | _ | _
  · refine ⟨F.receive (.success v next), rfl, ?_⟩
    change F.node.hold F.held v = []
    rw [empty, plain]
  · exact ⟨F.receive (.failure f), rfl, empty⟩
  · exact ⟨F, rfl, empty⟩
  · exact ⟨F, rfl, empty⟩

def Entry.replay (e : Entry) (frames : List Frame) : List Frame :=
  match e, frames with
  | .entered h node _ _, _ => { handle := h, node := node } :: frames
  | .left _ ending _, _ :: outer => receive ending outer
  | .released r v ending _ _, F :: outer => F.call ⟨r, v, ending⟩ :: outer
  | .folded _ _ _ _ _, F :: outer => F.hand :: outer
  | _, _ => frames

theorem foldl_call_handling {F : Frame} (handling : F.failing = false) (calls : List ReleaseCall) :
    calls.foldl Frame.call F = { F with handlerPass := F.handlerPass ++ calls } := by
  induction calls generalizing F with
  | nil => simp
  | cons x calls ih =>
    have called : F.call x = { F with handlerPass := F.handlerPass ++ [x] } := by
      simp [Frame.call, handling]
    have still : (F.call x).failing = false := by rw [called]; exact handling
    rw [List.foldl_cons, ih still, called]
    simp

theorem foldl_call_failing {F : Frame} (failing : F.failing = true) {calls : List ReleaseCall}
    (done : ∀ x ∈ calls, x.ending = .done ()) :
    calls.foldl Frame.call F = { F with failurePass := F.failurePass ++ calls } := by
  induction calls generalizing F with
  | nil => simp
  | cons x calls ih =>
    have called : F.call x = { F with failurePass := F.failurePass ++ [x] } := by
      simp [Frame.call, failing, done x (List.mem_cons_self ..)]
    have still : (F.call x).failing = true := by rw [called]; exact failing
    have rest : ∀ y ∈ calls, y.ending = .done () := fun y mem => done y (List.mem_cons_of_mem _ mem)
    rw [List.foldl_cons, ih still rest, called]
    simp

theorem foldl_call_stopped {F : Frame} (failing : F.failing = true) {calls : List ReleaseCall}
    {x : ReleaseCall} (done : ∀ y ∈ calls, y.ending = .done ()) (stopped : x.ending ≠ .done ()) :
    (calls ++ [x]).foldl Frame.call F =
      { F with failurePass := F.failurePass ++ (calls ++ [x]), failing := false } := by
  rw [List.foldl_append, foldl_call_failing failing done]
  rcases ending : x.ending with _ | _ | _
  · exact absurd ending stopped
  · simp [Frame.call, failing, ending]
  · simp [Frame.call, failing, ending]

/-- Every entry of a journal agrees with those before it. -/
def Along (agrees : Entry → List Entry → Prop) (journal : List Entry) : Prop :=
  ∀ after e before, journal = after ++ e :: before → agrees e before

theorem along_nil (agrees : Entry → List Entry → Prop) : Along agrees [] := by
  intro after e before split
  exact absurd split.symm (List.append_ne_nil_of_right_ne_nil _ (List.cons_ne_nil _ _))

theorem Along.cons {agrees : Entry → List Entry → Prop} {journal : List Entry} {e : Entry}
    (along : Along agrees journal) (here : agrees e journal) : Along agrees (e :: journal) := by
  intro after d before split
  cases after with
  | nil =>
    obtain ⟨rfl, rfl⟩ := List.cons.inj split
    exact here
  | cons x after =>
    obtain ⟨rfl, rfl⟩ := List.cons.inj split
    exact along after d before rfl

theorem Along.head {agrees : Entry → List Entry → Prop} {journal : List Entry} {e : Entry}
    (along : Along agrees (e :: journal)) : agrees e journal := along [] e journal rfl

theorem Along.suffix {agrees : Entry → List Entry → Prop} {before journal : List Entry}
    (along : Along agrees journal) (earlier : before <:+ journal) : Along agrees before := by
  obtain ⟨after, rfl⟩ := earlier
  intro later e first split
  exact along (after ++ later) e first (by rw [split, List.append_assoc])

/-- The calls under way after a journal, the innermost first. -/
def frames (journal : List Entry) : List Frame := journal.foldr Entry.replay []

def Run.frames (s : Run) : List Frame := Peg.frames s.journal

@[simp] theorem frames_record (s : Run) (e : Entry) : (s.record e).frames = e.replay s.frames := rfl

theorem frames_opened (s : Run) (trace : Bool) (h : HandleId) (node : Node) (c : Cursor)
    (g : Guard) :
    (s.opened trace h node c g).frames = { handle := h, node := node } :: s.frames := by
  cases trace <;> rfl

theorem frames_closed {s : Run} {F : Frame} {fs : List Frame} (frames : s.frames = F :: fs)
    (trace : Bool) (h : HandleId) (c : Cursor) (ending : Ending Result) :
    (s.closed trace h c ending).frames = receive ending fs := by
  have left : (Entry.left h ending s.guard.exit.depth).replay s.frames = receive ending fs := by
    rw [frames]
    rfl
  rcases trace with _ | _ <;> rcases ending with (_ | _) | _ | _ <;> exact left

/-- Whether a frame belongs to a stage. -/
def Stage.Fits (F : Frame) : Stage → Prop
  | .call _ => True
  | .body node => F.node = node ∧ F.held = []
  | .alternatives _ _ => (∃ first others, F.node = .choice first others) ∧ F.held = []
  | .items fold left held =>
    (∃ before, F.node = .sequence fold (before ++ left) ∧ before.length = held.length) ∧
      F.held = held
  | .turns fold item least most release held =>
    F.node = .repetition fold item least most release ∧ F.held = held
  | .waiting _ held | .finish _ held | .giveUp held _ => F.held = held

namespace Stage

variable {F : Frame}

theorem fits_items_next {fold : Fold} {h : HandleId} {r : Option Release}
    {items : List (HandleId × Option Release)} {held : Held}
    (fits : Fits F (.items fold ((h, r) :: items) held)) (v : Value) (next : Cursor) :
    Fits (F.receive (.success v next)) (.items fold items (held ++ [(v, r)])) := by
  obtain ⟨⟨before, node, length⟩, rfl⟩ := fits
  refine ⟨⟨before ++ [(h, r)], ?_, ?_⟩, ?_⟩
  · simpa [Frame.receive] using node
  · simp [length]
  · have paired : (before ++ (h, r) :: items)[F.held.length]? = some (h, r) := by simp [← length]
    simp only [Frame.receive, node, Node.hold, paired]
    rfl

theorem fits_turns_next {fold : Fold} {item : HandleId} {least : Int} {most : Option Int}
    {release : Option Release} {held : Held}
    (fits : Fits F (.turns fold item least most release held)) (v : Value) (next : Cursor) :
    Fits (F.receive (.success v next))
      (.turns fold item least most release (held ++ [(v, release)])) := by
  obtain ⟨node, rfl⟩ := fits
  exact ⟨node, by simp [Frame.receive, node, Node.hold]⟩

end Stage

namespace Meaning

variable {m : Meaning} {trace : Bool}

theorem steps_journal : m.Steps fun s s' => s.journal <:+ s'.journal where
  refl _ := List.suffix_rfl
  trans h h' := h.trans h'
  record _ _ := List.suffix_cons _ _
  guard _ _ := List.suffix_rfl
  release h := by cases h; exact List.suffix_cons _ _
  fold h := by cases h; exact List.suffix_cons _ _
  apply h := by cases h; exact List.suffix_cons _ _

theorem Ran.journal {stage : Stage} {c : Cursor} {s s' : Run} {ending : Ending Result}
    (ran : m.Ran trace stage c s ending s') : s.journal <:+ s'.journal :=
  steps_journal.ran ran

end Meaning

end Peg
