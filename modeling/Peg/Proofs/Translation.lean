import Peg.Callback.Standard
import Peg.Proofs.Run.Simulation

namespace Peg

/-- The same place in an input that has a text put in front. -/
def Cursor.prepend (u : Input) (c : Cursor) : Cursor :=
  ⟨u ++ c.input, u.size + c.pos, by
    have le := c.pos_le
    rw [Array.size_append]
    omega⟩

def Failure.later (n : Nat) (f : Failure) : Failure := { f with position := f.position + n }

def Result.prepend (u : Input) : Result → Result
  | .success v next => .success v (next.prepend u)
  | .failure f => .failure (f.later u.size)

def Record.later (n : Nat) : Record → Record
  | .trying handle pos => .trying handle (n + pos)
  | .matched handle first last => .matched handle (n + first) (n + last)
  | .failed handle pos => .failed handle (pos + n)
  | record => record

def Entry.prepend (u : Input) : Entry → Entry
  | .entered h node pos depth => .entered h node (u.size + pos) depth
  | .left h ending depth => .left h (ending.map (Result.prepend u)) depth
  | .refused h pos depth => .refused h (u.size + pos) depth
  | .logged record => .logged (record.later u.size)
  | e => e

def Run.prepend (u : Input) (s : Run) : Run := { s with journal := s.journal.map (Entry.prepend u) }

variable (u : Input)

namespace Cursor

variable (c : Cursor)

theorem drop_prepend :
    (c.prepend u).input.toList.drop (c.prepend u).pos = c.input.toList.drop c.pos := by
  simp [prepend, List.drop_append]

theorem later_pos : ((c.prepend u).pos : Int) = c.pos + u.size := by
  simp only [prepend]
  omega

end Cursor

theorem Failure.later_merge (n : Nat) (f g : Failure) :
    (f.merge g).later n = (f.later n).merge (g.later n) := by
  simp only [later, merge]
  congr 1
  omega

theorem Leaf.prepend {node : Node} {c : Cursor} {r : Result} (leaf : Leaf node c r) :
    Leaf node (c.prepend u) (r.prepend u) := by
  have failed (label : String) : (Result.failure ⟨.singleton label, c.pos⟩).prepend u =
      .failure ⟨.singleton label, (c.prepend u).pos⟩ := by
    rw [Cursor.later_pos]
    rfl
  cases leaf with
  | read here input pos =>
    refine .read (by rwa [Cursor.drop_prepend]) ?_ ?_
    · simp only [Cursor.prepend, input]
    · simp only [Cursor.prepend, pos, Nat.add_assoc]
  | unread elsewhere =>
    rw [failed]
    exact .unread (by rwa [Cursor.drop_prepend])
  | pure => exact .pure
  | fail =>
    rw [failed]
    exact .fail
  | ended here => exact .ended (by simp [Cursor.prepend, here])
  | unended elsewhere =>
    rw [failed]
    exact .unended (by simpa [Cursor.prepend] using elsewhere)

namespace Run

variable (s : Run)

theorem prepend_opened (trace : Bool) (h : HandleId) (node : Node) (c : Cursor) (g : Guard) :
    (s.opened trace h node c g).prepend u =
      (s.prepend u).opened trace h node (c.prepend u) g := by
  cases trace <;> rfl

theorem prepend_closed (trace : Bool) (h : HandleId) (c : Cursor) (ending : Ending Result) :
    (s.closed trace h c ending).prepend u =
      (s.prepend u).closed trace h (c.prepend u) (ending.map (Result.prepend u)) := by
  rcases trace with _ | _ <;> rcases ending with (_ | _) | _ | _ <;> rfl

theorem prepend_callback {α : Type} {entry : Ending α → List Event → Int → Entry}
    (kept : ∀ ending events depth, (entry ending events depth).prepend u =
      entry ending events depth) {work : Callback α} {s' : Run} {ending : Ending α}
    (h : Run.callback entry work s = (ending, s')) :
    Run.callback entry work (s.prepend u) = (ending, s'.prepend u) := by
  cases h
  simp only [callback, prepend, record, List.map_cons, kept]

theorem caused_prepend : (s.prepend u).caused = s.caused := by
  simp only [caused, prepend, ← List.map_reverse, List.flatMap_map]
  refine List.flatMap_congr fun e _ => ?_
  cases e <;> rfl

end Run

def translation : Pairing where
  handle := Eq
  label := Eq
  cursor c c' := c' = c.prepend u
  failure f f' := f' = f.later u.size
  run s t := t = s.prepend u
  among := .all

theorem endings_translation {ending ending' : Ending Result}
    (alike : (translation u).Endings ending ending') : ending' = ending.map (Result.prepend u) := by
  cases alike with
  | done results =>
    cases results with
    | success next =>
      obtain rfl := next
      rfl
    | failure failure =>
      obtain rfl := failure
      rfl
  | raised | aborted => rfl

theorem results_translation (r : Result) : (translation u).Results r (r.prepend u) := by
  cases r with
  | success v next => exact .success rfl
  | failure f => exact .failure rfl

theorem simulates_translation (m : Meaning) (trace : Bool) :
    (translation u).Simulates m m trace trace fun _ => True where
  before _ _ := trivial
  missing run handle missing := by
    cases run
    cases handle
    exact ⟨missing, rfl⟩
  found run handle status := by
    cases run
    cases handle
    exact ⟨_, status, Node.alike_refl (fun _ _ => rfl) fun _ => rfl, Node.calls_all _⟩
  refused run handle cursor enter _ := by
    cases run
    cases handle
    cases cursor
    exact ⟨enter, rfl⟩
  opened run handle nodes cursor enter := by
    cases run
    cases handle
    cases nodes.eq
    cases cursor
    exact ⟨_, enter, (Run.prepend_opened ..).symm⟩
  closed run handle cursor alike := by
    cases run
    cases handle
    cases cursor
    cases endings_translation u alike
    exact (Run.prepend_closed ..).symm
  leaf nodes cursor leaf := by
    cases nodes.eq
    cases cursor
    exact ⟨_, leaf.prepend u, results_translation u _⟩
  still cursor cursor' := by
    cases cursor
    cases cursor'
    exact Nat.add_left_cancel_iff
  unmoved cursor failure := by
    cases cursor
    cases failure
    rw [Cursor.later_pos]
    exact Int.add_left_inj _
  merge failure failure' := by
    cases failure
    cases failure'
    exact (Failure.later_merge ..).symm
  labelled cursor label := by
    cases cursor
    cases label
    simp only [translation, Cursor.later_pos]
    rfl
  release _ run work _ := by
    cases run
    exact ⟨_, Run.prepend_callback u _ (fun _ _ _ => rfl) work, rfl⟩
  fold _ run work _ := by
    cases run
    exact ⟨_, Run.prepend_callback u _ (fun _ _ _ => rfl) work, rfl⟩
  apply _ run work _ := by
    cases run
    exact ⟨_, Run.prepend_callback u _ (fun _ _ _ => rfl) work, rfl⟩

namespace Meaning

/-- A run from a place after which a text was put in front of the input comes to the same end, with
every place further on by the length of the text. It leaves the same store, and callbacks cause the
same events in it, which are all that is seen of a run that is not traced. -/
theorem call_prepend (m : Meaning) (ctx : Context) (h : HandleId) (u : Input) (c : Cursor)
    (s : Store) :
    (m.call ctx h (c.prepend u) s).1 = (m.call ctx h c s).1.map (Result.prepend u) ∧
    (m.call ctx h (c.prepend u) s).2 = (m.call ctx h c s).2.prepend u ∧
    (m.call ctx h (c.prepend u) s).2.store = (m.call ctx h c s).2.store ∧
    (m.call ctx h (c.prepend u) s).2.caused = (m.call ctx h c s).2.caused ∧
    (ctx.config.trace = false →
      (m.call ctx h (c.prepend u) s).2.events = (m.call ctx h c s).2.events) := by
  obtain ⟨alike, run⟩ := (simulates_translation u m ctx.config.trace).call ctx ctx h h c
    (c.prepend u) s s rfl rfl rfl rfl rfl trivial
  have run_eq : (m.call ctx h (c.prepend u) s).2 = (m.call ctx h c s).2.prepend u := run
  have caused : (m.call ctx h (c.prepend u) s).2.caused = (m.call ctx h c s).2.caused := by
    rw [run_eq, Run.caused_prepend]
  refine ⟨endings_translation u alike, run_eq, by rw [run_eq]; rfl, caused, fun untraced => ?_⟩
  rw [events_of_untraced untraced, events_of_untraced untraced, caused]

def closing : Store where
  grammar := ⟨#[{ status := .defined ⟨0, .literal "a"⟩ }, { status := .defined ⟨1, .eof⟩ },
    { status := .defined ⟨2, .expect 1 "the end"⟩ },
    { status := .defined ⟨3, .sequence .list
      [(0, some (.logged "letter" [] (.fault ""))), (2, none)]⟩ }]⟩

theorem closing_prepend :
    Config.standard.trace = false ∧
    (usual.call (.fresh .standard) 3 ⟨#['a', 'b', 'a', 'c'], 2, by decide⟩ closing).1 =
      .done (.failure ⟨.singleton "the end", 3⟩) ∧
    (usual.call (.fresh .standard) 3 ⟨#['a', 'b', 'a', 'c'], 2, by decide⟩ closing).2.events =
      [.released "letter" (.text "a")] := by
  have alone : (usual.call (.fresh .standard) 3 (.start #['a', 'c']) closing).1 =
      .done (.failure ⟨.singleton "the end", 1⟩) := rfl
  have events : (usual.call (.fresh .standard) 3 (.start #['a', 'c']) closing).2.events =
      [.released "letter" (.text "a")] := rfl
  have place : (Cursor.start #['a', 'c']).prepend #['a', 'b'] =
      ⟨#['a', 'b', 'a', 'c'], 2, by decide⟩ := rfl
  obtain ⟨ending, _, _, _, seen⟩ := call_prepend usual (.fresh .standard) 3 #['a', 'b']
    (.start #['a', 'c']) closing
  rw [place] at ending seen
  rw [alone] at ending
  exact ⟨rfl, ending, (seen rfl).trans events⟩

end Meaning

end Peg
