import Mathlib
import Peg.Proofs.Teardown.Pass

namespace Peg

def passEvents (inside : List (List HandleId)) : List Event :=
  inside.flatMap fun hs => [.logged (.tornDown hs.length), .deleted hs.length]

def Turn.events (s : Store) (t : Turn) : List Event :=
  .torn t.handle (s.owners t.handle) (s.grammar.get t.handle).torn.shown :: passEvents t.inside

def Ending.count : Ending Nat → Nat
  | .done count => count
  | _ => 0

theorem length_flatMap_torn (turns : List Turn) :
    (turns.flatMap Turn.torn).length =
      turns.length + ((turns.flatMap (·.inside)).map List.length).sum := by
  induction turns with
  | nil => rfl
  | cons t turns ih =>
    simp [Turn.torn, ih]
    omega

namespace Action

theorem deletesInside_fell (s : Store) {g : Grammar} (closed : g.Closed) {xs : List HandleId}
    (exist : ∀ x ∈ xs, x < g.size) (events : List Event) :
    ∃ inside g', inside.length = xs.length ∧ g.Tears inside.flatten g' ∧ g.Felled xs g' ∧
      xs.forM deleteInside ⟨{ s with grammar := g }, events⟩ =
        (.done (), ⟨{ s with grammar := g' }, (passEvents inside).reverse ++ events⟩) := by
  induction xs generalizing g events with
  | nil => exact ⟨[], g, rfl, .nil, .nothing g, rfl⟩
  | cons x xs ih =>
    obtain ⟨hs, g₁, tears, felled, run⟩ :=
      deleteInside_fells s closed (exist x (List.mem_cons_self ..)) events
    obtain ⟨inside, g', length, tears', felled', run'⟩ :=
      ih (felled.closed closed)
        (fun y mem => by rw [felled.size]; exact exist y (List.mem_cons_of_mem _ mem))
        (.deleted hs.length :: .logged (.tornDown hs.length) :: events)
    refine ⟨hs :: inside, g', by simp [length], tears.append tears', ?_, ?_⟩
    · exact (felled.next felled').congr fun y => by simp [or_comm]
    · change Proc.andThen (deleteInside x) (fun _ => xs.forM deleteInside) _ = _
      rw [Proc.andThen_done run, run']
      simp [passEvents]

theorem tell_tells {watcher : Watcher} (calm : ∀ call, (watcher call).stop = none) :
    Tells (tell watcher) (fun call => (watcher call).deletes) Turn.events := by
  intro s g events call h torn closed exist
  obtain ⟨inside, g', length, tears, felled, run⟩ := deletesInside_fell s closed exist
    (.torn h (s.owners h) (s.grammar.get h).torn.shown :: events)
  refine ⟨inside, g', length, tears, felled, ?_⟩
  have noted : Action.read (fun s => Event.torn h (s.owners h) (s.shown h))
      ⟨{ s with grammar := g }, events⟩ =
        (.done (.torn h (s.owners h) (s.grammar.get h).torn.shown),
          ⟨{ s with grammar := g }, events⟩) := by
    rw [← torn]
    rfl
  have note : Action.note (.torn h (s.owners h) (s.grammar.get h).torn.shown)
      ⟨{ s with grammar := g }, events⟩ = (.done (), ⟨{ s with grammar := g },
        .torn h (s.owners h) (s.grammar.get h).torn.shown :: events⟩) := rfl
  simp only [tell, calm, Proc.bind_eq]
  rw [Proc.andThen_done noted, Proc.andThen_done note, Proc.andThen_done run]
  simp [Turn.events]
  rfl

/-- Whatever grammars a watcher tears down while it is told of a teardown, in the end all is torn
down that could be reached at the start from the roots and from what the watcher asked for, and
nothing else is changed. Each handle is torn down while it stands, so once; the watcher is told of
those that the outer pass tore down, once each, and the counts of all passes are the number of
handles that have fallen. -/
theorem deleteAllTelling_fells {s : Store} {watcher : Watcher} {roots : List HandleId}
    (closed : s.grammar.Closed) (exist : ∀ r ∈ roots, r < s.grammar.size)
    (requests_exist : ∀ call, ∀ x ∈ (watcher call).deletes, x < s.grammar.size)
    (calm : ∀ call, (watcher call).stop = none) (events : List Event) :
    ∃ (turns : List Turn) (g' : Grammar),
      deleteAllTelling watcher roots ⟨s, events⟩ =
        (.done turns.length, ⟨{ s with grammar := g' },
          .logged (.tornDown turns.length) :: ((turns.flatMap (Turn.events s)).reverse ++ events)⟩) ∧
      s.grammar.Felled (requested (fun call => (watcher call).deletes) 1 turns.length ++ roots) g' ∧
      turns.map (·.inside.length) =
        (List.range' 1 turns.length).map (fun call => (watcher call).deletes.length) ∧
      s.grammar.Tears (turns.flatMap Turn.torn) g' ∧ (turns.flatMap Turn.torn).Nodup ∧
      turns.length + ((turns.flatMap (·.inside)).map List.length).sum =
        (s.grammar.fallen g').length := by
  obtain ⟨turns, g', swept, run⟩ :=
    tearDown_swept (tell_tells calm) closed requests_exist exist events
  refine ⟨turns, g', run, swept.felled, swept.inside, swept.tears, swept.tears.nodup, ?_⟩
  rw [← swept.tears.length_eq, length_flatMap_torn]

def tangle : Store where
  grammar := ⟨#[{ status := .defined ⟨0, .choice 1 [2]⟩ },
    { status := .defined ⟨1, .sequence .list [(0, none), (3, none)]⟩ },
    { status := .defined ⟨2, .repetition .list 3 0 none none⟩ },
    { status := .defined ⟨3, .literal "x"⟩ }, { name := "later" }, { status := .deleted },
    { status := .defined ⟨6, .choice 4 [5, 3]⟩ }]⟩

def meddling : Watcher := fun call => if call = 2 then ⟨[6, 0], none⟩ else {}

/-- Three handles fall to the outer pass and three to a pass inside it. -/
theorem tangle_fells :
    tangle.grammar.Closed ∧ (∀ r ∈ [0], r < tangle.grammar.size) ∧
    (∀ call, ∀ x ∈ (meddling call).deletes, x < tangle.grammar.size) ∧
    (∀ call, (meddling call).stop = none) ∧
    ∃ (turns : List Turn) (g' : Grammar),
      deleteAllTelling meddling [0] ⟨tangle, []⟩ =
        (.done 3, ⟨{ tangle with grammar := g' },
          .logged (.tornDown 3) :: (turns.flatMap (Turn.events tangle)).reverse⟩) ∧
      turns.length = 3 ∧ tangle.grammar.Felled [6, 0, 0] g' ∧
      turns.map (·.inside.length) = [0, 2, 0] ∧ (turns.flatMap Turn.torn).Nodup ∧
      (tangle.grammar.fallen g').length = 6 := by
  have closed : tangle.grammar.Closed := Grammar.closed_of_handles (by decide)
  have exist : ∀ r ∈ [0], r < tangle.grammar.size := by decide
  have requests_exist : ∀ call, ∀ x ∈ (meddling call).deletes, x < tangle.grammar.size := by
    intro call
    unfold meddling
    split
    · decide
    · exact fun _ mem => nomatch mem
  have calm : ∀ call, (meddling call).stop = none := by
    intro call
    unfold meddling
    split <;> rfl
  obtain ⟨turns, g', run, felled, inside, _, nodup, _⟩ :=
    deleteAllTelling_fells closed exist requests_exist calm []
  have counted : ∀ out, deleteAllTelling meddling [0] ⟨tangle, []⟩ = out →
      out.1.count = 3 ∧ (tangle.grammar.fallen out.2.store.grammar).length = 6 := by
    rintro _ rfl
    decide +kernel
  have requests : requested (fun call => (meddling call).deletes) 1 3 ++ [0] = [6, 0, 0] := by
    decide
  have lengths : (List.range' 1 3).map (fun call => (meddling call).deletes.length) = [0, 2, 0] := by
    decide
  obtain ⟨three, six⟩ := counted _ run
  simp only [Ending.count] at three six
  rw [three] at run inside felled
  rw [requests] at felled
  rw [lengths] at inside
  rw [List.append_nil] at run
  exact ⟨closed, exist, requests_exist, calm, turns, g', run, three, felled, inside, nodup, six⟩

end Action

end Peg
