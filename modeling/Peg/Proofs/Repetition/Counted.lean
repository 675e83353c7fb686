import Mathlib
import Peg.Callback.Standard
import Peg.Proofs.Lifecycle.Building
import Peg.Proofs.Run.Simulation

/-!
Counted repetitions. A repetition of exactly `n` turns goes through the same stages as a sequence of
`n` times the same item: it stops where the sequence stops, and it gives up, releases and folds the
same values. Called from one store, the two are told apart by nothing but what they are called.
-/

namespace Peg

namespace Node

def counted (n : Nat) (fold : Fold) (item : HandleId) (release : Option Release) : Node :=
  .repetition fold item n (some n) release

def repeated (n : Nat) (fold : Fold) (item : HandleId) (release : Option Release) : Node :=
  .sequence fold (List.replicate n (item, release))

end Node

namespace Build

variable {fold : Fold} {release : Option Release}

theorem builds_count (n : Nat) (folds : fold.callable = true)
    (releases : release.all Release.callable = true) (item : HandleId) :
    (count n fold (.parser item) release).Builds fun h g =>
      g.Holds h (.counted n fold item release) := by
  have natural : ¬ (n : Int) < 0 := by omega
  rw [count, if_neg natural]
  exact builds_repetition .count folds releases item n (some n)

theorem mapM_checkPart_replicate (n : Nat) (releases : release.all Release.callable = true)
    (item : HandleId) :
    (List.replicate n (Part.pair (.parser item) release)).mapM checkPart =
      .ok (List.replicate n (item, release)) := by
  have part : checkPart (.pair (.parser item) release) = .ok (item, release) := by
    rw [checkPart, checkRelease, if_pos releases]
    rfl
  induction n with
  | zero => rfl
  | succ n ih =>
    rw [List.replicate_succ, List.mapM_cons, part, ih]
    rfl

theorem builds_repeated {n : Nat} (some_turn : 1 ≤ n) (folds : fold.callable = true)
    (releases : release.all Release.callable = true) (item : HandleId) :
    (sequence fold (List.replicate n (.pair (.parser item) release))).Builds fun h g =>
      g.Holds h (.repeated n fold item release) := by
  have checked : sequence fold (List.replicate n (.pair (.parser item) release)) =
      made (.ok (.repeated n fold item release)) := by
    have some_part : (List.replicate n (Part.pair (.parser item) release)).isEmpty = false := by
      cases n with
      | zero => omega
      | succ n => rfl
    rw [sequence, checkFold, if_pos folds, some_part, mapM_checkPart_replicate n releases]
    rfl
  rw [checked]
  exact Action.builds_make _

end Build

def Run.since (first : Entry) (s : Run) : Run :=
  { s with journal := s.journal.dropLast ++ [first] }

namespace Run

variable {s : Run} {first : Entry}

theorem since_of_last {inside : List Entry} {last : Entry}
    (journal : s.journal = inside ++ [last]) :
    s.since first = { s with journal := inside ++ [first] } := by
  simp [since, journal]

theorem since_record (begun : s.journal ≠ []) (e : Entry) :
    (s.record e).since first = (s.since first).record e := by
  simp [since, record, List.dropLast_cons_of_ne_nil begun]

theorem callback_since {α : Type} {entry : Ending α → List Event → Int → Entry}
    {work : Callback α} {s' : Run} {ending : Ending α} (begun : s.journal ≠ [])
    (called : callback entry work s = (ending, s')) :
    callback entry work (s.since first) = (ending, s'.since first) ∧ s'.journal ≠ [] := by
  cases called
  constructor
  · simp [callback, since, record, List.dropLast_cons_of_ne_nil begun]
  · exact List.cons_ne_nil _ _

end Run

namespace Meaning

variable {m : Meaning}

theorem views_since (m : Meaning) (first : Entry) :
    Views m m false false (fun _ => True) (fun s => s.journal ≠ []) (Run.since first) where
  before _ _ := trivial
  store _ := rfl
  missing h fault begun := ⟨List.cons_ne_nil _ _, Run.since_record begun _⟩
  refused h pos fault begun enter _ :=
    ⟨enter, List.cons_ne_nil _ _, Run.since_record begun _⟩
  opened {s} h node c g begun enter :=
    ⟨g, enter, List.cons_ne_nil _ _, Run.since_record (s := { s with guard := g }) begun _⟩
  closed {s} h c ending begun := by
    refine ⟨List.cons_ne_nil _ _, ?_⟩
    exact Run.since_record (s := { s with guard := s.guard.exit }) begun _
  release begun work _ := Run.callback_since begun work
  fold begun work _ := Run.callback_since begun work
  apply begun work _ := Run.callback_since begun work

theorem Ran.since {node : Node} {c : Cursor} {s s' : Run} {ending : Ending Result}
    (ran : m.Ran false (.body node) c s ending s') (begun : s.journal ≠ []) (first : Entry) :
    m.Ran false (.body node) c (s.since first) ending (s'.since first) := by
  have nodes : node.Alike Eq Eq node := Node.alike_refl (fun _ _ => rfl) fun _ => rfl
  obtain ⟨ending', t', ran', alike, _, rfl⟩ := (views_since m first).simulates.ran ran
    (.body nodes node.calls_all) rfl ⟨begun, rfl⟩ trivial
  rwa [Pairing.eq_of_same alike] at ran'

section

variable {trace : Bool} {fold : Fold} {item : HandleId} {release : Option Release} {n : Nat}

theorem Ran.items_of_turns {left : Nat} {held : Held} {c : Cursor} {s s' : Run}
    {ending : Ending Result} (count : held.length + left = n)
    (ran : m.Ran trace (.turns fold item n (some n) release held) c s ending s') :
    m.Ran trace (.items fold (List.replicate left (item, release)) held) c s ending s' := by
  induction left generalizing held c s with
  | zero =>
    have full : Full (some (n : Int)) held.length := ⟨n, rfl, by omega⟩
    cases ran with
    | turnsFull _ finish => exact .itemsDone finish
    | turnMoved more | turnStill more | turnFailed more | turnShort more | turnEnded more =>
      exact absurd full more
  | succ left ih =>
    have short : (held.length : Int) < n := by omega
    rw [List.replicate_succ]
    cases ran with
    | turnsFull full =>
      obtain ⟨_, eq, le⟩ := full
      cases eq
      omega
    | turnMoved _ wait _ rest =>
      refine .itemDone wait (ih ?_ rest)
      rw [List.length_append, List.length_singleton]
      omega
    | turnStill _ _ still => nomatch still.1
    | turnFailed _ _ enough => omega
    | turnShort _ wait _ rest => exact .itemFailed wait rest
    | turnEnded _ wait early => exact .itemEnded wait early

theorem Ran.repeated_of_counted {c : Cursor} {s s' : Run} {ending : Ending Result}
    (ran : m.Ran trace (.body (.counted n fold item release)) c s ending s') :
    m.Ran trace (.body (.repeated n fold item release)) c s ending s' := by
  cases ran with
  | leaf leaf => cases leaf
  | repetition turns => exact .sequence (turns.items_of_turns (by simp))

end

end Meaning

/-- Calls of two handles that go the same way: they end alike and leave the same store and the same
guard, and the same is seen of them. Both are refused, or both are let in, and then all that happens
inside is the same, at the same depths. -/
structure Parallel (c : Cursor) (h k : HandleId) (node node' : Node)
    (first second : Ending Result × Run) : Prop where
  ending : second.1 = first.1
  store : second.2.store = first.2.store
  guard : second.2.guard = first.2.guard
  events : second.2.events = first.2.events
  journal : (∃ depth, first.2.journal = [.refused h c.pos depth] ∧
      second.2.journal = [.refused k c.pos depth]) ∨
    ∃ inside depth depth',
      first.2.journal = .left h first.1 depth' :: (inside ++ [.entered h node c.pos depth]) ∧
      second.2.journal = .left k first.1 depth' :: (inside ++ [.entered k node' c.pos depth])

namespace Meaning

theorem parallel_of_ran {m : Meaning} {node node' : Node} {h k : HandleId} {s : Store}
    (same : ∀ {c s ending s'}, m.Ran false (.body node) c s ending s' →
      m.Ran false (.body node') c s ending s')
    (at_h : s.grammar.Holds h node) (at_k : s.grammar.Holds k node') {ctx : Context}
    (untraced : ctx.config.trace = false) (c : Cursor) :
    Parallel c h k node node' (m.call ctx h c s) (m.call ctx k c s) := by
  obtain ⟨body, status, rfl⟩ := at_h
  obtain ⟨body', status', rfl⟩ := at_k
  have ran := ran_call (m := m) ctx h c s
  have ran' := ran_call (m := m) ctx k c s
  rw [untraced] at ran ran'
  generalize m.call ctx h c s = out at ran ⊢
  generalize m.call ctx k c s = out' at ran' ⊢
  obtain ⟨ending, t⟩ := out
  obtain ⟨ending', t'⟩ := out'
  dsimp only at ran ran'
  cases ran with
  | missing missing => simp [Handle.fault?, status] at missing
  | refused _ enter =>
    obtain ⟨rfl, rfl⟩ := ran'.unique (.refused status' enter)
    exact ⟨rfl, rfl, rfl, rfl, .inl ⟨_, rfl, rfl⟩⟩
  | @entered _ _ _ found g _ t₁ found_status enter inside =>
    cases status.symm.trans found_status
    have begun : (Run.opened ⟨s, ctx.guard, []⟩ false h body.node c g).journal ≠ [] :=
      List.cons_ne_nil _ _
    obtain ⟨entries, journal⟩ := inside.journal
    have other := (same inside).since begun (.entered k body'.node c.pos g.depth)
    obtain ⟨rfl, rfl⟩ := ran'.unique (.entered status' enter other)
    rw [Run.since_of_last journal.symm]
    refine ⟨rfl, rfl, rfl, ?_, .inr ⟨entries, g.depth, t₁.guard.exit.depth, ?_, rfl⟩⟩
    · simp [Run.events, Run.closed, Run.record, ← journal, Run.opened, Entry.events]
    · simp [Run.closed, Run.record, ← journal, Run.opened]

/-- A counted repetition and a sequence of as many items are built alike, and called from one store
they go the same way, whatever the callbacks do. -/
theorem call_counted (m : Meaning) {n : Nat} (some_turn : 1 ≤ n) {fold : Fold} {item : HandleId}
    {release : Option Release} (folds : fold.callable = true)
    (releases : release.all Release.callable = true) :
    ((Build.count n fold (.parser item) release).Builds fun h g =>
      g.Holds h (.counted n fold item release)) ∧
    ((Build.sequence fold (List.replicate n (.pair (.parser item) release))).Builds fun k g =>
      g.Holds k (.repeated n fold item release)) ∧
    ∀ (s : Store) (h k : HandleId) (ctx : Context) (c : Cursor),
      s.grammar.Holds h (.counted n fold item release) →
      s.grammar.Holds k (.repeated n fold item release) → ctx.config.trace = false →
      Parallel c h k (.counted n fold item release) (.repeated n fold item release)
        (m.call ctx h c s) (m.call ctx k c s) := by
  refine ⟨Build.builds_count n folds releases item, Build.builds_repeated some_turn folds releases
    item, fun s h k ctx c at_h at_k untraced => ?_⟩
  exact parallel_of_ran Ran.repeated_of_counted at_h at_k untraced c

def jammed : Release := .logged "drop" [2] (.fault "stuck")

def triplets : Store where
  grammar := ⟨#[{ status := .defined ⟨0, .literal "a"⟩ },
    { status := .defined ⟨1, .apply 0 (.acts [.log "letter"])⟩ },
    { status := .defined ⟨2, .counted 3 .list 1 (some jammed)⟩ },
    { status := .defined ⟨3, .repeated 3 .list 1 (some jammed)⟩ }]⟩

def tripletsRun (h : HandleId) : Ending Result × Run :=
  usual.call shallow h (.start #['a', 'a', 'b']) triplets

/-- The third letter is missing, and a release stops in the middle of the pass over the two that are
there: both calls go through another pass and end with that fault. -/
theorem triplets_counted :
    1 ≤ 3 ∧ Fold.list.callable = true ∧ (some jammed).all Release.callable = true ∧
    triplets.grammar.Holds 2 (.counted 3 .list 1 (some jammed)) ∧
    triplets.grammar.Holds 3 (.repeated 3 .list 1 (some jammed)) ∧
    shallow.config.trace = false ∧
    Parallel (.start #['a', 'a', 'b']) 2 3 (.counted 3 .list 1 (some jammed))
      (.repeated 3 .list 1 (some jammed)) (tripletsRun 2) (tripletsRun 3) ∧
    (tripletsRun 2).1 = .raised (.requested "stuck") ∧
    (tripletsRun 3).2.events =
      [.mapped "letter" (.text "a"), .mapped "letter" (.text "a"), .released "drop" (.text "a"),
        .released "drop" (.text "a"), .released "drop" (.text "a"),
        .released "drop" (.text "a")] := by
  have counted : triplets.grammar.Holds 2 (.counted 3 .list 1 (some jammed)) := ⟨_, rfl, rfl⟩
  have repeated : triplets.grammar.Holds 3 (.repeated 3 .list 1 (some jammed)) := ⟨_, rfl, rfl⟩
  obtain ⟨_, _, parallel⟩ := @call_counted usual 3 (by decide) .list 1 (some jammed) rfl rfl
  have both : Parallel (.start #['a', 'a', 'b']) 2 3 (.counted 3 .list 1 (some jammed))
      (.repeated 3 .list 1 (some jammed)) (tripletsRun 2) (tripletsRun 3) :=
    parallel triplets 2 3 shallow _ counted repeated rfl
  exact ⟨by decide, rfl, rfl, counted, repeated, rfl, both, by cbv, by cbv⟩

end Meaning

end Peg
