import Peg.Callback.Standard
import Peg.Proofs.Run.Calls
import Peg.Proofs.Run.Frames

/-!
Diagnoses. A parser that fails says what would have matched and where: the place lies between the
start and the end of the input, and what is expected was asked for by nodes that were at work. So a
failure can always be placed back into its text, and a diagnosis of it is never wanting.

Nothing but the guard, a handle without a node and the callbacks puts an end to a run. No cursor
leaves its input.
-/

namespace Peg

def Node.label? : Node → Option String
  | .literal text => some text
  | .fail message => some message
  | .eof => some "end of input"
  | .expect _ label => some label
  | _ => none

def Node.Entered (node : Node) (journal : List Entry) : Prop :=
  ∃ h pos depth, Entry.entered h node pos depth ∈ journal

theorem Node.Entered.suffix {node : Node} {before journal : List Entry}
    (entered : node.Entered before) (h : before <:+ journal) : node.Entered journal := by
  obtain ⟨k, pos, depth, mem⟩ := entered
  exact ⟨k, pos, depth, h.subset mem⟩

theorem Run.entered_opened (s : Run) (trace : Bool) (h : HandleId) (node : Node) (c : Cursor)
    (g : Guard) : node.Entered (s.opened trace h node c g).journal := by
  refine ⟨h, c.pos, g.depth, ?_⟩
  cases trace with
  | false => exact List.mem_cons_self ..
  | true => exact List.mem_cons_of_mem _ (List.mem_cons_self ..)

/-- A failure of a run that started from `c`, as its journal bears it out. -/
structure Failure.Sound (f : Failure) (journal : List Entry) (c : Cursor) : Prop where
  start_le : (c.pos : Int) ≤ f.position
  le_size : f.position ≤ c.input.size
  expects : ∃ label, label ∈ f.expected
  reported : ∀ label, label ∈ f.expected → ∃ node : Node, node.label? = some label ∧
    node.Entered journal

namespace Failure.Sound

variable {f g : Failure} {journal before : List Entry} {c next : Cursor}

theorem singleton {node : Node} {label : String} (reports : node.label? = some label)
    (entered : node.Entered journal) (c : Cursor) : Sound ⟨.singleton label, c.pos⟩ journal c where
  start_le := Int.le_refl _
  le_size := Int.ofNat_le.mpr c.pos_le
  expects := ⟨label, Labels.mem_singleton.mpr rfl⟩
  reported a mem := by
    obtain rfl := Labels.mem_singleton.mp mem
    exact ⟨node, reports, entered⟩

theorem suffix (sound : f.Sound before c) (h : before <:+ journal) : f.Sound journal c where
  start_le := sound.start_le
  le_size := sound.le_size
  expects := sound.expects
  reported label mem := by
    obtain ⟨node, reports, entered⟩ := sound.reported label mem
    exact ⟨node, reports, entered.suffix h⟩

theorem earlier (sound : f.Sound journal next) (reaches : c.Reaches next) : f.Sound journal c where
  start_le := Int.le_trans (Int.ofNat_le.mpr reaches.2) sound.start_le
  le_size := reaches.1 ▸ sound.le_size
  expects := sound.expects
  reported := sound.reported

theorem merge (sound : f.Sound journal c) (sound' : g.Sound journal c) :
    (f.merge g).Sound journal c where
  start_le := Int.le_trans sound.start_le (Int.le_max_left _ _)
  le_size := Int.max_le.mpr ⟨sound.le_size, sound'.le_size⟩
  expects := by
    obtain ⟨label, mem⟩ := sound.expects
    exact ⟨label, Labels.mem_union.mpr (.inl mem)⟩
  reported label mem := by
    obtain mem | mem := Labels.mem_union.mp mem
    · exact sound.reported label mem
    · exact sound'.reported label mem

theorem join {failed : Option Failure} (before : ∀ g, failed = some g → g.Sound journal c)
    (sound : f.Sound journal c) : (Failure.join failed f).Sound journal c := by
  cases failed with
  | none => exact sound
  | some g => exact (before g rfl).merge sound

end Failure.Sound

theorem Leaf.sound {node : Node} {c : Cursor} {f : Failure} {journal : List Entry}
    (leaf : Leaf node c (.failure f)) (entered : node.Entered journal) : f.Sound journal c := by
  cases leaf with
  | unread => exact .singleton rfl entered c
  | fail => exact .singleton rfl entered c
  | unended => exact .singleton rfl entered c

def Stage.Grounded (journal : List Entry) (c : Cursor) : Stage → Prop
  | .body node => node.Entered journal
  | .alternatives failed _ => ∀ f, failed = some f → f.Sound journal c
  | .giveUp _ f => f.Sound journal c
  | _ => True

/-- The entry of the journal at which a fault came up: the guard had no room, a handle had no node,
or a callback raised it. -/
def Entry.Raises (fault : Fault) : Entry → Prop
  | .refused _ _ _ => ∃ limit, fault = .depthLimit limit
  | .missing _ other _ => fault = other ∧ ∃ name, fault = .undefined name ∨ fault = .deleted name
  | .released _ _ ending _ _ => ending = .raised fault
  | .folded _ _ ending _ _ | .applied _ _ ending _ _ => ending = .raised fault
  | _ => False

def Sourced : List Entry → Prop :=
  Along fun e before => ∀ h fault depth, e = .left h (.raised fault) depth →
    ∃ d ∈ before, d.Raises fault

structure Sources (before : List Entry) (ending : Ending Unit) (after : List Entry) : Prop where
  suffix : before <:+ after
  raised : ∀ fault, ending = .raised fault → ∃ e ∈ after, e.Raises fault
  sourced : Sourced before → Sourced after

theorem Sources.record {journal : List Entry} {ending : Ending Unit} {e : Entry}
    (inside : ∀ h ending depth, e ≠ .left h ending depth)
    (raises : ∀ fault, ending = .raised fault → e.Raises fault) :
    Sources journal ending (e :: journal) where
  suffix := List.suffix_cons _ _
  raised fault eq := ⟨e, List.mem_cons_self .., raises fault eq⟩
  sourced before := before.cons fun h _ depth left => absurd left (inside h _ depth)

theorem Sources.next {first second third : List Entry} {ending ending' : Ending Unit}
    (sources : Sources first ending second) (sources' : Sources second ending' third) :
    Sources first ending' third :=
  ⟨sources.suffix.trans sources'.suffix, sources'.raised, sources'.sourced ∘ sources.sourced⟩

theorem Handle.fault?_eq_some {handle : Handle} {fault : Fault} (h : handle.fault? = some fault) :
    ∃ name, fault = .undefined name ∨ fault = .deleted name := by
  unfold fault? at h
  split at h
  · exact ⟨_, .inr (Option.some.inj h).symm⟩
  · exact ⟨_, .inl (Option.some.inj h).symm⟩
  · cases h

theorem Run.sources_opened (s : Run) (trace : Bool) (h : HandleId) (node : Node) (c : Cursor)
    (g : Guard) : Sources s.journal (.done ()) (s.opened trace h node c g).journal := by
  have entered : Sources s.journal (.done ()) (.entered h node c.pos g.depth :: s.journal) :=
    .record (fun _ _ _ => nofun) nofun
  cases trace with
  | false => exact entered
  | true => exact entered.next (.record (fun _ _ _ => nofun) nofun)

theorem Sources.closed {before : List Entry} {s : Run} {ending : Ending Result}
    (sources : Sources before ending.outcome s.journal) (trace : Bool) (h : HandleId) (c : Cursor) :
    Sources before ending.outcome (s.closed trace h c ending).journal := by
  obtain ⟨s', logged, closed⟩ := s.closed_cases trace h c ending
  have there : Sources before ending.outcome s'.journal := by
    obtain rfl | ⟨record, rfl⟩ := logged
    · exact sources
    · refine ⟨sources.suffix.trans (List.suffix_cons _ _), fun fault raised => ?_, fun start => ?_⟩
      · obtain ⟨e, mem, raises⟩ := sources.raised fault raised
        exact ⟨e, List.mem_cons_of_mem _ mem, raises⟩
      · exact (sources.sourced start).cons fun _ _ _ => nofun
  rw [closed]
  refine ⟨there.suffix.trans (List.suffix_cons _ _), fun fault raised => ?_, fun start => ?_⟩
  · obtain ⟨e, mem, raises⟩ := there.raised fault raised
    exact ⟨e, List.mem_cons_of_mem _ mem, raises⟩
  · refine (there.sourced start).cons fun k fault depth left => ?_
    cases left
    exact there.raised fault rfl

namespace Meaning

variable {m : Meaning} {trace : Bool}

theorem spans_sources (m : Meaning) (trace : Bool) :
    m.Spans trace fun s ending s' => Sources s.journal ending s'.journal where
  done s := ⟨List.suffix_rfl, nofun, id⟩
  next := Sources.next
  resumed first second := by
    refine ⟨first.suffix.trans second.suffix, fun fault raised => ?_, (first.next second).sourced⟩
    obtain ⟨e, mem, raises⟩ := first.raised fault raised
    exact ⟨e, second.suffix.subset mem, raises⟩
  replaced first second _ := first.next second
  missing missing := .record (fun _ _ _ => nofun) fun fault raised => by
    cases raised
    exact ⟨rfl, Handle.fault?_eq_some missing⟩
  refused _ enter := .record (fun _ _ _ => nofun) fun fault raised => by
    cases raised
    exact ⟨_, (Guard.enter_eq_error_iff.mp enter).2⟩
  entered _ _ _ inside := ((Run.sources_opened ..).next inside).closed ..
  release h := by
    cases h
    exact .record (fun _ _ _ => nofun) fun _ => id
  fold h := by
    cases h
    exact .record (fun _ _ _ => nofun) fun _ => Ending.outcome_eq_raised_iff.mp
  apply h := by
    cases h
    exact .record (fun _ _ _ => nofun) fun _ => Ending.outcome_eq_raised_iff.mp

theorem Ran.sound {stage : Stage} {c : Cursor} {s s' : Run} {f : Failure}
    (ran : m.Ran trace stage c s (.done (.failure f)) s') (grounded : stage.Grounded s.journal c) :
    f.Sound s'.journal c := by
  generalize eq : Ending.done (Result.failure f) = ending at ran
  induction ran generalizing f with
  | missing | refused => cases eq
  | @entered h c s body g ending s' _ _ _ ih =>
    have inside := ih (s.entered_opened trace h body.node c g) eq
    exact inside.suffix ((steps_journal (m := m)).closed s' trace h c ending)
  | leaf leaf =>
    cases eq
    exact leaf.sound grounded
  | choice _ ih => exact ih nofun eq
  | exhausted =>
    cases eq
    exact grounded _ rfl
  | settled _ unfailed => exact absurd eq.symm (unfailed _)
  | @passed failed h hs c s f s₁ ending s' ran _ ih ih' =>
    have first := ih trivial rfl
    have before : ∀ g, failed = some g → g.Sound s₁.journal c := fun g at_g =>
      (grounded g at_g).suffix ran.journal
    refine ih' (fun g at_g => ?_) eq
    cases at_g
    exact first.join before
  | awaited _ _ ih => exact ih trivial eq
  | unwound _ pass => exact absurd eq.symm (unwind_ne_done pass _)
  | @folded _ _ _ _ ending _ work => rcases ending with _ | _ | _ <;> cases eq
  | @gaveUp held f c s ending s' pass =>
    cases eq
    cases giveUp_done pass
    exact grounded.suffix (((steps_journal (m := m)).spans false).giveUp pass)
  | sequence _ ih | repetition _ ih => exact ih trivial eq
  | itemsDone _ ih | turnsFull _ _ ih => exact ih trivial eq
  | itemDone ran _ _ ih | turnMoved _ ran _ _ _ ih | turnStill _ ran _ _ _ ih =>
    exact (ih trivial eq).earlier ran.reaches
  -- The child's failure is what is given up with.
  | itemFailed _ _ ih ih' | turnShort _ _ _ _ ih ih' => exact ih' (ih trivial rfl) eq
  | turnFailed _ _ _ _ _ ih => exact ih trivial eq
  | itemEnded _ early | turnEnded _ _ early => exact absurd eq.symm (early _)
  | @applied _ _ _ _ _ _ _ ending => rcases ending with _ | _ | _ <;> cases eq
  | unapplied _ _ ih => exact ih trivial eq
  | @expect item label c s ending s' ran ih =>
    rcases ending with (_ | g) | _ | _
    · cases eq
    · simp only [Ending.map, Result.labelled] at eq
      split at eq
      · cases eq
        exact .singleton rfl (grounded.suffix ran.journal) c
      · cases eq
        exact ih trivial rfl
    · cases eq
    · cases eq

end Meaning

theorem Text.quote_ne_end (s : String) : Text.quote s ≠ "end of input" := by
  intro eq
  have marked := Text.toList_quote s Text.isPrintable
  rw [eq, Text.encode] at marked
  have mark : 'e' = Text.chooseMark s.toList := (List.cons.inj marked).1
  rcases Text.chooseMark_eq s.toList with single | double
  · exact absurd (mark.trans single) (by decide)
  · exact absurd (mark.trans double) (by decide)

/-- A diagnostic tells where in its text a failure is, and what stands there. -/
structure Diagnostic.Describes (d : Diagnostic) (f : Failure) (input : Input) : Prop where
  expected : d.expected = f.expected
  position : d.position = f.position
  place : ∃ c : Cursor, c.input = input ∧ (c.pos : Int) = f.position ∧
    (d.line, d.column) = c.lineColumn
  found : ∀ (pos : Nat) (char : Char), f.position = pos → input[pos]? = some char →
    d.found = Text.quote (String.singleton char)
  atEnd : d.found = "end of input" ↔ f.position = input.size

theorem Diagnostic.ofFailure_describes {f : Failure} {input : Input} (nonneg : 0 ≤ f.position)
    (le_size : f.position ≤ input.size) (sourceName : String) :
    ∃ d, Diagnostic.ofFailure f input sourceName = .ok d ∧ d.Describes f input ∧
      d.sourceName = sourceName := by
  obtain ⟨labels, position⟩ := f
  obtain ⟨pos, rfl⟩ := Int.eq_ofNat_of_zero_le nonneg
  have le : pos ≤ input.size := Int.ofNat_le.mp le_size
  let c : Cursor := ⟨input, pos, le⟩
  refine ⟨⟨labels, pos, c.lineColumn.1, c.lineColumn.2, foundAt input pos, sourceName⟩, ?_, ?_, rfl⟩
  · simp only [ofFailure, Cursor.ofPos_of_le le]
    rfl
  · refine ⟨rfl, rfl, ⟨c, rfl, rfl, rfl⟩, fun pos' char at_pos there => ?_, ?_⟩
    · cases Int.ofNat.inj at_pos
      simp only [foundAt, there]
    · unfold foundAt
      rcases Nat.lt_or_eq_of_le le with lt | rfl
      · simp only [Array.getElem?_eq_getElem lt, Text.quote_ne_end, false_iff, Int.ofNat_inj]
        exact Nat.ne_of_lt lt
      · simp

namespace Meaning

variable {m : Meaning}

theorem parse_failure_placed {h : HandleId} {text : String} {config : Config} {w w' : World}
    {f : Failure} (parsed : m.parse h text config w = (.done (.failure f), w')) :
    0 ≤ f.position ∧ f.position ≤ (Input.ofString text).size := by
  have ending := m.parse_ending h text config w
  rw [parsed] at ending
  have ran := ran_call (m := m) (.fresh config) h (.start (.ofString text)) w.store
  rw [← ending] at ran
  have sound := ran.sound trivial
  exact ⟨sound.start_le, sound.le_size⟩

theorem runParser_cases (m : Meaning) (h : HandleId) (text : String) (config : Config) (w : World) :
    (∃ v next w', m.parse h text config w = (.done (.success v next), w') ∧
      m.runParser h text config w = (.done (.inl v), w')) ∨
    (∃ f d w', m.parse h text config w = (.done (.failure f), w') ∧
      m.runParser h text config w = (.done (.inr d), w') ∧
      d.Describes f (.ofString text) ∧ d.sourceName = config.sourceName) ∨
    (∃ fault w', m.parse h text config w = (.raised fault, w') ∧
      m.runParser h text config w = (.raised fault, w')) ∨
    (∃ message w', m.parse h text config w = (.aborted message, w') ∧
      m.runParser h text config w = (.aborted message, w')) := by
  rw [runParser, Proc.bind_eq]
  rcases parsed : m.parse h text config w with ⟨(⟨v, next⟩ | f) | fault | message, w'⟩
  · rw [Proc.andThen_done parsed]
    exact .inl ⟨v, next, w', rfl, rfl⟩
  · obtain ⟨nonneg, le_size⟩ := parse_failure_placed parsed
    obtain ⟨d, placed, describes, source⟩ :=
      Diagnostic.ofFailure_describes nonneg le_size config.sourceName
    rw [Proc.andThen_done parsed]
    simp only [placed]
    exact .inr (.inl ⟨f, d, w', rfl, rfl, describes, source⟩)
  · rw [Proc.andThen_raised parsed]
    exact .inr (.inr (.inl ⟨fault, w', rfl, rfl⟩))
  · rw [Proc.andThen_aborted parsed]
    exact .inr (.inr (.inr ⟨message, w', rfl, rfl⟩))

/-- Where a run ends with a result, the result lies between its start and the end of the input, and
a failure expects what nodes at work asked for. Every fault that a call is left with came up at the
guard, at a handle without a node or in a callback: no cursor is placed outside its input. So the
diagnostic of a failed parse can be made, and a parser run on a text yields a value or raises a
fault exactly where the parse does. -/
theorem run_diagnosed (m : Meaning) :
    (∀ (ctx : Context) (h : HandleId) (c : Cursor) (s : Store) (ending : Ending Result) (run : Run),
      m.call ctx h c s = (ending, run) →
      (∀ v next, ending = .done (.success v next) →
        next.input = c.input ∧ c.pos ≤ next.pos ∧ next.pos ≤ c.input.size) ∧
      (∀ f, ending = .done (.failure f) → f.Sound run.journal c) ∧
      (∀ fault, ending = .raised fault → ∃ e ∈ run.journal, e.Raises fault) ∧
      ∀ after k fault depth before,
        run.journal = after ++ .left k (.raised fault) depth :: before →
        ∃ e ∈ before, e.Raises fault) ∧
    ∀ (h : HandleId) (text : String) (config : Config) (w w' : World),
      (∀ v, m.runParser h text config w = (.done (.inl v), w') ↔
        ∃ next, m.parse h text config w = (.done (.success v next), w')) ∧
      (∀ f, m.parse h text config w = (.done (.failure f), w') →
        ∃ d, m.runParser h text config w = (.done (.inr d), w') ∧
          d.Describes f (.ofString text) ∧ d.sourceName = config.sourceName) ∧
      ∀ fault, m.runParser h text config w = (.raised fault, w') ↔
        m.parse h text config w = (.raised fault, w') := by
  constructor
  · intro ctx h c s ending run call
    have ran := ran_call (m := m) ctx h c s
    rw [call] at ran
    have sources := (spans_sources m ctx.config.trace).ran ran
    refine ⟨?_, ?_, ?_, fun after k fault depth before split => ?_⟩
    · rintro v next rfl
      have reaches := ran.reaches
      exact ⟨reaches.1, reaches.2, reaches.1 ▸ next.pos_le⟩
    · rintro f rfl
      exact ran.sound trivial
    · rintro fault rfl
      exact sources.raised fault rfl
    · exact sources.sourced (along_nil _) after _ before split k fault depth rfl
  · intro h text config w w'
    obtain ⟨v, next, w₁, parsed, ran⟩ | ⟨f, d, w₁, parsed, ran, describes, source⟩ |
      ⟨fault, w₁, parsed, ran⟩ | ⟨message, w₁, parsed, ran⟩ := runParser_cases m h text config w
    · simp [parsed, ran]
    · rw [parsed, ran]
      refine ⟨by simp, fun f' same => ?_, by simp⟩
      cases same
      exact ⟨d, rfl, describes, source⟩
    · simp [parsed, ran]
    · simp [parsed, ran]

def lines : Store where
  grammar := ⟨#[{ status := .defined ⟨0, .sequence .list [(1, none), (2, none)]⟩ },
    { status := .defined ⟨1, .literal "a\n"⟩ }, { status := .defined ⟨2, .expect 3 "the end"⟩ },
    { status := .defined ⟨3, .eof⟩ }]⟩

theorem lines_diagnosed :
    (∃ run, usual.call (.fresh .standard) 0 (.start #['a', '\n', 'c']) lines =
        (.done (.failure ⟨.singleton "the end", 2⟩), run) ∧
      Failure.Sound ⟨.singleton "the end", 2⟩ run.journal (.start #['a', '\n', 'c'])) ∧
    ∃ w d, usual.parse 0 "a\nc" .standard { store := lines } =
        (.done (.failure ⟨.singleton "the end", 2⟩), w) ∧
      usual.runParser 0 "a\nc" .standard { store := lines } = (.done (.inr d), w) ∧
      d.Describes ⟨.singleton "the end", 2⟩ #['a', '\n', 'c'] ∧ d.sourceName = "" ∧
      d.line = 2 ∧ d.column = 1 ∧ d.found = "'c'" := by
  have call : usual.call (.fresh .standard) 0 (.start #['a', '\n', 'c']) lines =
      (.done (.failure ⟨.singleton "the end", 2⟩),
        (usual.call (.fresh .standard) 0 (.start #['a', '\n', 'c']) lines).2) := rfl
  have ending := usual.parse_ending 0 "a\nc" .standard { store := lines }
  have input : Input.ofString "a\nc" = #['a', '\n', 'c'] := by decide
  rw [input, call] at ending
  rcases parsed : usual.parse 0 "a\nc" .standard { store := lines } with ⟨parsing, w⟩
  rw [parsed] at ending
  obtain rfl : parsing = .done (.failure ⟨.singleton "the end", 2⟩) := ending
  obtain ⟨d, ran, describes, source⟩ :=
    ((run_diagnosed usual).2 0 "a\nc" .standard _ _).2.1 _ parsed
  rw [input] at describes
  obtain ⟨c, at_input, at_pos, place⟩ := describes.place
  obtain rfl : c = ⟨#['a', '\n', 'c'], 2, by decide⟩ :=
    Cursor.eq_of_pos at_input (Int.ofNat_inj.mp at_pos)
  obtain ⟨line, column⟩ := Prod.mk.inj place
  have sound := ((run_diagnosed usual).1 _ _ _ _ _ _ call).2.1 _ rfl
  exact ⟨⟨_, call, sound⟩, w, d, rfl, ran, describes, source, line, column,
    describes.found 2 'c' rfl rfl⟩

end Meaning

end Peg
