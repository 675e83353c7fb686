import Mathlib
import Peg.Proofs.Run.Edits
import Peg.Proofs.Run.Spans

/-!
Text preservation. Where all that a grammar does with what it reads is to join it, a parser yields
exactly the text that it passed over: nothing of it is lost, doubled or out of order, and nothing
comes in that was read by an attempt that was given up.
-/

namespace Peg

namespace Value

/-- Null counts as the empty text. -/
def letters : Value → List Char
  | .text s => s.toList
  | _ => []

def Textual (v : Value) : Prop := v = .null ∨ ∃ s, v = .text s

end Value

/-- Nodes that yield what they read, joined. -/
def Node.Textual : Node → Prop
  | .literal _ | .fail _ | .eof | .choice _ _ | .expect _ _ => True
  | .pure v => v = .null ∨ v = .text ""
  | .sequence fold _ | .repetition fold _ _ _ _ => fold = .concat
  | .apply _ _ => False

def Grammar.Textual (g : Grammar) : Prop :=
  ∀ h body, (g.get h).status = .defined body → body.node.Textual

theorem Grammar.Textual.edited {g g' : Grammar} (textual : g.Textual) (edited : g.Edited g') :
    g'.Textual := by
  intro h body status
  obtain ⟨k, status⟩ := edited.exists_defined status
  exact textual k body status

def Held.Textual (held : Held) : Prop := ∀ x ∈ held, x.1.Textual

def Held.letters (held : Held) : List Char := held.flatMap fun x => x.1.letters

theorem Held.Textual.append {held : Held} (textual : held.Textual) {v : Value}
    (last : v.Textual) (release : Option Release) : Held.Textual (held ++ [(v, release)]) :=
  List.forall_mem_append.mpr ⟨textual, List.forall_mem_singleton.mpr last⟩

theorem Held.letters_append (held : Held) (v : Value) (release : Option Release) :
    Held.letters (held ++ [(v, release)]) = held.letters ++ v.letters := by
  simp [letters]

structure Meaning.Joins (m : Meaning) : Prop where
  release : ∀ r v s, s.grammar.Textual → (m.release r v s).store.grammar.Textual
  fold : ∀ compute vs, m.fold .concat vs = (Standard.fold compute .concat vs).callback

theorem Meaning.standard_joins (compute : Standard.Calculation) (levels : Nat) :
    (standard compute levels).Joins where
  release r v s textual := textual.edited ((standard_edits compute levels).release r v s)
  fold _ _ := by cases levels <;> rfl

theorem join_textual (index : Nat) {vs : List Value} (textual : ∀ v ∈ vs, v.Textual) :
    ∃ text, Standard.join index (vs.filter fun v => v.shape ≠ .null) = .ok text ∧
      text.toList = vs.flatMap Value.letters := by
  induction vs generalizing index with
  | nil => exact ⟨"", rfl, rfl⟩
  | cons v vs ih =>
    have rest_textual : ∀ v ∈ vs, v.Textual := fun v mem => textual v (List.mem_cons_of_mem _ mem)
    obtain rfl | ⟨s, rfl⟩ := textual v (List.mem_cons_self ..)
    · exact ih index rest_textual
    · obtain ⟨text, joined, letters⟩ := ih (index + 1) rest_textual
      refine ⟨s ++ text, ?_, by rw [String.toList_append, letters]; rfl⟩
      have step : Standard.join index ((Value.text s :: vs).filter fun v => v.shape ≠ .null) =
          (Standard.join (index + 1) (vs.filter fun v => v.shape ≠ .null)).map (s ++ ·) := rfl
      rw [step, joined]
      rfl

def Entry.Joined : Entry → Prop
  | .folded _ _ ending _ _ => ∃ text, ending = .done (.text text)
  | _ => True

structure Run.Textual (s : Run) : Prop where
  grammar : s.store.grammar.Textual
  joined : ∀ e ∈ s.journal, e.Joined

namespace Run.Textual

variable {s : Run}

theorem record (textual : s.Textual) (guard : Guard) {e : Entry} (joined : e.Joined) :
    (Run.record { s with guard := guard } e).Textual where
  grammar := textual.grammar
  joined d mem := by
    rcases List.mem_cons.mp mem with rfl | mem
    · exact joined
    · exact textual.joined d mem

theorem opened (textual : s.Textual) (trace : Bool) (h : HandleId) (node : Node) (c : Cursor)
    (g : Guard) : (s.opened trace h node c g).Textual := by
  have entered := textual.record g (e := .entered h node c.pos g.depth) trivial
  cases trace with
  | false => exact entered
  | true => exact entered.record g trivial

theorem closed (textual : s.Textual) (trace : Bool) (h : HandleId) (c : Cursor)
    (ending : Ending Result) : (s.closed trace h c ending).Textual := by
  obtain ⟨s', rfl | ⟨record, rfl⟩, closed⟩ := s.closed_cases trace h c ending
  · rw [closed]
    exact textual.record _ trivial
  · rw [closed]
    exact (textual.record s.guard (e := .logged record) trivial).record _ trivial

end Run.Textual

def Stage.Textual : Stage → Prop
  | .body node => node.Textual
  | .items fold _ held | .turns fold _ _ _ _ held | .finish fold held =>
    fold = .concat ∧ held.Textual
  | _ => True

def Stage.letters : Stage → List Char
  | .items _ _ held | .turns _ _ _ _ _ held | .finish _ held => held.letters
  | _ => []

/-- A stage yields the text from where it started, after what was read before. -/
def Stage.Yields (stage : Stage) (c : Cursor) (v : Value) (next : Cursor) : Prop :=
  v.Textual ∧ ∃ text, c.Spans text next ∧ v.letters = stage.letters ++ text

theorem Leaf.yields {node : Node} {c next : Cursor} {v : Value} (textual : node.Textual)
    (leaf : Leaf node c (.success v next)) : (Stage.body node).Yields c v next := by
  cases leaf with
  | @read text _ _ here input pos =>
    obtain ⟨rest, eq⟩ := here
    obtain ⟨stop, spans, _⟩ := Cursor.exists_spans eq.symm
    have same : next = stop :=
      Cursor.eq_of_pos (input.trans spans.1.symm) (pos.trans spans.pos_eq.symm)
    exact ⟨.inr ⟨text, rfl⟩, text.toList, same ▸ spans, rfl⟩
  | pure =>
    obtain rfl | rfl := textual
    · exact ⟨.inl rfl, [], .nil _, rfl⟩
    · exact ⟨.inr ⟨"", rfl⟩, [], .nil _, rfl⟩
  | ended => exact ⟨.inl rfl, [], .nil _, rfl⟩

/-- How a stage ends where the grammar joins. -/
structure Stage.Comes (stage : Stage) (c : Cursor) (ending : Ending Result) (run : Run) :
    Prop where
  textual : run.Textual
  yields : ∀ v next, ending = .done (.success v next) → stage.Yields c v next

namespace Stage.Comes

variable {here before after : Stage} {c next : Cursor} {v : Value} {s₁ s' : Run}
  {ending : Ending Result}

theorem unsuccessful (textual : s'.Textual) (failed : ∀ v next, ending ≠ .done (.success v next)) :
    here.Comes c ending s' :=
  ⟨textual, fun v next done => absurd done (failed v next)⟩

theorem more (first : before.Comes c (.done (.success v next)) s₁) (new : before.letters = [])
    (second : v.Textual → s₁.Textual → after.Comes next ending s')
    (letters : after.letters = here.letters ++ v.letters) : here.Comes c ending s' := by
  obtain ⟨read, text, spans, reads⟩ := first.yields v next rfl
  obtain ⟨textual, yields⟩ := second read first.textual
  refine ⟨textual, fun w stop done => ?_⟩
  obtain ⟨read', text', spans', reads'⟩ := yields w stop done
  refine ⟨read', text ++ text', spans.trans spans', ?_⟩
  rw [reads', letters, reads, new, List.nil_append, List.append_assoc]

end Stage.Comes

namespace Meaning

variable {m : Meaning} {trace : Bool}

theorem passes_textual (joins : m.Joins) : m.Passes fun s _ s' => s.Textual → s'.Textual where
  done _ := id
  next first second := second ∘ first
  resumed first second := second ∘ first
  replaced first second _ := second ∘ first
  release {r v s ending s'} h textual := by
    cases h
    refine ⟨joins.release r v s.store textual.grammar, fun e mem => ?_⟩
    rcases List.mem_cons.mp mem with rfl | mem
    · trivial
    · exact textual.joined e mem

theorem runFold_concat (joins : m.Joins) {held : Held} (held_textual : held.Textual) {s s' : Run}
    (textual : s.Textual) {ending : Ending Value}
    (h : m.runFold .concat (held.map (·.1)) s = (ending, s')) :
    s'.Textual ∧ ∃ text, ending = .done (.text text) ∧ text.toList = held.letters := by
  obtain ⟨text, joined, letters⟩ := join_textual 0 (List.forall_mem_map.mpr held_textual)
  have worked : m.fold .concat (held.map (·.1)) s.store = ⟨.done (.text text), s.store, []⟩ := by
    rw [joins.fold Operator.apply]
    simp only [Standard.fold, joined]
    rfl
  simp only [runFold, Run.callback, worked, Prod.mk.injEq] at h
  obtain ⟨rfl, rfl⟩ := h
  refine ⟨textual.record s.guard ⟨text, rfl⟩, text, rfl, ?_⟩
  rw [letters, List.flatMap_map]
  rfl

theorem giveUp_unsuccessful {held : Held} {f : Failure} {s s' : Run} {ending : Ending Result}
    (h : m.giveUp held f s = (ending, s')) (v : Value) (next : Cursor) :
    ending ≠ .done (.success v next) := by
  rintro rfl
  cases giveUp_done h

theorem Ran.unsuccessful {held : Held} {f : Failure} {c : Cursor} {s s' : Run}
    {ending : Ending Result} (ran : m.Ran trace (.giveUp held f) c s ending s') :
    ∀ v next, ending ≠ .done (.success v next) := by
  cases ran with
  | gaveUp pass => exact giveUp_unsuccessful pass

theorem Ran.comes (joins : m.Joins) {stage : Stage} {c : Cursor} {s s' : Run}
    {ending : Ending Result} (ran : m.Ran trace stage c s ending s') (fits : stage.Textual)
    (textual : s.Textual) : stage.Comes c ending s' := by
  induction ran with
  | missing => exact .unsuccessful (textual.record _ trivial) nofun
  | refused => exact .unsuccessful (textual.record _ trivial) nofun
  | entered status _ _ ih =>
    have inside := ih (textual.grammar _ _ status) (textual.opened ..)
    exact ⟨inside.textual.closed .., inside.yields⟩
  | leaf leaf =>
    refine ⟨textual, ?_⟩
    rintro v next ⟨⟩
    exact leaf.yields fits
  | exhausted => exact .unsuccessful textual nofun
  | choice _ ih | settled _ _ ih | awaited _ _ ih =>
    have inside := ih trivial textual
    exact ⟨inside.textual, inside.yields⟩
  | passed _ _ ih₁ ih₂ =>
    have rest := ih₂ trivial (ih₁ trivial textual).textual
    exact ⟨rest.textual, rest.yields⟩
  | unwound _ pass ih =>
    refine .unsuccessful ?_ fun v next => unwind_ne_done pass _
    exact (passes_textual joins).unwind (fun _ => (ih trivial textual).textual) pass textual
  | gaveUp pass =>
    exact .unsuccessful ((passes_textual joins).giveUp pass textual) (giveUp_unsuccessful pass)
  | folded work =>
    obtain ⟨rfl, held⟩ := fits
    obtain ⟨after, text, rfl, letters⟩ := runFold_concat joins held textual work
    refine ⟨after, ?_⟩
    rintro v next ⟨⟩
    exact ⟨.inr ⟨text, rfl⟩, [], .nil _, letters.trans (List.append_nil _).symm⟩
  | sequence _ ih | repetition _ ih =>
    have inside := ih ⟨fits, nofun⟩ textual
    exact ⟨inside.textual, inside.yields⟩
  -- What was read so far is held, and goes on to the fold as it is.
  | itemsDone _ ih | turnsFull _ _ ih =>
    have inside := ih fits textual
    exact ⟨inside.textual, inside.yields⟩
  | itemDone _ _ ih₁ ih₂ =>
    exact (ih₁ trivial textual).more rfl
      (fun read run => ih₂ ⟨fits.1, fits.2.append read _⟩ run) (Held.letters_append ..)
  | turnMoved _ _ _ _ ih₁ ih₂ | turnStill _ _ _ _ ih₁ ih₂ =>
    exact (ih₁ trivial textual).more rfl
      (fun read run => ih₂ ⟨fits.1, fits.2.append read _⟩ run) (Held.letters_append ..)
  | turnFailed _ _ _ _ ih₁ ih₂ =>
    have rest := ih₂ fits (ih₁ trivial textual).textual
    exact ⟨rest.textual, rest.yields⟩
  | itemFailed _ gave ih₁ ih₂ | turnShort _ _ _ gave ih₁ ih₂ =>
    exact .unsuccessful (ih₂ trivial (ih₁ trivial textual).textual).textual gave.unsuccessful
  | itemEnded _ early ih | turnEnded _ _ early ih =>
    exact .unsuccessful (ih trivial textual).textual fun v next => early _
  | applied | unapplied => exact fits.elim
  | expect _ ih =>
    have inside := ih trivial textual
    exact ⟨inside.textual, fun v next done =>
      inside.yields v next (Ending.eq_success_of_labelled done)⟩

/-- Main result. Where all that a grammar does with what it reads is to join it, a success yields
the text from where the run started to where it ended, null standing for the empty text, and no call
to join fails. -/
theorem text_preserved (joins : m.Joins) {s : Store} (textual : s.grammar.Textual) (ctx : Context)
    (h : HandleId) (c : Cursor) :
    (∀ v next, (m.call ctx h c s).1 = .done (.success v next) →
      next.input = c.input ∧ c.pos ≤ next.pos ∧
      ∃ text, (v = .text text ∨ v = .null ∧ text = "") ∧
        Input.ofString text = c.input.extract c.pos next.pos) ∧
    ∀ fold vs ending events depth,
      .folded fold vs ending events depth ∈ (m.call ctx h c s).2.journal →
        ∃ text, ending = .done (.text text) := by
  have start : Run.Textual ⟨s, ctx.guard, []⟩ := ⟨textual, fun _ mem => absurd mem List.not_mem_nil⟩
  obtain ⟨after, yields⟩ := (ran_call ctx h c s).comes joins trivial start
  refine ⟨fun v next done => ?_, fun fold vs ending events depth mem => after.joined _ mem⟩
  obtain ⟨read, letters, spans, same⟩ := yields v next done
  have pos : next.pos = c.pos + letters.length := spans.pos_eq
  have between : letters.toArray = c.input.extract c.pos next.pos := by
    have ahead : c.input.toList.drop c.pos = letters ++ next.ahead := spans.2
    apply Array.toList_inj.mp
    rw [Array.toList_extract, List.extract_eq_take_drop, ahead, pos, Nat.add_sub_cancel_left,
      List.take_left]
  refine ⟨spans.1, by omega, String.ofList letters, ?_, ?_⟩
  · obtain rfl | ⟨text, rfl⟩ := read
    · obtain rfl : letters = [] := same.symm
      exact .inr ⟨rfl, rfl⟩
    · have same : text.toList = letters := same
      rw [← same, String.ofList_toList]
      exact .inl rfl
  · rw [Input.ofString, String.toList_ofList, between]

def syllables : Store where
  grammar := ⟨#[{ status := .defined ⟨0, .literal "a"⟩ }, { status := .defined ⟨1, .literal "b"⟩ },
    { status := .defined ⟨2, .sequence .concat
      [(0, some (.logged "letter" [] (.fault ""))), (1, some .text)]⟩ },
    { status := .defined ⟨3, .repetition .concat 2 0 none (some .text)⟩ }]⟩

def syllablesRun : Ending Result × Run :=
  usual.call shallow 3 ⟨#['x', 'a', 'b', 'a', 'c'], 1, by decide⟩ syllables

/-- The letter after the first syllable was read, and does not come with it. -/
theorem syllables_preserved :
    syllables.grammar.Textual ∧
    syllablesRun.1 =
      .done (.success (.text "ab") ⟨#['x', 'a', 'b', 'a', 'c'], 3, by decide⟩) ∧
    syllablesRun.2.events = [.released "letter" (.text "a")] ∧
    ∃ text, (Value.text "ab" = .text text ∨ Value.text "ab" = .null ∧ text = "") ∧
      Input.ofString text = Array.extract #['x', 'a', 'b', 'a', 'c'] 1 3 := by
  have textual : syllables.grammar.Textual := by
    intro h body status
    rcases h with _ | _ | _ | _ | h
    · cases status
      trivial
    · cases status
      trivial
    · cases status
      rfl
    · cases status
      rfl
    · rw [Grammar.get_of_size_le (by simp [syllables, Grammar.size])] at status
      cases status
  have ending : syllablesRun.1 =
      .done (.success (.text "ab") ⟨#['x', 'a', 'b', 'a', 'c'], 3, by decide⟩) := by cbv
  have events : syllablesRun.2.events = [.released "letter" (.text "a")] := by cbv
  obtain ⟨yields, _⟩ := text_preserved (standard_joins Operator.apply nestingLevels) textual
    shallow 3 ⟨#['x', 'a', 'b', 'a', 'c'], 1, by decide⟩
  exact ⟨textual, ending, events, (yields _ _ ending).2.2⟩

end Meaning

end Peg
