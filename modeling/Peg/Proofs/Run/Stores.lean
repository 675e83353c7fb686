import Peg.Proofs.Run.Frames

namespace Peg

def Entry.IsCallback : Entry → Prop
  | .released _ _ _ _ _ | .folded _ _ _ _ _ | .applied _ _ _ _ _ => True
  | _ => False

theorem Entry.IsCallback.ne_refused {e : Entry} (callback : e.IsCallback) (h : HandleId)
    (pos : Nat) (depth : Int) : e ≠ .refused h pos depth := by
  rintro rfl
  exact callback

def Entry.after (m : Meaning) (e : Entry) (s : Store) : Store :=
  match e with
  | .released r v _ _ _ => (m.release r v s).store
  | .folded f vs _ _ _ => (m.fold f vs s).store
  | .applied f v _ _ _ => (m.apply f v s).store
  | _ => s

def Entry.Tells (m : Meaning) (e : Entry) (s : Store) : Prop :=
  match e with
  | .released r v ending events _ =>
    (m.release r v s).ending = ending ∧ (m.release r v s).events = events
  | .folded f vs ending events _ =>
    (m.fold f vs s).ending = ending ∧ (m.fold f vs s).events = events
  | .applied f v ending events _ =>
    (m.apply f v s).ending = ending ∧ (m.apply f v s).events = events
  | _ => True

def Meaning.storeAfter (m : Meaning) (s : Store) (journal : List Entry) : Store :=
  journal.foldr (Entry.after m) s

/-- The journal of a run that began with a store tells what callbacks did, and so the store. -/
structure Run.Faithful (m : Meaning) (start : Store) (s : Run) : Prop where
  store : s.store = m.storeAfter start s.journal
  along : Along (fun e before => e.Tells m (m.storeAfter start before)) s.journal

namespace Run.Faithful

variable {m : Meaning} {start : Store} {s : Run}

theorem callback (faithful : s.Faithful m start) {store : Store} {e : Entry}
    (after : store = e.after m s.store) (tells : e.Tells m s.store) :
    (Run.mk store s.guard (e :: s.journal)).Faithful m start where
  store := by
    rw [after, faithful.store]
    rfl
  along := faithful.along.cons (faithful.store ▸ tells)

theorem record (faithful : s.Faithful m start) (guard : Guard) {e : Entry}
    (quiet : ¬ e.IsCallback) : (Run.mk s.store guard (e :: s.journal)).Faithful m start := by
  have after : s.store = e.after m s.store := by
    cases e <;> first | rfl | exact absurd trivial quiet
  have tells : e.Tells m s.store := by
    cases e <;> first | trivial | exact absurd trivial quiet
  exact ⟨(faithful.callback after tells).store, (faithful.callback after tells).along⟩

theorem opened (faithful : s.Faithful m start) (trace : Bool) (h : HandleId) (node : Node)
    (c : Cursor) (g : Guard) : (s.opened trace h node c g).Faithful m start := by
  have entered := faithful.record g (e := .entered h node c.pos g.depth) id
  cases trace with
  | false => exact entered
  | true => exact entered.record g id

theorem closed (faithful : s.Faithful m start) (trace : Bool) (h : HandleId) (c : Cursor)
    (ending : Ending Result) : (s.closed trace h c ending).Faithful m start := by
  obtain ⟨s', before, closed⟩ := s.closed_cases trace h c ending
  have logged : s'.Faithful m start := by
    obtain rfl | ⟨record, rfl⟩ := before
    · exact faithful
    · exact faithful.record s.guard id
  rw [closed]
  exact logged.record s.guard.exit id

end Run.Faithful

namespace Meaning

theorem spans_faithful (m : Meaning) (trace : Bool) (start : Store) :
    m.Spans trace fun s _ s' => s.Faithful m start → s'.Faithful m start where
  done _ := id
  next first second := second ∘ first
  resumed first second := second ∘ first
  replaced first second _ := second ∘ first
  missing _ faithful := faithful.record _ id
  refused _ _ faithful := faithful.record _ id
  entered _ _ _ inside faithful := (inside (faithful.opened ..)).closed ..
  release h faithful := by
    cases h
    exact faithful.callback rfl ⟨rfl, rfl⟩
  fold h faithful := by
    cases h
    exact faithful.callback rfl ⟨rfl, rfl⟩
  apply h faithful := by
    cases h
    exact faithful.callback rfl ⟨rfl, rfl⟩

end Meaning

end Peg
