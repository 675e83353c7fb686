import Peg.Callback.Standard
import Peg.Proofs.Run.Simulation

namespace Peg

/-- The guard let in every call of a defined handle. -/
def Unrefused (journal : List Entry) : Prop := ∀ h pos depth, Entry.refused h pos depth ∉ journal

theorem Unrefused.suffix {before journal : List Entry} (unrefused : Unrefused journal)
    (h : before <:+ journal) : Unrefused before :=
  fun k pos depth mem => unrefused k pos depth (h.subset mem)

theorem Unrefused.cons {journal : List Entry} (unrefused : Unrefused journal) {e : Entry}
    (entry : ∀ h pos depth, e ≠ .refused h pos depth) : Unrefused (e :: journal) := by
  intro h pos depth mem
  rcases List.mem_cons.mp mem with eq | mem
  · exact entry h pos depth eq.symm
  · exact unrefused h pos depth mem

namespace Run

theorem unrefused_opened {s : Run} (unrefused : Unrefused s.journal) (trace : Bool) (h : HandleId)
    (node : Node) (c : Cursor) (g : Guard) : Unrefused (s.opened trace h node c g).journal := by
  have entered := unrefused.cons (e := .entered h node c.pos g.depth) fun _ _ _ => nofun
  cases trace with
  | false => exact entered
  | true => exact entered.cons fun _ _ _ => nofun

theorem unrefused_closed {s : Run} (unrefused : Unrefused s.journal) (trace : Bool) (h : HandleId)
    (c : Cursor) (ending : Ending Result) : Unrefused (s.closed trace h c ending).journal := by
  obtain ⟨s', before, closed⟩ := s.closed_cases trace h c ending
  have logged : Unrefused s'.journal := by
    obtain rfl | ⟨record, rfl⟩ := before
    · exact unrefused
    · exact unrefused.cons fun _ _ _ => nofun
  rw [closed]
  exact logged.cons fun _ _ _ => nofun

def under (limit : Int) (s : Run) : Run := { s with guard := { s.guard with maxDepth := limit } }

theorem under_opened (limit : Int) (s : Run) (trace : Bool) (h : HandleId) (node : Node)
    (c : Cursor) (g : Guard) :
    (s.opened trace h node c g).under limit =
      (s.under limit).opened trace h node c { g with maxDepth := limit } := by
  cases trace <;> rfl

theorem under_closed (limit : Int) (s : Run) (trace : Bool) (h : HandleId) (c : Cursor)
    (ending : Ending Result) :
    (s.closed trace h c ending).under limit = (s.under limit).closed trace h c ending := by
  rcases trace with _ | _ <;> rcases ending with (_ | _) | _ | _ <;> rfl

end Run

namespace Meaning

variable {m : Meaning}

theorem spans_unrefused (m : Meaning) (trace : Bool) :
    m.Spans trace fun s ending s' =>
      ending = .done () → Unrefused s.journal → Unrefused s'.journal where
  done _ _ := id
  next first second done := second done ∘ first rfl
  resumed _ _ := nofun
  replaced _ _ early done := absurd done early
  missing _ := nofun
  refused _ _ := nofun
  entered _ _ _ inside done unrefused :=
    Run.unrefused_closed (inside done (Run.unrefused_opened unrefused _ _ _ _ _)) _ _ _ _
  release h _ unrefused := by
    cases h
    exact unrefused.cons fun _ _ _ => nofun
  fold h _ unrefused := by
    cases h
    exact unrefused.cons fun _ _ _ => nofun
  apply h _ unrefused := by
    cases h
    exact unrefused.cons fun _ _ _ => nofun

theorem views_under (m : Meaning) (trace : Bool) (limit : Int) :
    Views m m trace trace Unrefused (fun s => s.guard.maxDepth ≤ limit) (Run.under limit) where
  before earlier unrefused := unrefused.suffix earlier
  store _ := rfl
  missing _ _ le := ⟨le, rfl⟩
  -- The one step that a larger limit would change.
  refused _ _ _ _ _ unrefused := absurd (List.mem_cons_self ..) (unrefused _ _ _)
  opened h node c g le enter := by
    obtain ⟨room, rfl⟩ := Guard.enter_eq_ok_iff.mp enter
    refine ⟨_, Guard.enter_eq_ok_iff.mpr ⟨Int.le_trans room le, rfl⟩, ?_, Run.under_opened ..⟩
    rwa [Run.guard_opened]
  closed h c ending le := ⟨by rwa [Run.guard_closed], Run.under_closed ..⟩
  release le work _ := by
    cases work
    exact ⟨rfl, le⟩
  fold le work _ := by
    cases work
    exact ⟨rfl, le⟩
  apply le work _ := by
    cases work
    exact ⟨rfl, le⟩

theorem call_under (ctx ctx' : Context) {h : HandleId} {c : Cursor} {s : Store}
    {ending : Ending Result} {run : Run} (trace : ctx'.config.trace = ctx.config.trace)
    (depth : ctx'.guard.depth = ctx.guard.depth)
    (le : ctx.guard.maxDepth ≤ ctx'.guard.maxDepth) (call : m.call ctx h c s = (ending, run))
    (unrefused : Unrefused run.journal) :
    m.call ctx' h c s = (ending, { run with guard := ctx'.guard }) := by
  have guard : Guard.mk ctx'.guard.maxDepth ctx.guard.depth = ctx'.guard := by rw [← depth]
  have found : (m.call ctx h c s).2.guard = ctx.guard := (ran_call ctx h c s).guard_eq
  have shown := (views_under m ctx.config.trace ctx'.guard.maxDepth).call rfl trace h c le
    (congrArg (Run.mk s · []) guard) (by rwa [call])
  rw [call] at found shown
  rw [shown, Run.under, found]
  refine Prod.ext rfl ?_
  exact congrArg (Run.mk run.store · run.journal) guard

/-- A run that comes to a result is the same under any larger limit: the result, the store and the
journal with all that was seen of it. A run in which the guard refused a call comes to none. -/
theorem call_of_larger_limit (ctx ctx' : Context) {h : HandleId} {c : Cursor} {s : Store}
    {ending : Ending Result} {run : Run} (trace : ctx'.config.trace = ctx.config.trace)
    (depth : ctx'.guard.depth = ctx.guard.depth)
    (le : ctx.guard.maxDepth ≤ ctx'.guard.maxDepth) (call : m.call ctx h c s = (ending, run)) :
    (∀ r, ending = .done r → m.call ctx' h c s = (.done r, { run with guard := ctx'.guard })) ∧
    ∀ k pos level, Entry.refused k pos level ∈ run.journal → ∀ r, ending ≠ .done r := by
  have ran := ran_call (m := m) ctx h c s
  rw [call] at ran
  have smooth : ∀ r, ending = .done r → Unrefused run.journal := by
    intro r done
    have outcome := Ending.outcome_eq_done_iff.mpr ⟨r, done⟩
    exact (spans_unrefused m ctx.config.trace).ran ran outcome fun _ _ _ => List.not_mem_nil
  constructor
  · intro r done
    rw [← done]
    exact call_under ctx ctx' trace depth le call (smooth r done)
  · intro k pos level refused r done
    exact smooth r done k pos level refused

def logged : Store where
  grammar := ⟨#[{ status := .defined ⟨0, .literal "a"⟩ },
    { status := .defined ⟨1, .apply 0 (.acts [.log "letter"])⟩ },
    { status := .defined ⟨2, .pure .null⟩ }, { status := .defined ⟨3, .choice 1 [2]⟩ }]⟩

/-- The letter is three handles deep: with room for three it is read as with room for nine, and with
room for two the choice does not go on to its other alternative. -/
theorem logged_of_larger_limit :
    (∃ run : Run, usual.call (.fresh ⟨3, false, "", by decide⟩) 3 (.start #['a']) logged =
        (.done (.success (.text "a") ⟨#['a'], 1, Nat.le_refl 1⟩), run) ∧
      run.events = [.mapped "letter" (.text "a")] ∧
      usual.call (.fresh ⟨9, false, "", by decide⟩) 3 (.start #['a']) logged =
        (.done (.success (.text "a") ⟨#['a'], 1, Nat.le_refl 1⟩), { run with guard := ⟨9, 0⟩ })) ∧
    ∃ run : Run, usual.call (.fresh ⟨2, false, "", by decide⟩) 3 (.start #['a']) logged =
        (.raised (.depthLimit 2), run) ∧
      Entry.refused 0 0 2 ∈ run.journal ∧
      ∀ r, (Ending.raised (.depthLimit 2) : Ending Result) ≠ .done r := by
  have room : usual.call (.fresh ⟨3, false, "", by decide⟩) 3 (.start #['a']) logged =
      (.done (.success (.text "a") ⟨#['a'], 1, Nat.le_refl 1⟩),
        (usual.call (.fresh ⟨3, false, "", by decide⟩) 3 (.start #['a']) logged).2) := rfl
  have none : usual.call (.fresh ⟨2, false, "", by decide⟩) 3 (.start #['a']) logged =
      (.raised (.depthLimit 2),
        (usual.call (.fresh ⟨2, false, "", by decide⟩) 3 (.start #['a']) logged).2) := rfl
  have refused : Entry.refused 0 0 2 ∈
      (usual.call (.fresh ⟨2, false, "", by decide⟩) 3 (.start #['a']) logged).2.journal :=
    List.mem_cons_of_mem _ (List.mem_cons_of_mem _ (List.mem_cons_self ..))
  have larger := call_of_larger_limit (.fresh ⟨3, false, "", by decide⟩)
    (.fresh ⟨9, false, "", by decide⟩) rfl rfl (by decide) room
  have stopped := call_of_larger_limit (.fresh ⟨2, false, "", by decide⟩)
    (.fresh ⟨9, false, "", by decide⟩) rfl rfl (by decide) none
  exact ⟨⟨_, room, rfl, larger.1 _ rfl⟩, ⟨_, none, refused, stopped.2 _ _ _ refused⟩⟩

end Meaning

end Peg
