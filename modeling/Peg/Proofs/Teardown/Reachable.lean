import Mathlib.Data.List.Basic
import Peg.Grammar.Basic

/-!
Teardown, as a relation between grammars. `Felled` says what a teardown comes to: everything that
could be reached from some roots is torn down, and nothing else is changed. `Wave` is the invariant
of a pass on its way there: the pass destroys the edges it follows, and other teardowns may destroy
more of them while it is under way, yet whatever was to be reached and still stands can be reached
from what is pending.
-/

namespace Peg

def Handle.torn (handle : Handle) : Handle := { handle with status := .deleted }

theorem Handle.torn_of_deleted {handle : Handle} (deleted : handle.status = .deleted) :
    handle.torn = handle := by
  cases handle
  cases deleted
  rfl

theorem Handle.isDeleted_iff {handle : Handle} : handle.isDeleted = true ↔ handle.status = .deleted := by
  rcases handle with ⟨_, _ | _ | _⟩ <;> simp [isDeleted]

theorem Handle.children_of_deleted {handle : Handle} (deleted : handle.status = .deleted) :
    handle.children = [] := by
  simp [children, body?, deleted]

theorem Handle.children_of_defined {handle : Handle} {body : Body}
    (status : handle.status = .defined body) : handle.children = body.node.children := by
  simp [children, body?, status]

namespace Grammar

variable {g g' g'' : Grammar} {roots : List HandleId}

theorem ext_get (size : g.size = g'.size) (get : ∀ h, g.get h = g'.get h) : g = g' := by
  rcases g with ⟨handles⟩
  rcases g' with ⟨handles'⟩
  congr 1
  refine Array.ext size fun h lt lt' => ?_
  simpa [Grammar.get, lt, lt'] using get h

@[simp] theorem size_tear (g : Grammar) (h : HandleId) : (g.tear h).size = g.size := size_set ..

theorem get_tear_self {h : HandleId} (lt : h < g.size) : (g.tear h).get h = (g.get h).torn :=
  get_set_self _ lt

theorem get_tear_other {h k : HandleId} (ne : k ≠ h) : (g.tear h).get k = g.get k :=
  get_set_other _ ne

def Closed (g : Grammar) : Prop := ∀ h, ∀ k ∈ (g.get h).children, k < g.size

theorem closed_of_handles (all : ∀ handle ∈ g.handles.toList, ∀ k ∈ handle.children, k < g.size) :
    g.Closed := by
  intro h k mem
  obtain lt | ge := Nat.lt_or_ge h g.size
  · refine all (g.get h) ?_ k mem
    simp only [size] at lt
    simp [get, lt]
  · rw [get_of_size_le ge] at mem
    cases mem

/-- What can be reached from some roots by way of the nodes there are. -/
inductive Reachable (g : Grammar) (roots : List HandleId) : HandleId → Prop where
  | root {h : HandleId} : h ∈ roots → Reachable g roots h
  | child {h k : HandleId} : Reachable g roots h → k ∈ (g.get h).children → Reachable g roots k

theorem Reachable.of_roots {roots' : List HandleId} {h : HandleId}
    (reachable : g.Reachable roots h) (from_roots : ∀ r ∈ roots, g.Reachable roots' r) :
    g.Reachable roots' h := by
  induction reachable with
  | root mem => exact from_roots _ mem
  | child _ mem ih => exact ih.child mem

theorem Reachable.mono {roots' : List HandleId} {h : HandleId} (reachable : g.Reachable roots h)
    (subset : roots ⊆ roots') : g.Reachable roots' h :=
  reachable.of_roots fun _ mem => .root (subset mem)

theorem Reachable.lt_size {h : HandleId} (closed : g.Closed) (exist : ∀ r ∈ roots, r < g.size)
    (reachable : g.Reachable roots h) : h < g.size := by
  cases reachable with
  | root mem => exact exist _ mem
  | child _ mem => exact closed _ _ mem

/-- Teardowns of single handles, one after another, of each while it still stands. -/
inductive Tears : Grammar → List HandleId → Grammar → Prop where
  | nil {g : Grammar} : Tears g [] g
  | cons {g g' : Grammar} {h : HandleId} {hs : List HandleId} : h < g.size →
      (g.get h).status ≠ .deleted → Tears (g.tear h) hs g' → Tears g (h :: hs) g'

namespace Tears

variable {hs ks : List HandleId}

theorem append (first : g.Tears hs g') (second : g'.Tears ks g'') : g.Tears (hs ++ ks) g'' := by
  induction first with
  | nil => exact second
  | cons lt stands _ ih => exact .cons lt stands (ih second)

theorem deleted (tears : g.Tears hs g') {h : HandleId} (gone : (g.get h).status = .deleted) :
    (g'.get h).status = .deleted ∧ h ∉ hs := by
  induction tears with
  | nil => exact ⟨gone, List.not_mem_nil⟩
  | @cons g g' k hs lt stands _ ih =>
    have ne : h ≠ k := by
      rintro rfl
      exact stands gone
    obtain ⟨gone', not_mem⟩ := ih (by rw [get_tear_other ne]; exact gone)
    exact ⟨gone', by simp [ne, not_mem]⟩

theorem nodup (tears : g.Tears hs g') : hs.Nodup := by
  induction tears with
  | nil => exact List.nodup_nil
  | cons lt _ rest ih =>
    exact List.nodup_cons.mpr ⟨(rest.deleted (by rw [get_tear_self lt]; rfl)).2, ih⟩

theorem mem_iff (tears : g.Tears hs g') {h : HandleId} :
    h ∈ hs ↔ (g.get h).status ≠ .deleted ∧ (g'.get h).status = .deleted := by
  induction tears with
  | nil =>
    simp only [List.not_mem_nil, false_iff, not_and]
    exact id
  | @cons g g' k hs lt stands rest ih =>
    by_cases same : h = k
    · subst same
      have gone := (rest.deleted (h := h) (by rw [get_tear_self lt]; rfl)).1
      simp [stands, gone]
    · rw [List.mem_cons, ih, get_tear_other same]
      simp [same]

theorem lt_size (tears : g.Tears hs g') {h : HandleId} (mem : h ∈ hs) : h < g.size := by
  induction tears with
  | nil => cases mem
  | cons lt _ _ ih =>
    rcases List.mem_cons.mp mem with rfl | mem
    · exact lt
    · simpa using ih mem

end Tears

/-- The handles that stand in one grammar and are torn down in another. -/
def fallen (g g' : Grammar) : List HandleId :=
  (List.range g.size).filter fun h => (g'.get h).isDeleted && !(g.get h).isDeleted

theorem Tears.length_eq {hs : List HandleId} (tears : g.Tears hs g') :
    hs.length = (g.fallen g').length := by
  refine (List.perm_ext_iff_of_nodup tears.nodup (List.nodup_range.filter _)).mpr (fun h => ?_)
    |>.length_eq
  simp only [List.mem_filter, List.mem_range, Bool.and_eq_true, Bool.not_eq_true',
    ← Bool.not_eq_true, Handle.isDeleted_iff]
  constructor
  · intro mem
    obtain ⟨stood, gone⟩ := tears.mem_iff.mp mem
    exact ⟨tears.lt_size mem, gone, stood⟩
  · rintro ⟨_, gone, stood⟩
    exact tears.mem_iff.mpr ⟨stood, gone⟩

theorem references_eq (g : Grammar) {h : HandleId} (lt : h < g.size) :
    (g.tear h).references + (g.get h).children.length = g.references := by
  have lt' : h < g.handles.toList.length := by simpa [size] using lt
  have at_h : g.get h = g.handles.toList[h] := by
    simp only [size] at lt
    simp [get, lt]
  have cut : g.handles.toList =
      g.handles.toList.take h ++ g.get h :: g.handles.toList.drop (h + 1) := by
    rw [at_h, ← List.drop_eq_getElem_cons lt', List.take_append_drop]
  have cut' : (g.tear h).handles.toList =
      g.handles.toList.take h ++ (g.get h).torn :: g.handles.toList.drop (h + 1) := by
    rw [tear, set, Array.toList_setIfInBounds, List.set_eq_take_append_cons_drop, if_pos lt']
    rfl
  have none : (g.get h).torn.children = [] := Handle.children_of_deleted rfl
  rw [references, references, cut']
  conv_rhs => rw [cut]
  simp only [List.flatMap_append, List.flatMap_cons, List.length_append, none, List.length_nil]
  omega

theorem Reachable.survives {roots' : List HandleId}
    (kept : ∀ h, (g'.get h).status = .deleted ∨ g'.get h = g.get h)
    (from_roots : ∀ r ∈ roots, (g'.get r).status = .deleted ∨ g'.Reachable roots' r)
    (from_fallen : ∀ h, (g'.get h).status = .deleted → (g.get h).status ≠ .deleted →
      ∀ k ∈ (g.get h).children, (g'.get k).status = .deleted ∨ g'.Reachable roots' k)
    {h : HandleId} (reachable : g.Reachable roots h) :
    (g'.get h).status = .deleted ∨ g'.Reachable roots' h := by
  induction reachable with
  | root mem => exact from_roots _ mem
  | @child h k _ mem ih =>
    have stood : (g.get h).status ≠ .deleted := by
      intro gone
      rw [Handle.children_of_deleted gone] at mem
      cases mem
    rcases ih with gone | reachable
    · exact from_fallen h gone stood k mem
    · rcases kept h with gone | same
      · exact from_fallen h gone stood k mem
      · exact .inr (reachable.child (same ▸ mem))

theorem not_reachable_nil {h : HandleId} : ¬ g.Reachable [] h := by
  intro reachable
  induction reachable with
  | root mem => cases mem
  | child _ _ ih => exact ih

/-- What a teardown comes to. -/
structure Felled (g : Grammar) (roots : List HandleId) (g' : Grammar) : Prop where
  size : g'.size = g.size
  reached : ∀ h, g.Reachable roots h → g'.get h = (g.get h).torn
  others : ∀ h, ¬ g.Reachable roots h → g'.get h = g.get h

namespace Felled

theorem deleted (felled : g.Felled roots g') {h : HandleId} (reachable : g.Reachable roots h) :
    (g'.get h).status = .deleted := by
  rw [felled.reached h reachable]
  rfl

theorem kept (felled : g.Felled roots g') (h : HandleId) :
    (g'.get h).status = .deleted ∨ g'.get h = g.get h := by
  by_cases reachable : g.Reachable roots h
  · exact .inl (felled.deleted reachable)
  · exact .inr (felled.others h reachable)

theorem still_deleted (felled : g.Felled roots g') {h : HandleId}
    (gone : (g.get h).status = .deleted) : (g'.get h).status = .deleted := by
  rcases felled.kept h with gone' | same
  · exact gone'
  · rw [same]
    exact gone

theorem reachable_of_fallen (felled : g.Felled roots g') {h : HandleId}
    (gone : (g'.get h).status = .deleted) (stood : (g.get h).status ≠ .deleted) :
    g.Reachable roots h := by
  by_contra unreachable
  rw [felled.others h unreachable] at gone
  exact stood gone

theorem unique (felled : g.Felled roots g') (felled' : g.Felled roots g'') : g' = g'' := by
  refine ext_get (felled.size.trans felled'.size.symm) fun h => ?_
  by_cases reachable : g.Reachable roots h
  · rw [felled.reached h reachable, felled'.reached h reachable]
  · rw [felled.others h reachable, felled'.others h reachable]

theorem congr {roots' : List HandleId} (felled : g.Felled roots g')
    (same : ∀ h, h ∈ roots ↔ h ∈ roots') : g.Felled roots' g' := by
  have reachable_iff (h : HandleId) : g.Reachable roots h ↔ g.Reachable roots' h :=
    ⟨fun reachable => reachable.mono fun k => (same k).mp,
      fun reachable => reachable.mono fun k => (same k).mpr⟩
  exact ⟨felled.size, fun h reachable => felled.reached h ((reachable_iff h).mpr reachable),
    fun h unreachable => felled.others h (mt (reachable_iff h).mp unreachable)⟩

end Felled

/-- A pass under way, which began on `g` and finds `g'`: what it is to tear down is what could be
reached from `sources` at the start. -/
structure Wave (g : Grammar) (sources pending seen : List HandleId) (g' : Grammar) : Prop where
  size : g'.size = g.size
  kept : ∀ h, g'.get h = g.get h ∨ g'.get h = (g.get h).torn ∧ g.Reachable sources h
  met : ∀ h ∈ seen, (g'.get h).status = .deleted
  due : ∀ h ∈ pending, g.Reachable sources h
  ahead : ∀ h, g.Reachable sources h →
    (g'.get h).status = .deleted ∨ g'.Reachable pending h

namespace Wave

variable {sources pending seen before after : List HandleId} {h : HandleId}

theorem start (g : Grammar) (roots : List HandleId) : g.Wave roots roots [] g where
  size := rfl
  kept _ := .inl rfl
  met _ mem := nomatch mem
  due _ mem := .root mem
  ahead _ reachable := .inr reachable

theorem torn_eq (wave : g.Wave sources pending seen g') (h : HandleId) :
    (g'.get h).torn = (g.get h).torn := by
  rcases wave.kept h with same | ⟨torn, _⟩
  · rw [same]
  · rw [torn]
    rfl

theorem mem_children (wave : g.Wave sources pending seen g') {k : HandleId}
    (mem : k ∈ (g'.get h).children) : k ∈ (g.get h).children := by
  rcases wave.kept h with same | ⟨torn, _⟩
  · exact same ▸ mem
  · rw [torn, Handle.children_of_deleted rfl] at mem
    cases mem

theorem closed (wave : g.Wave sources pending seen g') (closed : g.Closed) : g'.Closed := by
  intro h k mem
  rw [wave.size]
  exact closed h k (wave.mem_children mem)

theorem skip (wave : g.Wave sources (before ++ h :: after) seen g')
    (passed : ∀ k ∈ before, k ∈ seen) (gone : (g'.get h).status = .deleted) :
    g.Wave sources ((g'.get h).children ++ after) (h :: seen) g' where
  size := wave.size
  kept := wave.kept
  met k mem := by
    rcases List.mem_cons.mp mem with rfl | mem
    · exact gone
    · exact wave.met k mem
  due k mem := by
    rw [Handle.children_of_deleted gone, List.nil_append] at mem
    exact wave.due k (List.mem_append_right _ (List.mem_cons_of_mem _ mem))
  ahead k reachable := by
    rcases wave.ahead k reachable with gone | ahead
    · exact .inl gone
    · refine ahead.survives (fun _ => .inr rfl) (fun r mem => ?_)
        fun _ gone stood => absurd gone stood
      rcases List.mem_append.mp mem with mem | mem
      · exact .inl (wave.met r (passed r mem))
      · rcases List.mem_cons.mp mem with rfl | mem
        · exact .inl gone
        · exact .inr (.root (List.mem_append_right _ mem))

theorem tear (wave : g.Wave sources (before ++ h :: after) seen g')
    (passed : ∀ k ∈ before, k ∈ seen) (lt : h < g.size) :
    g.Wave sources ((g'.get h).children ++ after) (h :: seen) (g'.tear h) := by
  have gone : ((g'.tear h).get h).status = .deleted := by
    rw [get_tear_self (by rwa [wave.size])]
    rfl
  have due : g.Reachable sources h := wave.due h (by simp)
  have still_gone (k : HandleId) (deleted : (g'.get k).status = .deleted) :
      ((g'.tear h).get k).status = .deleted := by
    rcases get_tear g' h k with gone | same
    · exact gone
    · rw [same]
      exact deleted
  -- The children were read before the node went, so that what they lead to is still ahead.
  refine ⟨by rw [size_tear, wave.size], fun k => ?_, fun k mem => ?_, fun k mem => ?_,
    fun k reachable => ?_⟩
  · by_cases same : k = h
    · subst same
      refine .inr ⟨?_, due⟩
      rw [get_tear_self (by rwa [wave.size]), wave.torn_eq]
    · rw [get_tear_other same]
      exact wave.kept k
  · rcases List.mem_cons.mp mem with rfl | mem
    · exact gone
    · exact still_gone k (wave.met k mem)
  · rcases List.mem_append.mp mem with mem | mem
    · exact due.child (wave.mem_children mem)
    · exact wave.due k (List.mem_append_right _ (List.mem_cons_of_mem _ mem))
  · rcases wave.ahead k reachable with deleted | ahead
    · exact .inl (still_gone k deleted)
    · refine ahead.survives (get_tear g' h) (fun r mem => ?_) fun k' deleted stood k mem => ?_
      · rcases List.mem_append.mp mem with mem | mem
        · exact .inl (still_gone r (wave.met r (passed r mem)))
        · rcases List.mem_cons.mp mem with rfl | mem
          · exact .inl gone
          · exact .inr (.root (List.mem_append_right _ mem))
      · have same : k' = h := by
          by_contra ne
          rw [get_tear_other ne] at deleted
          exact stood deleted
        subst same
        exact .inr (.root (List.mem_append_left _ mem))

theorem reachable_before (wave : g.Wave sources pending seen g') {k : HandleId}
    (reachable : g'.Reachable roots k) : g.Reachable roots k := by
  induction reachable with
  | root mem => exact .root mem
  | child _ mem ih => exact ih.child (wave.mem_children mem)

theorem interrupted (wave : g.Wave sources pending seen g') (felled : g'.Felled roots g'') :
    g.Wave (roots ++ sources) pending seen g'' := by
  have wider {k : HandleId} (reachable : g.Reachable sources k) :
      g.Reachable (roots ++ sources) k := reachable.mono (List.subset_append_right ..)
  -- What was ahead is ahead still, or the other teardown has come by it.
  have survives {k : HandleId} (ahead : (g'.get k).status = .deleted ∨ g'.Reachable pending k) :
      (g''.get k).status = .deleted ∨ g''.Reachable pending k := by
    rcases ahead with gone | ahead
    · exact .inl (felled.still_deleted gone)
    · refine ahead.survives felled.kept (fun r mem => .inr (.root mem)) fun h gone stood k mem => ?_
      exact .inl (felled.deleted ((felled.reachable_of_fallen gone stood).child mem))
  have kept (h : HandleId) :
      g''.get h = g.get h ∨ g''.get h = (g.get h).torn ∧ g.Reachable (roots ++ sources) h := by
    by_cases reachable : g'.Reachable roots h
    · refine .inr ⟨?_, (wave.reachable_before reachable).mono (List.subset_append_left ..)⟩
      rw [felled.reached h reachable, wave.torn_eq]
    · rw [felled.others h reachable]
      exact (wave.kept h).imp_right fun torn => ⟨torn.1, wider torn.2⟩
  refine ⟨felled.size.trans wave.size, kept, fun h mem => felled.still_deleted (wave.met h mem),
    fun h mem => wider (wave.due h mem), fun h reachable => ?_⟩
  refine reachable.survives (fun h => ?_) (fun r mem => ?_) fun h gone stood k mem => ?_
  · rcases kept h with same | ⟨torn, _⟩
    · exact .inr same
    · rw [torn]
      exact .inl rfl
  · rcases List.mem_append.mp mem with mem | mem
    · exact .inl (felled.deleted (.root mem))
    · exact survives (wave.ahead r (.root mem))
  -- What has fallen fell to this pass, which had come by what it leads to, or in between.
  · rcases wave.kept h with same | ⟨_, due⟩
    · rw [← same] at stood mem
      exact .inl (felled.deleted ((felled.reachable_of_fallen gone stood).child mem))
    · exact survives (wave.ahead k (due.child mem))

theorem finish (wave : g.Wave sources pending seen g') (passed : ∀ h ∈ pending, h ∈ seen) :
    g.Felled sources g' := by
  have fallen {h : HandleId} (reachable : g.Reachable sources h) :
      (g'.get h).status = .deleted := by
    rcases wave.ahead h reachable with gone | ahead
    · exact gone
    · have left : (g'.get h).status = .deleted ∨ g'.Reachable [] h :=
        ahead.survives (fun _ => .inr rfl) (fun r mem => .inl (wave.met r (passed r mem)))
          fun _ gone stood => absurd gone stood
      exact left.resolve_right not_reachable_nil
  refine ⟨wave.size, fun h reachable => ?_, fun h unreachable => ?_⟩
  · rcases wave.kept h with same | ⟨torn, _⟩
    · have gone := fallen reachable
      rw [same] at gone ⊢
      exact (Handle.torn_of_deleted gone).symm
    · exact torn
  · exact (wave.kept h).resolve_right fun torn => unreachable torn.2

end Wave

namespace Felled

variable {roots' : List HandleId}

theorem wave (felled : g.Felled roots g') : g.Wave roots [] [] g' where
  size := felled.size
  kept h := by
    by_cases reachable : g.Reachable roots h
    · exact .inr ⟨felled.reached h reachable, reachable⟩
    · exact .inl (felled.others h reachable)
  met _ mem := nomatch mem
  due _ mem := nomatch mem
  ahead _ reachable := .inl (felled.deleted reachable)

theorem nothing (g : Grammar) : g.Felled [] g := (Wave.start g []).finish fun _ mem => nomatch mem

theorem next (felled : g.Felled roots g') (felled' : g'.Felled roots' g'') :
    g.Felled (roots' ++ roots) g'' :=
  (felled.wave.interrupted felled').finish fun _ mem => nomatch mem

theorem closed (felled : g.Felled roots g') (closed : g.Closed) : g'.Closed :=
  felled.wave.closed closed

end Felled

end Grammar

end Peg
