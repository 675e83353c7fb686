import Mathlib.Data.List.Basic
import Mathlib.Data.List.Perm.Subperm
import Peg.Grammar.Description

/-!
Outlines of descriptions. A description is written by a recursion that carries two lists of handles:
those that are being written out, and the named ones that have been. `Outlined` is this recursion
without a bound on its levels. It yields a tree that says how each handle stands in the text; the
text is read off the tree.
-/

namespace Peg

/-- How a handle stands in a description. -/
inductive Outline where
  | deleted (h : HandleId)
  | byName (h : HandleId)
  | cut (h : HandleId)
  | written (h : HandleId) (parts : List Outline)

namespace Node

/-- The children that are described with a node. A label is described without what it labels. -/
def told : Node → List HandleId
  | .expect _ _ => []
  | node => node.children

def wording : Node → List String → String
  | .literal text, _ => Text.quote text
  | .pure _, _ => "<pure>"
  | .fail _, _ => "<fail>"
  | .eof, _ => "<eof>"
  | .choice _ _, texts => "(" ++ " | ".intercalate texts ++ ")"
  | .sequence _ _, texts => "(" ++ " ".intercalate texts ++ ")"
  | .repetition _ _ least most _, texts => texts.headD "" ++ Grammar.bounds least most
  | .apply _ _, texts => texts.headD ""
  | .expect _ label, _ => "<" ++ label ++ ">"

theorem told_subset (node : Node) : node.told ⊆ node.children := by
  cases node <;> simp [told, children]

theorem tellNode_eq (child : HandleId → Grammar.Telling) (node : Node) (named : List HandleId) :
    Grammar.tellNode child node named =
      (node.wording (Grammar.tellAll (node.told.map child) named).1,
        (Grammar.tellAll (node.told.map child) named).2) := by
  cases node with
  | sequence fold items =>
    have same : (items.map (·.1)).map child = items.map fun i => child i.1 := by simp
    simp [Grammar.tellNode, Grammar.grouped, told, children, wording, same]
  | _ => rfl

end Node

namespace Handle

def told (handle : Handle) : List HandleId :=
  match handle.body? with
  | some body => body.node.told
  | none => []

def wording (handle : Handle) (texts : List String) : String :=
  match handle.body? with
  | some body => body.node.wording texts
  | none => ""

variable {handle : Handle} {body : Body}

theorem told_of_defined (status : handle.status = .defined body) :
    handle.told = body.node.told := by simp [told, body?, status]

theorem wording_of_defined (status : handle.status = .defined body) (texts : List String) :
    handle.wording texts = body.node.wording texts := by simp [wording, body?, status]

theorem told_subset (handle : Handle) : handle.told ⊆ handle.children := by
  unfold told children
  cases handle.body? with
  | some body => exact body.node.told_subset
  | none => simp

end Handle

namespace Outline

def handle : Outline → HandleId
  | .deleted h | .byName h | .cut h | .written h _ => h

@[simp] theorem handle_byName (h : HandleId) : (byName h).handle = h := rfl

@[simp] theorem handle_written (h : HandleId) (parts : List Outline) :
    (written h parts).handle = h := rfl

mutual

def all : Outline → List Outline
  | .written h parts => .written h parts :: allOf parts
  | o => [o]

def allOf : List Outline → List Outline
  | [] => []
  | o :: os => all o ++ allOf os

end

mutual

def text (g : Grammar) (cut : String) : Outline → String
  | .deleted _ => "<deleted>"
  | .byName h => "<" ++ (g.get h).name ++ ">"
  | .cut _ => cut
  | .written h parts => (g.get h).wording (texts g cut parts)

def texts (g : Grammar) (cut : String) : List Outline → List String
  | [] => []
  | o :: os => text g cut o :: texts g cut os

end

inductive At (t : Outline) : List Outline → Outline → Prop where
  | root : At t [] t
  | part {above parts : List Outline} {h : HandleId} {o : Outline} :
      At t above (.written h parts) → o ∈ parts → At t (.written h parts :: above) o

end Outline

namespace Grammar

/-- How a handle stands in a description where it is not written out. -/
def reference (g : Grammar) (expanding named : List HandleId) (h : HandleId) : Option Outline :=
  match (g.get h).status with
  | .deleted => some (.deleted h)
  | .undefined => some (.byName h)
  | .defined _ =>
    if (g.get h).name ≠ "" ∧ h ∈ named then some (.byName h)
    else if h ∈ expanding then some (.cut h)
    else none

def noting (g : Grammar) (h : HandleId) (named : List HandleId) : List HandleId :=
  if (g.get h).name = "" then named else h :: named

/-- A description of some handles in turn, inside of those that are being written out. -/
inductive Outlined (g : Grammar) :
    List HandleId → List HandleId → List HandleId → List Outline → List HandleId → Prop where
  | nil {expanding named : List HandleId} : Outlined g expanding named [] [] named
  | reference {expanding named named' hs : List HandleId} {os : List Outline} {h : HandleId}
      {o : Outline} : g.reference expanding named h = some o →
      Outlined g expanding named hs os named' → Outlined g expanding named (h :: hs) (o :: os) named'
  | written {expanding named between named' hs : List HandleId} {parts os : List Outline}
      {h : HandleId} : g.reference expanding named h = none →
      Outlined g (h :: expanding) (g.noting h named) (g.get h).told parts between →
      Outlined g expanding between hs os named' →
      Outlined g expanding named (h :: hs) (.written h parts :: os) named'

section

variable {g : Grammar} {expanding named : List HandleId} {h k : HandleId} {o : Outline}

theorem mem_noting : k ∈ g.noting h named ↔ k = h ∧ (g.get h).name ≠ "" ∨ k ∈ named := by
  unfold noting
  split <;> simp [*]

theorem subset_noting : named ⊆ g.noting h named := fun _ mem => mem_noting.mpr (.inr mem)

theorem reference_eq_none_iff : g.reference expanding named h = none ↔
    (g.get h).isDefined = true ∧ ((g.get h).name ≠ "" → h ∉ named) ∧ h ∉ expanding := by
  unfold reference Handle.isDefined Handle.body?
  split <;> grind

theorem reference_eq_cut_iff : g.reference expanding named h = some (.cut k) ↔
    k = h ∧ (g.get h).isDefined = true ∧ ((g.get h).name ≠ "" → h ∉ named) ∧ h ∈ expanding := by
  unfold reference Handle.isDefined Handle.body?
  split <;> grind

theorem reference_eq_byName (isDefined : (g.get h).isDefined = true) (name : (g.get h).name ≠ "")
    (mem : h ∈ named) : g.reference expanding named h = some (.byName h) := by
  unfold Handle.isDefined Handle.body? at isDefined
  unfold reference
  split <;> simp_all

theorem handle_of_reference (stands : g.reference expanding named h = some o) : o.handle = h := by
  unfold reference at stands
  split at stands <;> grind [Outline.handle]

theorem reference_ne_written {parts : List Outline} :
    g.reference expanding named h ≠ some (.written k parts) := by
  unfold reference
  split <;> grind

end

namespace Outlined

variable {g : Grammar} {expanding named named' hs : List HandleId} {os : List Outline}
  {h k : HandleId} {o t : Outline}

theorem named_subset (outlined : g.Outlined expanding named hs os named') : named ⊆ named' := by
  induction outlined with
  | nil => exact List.Subset.refl _
  | reference _ _ ih => exact ih
  | written _ _ _ ih ih' =>
    exact fun k mem => ih' (ih (subset_noting mem))

theorem handles_eq (outlined : g.Outlined expanding named hs os named') :
    os.map Outline.handle = hs := by
  induction outlined with
  | nil => rfl
  | reference stands _ ih => rw [List.map_cons, ih, handle_of_reference stands]
  | written _ _ _ _ ih => rw [List.map_cons, ih, Outline.handle]

theorem handle_eq (outlined : g.Outlined expanding named [h] [o] named') : o.handle = h := by
  simpa using outlined.handles_eq

theorem unique {os' : List Outline} {named'' : List HandleId}
    (outlined : g.Outlined expanding named hs os named')
    (outlined' : g.Outlined expanding named hs os' named'') : os = os' ∧ named' = named'' := by
  induction outlined generalizing os' named'' with
  | nil =>
    cases outlined'
    exact ⟨rfl, rfl⟩
  | reference stands _ ih =>
    cases outlined' with
    | reference stands' rest =>
      obtain ⟨rfl, rfl⟩ := ih rest
      cases stands.symm.trans stands'
      exact ⟨rfl, rfl⟩
    | written unwritten => cases stands.symm.trans unwritten
  | written unwritten _ _ ih ih' =>
    cases outlined' with
    | reference stands => cases unwritten.symm.trans stands
    | written _ inside rest =>
      obtain ⟨rfl, rfl⟩ := ih inside
      obtain ⟨rfl, rfl⟩ := ih' rest
      exact ⟨rfl, rfl⟩

theorem singleton (outlined : g.Outlined expanding named [h] [o] named') :
    g.reference expanding named h = some o ∨
      g.reference expanding named h = none ∧ ∃ parts, o = .written h parts := by
  cases outlined with
  | reference stands => exact .inl stands
  | written unwritten => exact .inr ⟨unwritten, _, rfl⟩

theorem of_mem (outlined : g.Outlined expanding named hs os named') (mem : o ∈ os) :
    ∃ before after, named ⊆ before ∧ g.Outlined expanding before [o.handle] [o] after := by
  induction outlined with
  | nil => cases mem
  | @reference _ named _ _ _ _ _ stands _ ih =>
    rcases List.mem_cons.mp mem with rfl | mem
    · have stands' := handle_of_reference stands
      subst stands'
      exact ⟨named, named, List.Subset.refl _, .reference stands .nil⟩
    · exact ih mem
  | @written _ named between _ _ _ _ _ unwritten inside _ _ ih =>
    rcases List.mem_cons.mp mem with rfl | mem
    · exact ⟨named, between, List.Subset.refl _, .written unwritten inside .nil⟩
    · obtain ⟨before, after, subset, alone⟩ := ih mem
      have grown : named ⊆ between := fun k there =>
        inside.named_subset (subset_noting there)
      exact ⟨before, after, List.Subset.trans grown subset, alone⟩

theorem at_place {above : List Outline} (outlined : g.Outlined [] [] [h] [t] named)
    (place : t.At above o) : ∃ before after,
      g.Outlined (above.map Outline.handle) before [o.handle] [o] after ∧
      ∀ k ∈ above.map Outline.handle, (g.get k).name ≠ "" → k ∈ before := by
  induction place with
  | root =>
    obtain rfl := outlined.handle_eq
    exact ⟨[], named, outlined, nofun⟩
  | @part above parts k o _ mem ih =>
    obtain ⟨before, after, alone, known⟩ := ih
    cases alone with
    | reference stands => exact absurd stands reference_ne_written
    | written unwritten inside =>
      obtain ⟨before', after', subset, alone⟩ := inside.of_mem mem
      refine ⟨before', after', alone, fun j mem' name => subset (mem_noting.mpr ?_)⟩
      rcases List.mem_cons.mp mem' with rfl | mem'
      · exact .inl ⟨rfl, name⟩
      · exact .inr (known j mem' name)

theorem written_at {above parts : List Outline} (outlined : g.Outlined [] [] [h] [t] named)
    (place : t.At above (.written k parts)) : (g.get k).isDefined = true ∧
      k ∉ above.map Outline.handle ∧ parts.map Outline.handle = (g.get k).told := by
  obtain ⟨before, after, alone, _⟩ := outlined.at_place place
  cases alone with
  | reference stands => exact absurd stands reference_ne_written
  | written unwritten inside =>
    obtain ⟨isDefined, _, outside⟩ := reference_eq_none_iff.mp unwritten
    exact ⟨isDefined, outside, inside.handles_eq⟩

theorem told_of_part {above parts : List Outline} (outlined : g.Outlined [] [] [h] [t] named)
    (place : t.At above (.written k parts)) (mem : o ∈ parts) : o.handle ∈ (g.get k).told := by
  rw [← (outlined.written_at place).2.2]
  exact List.mem_map_of_mem mem

theorem exists_part {above parts : List Outline} (outlined : g.Outlined [] [] [h] [t] named)
    (place : t.At above (.written k parts)) {j : HandleId} (told : j ∈ (g.get k).told) :
    ∃ o ∈ parts, o.handle = j := by
  rw [← (outlined.written_at place).2.2] at told
  exact List.mem_map.mp told

end Outlined

theorem tell_succ (g : Grammar) (cut : String) (levels : Nat) (expanding named : List HandleId)
    (h : HandleId) : g.tell cut (levels + 1) expanding h named =
      match g.reference expanding named h with
      | some o => (o.text g cut, named)
      | none =>
        let below := tellAll ((g.get h).told.map (g.tell cut levels (h :: expanding)))
          (g.noting h named)
        ((g.get h).wording below.1, below.2) := by
  rcases status : (g.get h).status with _ | body | _
  · simp [tell, reference, status, Outline.text]
  · by_cases again : (g.get h).name ≠ "" ∧ h ∈ named
    · simp [tell, reference, status, again, Outline.text]
    · by_cases inside : h ∈ expanding
      · simp [tell, reference, status, again, inside, Outline.text]
      · simp [tell, reference, status, again, inside, body.node.tellNode_eq,
          Handle.told_of_defined status, Handle.wording_of_defined status, noting]
  · simp [tell, reference, status, Outline.text]

/-- No handle is written out inside itself, so that there is an end to every description, and
levels that are more than the handles there are do not cut it short. -/
theorem exists_outlined {g : Grammar} {expanding : List HandleId} {levels : Nat} (cut : String)
    (nodup : expanding.Nodup) (exist : ∀ h ∈ expanding, h < g.size)
    (room : g.size < levels + expanding.length) (named hs : List HandleId) :
    ∃ os named', g.Outlined expanding named hs os named' ∧
      tellAll (hs.map (g.tell cut levels expanding)) named = (Outline.texts g cut os, named') := by
  induction levels generalizing expanding named hs with
  | zero =>
    -- No level is left only where more handles are being written out than there are.
    have subset : expanding ⊆ List.range g.size := fun h mem => List.mem_range.mpr (exist h mem)
    have le := (List.subperm_of_subset nodup subset).length_le
    rw [List.length_range] at le
    omega
  | succ levels ih =>
    -- On one level the handles are told in turn, each with what those before have named.
    induction hs generalizing named with
    | nil => exact ⟨[], named, .nil, rfl⟩
    | cons h hs ih' =>
      rcases stands : g.reference expanding named h with _ | o
      · obtain ⟨isDefined, _, new⟩ := reference_eq_none_iff.mp stands
        have lt : h < g.size := by
          by_contra ge
          rw [get_of_size_le (Nat.le_of_not_lt ge)] at isDefined
          cases isDefined
        obtain ⟨parts, between, inside, told⟩ := ih (List.nodup_cons.mpr ⟨new, nodup⟩)
          (List.forall_mem_cons.mpr ⟨lt, exist⟩) (by rw [List.length_cons]; omega)
          (g.noting h named) (g.get h).told
        obtain ⟨os, named', rest, told'⟩ := ih' between
        refine ⟨.written h parts :: os, named', .written stands inside rest, ?_⟩
        simp [tellAll, tell_succ, stands, told, told', Outline.texts, Outline.text]
      · obtain ⟨os, named', rest, told⟩ := ih' named
        refine ⟨o :: os, named', .reference stands rest, ?_⟩
        simp [tellAll, tell_succ, stands, told, Outline.texts]

def Outlines (g : Grammar) (h : HandleId) (t : Outline) : Prop :=
  ∃ named, g.Outlined [] [] [h] [t] named

theorem exists_outline (g : Grammar) (h : HandleId) :
    ∃ t, g.Outlines h t ∧ ∀ cut, g.describe h cut = t.text g cut := by
  have outlines (cut : String) : ∃ t named, g.Outlined [] [] [h] [t] named ∧
      g.describe h cut = t.text g cut := by
    obtain ⟨os, named, outlined, told⟩ :=
      exists_outlined cut List.nodup_nil (List.forall_mem_nil _) (Nat.lt_succ_self g.size) [] [h]
    obtain ⟨t, rfl⟩ : ∃ t, os = [t] := by
      rw [← List.length_eq_one_iff, ← os.length_map (f := Outline.handle), outlined.handles_eq]
      rfl
    refine ⟨t, named, outlined, ?_⟩
    have texts := congrArg Prod.fst told
    simpa [tellAll, Outline.texts, describe] using texts
  obtain ⟨t, named, outlined, _⟩ := outlines ""
  refine ⟨t, ⟨named, outlined⟩, fun cut => ?_⟩
  obtain ⟨t', _, outlined', text⟩ := outlines cut
  cases (outlined.unique outlined').1
  exact text

end Grammar

end Peg
