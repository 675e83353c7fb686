import Mathlib.Data.Set.Card
import Peg.Proofs.Depth.Paths
import Peg.Proofs.Description.Outline
import Peg.Proofs.Lifecycle.Soundness
import Peg.Proofs.Walk.Preorder

namespace Peg

namespace Grammar

variable {g : Grammar} {expanding named named' hs : List HandleId} {os : List Outline}
  {h k : HandleId} {o t : Outline}

theorem finite_reachable (g : Grammar) (roots : List HandleId) :
    {k | g.Reachable roots k}.Finite := by
  refine (g.walk roots).finite_toSet.subset fun k reachable => ?_
  exact ((g.walk_preorder roots).2.1 k).mpr reachable

namespace Outlined

theorem reachable_at {above : List Outline} (outlined : g.Outlined [] [] [h] [t] named)
    (place : t.At above o) : ∀ k ∈ o.handle :: above.map Outline.handle, g.Reachable [h] k := by
  induction place with
  | root =>
    obtain rfl := outlined.handle_eq
    exact List.forall_mem_singleton.mpr (.root (List.mem_singleton_self _))
  | part place mem ih =>
    refine List.forall_mem_cons.mpr ⟨?_, ih⟩
    have child := Handle.told_subset _ (outlined.told_of_part place mem)
    exact (ih _ (List.mem_cons_self ..)).child child

theorem nodup_at {above : List Outline} (outlined : g.Outlined [] [] [h] [t] named)
    (place : t.At above o) : (above.map Outline.handle).Nodup := by
  induction place with
  | root => exact List.nodup_nil
  | part place _ ih => exact List.nodup_cons.mpr ⟨(outlined.written_at place).2.1, ih⟩

theorem length_above_le {above : List Outline} (outlined : g.Outlined [] [] [h] [t] named)
    (place : t.At above o) : above.length ≤ {k | g.Reachable [h] k}.ncard := by
  have nodup := outlined.nodup_at place
  have subset : ((above.map Outline.handle).toFinset : Set HandleId) ⊆ {k | g.Reachable [h] k} := by
    intro k mem
    have mem' : k ∈ above.map Outline.handle := by simpa using mem
    exact outlined.reachable_at place k (List.mem_cons_of_mem _ mem')
  have le := Set.ncard_le_ncard subset (g.finite_reachable [h])
  rwa [Set.ncard_coe_finset, List.toFinset_card_of_nodup nodup, List.length_map] at le

end Outlined

theorem all_of_reference (stands : g.reference expanding named h = some o) : o.all = [o] := by
  cases o with
  | written k parts => exact absurd stands reference_ne_written
  | _ => rfl

section Named

variable (isDefined : (g.get k).isDefined = true) (name : (g.get k).name ≠ "")
include isDefined name

theorem Outlined.known (outlined : g.Outlined expanding named hs os named') (mem : k ∈ named) :
    ∃ n, (Outline.allOf os).filter (·.handle == k) = List.replicate n (.byName k) := by
  induction outlined with
  | nil => exact ⟨0, rfl⟩
  | @reference _ _ _ _ _ h o stands _ ih =>
    obtain ⟨n, rest⟩ := ih mem
    by_cases same : h = k
    · subst same
      rw [reference_eq_byName isDefined name mem] at stands
      cases stands
      exact ⟨n + 1, by simp [Outline.allOf, Outline.all, rest, List.replicate_succ]⟩
    · have other : o.handle ≠ k := by rwa [handle_of_reference stands]
      exact ⟨n, by simp [Outline.allOf, all_of_reference stands, other, rest]⟩
  | @written _ _ _ _ _ _ _ h unwritten inside _ ih ih' =>
    have other : h ≠ k := by
      rintro rfl
      exact (reference_eq_none_iff.mp unwritten).2.1 name mem
    obtain ⟨n, parts⟩ := ih (subset_noting mem)
    obtain ⟨m, rest⟩ := ih' (inside.named_subset (subset_noting mem))
    exact ⟨n + m, by
      simp [Outline.allOf, Outline.all, other, parts, rest, List.replicate_append_replicate]⟩

theorem Outlined.once (outlined : g.Outlined expanding named hs os named') (new : k ∉ named)
    (outside : k ∉ expanding) :
    (k ∉ named' ∧ (Outline.allOf os).filter (·.handle == k) = []) ∨
    k ∈ named' ∧ ∃ parts n, (Outline.allOf os).filter (·.handle == k) =
      .written k parts :: List.replicate n (.byName k) := by
  -- A handle without a name may be written out again, so this is asked of the first time only.
  induction outlined with
  | nil => exact .inl ⟨new, rfl⟩
  | @reference _ _ _ _ _ h o stands _ ih =>
    have other : o.handle ≠ k := by
      rw [handle_of_reference stands]
      rintro rfl
      rw [reference_eq_none_iff.mpr ⟨isDefined, fun _ => new, outside⟩] at stands
      cases stands
    simpa [Outline.allOf, all_of_reference stands, other] using ih new outside
  | @written expanding named _ _ _ parts _ h _ inside rest ih ih' =>
    by_cases same : h = k
    · subst same
      have noted : h ∈ g.noting h named := mem_noting.mpr (.inl ⟨rfl, name⟩)
      obtain ⟨n, below⟩ := inside.known isDefined name noted
      obtain ⟨m, later⟩ := rest.known isDefined name (inside.named_subset noted)
      refine .inr ⟨rest.named_subset (inside.named_subset noted), parts, n + m, ?_⟩
      simp [Outline.allOf, Outline.all, below, later, List.replicate_append_replicate]
    · have new' : k ∉ g.noting h named := by
        rw [mem_noting]
        simp [new, Ne.symm same]
      have outside' : k ∉ h :: expanding := List.not_mem_cons_of_ne_of_not_mem (Ne.symm same) outside
      -- It is come to among the parts of `h`, or else among what is left after them.
      rcases ih new' outside' with ⟨new'', below⟩ | ⟨noted, inner, n, below⟩
      · simpa [Outline.allOf, Outline.all, same, below] using ih' new'' outside
      · obtain ⟨m, later⟩ := rest.known isDefined name noted
        refine .inr ⟨rest.named_subset noted, inner, n + m, ?_⟩
        simp [Outline.allOf, Outline.all, same, below, later,
          List.replicate_append_replicate]

end Named

/-- Handles as trees: each node is written out with what it tells. -/
inductive Plain (g : Grammar) : List HandleId → List String → Prop where
  | nil : Plain g [] []
  | deleted {hs : List HandleId} {texts : List String} {h : HandleId} :
      (g.get h).status = .deleted → Plain g hs texts → Plain g (h :: hs) ("<deleted>" :: texts)
  | undefined {hs : List HandleId} {texts : List String} {h : HandleId} :
      (g.get h).status = .undefined → Plain g hs texts →
      Plain g (h :: hs) (("<" ++ (g.get h).name ++ ">") :: texts)
  | defined {hs : List HandleId} {inner texts : List String} {h : HandleId} {body : Body} :
      (g.get h).status = .defined body → Plain g body.node.told inner → Plain g hs texts →
      Plain g (h :: hs) (body.node.wording inner :: texts)

theorem Plain.unique {texts texts' : List String} (plain : g.Plain hs texts)
    (plain' : g.Plain hs texts') : texts = texts' := by
  induction plain generalizing texts' with
  | nil =>
    cases plain'
    rfl
  | deleted status _ ih =>
    cases plain' with
    | deleted _ rest => rw [ih rest]
    | undefined status' => cases status.symm.trans status'
    | defined status' => cases status.symm.trans status'
  | undefined status _ ih =>
    cases plain' with
    | deleted status' => cases status.symm.trans status'
    | undefined _ rest => rw [ih rest]
    | defined status' => cases status.symm.trans status'
  | defined status _ _ ih ih' =>
    cases plain' with
    | deleted status' => cases status.symm.trans status'
    | undefined status' => cases status.symm.trans status'
    | defined status' inside rest =>
      cases status.symm.trans status'
      rw [ih inside, ih' rest]

theorem Outlined.plain (outlined : g.Outlined expanding named hs os named')
    (acyclic : ∀ k, g.Reachable hs k → ¬ g.Reachable (g.get k).children k)
    (unnamed : ∀ k, g.Reachable hs k → (g.get k).isDefined = true → (g.get k).name = "")
    (outside : ∀ k ∈ expanding, ¬ g.Reachable hs k) (cut : String) :
    g.Plain hs (Outline.texts g cut os) := by
  induction outlined with
  | nil => exact .nil
  | @reference expanding named _ hs _ h _ stands _ ih =>
    have later {j : HandleId} (reachable : g.Reachable hs j) : g.Reachable (h :: hs) j :=
      reachable.mono (List.subset_cons_self ..)
    have rest := ih (fun j => acyclic j ∘ later) (fun j => unnamed j ∘ later)
      fun j mem => outside j mem ∘ later
    have here : g.Reachable (h :: hs) h := .root (List.mem_cons_self ..)
    rcases status : (g.get h).status with _ | body | _
    · obtain rfl : Outline.byName h = _ := by simpa [Grammar.reference, status] using stands
      exact .undefined status rest
    · have isDefined := Handle.isDefined_iff.mpr ⟨body, status⟩
      have free : h ∉ expanding := fun mem => outside h mem here
      rw [reference_eq_none_iff.mpr ⟨isDefined, (absurd (unnamed h here isDefined) ·), free⟩] at stands
      cases stands
    · obtain rfl : Outline.deleted h = _ := by simpa [Grammar.reference, status] using stands
      exact .deleted status rest
  | @written expanding _ _ _ hs _ _ h unwritten _ _ ih ih' =>
    obtain ⟨body, status⟩ := Handle.isDefined_iff.mp (reference_eq_none_iff.mp unwritten).1
    have here : g.Reachable (h :: hs) h := .root (List.mem_cons_self ..)
    have later {j : HandleId} (reachable : g.Reachable hs j) : g.Reachable (h :: hs) j :=
      reachable.mono (List.subset_cons_self ..)
    have below {j : HandleId} (reachable : g.Reachable (g.get h).told j) :
        g.Reachable (g.get h).children j := reachable.mono (Handle.told_subset _)
    have inner {j : HandleId} (reachable : g.Reachable (g.get h).told j) :
        g.Reachable (h :: hs) j :=
      (below reachable).of_roots fun k child => here.child child
    have parts := ih (fun j => acyclic j ∘ inner) (fun j => unnamed j ∘ inner) fun j mem back => by
      rcases List.mem_cons.mp mem with rfl | mem
      · exact acyclic j here (below back)
      · exact outside j mem (inner back)
    have rest := ih' (fun j => acyclic j ∘ later) (fun j => unnamed j ∘ later)
      fun j mem => outside j mem ∘ later
    rw [Handle.told_of_defined status] at parts
    rw [Outline.texts, Outline.text, Handle.wording_of_defined status]
    exact .defined status parts rest

/-- What a description of a handle comes to. -/
structure Described (g : Grammar) (h : HandleId) (t : Outline) : Prop where
  ends : g.Outlines h t
  text (cut : String) : g.describe h cut = t.text g cut
  depth {above : List Outline} {o : Outline} : t.At above o →
    above.length + 1 ≤ {k | g.Reachable [h] k}.ncard + 1
  once {k : HandleId} : (g.get k).isDefined = true → (g.get k).name ≠ "" →
    t.all.filter (·.handle == k) = [] ∨ ∃ parts n, t.all.filter (·.handle == k) =
      .written k parts :: List.replicate n (.byName k)
  plain : g.AcyclicFrom h →
    (∀ k, g.Reachable [h] k → (g.get k).isDefined = true → (g.get k).name = "") →
    ∀ cut text, g.Plain [h] [text] ↔ text = g.describe h cut

theorem exists_described (g : Grammar) (h : HandleId) : ∃ t, g.Described h t := by
  obtain ⟨t, ⟨named, outlined⟩, text⟩ := g.exists_outline h
  refine ⟨t, ⟨named, outlined⟩, text, fun place => ?_, fun isDefined name => ?_,
    fun acyclic unnamed cut s => ?_⟩
  · exact Nat.succ_le_succ (outlined.length_above_le place)
  · have once := outlined.once isDefined name List.not_mem_nil List.not_mem_nil
    simp only [Outline.allOf, List.append_nil] at once
    exact once.imp And.right And.right
  · have tree := outlined.plain acyclic unnamed (List.forall_mem_nil _) cut
    rw [Outline.texts, Outline.texts, ← text cut] at tree
    constructor
    · intro tree'
      simpa using tree'.unique tree
    · rintro rfl
      exact tree

def pairs : Grammar :=
  ⟨#[{ status := .defined ⟨0, .literal "a"⟩ }, { status := .defined ⟨1, .literal "b"⟩ },
    { status := .defined ⟨2, .sequence .concat [(0, none), (1, none)]⟩ },
    { status := .defined ⟨3, .repetition .concat 2 0 none none⟩ }]⟩

theorem exists_described_pairs :
    ∃ t, pairs.Described 3 t ∧ pairs.Plain [3] ["('a' 'b')*"] := by
  have lower : ∀ h, ∀ k ∈ (pairs.get h).children, k < h := by
    intro h k mem
    obtain lt | ge := Nat.lt_or_ge h pairs.size
    · have lower : ∀ h < pairs.size, ∀ k ∈ (pairs.get h).children, k < h := by decide
      exact lower h lt k mem
    · rw [get_of_size_le ge] at mem
      cases mem
  have unnamed (h : HandleId) : (pairs.get h).name = "" := by
    obtain lt | ge := Nat.lt_or_ge h pairs.size
    · have unnamed : ∀ h < pairs.size, (pairs.get h).name = "" := by decide
      exact unnamed h lt
    · rw [get_of_size_le ge]
  obtain ⟨t, described⟩ := exists_described pairs 3
  refine ⟨t, described, ?_⟩
  exact (described.plain (acyclicFrom_of_rank lower 3) (fun k _ _ => unnamed k) "" _).mpr rfl

end Grammar

end Peg
