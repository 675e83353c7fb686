import Mathlib.Logic.Relation
import Peg.Proofs.Description.Expansion
import Peg.Proofs.Lifecycle.Constructions

/-!
Recursion in descriptions. Where a handle stands inside of itself, it stands as its name if it has
one, and is cut short if it has none. In a grammar that was built by the combinators, every handle
that leads back to itself does so by way of a placeholder. What is cut short is a handle without a
name inside of which a placeholder is come to first that leads back to it.
-/

namespace Peg

open Relation

namespace Grammar

variable {g : Grammar} {h k u : HandleId} {hs ks : List HandleId} {o t : Outline}
  {above : List Outline}

inductive Trail (g : Grammar) (h : HandleId) : List HandleId → HandleId → Prop where
  | nil : Trail g h [] h
  | snoc {hs : List HandleId} {j k : HandleId} : Trail g h hs j → k ∈ (g.get j).told →
      Trail g h (j :: hs) k

/-- One handle tells of another, which has no name. -/
def Hushed (g : Grammar) (h k : HandleId) : Prop := k ∈ (g.get h).told ∧ (g.get k).name = ""

namespace Trail

theorem before (trail : g.Trail h (ks ++ k :: hs) u) : g.Trail h hs k := by
  induction ks generalizing u with
  | nil =>
    cases trail with
    | snoc trail => exact trail
  | cons j ks ih =>
    cases trail with
    | snoc trail => exact ih trail

theorem after (trail : g.Trail h (ks ++ k :: hs) u) : g.Trail k (ks ++ [k]) u := by
  induction ks generalizing u with
  | nil =>
    cases trail with
    | snoc _ told => exact .snoc .nil told
  | cons j ks ih =>
    cases trail with
    | snoc trail told => exact .snoc (ih trail) told

theorem start_mem (trail : g.Trail h hs u) : h ∈ u :: hs := by
  induction trail with
  | nil => exact List.mem_cons_self ..
  | snoc _ _ ih => exact List.mem_cons_of_mem _ ih

theorem hushed (trail : g.Trail h hs u) (left : hs ≠ []) (name : (g.get u).name = "") :
    TransGen g.Hushed h u ∨ ∃ p ∈ hs, (g.get p).name ≠ "" ∧ TransGen g.Hushed p u := by
  induction trail with
  | nil => exact absurd rfl left
  | @snoc hs j k trail told ih =>
    have last : TransGen g.Hushed j k := .single ⟨told, name⟩
    by_cases named : (g.get j).name = ""
    · cases trail with
      | nil => exact .inl last
      | snoc =>
        rcases ih (List.cons_ne_nil _ _) named with hushed | ⟨p, mem, named', hushed⟩
        · exact .inl (hushed.trans last)
        · exact .inr ⟨p, List.mem_cons_of_mem _ mem, named', hushed.trans last⟩
    · exact .inr ⟨j, List.mem_cons_self .., named, last⟩

end Trail

namespace Grown

theorem lt_of_hushed (grown : g.Grown) (name : (g.get h).name = "")
    (hushed : TransGen g.Hushed h k) : k < h := by
  induction hushed with
  | single edge => exact grown.older h name _ (Handle.told_subset _ edge.1)
  | @tail j k path edge ih =>
    have unnamed : (g.get j).name = "" := by
      cases path with
      | single edge => exact edge.2
      | tail _ edge => exact edge.2
    exact Nat.lt_trans (grown.older j unnamed k (Handle.told_subset _ edge.1)) ih

theorem exists_named (grown : g.Grown) (trail : g.Trail u ks u) (left : ks ≠ [])
    (name : (g.get u).name = "") :
    ∃ p ∈ ks, (g.get p).name ≠ "" ∧ TransGen g.Hushed p u := by
  refine (trail.hushed left name).resolve_left fun hushed => ?_
  exact absurd (grown.lt_of_hushed name hushed) (Nat.lt_irrefl u)

end Grown

namespace Outlined

variable {named : List HandleId} (outlined : g.Outlined [] [] [h] [t] named)

theorem written_above {w : Outline} {inner outer : List Outline}
    (place : t.At (inner ++ w :: outer) o) : ∃ parts, w = .written w.handle parts ∧ t.At outer w := by
  induction inner generalizing o with
  | nil =>
    cases place with
    | part place _ => exact ⟨_, rfl, place⟩
  | cons v inner ih =>
    cases place with
    | part place _ => exact ih place

include outlined

theorem trail (place : t.At above o) : g.Trail h (above.map Outline.handle) o.handle := by
  induction place with
  | root =>
    obtain rfl := outlined.handle_eq
    exact .nil
  | part place mem ih => exact .snoc ih (outlined.told_of_part place mem)

theorem reference_at (place : t.At above o) (inside : o.handle ∈ above.map Outline.handle) :
    o = if (g.get o.handle).name = "" then .cut o.handle else .byName o.handle := by
  obtain ⟨w, mem, same⟩ := List.mem_map.mp inside
  obtain ⟨inner, outer, rfl⟩ := List.append_of_mem mem
  obtain ⟨parts, written, place'⟩ := written_above place
  rw [written] at place'
  have isDefined := (outlined.written_at place').1
  rw [same] at isDefined
  obtain ⟨before, after, alone, known⟩ := outlined.at_place place
  rcases alone.singleton with stands | ⟨unwritten, _⟩
  · split
    · next name =>
      rw [reference_eq_cut_iff.mpr ⟨rfl, isDefined, (absurd name ·), inside⟩] at stands
      exact (Option.some.inj stands).symm
    · next name =>
      rw [reference_eq_byName isDefined name (known _ inside name)] at stands
      exact (Option.some.inj stands).symm
  · exact absurd inside (reference_eq_none_iff.mp unwritten).2.2

theorem cut_at (place : t.At above (.cut k)) :
    (g.get k).name = "" ∧ k ∈ above.map Outline.handle := by
  obtain ⟨before, after, alone, known⟩ := outlined.at_place place
  cases alone with
  | reference stands =>
    obtain ⟨_, _, new, inside⟩ := reference_eq_cut_iff.mp stands
    refine ⟨?_, inside⟩
    by_contra name
    exact new name (known _ inside name)

theorem cut_of_hushed {p : HandleId} {parts : List Outline}
    (place : t.At above (.written p parts)) (inside : u ∈ above.map Outline.handle)
    (name : (g.get u).name = "") (hushed : TransGen g.Hushed p u) :
    ∃ above k, t.At above (.cut k) := by
  induction hushed using TransGen.head_induction_on generalizing above parts with
  | single edge =>
    obtain ⟨o, mem, rfl⟩ := outlined.exists_part place edge.1
    have cut := outlined.reference_at (place.part mem) (List.mem_cons_of_mem _ inside)
    rw [if_pos name] at cut
    exact ⟨_, _, cut ▸ place.part mem⟩
  | @head p j edge path ih =>
    obtain ⟨o, mem, rfl⟩ := outlined.exists_part place edge.1
    have place' := place.part mem
    obtain ⟨before, after, alone, _⟩ := outlined.at_place place'
    by_cases back : o.handle ∈ p :: above.map Outline.handle
    · have cut := outlined.reference_at place' back
      rw [if_pos edge.2] at cut
      exact ⟨_, _, cut ▸ place'⟩
    · have isDefined : (g.get o.handle).isDefined = true := by
        obtain ⟨k, ⟨told, _⟩, _⟩ := TransGen.head'_iff.mp path
        exact Handle.isDefined_of_child (Handle.told_subset _ told)
      have unwritten : g.reference (p :: above.map Outline.handle) before o.handle = none :=
        reference_eq_none_iff.mpr ⟨isDefined, (absurd edge.2 ·), back⟩
      rcases alone.singleton with stands | ⟨_, inner, written⟩
      · cases unwritten.symm.trans stands
      · rw [written] at place'
        exact ih place' (List.mem_cons_of_mem p inside)

theorem hushed_of_cut (grown : g.Grown) (place : t.At above (.cut u)) :
    ∃ above p parts, t.At above (.written p parts) ∧ (g.get p).name ≠ "" ∧
      u ∈ above.map Outline.handle ∧ TransGen g.Hushed p u := by
  obtain ⟨name, inside⟩ := outlined.cut_at place
  obtain ⟨w, mem, rfl⟩ := List.mem_map.mp inside
  obtain ⟨inner, outer, rfl⟩ := List.append_of_mem mem
  have trail := outlined.trail place
  rw [List.map_append, List.map_cons] at trail
  obtain ⟨p, mem', name', hushed⟩ := grown.exists_named trail.after (by simp) name
  have mem_inner : p ∈ inner.map Outline.handle := by
    rcases List.mem_append.mp mem' with mem' | mem'
    · exact mem'
    · rw [List.mem_singleton.mp mem'] at name'
      exact absurd name name'
  obtain ⟨v, mem_v, rfl⟩ := List.mem_map.mp mem_inner
  obtain ⟨_, between, rfl⟩ := List.append_of_mem mem_v
  rw [List.append_assoc] at place
  obtain ⟨parts, written, place'⟩ := written_above place
  exact ⟨_, v.handle, parts, written ▸ place', name', by simp, hushed⟩

end Outlined

/-- Whichever way one comes to a handle without a name, and whichever way leads back to it, some
name stands on both. -/
def NamedAhead (g : Grammar) (h : HandleId) : Prop :=
  ∀ hs ks u, g.Trail h hs u → (g.get u).name = "" → g.Trail u ks u → ks ≠ [] →
    ∃ p ∈ hs, (g.get p).name ≠ "" ∧ p ∈ ks

theorem Outlined.uncut {named : List HandleId} (outlined : g.Outlined [] [] [h] [t] named)
    (ahead : g.NamedAhead h) : ¬ t.At above (.cut u) := by
  intro place
  obtain ⟨name, inside⟩ := outlined.cut_at place
  obtain ⟨inner, outer, split⟩ := List.append_of_mem inside
  have trail := outlined.trail place
  have nodup := outlined.nodup_at place
  rw [split] at trail nodup
  obtain ⟨p, mem, name', mem'⟩ := ahead _ _ _ trail.before name trail.after (by simp)
  have disjoint := (List.nodup_append.mp nodup).2.2
  rcases List.mem_append.mp mem' with mem' | mem'
  · exact disjoint p mem' p (List.mem_cons_of_mem _ mem) rfl
  · rw [List.mem_singleton.mp mem'] at name'
    exact name' name

/-- How a description refers to what it is written inside of. -/
structure Recurs (g : Grammar) (h : HandleId) (t : Outline) : Prop where
  outlines : g.Outlines h t
  text (cut : String) : g.describe h cut = t.text g cut
  reference {above : List Outline} {o : Outline} : t.At above o →
    o.handle ∈ above.map Outline.handle →
    o = if (g.get o.handle).name = "" then .cut o.handle else .byName o.handle
  /-- Nothing else is cut short. -/
  inside {above : List Outline} {k : HandleId} : t.At above (.cut k) →
    k ∈ above.map Outline.handle
  cut_iff : (∃ above k, t.At above (.cut k)) ↔
    ∃ above p parts u, t.At above (.written p parts) ∧ (g.get p).name ≠ "" ∧
      u ∈ above.map Outline.handle ∧ (g.get u).name = "" ∧ TransGen g.Hushed p u
  uncut : g.NamedAhead h → ∀ above k, ¬ t.At above (.cut k)

theorem Grown.exists_recurs (grown : g.Grown) (h : HandleId) : ∃ t, g.Recurs h t := by
  obtain ⟨t, ⟨named, outlined⟩, text⟩ := g.exists_outline h
  refine ⟨t, ⟨named, outlined⟩, text, outlined.reference_at, fun place => (outlined.cut_at place).2,
    ⟨?_, ?_⟩, fun ahead _ _ => outlined.uncut ahead⟩
  · rintro ⟨above, u, place⟩
    obtain ⟨above', p, parts, place', named, inside, hushed⟩ := outlined.hushed_of_cut grown place
    exact ⟨above', p, parts, u, place', named, inside, (outlined.cut_at place).1, hushed⟩
  · rintro ⟨above, p, parts, u, place, _, inside, name, hushed⟩
    exact outlined.cut_of_hushed place inside name hushed

end Grammar

theorem World.Built.describe_recurs {w : World} (built : w.Built) (h : HandleId) :
    ∃ t, w.store.grammar.Recurs h t :=
  built.grown.exists_recurs h

def dashes : World :=
  [Construction.placeholder "expr", .string (.inl "x"), .string (.inl "-"),
    .sequence .concat [.pair (.parser 2) none, .pair (.parser 0) none],
    .choice [.parser 1, .parser 3], .define 0 4].foldl (fun w c => (c.act w).2) {}

theorem built_dashes : dashes.Built := by
  have expr := World.Built.start.next (c := .placeholder "expr") (by decide)
  have x := expr.next (c := .string (.inl "x")) (by decide)
  have dash := x.next (c := .string (.inl "-")) (by decide)
  have dashed := dash.next
    (c := .sequence .concat [.pair (.parser 2) none, .pair (.parser 0) none]) (by decide)
  have either := dashed.next (c := .choice [.parser 1, .parser 3]) (by decide)
  exact either.next (c := .define 0 4) (by decide)

/-- From the placeholder, the only name in the grammar, nothing is cut short. -/
theorem built_dashes_recurs : ∃ t, dashes.store.grammar.Recurs 0 t ∧
    dashes.store.grammar.describe 0 = "('x' | ('-' <expr>))" ∧
    ∀ above k, ¬ t.At above (.cut k) := by
  obtain ⟨t, recurs⟩ := built_dashes.describe_recurs 0
  refine ⟨t, recurs, by decide, recurs.uncut fun hs ks u trail name back left => ?_⟩
  obtain ⟨p, mem, named, _⟩ := built_dashes.grown.exists_named back left name
  have only (k : HandleId) (named : (dashes.store.grammar.get k).name ≠ "") : k = 0 := by
    obtain lt | ge := Nat.lt_or_ge k dashes.store.grammar.size
    · have only : ∀ k < dashes.store.grammar.size,
          (dashes.store.grammar.get k).name ≠ "" → k = 0 := by decide
      exact only k lt named
    · rw [Grammar.get_of_size_le ge] at named
      exact absurd rfl named
  obtain rfl := only p named
  cases trail with
  | nil => exact absurd name named
  | snoc trail told => exact ⟨0, trail.start_mem, named, mem⟩

/-- From the handle that the placeholder leads back to, it is. -/
theorem dashes_cut : dashes.Built ∧ 3 < dashes.store.grammar.size ∧
    dashes.store.grammar.describe 3 = "('-' ('x' | <...>))" ∧
    ¬ ∀ t, dashes.store.grammar.Outlines 3 t → ∀ above k, ¬ t.At above (.cut k) := by
  refine ⟨built_dashes, by decide, by decide, fun uncut => ?_⟩
  let parts : List Outline := [.written 2 [], .written 0 [.written 1 [], .cut 3]]
  have outlines : dashes.store.grammar.Outlines 3 (.written 3 parts) :=
    ⟨_, .written rfl (.written rfl .nil (.written rfl
      (.written rfl .nil (.reference rfl .nil)) .nil)) .nil⟩
  have expr : (Outline.written 3 parts).At [.written 3 parts] (.written 0 [.written 1 [], .cut 3]) :=
    Outline.At.root.part (by simp [parts])
  exact uncut _ outlines _ 3 (expr.part (by simp))

end Peg
