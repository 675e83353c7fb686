import Peg.Grammar.Basic

/-!
Walks over a grammar. A grammar is no tree: one handle can be shared by several parents, and a
placeholder can lead back to itself. A walk goes depth first in the order of definition and meets
every handle it reaches once.

A walk can be stopped between two handles and taken up again later. It reads the children of a
handle when it comes to it, so that the handle may be torn down straight away.
-/

namespace Peg

/-- A walk under way: what it is still to look at, the next first, and what it has met. -/
structure Walk where
  pending : List HandleId
  seen : List HandleId
deriving DecidableEq, Inhabited, Repr

namespace Walk

def ofRoots (roots : List HandleId) : Walk := ⟨roots, []⟩

/-- The next handle of what is pending, and the walk after it. -/
def nextOf (g : Grammar) (seen : List HandleId) : List HandleId → Option (HandleId × Walk)
  | [] => none
  | h :: rest =>
    if h ∈ seen then nextOf g seen rest
    else some (h, ⟨(g.get h).children ++ rest, h :: seen⟩)

theorem nextOf_eq_none_iff {g : Grammar} {seen pending : List HandleId} :
    nextOf g seen pending = none ↔ ∀ h ∈ pending, h ∈ seen := by
  induction pending with
  | nil => simp [nextOf]
  | cons h rest ih =>
    unfold nextOf
    split
    · next mem => simp [ih, mem]
    · next not_mem => simp [not_mem]

theorem nextOf_eq_some_iff {g : Grammar} {seen pending : List HandleId} {h : HandleId} {w : Walk} :
    nextOf g seen pending = some (h, w) ↔
      h ∉ seen ∧ ∃ before after, pending = before ++ h :: after ∧ (∀ k ∈ before, k ∈ seen) ∧
        w = ⟨(g.get h).children ++ after, h :: seen⟩ := by
  induction pending with
  | nil => simp [nextOf]
  | cons k rest ih =>
    unfold nextOf
    split
    · next mem =>
      rw [ih]
      constructor
      · rintro ⟨new, before, after, rfl, met, rfl⟩
        exact ⟨new, k :: before, after, rfl, by simpa [mem] using met, rfl⟩
      · rintro ⟨new, before, after, eq, met, rfl⟩
        cases before with
        | nil =>
          simp only [List.nil_append, List.cons.injEq] at eq
          exact absurd (eq.1 ▸ mem) new
        | cons b before =>
          simp only [List.cons_append, List.cons.injEq] at eq
          exact ⟨new, before, after, eq.2, fun a ha => met a (List.mem_cons_of_mem _ ha), rfl⟩
    · next not_mem =>
      simp only [Option.some.injEq, Prod.mk.injEq]
      constructor
      · rintro ⟨rfl, rfl⟩
        exact ⟨not_mem, [], rest, rfl, by simp, rfl⟩
      · rintro ⟨new, before, after, eq, met, rfl⟩
        cases before with
        | nil =>
          simp only [List.nil_append, List.cons.injEq] at eq
          obtain ⟨rfl, rfl⟩ := eq
          exact ⟨rfl, rfl⟩
        | cons b before =>
          simp only [List.cons_append, List.cons.injEq] at eq
          exact absurd (eq.1 ▸ met b (List.mem_cons_self ..)) not_mem

def next? (g : Grammar) (w : Walk) : Option (HandleId × Walk) := nextOf g w.seen w.pending

/-- Up to `n` handles more, and the walk after them. -/
def take (g : Grammar) : Nat → Walk → List HandleId × Walk
  | 0, w => ([], w)
  | n + 1, w =>
    match w.next? g with
    | none => ([], w)
    | some (h, w) =>
      let (hs, w) := take g n w
      (h :: hs, w)

end Walk

namespace Grammar

/-- More handles than a walk from these roots can meet: it comes to each by a root or by a
reference from a node. -/
def reach (g : Grammar) (roots : List HandleId) : Nat := roots.length + g.references + 1

def walk (g : Grammar) (roots : List HandleId) : List HandleId :=
  ((Walk.ofRoots roots).take g (g.reach roots)).1

end Grammar

end Peg
