import Peg.Text.Quoted

namespace Peg

/-- A finite set of texts, listed once each in code-point order. -/
structure Labels where
  items : List String
  ascending : items.Pairwise (· < ·)

namespace Labels

def empty : Labels := ⟨[], .nil⟩

def place (s : String) : List String → List String
  | [] => [s]
  | t :: ts => if s < t then s :: t :: ts else if s = t then t :: ts else t :: place s ts

theorem mem_place {a s : String} {ts : List String} : a ∈ place s ts ↔ a = s ∨ a ∈ ts := by
  induction ts with
  | nil => simp [place]
  | cons t ts ih =>
    unfold place
    split
    · simp
    · split
      · next h => subst h; simp
      · simp only [List.mem_cons, ih]
        constructor
        · rintro (h | h | h) <;> simp [h]
        · rintro (h | h | h) <;> simp [h]

theorem lt_of_not_lt_of_ne {s t : String} (not_lt : ¬ s < t) (ne : s ≠ t) : t < s := by
  rcases Decidable.em (t < s) with h | h
  · exact h
  · exact absurd (String.le_antisymm (String.not_lt.mp h) (String.not_lt.mp not_lt)) ne

theorem ascending_place {s : String} {ts : List String} (h : ts.Pairwise (· < ·)) :
    (place s ts).Pairwise (· < ·) := by
  induction ts with
  | nil => simp [place]
  | cons t ts ih =>
    rw [List.pairwise_cons] at h
    unfold place
    split
    · next lt =>
      refine List.pairwise_cons.mpr ⟨fun a ha => ?_, List.pairwise_cons.mpr h⟩
      rcases List.mem_cons.mp ha with rfl | ha
      · exact lt
      · exact String.lt_trans lt (h.1 a ha)
    · next not_lt =>
      split
      · exact List.pairwise_cons.mpr h
      · next ne =>
        refine List.pairwise_cons.mpr ⟨fun a ha => ?_, ih h.2⟩
        rcases mem_place.mp ha with rfl | ha
        · exact lt_of_not_lt_of_ne not_lt ne
        · exact h.1 a ha

def insert (s : String) (l : Labels) : Labels := ⟨place s l.items, ascending_place l.ascending⟩

def singleton (s : String) : Labels := insert s empty

def ofList (ss : List String) : Labels := ss.foldr insert empty

def union (l m : Labels) : Labels := l.items.foldr insert m

instance : Membership String Labels where
  mem l s := s ∈ l.items

theorem mem_def {s : String} {l : Labels} : s ∈ l ↔ s ∈ l.items := Iff.rfl

theorem mem_insert {a s : String} {l : Labels} : a ∈ insert s l ↔ a = s ∨ a ∈ l := mem_place

@[simp] theorem mem_singleton {a s : String} : a ∈ singleton s ↔ a = s := by
  simp [singleton, mem_def, insert, empty, mem_place]

theorem mem_foldr_insert {a : String} {ss : List String} {l : Labels} :
    a ∈ ss.foldr insert l ↔ a ∈ ss ∨ a ∈ l := by
  induction ss with
  | nil => simp
  | cons s ss ih => rw [List.foldr_cons, mem_insert, ih, List.mem_cons, or_assoc]

@[simp] theorem mem_union {a : String} {l m : Labels} : a ∈ union l m ↔ a ∈ l ∨ a ∈ m :=
  mem_foldr_insert

theorem eq_of_items_eq {l m : Labels} (h : l.items = m.items) : l = m := by
  cases l
  cases m
  cases h
  rfl

theorem items_eq_of_mem_iff {ss ts : List String} (hs : ss.Pairwise (· < ·))
    (ht : ts.Pairwise (· < ·)) (h : ∀ a, a ∈ ss ↔ a ∈ ts) : ss = ts := by
  induction ss generalizing ts with
  | nil =>
    cases ts with
    | nil => rfl
    | cons t ts => exact absurd ((h t).mpr (List.mem_cons_self ..)) (by simp)
  | cons s ss ih =>
    cases ts with
    | nil => exact absurd ((h s).mp (List.mem_cons_self ..)) (by simp)
    | cons t ts =>
      rw [List.pairwise_cons] at hs ht
      have same : s = t := by
        rcases List.mem_cons.mp ((h s).mp (List.mem_cons_self ..)) with eq | mem
        · exact eq
        · rcases List.mem_cons.mp ((h t).mpr (List.mem_cons_self ..)) with eq | mem'
          · exact eq.symm
          · exact absurd (String.lt_trans (ht.1 s mem) (hs.1 t mem')) (String.lt_irrefl t)
      subst same
      have rest : ∀ a, a ∈ ss ↔ a ∈ ts := by
        intro a
        constructor
        · intro mem
          rcases List.mem_cons.mp ((h a).mp (List.mem_cons_of_mem _ mem)) with rfl | mem'
          · exact absurd (hs.1 a mem) (String.lt_irrefl a)
          · exact mem'
        · intro mem
          rcases List.mem_cons.mp ((h a).mpr (List.mem_cons_of_mem _ mem)) with rfl | mem'
          · exact absurd (ht.1 a mem) (String.lt_irrefl a)
          · exact mem'
      rw [ih hs.2 ht.2 rest]

/-- A set is known by its members. -/
theorem eq_of_mem_iff {l m : Labels} (h : ∀ a, a ∈ l ↔ a ∈ m) : l = m :=
  eq_of_items_eq (items_eq_of_mem_iff l.ascending m.ascending h)

def message (l : Labels) (printable : Char → Bool := Text.isPrintable) : String :=
  match l.items with
  | [] => "nothing"
  | [s] => Text.quote s printable
  | ss => "one of " ++ ", ".intercalate (ss.map fun s => Text.quote s printable)

end Labels

end Peg
