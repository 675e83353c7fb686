import Peg.Proofs.Lifecycle.Building
import Peg.Proofs.Run.Spans
import Peg.Proofs.Semantics.Settles

namespace Peg

def Grammar.OneOf {α : Type} (g : Grammar) (stands : HandleId → α → Prop) (as : List α)
    (h : HandleId) : Prop :=
  ∃ first others, g.Holds h (.choice first others) ∧ List.Forall₂ stands (first :: others) as

theorem exists_standing {α : Type} {stands : HandleId → α → Prop} {hs : List HandleId}
    {as : List α} (all : List.Forall₂ stands hs as) {a : α} (mem : a ∈ as) :
    ∃ before h after, hs = before ++ h :: after ∧ stands h a ∧
      ∀ k ∈ before, ∃ b ∈ as, b ≠ a ∧ stands k b := by
  induction all with
  | nil => cases mem
  | @cons h b hs as here all ih =>
    by_cases same : b = a
    · subst same
      exact ⟨[], h, hs, rfl, here, fun _ => nofun⟩
    · obtain ⟨before, h', after, rfl, there, others⟩ :=
        ih ((List.mem_cons.mp mem).resolve_left (Ne.symm same))
      refine ⟨h :: before, h', after, rfl, there, fun k mem_k => ?_⟩
      obtain rfl | later := List.mem_cons.mp mem_k
      · exact ⟨b, List.mem_cons_self .., same, here⟩
      · obtain ⟨b', mem', ne, stands'⟩ := others k later
        exact ⟨b', List.mem_cons_of_mem _ mem', ne, stands'⟩

theorem standing_of_mem {α : Type} {stands : HandleId → α → Prop} {hs : List HandleId}
    {as : List α} (all : List.Forall₂ stands hs as) {h : HandleId} (mem : h ∈ hs) :
    ∃ a ∈ as, stands h a := by
  induction all with
  | nil => cases mem
  | cons here _ ih =>
    obtain rfl | later := List.mem_cons.mp mem
    · exact ⟨_, List.mem_cons_self .., here⟩
    · obtain ⟨a, mem', stands'⟩ := ih later
      exact ⟨a, List.mem_cons_of_mem _ mem', stands'⟩

theorem Build.builds_oneOf {α : Type} {stands : Grammar → HandleId → α → Prop} {as : List α}
    {hs : List HandleId} (some_left : as ≠ [])
    (made : ∃ g, List.Forall₂ (fun h a => stands g h a) hs as) :
    (Build.choice (hs.map .parser)).Builds fun h g => ∃ first others, hs = first :: others ∧
      g.Holds h (.choice first others) := by
  obtain ⟨_, made⟩ := made
  cases made with
  | nil => exact absurd rfl some_left
  | @cons first _ others _ _ _ =>
    intro w
    obtain ⟨h, w', ran, kept, opens, post⟩ := Build.builds_choice first others w
    exact ⟨h, w', ran, kept, opens, fun g later => ⟨first, others, rfl, post g later⟩⟩

namespace Meaning.Settles

variable {m : Meaning} {g : Grammar} {c next : Cursor} {d e : Nat} {ending : Ending Result}
  {h : HandleId}

theorem holds {node : Node} (holds : g.Holds h node)
    (inside : m.Settles g (.body node) c d ending) : m.Settles g (.call h) c (d + 1) ending := by
  obtain ⟨body, status, rfl⟩ := holds
  exact call status inside

theorem literal_read {text : String} (literal : g.Holds h (.literal text))
    (spans : c.Spans text.toList next) :
    m.Settles g (.call h) c 1 (.done (.success (.text text) next)) := by
  refine holds literal (leaf (.read ⟨next.ahead, spans.2.symm⟩ spans.1 ?_))
  rw [spans.pos_eq, String.length_toList]

theorem literal_unread {text : String} (literal : g.Holds h (.literal text))
    (absent : ¬ text.toList <+: c.ahead) :
    ∃ f, m.Settles g (.call h) c 1 (.done (.failure f)) :=
  ⟨_, holds literal (leaf (.unread absent))⟩

section OneOf

variable {α : Type} {stands : HandleId → α → Prop} {as : List α}

/-- A choice of handles that stand for different things reads the one thing that is there. -/
theorem oneOf_read {v : Value} {b : α} (oneOf : g.OneOf stands as h) (mem : b ∈ as)
    (others : ∀ k, ∀ b' ∈ as, stands k b' → b' ≠ b →
      ∃ f, m.Settles g (.call k) c d (.done (.failure f)))
    (this : ∀ k, stands k b → m.Settles g (.call k) c e (.done (.success v next))) (le : d ≤ e) :
    m.Settles g (.call h) c (e + 1) (.done (.success v next)) := by
  obtain ⟨first, rest, at_choice, all⟩ := oneOf
  obtain ⟨before, k, after, cut, here, before_others⟩ := exists_standing all mem
  have unread (k' : HandleId) (mem : k' ∈ before) :
      ∃ f, m.Settles g (.call k') c d (.done (.failure f)) := by
    obtain ⟨b', mem_b, ne, there⟩ := before_others k' mem
    exact others k' b' mem_b there ne
  have read : m.Settles g (.alternatives none (first :: rest)) c e (.done (.success v next)) :=
    cut ▸ chosen unread (this k here) nofun le
  exact holds at_choice (choice read)

theorem oneOf_unread (oneOf : g.OneOf stands as h)
    (each : ∀ k, ∀ b ∈ as, stands k b → ∃ f, m.Settles g (.call k) c d (.done (.failure f))) :
    ∃ f, m.Settles g (.call h) c (d + 1) (.done (.failure f)) := by
  obtain ⟨first, rest, at_choice, all⟩ := oneOf
  have unread (k : HandleId) (mem : k ∈ first :: rest) :
      ∃ f, m.Settles g (.call k) c d (.done (.failure f)) := by
    obtain ⟨b, mem_b, here⟩ := standing_of_mem all mem
    exact each k b mem_b here
  obtain ⟨f, failed⟩ : ∃ f, m.Settles g (.alternatives none (first :: rest)) c d _ :=
    all_failed unread (List.cons_ne_nil _ _)
  exact ⟨f, holds at_choice (choice failed)⟩

end OneOf

end Meaning.Settles

end Peg
