import Mathlib
import Peg.Proofs.Lifecycle.Changes
import Peg.Proofs.Sharing.Bisimilar

/-!
What sharing changes in a run: nothing. Handles may be merged where they hold the same, copied, or
reached through a placeholder that was defined from them, wherever the grammar refers to them.
-/

namespace Peg

theorem forall₂_compose {α β γ : Type} {P : α → β → Prop} {Q : β → γ → Prop} {S : α → γ → Prop}
    {xs : List α} {ys : List β} {zs : List γ} (first : List.Forall₂ P xs ys)
    (second : List.Forall₂ Q ys zs) (compose : ∀ x ∈ xs, ∀ y z, P x y → Q y z → S x z) :
    List.Forall₂ S xs zs := by
  induction first generalizing zs with
  | nil =>
    cases second
    exact .nil
  | cons here _ ih =>
    cases second with
    | cons here' rest =>
      exact .cons (compose _ (List.mem_cons_self ..) _ _ here here')
        (ih rest fun x mem => compose x (List.mem_cons_of_mem _ mem))

section

variable {A B C : HandleId → HandleId → Prop}

theorem Node.Alike.trans {n n' n'' : Node} (first : n.Alike A Eq n') (second : n'.Alike B Eq n'')
    (compose : ∀ x ∈ n.children, ∀ y z, A x y → B y z → C x z) : n.Alike C Eq n'' := by
  cases first with
  | literal | pure | eof =>
    cases second
    constructor
  | fail label =>
    cases second with
    | fail label' => exact .fail (label.trans label')
  | choice handles =>
    cases second with
    | choice handles' => exact .choice (forall₂_compose handles handles' compose)
  | sequence items =>
    cases second with
    | sequence items' =>
      refine .sequence (forall₂_compose items items' fun x mem y z here here' => ⟨?_, ?_⟩)
      · exact compose x.1 (List.mem_map_of_mem mem) y.1 z.1 here.1 here'.1
      · exact here.2.trans here'.2
  | repetition handle =>
    cases second with
    | repetition handle' =>
      exact .repetition (compose _ (List.mem_singleton_self _) _ _ handle handle')
  | apply handle =>
    cases second with
    | apply handle' => exact .apply (compose _ (List.mem_singleton_self _) _ _ handle handle')
  | expect handle label =>
    cases second with
    | expect handle' label' =>
      exact .expect (compose _ (List.mem_singleton_self _) _ _ handle handle') (label.trans label')

namespace Handle

theorem alike_refl (a : Handle) : a.Alike Eq a := by
  rcases status : a.status with _ | body | _
  · exact .undefined status status rfl
  · exact .defined status status (Node.alike_refl (fun _ _ => rfl) fun _ => rfl)
  · exact .deleted status status rfl

theorem Alike.trans {a b c : Handle} (first : a.Alike A b) (second : b.Alike B c)
    (compose : ∀ x ∈ a.children, ∀ y z, A x y → B y z → C x z) : a.Alike C c := by
  cases first with
  | @defined body _ there there' nodes =>
    cases second with
    | defined there₂ there₃ nodes' =>
      rw [there'] at there₂
      cases there₂
      refine .defined there there₃ (nodes.trans nodes' fun x mem => compose x ?_)
      simpa only [children, body?, there] using mem
    | undefined there₂ | deleted there₂ => simp [there'] at there₂
  | undefined there there' name =>
    cases second with
    | undefined there₂ there₃ name' => exact .undefined there there₃ (name'.trans name)
    | defined there₂ | deleted there₂ => simp [there'] at there₂
  | deleted there there' calling =>
    cases second with
    | deleted there₂ there₃ calling' => exact .deleted there there₃ (calling'.trans calling)
    | defined there₂ | undefined there₂ => simp [there'] at there₂

end Handle

end

namespace Grammar

/-- Each handle holds the same in both grammars, but leads to related handles. -/
def Rewired (E : HandleId → HandleId → Prop) (g g' : Grammar) : Prop :=
  ∀ h, (g.get h).Alike E (g'.get h)

/-- The grammar with a copy of `p` at `q`: a handle of its own, or a placeholder defined from it. -/
inductive Copied (g : Grammar) (p q : HandleId) : Grammar → Prop where
  | added : q = g.size → Copied g p q (g.add (g.get p))
  | defined {g' : Grammar} : q < g.size → g.define q p = .ok g' → Copied g p q g'

def Redirects (p q h k : HandleId) : Prop := h ≠ q ∧ (k = h ∨ h = p ∧ k = q)

variable {g g' g₁ : Grammar} {E : HandleId → HandleId → Prop}

theorem Rewired.bisimilar (rewired : g.Rewired E g') (bisimilar : Bisimilar E g g)
    (trans : ∀ h k l, E h k → E k l → E h l) : Bisimilar E g g' :=
  fun h k related => (bisimilar h k related).trans (rewired k) fun x _ => trans x

theorem Copied.alike {p q h k : HandleId} (copied : g.Copied p q g₁)
    (redirects : Redirects p q h k) : (g.get h).Alike Eq (g₁.get k) := by
  obtain ⟨other, rfl | ⟨rfl, rfl⟩⟩ := redirects
  · -- Another handle than the copy is what it was.
    have kept : g₁.get k = g.get k := by
      cases copied with
      | added last =>
        subst last
        exact get_add_other _ other
      | defined _ done =>
        obtain ⟨_, _, _, _, rfl⟩ := define_eq_ok_iff.mp done
        exact get_set_other _ other
    rw [kept]
    exact Handle.alike_refl _
  · cases copied with
    | added last =>
      subst last
      rw [get_add_self]
      exact Handle.alike_refl _
    | defined lt done =>
      obtain ⟨_, _, body, status, rfl⟩ := define_eq_ok_iff.mp done
      refine .defined status ?_ (Node.alike_refl (fun _ _ => rfl) fun _ => rfl)
      rw [get_set_self _ lt]

theorem Copied.bisimilar {p q : HandleId} (copied : g.Copied p q g₁)
    (rewired : g₁.Rewired (Redirects p q) g') : Bisimilar (Redirects p q) g g' :=
  fun _ k redirects => (copied.alike redirects).trans (rewired k) fun _ _ _ _ same => same ▸ id

end Grammar

structure Mirrored (trace : Bool) (R : HandleId → HandleId → Prop) (s t : Store)
    (before after : Ending Result × Run) : Prop where
  ending : after.1 = before.1
  /-- What happened, in its order and with its depths. -/
  journal : List.Forall₂ (Entry.Alike R) before.2.journal after.2.journal
  guard : after.2.guard = before.2.guard
  caused : after.2.caused = before.2.caused
  events : trace = false → after.2.events = before.2.events
  grammar : before.2.store.grammar = s.grammar
  store : after.2.store = before.2.store.over t.grammar t.registers

namespace Meaning

variable {m : Meaning} {ctx : Context} {c : Cursor} {s t : Store}

theorem call_of_bisimilar {R : HandleId → HandleId → Prop}
    (same : t = s.over t.grammar t.registers) (bisimilar : Grammar.Bisimilar R s.grammar t.grammar)
    (aloof : s.grammar.Calls m.aloof fun h => ∃ k, R h k) {h k : HandleId} (related : R h k) :
    Mirrored ctx.config.trace R s t (m.call ctx h c s) (m.call ctx k c t) := by
  obtain ⟨ending, grammar, store, guard, journal⟩ :=
    (simulates_sharing bisimilar aloof ctx.config.trace).call ctx ctx h k c c s t rfl rfl related
      rfl ⟨rfl, same, rfl, .nil⟩ trivial
  have caused := caused_of_alike journal
  refine ⟨Pairing.eq_of_same ending, journal, guard, caused, fun untraced => ?_, grammar, store⟩
  rw [events_of_untraced untraced, events_of_untraced untraced, caused]

/-- Main result. Two grammars that agree along a relation of their handles, with callbacks that
keep away from the grammar: related handles go through the same runs, from the same cursor and under
the same limit. So it changes no run to lead to another of the handles that hold the same, or to a
copy of a handle, or to a placeholder defined from it. -/
theorem sharing_invisible (m : Meaning) (ctx : Context) (c : Cursor) {s t : Store}
    (same : t = s.over t.grammar t.registers) :
    (∀ R, Grammar.Bisimilar R s.grammar t.grammar →
      (s.grammar.Calls m.aloof fun h => ∃ k, R h k) → ∀ h k, R h k →
        Mirrored ctx.config.trace R s t (m.call ctx h c s) (m.call ctx k c t)) ∧
    (∀ E, Grammar.Bisimilar E s.grammar s.grammar → (∀ h k l, E h k → E k l → E h l) →
      s.grammar.Rewired E t.grammar → (s.grammar.Calls m.aloof fun h => ∃ k, E h k) →
      ∀ h k, E h k → Mirrored ctx.config.trace E s t (m.call ctx h c s) (m.call ctx k c t)) ∧
    (∀ p q g, s.grammar.Copied p q g → g.Rewired (Grammar.Redirects p q) t.grammar →
      s.grammar.Calls m.aloof (· ≠ q) → ∀ h k, Grammar.Redirects p q h k →
        Mirrored ctx.config.trace (Grammar.Redirects p q) s t (m.call ctx h c s)
          (m.call ctx k c t)) := by
  refine ⟨fun R bisimilar aloof h k => call_of_bisimilar same bisimilar aloof,
    fun E bisimilar trans rewired aloof h k =>
      call_of_bisimilar same (rewired.bisimilar bisimilar trans) aloof,
    fun p q g copied rewired aloof h k => ?_⟩
  refine call_of_bisimilar same (copied.bisimilar rewired) fun h body related => ?_
  obtain ⟨_, other, _⟩ := related
  exact aloof h body other

def trail (next : HandleId) (later : Status) : Store where
  grammar := ⟨#[{ status := .defined ⟨0, .literal "a"⟩ }, { status := .defined ⟨1, .eof⟩ },
    { status := .defined ⟨2, .choice 3 [1]⟩ },
    { status := .defined ⟨3, .sequence .list
      [(0, some (.logged "letter" [] (.fault ""))), (next, none)]⟩ },
    { name := "later", status := later }]⟩

theorem trail_aloof (next : HandleId) : (trail next .undefined).grammar.Calls usual.aloof
    fun _ => True := by
  obtain ⟨releases, folds, _⟩ := standard_aloof Operator.apply nestingLevels
  intro h body _ status
  rcases h with _ | _ | _ | _ | _ | h
  · cases status
    trivial
  · cases status
    trivial
  · cases status
    trivial
  · cases status
    exact ⟨folds _, fun _ _ r _ => releases r⟩
  · cases status
  · rw [Grammar.get_of_size_le (by simp [trail, Grammar.size])] at status
    cases status

def trailRun (h : HandleId) (s : Store) : Ending Result × Run :=
  usual.call shallow h (.start #['a']) s

/-- The placeholder is defined from the handle that the letters led to, and they lead to it now. -/
theorem trail_invisible :
    (trail 2 .undefined).grammar.Copied 2 4 (trail 2 (.defined ⟨2, .choice 3 [1]⟩)).grammar ∧
    (trailRun 4 (trail 4 (.defined ⟨2, .choice 3 [1]⟩))).1 =
      .done (.success (.list [.text "a", .null]) ⟨#['a'], 1, by decide⟩) ∧
    Mirrored false (Grammar.Redirects 2 4) (trail 2 .undefined)
      (trail 4 (.defined ⟨2, .choice 3 [1]⟩)) (trailRun 2 (trail 2 .undefined))
      (trailRun 4 (trail 4 (.defined ⟨2, .choice 3 [1]⟩))) := by
  have copied : (trail 2 .undefined).grammar.Copied 2 4
      (trail 2 (.defined ⟨2, .choice 3 [1]⟩)).grammar := .defined (by decide) rfl
  have rewired : (trail 2 (.defined ⟨2, .choice 3 [1]⟩)).grammar.Rewired (Grammar.Redirects 2 4)
      (trail 4 (.defined ⟨2, .choice 3 [1]⟩)).grammar := by
    have kept {h : HandleId} (other : h ≠ 4) : Grammar.Redirects 2 4 h h := ⟨other, .inl rfl⟩
    intro h
    rcases h with _ | _ | _ | _ | _ | h
    · exact .defined rfl rfl (.literal _)
    · exact .defined rfl rfl .eof
    · exact .defined rfl rfl (.choice (.cons (kept (by decide)) (.cons (kept (by decide)) .nil)))
    · exact .defined rfl rfl (.sequence (.cons ⟨kept (by decide), rfl⟩
        (.cons ⟨⟨by decide, .inr ⟨rfl, rfl⟩⟩, rfl⟩ .nil)))
    · exact .defined rfl rfl (.choice (.cons (kept (by decide)) (.cons (kept (by decide)) .nil)))
    · rw [Grammar.get_of_size_le (by simp [trail, Grammar.size]),
        Grammar.get_of_size_le (by simp [trail, Grammar.size])]
      exact .undefined rfl rfl rfl
  obtain ⟨_, _, copies⟩ := sharing_invisible usual shallow (.start #['a'])
    (s := trail 2 .undefined) (t := trail 4 (.defined ⟨2, .choice 3 [1]⟩)) rfl
  have mirrored := copies 2 4 _ copied rewired (fun h body _ => trail_aloof 2 h body trivial) 2 4
    ⟨by decide, .inr ⟨rfl, rfl⟩⟩
  have straight : (trailRun 2 (trail 2 .undefined)).1 =
      .done (.success (.list [.text "a", .null]) ⟨#['a'], 1, by decide⟩) := by cbv
  exact ⟨copied, mirrored.ending.trans straight, mirrored⟩

end Meaning

end Peg
