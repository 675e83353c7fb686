import Peg.Proofs.Run.Edits

namespace Peg

theorem Handle.body?_of_isDeleted {handle : Handle} (deleted : handle.isDeleted = true) :
    handle.body? = none := by
  unfold isDeleted at deleted
  unfold body?
  cases status : handle.status with
  | defined body => simp [status] at deleted
  | _ => rfl

namespace Grammar

inductive Change where
  | made (handle : Handle)
  | defined (h other : HandleId)
  | torn (h : HandleId)
  | renamed (h : HandleId) (name : String)

def Fresh (g : Grammar) (handle : Handle) : Prop :=
  handle.status = .undefined ∨ ∃ node, handle.status = .defined ⟨g.size, node⟩

/-- A grammar after changes, one after another. -/
inductive Evolves : Grammar → List Change → Grammar → Prop where
  | nil {g : Grammar} : Evolves g [] g
  | made {g g' : Grammar} {handle : Handle} {changes : List Change} : g.Fresh handle →
      Evolves (g.add handle) changes g' → Evolves g (.made handle :: changes) g'
  | defined {g g₁ g' : Grammar} {h other : HandleId} {changes : List Change} :
      g.define h other = .ok g₁ → Evolves g₁ changes g' →
      Evolves g (.defined h other :: changes) g'
  | torn {g g' : Grammar} {h : HandleId} {changes : List Change} :
      Evolves (g.tear h) changes g' → Evolves g (.torn h :: changes) g'
  | renamed {g g' : Grammar} {h : HandleId} {name : String} {changes : List Change} :
      Evolves (g.rename h name) changes g' → Evolves g (.renamed h name :: changes) g'

variable {g g' g'' : Grammar} {changes : List Change} {h : HandleId}

theorem define_eq_ok_iff {other : HandleId} :
    g.define h other = .ok g' ↔
      (g.get h).status = .undefined ∧ other ≠ h ∧ ∃ body, (g.get other).status = .defined body ∧
        g' = g.set h { g.get h with status := .defined body } := by
  rcases status : (g.get h).status with _ | body | _
  · by_cases itself : other = h
    · simp [define, status, itself]
    · rcases there : (g.get other).status with _ | body | _
      · simp [define, status, itself, there]
      · simp [define, status, itself, there, eq_comm]
      · simp [define, status, itself, there]
  · simp [define, status]
  · simp [define, status]

namespace Evolves

theorem append {changes' : List Change} (first : g.Evolves changes g')
    (second : g'.Evolves changes' g'') : g.Evolves (changes ++ changes') g'' := by
  induction first with
  | nil => exact second
  | made fresh _ ih => exact .made fresh (ih second)
  | defined done _ ih => exact .defined done (ih second)
  | torn _ ih => exact .torn (ih second)
  | renamed _ ih => exact .renamed (ih second)

theorem split {before after : List Change} (evolves : g.Evolves (before ++ after) g') :
    ∃ g₁, g.Evolves before g₁ ∧ g₁.Evolves after g' := by
  induction before generalizing g with
  | nil => exact ⟨g, .nil, evolves⟩
  | cons c before ih =>
    cases evolves with
    | made fresh rest =>
      obtain ⟨g₁, first, second⟩ := ih rest
      exact ⟨g₁, .made fresh first, second⟩
    | defined done rest =>
      obtain ⟨g₁, first, second⟩ := ih rest
      exact ⟨g₁, .defined done first, second⟩
    | torn rest =>
      obtain ⟨g₁, first, second⟩ := ih rest
      exact ⟨g₁, .torn first, second⟩
    | renamed rest =>
      obtain ⟨g₁, first, second⟩ := ih rest
      exact ⟨g₁, .renamed first, second⟩

theorem size_le (evolves : g.Evolves changes g') : g.size ≤ g'.size := by
  induction evolves with
  | nil => exact Nat.le_refl _
  | made _ _ ih =>
    rw [size_add] at ih
    exact Nat.le_of_succ_le ih
  | defined done _ ih =>
    obtain ⟨_, _, _, _, rfl⟩ := define_eq_ok_iff.mp done
    rwa [size_set] at ih
  | torn _ ih => rwa [tear, size_set] at ih
  | renamed _ ih => rwa [rename, size_set] at ih

end Evolves

def Change.nameFor (h : HandleId) : Change → Option String
  | .renamed k name => if k = h then some name else none
  | _ => none

/-- What becomes of a handle from one moment to another. -/
structure Lives (g : Grammar) (changes : List Change) (g' : Grammar) (h : HandleId) : Prop where
  stays_deleted : (g.get h).status = .deleted → (g'.get h).status = .deleted
  keeps_node : ∀ body, (g.get h).status = .defined body →
    (g'.get h).status = .defined body ∨ (g'.get h).status = .deleted
  /-- The node it has got is that of a handle it was defined from, while it was undefined. -/
  gets_node : ∀ body, (g.get h).status = .undefined → (g'.get h).status = .defined body →
    ∃ before other after g₁ g₂, changes = before ++ .defined h other :: after ∧
      g.Evolves before g₁ ∧ (g₁.get h).status = .undefined ∧
      (g₁.get other).status = .defined body ∧ g₁.define h other = .ok g₂ ∧ g₂.Evolves after g'
  /-- Its name is the last one it was given, if any. -/
  named : (g'.get h).name =
    ((changes.filterMap (Change.nameFor h)).getLast?).getD (g.get h).name

namespace Lives

theorem aside {c : Change} {g₁ : Grammar} (same : g₁.get h = g.get h)
    (unnamed : Change.nameFor h c = none)
    (step : ∀ {before g₂}, g₁.Evolves before g₂ → g.Evolves (c :: before) g₂)
    (lives : g₁.Lives changes g' h) : g.Lives (c :: changes) g' h where
  stays_deleted deleted := lives.stays_deleted (same ▸ deleted)
  keeps_node body status := lives.keeps_node body (same ▸ status)
  gets_node body undefined status := by
    obtain ⟨before, other, after, g₂, g₃, rfl, evolves, rest⟩ :=
      lives.gets_node body (same ▸ undefined) status
    exact ⟨c :: before, other, after, g₂, g₃, rfl, step evolves, rest⟩
  named := by
    rw [lives.named, same, List.filterMap_cons_none unnamed]

theorem defined {other : HandleId} {g₁ : Grammar} (lt : h < g.size)
    (done : g.define h other = .ok g₁) (evolves : g₁.Evolves changes g')
    (lives : g₁.Lives changes g' h) : g.Lives (.defined h other :: changes) g' h := by
  obtain ⟨status, _, body, there, made⟩ := define_eq_ok_iff.mp done
  have now : g₁.get h = { g.get h with status := .defined body } := by
    rw [made, get_set_self _ lt]
  refine ⟨fun deleted => ?_, fun body' status' => ?_, fun body' _ status' => ?_, ?_⟩
  · simp [status] at deleted
  · simp [status] at status'
  · have same : body = body' := by
      rcases lives.keeps_node body (by rw [now]) with kept | gone
      · simpa [status'] using kept.symm
      · simp [status'] at gone
    exact ⟨[], other, changes, g, g₁, rfl, .nil, status, same ▸ there, done, evolves⟩
  · rw [lives.named, now]
    rfl

theorem torn (lt : h < g.size) (lives : (g.tear h).Lives changes g' h) :
    g.Lives (.torn h :: changes) g' h := by
  have now : (g.tear h).get h = { g.get h with status := .deleted } := get_set_self _ lt
  have gone := lives.stays_deleted (by rw [now])
  refine ⟨fun _ => gone, fun _ _ => .inr gone, fun body _ status => ?_, ?_⟩
  · simp [gone] at status
  · rw [lives.named, now]
    rfl

theorem renamed {name : String} (lt : h < g.size) (lives : (g.rename h name).Lives changes g' h) :
    g.Lives (.renamed h name :: changes) g' h := by
  have now : (g.rename h name).get h = { g.get h with name := name } := get_set_self _ lt
  have status : ((g.rename h name).get h).status = (g.get h).status := by rw [now]
  refine ⟨fun deleted => ?_, fun body defined => ?_, fun body undefined defined => ?_, ?_⟩
  · exact lives.stays_deleted (status.trans deleted)
  · exact lives.keeps_node body (status.trans defined)
  · obtain ⟨before, other, after, g₁, g₂, rfl, evolves, rest⟩ :=
      lives.gets_node body (status.trans undefined) defined
    exact ⟨.renamed h name :: before, other, after, g₁, g₂, rfl, .renamed evolves, rest⟩
  · have given : Change.nameFor h (.renamed h name) = some name := by simp [Change.nameFor]
    rw [lives.named, now, List.filterMap_cons_some given, List.getLast?_cons]
    rfl

end Lives

theorem Evolves.lives (evolves : g.Evolves changes g') (lt : h < g.size) :
    g.Lives changes g' h := by
  induction evolves with
  | nil => exact ⟨id, fun _ => .inl, fun _ undefined defined => by simp [undefined] at defined, rfl⟩
  | made fresh _ ih =>
    have lives := ih (by rw [size_add]; exact Nat.lt_succ_of_lt lt)
    exact lives.aside (get_add_other _ (Nat.ne_of_lt lt)) rfl (.made fresh)
  | @defined g g₁ g' k other _ done evolves ih =>
    have lives := ih (by rw [(define_eq_ok_iff.mp done).2.2.choose_spec.2]; simpa using lt)
    by_cases same : h = k
    · subst same
      exact lives.defined lt done evolves
    · refine lives.aside ?_ rfl (.defined done)
      obtain ⟨_, _, _, _, rfl⟩ := define_eq_ok_iff.mp done
      exact get_set_other _ same
  | @torn g g' k _ _ ih =>
    have lives := ih (by simpa [tear] using lt)
    by_cases same : h = k
    · subst same
      exact lives.torn lt
    · exact lives.aside (get_set_other _ same) rfl .torn
  | @renamed g g' k name _ _ ih =>
    have lives := ih (by simpa [rename] using lt)
    by_cases same : h = k
    · subst same
      exact lives.renamed lt
    · exact lives.aside (get_set_other _ same) (by simp [Change.nameFor, Ne.symm same]) .renamed

end Grammar

end Peg
