import Peg.Proofs.Lifecycle.Changes
import Peg.Proofs.Teardown.Reachable
import Peg.Session.Recipe

namespace Peg

namespace Handle

variable {handle : Handle} {body : Body}

theorem isDefined_iff : handle.isDefined = true ↔ ∃ body, handle.status = .defined body := by
  rcases handle with ⟨_, _ | _ | _⟩ <;> simp [isDefined, body?]

theorem isDefined_of_child {k : HandleId} (mem : k ∈ handle.children) :
    handle.isDefined = true := by
  unfold children at mem
  unfold isDefined
  rcases body : handle.body? with _ | found
  · simp [body] at mem
  · rfl

end Handle

namespace Grammar

variable {g g' : Grammar}

theorem closed_add {handle : Handle} (closed : g.Closed)
    (below : ∀ k ∈ handle.children, k < g.size + 1) : (g.add handle).Closed := by
  intro j k mem
  rw [size_add]
  by_cases new : j = g.size
  · subst new
    rw [get_add_self] at mem
    exact below k mem
  · rw [get_add_other _ new] at mem
    exact Nat.lt_succ_of_lt (closed j k mem)

theorem closed_set {h : HandleId} {handle : Handle} (closed : g.Closed)
    (below : ∀ k ∈ handle.children, k < g.size) : (g.set h handle).Closed := by
  intro j k mem
  rw [size_set]
  by_cases same : j = h
  · subst same
    obtain lt | ge := Nat.lt_or_ge j g.size
    · rw [get_set_self _ lt] at mem
      exact below k mem
    · rw [get_of_size_le (by rwa [size_set])] at mem
      cases mem
  · rw [get_set_other _ same] at mem
    exact closed j k mem

theorem closed_tear (closed : g.Closed) (h : HandleId) : (g.tear h).Closed :=
  closed_set closed fun _ mem => nomatch mem

theorem closed_rename (closed : g.Closed) (h : HandleId) (name : String) :
    (g.rename h name).Closed := closed_set closed (closed h)

theorem closed_define {h other : HandleId} (closed : g.Closed) (done : g.define h other = .ok g') :
    g'.Closed := by
  obtain ⟨_, _, body, there, rfl⟩ := define_eq_ok_iff.mp done
  refine closed_set closed fun k mem => closed other k ?_
  rw [Handle.children_of_defined rfl] at mem
  rwa [Handle.children_of_defined there]

end Grammar

/-- A store in which all that refers to a handle refers to one there is. -/
structure Store.Sound (s : Store) : Prop where
  closed : s.grammar.Closed
  registers : ∀ entry ∈ s.registers, entry.2 < s.grammar.size

namespace Store

/-- What can become of a sound store: it stays sound, and its grammar changes step by step. -/
def Becomes (s s' : Store) : Prop :=
  s.Sound → s'.Sound ∧ ∃ changes, s.grammar.Evolves changes s'.grammar

theorem Sound.evolved {s : Store} {g : Grammar} {changes : List Grammar.Change} (sound : s.Sound)
    (evolves : s.grammar.Evolves changes g) (closed : g.Closed) :
    Sound { s with grammar := g } where
  closed := closed
  registers entry mem := Nat.lt_of_lt_of_le (sound.registers entry mem) evolves.size_le

theorem becoming : Passage Becomes where
  same := by
    rintro ⟨g, registers, _, _⟩ ⟨_, _, _, _⟩ rfl rfl sound
    exact ⟨⟨sound.closed, sound.registers⟩, [], .nil⟩
  trans := by
    intro s s' s'' first second sound
    obtain ⟨sound', changes, evolves⟩ := first sound
    obtain ⟨sound'', changes', evolves'⟩ := second sound'
    exact ⟨sound'', changes ++ changes', evolves.append evolves'⟩
  tear s h sound := by
    have evolves : s.grammar.Evolves [.torn h] (s.grammar.tear h) := .torn .nil
    exact ⟨sound.evolved evolves (Grammar.closed_tear sound.closed h), _, evolves⟩
  define := by
    intro s g h other done sound
    have evolves : s.grammar.Evolves [.defined h other] g := .defined done .nil
    exact ⟨sound.evolved evolves (Grammar.closed_define sound.closed done), _, evolves⟩

end Store

def Action.Changes {α : Type} (p : Action α) : Prop := p.Moves Store.Becomes

/-- When a state is sound, and how many handles there are. -/
structure Gauge (σ : Type) where
  sound : σ → Prop
  size : σ → Nat

/-- From a sound state of so many handles a computation leads to a sound state, which has no fewer.
What it yields is as `post` says where there are as many handles as there are by then. -/
def Proc.Makes {σ α : Type} (gauge : Gauge σ) (n : Nat) (post : Nat → α → Prop) (p : Proc σ α) :
    Prop :=
  ∀ s, gauge.sound s → n ≤ gauge.size s →
    gauge.sound (p s).2 ∧ gauge.size s ≤ gauge.size (p s).2 ∧
      ∀ a, (p s).1 = .done a → post (gauge.size (p s).2) a

namespace Proc.Makes

variable {σ α β : Type} {gauge : Gauge σ} {n : Nat} {P : Nat → α → Prop} {Q : Nat → β → Prop}

theorem of_same {p : Proc σ α} (same : ∀ s, (p s).2 = s)
    (yields : ∀ s, gauge.sound s → n ≤ gauge.size s →
      ∀ a, (p s).1 = .done a → P (gauge.size s) a) : p.Makes gauge n P := by
  intro s sound le
  rw [same]
  exact ⟨sound, Nat.le_refl _, yields s sound le⟩

theorem done {a : α} (yields : ∀ m, n ≤ m → P m a) : (Proc.done a).Makes gauge n P := by
  refine of_same (fun _ => rfl) fun s _ le b eq => ?_
  cases eq
  exact yields _ le

theorem raise (fault : Fault) : (Proc.raise fault).Makes gauge n P :=
  of_same (fun _ => rfl) fun _ _ _ _ eq => nomatch eq

theorem bind {p : Proc σ α} {f : α → Proc σ β} (hp : p.Makes gauge n P)
    (hf : ∀ m, n ≤ m → ∀ a, P m a → (f a).Makes gauge m Q) : (p >>= f).Makes gauge n Q := by
  intro s sound le
  obtain ⟨sound₁, le₁, yields⟩ := hp s sound le
  rw [Proc.bind_eq]
  rcases ran : p s with ⟨a | fault | message, s₁⟩ <;> rw [ran] at sound₁ le₁ yields
  · rw [Proc.andThen_done ran]
    obtain ⟨sound₂, le₂, yields₂⟩ :=
      hf _ (Nat.le_trans le le₁) a (yields a rfl) s₁ sound₁ (Nat.le_refl _)
    exact ⟨sound₂, Nat.le_trans le₁ le₂, yields₂⟩
  · rw [Proc.andThen_raised ran]
    exact ⟨sound₁, le₁, nofun⟩
  · rw [Proc.andThen_aborted ran]
    exact ⟨sound₁, le₁, nofun⟩

theorem mapM {f : α → Proc σ β} (mono : ∀ {m m' b}, m ≤ m' → Q m b → Q m' b)
    (hf : ∀ m, n ≤ m → ∀ a, (f a).Makes gauge m Q) (as : List α) :
    (as.mapM f).Makes gauge n fun m bs => ∀ b ∈ bs, Q m b := by
  induction as generalizing n with
  | nil => exact done fun _ _ _ mem => nomatch mem
  | cons a as ih =>
    rw [List.mapM_cons]
    refine bind (hf n (Nat.le_refl n) a) fun m le b hb => ?_
    refine bind (ih fun m' le' => hf m' (Nat.le_trans le le')) fun m' le' bs hbs => ?_
    refine done fun m'' le'' b' mem => ?_
    rcases List.mem_cons.mp mem with rfl | mem
    · exact mono (Nat.le_trans le' le'') hb
    · exact mono le'' (hbs b' mem)

theorem next {p : Proc σ α} {f : α → Proc σ β} (hp : p.Makes gauge n P)
    (hf : ∀ a, (f a).Makes gauge n Q) : (p >>= f).Makes gauge n Q :=
  bind hp fun _ le a _ s sound le' => hf a s sound (Nat.le_trans le le')

end Proc.Makes

def Build.Checks {α : Type} (post : α → Prop) (e : Except Fault α) : Prop :=
  ∀ a, e = .ok a → post a

namespace Build.Checks

variable {α β : Type} {P : α → Prop} {Q : β → Prop}

theorem ok {a : α} (yields : P a) : Checks P (.ok a) := by
  intro b eq
  cases eq
  exact yields

theorem error (fault : Fault) : Checks P (.error fault) := fun _ eq => nomatch eq

theorem bind {e : Except Fault α} {f : α → Except Fault β} (he : Checks P e)
    (hf : ∀ a, P a → Checks Q (f a)) : Checks Q (e >>= f) := by
  cases e with
  | ok a => exact hf a (he a rfl)
  | error fault => exact error fault

theorem mapM {f : α → Except Fault β} {as : List α} (hf : ∀ a ∈ as, Checks Q (f a)) :
    Checks (fun bs => ∀ b ∈ bs, Q b) (as.mapM f) := by
  induction as with
  | nil => exact ok fun _ mem => nomatch mem
  | cons a as ih =>
    rw [List.mapM_cons]
    refine bind (hf a (List.mem_cons_self ..)) fun b hb => ?_
    refine bind (ih fun a' mem => hf a' (List.mem_cons_of_mem _ mem)) fun bs hbs => ?_
    refine ok fun b' mem => ?_
    rcases List.mem_cons.mp mem with rfl | mem
    · exact hb
    · exact hbs b' mem

end Build.Checks

def Operand.Within (n : Nat) : Operand → Prop
  | .parser h => h < n
  | .other _ => True

def Part.Within (n : Nat) : Part → Prop
  | .pair item _ => item.Within n
  | .malformed => True

theorem Operand.within_handle {n : Nat} {h : HandleId} (lt : h < n) : (parser h).Within n := lt

theorem Operand.Within.mono {m n : Nat} {operand : Operand} (within : operand.Within m)
    (le : m ≤ n) : operand.Within n := by
  cases operand with
  | parser h => exact Nat.lt_of_lt_of_le within le
  | other got => trivial

theorem Part.Within.mono {m n : Nat} {part : Part} (within : part.Within m) (le : m ≤ n) :
    part.Within n := by
  cases part with
  | pair item release => exact Operand.Within.mono within le
  | malformed => trivial

theorem mem_of_lookup {α β : Type} [BEq α] [LawfulBEq α] {l : List (α × β)} {key : α} {b : β}
    (found : l.lookup key = some b) : (key, b) ∈ l := by
  obtain ⟨before, after, rfl, _⟩ := List.lookup_eq_some_iff.mp found
  simp

def World.gauge : Gauge World := ⟨fun w => w.store.Sound, fun w => w.store.grammar.size⟩

def Anything {α : Type} (_ : Nat) (_ : α) : Prop := True

abbrev Proc.MakesHandle {σ : Type} (gauge : Gauge σ) (n : Nat) (p : Proc σ HandleId) : Prop :=
  p.Makes gauge n fun m h => h < m

theorem Proc.Makes.ofExcept {σ α : Type} {gauge : Gauge σ} {n : Nat} (e : Except Fault α) :
    (Proc.ofExcept e : Proc σ α).Makes gauge n Anything := by
  cases e with
  | ok a => exact done fun _ _ => trivial
  | error fault => exact raise fault

theorem Proc.Makes.each {σ α : Type} {gauge : Gauge σ} {n : Nat} {f : α → Proc σ HandleId}
    (hf : ∀ m, n ≤ m → ∀ a, (f a).MakesHandle gauge m) (as : List α) :
    (as.mapM f).Makes gauge n fun m hs => ∀ h ∈ hs, h < m :=
  Makes.mapM (Q := fun m h => h < m) (fun le lt => Nat.lt_of_lt_of_le lt le) hf as

namespace Action

variable {α : Type} {n : Nat}

theorem Changes.makes {p : Action α} (changes : p.Changes) : p.Makes World.gauge n Anything := by
  intro w sound _
  obtain ⟨sound', _, evolves⟩ := changes w sound
  exact ⟨sound', evolves.size_le, fun _ _ => trivial⟩

theorem register_makes (id : String) : (Action.register id).MakesHandle World.gauge n := by
  refine .of_same (fun w => ?_) fun w sound _ h eq => ?_
  · unfold Action.register
    split <;> rfl
  · unfold Action.register at eq
    split at eq
    · next h' found =>
      cases eq
      exact sound.registers _ (mem_of_lookup found)
    · cases eq

theorem add_makes {handle : Handle} (below : ∀ k ∈ handle.children, k < n) :
    (Action.add handle).MakesHandle World.gauge n := by
  intro w sound le
  have lt : w.store.grammar.size < (w.store.grammar.add handle).size := by
    rw [Grammar.size_add]
    exact Nat.lt_succ_self _
  refine ⟨⟨Grammar.closed_add sound.closed fun k mem => ?_, fun entry mem => ?_⟩, Nat.le_of_lt lt,
    fun h eq => ?_⟩
  · exact Nat.lt_succ_of_lt (Nat.lt_of_lt_of_le (below k mem) le)
  · exact Nat.lt_trans (sound.registers entry mem) lt
  · cases eq
    exact lt

theorem make_makes {node : Node} (below : ∀ k ∈ node.children, k < n) :
    (Action.make node).MakesHandle World.gauge n := by
  intro w
  have added : (Action.add { status := .defined ⟨w.store.grammar.size, node⟩ }).MakesHandle
      World.gauge n := add_makes below
  exact added w

end Action

theorem Operand.handle_makes {n : Nat} {operand : Operand} (within : operand.Within n) :
    operand.handle.MakesHandle World.gauge n := by
  cases operand with
  | parser h => exact .done fun _ le => Nat.lt_of_lt_of_le within le
  | other got => exact .raise _

namespace Build

def Fits (n : Nat) (node : Node) : Prop := ∀ k ∈ node.children, k < n

/-- A gauge under which one may build: it lets pass that a placeholder is made that has a name, and
a node over handles there are. -/
class Suits (gauge : Gauge World) : Prop where
  placeholder {name : String} (n : Nat) : name ≠ "" →
    (Action.add { name := name }).MakesHandle gauge n
  node {node : Node} {n : Nat} : Fits n node → (Action.make node).MakesHandle gauge n

instance : Suits World.gauge where
  placeholder _ _ := Action.add_makes fun _ mem => nomatch mem
  node := Action.make_makes

variable {gauge : Gauge World} [Suits gauge] {n : Nat}

theorem made_makes {node : Except Fault Node} (fits : Checks (Fits n) node) :
    (made node).MakesHandle gauge n := by
  cases node with
  | ok node => exact Suits.node (fits node rfl)
  | error fault => exact .raise fault

theorem checks_operand (site : Combinator) {operand : Operand} (within : operand.Within n) :
    Checks (fun h => h < n) (checkParser site operand) := by
  cases operand with
  | parser h => exact .ok within
  | other got => exact .error _

theorem checks_fold (site : Combinator) (f : Fold) : Checks (fun _ => True) (checkFold site f) :=
  fun _ _ => trivial

theorem checks_release (site : Combinator) (r : Option Release) :
    Checks (fun _ => True) (checkRelease site r) := fun _ _ => trivial

theorem checks_part {part : Part} (within : part.Within n) :
    Checks (fun item => item.1 < n) (checkPart part) := by
  cases part with
  | pair item r =>
    refine .bind (checks_operand _ within) fun h lt => ?_
    exact .bind (checks_release _ _) fun _ _ => .ok lt
  | malformed => exact .error _

theorem string_makes (text : String ⊕ Shape) : (string text).MakesHandle gauge n := by
  cases text with
  | inl text => exact Suits.node fun _ mem => nomatch mem
  | inr got => exact .raise _

theorem placeholder_makes (name : String) : (placeholder name).MakesHandle gauge n := by
  unfold placeholder
  split
  · exact .raise _
  · next named => exact Suits.placeholder n named

theorem choice_makes {ps : List Operand} (within : ∀ p ∈ ps, p.Within n) :
    (choice ps).MakesHandle gauge n := by
  refine made_makes (.bind (.mapM fun p mem => checks_operand _ (within p mem)) fun hs below => ?_)
  cases hs with
  | nil => exact .error _
  | cons h hs => exact .ok below

theorem alternative_makes {h : HandleId} {q : Operand} (lt : h < n) (within : q.Within n) :
    (alternative h q).MakesHandle gauge n := by
  refine made_makes (.bind (checks_operand _ within) fun k lt' => .ok fun j mem => ?_)
  rcases List.mem_pair.mp mem with rfl | rfl
  · exact lt
  · exact lt'

theorem sequence_makes {f : Fold} {parts : List Part} (within : ∀ part ∈ parts, part.Within n) :
    (sequence f parts).MakesHandle gauge n := by
  refine made_makes (.bind (checks_fold _ _) fun _ _ => ?_)
  split
  · exact .error _
  · refine .bind (.mapM fun part mem => checks_part (within part mem)) fun items below => .ok ?_
    intro k mem
    obtain ⟨item, mem', rfl⟩ := List.mem_map.mp mem
    exact below item mem'

theorem repeated_makes (site : Combinator) (f : Fold) {p : Operand} (within : p.Within n)
    (least : Int) (most : Option Int) (r : Option Release) :
    (repeated site f p least most r).MakesHandle gauge n := by
  refine made_makes (.bind (checks_fold _ _) fun _ _ => ?_)
  refine .bind (checks_operand _ within) fun h lt => .bind (checks_release _ _) fun _ _ => .ok ?_
  exact List.forall_mem_singleton.mpr lt

theorem count_makes (k : Int) (f : Fold) {p : Operand} (within : p.Within n) (r : Option Release) :
    (count k f p r).MakesHandle gauge n := by
  unfold count
  split
  · exact .raise _
  · exact repeated_makes _ f within _ _ r

theorem maybe_makes {p : Operand} (within : p.Within n) (default : Value) :
    (maybe p default).MakesHandle gauge n := by
  refine .bind (Suits.node fun _ mem => nomatch mem) fun m le h lt => choice_makes ?_
  intro q mem
  rcases List.mem_pair.mp mem with rfl | rfl
  · exact within.mono le
  · exact lt

theorem apply_makes {p : Operand} (within : p.Within n) (f : Func) :
    (apply p f).MakesHandle gauge n := by
  refine made_makes (.bind (checks_operand _ within) fun h lt => ?_)
  split
  · exact .ok (List.forall_mem_singleton.mpr lt)
  · exact .error _

theorem map_makes {h : HandleId} (lt : h < n) (f : Func) :
    (map h f).MakesHandle gauge n :=
  Suits.node (List.forall_mem_singleton.mpr lt)

theorem expect_makes {p : Operand} (within : p.Within n) (label : String) :
    (expect p label).MakesHandle gauge n :=
  made_makes (.bind (checks_operand _ within) fun _ lt => .ok (List.forall_mem_singleton.mpr lt))

end Build

end Peg
