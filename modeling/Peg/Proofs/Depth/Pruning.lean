import Peg.Callback.Standard
import Peg.Proofs.Run.Simulation

namespace Peg

/-- Some handles were left as they were, or deleted. -/
def Grammar.PrunedTo (at_handle : HandleId → Prop) (g g' : Grammar) : Prop :=
  ∀ h, at_handle h → (g'.get h).status = (g.get h).status ∨ (g'.get h).status = .deleted

namespace Grammar.PrunedTo

variable {at_handle : HandleId → Prop} {g g' g'' : Grammar}

theorem refl (g : Grammar) : g.PrunedTo at_handle g := fun _ _ => .inl rfl

theorem trans (first : g.PrunedTo at_handle g') (second : g'.PrunedTo at_handle g'') :
    g.PrunedTo at_handle g'' := by
  intro h here
  obtain same | gone := second h here
  · rw [same]
    exact first h here
  · exact .inr gone

theorem tear (g : Grammar) (k : HandleId) : g.PrunedTo at_handle (g.tear k) := by
  intro h _
  obtain gone | same := get_tear g k h
  · exact .inr gone
  · exact .inl (same ▸ rfl)

theorem status (pruned : g.PrunedTo at_handle g') {h : HandleId} (here : at_handle h) {body : Body}
    (defined : (g'.get h).status = .defined body) : (g.get h).status = .defined body := by
  obtain same | gone := pruned h here
  · rw [← same, defined]
  · rw [gone] at defined
    cases defined

end Grammar.PrunedTo

def Callback.Prunes (at_handle : HandleId → Prop) {α : Type} (work : Callback α) : Prop :=
  ∀ s : Store, s.grammar.PrunedTo at_handle (work s).store.grammar

def Meaning.pruning (m : Meaning) (at_handle : HandleId → Prop) : Callbacks where
  release r := ∀ v, (m.release r v).Prunes at_handle
  fold f := ∀ vs, (m.fold f vs).Prunes at_handle
  func f := ∀ v, (m.apply f v).Prunes at_handle

def Act.Unbinding : Act → Prop
  | .define _ _ | .parse _ _ => False
  | _ => True

def Func.Unbinding : Func → Prop
  | .acts list => ∀ act ∈ list, act.Unbinding
  | _ => True

def Callbacks.unbinding : Callbacks := ⟨fun _ => True, fun _ => True, Func.Unbinding⟩

def Except.Unlimited {α : Type} (e : Except Fault α) : Prop := ∀ n, e ≠ .error (.depthLimit n)

namespace Except.Unlimited

variable {α β : Type}

theorem ok (a : α) : Unlimited (.ok a) := nofun

theorem bind {e : Except Fault α} {f : α → Except Fault β} (he : Unlimited e)
    (hf : ∀ a, Unlimited (f a)) : Unlimited (e >>= f) := by
  cases e with
  | ok a => exact hf a
  | error fault =>
    intro n eq
    cases eq
    exact he n rfl

theorem join (index : Nat) (vs : List Value) : Unlimited (Standard.join index vs) := by
  induction vs generalizing index with
  | nil => exact ok _
  | cons v vs ih =>
    cases v with
    | text => exact (ih _).bind fun _ => ok _
    | _ => nofun

theorem truncate (n : Number) : Unlimited n.truncate := by
  unfold Number.truncate
  split
  · exact ok _
  · split_ifs
    · nofun
    · exact ok _
    · nofun

theorem toInteger (v : Value) : Unlimited v.toInteger := by
  unfold Value.toInteger
  split
  · split
    · exact ok _
    · nofun
  · split
    · exact truncate _
    · nofun

theorem toBinary64 (n : Number) : Unlimited n.toBinary64 := by
  unfold Number.toBinary64
  split
  · exact ok _
  · split
    · exact ok _
    · nofun

theorem onNumbers (op : Operator) (a b : Number) : Unlimited (op.onNumbers a b) := by
  have combined (exact_ : Int → Int → Int) (rounded : Binary64 → Binary64 → Binary64) :
      Unlimited (Number.combine exact_ rounded a b) := by
    unfold Number.combine
    split
    · exact ok _
    · exact (toBinary64 a).bind fun _ => (toBinary64 b).bind fun _ => ok _
  have divided : Unlimited (Number.div a b) := by
    unfold Number.div
    split
    · split_ifs
      · nofun
      · split
        · exact ok _
        · nofun
    · refine (toBinary64 a).bind fun _ => (toBinary64 b).bind fun _ => ?_
      split_ifs
      · nofun
      · exact ok _
  rcases op with _ | _ | _ | _
  · exact combined _ _
  · exact combined _ _
  · exact combined _ _
  · exact divided

theorem operator (op : Operator) (v w : Value) : Unlimited (op.apply v w) := by
  unfold Operator.apply
  split
  · exact (onNumbers op _ _).bind fun _ => ok _
  · nofun

theorem chain (acc : Value) (steps : List Value) :
    Unlimited (Standard.chain Operator.apply acc steps) := by
  fun_induction Standard.chain Operator.apply acc steps with
  | case1 => exact ok _
  | case2 acc op v rest ih => exact (operator op acc v).bind ih
  | case3 => nofun

end Except.Unlimited

def Action.Unbinding (at_handle : HandleId → Prop) {α : Type} (p : Action α) : Prop :=
  ∀ w : World, w.store.grammar.PrunedTo at_handle (p w).2.store.grammar ∧
    ∀ n, (p w).1 ≠ .raised (.depthLimit n)

namespace Action.Unbinding

variable {at_handle : HandleId → Prop} {α β : Type}

theorem of_same {p : Action α} (same : ∀ w : World, (p w).2.store.grammar = w.store.grammar)
    (unlimited : ∀ w n, (p w).1 ≠ .raised (.depthLimit n)) : p.Unbinding at_handle := by
  refine fun w => ⟨?_, unlimited w⟩
  rw [same]
  exact .refl _

theorem done (a : α) : Unbinding at_handle (Proc.done a) := of_same (fun _ => rfl) nofun

theorem read (f : Store → α) : (Action.read f).Unbinding at_handle :=
  of_same (fun _ => rfl) nofun

theorem note (e : Event) : (Action.note e).Unbinding at_handle := of_same (fun _ => rfl) nofun

theorem makeValue (t : Template) : (Action.makeValue t).Unbinding at_handle :=
  of_same (fun _ => rfl) nofun

theorem makeBox (text : String) : (Action.update (·.makeBox text)).Unbinding at_handle :=
  of_same (fun _ => rfl) nofun

theorem stop (how : Stop) : (Action.stop how).Unbinding at_handle := by
  cases how <;> exact of_same (fun _ => rfl) nofun

theorem register (id : String) : (Action.register id).Unbinding at_handle := by
  intro w
  unfold Action.register
  split <;> exact ⟨.refl _, nofun⟩

theorem ofExcept {e : Except Fault α} (unlimited : Except.Unlimited e) :
    Unbinding at_handle (Proc.ofExcept e) := by
  cases e with
  | ok a => exact done a
  | error fault => exact of_same (fun _ => rfl) fun _ n eq => unlimited n (by cases eq; rfl)

theorem andThen {p : Action α} {f : α → Action β} (hp : p.Unbinding at_handle)
    (hf : ∀ a, (f a).Unbinding at_handle) : Unbinding at_handle (Proc.andThen p f) := by
  intro w
  obtain ⟨pruned, unlimited⟩ := hp w
  rcases ran : p w with ⟨a | fault | message, w₁⟩ <;> rw [ran] at pruned unlimited
  · obtain ⟨pruned', unlimited'⟩ := hf a w₁
    rw [Proc.andThen_done ran]
    exact ⟨pruned.trans pruned', unlimited'⟩
  · rw [Proc.andThen_raised ran]
    exact ⟨pruned, fun n eq => unlimited n (by cases eq; rfl)⟩
  · rw [Proc.andThen_aborted ran]
    exact ⟨pruned, nofun⟩

theorem tearFrom (steps : Nat) (walk : Walk) (count : Nat) :
    (Action.tearFrom (fun _ _ => pure ()) steps walk count).Unbinding at_handle := by
  induction steps generalizing walk count with
  | zero => exact done count
  | succ steps ih =>
    intro w
    simp only [Action.tearFrom]
    split
    · exact ⟨.refl _, nofun⟩
    · next h walk _ =>
      split
      · exact ih walk count w
      · have tear : (Action.tear h).Unbinding at_handle :=
          fun w => ⟨.tear w.store.grammar h, nofun⟩
        exact andThen tear (fun _ => andThen (done ()) fun _ => ih walk (count + 1)) w

theorem deleteInside (h : HandleId) : (Action.deleteInside h).Unbinding at_handle := by
  have deleted : (Action.deleteAll [h]).Unbinding at_handle := by
    rw [Action.deleteAll, Action.tearDown]
    refine andThen (read _) fun steps => ?_
    exact andThen (tearFrom steps _ 0) fun count => andThen (note _) fun _ => done count
  exact andThen deleted fun count => note (.deleted count)

theorem release (r : Release) (v : Value) : (Standard.release r v).Unbinding at_handle := by
  cases r with
  | text => exact done ()
  | parser | notCallable => exact of_same (fun _ => rfl) nofun
  | logged tag stopsAt how =>
    have counted : (Action.update (·.countCall tag)).Unbinding at_handle :=
      of_same (fun _ => rfl) nofun
    refine andThen counted fun n => andThen (note _) fun _ => ?_
    split_ifs
    · exact stop how
    · exact done ()

theorem releaseEach (r : Option Release) (vs : List Value) :
    (Standard.releaseEach r vs).Unbinding at_handle := by
  cases r with
  | none => exact done ()
  | some r =>
    induction vs with
    | nil => exact done ()
    | cons v vs ih => exact andThen (release r v) fun _ => ih

theorem fold (fold : Fold) (vs : List Value) :
    (Standard.fold Operator.apply fold vs).Unbinding at_handle := by
  have unsuited (message : String) :
      Unbinding at_handle (Proc.raise (.unsuited message) : Action Value) :=
    of_same (fun _ => rfl) nofun
  induction fold with
  | concat => exact ofExcept ((Except.Unlimited.join 0 _).bind fun _ => .ok _)
  | numeral =>
    refine ofExcept ((Except.Unlimited.join 0 vs).bind fun s => ?_)
    exact (Except.Unlimited.toInteger (.text s)).bind fun _ => .ok _
  | nothing | list | size => exact done _
  | keep index r => exact andThen (releaseEach r _) fun _ => done _
  | discard r => exact andThen (releaseEach r _) fun _ => done _
  | difference =>
    rcases vs with _ | ⟨v, _ | ⟨w, vs⟩⟩
    · exact unsuited _
    · exact unsuited _
    · exact ofExcept (Except.Unlimited.operator .minus v w)
  | stop how => exact andThen (stop how) fun _ => done _
  | box r => exact andThen (releaseEach r _) fun _ => makeBox _
  | logged tag inner ih => exact andThen (note _) fun _ => ih
  | chain =>
    rcases vs with _ | ⟨v, _ | ⟨w, vs⟩⟩
    · exact unsuited _
    · exact unsuited _
    · cases w with
      | list steps =>
        cases vs with
        | nil => exact ofExcept (Except.Unlimited.chain v steps)
        | cons => exact unsuited _
      | _ => exact unsuited _
  | notCallable => exact of_same (fun _ => rfl) nofun

theorem acts {list : List Act} (unbinding : ∀ act ∈ list, act.Unbinding)
    (nested : HandleId → String → Action Result) (v : Value) :
    (Standard.acts nested v list).Unbinding at_handle := by
  induction list with
  | nil => exact done v
  | cons act list ih =>
    have here := unbinding act (List.mem_cons_self ..)
    have rest := ih fun act mem => unbinding act (List.mem_cons_of_mem _ mem)
    cases act with
    | log tag => exact andThen (note _) fun _ => rest
    | stop how only =>
      refine andThen (read _) fun wanted => ?_
      cases wanted with
      | false => exact rest
      | true => exact andThen (stop how) fun _ => rest
    | const t => exact makeValue t
    | wrap t => exact andThen (makeValue t) fun _ => done _
    | delete id => exact andThen (register id) fun h => andThen (deleteInside h) fun _ => rest
    | define | parse => exact here.elim

theorem apply {func : Func} (unbinding : func.Unbinding)
    (nested : HandleId → String → Action Result) (v : Value) :
    (Standard.apply nested func v).Unbinding at_handle := by
  cases func with
  | box =>
    cases v with
    | text text => exact makeBox text
    | _ => exact of_same (fun _ => rfl) nofun
  | number => exact ofExcept ((Except.Unlimited.toInteger v).bind fun _ => .ok _)
  | length | operator => cases v <;> exact of_same (fun _ => rfl) nofun
  | acts list => exact acts unbinding nested v
  | notCallable => exact of_same (fun _ => rfl) nofun

end Action.Unbinding

structure Callbacks.Within (among others : Callbacks) : Prop where
  release : ∀ {r}, among.release r → others.release r
  fold : ∀ {f}, among.fold f → others.fold f
  func : ∀ {f}, among.func f → others.func f

theorem Callbacks.Within.calls {among others : Callbacks} (within : among.Within others)
    {g : Grammar} {at_handle : HandleId → Prop} (calls : g.Calls among at_handle) :
    g.Calls others at_handle := by
  intro h body here status
  have calls := calls h body here status
  generalize body.node = node at calls ⊢
  cases node with
  | sequence fold items =>
    refine ⟨within.fold calls.1, fun item mem r release => ?_⟩
    exact within.release (calls.2 item mem r release)
  | repetition => exact ⟨within.fold calls.1, fun r release => within.release (calls.2 r release)⟩
  | apply => exact within.func calls
  | literal | pure | fail | eof | choice | expect => trivial

namespace Meaning

theorem standard_eq (compute : Standard.Calculation) (levels : Nat) :
    ∃ nested, standard compute levels = withNested compute nested := by
  cases levels <;> exact ⟨_, rfl⟩

theorem unbinding_within_pruning (levels : Nat) (at_handle : HandleId → Prop) :
    Callbacks.unbinding.Within ((standard Operator.apply levels).pruning at_handle) := by
  obtain ⟨nested, eq⟩ := standard_eq Operator.apply levels
  rw [eq]
  exact ⟨fun _ v s => (Action.Unbinding.release _ v ⟨s, []⟩).1,
    fun _ vs s => (Action.Unbinding.fold _ vs ⟨s, []⟩).1,
    fun unbinding v s => (Action.Unbinding.apply unbinding nested v ⟨s, []⟩).1⟩

end Meaning

end Peg
