import Peg.Fault

/-!
Computations on a state that may end early. An ordinary fault can be met by a handler on its way
out; an abort passes every handler by. However a computation ends, the state it leaves is kept.
-/

namespace Peg

inductive Ending (α : Type) where
  | done (value : α)
  | raised (fault : Fault)
  | aborted (message : String)
deriving Inhabited

def Ending.map {α β : Type} (f : α → β) : Ending α → Ending β
  | .done a => .done (f a)
  | .raised fault => .raised fault
  | .aborted message => .aborted message

/-- A computation on a state `σ` that yields an `α` unless it ends early. -/
def Proc (σ α : Type) : Type := σ → Ending α × σ

namespace Proc

variable {σ τ α β : Type}

def done (a : α) : Proc σ α := fun s => (.done a, s)

def andThen (p : Proc σ α) (f : α → Proc σ β) : Proc σ β := fun s =>
  match p s with
  | (.done a, s) => f a s
  | (.raised fault, s) => (.raised fault, s)
  | (.aborted message, s) => (.aborted message, s)

instance : Monad (Proc σ) where
  pure := done
  bind := andThen

theorem pure_eq (a : α) : (pure a : Proc σ α) = done a := rfl

theorem bind_eq (p : Proc σ α) (f : α → Proc σ β) : p >>= f = andThen p f := rfl

theorem andThen_done {p : Proc σ α} {f : α → Proc σ β} {s s' : σ} {a : α}
    (h : p s = (.done a, s')) : andThen p f s = f a s' := by simp [andThen, h]

theorem andThen_raised {p : Proc σ α} {f : α → Proc σ β} {s s' : σ} {fault : Fault}
    (h : p s = (.raised fault, s')) : andThen p f s = (.raised fault, s') := by simp [andThen, h]

theorem andThen_aborted {p : Proc σ α} {f : α → Proc σ β} {s s' : σ} {message : String}
    (h : p s = (.aborted message, s')) : andThen p f s = (.aborted message, s') := by
  simp [andThen, h]

theorem andThen_done_eq (p : Proc σ α) : andThen p done = p := by
  funext s
  unfold andThen
  rcases h : p s with ⟨_ | _ | _, s'⟩ <;> rfl

theorem andThen_assoc {γ : Type} (p : Proc σ α) (f : α → Proc σ β) (g : β → Proc σ γ) :
    andThen (andThen p f) g = andThen p fun a => andThen (f a) g := by
  funext s
  unfold andThen
  rcases h : p s with ⟨_ | _ | _, s'⟩ <;> rfl

instance : LawfulMonad (Proc σ) :=
  LawfulMonad.mk' (Proc σ) (fun p => andThen_done_eq p) (fun _ _ => rfl) andThen_assoc

def raise (fault : Fault) : Proc σ α := fun s => (.raised fault, s)
def abort (message : String) : Proc σ α := fun s => (.aborted message, s)

def modify (f : σ → σ) : Proc σ Unit := fun s => (.done (), f s)

def ofExcept : Except Fault α → Proc σ α
  | .ok a => done a
  | .error fault => raise fault

/-- Runs `handler` when an ordinary fault leaves `p`, and lets the fault go on. A fault or an abort
of the handler takes its place. -/
def onFault (p : Proc σ α) (handler : Proc σ Unit) : Proc σ α := fun s =>
  match p s with
  | (.raised fault, s) => andThen handler (fun _ => raise fault) s
  | other => other

/-- A change of the state that can be made before a computation as well as after it. -/
def Commutes (f : σ → σ) (p : Proc σ α) : Prop := ∀ s, p (f s) = ((p s).1, f (p s).2)

theorem commutes_done {f : σ → σ} (a : α) : Commutes f (done a) := fun _ => rfl

theorem commutes_raise {f : σ → σ} (fault : Fault) : Commutes (α := α) f (raise fault) :=
  fun _ => rfl

theorem Commutes.andThen {f : σ → σ} {p : Proc σ α} {q : α → Proc σ β} (hp : p.Commutes f)
    (hq : ∀ a, (q a).Commutes f) : (Proc.andThen p q).Commutes f := by
  intro s
  unfold Proc.andThen
  rw [hp s]
  rcases p s with ⟨a | _ | _, s'⟩
  · exact hq a s'
  · rfl
  · rfl

def onPart (part : τ → σ) (withPart : σ → τ → τ) (p : Proc σ α) : Proc τ α := fun t =>
  match p (part t) with
  | (ending, s) => (ending, withPart s t)

end Proc

end Peg
