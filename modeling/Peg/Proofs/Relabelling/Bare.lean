import Peg.Proofs.Run.Simulation

namespace Peg

/-- A node whose label or message is blank. -/
def Node.bare : Node → Node
  | .fail _ => .fail ""
  | .expect item _ => .expect item ""
  | n => n

def Body.bare (body : Body) : Body := { body with node := body.node.bare }

def Status.bare : Status → Status
  | .defined body => .defined body.bare
  | status => status

def Handle.bare (handle : Handle) : Handle := { handle with status := handle.status.bare }

def Grammar.bare (g : Grammar) : Grammar := ⟨g.handles.map Handle.bare⟩

def Store.bare (s : Store) : Store := { s with grammar := s.grammar.bare }

def Result.bare : Result → Result
  | .success v next => .success v next
  | .failure f => .failure ⟨.empty, f.position⟩

def Record.bare : Record → Record
  | .running handle length => .running handle.bare length
  | .matchedUpTo handle pos => .matchedUpTo handle.bare pos
  | .failedAtPosition handle pos => .failedAtPosition handle.bare pos
  | .trying handle pos => .trying handle.bare pos
  | .matched handle first last => .matched handle.bare first last
  | .failed handle pos => .failed handle.bare pos
  | record => record

def Event.bare : Event → Event
  | .logged record => .logged record.bare
  | e => e

def World.bare (w : World) : World := ⟨w.store.bare, w.events.map Event.bare⟩

def Entry.bare : Entry → Entry
  | .entered h node pos depth => .entered h node.bare pos depth
  | .left h ending depth => .left h (ending.map Result.bare) depth
  | .released r v ending events depth => .released r v ending (events.map Event.bare) depth
  | .folded f vs ending events depth => .folded f vs ending (events.map Event.bare) depth
  | .applied f v ending events depth => .applied f v ending (events.map Event.bare) depth
  | .logged record => .logged record.bare
  | e => e

def Run.bare (s : Run) : Run := ⟨s.store.bare, s.guard, s.journal.map Entry.bare⟩

namespace Node

variable {n n' : Node}

@[simp] theorem children_bare (n : Node) : n.bare.children = n.children := by cases n <;> rfl

@[simp] theorem kind_bare (n : Node) : n.bare.kind = n.kind := by cases n <;> rfl

theorem alike_iff_bare : n.Alike Eq (fun _ _ => True) n' ↔ n'.bare = n.bare := by
  constructor
  · intro alike
    cases alike with
    | literal | pure | eof | fail => rfl
    | choice children =>
      rw [List.forall₂_eq_eq_eq] at children
      cases children
      rfl
    | sequence items =>
      simp only [← Prod.ext_iff] at items
      rw [List.forall₂_eq_eq_eq] at items
      rw [items]
    | repetition child | apply child | expect child =>
      cases child
      rfl
  · intro same
    have refl : ∀ n : Node, n.Alike Eq (fun _ _ => True) n := fun n =>
      alike_refl (fun _ _ => rfl) fun _ => trivial
    cases n with
    | fail => cases n' <;> cases same; exact .fail trivial
    | expect => cases n' <;> cases same; exact .expect rfl trivial
    | _ => cases n' <;> cases same; exact refl _

end Node

namespace Handle

variable (handle : Handle)

@[simp] theorem name_bare : handle.bare.name = handle.name := rfl

theorem status_bare : handle.bare.status = handle.status.bare := rfl

@[simp] theorem isDeleted_bare : handle.bare.isDeleted = handle.isDeleted := by
  rcases handle with ⟨_, _ | _ | _⟩ <;> rfl

@[simp] theorem body?_bare : handle.bare.body? = handle.body?.map Body.bare := by
  rcases handle with ⟨_, _ | _ | _⟩ <;> rfl

@[simp] theorem children_bare : handle.bare.children = handle.children := by
  rcases handle with ⟨_, _ | body | _⟩
  · rfl
  · exact body.node.children_bare
  · rfl

@[simp] theorem shown_bare : handle.bare.shown = handle.shown := by
  rcases handle with ⟨name, _ | body | _⟩
  · rfl
  · simp only [shown, bare, Status.bare, Body.bare, Node.kind_bare]
  · rfl

@[simp] theorem calling_bare : handle.bare.calling = handle.calling := by
  simp only [calling, name_bare, shown_bare]

@[simp] theorem fault?_bare : handle.bare.fault? = handle.fault? := by
  rcases status : handle.status with _ | body | _
  · simp [fault?, status_bare, status, Status.bare]
  · simp [fault?, status_bare, status, Status.bare]
  · simp [fault?, status_bare, status, Status.bare]

end Handle

namespace Grammar

variable (g : Grammar) {h k : HandleId}

@[simp] theorem get_bare (h : HandleId) : g.bare.get h = (g.get h).bare := by
  simp only [get, bare, Array.getElem?_map]
  cases g.handles[h]? <;> rfl

theorem set_bare (h : HandleId) (handle : Handle) :
    g.bare.set h handle.bare = (g.set h handle).bare := by
  simp only [set, bare, Array.map_setIfInBounds]

@[simp] theorem tear_bare (h : HandleId) : g.bare.tear h = (g.tear h).bare := by
  rw [tear, tear, ← set_bare, get_bare]
  rfl

@[simp] theorem references_bare : g.bare.references = g.references := by
  simp only [references, bare, Array.toList_map, List.flatMap_map, Handle.children_bare]

theorem define_bare (h other : HandleId) :
    g.bare.define h other = (g.define h other).map Grammar.bare := by
  simp only [define, get_bare, Handle.name_bare, Handle.calling_bare, Handle.status_bare]
  rcases (g.get h).status with _ | body | _
  · by_cases itself : other = h
    · simp only [Status.bare, if_pos itself, Except.map]
    · simp only [Status.bare, if_neg itself]
      rcases (g.get other).status with _ | body | _
      · rfl
      · exact congrArg Except.ok (g.set_bare h { g.get h with status := .defined body })
      · rfl
  · rfl
  · rfl

end Grammar

end Peg
