import Peg.Callback.Basic
import Peg.Fault
import Peg.Text.Quoted

/-!
Grammars: graphs of handles. A handle is a place that can hold a node, and a node refers to other
handles only, so a handle can be shared by several parents and a placeholder can be filled in later
with a node that leads back to it.
-/

namespace Peg

abbrev HandleId := Nat

inductive Node where
  | literal (text : String)
  | pure (value : Value)
  | fail (message : String)
  | eof
  | choice (first : HandleId) (others : List HandleId)
  /-- All items in order, their values folded into one; each item has a release for its value. -/
  | sequence (fold : Fold) (items : List (HandleId × Option Release))
  /-- One item over and over, at least `least` times and at most `most` times if a bound is given,
  the values folded into one. -/
  | repetition (fold : Fold) (item : HandleId) (least : Int) (most : Option Int)
      (release : Option Release)
  | apply (item : HandleId) (func : Func)
  /-- Replaces what a parser reports as expected, if it failed where it started. -/
  | expect (item : HandleId) (label : String)
deriving Inhabited

namespace Node

def children : Node → List HandleId
  | .literal _ | .pure _ | .fail _ | .eof => []
  | .choice first others => first :: others
  | .sequence _ items => items.map (·.1)
  | .repetition _ item _ _ _ | .apply item _ | .expect item _ => [item]

def kind : Node → String
  | .literal _ => "Literal"
  | .pure _ => "Pure"
  | .fail _ => "Fail"
  | .eof => "Eof"
  | .choice _ _ => "Alternation"
  | .sequence _ _ => "Sequence"
  | .repetition _ _ _ _ _ => "Repetition"
  | .apply _ _ => "Apply"
  | .expect _ _ => "Expect"

end Node

/-- A node together with the handle it was made for. Defining a placeholder shares the body of
another handle, and two handles share a body exactly if it was made for the same handle. -/
structure Body where
  origin : HandleId
  node : Node
deriving Inhabited

inductive Status where
  | undefined
  | defined (body : Body)
  | deleted
deriving Inhabited

structure Handle where
  name : String := ""
  status : Status := .undefined
deriving Inhabited

namespace Handle

def body? (h : Handle) : Option Body :=
  match h.status with
  | .defined body => some body
  | _ => none

def isDefined (h : Handle) : Bool := h.body?.isSome

def isDeleted (h : Handle) : Bool :=
  match h.status with
  | .deleted => true
  | _ => false

def shown (h : Handle) : String :=
  if h.name ≠ "" then "Parser(" ++ Text.quote h.name ++ ")"
  else
    match h.status with
    | .deleted => "Parser(<deleted>)"
    | .undefined => "Parser(<undefined>)"
    | .defined body => "Parser(<" ++ body.node.kind ++ ">)"

def calling (h : Handle) : String := if h.name ≠ "" then h.name else h.shown

def children (h : Handle) : List HandleId :=
  match h.body? with
  | some body => body.node.children
  | none => []

end Handle

structure Grammar where
  handles : Array Handle := #[]

namespace Grammar

def size (g : Grammar) : Nat := g.handles.size

/-- The handle of a given name; where there is none, one that was never defined. -/
def get (g : Grammar) (h : HandleId) : Handle := (g.handles[h]?).getD {}

def set (g : Grammar) (h : HandleId) (handle : Handle) : Grammar :=
  ⟨g.handles.setIfInBounds h handle⟩

/-- The grammar with one handle more, which `size` names. -/
def add (g : Grammar) (handle : Handle) : Grammar := ⟨g.handles.push handle⟩

def addNode (g : Grammar) (node : Node) : Grammar :=
  g.add { status := .defined ⟨g.size, node⟩ }

@[simp] theorem size_set (g : Grammar) (h : HandleId) (handle : Handle) :
    (g.set h handle).size = g.size := by simp [set, size]

@[simp] theorem size_add (g : Grammar) (handle : Handle) : (g.add handle).size = g.size + 1 := by
  simp [add, size]

theorem get_set_self {g : Grammar} {h : HandleId} (handle : Handle) (lt : h < g.size) :
    (g.set h handle).get h = handle := by
  simp only [size] at lt
  simp [set, get, lt]

theorem get_set_other {g : Grammar} {h k : HandleId} (handle : Handle) (ne : k ≠ h) :
    (g.set h handle).get k = g.get k := by
  simp [set, get, Array.getElem?_setIfInBounds_ne (Ne.symm ne)]

theorem get_of_size_le {g : Grammar} {h : HandleId} (le : g.size ≤ h) : g.get h = {} := by
  simp only [size] at le
  simp [get, le]

theorem get_add_self (g : Grammar) (handle : Handle) : (g.add handle).get g.size = handle := by
  simp [add, get, size]

theorem get_add_other {g : Grammar} {h : HandleId} (handle : Handle) (ne : h ≠ g.size) :
    (g.add handle).get h = g.get h := by
  simp only [size] at ne
  simp [add, get, Array.getElem?_push, ne]

/-- Fills in a placeholder with the body of another handle, which is allowed once. -/
def define (g : Grammar) (h other : HandleId) : Except Fault Grammar :=
  let handle := g.get h
  match handle.status with
  | .deleted => .error (.deleted handle.calling)
  | .defined _ => .error (.grammar (.alreadyDefined handle.name))
  | .undefined =>
    if other = h then .error (.grammar (.definedAsItself handle.name))
    else
      match (g.get other).status with
      | .deleted => .error (.deleted (g.get other).calling)
      | .undefined => .error (.grammar (.definedFromUndefined handle.name (g.get other).name))
      | .defined body => .ok (g.set h { handle with status := .defined body })

/-- Takes a handle's node away for good. Its name stays. -/
def tear (g : Grammar) (h : HandleId) : Grammar :=
  g.set h { g.get h with status := .deleted }

theorem get_tear (g : Grammar) (h k : HandleId) :
    ((g.tear h).get k).status = .deleted ∨ (g.tear h).get k = g.get k := by
  by_cases same : k = h
  · subst same
    by_cases lt : k < g.size
    · left
      rw [tear, get_set_self _ lt]
    · right
      rw [get_of_size_le (by simpa [tear] using lt), get_of_size_le (Nat.le_of_not_lt lt)]
  · right
    exact get_set_other _ same

theorem get_define {g g' : Grammar} {h other : HandleId} (defined : g.define h other = .ok g') (k : HandleId) :
    g'.get k = g.get k ∨
    (g.get k).status = .undefined ∧
      ∃ body, (g.get other).status = .defined body ∧ (g'.get k).status = .defined body := by
  rcases status : (g.get h).status with _ | body | _
  · by_cases itself : other = h
    · simp only [define, status, if_pos itself, reduceCtorEq] at defined
    · rcases there : (g.get other).status with _ | body | _
      · simp only [define, status, if_neg itself, there, reduceCtorEq] at defined
      · simp only [define, status, if_neg itself, there, Except.ok.injEq] at defined
        subst defined
        by_cases same : k = h
        · subst same
          by_cases lt : k < g.size
          · exact .inr ⟨status, body, rfl, by rw [get_set_self _ lt]⟩
          · left
            rw [get_of_size_le (by simpa using lt), get_of_size_le (Nat.le_of_not_lt lt)]
        · left
          exact get_set_other _ same
      · simp only [define, status, if_neg itself, there, reduceCtorEq] at defined
  · simp only [define, status, reduceCtorEq] at defined
  · simp only [define, status, reduceCtorEq] at defined

def rename (g : Grammar) (h : HandleId) (name : String) : Grammar :=
  g.set h { g.get h with name := name }

def sameBody (g : Grammar) (h k : HandleId) : Bool :=
  (g.get h).body?.map (·.origin) == (g.get k).body?.map (·.origin)

def references (g : Grammar) : Nat := (g.handles.toList.flatMap (·.children)).length

end Grammar

end Peg
