import Peg.Fault

namespace Peg

def defaultMaxDepth : Int := 256

structure Config where
  maxDepth : Int := defaultMaxDepth
  trace : Bool := false
  sourceName : String := ""
  one_le : 1 ≤ maxDepth := by decide

namespace Config

def standard : Config := {}

def make (maxDepth : Int) (trace : Bool) (sourceName : String) : Except Fault Config :=
  if h : 1 ≤ maxDepth then .ok ⟨maxDepth, trace, sourceName, h⟩
  else .error (.maxDepthTooSmall maxDepth)

end Config

/-- Counts how deeply the parsers of one run are nested. -/
structure Guard where
  maxDepth : Int := defaultMaxDepth
  depth : Int := 0
deriving DecidableEq, Inhabited, Repr

namespace Guard

def enter (g : Guard) : Except Fault Guard :=
  if g.maxDepth < g.depth + 1 then .error (.depthLimit g.maxDepth)
  else .ok { g with depth := g.depth + 1 }

def exit (g : Guard) : Guard := { g with depth := g.depth - 1 }

/-- How many levels deeper the guard still lets in. -/
def room (g : Guard) : Nat := (g.maxDepth - g.depth).toNat

theorem enter_eq_ok_iff {g g' : Guard} :
    g.enter = .ok g' ↔ g.depth + 1 ≤ g.maxDepth ∧ g' = { g with depth := g.depth + 1 } := by
  unfold enter
  split
  · simp only [reduceCtorEq, false_iff, not_and]
    omega
  · simp only [Except.ok.injEq]
    constructor
    · rintro rfl
      exact ⟨by omega, rfl⟩
    · rintro ⟨_, rfl⟩
      rfl

theorem exit_of_enter {g g' : Guard} (h : g.enter = .ok g') : g'.exit = g := by
  obtain ⟨_, rfl⟩ := enter_eq_ok_iff.mp h
  simp only [exit]
  congr 1
  omega

theorem enter_eq_error_iff {g : Guard} {fault : Fault} :
    g.enter = .error fault ↔ g.room = 0 ∧ fault = .depthLimit g.maxDepth := by
  unfold enter room
  split
  · simp only [Except.error.injEq]
    constructor
    · rintro rfl
      exact ⟨by omega, rfl⟩
    · rintro ⟨_, rfl⟩
      rfl
  · simp only [reduceCtorEq, false_iff, not_and]
    omega

theorem room_of_enter {g g' : Guard} (h : g.enter = .ok g') : g.room = g'.room + 1 := by
  obtain ⟨_, rfl⟩ := enter_eq_ok_iff.mp h
  simp only [room]
  omega

end Guard

/-- What a run keeps apart from the grammar, so that runs can share one. -/
structure Context where
  config : Config
  guard : Guard

def Context.fresh (config : Config) : Context := ⟨config, ⟨config.maxDepth, 0⟩⟩

end Peg
