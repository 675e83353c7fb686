import Peg.Build
import Peg.Sample.Program

namespace Peg

mutual

inductive Recipe where
  | register (id : String)
  | other (got : Shape)
  /-- The handle of a recipe, put into a register as soon as it is made. -/
  | named (id : String) (recipe : Recipe)
  | string (text : String ⊕ Shape)
  | pure (value : Template)
  | fail (message : String)
  | eof
  | placeholder (name : String)
  | raw (name : String)
  | choice (ps : List Recipe)
  | alternative (p q : Recipe)
  | sequence (fold : Fold) (items : List Item)
  | many (fold : Fold) (p : Recipe) (release : Option Release)
  | many1 (fold : Fold) (p : Recipe) (release : Option Release)
  | count (n : Int) (fold : Fold) (p : Recipe) (release : Option Release)
  | repetition (fold : Fold) (p : Recipe) (least : Int) (most : Option Int)
      (release : Option Release)
  | maybe (p : Recipe) (default : Template)
  | apply (p : Recipe) (func : Func)
  | map (p : Recipe) (func : Func)
  | expect (p : Recipe) (label : String)
  | label (p : Recipe) (label : String)
  | sample (program : Sample.Program) (name : String)

/-- What is given for an item of a sequence. -/
inductive Item where
  | pair (p : Recipe) (release : Option Release)
  /-- A group of recipes: only one of two is a pair. -/
  | group (ps : List Recipe)
  | loose (ps : List Recipe)

end

/-- What recipes draw on and change. -/
structure Workbench where
  world : World := {}
  loaded : List (Sample.Program × List (String × HandleId)) := []

namespace Workbench

def act {α : Type} (action : Action α) : Proc Workbench α :=
  Proc.onPart Workbench.world (fun w k => { k with world := w }) action

def parsersOf (program : Sample.Program) : Proc Workbench (List (String × HandleId)) := fun k =>
  match k.loaded.lookup program with
  | some parsers => (.done parsers, k)
  | none =>
    Proc.andThen (act program.load)
      (fun parsers k => (.done parsers, { k with loaded := (program, parsers) :: k.loaded })) k

end Workbench

def Store.assignOperand (s : Store) (id : String) : Operand → Store
  | .parser h => s.assign id h
  | .other _ => s

def Operand.handle : Operand → Action HandleId
  | .parser h => return h
  | .other got => Proc.raise (.unsuited ("'" ++ got.word ++ "' object is no parser"))

namespace Recipe

def made (action : Action HandleId) : Proc Workbench Operand := do
  return .parser (← Workbench.act action)

mutual

def evaluate : Recipe → Proc Workbench Operand
  | .register id => made (Action.register id)
  | .other got => return .other got
  | .named id recipe => do
    let operand ← evaluate recipe
    Workbench.act (Action.update fun s => ((), s.assignOperand id operand))
    return operand
  | .string text => made (Build.string text)
  | .pure value => made do Build.pure (← Action.makeValue value)
  | .fail message => made (Build.fail message)
  | .eof => made Build.eof
  | .placeholder name => made (Build.placeholder name)
  | .raw name => made (Build.raw name)
  | .choice ps => do
    let ps ← evaluateAll ps
    made (Build.choice ps)
  | .alternative p q => do
    let p ← evaluate p
    let q ← evaluate q
    made do Build.alternative (← p.handle) q
  | .sequence fold items => do
    let parts ← evaluateItems items
    made (Build.sequence fold parts)
  | .many fold p release => do
    let p ← evaluate p
    made (Build.many fold p release)
  | .many1 fold p release => do
    let p ← evaluate p
    made (Build.many1 fold p release)
  | .count n fold p release => do
    let p ← evaluate p
    made (Build.count n fold p release)
  | .repetition fold p least most release => do
    let p ← evaluate p
    made do Action.make (.repetition fold (← p.handle) least most release)
  | .maybe p default => do
    let p ← evaluate p
    made do Build.maybe p (← Action.makeValue default)
  | .apply p func => do
    let p ← evaluate p
    made (Build.apply p func)
  | .map p func => do
    let p ← evaluate p
    made do Build.map (← p.handle) func
  | .expect p text => do
    let p ← evaluate p
    made (Build.expect p text)
  | .label p text => do
    let p ← evaluate p
    made do Build.expect (.parser (← p.handle)) text
  | .sample program name => do
    let parsers ← Workbench.parsersOf program
    match parsers.lookup name with
    | some h => return .parser h
    | none => Proc.raise (.unsuited ("no parser " ++ name))

def evaluateAll : List Recipe → Proc Workbench (List Operand)
  | [] => return []
  | p :: ps => do
    let p ← evaluate p
    let ps ← evaluateAll ps
    return p :: ps

def evaluateItem : Item → Proc Workbench Part
  | .pair p release => do
    let p ← evaluate p
    return .pair p release
  | .group ps => do
    let ps ← evaluateAll ps
    match ps with
    | [p, r] => return .pair p r.asRelease
    | _ => return .malformed
  | .loose ps => do
    let _ ← evaluateAll ps
    return .malformed

def evaluateItems : List Item → Proc Workbench (List Part)
  | [] => return []
  | i :: is => do
    let part ← evaluateItem i
    let parts ← evaluateItems is
    return part :: parts

end

end Recipe

end Peg
