import Peg.World

namespace Peg

/-- What stands where a parser is wanted. -/
inductive Operand where
  | parser (h : HandleId)
  | other (got : Shape)
deriving DecidableEq, Inhabited, Repr

def Operand.asRelease : Operand → Option Release
  | .parser _ => some .parser
  | .other .null => none
  | .other got => some (.notCallable got)

inductive Part where
  | pair (item : Operand) (release : Option Release)
  | malformed

namespace Build

def grammarFault {α : Type} (cause : GrammarFault) : Except Fault α := .error (.grammar cause)

def checkParser (site : Combinator) : Operand → Except Fault HandleId
  | .parser h => .ok h
  | .other got => grammarFault (.notParser site got)

def checkFold (site : Combinator) (f : Fold) : Except Fault Unit :=
  if f.callable then .ok () else grammarFault (.notFold site)

def checkRelease (site : Combinator) (r : Option Release) : Except Fault Unit :=
  if r.all Release.callable then .ok () else grammarFault (.notRelease site)

def checkPart : Part → Except Fault (HandleId × Option Release)
  | .malformed => grammarFault .malformedPair
  | .pair item r => do
    let h ← checkParser .sequence item
    checkRelease .sequence r
    return (h, r)

def made (node : Except Fault Node) : Action HandleId := do Action.make (← Proc.ofExcept node)

def string : String ⊕ Shape → Action HandleId
  | .inl text => Action.make (.literal text)
  | .inr got => Proc.raise (.grammar (.notText got))

def pure (v : Value) : Action HandleId := Action.make (.pure v)
def fail (message : String) : Action HandleId := Action.make (.fail message)
def eof : Action HandleId := Action.make .eof

def placeholder (name : String) : Action HandleId :=
  if name = "" then Proc.raise (.grammar .unnamedPlaceholder) else Action.add { name := name }

def raw (name : String) : Action HandleId := Action.add { name := name }

def choice (ps : List Operand) : Action HandleId := made do
  match ← ps.mapM (checkParser .choice) with
  | [] => grammarFault .noAlternative
  | h :: hs => return .choice h hs

def alternative (h : HandleId) (q : Operand) : Action HandleId := made do
  return .choice h [← checkParser .alternative q]

def sequence (f : Fold) (parts : List Part) : Action HandleId := made do
  checkFold .sequence f
  if parts.isEmpty then grammarFault .noParser
  return .sequence f (← parts.mapM checkPart)

def repeated (site : Combinator) (f : Fold) (p : Operand) (least : Int) (most : Option Int)
    (r : Option Release) : Action HandleId := made do
  checkFold site f
  let h ← checkParser site p
  checkRelease site r
  return .repetition f h least most r

def many (f : Fold) (p : Operand) (r : Option Release) : Action HandleId :=
  repeated .many f p 0 none r

def many1 (f : Fold) (p : Operand) (r : Option Release) : Action HandleId :=
  repeated .many1 f p 1 none r

def count (n : Int) (f : Fold) (p : Operand) (r : Option Release) : Action HandleId :=
  if n < 0 then Proc.raise (.grammar (.negativeCount n)) else repeated .count f p n (some n) r

def maybe (p : Operand) (default : Value) : Action HandleId := do
  choice [p, .parser (← pure default)]

def apply (p : Operand) (f : Func) : Action HandleId := made do
  let h ← checkParser .apply p
  if f.callable then return .apply h f else grammarFault .notFunction

def map (h : HandleId) (f : Func) : Action HandleId := Action.make (.apply h f)

def expect (p : Operand) (label : String) : Action HandleId := made do
  return .expect (← checkParser .expect p) label

end Build

end Peg
