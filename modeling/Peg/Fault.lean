import Peg.Text.Quoted
import Peg.Value

namespace Peg

inductive Combinator where
  | choice
  | alternative
  | sequence
  | many
  | many1
  | count
  | apply
  | expect
deriving DecidableEq, Inhabited, Repr

def Combinator.word : Combinator → String
  | .choice => "or_"
  | .alternative => "|"
  | .sequence => "and_"
  | .many => "many"
  | .many1 => "many1"
  | .count => "count"
  | .apply => "apply"
  | .expect => "expect"

inductive GrammarFault where
  | noAlternative
  | noParser
  | malformedPair
  | notParser (site : Combinator) (got : Shape)
  | notFold (site : Combinator)
  | notRelease (site : Combinator)
  | notFunction
  | notText (got : Shape)
  | negativeCount (n : Int)
  | unnamedPlaceholder
  | alreadyDefined (name : String)
  | definedAsItself (name : String)
  | definedFromUndefined (name other : String)
  | stated (message : String)
deriving DecidableEq, Inhabited, Repr

def GrammarFault.message : GrammarFault → String
  | .noAlternative => "or_ needs at least one alternative"
  | .noParser => "and_ needs at least one parser"
  | .malformedPair =>
    "and_ expects (parser, release) pairs; use None for values needing no release"
  | .notParser c got => c.word ++ " expects parsers, got " ++ got.word
  | .notFold c => c.word ++ " requires a fold function"
  | .notRelease c => c.word ++ ": release must be callable or None"
  | .notFunction => "apply requires a function"
  | .notText got => "string() expects text, got " ++ got.word
  | .negativeCount n => s!"count needs a non-negative number of repetitions, got {n}"
  | .unnamedPlaceholder => "placeholder parsers need a name"
  | .alreadyDefined name => s!"parser '{name}' is already defined"
  | .definedAsItself name => s!"parser '{name}' cannot be defined as itself"
  | .definedFromUndefined name other => s!"cannot define '{name}' from undefined parser '{other}'"
  | .stated message => message

inductive Fault where
  /-- The engine itself gave up, for the reason it states. -/
  | engine (message : String)
  | grammar (cause : GrammarFault)
  | undefined (name : String)
  | deleted (name : String)
  | depthLimit (maxDepth : Int)
  | outsideInput (pos : Int) (length : Nat)
  | maxDepthTooSmall (maxDepth : Int)
  /-- A text was to be joined from values one of which, the `index`-th kept, is none. -/
  | notText (index : Nat) (got : Shape)
  | notCallable (got : Shape)
  | parserAsRelease
  | divisionByZero
  | floatDivisionByZero
  | quotientTooLarge
  | integerTooLarge
  | notNumeral (text : String)
  | infinityToInteger
  | noNumberToInteger
  | unsuited (reason : String)
  /-- Nested parses started further nested parses without end in sight. -/
  | nestingLimit
  | requested (message : String)
deriving DecidableEq, Inhabited, Repr

def Fault.message : Fault → String
  | .engine message => message
  | .grammar cause => cause.message
  | .undefined name => s!"parser '{name}' was used before being defined"
  | .deleted name => s!"parser '{name}' has been deleted"
  | .depthLimit maxDepth => s!"maximum parser nesting depth of {maxDepth} exceeded"
  | .outsideInput pos length => s!"cursor position {pos} outside input of length {length}"
  | .maxDepthTooSmall maxDepth => s!"max_depth must be at least 1, got {maxDepth}"
  | .notText index got =>
    s!"sequence item {index}: expected str instance, " ++ got.word ++ " found"
  | .notCallable got => "'" ++ got.word ++ "' object is not callable"
  | .parserAsRelease => "Parser.__call__() missing 1 required positional argument: 'ctx'"
  | .divisionByZero => "division by zero"
  | .floatDivisionByZero => "float division by zero"
  | .quotientTooLarge => "integer division result too large for a float"
  | .integerTooLarge => "int too large to convert to float"
  | .notNumeral text =>
    "invalid literal for int() with base 10: " ++ Text.quoteUpTo 200 text
  | .infinityToInteger => "cannot convert float infinity to integer"
  | .noNumberToInteger => "cannot convert float NaN to integer"
  | .unsuited reason => reason
  | .nestingLimit => "nested parses go too deep"
  | .requested message => message

inductive FaultFamily where
  | engine
  | grammar
  | undefined
  | deleted
  | depthLimit
  | badValue
  | recursion
deriving DecidableEq, Inhabited, Repr

/-- Whether a fault belongs to a family. A placeholder run too early and a handle used after its
teardown are faults of the grammar; faults of the grammar and of the depth limit are the engine's. -/
def Fault.belongs : Fault → FaultFamily → Bool
  | .engine _, .engine => true
  | .grammar _, f => f = .engine ∨ f = .grammar ∨ f = .badValue
  | .undefined _, f => f = .engine ∨ f = .grammar ∨ f = .undefined ∨ f = .badValue
  | .deleted _, f => f = .engine ∨ f = .grammar ∨ f = .deleted ∨ f = .badValue
  | .depthLimit _, f => f = .engine ∨ f = .depthLimit ∨ f = .recursion
  | .outsideInput _ _, .badValue => true
  | .maxDepthTooSmall _, .badValue => true
  | .notNumeral _, .badValue => true
  | .noNumberToInteger, .badValue => true
  | _, _ => false

end Peg
