import Peg.Grammar.Basic

namespace Peg

namespace Grammar

/-- A text that depends on the named handles written out so far, and adds to them. -/
abbrev Telling := List HandleId → String × List HandleId

def tellAll : List Telling → List HandleId → List String × List HandleId
  | [], named => ([], named)
  | t :: ts, named =>
    let (s, named) := t named
    let (ss, named) := tellAll ts named
    (s :: ss, named)

/-- Texts told one after another, between parentheses. -/
def grouped (separator : String) (ts : List Telling) : Telling := fun named =>
  let (ss, named) := tellAll ts named
  ("(" ++ separator.intercalate ss ++ ")", named)

def bounds (least : Int) (most : Option Int) : String :=
  match most with
  | none =>
    if least = 0 then "*"
    else if least = 1 then "+"
    else "\x7b" ++ toString least ++ ",\x7d"
  | some most =>
    if least = most then "\x7b" ++ toString least ++ "\x7d"
    else "\x7b" ++ toString least ++ "," ++ toString most ++ "\x7d"

def tellNode (child : HandleId → Telling) : Node → Telling
  | .literal text => fun named => (Text.quote text, named)
  | .pure _ => fun named => ("<pure>", named)
  | .fail _ => fun named => ("<fail>", named)
  | .eof => fun named => ("<eof>", named)
  | .choice first others => grouped " | " ((first :: others).map child)
  | .sequence _ items => grouped " " (items.map fun i => child i.1)
  | .repetition _ item least most _ => fun named =>
    let (s, named) := child item named
    (s ++ bounds least most, named)
  | .apply item _ => child item
  | .expect _ label => fun named => ("<" ++ label ++ ">", named)

def tell (g : Grammar) (cut : String) : Nat → List HandleId → HandleId → Telling
  | 0, _, _ => fun named => (cut, named)
  | levels + 1, expanding, h => fun named =>
    let handle := g.get h
    match handle.status with
    | .deleted => ("<deleted>", named)
    | .undefined => ("<" ++ handle.name ++ ">", named)
    | .defined body =>
      if handle.name ≠ "" ∧ h ∈ named then ("<" ++ handle.name ++ ">", named)
      else if h ∈ expanding then (cut, named)
      else
        let named := if handle.name = "" then named else h :: named
        tellNode (tell g cut levels (h :: expanding)) body.node named

/-- A grammar as text, from one of its handles. No handle is written out inside itself, so that as
many levels as there are handles, and one more, are enough. -/
def describe (g : Grammar) (h : HandleId) (cut : String := "<...>") : String :=
  (g.tell cut (g.size + 1) [] h []).1

end Grammar

end Peg
