import Peg.Sample.Program

namespace Peg

def program? : String → Option Sample.Program
  | "greetings" => some .greetings
  | "expression" => some .expression
  | _ => none

end Peg

def main (args : List String) : IO UInt32 := do
  match args with
  | [] => IO.eprintln "a program is wanted: greetings or expression"; return 2
  | name :: args =>
    match Peg.program? name with
    | none => IO.eprintln "no such program"; return 2
    | some program => IO.print (program.output args); return 0
