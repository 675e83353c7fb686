import Peg.Number.Shortest
import Peg.Text.Quoted
import Peg.Value

namespace Peg.Value

mutual

def quoted : Value → String
  | .null => "None"
  | .boolean b => if b then "True" else "False"
  | .integer n => toString n
  | .float x => x.text
  | .text s => Text.quote s
  | .list vs => "[" ++ ", ".intercalate (quotedAll vs) ++ "]"
  | .box _ s => "<box " ++ Text.quote s ++ ">"
  | .operator op => "<operator " ++ op.sign ++ ">"

def quotedAll : List Value → List String
  | [] => []
  | v :: vs => quoted v :: quotedAll vs

end

def printed : Value → String
  | .text s => s
  | v => v.quoted

end Peg.Value
