import QueryClient.Text.Hex
import QueryClient.Text.Shapeless

/-!
# Quoted text

Messages quote names and addresses so that no character of them can be mistaken: a quote and a
backslash are escaped, the common controls have letters, and every other character without a shape
is shown by its number.
-/

namespace QueryClient.Text

def quoteChar (c : Char) : String :=
  match c with
  | '"' => "\\\""
  | '\\' => "\\\\"
  | '\n' => "\\n"
  | '\t' => "\\t"
  | '\r' => "\\r"
  | '\x00' => "\\0"
  | c => if isShapeless c then s!"\\u\x7b{hex c.toNat}\x7d" else String.ofList [c]

def quoted (text : String) : String :=
  "\"" ++ String.join (text.toList.map quoteChar) ++ "\""

end QueryClient.Text
