/-!
# Descriptions of state

A description shows a thing as its name and its fields between braces, an absent part as `None` and
a present one as `Some(…)`.
-/

namespace QueryClient.Text

/-- A name with its fields between braces. -/
def record (name : String) (fields : List (String × String)) : String :=
  name ++ " \x7b " ++ ", ".intercalate (fields.map fun (field, text) => field ++ ": " ++ text)
    ++ " \x7d"

/-- A part that may be absent. -/
def optional : Option String → String
  | some text => "Some(" ++ text ++ ")"
  | none => "None"

/-- Items between square brackets. -/
def listed (items : List String) : String :=
  "[" ++ ", ".intercalate items ++ "]"

def truth (b : Bool) : String :=
  if b then "true" else "false"

end QueryClient.Text
