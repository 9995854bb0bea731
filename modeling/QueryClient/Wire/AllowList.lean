import QueryClient.Wire.Kind

/-!
# The allow-list of foreign types

A peer may name a type that is not registered. Such a value is only rebuilt when its name is well
formed and has been allowed, by itself or under a dotted prefix; any other name ends the session.
-/

namespace QueryClient

/-- The foreign type names that may be rebuilt. -/
structure AllowList where
  names : List String
  prefixes : List String
deriving DecidableEq, Repr

namespace AllowList

/-- Nothing but the registered kinds. -/
def empty : AllowList := ⟨[], []⟩

def allow (list : AllowList) (name : String) : AllowList :=
  { list with names := name :: list.names }

/-- Allows every name below a dotted prefix, which may be written without its last dot. -/
def allowUnder (list : AllowList) (pre : String) : AllowList :=
  let pre := if pre.toList.getLast? = some '.' then pre else pre.push '.'
  { list with prefixes := list.prefixes ++ [pre] }

/-- The characters of type names. -/
def isNameChar (c : Char) : Bool :=
  c.isAlphanum || c == '.' || c == '_' || c == '$'

def hasDoubleDot : List Char → Bool
  | '.' :: '.' :: _ => true
  | _ :: cs => hasDoubleDot cs
  | [] => false

/-- Whether a name consists of dotted parts, none of them empty. -/
def isWellFormed (name : String) : Bool :=
  let cs := name.toList
  !cs.isEmpty && cs.head? != some '.' && cs.getLast? != some '.' && !hasDoubleDot cs
    && cs.all isNameChar

/-- Whether a foreign type of that name may be rebuilt. -/
def permits (list : AllowList) (name : String) : Bool :=
  isWellFormed name
    && (list.names.contains name || list.prefixes.any fun pre => pre.toList.isPrefixOf name.toList)

/-- What a name on the wire stands for: a registered kind, or a permitted foreign type (`none`). -/
def resolve (list : AllowList) (name : String) : Except Fault (Option Kind) :=
  match Kind.ofName? name with
  | some kind => .ok (some kind)
  | none => if list.permits name then .ok none else .error (.disallowedType name)

end AllowList

end QueryClient
