/-!
# Exceptions reported by the server
-/

namespace QueryClient

/-- A failure that the server reports, either as the outcome of a call or with a batch of rows,
where it stands for every row of the batch. -/
structure ServerException where
  className : Option String
  code : Option String
  message : String
deriving DecidableEq, Repr, Inhabited

/-- The exception in words, with the vendor's code if there is one. -/
def ServerException.text (e : ServerException) : String :=
  match e.code with
  | some code => s!"remote failure [{code}]: {e.message}"
  | none => s!"remote failure: {e.message}"

end QueryClient
