import QueryClient.Message.Results

/-!
# A table of numbered rows

The result that an engine in memory serves: `total` rows of a number and a text. A fetch is answered
with the rows it asks for that exist, and told the final row when it reaches the end.
-/

namespace QueryClient.Engine

def numberedRow (n : Int) : Row :=
  [.long (Int64.ofInt n), .string s!"row-{n}"]

def numberedRows (first last : Int) : List Row :=
  (List.range (last - first + 1).toNat).map fun (i : Nat) => numberedRow (first + i)

/-- The columns of a numbered row. -/
def numberedColumns : List Column :=
  [⟨"id", "long"⟩, ⟨"name", "string"⟩]

/-- The answer to a fetch of `count` rows from `start` on, of `total` rows. -/
def tableBatch (total start count : Int) : Results :=
  if total < start then Results.pastEnd (Int64.ofInt start) (Int64.ofInt total)
  else
    let last := min (start + count - 1) total
    Results.batch (Int64.ofInt start) (numberedRows start last) (total ≤ last)

/-- The first results of a query, with the columns if there are rows. -/
def firstBatch (total count : Int) : Results :=
  let batch := tableBatch total 1 count
  if total < 1 then batch else { batch with columns := numberedColumns }

end QueryClient.Engine
