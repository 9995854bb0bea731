/-!
# Spans of time

A duration counts nanoseconds. In words it is shown in the largest unit that leaves a whole part,
with as many decimals as it needs.
-/

namespace QueryClient

structure Duration where
  nanoseconds : Nat
deriving DecidableEq, Repr

namespace Duration

/-- Whole seconds and nanoseconds on top. -/
def ofParts (seconds nanoseconds : Nat) : Duration :=
  ⟨seconds * 1000000000 + nanoseconds⟩

def seconds (n : Nat) : Duration :=
  ofParts n 0

def milliseconds (n : Nat) : Duration :=
  ⟨n * 1000000⟩

/-- The whole milliseconds in the span. -/
def wholeMilliseconds (d : Duration) : Nat :=
  d.nanoseconds / 1000000

def isZero (d : Duration) : Bool :=
  d.nanoseconds == 0

/-- The last `places` digits of `n` as decimals, without the zeros at their end. -/
private def decimals (places n : Nat) : List Char :=
  let digits := (n + Nat.pow 10 places).repr.toList.drop 1
  (digits.reverse.dropWhile (· == '0')).reverse

/-- `n` in a unit of `10 ^ places`. -/
private def inUnit (places n : Nat) (unit : String) : String :=
  let whole := (n / Nat.pow 10 places).repr
  match decimals places (n % Nat.pow 10 places) with
  | [] => whole ++ unit
  | digits => whole ++ "." ++ String.ofList digits ++ unit

/-- The span in words: seconds, or the largest smaller unit that leaves a whole part. -/
def text (d : Duration) : String :=
  let n := d.nanoseconds
  if 1000000000 ≤ n then inUnit 9 n "s"
  else if 1000000 ≤ n then inUnit 6 n "ms"
  else if 1000 ≤ n then inUnit 3 n "µs"
  else inUnit 0 n "ns"

end Duration

end QueryClient
