/-!
# Bytes and big-endian words

Content is a list of bytes. A word of fixed width is written with its highest byte first;
`Bytes.toNat` reads such a word back.
-/

namespace QueryClient

/-- Raw content, as it travels and as it is kept. -/
abbrev Bytes := List UInt8

namespace Bytes

/-- The lowest `width` bytes of `n`, highest first. -/
def ofNat : (width : Nat) → (n : Nat) → Bytes
  | 0, _ => []
  | width + 1, n => UInt8.ofNat (n >>> (8 * width)) :: ofNat width n

/-- The number that the bytes spell, highest first. -/
def toNat (bytes : Bytes) : Nat :=
  bytes.foldl (fun n byte => n * 256 + byte.toNat) 0

/-- Whether at least `n` bytes are there; looks at no more than `n` of them. -/
def holds : (n : Nat) → Bytes → Bool
  | 0, _ => true
  | _ + 1, [] => false
  | n + 1, _ :: bytes => holds n bytes

theorem holds_eq_decide (n : Nat) (bytes : Bytes) : holds n bytes = decide (n ≤ bytes.length) := by
  induction n generalizing bytes with
  | zero => simp [holds]
  | succ n ih =>
    cases bytes with
    | nil => simp [holds]
    | cons byte bytes => simp [holds, ih]

@[simp] theorem length_ofNat (width n : Nat) : (ofNat width n).length = width := by
  induction width with
  | zero => rfl
  | succ width ih => simp [ofNat, ih]

end Bytes

end QueryClient
