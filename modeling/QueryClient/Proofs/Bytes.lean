import Mathlib.Algebra.Order.Ring.Nat
import Mathlib.Tactic.Ring
import QueryClient.Bytes

/-!
# Words read back

A number that fits into a word is read back from it, and a word is what writing its number gives.
-/

namespace QueryClient.Bytes

theorem ofNat_succ (width n : Nat) :
    ofNat (width + 1) n = UInt8.ofNat (n / 256 ^ width) :: ofNat width n := by
  rw [ofNat, Nat.shiftRight_eq_div_pow, Nat.pow_mul]

theorem ofNat_one (n : Nat) : ofNat 1 n = [UInt8.ofNat n] := by
  rw [ofNat_succ, Nat.pow_zero, Nat.div_one, ofNat]

theorem ofNat_two (n : Nat) : ofNat 2 n = [UInt8.ofNat (n / 256), UInt8.ofNat n] := by
  rw [ofNat_succ, ofNat_one, Nat.pow_one]

@[simp] theorem toNat_nil : toNat [] = 0 := rfl

private theorem foldl_eq (n : Nat) (bytes : Bytes) :
    bytes.foldl (fun n byte => n * 256 + byte.toNat) n = n * 256 ^ bytes.length + toNat bytes := by
  unfold toNat
  induction bytes generalizing n with
  | nil => simp
  | cons byte bytes ih =>
    rw [List.foldl_cons, List.foldl_cons, ih, ih (0 * 256 + byte.toNat), List.length_cons]
    ring

theorem toNat_cons (byte : UInt8) (bytes : Bytes) :
    toNat (byte :: bytes) = byte.toNat * 256 ^ bytes.length + toNat bytes := by
  have h := foldl_eq (0 * 256 + byte.toNat) bytes
  rw [Nat.zero_mul, Nat.zero_add] at h
  rw [toNat, List.foldl_cons, Nat.zero_mul, Nat.zero_add]
  exact h

theorem toNat_lt (bytes : Bytes) : toNat bytes < 256 ^ bytes.length := by
  induction bytes with
  | nil => simp
  | cons byte bytes ih =>
    have hbyte : byte.toNat + 1 ≤ 256 := byte.toNat_lt
    calc toNat (byte :: bytes) = byte.toNat * 256 ^ bytes.length + toNat bytes := toNat_cons _ _
      _ < byte.toNat * 256 ^ bytes.length + 256 ^ bytes.length := by omega
      _ = (byte.toNat + 1) * 256 ^ bytes.length := by ring
      _ ≤ 256 * 256 ^ bytes.length := Nat.mul_le_mul_right _ hbyte
      _ = 256 ^ (byte :: bytes).length := by rw [List.length_cons]; ring

/-- A word keeps the number that is written to it up to its width. -/
theorem toNat_ofNat_eq_mod (width n : Nat) : toNat (ofNat width n) = n % 256 ^ width := by
  induction width with
  | zero => simp [ofNat, Nat.mod_one]
  | succ width ih =>
    have hbyte : (UInt8.ofNat (n / 256 ^ width)).toNat = n / 256 ^ width % 256 := UInt8.toNat_ofNat'
    rw [ofNat_succ, toNat_cons, length_ofNat, ih, hbyte, Nat.pow_succ (n := 256), Nat.mod_mul,
      Nat.mul_comm (256 ^ width), Nat.add_comm]

theorem toNat_ofNat {width n : Nat} (h : n < 256 ^ width) : toNat (ofNat width n) = n := by
  rw [toNat_ofNat_eq_mod, Nat.mod_eq_of_lt h]

theorem ofNat_add_mul (width n k : Nat) : ofNat width (k * 256 ^ width + n) = ofNat width n := by
  induction width generalizing k with
  | zero => rfl
  | succ width ih =>
    have hsplit : k * 256 ^ (width + 1) + n = n + k * 256 * 256 ^ width := by ring
    have hpos : 0 < 256 ^ width := Nat.pow_pos (by decide)
    rw [ofNat_succ, ofNat_succ]
    congr 1
    · apply UInt8.toNat_inj.mp
      rw [UInt8.toNat_ofNat', UInt8.toNat_ofNat', hsplit, Nat.add_mul_div_right _ _ hpos]
      omega
    · rw [hsplit, Nat.add_comm]
      exact ih _

theorem ofNat_mod (width n : Nat) : ofNat width (n % 256 ^ width) = ofNat width n := by
  conv_rhs => rw [← Nat.div_add_mod' n (256 ^ width), ofNat_add_mul]

theorem ofNat_toNat (bytes : Bytes) : ofNat bytes.length (toNat bytes) = bytes := by
  induction bytes with
  | nil => rfl
  | cons byte bytes ih =>
    have hdiv : toNat (byte :: bytes) / 256 ^ bytes.length = byte.toNat := by
      rw [toNat_cons, Nat.add_comm, Nat.add_mul_div_right _ _ (Nat.pow_pos (by decide)),
        Nat.div_eq_of_lt (toNat_lt bytes), Nat.zero_add]
    rw [List.length_cons, ofNat_succ, hdiv, UInt8.ofNat_toNat, toNat_cons, ofNat_add_mul, ih]

/-- Bytes go behind what has been written one by one. -/
theorem append_toArray (written : Array UInt8) (content : Bytes) :
    written ++ content = written ++ content.toArray :=
  Array.ext' (by simp)

theorem size_append (written : Array UInt8) (content : Bytes) :
    (written ++ content).size = written.size + content.length := by
  simp only [append_toArray, Array.size_append, List.size_toArray]

end QueryClient.Bytes
