import TptRfc.Lib.Bytes

/-!
# One's-complement checksums

The 16-bit one's-complement sum: add the big-endian words of a byte string, then
fold the carries back into the low 16 bits until none is left.
-/

namespace TptRfc.Lib

def wordSum : Bytes → ℕ
  | [] => 0
  | [a] => a.toNat * 256
  | a :: b :: rest => a.toNat * 256 + b.toNat + wordSum rest

def foldCarries (sum : ℕ) : ℕ :=
  if sum / 65536 = 0 then sum else foldCarries (sum % 65536 + sum / 65536)
termination_by sum

theorem wordSum_append {pre : Bytes} (rest : Bytes) (h : pre.length % 2 = 0) :
    wordSum (pre ++ rest) = wordSum pre + wordSum rest := by
  fun_induction wordSum pre with
  | case1 => simp
  | case2 a => simp at h
  | case3 a b pre ih =>
    have hrest := ih (by simp only [List.length_cons] at h; omega)
    simp only [List.cons_append, wordSum, hrest]
    omega

theorem wordSum_le (bytes : Bytes) : wordSum bytes ≤ 65535 * (bytes.length + 1) / 2 := by
  fun_induction wordSum bytes with
  | case1 => simp
  | case2 a =>
    have := a.toNat_lt
    simp only [List.length_cons, List.length_nil]
    omega
  | case3 a b rest ih =>
    have := a.toNat_lt
    have := b.toNat_lt
    simp only [List.length_cons]
    omega

theorem wordSum_beBytes_two {n : ℕ} (h : n < 65536) (rest : Bytes) :
    wordSum (beBytes 2 n ++ rest) = n + wordSum rest := by
  simp only [beBytes, List.cons_append, List.nil_append, wordSum, UInt8.toNat_ofNat']
  omega

/-! ## Folding -/

theorem foldCarries_lt (sum : ℕ) : foldCarries sum < 65536 := by
  fun_induction foldCarries sum with
  | case1 sum h => omega
  | case2 sum h ih => exact ih

theorem foldCarries_mod (sum : ℕ) : foldCarries sum % 65535 = sum % 65535 := by
  fun_induction foldCarries sum with
  | case1 sum h => rfl
  | case2 sum h ih => omega

theorem foldCarries_eq_zero_iff (sum : ℕ) : foldCarries sum = 0 ↔ sum = 0 := by
  fun_induction foldCarries sum with
  | case1 sum h => rfl
  | case2 sum h ih => omega

theorem foldCarries_add_complement (sum : ℕ) :
    foldCarries (sum + (65535 - foldCarries sum)) = 65535 := by
  have hlt := foldCarries_lt sum
  have hmod := foldCarries_mod sum
  have hzero := foldCarries_eq_zero_iff sum
  have hlt' := foldCarries_lt (sum + (65535 - foldCarries sum))
  have hmod' := foldCarries_mod (sum + (65535 - foldCarries sum))
  have hne : foldCarries (sum + (65535 - foldCarries sum)) ≠ 0 := by
    rw [Ne, foldCarries_eq_zero_iff]
    omega
  -- a nonzero multiple of 65535 below 65536
  omega

end TptRfc.Lib
