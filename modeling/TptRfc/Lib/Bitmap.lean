import Mathlib

/-!
# Bit strings packed into 64-bit words

`bitAt words k` is bit `k` of a bit string stored little-endian in words of 64 bits; positions past
the last word read as `false`.
-/

namespace TptRfc.Lib

open List

def bitAt (words : List (BitVec 64)) (k : ℕ) : Bool := (words.getD (k / 64) 0).getLsbD (k % 64)

theorem bitAt_of_getElem? {words : List (BitVec 64)} {k : ℕ} {word : BitVec 64}
    (h : words[k / 64]? = some word) : bitAt words k = word.getLsbD (k % 64) := by
  simp [bitAt, getD_eq_getElem?_getD, h]

theorem bitAt_of_le {words : List (BitVec 64)} {k : ℕ} (h : 64 * words.length ≤ k) :
    bitAt words k = false := by
  have hlen : words.length ≤ k / 64 := by omega
  simp [bitAt, getD_eq_getElem?_getD, getElem?_eq_none hlen]

@[simp] theorem bitAt_replicate_zero (n k : ℕ) : bitAt (List.replicate n 0#64) k = false := by
  unfold bitAt
  rw [getD_eq_getElem?_getD, getElem?_replicate]
  split <;> simp

theorem and_mask_ne_zero_iff (word : BitVec 64) (j : ℕ) (hj : j < 64) :
    word &&& (1#64 <<< j) ≠ 0 ↔ word.getLsbD j = true := by
  constructor
  · intro h
    by_contra hbit
    apply h
    apply BitVec.eq_of_getLsbD_eq
    intro i hi
    by_cases hij : i = j
    · subst hij
      simp at hbit
      simp [hbit]
    · rcases Nat.lt_or_gt_of_ne hij with hlt | hgt
      · simp [hi, hlt]
      · simp [hi, Nat.not_lt.mpr hgt.le, show i - j ≠ 0 by omega]
  · intro hbit hzero
    have hj' := congrArg (fun w => w.getLsbD j) hzero
    rw [BitVec.getLsbD_eq_getElem hj] at hbit
    simp [hj, hbit] at hj'

theorem bitAt_set_or (words : List (BitVec 64)) (k : ℕ) (word : BitVec 64)
    (h : words[k / 64]? = some word) (j : ℕ) :
    bitAt (words.set (k / 64) (word ||| (1#64 <<< (k % 64)))) j =
      (bitAt words j || decide (j = k)) := by
  have hlt : k / 64 < words.length := by
    obtain ⟨hlt, -⟩ := List.getElem?_eq_some_iff.mp h
    exact hlt
  unfold bitAt
  rw [getD_eq_getElem?_getD, getD_eq_getElem?_getD, getElem?_set]
  by_cases hword : k / 64 = j / 64
  · rw [if_pos hword, if_pos (hword ▸ hlt), ← hword, h]
    simp only [Option.getD_some, BitVec.getLsbD_or]
    congr 1
    have hj : j % 64 < 64 := Nat.mod_lt _ (by decide)
    by_cases hjk : j = k
    · subst hjk
      simp [hj]
    · rcases Nat.lt_or_gt_of_ne (show j % 64 ≠ k % 64 by omega) with hlt' | hgt
      · simp [hj, hlt', hjk]
      · simp [hj, Nat.not_lt.mpr hgt.le, hjk, show j % 64 - k % 64 ≠ 0 by omega]
  · rw [if_neg hword]
    have hjk : j ≠ k := by rintro rfl; exact hword rfl
    simp [hjk]

/-- **Moving a packed string down by `n` positions.**  Words that would come
from past the end are zero. -/
theorem bitAt_shift {words words' : List (BitVec 64)} {n : ℕ}
    (hwords : ∀ i, words'.getD i 0 =
      words.getD (i + n / 64) 0 >>> (n % 64) |||
        words.getD (i + n / 64 + 1) 0 <<< (64 - n % 64)) (k : ℕ) :
    bitAt words' k = bitAt words (k + n) := by
  unfold bitAt
  rw [hwords, BitVec.getLsbD_or, BitVec.getLsbD_ushiftRight, BitVec.getLsbD_shiftLeft]
  have hk : k % 64 < 64 := Nat.mod_lt _ (by decide)
  have hn : n % 64 < 64 := Nat.mod_lt _ (by decide)
  by_cases hcarry : n % 64 + k % 64 < 64
  · -- the bit comes from the word that starts the shifted one
    have hdiv : (k + n) / 64 = k / 64 + n / 64 := by omega
    have hmod : (k + n) % 64 = n % 64 + k % 64 := by omega
    simp [hdiv, hmod, hk, show k % 64 < 64 - n % 64 by omega]
  · -- the bit comes from the next word
    have hdiv : (k + n) / 64 = k / 64 + n / 64 + 1 := by omega
    have hmod : (k + n) % 64 = k % 64 - (64 - n % 64) := by omega
    have hout : (words.getD (k / 64 + n / 64) 0).getLsbD (n % 64 + k % 64) = false :=
      BitVec.getLsbD_of_ge _ _ (by omega)
    rw [hdiv, hmod, hout]
    simp [hk, show ¬ k % 64 < 64 - n % 64 by omega]

end TptRfc.Lib
