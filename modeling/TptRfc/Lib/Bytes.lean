import Mathlib

/-!
# Byte strings and big-endian integers

A wire format is a byte string with big-endian integers of a fixed width in it.
-/

namespace TptRfc.Lib

open List

abbrev Bytes := List UInt8

abbrev FixedBytes (n : ℕ) := { bytes : Bytes // bytes.length = n }

def FixedBytes.replicate (n : ℕ) (byte : UInt8) : FixedBytes n :=
  ⟨List.replicate n byte, length_replicate⟩

def FixedBytes.slice (bytes : Bytes) (off n : ℕ) : FixedBytes n :=
  ⟨(range n).map fun i => bytes.getD (off + i) 0, by simp⟩

@[simp] theorem FixedBytes.length_val {n : ℕ} (bytes : FixedBytes n) :
    bytes.val.length = n := bytes.property

theorem FixedBytes.slice_append {n : ℕ} (pre rest : Bytes) (bytes : FixedBytes n) :
    FixedBytes.slice (pre ++ (bytes.val ++ rest)) pre.length n = bytes := by
  apply Subtype.ext
  apply ext_getElem
  · simp [FixedBytes.slice]
  · intro i h₁ h₂
    simp only [FixedBytes.slice, getElem_map, getElem_range]
    rw [getD_eq_getElem?_getD, getElem?_append_right (by omega),
      Nat.add_sub_cancel_left, getElem?_append_left h₂, getElem?_eq_getElem h₂,
      Option.getD_some]

def padTo (n : ℕ) (bytes : Bytes) : FixedBytes n := ⟨(bytes ++ List.replicate n 0).take n, by simp⟩

def patch (buf : Bytes) (off : ℕ) (data : Bytes) : Option Bytes :=
  if off + data.length ≤ buf.length then
    some (buf.take off ++ (data ++ buf.drop (off + data.length)))
  else none

theorem patch_append (pre old rest data : Bytes) (h : old.length = data.length) :
    patch (pre ++ (old ++ rest)) pre.length data = some (pre ++ (data ++ rest)) := by
  rw [patch, if_pos (by simp [h])]
  simp [← h, ← drop_drop]

theorem patch_take {buf out data : Bytes} {off n : ℕ} (h : patch buf off data = some out)
    (hn : n ≤ off) : out.take n = buf.take n := by
  unfold patch at h
  split at h
  · obtain rfl := Option.some.inj h
    rw [take_append_of_le_length (by simp; omega), take_take, Nat.min_eq_left hn]
  · cases h

def beBytes : ℕ → ℕ → Bytes
  | 0, _ => []
  | k + 1, n => UInt8.ofNat (n / 256 ^ k) :: beBytes k n

def beNat : Bytes → ℕ
  | [] => 0
  | b :: bytes => b.toNat * 256 ^ bytes.length + beNat bytes

@[simp] theorem length_beBytes (k n : ℕ) : (beBytes k n).length = k := by
  induction k with
  | zero => rfl
  | succ k ih => simp [beBytes, ih]

theorem beNat_lt (bytes : Bytes) : beNat bytes < 256 ^ bytes.length := by
  induction bytes with
  | nil => simp [beNat]
  | cons b bytes ih =>
    rw [beNat, length_cons, pow_succ]
    have hb : b.toNat + 1 ≤ 256 := b.toNat_lt
    calc b.toNat * 256 ^ bytes.length + beNat bytes
        < b.toNat * 256 ^ bytes.length + 256 ^ bytes.length := by omega
      _ = (b.toNat + 1) * 256 ^ bytes.length := by ring
      _ ≤ 256 * 256 ^ bytes.length := Nat.mul_le_mul_right _ hb
      _ = 256 ^ bytes.length * 256 := by ring

theorem beNat_beBytes (k n : ℕ) : beNat (beBytes k n) = n % 256 ^ k := by
  induction k with
  | zero => simp [beBytes, beNat, Nat.mod_one]
  | succ k ih =>
    rw [beBytes, beNat, ih, length_beBytes, pow_succ, Nat.mod_mul]
    simp only [UInt8.toNat_ofNat']
    ring

theorem beNat_replicate_append (k : ℕ) (bytes : Bytes) :
    beNat (List.replicate k 0 ++ bytes) = beNat bytes := by
  induction k with
  | zero => rfl
  | succ k ih => rw [replicate_succ, cons_append, beNat, ih, UInt8.toNat_zero,
      zero_mul, zero_add]

theorem beNat_beBytes_of_lt {k n : ℕ} (h : n < 256 ^ k) : beNat (beBytes k n) = n := by
  rw [beNat_beBytes, Nat.mod_eq_of_lt h]

theorem beBytes_mod (k n : ℕ) : ∀ j, k ≤ j → beBytes k (n % 256 ^ j) = beBytes k n := by
  induction k with
  | zero => intro j _; rfl
  | succ k ih =>
    intro j hj
    rw [beBytes, beBytes, ih j (by omega)]
    congr 1
    -- the byte at position `k` only depends on the digits below position `k + 1`
    obtain ⟨i, rfl⟩ : ∃ i, j = k + (i + 1) := ⟨j - k - 1, by omega⟩
    apply UInt8.toNat_inj.mp
    simp only [UInt8.toNat_ofNat']
    rw [pow_add, Nat.mod_mul_right_div_self, pow_succ, mul_comm, Nat.mod_mul_right_mod]

theorem beBytes_congr {k n m : ℕ} (h : n % 256 ^ k = m % 256 ^ k) : beBytes k n = beBytes k m := by
  rw [← beBytes_mod k n k le_rfl, h, beBytes_mod k m k le_rfl]

theorem beBytes_beNat (bytes : Bytes) : beBytes bytes.length (beNat bytes) = bytes := by
  induction bytes with
  | nil => rfl
  | cons b bytes ih =>
    have hlt := beNat_lt bytes
    rw [length_cons, beBytes, beNat]
    congr 1
    · rw [Nat.mul_comm, Nat.mul_add_div (by positivity), Nat.div_eq_of_lt hlt, Nat.add_zero]
      simp
    · rw [beBytes_congr (m := beNat bytes) (by simp), ih]

/-! ## Machine integers -/

def u16Bytes (v : UInt16) : Bytes := beBytes 2 v.toNat

def u32Bytes (v : UInt32) : Bytes := beBytes 4 v.toNat

@[simp] theorem length_u16Bytes (v : UInt16) : (u16Bytes v).length = 2 := length_beBytes 2 _

@[simp] theorem length_u32Bytes (v : UInt32) : (u32Bytes v).length = 4 := length_beBytes 4 _

theorem ofNat_beNat_u16Bytes (v : UInt16) : UInt16.ofNat (beNat (u16Bytes v)) = v := by
  rw [u16Bytes, beNat_beBytes_of_lt v.toNat_lt, UInt16.ofNat_toNat]

theorem ofNat_beNat_u32Bytes (v : UInt32) : UInt32.ofNat (beNat (u32Bytes v)) = v := by
  rw [u32Bytes, beNat_beBytes_of_lt v.toNat_lt, UInt32.ofNat_toNat]

theorem zipWith_xor_cancel {xs ks : Bytes} (h : xs.length ≤ ks.length) :
    zipWith (· ^^^ ·) (zipWith (· ^^^ ·) xs ks) ks = xs := by
  induction xs generalizing ks with
  | nil => rfl
  | cons x xs ih =>
    cases ks with
    | nil => cases h
    | cons k ks =>
      rw [zipWith_cons_cons, zipWith_cons_cons, ih (Nat.le_of_succ_le_succ h),
        UInt8.xor_assoc, UInt8.xor_self, UInt8.xor_zero]

end TptRfc.Lib
