import TptRfc.Bgp.Attributes

/-!
# BGP: masking a prefix

`mask_in_place` is to clear the bits of an address behind the length of its prefix.
-/

namespace TptRfc.Bgp

open Lib List

variable {n : ℕ}

def maskByte (bits i : ℕ) (byte : UInt8) : UInt8 :=
  let byteStart := i * 8
  if byteStart ≥ bits then 0
  else if byteStart + 8 > bits then
    let keep := 8 - (bits - byteStart)
    byte &&& (0xFF <<< UInt8.ofNat (8 - keep))
  else byte

def maskInPlace (addr : FixedBytes n) (len : UInt8) : FixedBytes n :=
  ⟨addr.val.mapIdx (maskByte len.toNat), by simp⟩

def Ipv4Prefix.new (addr : FixedBytes 4) (len : UInt8) : Ipv4Prefix := ⟨maskInPlace addr len, len⟩

def Ipv6Prefix.new (addr : FixedBytes 16) (len : UInt8) : Ipv6Prefix := ⟨maskInPlace addr len, len⟩

/-! ## The bits of an address -/

def addrBit (addr : FixedBytes n) (i : ℕ) : Bool :=
  (addr.val.getD (i / 8) 0).toNat.testBit (7 - i % 8)

theorem addrBit_of_le {addr : FixedBytes n} {i : ℕ} (h : 8 * n ≤ i) : addrBit addr i = false := by
  rw [addrBit, getD_eq_default _ _ (by rw [addr.length_val]; omega)]
  exact Nat.zero_testBit _

theorem eq_of_addrBit {a b : FixedBytes n} (h : ∀ i, addrBit a i = addrBit b i) : a = b := by
  refine Subtype.ext (ext_getElem (by simp) fun j hj hj' => ?_)
  refine UInt8.toNat_inj.mp (Nat.eq_of_testBit_eq fun k => ?_)
  by_cases hk : k < 8
  · have := h (8 * j + (7 - k))
    rw [addrBit, addrBit, show (8 * j + (7 - k)) / 8 = j by omega,
      show 7 - (8 * j + (7 - k)) % 8 = k by omega, getD_eq_getElem _ _ hj,
      getD_eq_getElem _ _ hj'] at this
    exact this
  · have hlarge : ∀ x : UInt8, x.toNat.testBit k = false := fun x =>
      Nat.testBit_lt_two_pow (x.toNat_lt.trans_le (Nat.pow_le_pow_right (by omega) (by omega)))
    rw [hlarge, hlarge]

def keptBits (len : ℕ) : ℕ := if len % 8 = 0 then len else 8 * (len / 8) + (8 - len % 8)

theorem testBit_mask {r k : ℕ} (hr : r < 8) (hk : k < 8) :
    ((0xFF : UInt8) <<< UInt8.ofNat r).toNat.testBit k = decide (r ≤ k) := by
  have hall : ∀ r < 8, ∀ k < 8, ((0xFF : UInt8) <<< UInt8.ofNat r).toNat.testBit k =
      decide (r ≤ k) := by decide +kernel
  exact hall r hr k hk

theorem testBit_maskByte (bits i k : ℕ) (byte : UInt8) (hk : k < 8) :
    (maskByte bits i byte).toNat.testBit k =
      (decide (8 * i + (7 - k) < keptBits bits) && byte.toNat.testBit k) := by
  simp only [maskByte]
  split_ifs with hout hpart
  · rw [decide_eq_false (by unfold keptBits; split_ifs <;> omega)]
    exact Nat.zero_testBit k
  · rw [UInt8.toNat_and, Nat.testBit_and, testBit_mask (by omega) hk, Bool.and_comm]
    congr 1
    refine decide_eq_decide.mpr ?_
    unfold keptBits
    split_ifs <;> omega
  · rw [decide_eq_true (by unfold keptBits; split_ifs <;> omega), Bool.true_and]

theorem addrBit_maskInPlace (addr : FixedBytes n) (len : UInt8) (i : ℕ) :
    addrBit (maskInPlace addr len) i =
      (decide (i < keptBits len.toNat) && addrBit addr i) := by
  by_cases hi : i < 8 * n
  · have hlt : i / 8 < addr.val.length := by rw [addr.length_val]; omega
    rw [addrBit, addrBit, maskInPlace, getD_eq_getElem _ _ (by simpa using hlt),
      getD_eq_getElem _ _ hlt, getElem_mapIdx, testBit_maskByte _ _ _ _ (by omega),
      show 8 * (i / 8) + (7 - (7 - i % 8)) = i by omega]
  · rw [addrBit_of_le (not_lt.mp hi), addrBit_of_le (not_lt.mp hi), Bool.and_false]

/-! ## Masking -/

structure Masks (new : FixedBytes n → FixedBytes n) (len : ℕ) : Prop where
  /-- Exactly the first `len` bits are kept if the bits between `len` and `keptBits len` are
  zero in the first place. -/
  bits_iff (addr : FixedBytes n) :
    (∀ i, addrBit (new addr) i = (decide (i < len) && addrBit addr i)) ↔
      ∀ i, min len (keptBits len) ≤ i → i < max len (keptBits len) → addrBit addr i = false
  /-- Addresses with the same first `len` bits have one key if no more bits are kept. -/
  key_iff :
    (∀ a b : FixedBytes n, (∀ i < len, addrBit a i = addrBit b i) → new a = new b) ↔
      len % 8 = 0 ∨ 4 ≤ len % 8
  idempotent (addr : FixedBytes n) : new (new addr) = new addr

theorem masks_maskInPlace {len : UInt8} (hlen : len.toNat ≤ 8 * n) :
    Masks (n := n) (maskInPlace · len) len.toNat where
  bits_iff addr := by
    simp only [addrBit_maskInPlace]
    refine forall_congr' fun i => ?_
    cases addrBit addr i with
    | false => simp
    | true =>
      simp only [Bool.and_true, decide_eq_decide, reduceCtorEq, imp_false]
      omega
  key_iff := by
    constructor
    · intro h
      by_contra hrem
      -- a mask that keeps `len` bits of the address with all bits set
      let len' := UInt8.ofNat (8 * (len.toNat / 8) + (8 - len.toNat % 8))
      have hlen' : keptBits len'.toNat = len.toNat := by
        have := len.toNat_lt
        rw [UInt8.toNat_ofNat_of_lt' (show _ < 256 by omega), keptBits, if_neg (by omega)]
        omega
      have hkept : len.toNat < keptBits len.toNat := by
        rw [keptBits, if_neg (by omega)]
        omega
      have hones : addrBit (FixedBytes.replicate n 255) len.toNat = true := by
        rw [addrBit, FixedBytes.replicate, getD_replicate _ (by omega)]
        have hall : ∀ k < 8, (255 : UInt8).toNat.testBit k = true := by decide
        exact hall _ (by omega)
      have hkey := h (FixedBytes.replicate n 255) (maskInPlace (FixedBytes.replicate n 255) len')
        fun i hi => by rw [addrBit_maskInPlace, hlen', decide_eq_true hi, Bool.true_and]
      have hbit := congrArg (addrBit · len.toNat) hkey
      simp [addrBit_maskInPlace, hlen', hkept, hones] at hbit
    · intro hrem a b hab
      refine eq_of_addrBit fun i => ?_
      rw [addrBit_maskInPlace, addrBit_maskInPlace]
      by_cases hi : i < keptBits len.toNat
      · rw [hab i (by unfold keptBits at hi; split_ifs at hi <;> omega)]
      · rw [decide_eq_false hi, Bool.false_and, Bool.false_and]
  idempotent addr := by
    refine eq_of_addrBit fun i => ?_
    rw [addrBit_maskInPlace, addrBit_maskInPlace, ← Bool.and_assoc, Bool.and_self]

/-- **Masking a prefix.** -/
theorem prefix_masks (len : UInt8) :
    (len.toNat ≤ 32 → Masks (fun addr => (Ipv4Prefix.new addr len).addr) len.toNat) ∧
      (len.toNat ≤ 128 → Masks (fun addr => (Ipv6Prefix.new addr len).addr) len.toNat) :=
  ⟨fun h => masks_maskInPlace h, fun h => masks_maskInPlace h⟩

/-- A host bit of `10.0.32.0/18` is kept, and it is another prefix than `10.0.0.0/18`. -/
theorem host_bit_kept :
    let a : FixedBytes 4 := ⟨[10, 0, 0x20, 0], rfl⟩
    let b : FixedBytes 4 := ⟨[10, 0, 0, 0], rfl⟩
    (∀ i < 18, addrBit a i = addrBit b i) ∧ addrBit (Ipv4Prefix.new a 18).addr 18 = true ∧
      Ipv4Prefix.new a 18 ≠ Ipv4Prefix.new b 18 := by
  decide +kernel

end TptRfc.Bgp
