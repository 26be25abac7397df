import TptRfc.HttpCache.Revalidate

/-!
# HTTP caching: the age of a response

RFC 9111, section 4.2.3, corrects the age that a response had when it arrived by the time that it
has been stored since then.
-/

namespace TptRfc.HttpCache

open Lib

variable {F : Type} [CommRing F] [LinearOrder F] [IsStrictOrderedRing F]

/-- The arithmetic is exact, and a nanosecond is `nano`. -/
structure F64.Exact (f : F64 F) (nano : F) : Prop where
  nano_pos : 0 < nano
  zero : f.zero = 0
  ofDuration : ∀ n, f.ofDuration n = n * nano
  add : ∀ a c, f.add a c = a + c
  max : ∀ a c, f.max a c = Max.max a c
  le : ∀ a c, f.le a c = decide (a ≤ c)

theorem max_max_zero_eq_iff {a x y : F} (h : y ≤ x) :
    max a (max 0 x) = max a (max 0 y) ↔ x = y ∨ x ≤ 0 ∨ x ≤ a := by
  grind

theorem max_toNat_mul {nano : F} (hnano : 0 < nano) (k : ℤ) :
    max ((k.toNat : F) * nano) 0 = max 0 ((k : F) * nano) := by
  rw [max_comm]
  obtain hk | hk := le_total 0 k
  · rw [← Int.cast_natCast, Int.toNat_of_nonneg hk]
  · have hneg : (k : F) * nano ≤ 0 :=
      mul_nonpos_of_nonpos_of_nonneg (by exact_mod_cast hk) hnano.le
    rw [Int.toNat_of_nonpos hk, Nat.cast_zero, zero_mul, max_self, max_eq_left hneg]

namespace CachePolicy

variable {f : F64 F} {nano : F}

/-- The time from `t'` to `t`. -/
def elapsed (nano : F) (t t' : ℤ) : F := ((t - t' : ℤ) : F) * nano

/-- The current age of RFC 9111, section 4.2.3. -/
def rfcAge (f : F64 F) (nano : F) (p : CachePolicy F) (wall : ℤ) : F :=
  max (p.ageValue f) (max 0 (elapsed nano p.responseTime p.responseDate)) +
    elapsed nano (p.now wall) p.responseTime

theorem age_eq (hf : f.Exact nano) {p : CachePolicy F} {wall : ℤ}
    (hlater : p.responseTime ≤ p.now wall) :
    p.age f wall = max (p.ageValue f) (max 0 (elapsed nano (p.now wall) p.responseDate)) +
      elapsed nano (p.now wall) p.responseTime := by
  have hresident : 0 ≤ elapsed nano (p.now wall) p.responseTime :=
    mul_nonneg (by exact_mod_cast sub_nonneg.mpr hlater) hf.nano_pos.le
  simp only [age, durationSince, hf.add, hf.max, hf.zero, hf.ofDuration, max_toNat_mul hf.nano_pos]
  rw [← elapsed, ← elapsed, max_eq_right hresident]

theorem elapsed_le_zero_iff (hnano : 0 < nano) {t t' : ℤ} : elapsed nano t t' ≤ 0 ↔ t ≤ t' := by
  have hzero : elapsed nano t t' ≤ 0 * nano ↔ ((t - t' : ℤ) : F) ≤ 0 :=
    mul_le_mul_iff_of_pos_right hnano
  rw [← zero_mul nano, hzero, Int.cast_nonpos, sub_nonpos]

/-- **The age is that of RFC 9111** exactly if no time has passed since the response arrived, or its
date is not past, or its `Age` is no less than the time since its date. -/
theorem age_eq_rfcAge_iff (hf : f.Exact nano) (p : CachePolicy F) {wall : ℤ}
    (hlater : p.responseTime ≤ p.now wall) :
    (p.age f wall = p.rfcAge f nano wall ↔ p.now wall = p.responseTime ∨
      p.now wall ≤ p.responseDate ∨ elapsed nano (p.now wall) p.responseDate ≤ p.ageValue f) ∧
    (p.ageValue f = 0 → p.responseDate = p.responseTime →
      (p.stale f wall ↔ p.maxAge f ≤ 2 * elapsed nano (p.now wall) p.responseTime)) := by
  have hnano := hf.nano_pos
  rw [stale, age_eq hf hlater, hf.le]
  constructor
  · have hle : elapsed nano p.responseTime p.responseDate ≤
        elapsed nano (p.now wall) p.responseDate :=
      mul_le_mul_of_nonneg_right (by exact_mod_cast sub_le_sub_right hlater _) hnano.le
    have heq : elapsed nano (p.now wall) p.responseDate =
        elapsed nano p.responseTime p.responseDate ↔ p.now wall = p.responseTime := by
      rw [elapsed, elapsed, mul_left_inj' hnano.ne', Int.cast_inj, sub_left_inj]
    rw [rfcAge, add_left_inj, max_max_zero_eq_iff hle, heq, elapsed_le_zero_iff hnano]
  · intro hage hdate
    have hresident : 0 ≤ elapsed nano (p.now wall) p.responseTime :=
      mul_nonneg (by exact_mod_cast sub_nonneg.mpr hlater) hnano.le
    rw [hage, hdate, max_eq_right hresident, max_eq_right hresident, ← two_mul]
    exact decide_eq_true_iff

theorem exact_nanoseconds : nanoseconds.Exact 1 :=
  ⟨one_pos, rfl, fun n => (mul_one (n : ℤ)).symm, fun _ _ => rfl, fun _ _ => rfl, fun _ _ => rfl⟩

/-- A response that was dated at the epoch and arrived then, to be fresh for a minute. -/
def datedOnArrival : CachePolicy ℤ :=
  newWithOptions (getWith []) (okWith [("cache-control", "max-age=60"),
    ("date", "Thu, 01 Jan 1970 00:00:00 GMT")]) { frozen with now := none } 0

theorem age_eq_rfcAge_iff_on_arrival :
    datedOnArrival.age nanoseconds 0 = datedOnArrival.rfcAge nanoseconds 1 0 :=
  (age_eq_rfcAge_iff exact_nanoseconds datedOnArrival (by decide +kernel)).1.mpr (.inl rfl)

/-- After thirty seconds it is sixty seconds old, and stale. -/
theorem age_counted_twice : datedOnArrival.age nanoseconds (30 * 10 ^ 9) = 60 * 10 ^ 9 ∧
      datedOnArrival.rfcAge nanoseconds 1 (30 * 10 ^ 9) = 30 * 10 ^ 9 ∧
      datedOnArrival.stale nanoseconds (30 * 10 ^ 9) :=
  ⟨by decide +kernel, by decide +kernel, by decide +kernel⟩

end CachePolicy

end TptRfc.HttpCache
