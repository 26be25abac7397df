import TptRfc.Lib.Bytes
import TptRfc.Lib.Exec

/-!
# Checked access to byte strings

An index or a range that is not in the string is a panic, and so is a negative difference in a build
with overflow checks.
-/

namespace TptRfc.Lib.Access

open List

variable {ε α β : Type}

/-! ## Sequences of steps -/

theorem bind_eq_ok_iff {x : Except ε α} {f : α → Except ε β} {b : β} :
    x >>= f = .ok b ↔ ∃ a, x = .ok a ∧ f a = .ok b := by
  cases x <;> simp [bind, Except.bind]

theorem bind_eq_error_iff {x : Except ε α} {f : α → Except ε β} {e : ε} :
    x >>= f = .error e ↔ x = .error e ∨ ∃ a, x = .ok a ∧ f a = .error e := by
  cases x <;> simp [bind, Except.bind]

theorem bind_ne_error {x : Except ε α} {f : α → Except ε β} {e : ε} (hx : x ≠ .error e)
    (hf : ∀ a, x = .ok a → f a ≠ .error e) : x >>= f ≠ .error e := by
  rw [Ne, bind_eq_error_iff]
  rintro (h | ⟨a, ha, h⟩)
  · exact hx h
  · exact hf a ha h

theorem map_eq_ok {x : Except ε α} {f : α → β} {b : β} (h : x.map f = .ok b) :
    ∃ a, x = .ok a ∧ f a = b := by
  cases x with
  | error e => cases h
  | ok a => exact ⟨a, rfl, Except.ok.inj h⟩

theorem ok_bind (a : α) (f : α → Except ε β) : (Except.ok a >>= f) = f a := rfl

/-! ## Steps -/

def byteAt (buf : Bytes) (i : ℕ) : Except (Fault ε) UInt8 :=
  if i < buf.length then .ok (buf.getD i 0) else .error .panic

def u16At (buf : Bytes) (i : ℕ) : Except (Fault ε) UInt16 := do
  let a ← byteAt buf i
  let b ← byteAt buf (i + 1)
  pure (UInt16.ofNat (beNat [a, b]))

def slice (buf : Bytes) (start stop : ℕ) : Except (Fault ε) Bytes :=
  if start ≤ stop ∧ stop ≤ buf.length then .ok ((buf.drop start).take (stop - start))
  else .error .panic

def subUsize (checks : Bool) (a b : ℕ) : Except (Fault ε) ℕ :=
  if b ≤ a then .ok (a - b) else if checks then .error .panic else .ok (a + 2 ^ 64 - b)

/-! ## Reading without a check -/

def getU16 (buf : Bytes) (i : ℕ) : UInt16 := UInt16.ofNat (beNat [buf.getD i 0, buf.getD (i + 1) 0])

variable {buf rest : Bytes} {i : ℕ}

theorem byteAt_of_lt (h : i < buf.length) :
    (byteAt buf i : Except (Fault ε) UInt8) = .ok (buf.getD i 0) := if_pos h

theorem u16At_of_lt (h : i + 1 < buf.length) :
    (u16At buf i : Except (Fault ε) UInt16) = .ok (getU16 buf i) := by
  rw [u16At, byteAt_of_lt (by omega), ok_bind, byteAt_of_lt h]
  rfl

theorem u16At_of_le (h : buf.length ≤ i + 1) :
    (u16At buf i : Except (Fault ε) UInt16) = .error .panic := by
  by_cases hi : i < buf.length
  · rw [u16At, byteAt_of_lt hi, ok_bind, byteAt, if_neg (by omega)]
    rfl
  · rw [u16At, byteAt, if_neg hi]
    rfl

theorem u16At_eq_ok {v : UInt16} (h : (u16At buf i : Except (Fault ε) UInt16) = .ok v) :
    i + 1 < buf.length ∧ v = getU16 buf i := by
  by_cases hi : i + 1 < buf.length
  · rw [u16At_of_lt hi] at h
    cases h
    exact ⟨hi, rfl⟩
  · rw [u16At_of_le (Nat.not_lt.mp hi)] at h
    cases h

theorem slice_of_le {start stop : ℕ} (h : start ≤ stop) (h' : stop ≤ buf.length) :
    (slice buf start stop : Except (Fault ε) Bytes) =
      .ok ((buf.drop start).take (stop - start)) := if_pos ⟨h, h'⟩

theorem slice_of_lt {start stop : ℕ} (h : buf.length < stop) :
    (slice buf start stop : Except (Fault ε) Bytes) = .error .panic := if_neg (by omega)

theorem slice_mid (pre mid rest : Bytes) :
    (slice (pre ++ (mid ++ rest)) pre.length (pre.length + mid.length) :
      Except (Fault ε) Bytes) = .ok mid := by
  rw [slice_of_le (by omega) (by simp only [length_append]; omega), drop_left,
    Nat.add_sub_cancel_left, take_left]

theorem slice_eq {mid : Bytes} {j : ℕ} (pre : Bytes) (h : buf = pre ++ (mid ++ rest))
    (hi : pre.length = i) (hj : i + mid.length = j) :
    (slice buf i j : Except (Fault ε) Bytes) = .ok mid := by
  rw [h, ← hj, ← hi, slice_mid]

theorem byteAt_eq {b : UInt8} (pre : Bytes) (h : buf = pre ++ b :: rest) (hi : pre.length = i) :
    (byteAt buf i : Except (Fault ε) UInt8) = .ok b := by
  subst h hi
  rw [byteAt_of_lt (by simp), getD_append_right _ _ _ _ le_rfl, Nat.sub_self]
  rfl

theorem getD_append {pre : Bytes} : (pre ++ rest).getD (pre.length + i) 0 = rest.getD i 0 := by
  rw [getD_append_right _ _ _ _ (by omega), Nat.add_sub_cancel_left]

theorem getU16_append {pre : Bytes} : getU16 (pre ++ rest) (pre.length + i) = getU16 rest i := by
  rw [getU16, getU16, getD_append, Nat.add_assoc, getD_append]

theorem getU16_take {k : ℕ} (h : i + 1 < k) : getU16 (buf.take k) i = getU16 buf i := by
  rw [getU16, getU16, getD_eq_getElem?_getD, getD_eq_getElem?_getD,
    getElem?_take_of_lt (by omega), getElem?_take_of_lt h, ← getD_eq_getElem?_getD,
    ← getD_eq_getElem?_getD]

end TptRfc.Lib.Access
