import TptRfc.Cbor.Value

/-!
# CBOR: the encoder

`encode_value_to_vec`, with and without canonical ordering of maps.  A panic is `none`: with
overflow checks on, `-i - 1` overflows at `i128::MIN`.
-/

namespace TptRfc.Cbor

open Lib List Option

def writeTypeNumber (major : UInt8) (value : UInt64) : Bytes :=
  let majorBits := major <<< 5
  if value < 24 then [majorBits ||| value.toUInt8]
  else if value < 0x100 then [majorBits ||| 24, value.toUInt8]
  else if value < 0x10000 then (majorBits ||| 25) :: u16Bytes value.toUInt16
  else if value < 0x100000000 then (majorBits ||| 26) :: u32Bytes value.toUInt32
  else (majorBits ||| 27) :: beBytes 8 value.toNat

/-! ## Integers -/

def trimBe (bytes : Bytes) : Option Bytes :=
  let firstNonzero := bytes.findIdx fun b => b != 0
  let keep := max (bytes.length - firstNonzero) 1
  if keep ≤ bytes.length then some (bytes.drop (bytes.length - keep)) else none

def encodeBignum (tag : UInt64) (magnitude : I128) : Option Bytes := do
  let bytes ← trimBe magnitude.toBeBytes
  pure (writeTypeNumber 6 tag ++ (writeTypeNumber 2 (UInt64.ofNat bytes.length) ++ bytes))

def negSubOne (checks : Bool) (i : I128) : Option I128 := do
  let n ← I128.arith checks (-i.val)
  I128.arith checks (n.val - 1)

def encodeInteger (checks : Bool) (i : I128) : Option Bytes :=
  if 0 ≤ i.val then
    match i.toU64 with
    | some u => some (writeTypeNumber 0 u)
    | none => encodeBignum 2 i
  else do
    let m ← negSubOne checks i
    match m.toU64 with
    | some n => some (writeTypeNumber 1 n)
    | none => do
      let m ← negSubOne checks i
      encodeBignum 3 m

/-! ## Floats -/

def addU16 (checks : Bool) (a b : UInt16) : Option UInt16 :=
  if checks && decide (2 ^ 16 ≤ a.toNat + b.toNat) then none else some (a + b)

def subU64 (checks : Bool) (a b : UInt64) : Option UInt64 :=
  if checks && decide (a < b) then none else some (a - b)

def shlU64 (checks : Bool) (a : UInt64) (s : ℤ) : Option UInt64 :=
  if checks && !decide (0 ≤ s ∧ s < 64) then none else some (a <<< UInt64.ofNat (s % 64).toNat)

def shrU64 (checks : Bool) (a : UInt64) (s : ℤ) : Option UInt64 :=
  if checks && !decide (0 ≤ s ∧ s < 64) then none else some (a >>> UInt64.ofNat (s % 64).toNat)

def roundsUp (rem half : UInt64) (h : UInt16) : Bool :=
  rem != 0 && (decide (half < rem) || (rem == half && h &&& 1 == 1))

def normalF16 (checks : Bool) (sign : UInt16) (m : UInt64) (e : ℤ) : Option UInt16 := do
  let hmant := (m >>> 42) &&& 0x3ff
  let rem := m &&& (((1 : UInt64) <<< 42) - 1)
  let h := (UInt16.ofNat e.toNat <<< 10) ||| hmant.toUInt16
  let h ← if roundsUp rem ((1 : UInt64) <<< 41) h then addU16 checks h 1 else some h
  pure (sign ||| h)

def subnormalF16 (checks : Bool) (sign : UInt16) (m : UInt64) (shift : ℤ) : Option UInt16 := do
  let s ← shrU64 checks m shift
  let one ← shlU64 checks 1 shift
  let mask ← subU64 checks one 1
  let half ← shlU64 checks 1 (shift - 1)
  let sub := s.toUInt16
  let sub ← if roundsUp (m &&& mask) half sub then addU16 checks sub 1 else some sub
  if sub > 0x3ff then pure (sign ||| 0x0400) else pure (sign ||| sub)

def f64ToF16 (checks : Bool) (f : F64) : Option UInt16 :=
  let sign := ((f.bits >>> 48) &&& 0x8000).toUInt16
  let exp := ((f.bits >>> 52) &&& 0x7ff).toNat
  let mant := f.bits &&& 0x000fffffffffffff
  if exp = 0x7ff then some (sign ||| 0x7c00)
  else
    let m := ((1 : UInt64) <<< 52) ||| mant
    let e : ℤ := exp - 1008
    if 0x1f ≤ e then some (sign ||| 0x7c00)
    else if 1 ≤ e then normalF16 checks sign m e
    else
      let shift : ℤ := 1051 - exp
      if 64 ≤ shift then some sign else subnormalF16 checks sign m shift

def f16ToF64 (h : UInt16) : F64 :=
  let sign := (h >>> 15) &&& 0x1
  let exp := (h >>> 10) &&& 0x1f
  let mant := h &&& 0x3ff
  if exp = 0 then
    if mant = 0 then if sign = 1 then ⟨0x8000000000000000⟩ else ⟨0⟩
    else
      let m := F64.ofU16 mant
      let e := F64.powi2 (-14 - 10)
      if sign = 1 then m.neg.mul e else m.mul e
  else if exp = 0x1f then
    if mant = 0 then if sign = 1 then ⟨0xfff0000000000000⟩ else ⟨0x7ff0000000000000⟩
    else ⟨0x7ff8000000000000⟩
  else
    let m := (F64.ofU16 1).add ((F64.ofU16 mant).div (F64.ofU16 1024))
    let e := F64.powi2 (exp.toNat - 15)
    let val := m.mul e
    if sign = 1 then val.neg else val

def encodeFloat (checks : Bool) (f : F64) : Option Bytes :=
  if f.isNan then some [0xf9, 0x7e, 0x00]
  else do
    let half ← f64ToF16 checks f
    if (f16ToF64 half).eq f then pure (0xf9 :: u16Bytes half)
    else if (F64.ofF32 f.toF32).eq f then pure (0xfa :: u32Bytes f.toF32)
    else pure (0xfb :: beBytes 8 f.bits.toNat)

/-! ## Values -/

def encodeSimple (s : UInt8) : Bytes := if s ≤ 23 then [0xe0 ||| s] else [0xf8, s]

def utf8 (t : String) : Bytes := t.toUTF8.data.toList

def keyCmp (ea eb : Bytes) : Ordering :=
  match compare ea.length eb.length with
  | .eq => compare ea eb
  | other => other

abbrev EntryLe (a b : Bytes × Bytes) : Prop := (keyCmp a.1 b.1).isLE

mutual

def encodeValue (checks canonical : Bool) : Value → Option Bytes
  | .integer i => encodeInteger checks i
  | .float f => encodeFloat checks f
  | .bool b => some [if b then 0xf5 else 0xf4]
  | .null => some [0xf6]
  | .undefined => some [0xf7]
  | .simple s => some (encodeSimple s)
  | .bytes b => some (writeTypeNumber 2 (UInt64.ofNat b.length) ++ b)
  | .text t => some (writeTypeNumber 3 (UInt64.ofNat (utf8 t).length) ++ utf8 t)
  | .array items => do
    let encodings ← encodeItems checks canonical items
    pure (writeTypeNumber 4 (UInt64.ofNat items.length) ++ encodings.flatten)
  | .map pairs => do
    let entries ← encodePairs checks canonical pairs
    -- `sort_by` is stable, and so is insertion sort
    let sorted := if canonical then entries.insertionSort EntryLe else entries
    pure (writeTypeNumber 5 (UInt64.ofNat pairs.length) ++ (sorted.map Prod.snd).flatten)
  | .tag number inner => do
    let encoded ← encodeValue checks canonical inner
    pure (writeTypeNumber 6 number ++ encoded)

def encodeItems (checks canonical : Bool) : List Value → Option (List Bytes)
  | [] => some []
  | v :: items => do
    let encoded ← encodeValue checks canonical v
    let rest ← encodeItems checks canonical items
    pure (encoded :: rest)

def encodePairs (checks canonical : Bool) : List (Value × Value) → Option (List (Bytes × Bytes))
  | [] => some []
  | (k, v) :: pairs => do
    let sortKey ← encodeValue checks false k
    let key ← encodeValue checks canonical k
    let val ← encodeValue checks canonical v
    let rest ← encodePairs checks canonical pairs
    pure ((sortKey, key ++ val) :: rest)

end

/-! ## What a head is made of -/

def additional (value : UInt64) : UInt8 :=
  if value < 24 then value.toUInt8
  else if value < 0x100 then 24
  else if value < 0x10000 then 25
  else if value < 0x100000000 then 26
  else 27

def follow (value : UInt64) : Bytes :=
  if value < 24 then []
  else if value < 0x100 then [value.toUInt8]
  else if value < 0x10000 then u16Bytes value.toUInt16
  else if value < 0x100000000 then u32Bytes value.toUInt32
  else beBytes 8 value.toNat

theorem writeTypeNumber_eq (major : UInt8) (value : UInt64) :
    writeTypeNumber major value = ((major <<< 5) ||| additional value) :: follow value := by
  unfold writeTypeNumber additional follow
  split_ifs <;> rfl

/-! ## Bignums -/

def minimalBe (n : ℕ) : Bytes := (beBytes 16 n).dropWhile fun b => b == 0

theorem beNat_dropWhile (bytes : Bytes) :
    beNat (bytes.dropWhile fun b => b == 0) = beNat bytes := by
  induction bytes with
  | nil => rfl
  | cons b bytes ih =>
    by_cases hb : b = 0
    · simp [hb, ih, beNat]
    · simp [hb]

variable {n : ℕ} {checks canonical : Bool} {v : Value}

theorem beNat_minimalBe (h : n < 2 ^ 128) : beNat (minimalBe n) = n := by
  rw [minimalBe, beNat_dropWhile, beNat_beBytes_of_lt (by omega)]

theorem length_minimalBe_le (n : ℕ) : (minimalBe n).length ≤ 16 :=
  (length_dropWhile_le _ _).trans (length_beBytes 16 n).le

theorem lt_length_minimalBe (h : n < 2 ^ 128) (hbig : 2 ^ 64 ≤ n) : 8 < (minimalBe n).length := by
  by_contra hlen
  have hlt := beNat_lt (minimalBe n)
  rw [beNat_minimalBe h] at hlt
  have hpow : 256 ^ (minimalBe n).length ≤ 256 ^ 8 := Nat.pow_le_pow_right (by omega) (by omega)
  omega

variable {bytes : Bytes} {i : I128} {s : ℤ} {items : List Value} {pairs : List (Value × Value)}

theorem minimalBe_beNat (hlen : bytes.length ≤ 16) (hhead : bytes.head? ≠ some 0) :
    minimalBe (beNat bytes) = bytes := by
  have hpad : beBytes 16 (beNat bytes) = List.replicate (16 - bytes.length) 0 ++ bytes := by
    rw [← beNat_replicate_append (16 - bytes.length) bytes]
    convert beBytes_beNat (List.replicate (16 - bytes.length) 0 ++ bytes) using 2
    simp only [length_append, length_replicate]
    omega
  rw [minimalBe, hpad, dropWhile_append_of_pos (by simp)]
  cases bytes with
  | nil => rfl
  | cons b bytes => simp_all

theorem trimBe_eq (h : bytes.dropWhile (fun b => b == 0) ≠ []) :
    trimBe bytes = some (bytes.dropWhile fun b => b == 0) := by
  have hdrop : bytes.dropWhile (fun b => b == 0) = bytes.drop (bytes.findIdx fun b => b != 0) :=
    dropWhile_eq_drop_findIdx_not
  have hlt : bytes.findIdx (fun b => b != 0) < bytes.length := by
    by_contra hge
    exact h (by rw [hdrop, drop_eq_nil_iff]; omega)
  rw [trimBe, if_pos (by omega), hdrop]
  congr 2
  omega

theorem encodeBignum_eq (tag : UInt64) {m : I128} (hm : m.val = n) (hpos : 0 < n) :
    encodeBignum tag m = some (writeTypeNumber 6 tag ++
      (writeTypeNumber 2 (UInt64.ofNat (minimalBe n).length) ++ minimalBe n)) := by
  have hlt : n < 2 ^ 127 := by
    have := m.property.2
    omega
  have hbytes : m.toBeBytes = beBytes 16 n := by
    rw [I128.toBeBytes, hm]
    congr 1
    omega
  have hne : minimalBe n ≠ [] := by
    intro h
    have := beNat_minimalBe (n := n) (by omega)
    rw [h] at this
    simp [beNat] at this
    omega
  rw [encodeBignum, hbytes, trimBe_eq hne]
  rfl

/-! ## Integers -/

namespace I128

def magnitude (i : I128) : ℕ := (if 0 ≤ i.val then i.val else -1 - i.val).toNat

theorem magnitude_lt (i : I128) : i.magnitude < 2 ^ 127 := by
  have := i.property.1
  have := i.property.2
  unfold magnitude
  split <;> omega

def encoding (i : I128) : Bytes :=
  let n := i.magnitude
  if n < 2 ^ 64 then writeTypeNumber (if 0 ≤ i.val then 0 else 1) (UInt64.ofNat n)
  else writeTypeNumber 6 (if 0 ≤ i.val then 2 else 3) ++
    (writeTypeNumber 2 (UInt64.ofNat (minimalBe n).length) ++ minimalBe n)

theorem toU64_eq {i : I128} {n : ℕ} (h : i.val = n) :
    i.toU64 = if n < 2 ^ 64 then some (UInt64.ofNat n) else none := by
  unfold toU64
  rw [h]
  by_cases hn : n < 2 ^ 64
  · rw [if_pos hn, if_pos ⟨by omega, by omega⟩]
    rfl
  · rw [if_neg hn, if_neg (by omega)]

end I128

theorem negSubOne_eq (hneg : i.val < 0) (h : checks = true → i ≠ I128.min) :
    ∃ m : I128, negSubOne checks i = some m ∧ m.val = i.magnitude := by
  have hmag : (i.magnitude : ℤ) = -1 - i.val := by
    rw [I128.magnitude, if_neg (by omega), Int.toNat_of_nonneg (by omega)]
  have hlow := i.property.1
  by_cases hmin : i = I128.min
  · subst hmin
    cases checks with
    | true => exact absurd rfl (h rfl)
    | false => exact ⟨⟨2 ^ 127 - 1, by decide⟩, by decide, by decide⟩
  · have hne : i.val ≠ -2 ^ 127 := fun hval => hmin (Subtype.ext hval)
    have hfirst : InI128 (-i.val) := ⟨by omega, by omega⟩
    have hsecond : InI128 (-i.val - 1) := ⟨by omega, by omega⟩
    refine ⟨⟨-i.val - 1, hsecond⟩, ?_, by rw [hmag]; simp only; omega⟩
    rw [negSubOne, I128.arith_of_mem hfirst]
    exact I128.arith_of_mem hsecond

theorem encodeInteger_eq (h : checks = true → i ≠ I128.min) :
    encodeInteger checks i = some i.encoding := by
  unfold encodeInteger I128.encoding
  by_cases hpos : 0 ≤ i.val
  · have hval : i.val = i.magnitude := by
      rw [I128.magnitude, if_pos hpos, Int.toNat_of_nonneg hpos]
    rw [if_pos hpos, I128.toU64_eq hval]
    simp only [if_pos hpos]
    split_ifs with hsmall
    · rfl
    · exact encodeBignum_eq 2 hval (by omega)
  · obtain ⟨m, hm, hval⟩ := negSubOne_eq (by omega) h
    rw [if_neg hpos, hm]
    simp only [bind_eq_bind, bind_some, I128.toU64_eq hval, if_neg hpos]
    split_ifs with hsmall
    · rfl
    · exact encodeBignum_eq 3 hval (by omega)

/-! ## Floats -/

theorem addU16_one {h : UInt16} (hlt : h.toNat < 2 ^ 15) (checks : Bool) :
    addU16 checks h 1 = some (h + 1) := by
  have hsum : ¬ 2 ^ 16 ≤ h.toNat + (1 : UInt16).toNat := by
    rw [UInt16.toNat_one]
    omega
  rw [addU16, decide_eq_false hsum, Bool.and_false, if_neg Bool.false_ne_true]

theorem normalF16_eq (sign : UInt16) (m : UInt64) {e : ℤ} (he : e < 0x1f) :
    ∃ h, ∀ checks, normalF16 checks sign m e = some h := by
  have hlt : ((UInt16.ofNat e.toNat <<< 10) ||| ((m >>> 42) &&& 0x3ff).toUInt16).toNat <
      2 ^ 15 := by
    rw [UInt16.toNat_or]
    refine Nat.or_lt_two_pow ?_ ?_
    · have : e.toNat < 2 ^ 5 := by omega
      rw [UInt16.toNat_shiftLeft, UInt16.toNat_ofNat', Nat.shiftLeft_eq]
      simp only [UInt16.reduceToNat, Nat.reduceMod, Nat.reducePow]
      omega
    · rw [UInt64.toNat_toUInt16, UInt64.toNat_and]
      have : (m >>> 42).toNat &&& (0x3ff : UInt64).toNat ≤ 0x3ff := Nat.and_le_right
      omega
  unfold normalF16
  by_cases hup : roundsUp (m &&& (((1 : UInt64) <<< 42) - 1)) ((1 : UInt64) <<< 41)
      ((UInt16.ofNat e.toNat <<< 10) ||| ((m >>> 42) &&& 0x3ff).toUInt16) = true
  · exact ⟨_, fun checks => by simp only [hup, addU16_one hlt]; rfl⟩
  · exact ⟨_, fun checks => by simp only [hup]; rfl⟩

theorem shlU64_eq (checks : Bool) (a : UInt64) (h : 0 ≤ s ∧ s < 64) :
    shlU64 checks a s = some (a <<< UInt64.ofNat s.toNat) := by
  rw [shlU64, decide_eq_true h, Int.emod_eq_of_lt h.1 h.2, Bool.not_true, Bool.and_false,
    if_neg Bool.false_ne_true]

theorem shrU64_eq (checks : Bool) (a : UInt64) (h : 0 ≤ s ∧ s < 64) :
    shrU64 checks a s = some (a >>> UInt64.ofNat s.toNat) := by
  rw [shrU64, decide_eq_true h, Int.emod_eq_of_lt h.1 h.2, Bool.not_true, Bool.and_false,
    if_neg Bool.false_ne_true]

theorem subU64_eq (checks : Bool) {a b : UInt64} (h : ¬ a < b) :
    subU64 checks a b = some (a - b) := by
  rw [subU64, decide_eq_false h, Bool.and_false, if_neg Bool.false_ne_true]

theorem subnormalF16_eq (sign : UInt16) {m : UInt64} {shift : ℤ} (hm : m.toNat < 2 ^ 53)
    (hshift : 43 ≤ shift ∧ shift < 64) :
    ∃ h, ∀ checks, subnormalF16 checks sign m shift = some h := by
  obtain ⟨k, rfl⟩ : ∃ k : ℕ, shift = k := ⟨shift.toNat, by omega⟩
  have hk : 43 ≤ k ∧ k < 64 := by omega
  have hmod : k % 2 ^ 64 % 64 = k := by omega
  have hone : ¬ (1 : UInt64) <<< UInt64.ofNat k < 1 := by
    have hpow : 2 ^ k < 2 ^ 64 := Nat.pow_lt_pow_right (by omega) hk.2
    have hpos : 0 < 2 ^ k := Nat.two_pow_pos k
    rw [UInt64.lt_iff_toNat_lt, UInt64.toNat_shiftLeft, UInt64.toNat_ofNat', hmod,
      Nat.shiftLeft_eq, UInt64.toNat_one, one_mul, Nat.mod_eq_of_lt hpow]
    omega
  have hsub : (m >>> UInt64.ofNat k).toUInt16.toNat < 2 ^ 15 := by
    have hdiv : m.toNat / 2 ^ k ≤ m.toNat / 2 ^ 43 :=
      Nat.div_le_div_left (Nat.pow_le_pow_right (by omega) hk.1) (by decide)
    rw [UInt64.toNat_toUInt16, UInt64.toNat_shiftRight, UInt64.toNat_ofNat', hmod,
      Nat.shiftRight_eq_div_pow]
    generalize m.toNat / 2 ^ k = q at hdiv ⊢
    omega
  have hbounds : 0 ≤ (k : ℤ) ∧ (k : ℤ) < 64 := by omega
  have hbounds' : 0 ≤ (k : ℤ) - 1 ∧ (k : ℤ) - 1 < 64 := by omega
  unfold subnormalF16
  simp only [shrU64_eq _ _ hbounds, shlU64_eq _ _ hbounds, shlU64_eq _ _ hbounds',
    Int.toNat_natCast, subU64_eq _ hone, bind_eq_bind, bind_some,
    addU16_one hsub]
  split_ifs <;> exact ⟨_, fun _ => rfl⟩

theorem f64ToF16_eq (f : F64) : ∃ h, ∀ checks, f64ToF16 checks f = some h := by
  have hm : (((1 : UInt64) <<< 52) ||| (f.bits &&& 0x000fffffffffffff)).toNat < 2 ^ 53 := by
    rw [UInt64.toNat_or, UInt64.toNat_and]
    refine Nat.or_lt_two_pow (by decide) ?_
    have : f.bits.toNat &&& (0x000fffffffffffff : UInt64).toNat ≤ 0x000fffffffffffff :=
      Nat.and_le_right
    omega
  unfold f64ToF16
  simp only
  split_ifs with _ hinf hnormal hzero
  · exact ⟨_, fun _ => rfl⟩
  · exact ⟨_, fun _ => rfl⟩
  · exact normalF16_eq _ _ (by omega)
  · exact ⟨_, fun _ => rfl⟩
  · exact subnormalF16_eq _ hm (by omega)

theorem encodeFloat_eq (f : F64) : ∃ bytes, ∀ checks, encodeFloat checks f = some bytes := by
  obtain ⟨h, hh⟩ := f64ToF16_eq f
  unfold encodeFloat
  simp only [hh, bind_eq_bind, bind_some]
  split_ifs <;> exact ⟨_, fun _ => rfl⟩

/-! ## The bytes of a value -/

namespace Value

def encoding (canonical : Bool) (v : Value) : Bytes := (encodeValue false canonical v).getD []

end Value

open Value

section Lists

attribute [local simp] encodeValue encodeItems encodePairs

theorem encodeItems_of_forall {f : Value → Bytes}
    (h : ∀ v ∈ items, encodeValue checks canonical v = some (f v)) :
    encodeItems checks canonical items = some (items.map f) := by
  induction items with
  | nil => rfl
  | cons v items ih =>
    rw [forall_mem_cons] at h
    simp [h.1, ih h.2]

theorem encodePairs_of_forall {sortKey key val : Value × Value → Bytes}
    (h : ∀ e ∈ pairs, encodeValue checks false e.1 = some (sortKey e) ∧
      encodeValue checks canonical e.1 = some (key e) ∧
      encodeValue checks canonical e.2 = some (val e)) :
    encodePairs checks canonical pairs =
      some (pairs.map fun e => (sortKey e, key e ++ val e)) := by
  induction pairs with
  | nil => rfl
  | cons e pairs ih =>
    obtain ⟨k, v⟩ := e
    rw [forall_mem_cons] at h
    simp [h.1, ih h.2]

end Lists

theorem encodeValue_eq (h : checks = true → Everywhere NotMin v) :
    ∀ canonical, encodeValue checks canonical v = some (v.encoding canonical) := by
  -- the bytes are those of the build without checks, by induction on both builds at once
  have hboth : ∀ canonical, ∃ bytes, encodeValue checks canonical v = some bytes ∧
      encodeValue false canonical v = some bytes := by
    induction v with
    | integer i =>
      intro canonical
      have hmin : checks = true → i ≠ I128.min := fun hc he => by
        subst he
        exact (h hc).self rfl
      exact ⟨_, encodeInteger_eq hmin, encodeInteger_eq (by simp)⟩
    | float f =>
      intro canonical
      obtain ⟨bytes, hbytes⟩ := encodeFloat_eq f
      exact ⟨bytes, hbytes checks, hbytes false⟩
    | array items ih =>
      intro canonical
      have hitems : ∀ v ∈ items, checks = true → Everywhere NotMin v := fun v hv hc =>
        ((everywhere_array items).mp (h hc)).2 v hv
      choose! f hf using fun v hv => ih v hv (hitems v hv) canonical
      rw [encodeValue, encodeValue, encodeItems_of_forall fun v hv => (hf v hv).1,
        encodeItems_of_forall fun v hv => (hf v hv).2]
      exact ⟨_, rfl, rfl⟩
    | map pairs ih =>
      intro canonical
      have hpairs : ∀ e ∈ pairs, checks = true →
          Everywhere NotMin e.1 ∧ Everywhere NotMin e.2 := fun e he hc =>
        ((everywhere_map pairs).mp (h hc)).2 e he
      choose! key hkey using fun e he => (ih e he).1 fun hc => (hpairs e he hc).1
      choose! val hval using fun e he => (ih e he).2 fun hc => (hpairs e he hc).2
      rw [encodeValue, encodeValue,
        encodePairs_of_forall fun e he => ⟨(hkey e he false).1, (hkey e he canonical).1,
          (hval e he canonical).1⟩,
        encodePairs_of_forall fun e he => ⟨(hkey e he false).2, (hkey e he canonical).2,
          (hval e he canonical).2⟩]
      exact ⟨_, rfl, rfl⟩
    | tag number inner ih =>
      intro canonical
      obtain ⟨bytes, hchecked, hunchecked⟩ := ih (fun hc =>
        ((everywhere_tag number inner).mp (h hc)).2) canonical
      rw [encodeValue, encodeValue, hchecked, hunchecked]
      exact ⟨_, rfl, rfl⟩
    | _ =>
      intro canonical
      exact ⟨_, by rw [encodeValue], by rw [encodeValue]⟩
  intro canonical
  obtain ⟨bytes, hchecked, hunchecked⟩ := hboth canonical
  rw [hchecked, Value.encoding, hunchecked]
  rfl

theorem encodeItems_eq_none (hmem : v ∈ items) (h : encodeValue checks canonical v = none) :
    encodeItems checks canonical items = none := by
  induction items with
  | nil => cases hmem
  | cons w items ih =>
    rcases mem_cons.mp hmem with rfl | hmem
    · simp [encodeItems, h]
    · simp [encodeItems, ih hmem]

theorem encodePairs_eq_none {e : Value × Value} (hmem : e ∈ pairs)
    (h : encodeValue checks false e.1 = none ∨ encodeValue checks canonical e.2 = none) :
    encodePairs checks canonical pairs = none := by
  induction pairs with
  | nil => cases hmem
  | cons w pairs ih =>
    rcases mem_cons.mp hmem with rfl | hmem
    · rcases h with h | h <;> simp [encodePairs, h]
    · simp [encodePairs, ih hmem]

theorem encodeValue_of_occurs_min (h : Occurs (.integer I128.min) v) :
    ∀ canonical, encodeValue true canonical v = none := by
  induction h with
  | here => exact fun canonical => by rw [encodeValue]; decide
  | item hmem _ ih =>
    intro canonical
    rw [encodeValue, encodeItems_eq_none hmem (ih canonical)]
    rfl
  | key hmem _ ih =>
    intro canonical
    rw [encodeValue, encodePairs_eq_none hmem (.inl (ih false))]
    rfl
  | val hmem _ ih =>
    intro canonical
    rw [encodeValue, encodePairs_eq_none hmem (.inr (ih canonical))]
    rfl
  | inner _ ih =>
    intro canonical
    rw [encodeValue, ih canonical]
    rfl

theorem encodeValue_eq_none_iff : encodeValue checks canonical v = none ↔
      checks = true ∧ Occurs (.integer I128.min) v := by
  constructor
  · intro hnone
    by_contra hnot
    have hmin : checks = true → Everywhere NotMin v := fun hc w hw he => hnot ⟨hc, he ▸ hw⟩
    rw [encodeValue_eq hmin canonical] at hnone
    cases hnone
  · rintro ⟨rfl, hocc⟩
    exact encodeValue_of_occurs_min hocc canonical

theorem encodeValue_unchecked (canonical : Bool) (v : Value) :
    encodeValue false canonical v = some (v.encoding canonical) :=
  encodeValue_eq (by simp) canonical

namespace Value

/-! ### The bytes of each kind of value -/

theorem encoding_of_eq_some {canonical : Bool} {v : Value} {bytes : Bytes}
    (h : encodeValue false canonical v = some bytes) : v.encoding canonical = bytes := by
  rw [encoding, h]
  rfl

theorem encoding_integer (c : Bool) (i : I128) : (Value.integer i).encoding c = i.encoding :=
  encoding_of_eq_some (encodeInteger_eq (by simp))

theorem encoding_bool (c b : Bool) : (Value.bool b).encoding c = [if b then 0xf5 else 0xf4] :=
  encoding_of_eq_some rfl

theorem encoding_null (c : Bool) : Value.null.encoding c = [0xf6] :=
  encoding_of_eq_some rfl

theorem encoding_undefined (c : Bool) : Value.undefined.encoding c = [0xf7] :=
  encoding_of_eq_some rfl

theorem encoding_simple (c : Bool) (s : UInt8) : (Value.simple s).encoding c = encodeSimple s :=
  encoding_of_eq_some rfl

theorem encoding_bytes (c : Bool) (b : Bytes) :
    (Value.bytes b).encoding c = writeTypeNumber 2 (UInt64.ofNat b.length) ++ b :=
  encoding_of_eq_some rfl

theorem encoding_text (c : Bool) (t : String) :
    (Value.text t).encoding c = writeTypeNumber 3 (UInt64.ofNat (utf8 t).length) ++ utf8 t :=
  encoding_of_eq_some rfl

theorem encoding_array (c : Bool) (items : List Value) : (Value.array items).encoding c =
      writeTypeNumber 4 (UInt64.ofNat items.length) ++ items.flatMap (encoding c) := by
  apply encoding_of_eq_some
  rw [encodeValue, encodeItems_of_forall fun v _ => encodeValue_unchecked c v]
  rfl

theorem encoding_tag (c : Bool) (number : UInt64) (inner : Value) :
    (Value.tag number inner).encoding c = writeTypeNumber 6 number ++ inner.encoding c := by
  apply encoding_of_eq_some
  rw [encodeValue, encodeValue_unchecked c inner]
  rfl

def pairEncoding (c : Bool) (e : Value × Value) : Bytes := e.1.encoding c ++ e.2.encoding c

theorem encodePairs_unchecked (c : Bool) (pairs : List (Value × Value)) :
    encodePairs false c pairs = some (pairs.map fun e => (e.1.encoding false, pairEncoding c e)) :=
  encodePairs_of_forall fun e _ => ⟨encodeValue_unchecked false e.1, encodeValue_unchecked c e.1,
    encodeValue_unchecked c e.2⟩

theorem encoding_map_default (pairs : List (Value × Value)) : (Value.map pairs).encoding false =
      writeTypeNumber 5 (UInt64.ofNat pairs.length) ++ pairs.flatMap (pairEncoding false) := by
  apply encoding_of_eq_some
  rw [encodeValue, encodePairs_unchecked]
  simp [flatMap, Function.comp_def]

def canonicalKeyCmp (a b : Value) : Ordering := keyCmp (a.encoding false) (b.encoding false)

abbrev PairLe (a b : Value × Value) : Prop := (canonicalKeyCmp a.1 b.1).isLE

theorem encoding_map_canonical (pairs : List (Value × Value)) : (Value.map pairs).encoding true =
      writeTypeNumber 5 (UInt64.ofNat pairs.length) ++
        (pairs.insertionSort PairLe).flatMap (pairEncoding true) := by
  apply encoding_of_eq_some
  rw [encodeValue, encodePairs_unchecked]
  simp only [bind_eq_bind, bind_some, if_true]
  rw [← map_insertionSort (r := PairLe) (s := EntryLe) _ _ fun a _ b _ => Iff.rfl]
  simp [flatMap, Function.comp_def]

end Value

end TptRfc.Cbor
