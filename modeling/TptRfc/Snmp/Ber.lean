import TptRfc.Lib.Access

/-!
# SNMP: the BER codec

`ber.rs` and `oid.rs`: tag, length and content, integers, and object identifiers.
-/

namespace TptRfc.Snmp

open Lib Access List

/-! ## Errors -/

inductive BerError where
  | truncated
  | indefiniteLength
  | unknownTag (tag : UInt8)
  | badInteger
  | badOid
  deriving DecidableEq

inductive SnmpError where
  | ber (e : BerError)
  | unknownVersion (v : ℤ)
  | unknownPdu (tag : UInt8)
  | malformed
  | unsupportedSecurityModel (model : ℤ)
  deriving DecidableEq

abbrev Decoded (α : Type) := Except (Fault SnmpError) α

def berError {α : Type} (e : BerError) : Decoded α := .error (.error (.ber e))

/-! ## Tags -/

def tagInteger : UInt8 := 0x02
def tagOctetString : UInt8 := 0x04
def tagObjectIdentifier : UInt8 := 0x06
def tagSequence : UInt8 := 0x30
def tagIpAddress : UInt8 := 0x40
def tagCounter32 : UInt8 := 0x41
def tagGauge32 : UInt8 := 0x42
def tagTimeTicks : UInt8 := 0x43
def tagOpaque : UInt8 := 0x44
def tagCounter64 : UInt8 := 0x46
def tagNoSuchObject : UInt8 := 0x80
def tagNoSuchInstance : UInt8 := 0x81
def tagEndOfMibView : UInt8 := 0x82

/-! ## Tag, length and content -/

def lengthOctets (len : ℕ) : Bytes :=
  if len < 128 then [UInt8.ofNat len]
  else
    let body := ((Nat.digits 256 len).map UInt8.ofNat).reverse
    (0x80 ||| UInt8.ofNat body.length) :: body

def writeTlv (tag : UInt8) (content : Bytes) : Bytes :=
  tag :: (lengthOctets content.length ++ content)

structure BerReader where
  pos : ℕ
  rest : Bytes

def BerReader.new (buf : Bytes) : BerReader := ⟨0, buf⟩

def readLength (r : BerReader) : Decoded (ℕ × BerReader) :=
  match r.rest with
  | [] => berError .truncated
  | first :: rest =>
    if first &&& 0x80 = 0 then .ok (first.toNat, ⟨r.pos + 1, rest⟩)
    else if first = 0x80 then berError .indefiniteLength
    else
      let n := (first &&& 0x7f).toNat
      if rest.length < n then berError .truncated
      else
        let len := (rest.take n).foldl (fun (len : UInt64) b => (len <<< 8) ||| b.toUInt64) 0
        .ok (len.toNat, ⟨r.pos + 1 + n, rest.drop n⟩)

def readTlv (r : BerReader) : Decoded ((UInt8 × Bytes) × BerReader) :=
  match r.rest with
  | [] => berError .truncated
  | tag :: rest => do
    let (len, r) ← readLength ⟨r.pos + 1, rest⟩
    if 2 ^ 64 ≤ r.pos + len then .error .panic
    else if r.rest.length < len then berError .truncated
    else .ok ((tag, r.rest.take len), ⟨r.pos + len, r.rest.drop len⟩)

/-! ## Integers -/

def trimSigned (negative : Bool) : Bytes → Bytes
  | first :: second :: rest =>
    if (if negative then first = 0xff ∧ second &&& 0x80 ≠ 0
        else first = 0x00 ∧ second &&& 0x80 = 0) then
      trimSigned negative (second :: rest)
    else first :: second :: rest
  | bytes => bytes

def encodeSigned (v : ℤ) : Bytes :=
  if v = 0 then [0x00] else trimSigned (v < 0) (beBytes 16 (v % 2 ^ 128).toNat)

def trimUnsigned : Bytes → Bytes
  | first :: second :: rest =>
    if first = 0x00 then trimUnsigned (second :: rest) else first :: second :: rest
  | bytes => bytes

def encodeUnsigned (v : UInt64) : Bytes :=
  if v = 0 then [0x00] else trimUnsigned (beBytes 8 v.toNat)

def beInt (content : Bytes) : ℤ :=
  if (content.headD 0) &&& 0x80 ≠ 0 then (beNat content : ℤ) - 2 ^ (8 * content.length)
  else beNat content

def decodeSigned (content : Bytes) : Decoded ℤ :=
  if content = [] then berError .badInteger
  else if 9 < content.length ∨
      (content.length = 9 ∧ content.headD 0 ≠ 0x00 ∧ content.headD 0 ≠ 0xff) then
    berError .badInteger
  else .ok ((beInt content).bmod (2 ^ 64))

def asU64 (v : ℤ) : UInt64 := UInt64.ofNat (v % 2 ^ 64).toNat

def asI32 (v : ℤ) : Int32 := Int32.ofInt v

def decodeUnsigned (content : Bytes) : Decoded UInt64 := do
  let v ← decodeSigned content
  if v < 0 then berError .badInteger else .ok (asU64 v)

def writeInteger (v : ℤ) : Bytes := writeTlv tagInteger (encodeSigned v)

def writeOctetString (s : Bytes) : Bytes := writeTlv tagOctetString s

def writeSequence (content : Bytes) : Bytes := writeTlv tagSequence content

/-! ## Object identifiers -/

abbrev Oid := List UInt32

def base128 (v : ℕ) : Bytes :=
  match Nat.digits 128 v with
  | [] => [0x00]
  | low :: high => (high.map fun d => UInt8.ofNat d ||| 0x80).reverse ++ [UInt8.ofNat low]

def combine (checks : Bool) (a b : UInt32) : Option ℕ :=
  if a.toNat * 40 + b.toNat < 2 ^ 32 then some (a.toNat * 40 + b.toNat)
  else if checks then none
  else some ((a.toNat * 40 + b.toNat) % 2 ^ 32)

def Oid.encode (checks : Bool) : Oid → Option Bytes
  | a :: b :: rest =>
    (combine checks a b).map fun combined =>
      base128 combined ++ rest.flatMap fun s => base128 s.toNat
  | _ => none

def oidLoop : Bytes → UInt64 → Bool → Oid → Bool × Oid
  | [], _, first, sub => (first, sub)
  | byte :: content, value, first, sub =>
    let value := (value <<< 7) ||| (byte.toUInt64 &&& 0x7f)
    if byte &&& 0x80 = 0 then
      if first then
        let a := min (value / 40) 2
        let b := value - a * 40
        oidLoop content 0 false (sub ++ [a.toUInt32, b.toUInt32])
      else oidLoop content 0 first (sub ++ [value.toUInt32])
    else oidLoop content value first sub

def Oid.decode (content : Bytes) : Decoded Oid :=
  match oidLoop content 0 true [] with
  | (true, _) => berError .badOid
  | (false, sub) => .ok sub

def writeOid (checks : Bool) (oid : Oid) : Option Bytes :=
  (Oid.encode checks oid).map (writeTlv tagObjectIdentifier)

def readOid (r : BerReader) : Decoded (Oid × BerReader) := do
  let ((tag, content), r) ← readTlv r
  if tag ≠ tagObjectIdentifier then berError (.unknownTag tag)
  else do
    let oid ← Oid.decode content
    pure (oid, r)

/-! ## What is written is read -/

theorem foldl_length_octets (bytes : Bytes) (acc : UInt64) :
    (bytes.foldl (fun (len : UInt64) b => (len <<< 8) ||| b.toUInt64) acc).toNat =
      (acc.toNat * 256 ^ bytes.length + beNat bytes) % 2 ^ 64 := by
  induction bytes generalizing acc with
  | nil => simp [beNat, Nat.mod_eq_of_lt acc.toNat_lt]
  | cons b bytes ih =>
    have hstep : ((acc <<< 8) ||| b.toUInt64).toNat = (acc.toNat * 256 + b.toNat) % 2 ^ 64 := by
      have hb := b.toNat_lt
      rw [UInt64.toNat_or, UInt64.toNat_shiftLeft]
      have h8 : (8 : UInt64).toNat % 64 = 8 := rfl
      rw [h8, UInt8.toNat_toUInt64, Nat.shiftLeft_eq]
      have hmod : acc.toNat * 2 ^ 8 % 2 ^ 64 = (acc.toNat % 2 ^ 56) <<< 8 := by
        rw [Nat.shiftLeft_eq]
        omega
      rw [hmod, ← Nat.shiftLeft_add_eq_or_of_lt (by omega), Nat.shiftLeft_eq]
      omega
    rw [foldl_cons, ih, hstep, beNat, length_cons, pow_succ]
    rw [Nat.add_mod, Nat.mod_mul_mod, ← Nat.add_mod]
    congr 1
    ring

theorem beNat_append (a b : Bytes) : beNat (a ++ b) = beNat a * 256 ^ b.length + beNat b := by
  induction a with
  | nil => simp [beNat]
  | cons x a ih =>
    rw [cons_append, beNat, ih, beNat, length_append, pow_add]
    ring

theorem beNat_digits (n : ℕ) : beNat ((Nat.digits 256 n).map UInt8.ofNat).reverse = n := by
  induction n using Nat.strong_induction_on with
  | _ n ih =>
    rcases Nat.eq_zero_or_pos n with rfl | hpos
    · rfl
    · rw [Nat.digits_def' (by omega) hpos, map_cons, reverse_cons, beNat_append,
        ih (n / 256) (by omega)]
      simp only [length_singleton, beNat, length_nil, pow_one, pow_zero, mul_one,
        add_zero, UInt8.toNat_ofNat']
      omega

theorem length_digits_le {n k : ℕ} (h : n < 256 ^ k) : (Nat.digits 256 n).length ≤ k :=
  (Nat.digits_length_le_iff (by omega) n).mpr h

theorem high_bit_clear_iff (b : UInt8) : b &&& 0x80 = 0 ↔ b.toNat < 128 := by
  rw [← UInt8.toNat_inj, UInt8.toNat_and]
  have hall : ∀ n < 256, n &&& 128 = 0 ↔ n < 128 := by decide +kernel
  exact hall _ b.toNat_lt

theorem toNat_high_or {n : ℕ} (h : n < 128) : (0x80 ||| UInt8.ofNat n).toNat = 128 + n := by
  have hall : ∀ n < 128, 128 ||| n % 256 = 128 + n := by decide
  rw [UInt8.toNat_or, UInt8.toNat_ofNat']
  exact hall n h

theorem toNat_low_and (b : UInt8) : (b &&& 0x7f).toNat = b.toNat % 128 := by
  rw [UInt8.toNat_and]
  exact Nat.and_two_pow_sub_one_eq_mod _ 7

theorem readLength_lengthOctets {len : ℕ} (h : len < 2 ^ 64) (pos : ℕ) (rest : Bytes) :
    readLength ⟨pos, lengthOctets len ++ rest⟩ =
      .ok (len, ⟨pos + (lengthOctets len).length, rest⟩) := by
  unfold lengthOctets
  split
  · rename_i hshort
    have hval : (UInt8.ofNat len).toNat = len := by
      rw [UInt8.toNat_ofNat']
      omega
    have hclear : UInt8.ofNat len &&& 0x80 = 0 := (high_bit_clear_iff _).mpr (by omega)
    simp only [readLength, singleton_append, if_pos hclear, hval, length_singleton]
  · rename_i hlong
    generalize hbody : ((Nat.digits 256 len).map UInt8.ofNat).reverse = body
    have hnat : beNat body = len := hbody ▸ beNat_digits len
    have hlen : body.length ≤ 8 := by
      rw [← hbody, length_reverse, length_map]
      exact length_digits_le (by omega)
    have hpos : body ≠ [] := by
      rintro rfl
      rw [← hnat] at hlong
      exact hlong (by decide)
    have hfirst := toNat_high_or (show body.length < 128 by omega)
    have hset : ¬ (0x80 ||| UInt8.ofNat body.length) &&& 0x80 = 0 := by
      rw [high_bit_clear_iff]
      omega
    have hmore : (0x80 ||| UInt8.ofNat body.length) ≠ 0x80 := by
      intro heq
      rw [heq] at hfirst
      exact hpos (length_eq_zero_iff.mp (Nat.add_left_cancel hfirst.symm))
    have hn : ((0x80 ||| UInt8.ofNat body.length) &&& 0x7f).toNat = body.length := by
      rw [toNat_low_and, hfirst]
      omega
    simp only [readLength, cons_append, if_neg hset, if_neg hmore, hn, length_append, length_cons]
    rw [if_neg (by omega), take_left, drop_left, foldl_length_octets, hnat]
    simp only [UInt64.toNat_zero, Nat.zero_mul, Nat.zero_add, Nat.mod_eq_of_lt h]
    congr 3
    omega

theorem length_writeTlv (tag : UInt8) (content : Bytes) :
    (writeTlv tag content).length = 1 + (lengthOctets content.length).length + content.length := by
  simp only [writeTlv, length_cons, length_append]
  omega

theorem readTlv_writeTlv {tag : UInt8} {content rest : Bytes} {pos : ℕ}
    (h : pos + (writeTlv tag content ++ rest).length < 2 ^ 64) :
    readTlv ⟨pos, writeTlv tag content ++ rest⟩ =
      .ok ((tag, content), ⟨pos + (writeTlv tag content).length, rest⟩) := by
  rw [length_append, length_writeTlv] at h
  rw [length_writeTlv]
  simp only [readTlv, writeTlv, cons_append, append_assoc]
  rw [readLength_lengthOctets (by omega), ok_bind]
  dsimp only
  rw [if_neg (by omega), if_neg (by simp), take_left, drop_left]
  congr 3
  omega

/-! ## Signed integers -/

theorem two_pow_eq_256 {R : Type*} [Semiring R] (k : ℕ) : (2 : R) ^ (8 * k) = 256 ^ k := by
  rw [pow_mul]
  norm_num

theorem beInt_cons (b : UInt8) (bytes : Bytes) :
    beInt (b :: bytes) =
      if b.toNat < 128 then (beNat (b :: bytes) : ℤ)
      else (beNat (b :: bytes) : ℤ) - 256 ^ (bytes.length + 1) := by
  simp only [beInt, headD_cons, ne_eq, high_bit_clear_iff, length_cons, two_pow_eq_256]
  by_cases hclear : b.toNat < 128
  · rw [if_neg (not_not_intro hclear), if_pos hclear]
  · rw [if_pos hclear, if_neg hclear]

theorem beInt_trimSigned (negative : Bool) (bytes : Bytes) :
    beInt (trimSigned negative bytes) = beInt bytes := by
  induction bytes with
  | nil => rfl
  | cons first tail ih =>
    rcases tail with - | ⟨second, rest⟩
    · rfl
    rw [trimSigned]
    refine iteInduction (motive := fun t => beInt t = _) (fun h => ?_) fun _ => rfl
    rw [ih, beInt_cons, beInt_cons]
    simp only [beNat, length_cons]
    cases negative with
    | false =>
      simp only [Bool.false_eq_true, if_false, high_bit_clear_iff] at h
      obtain ⟨rfl, hclear⟩ := h
      simp [hclear]
    | true =>
      simp only [if_true, ne_eq, high_bit_clear_iff] at h
      obtain ⟨rfl, hset⟩ := h
      rw [if_neg hset, if_neg (by decide)]
      have hff : (0xff : UInt8).toNat = 255 := rfl
      rw [hff]
      push_cast
      ring

variable {bytes : Bytes} {v : ℤ} {oid : Oid}

theorem trimSigned_minimal {negative : Bool} {first second : UInt8} {rest : Bytes}
    (h : trimSigned negative bytes = first :: second :: rest) :
    ¬ (if negative then first = 0xff ∧ second &&& 0x80 ≠ 0
      else first = 0x00 ∧ second &&& 0x80 = 0) := by
  induction bytes with
  | nil => cases h
  | cons a tail ih =>
    rcases tail with - | ⟨b, tail⟩
    · cases h
    rw [trimSigned] at h
    revert h
    refine iteInduction (motive := (· = first :: second :: rest → _)) (fun _ => ih) ?_
    rintro hnot ⟨⟩
    exact hnot

theorem trimSigned_ne_nil {negative : Bool} (h : bytes ≠ []) : trimSigned negative bytes ≠ [] := by
  induction bytes with
  | nil => exact h
  | cons a tail ih =>
    rcases tail with - | ⟨b, tail⟩
    · exact h
    rw [trimSigned]
    exact iteInduction (motive := (· ≠ [])) (fun _ => ih (cons_ne_nil _ _)) fun _ => h

theorem one_le_toNat {b : UInt8} (h : b ≠ 0) : 1 ≤ b.toNat :=
  Nat.pos_of_ne_zero fun hzero => h (UInt8.toNat_inj.mp hzero)

theorem length_trimSigned_le (hv : beInt bytes = v) (hlow : -2 ^ 63 ≤ v)
    (hhigh : v < 2 ^ 63) : (trimSigned (v < 0) bytes).length ≤ 8 := by
  have hbeInt := beInt_trimSigned (decide (v < 0)) bytes
  rw [hv] at hbeInt
  rcases htrim : trimSigned (decide (v < 0)) bytes with - | ⟨first, - | ⟨second, rest⟩⟩
  · simp
  · simp
  · have hminimal := trimSigned_minimal htrim
    rw [htrim, beInt_cons] at hbeInt
    by_contra hlong
    simp only [length_cons, not_le] at hlong
    have hpow : (256 : ℤ) ^ 7 ≤ 256 ^ rest.length := pow_le_pow_right₀ (by norm_num) (by omega)
    have hrest : (beNat rest : ℤ) < 256 ^ rest.length := by exact_mod_cast beNat_lt rest
    have hsecond := second.toNat_lt
    have hfirst := first.toNat_lt
    simp only [beNat, length_cons, Nat.cast_add, Nat.cast_mul, Nat.cast_pow, pow_succ] at hbeInt
    push_cast at hbeInt
    generalize (256 : ℤ) ^ rest.length = p at *
    -- the first two octets are a number `w` with a sign, and what is behind them is less than `p`
    obtain ⟨w, hvalue, hw⟩ : ∃ w : ℤ, v = w * p + beNat rest ∧ (w < -128 ∨ 128 ≤ w) := by
      split at hbeInt
      · have hnonneg : 0 ≤ ((first.toNat : ℤ) * 256 + second.toNat) * p :=
          mul_nonneg (by omega) (by omega)
        have hvalue : v = ((first.toNat : ℤ) * 256 + second.toNat) * p + beNat rest := by linarith
        rw [decide_eq_false (by omega)] at hminimal
        have hzero : first = 0x00 ↔ first.toNat = 0 := UInt8.toNat_inj.symm
        simp only [Bool.false_eq_true, if_false, high_bit_clear_iff, hzero] at hminimal
        exact ⟨_, hvalue, .inr (by omega)⟩
      · have hneg : ((first.toNat : ℤ) * 256 + second.toNat - 65536) * p ≤ (-1) * p :=
          mul_le_mul_of_nonneg_right (by omega) (by omega)
        have hvalue : v = ((first.toNat : ℤ) * 256 + second.toNat - 65536) * p + beNat rest := by
          linarith
        rw [decide_eq_true (by omega)] at hminimal
        have hff : first = 0xff ↔ first.toNat = 255 := UInt8.toNat_inj.symm
        simp only [if_true, ne_eq, high_bit_clear_iff, hff] at hminimal
        exact ⟨_, hvalue, .inl (by omega)⟩
    rcases hw with hw | hw
    · have : w * p ≤ (-129) * p := mul_le_mul_of_nonneg_right (by omega) (by omega)
      omega
    · have : 128 * p ≤ w * p := mul_le_mul_of_nonneg_right hw (by omega)
      omega

theorem beInt_beBytes (hlow : -2 ^ 63 ≤ v) (hhigh : v < 2 ^ 63) :
    beInt (beBytes 16 (v % 2 ^ 128).toNat) = v := by
  have hrange : (v % 2 ^ 128).toNat < 256 ^ 16 := by
    have := Int.emod_lt_of_pos v (show (0 : ℤ) < 2 ^ 128 by norm_num)
    omega
  have hnat := beNat_beBytes_of_lt hrange
  have hlen := length_beBytes 16 (v % 2 ^ 128).toNat
  rcases hbytes : beBytes 16 (v % 2 ^ 128).toNat with - | ⟨b, tail⟩
  · rw [hbytes] at hlen
    cases hlen
  · rw [hbytes] at hnat hlen ⊢
    have htail := beNat_lt tail
    have hb := b.toNat_lt
    have hlen' : tail.length = 15 := by simpa using hlen
    rw [beInt_cons, hnat, hlen']
    rw [beNat, hlen'] at hnat
    rw [hlen'] at htail
    have hcast : (((v % 2 ^ 128).toNat : ℕ) : ℤ) = v % 2 ^ 128 :=
      Int.toNat_of_nonneg (Int.emod_nonneg _ (by norm_num))
    rw [hcast]
    split <;> omega

theorem decodeSigned_encodeSigned (hlow : -2 ^ 63 ≤ v) (hhigh : v < 2 ^ 63) :
    decodeSigned (encodeSigned v) = .ok v := by
  unfold encodeSigned
  split
  · rename_i hzero
    subst hzero
    decide
  · have hbeInt := beInt_beBytes hlow hhigh
    have hlen := length_trimSigned_le hbeInt hlow hhigh
    have hne : trimSigned (v < 0) (beBytes 16 (v % 2 ^ 128).toNat) ≠ [] := by
      refine trimSigned_ne_nil fun h => ?_
      have := congrArg List.length h
      simp at this
    rw [decodeSigned, if_neg hne, if_neg (by omega), beInt_trimSigned, hbeInt,
      Int.bmod_eq_of_le (by norm_num; omega) (by norm_num; omega)]

/-! ## Unsigned integers -/

theorem trimUnsigned_spec (h : beNat bytes ≠ 0) :
    beNat (trimUnsigned bytes) = beNat bytes ∧ (trimUnsigned bytes).length ≤ bytes.length ∧
      ∃ b tail, trimUnsigned bytes = b :: tail ∧ b ≠ 0 := by
  induction bytes with
  | nil => exact absurd rfl h
  | cons first tail ih =>
    rcases tail with - | ⟨second, rest⟩
    · refine ⟨rfl, le_rfl, first, [], rfl, ?_⟩
      rintro rfl
      exact h (by decide)
    rw [trimUnsigned]
    split
    · rename_i hfirst
      have hzero : beNat (first :: second :: rest) = beNat (second :: rest) := by
        simp [beNat, hfirst]
      rw [hzero] at h ⊢
      obtain ⟨hnat, hlen, hhead⟩ := ih h
      exact ⟨hnat, hlen.trans (Nat.le_succ _), hhead⟩
    · rename_i hne
      exact ⟨rfl, le_rfl, first, second :: rest, rfl, hne⟩

/-- A number that is written without a sign, and read with one, comes out negative: the first
octet has its high bit set, and there are fewer octets than the type has. -/
def Misread (octets n : ℕ) : Prop := ∃ k, k + 1 < octets ∧ 2 ^ (8 * k + 7) ≤ n ∧ n < 2 ^ (8 * k + 8)

instance (octets n : ℕ) : Decidable (Misread octets n) :=
  decidable_of_iff (∃ k < octets - 1, 2 ^ (8 * k + 7) ≤ n ∧ n < 2 ^ (8 * k + 8))
    (exists_congr fun k => and_congr_left' (by omega))

theorem beInt_encodeUnsigned (v : UInt64) :
    ∃ k < 8, encodeUnsigned v ≠ [] ∧ (encodeUnsigned v).length = k + 1 ∧
      ((v.toNat < 2 ^ (8 * k + 7) ∧ (k = 0 ∨ 2 ^ (8 * k) ≤ v.toNat) ∧
          beInt (encodeUnsigned v) = v.toNat) ∨
        (2 ^ (8 * k + 7) ≤ v.toNat ∧ v.toNat < 2 ^ (8 * k + 8) ∧
          beInt (encodeUnsigned v) = v.toNat - 2 ^ (8 * k + 8))) := by
  unfold encodeUnsigned
  split
  · rename_i hzero
    subst hzero
    exact ⟨0, by omega, cons_ne_nil _ _, rfl, .inl ⟨by decide, .inl rfl, rfl⟩⟩
  · rename_i hne
    have hv := v.toNat_lt
    have hnat : beNat (beBytes 8 v.toNat) = v.toNat := beNat_beBytes_of_lt (by omega)
    have hnz : v.toNat ≠ 0 := fun h => hne (UInt64.toNat_inj.mp h)
    obtain ⟨hbe, hlen, b, tail, htrim, hb⟩ := trimUnsigned_spec (hnat ▸ hnz)
    rw [hnat, htrim] at hbe
    rw [htrim, length_beBytes, length_cons] at hlen
    have hb256 := b.toNat_lt
    -- the first octet says between which multiples of the power the number is
    have hle : ∀ n, n * 256 ^ tail.length ≤ v.toNat ↔ n ≤ b.toNat := fun n => by
      have hpos : 0 < 256 ^ tail.length := Nat.pow_pos (by omega)
      rw [← Nat.le_div_iff_mul_le hpos, ← hbe, beNat, Nat.add_comm, Nat.add_mul_div_right _ _ hpos,
        Nat.div_eq_of_lt (beNat_lt tail), Nat.zero_add]
    have h7 : 2 ^ (8 * tail.length + 7) = 128 * 256 ^ tail.length := by
      rw [pow_add, two_pow_eq_256, mul_comm]
      rfl
    have h8 : 2 ^ (8 * tail.length + 8) = 256 * 256 ^ tail.length := by
      rw [pow_add, two_pow_eq_256, mul_comm]
      rfl
    have h8' : (2 : ℤ) ^ (8 * tail.length + 8) = 256 ^ (tail.length + 1) :=
      two_pow_eq_256 (tail.length + 1)
    refine ⟨tail.length, by omega, htrim ▸ cons_ne_nil _ _, by rw [htrim, length_cons], ?_⟩
    rw [htrim, beInt_cons, hbe, h7, h8, h8']
    by_cases hclear : b.toNat < 128
    · refine .inl ⟨not_le.mp (mt (hle 128).mp (by omega)), .inr ?_, if_pos hclear⟩
      rw [two_pow_eq_256, ← one_mul (256 ^ _), hle]
      exact one_le_toNat hb
    · exact .inr ⟨(hle 128).mpr (by omega), not_le.mp (mt (hle 256).mp (by omega)), if_neg hclear⟩

theorem decodeSigned_encodeUnsigned (v : UInt64) :
    decodeSigned (encodeUnsigned v) = .ok ((beInt (encodeUnsigned v)).bmod (2 ^ 64)) := by
  obtain ⟨k, hk, hne, hlen, -⟩ := beInt_encodeUnsigned v
  rw [decodeSigned, if_neg hne, if_neg (by omega)]

theorem emod_beInt_eq_iff {octets : ℕ} {v : UInt64} (hoctets : octets ≤ 8)
    (hv : v.toNat < 2 ^ (8 * octets)) :
    beInt (encodeUnsigned v) % 2 ^ (8 * octets) = v.toNat ↔ ¬ Misread octets v.toNat := by
  obtain ⟨k, hk, -, -, ⟨hlow, hfirst, hint⟩ | ⟨hlow, hhigh, hint⟩⟩ := beInt_encodeUnsigned v
  · rw [hint]
    refine iff_of_true (Int.emod_eq_of_lt (by omega) (by exact_mod_cast hv)) ?_
    rintro ⟨j, -, hj, hj'⟩
    rcases Nat.lt_or_ge j k with hlt | hge
    · have hle : 2 ^ (8 * j + 8) ≤ 2 ^ (8 * k) := Nat.pow_le_pow_right (by omega) (by omega)
      omega
    · have hle : 2 ^ (8 * k + 7) ≤ 2 ^ (8 * j + 7) := Nat.pow_le_pow_right (by omega) (by omega)
      omega
  · have hk' : k < octets := by
      by_contra hge
      have hle : 2 ^ (8 * octets) ≤ 2 ^ (8 * k + 7) := Nat.pow_le_pow_right (by omega) (by omega)
      omega
    rw [hint]
    rcases Nat.lt_or_ge (k + 1) octets with hlt | hge
    · refine iff_of_false ?_ (not_not_intro ⟨k, hlt, hlow, hhigh⟩)
      have hpow : 2 ^ (8 * k + 8) < 2 ^ (8 * octets) := Nat.pow_lt_pow_right (by omega) (by omega)
      have hpow' : (2 : ℤ) ^ (8 * k + 8) < 2 ^ (8 * octets) := by exact_mod_cast hpow
      have hhigh' : (v.toNat : ℤ) < 2 ^ (8 * k + 8) := by exact_mod_cast hhigh
      rw [← Int.add_emod_right, Int.emod_eq_of_lt (by omega) (by omega)]
      omega
    · have heq : octets = k + 1 := by omega
      subst heq
      have hexp : 8 * (k + 1) = 8 * k + 8 := by ring
      rw [hexp]
      have hhigh' : (v.toNat : ℤ) < 2 ^ (8 * k + 8) := by exact_mod_cast hhigh
      refine iff_of_true ?_ ?_
      · rw [← Int.add_emod_right, sub_add_cancel, Int.emod_eq_of_lt (by omega) hhigh']
      · rintro ⟨j, hj, -, hj'⟩
        have hle : 2 ^ (8 * j + 8) ≤ 2 ^ (8 * k + 7) := Nat.pow_le_pow_right (by omega) (by omega)
        omega

/-! ## Object identifiers -/

def ofGroups (value : ℕ) (groups : List ℕ) : ℕ := groups.foldl (fun v d => v * 128 + d) value

theorem ofGroups_concat (value : ℕ) (groups : List ℕ) (d : ℕ) :
    ofGroups value (groups ++ [d]) = ofGroups value groups * 128 + d := by
  rw [ofGroups, foldl_append]
  rfl

theorem ofGroups_reverse_digits (n : ℕ) : ofGroups 0 (Nat.digits 128 n).reverse = n := by
  induction n using Nat.strong_induction_on with
  | _ n ih =>
    rcases Nat.eq_zero_or_pos n with rfl | hpos
    · rfl
    · rw [Nat.digits_def' (by omega) hpos, reverse_cons, ofGroups_concat,
        ih (n / 128) (by omega)]
      omega

theorem toNat_group (value : UInt64) (byte : UInt8) :
    ((value <<< 7) ||| (byte.toUInt64 &&& 0x7f)).toNat =
      (value.toNat * 128 + byte.toNat % 128) % 2 ^ 64 := by
  rw [UInt64.toNat_or, UInt64.toNat_shiftLeft, UInt64.toNat_and, UInt8.toNat_toUInt64]
  have h7 : (7 : UInt64).toNat % 64 = 7 := rfl
  have h7f : (0x7f : UInt64).toNat = 2 ^ 7 - 1 := rfl
  rw [h7, h7f, Nat.and_two_pow_sub_one_eq_mod, Nat.shiftLeft_eq]
  have hmod : value.toNat * 2 ^ 7 % 2 ^ 64 = (value.toNat % 2 ^ 57) <<< 7 := by
    rw [Nat.shiftLeft_eq]
    omega
  rw [hmod, ← Nat.shiftLeft_add_eq_or_of_lt (by omega), Nat.shiftLeft_eq]
  omega

theorem oidLoop_groups {groups : List ℕ} (hgroups : ∀ d ∈ groups, d < 128) (content : Bytes)
    (value : UInt64) (first : Bool) (sub : Oid) (h : ofGroups value.toNat groups < 2 ^ 64) :
    oidLoop ((groups.map fun d => UInt8.ofNat d ||| 0x80) ++ content) value first sub =
      oidLoop content (UInt64.ofNat (ofGroups value.toNat groups)) first sub := by
  induction groups generalizing value with
  | nil => rw [map_nil, nil_append, ofGroups, foldl_nil, UInt64.ofNat_toNat]
  | cons d groups ih =>
    have hd := hgroups d mem_cons_self
    have hbyte : (UInt8.ofNat d ||| 0x80).toNat = 128 + d := by
      rw [UInt8.or_comm, toNat_high_or hd]
    have hset : ¬ (UInt8.ofNat d ||| 0x80) &&& 0x80 = 0 := by
      rw [high_bit_clear_iff]
      omega
    have hmono : value.toNat * 128 + d ≤ ofGroups (value.toNat * 128 + d) groups := by
      clear ih h
      have hgen : ∀ (gs : List ℕ) (n : ℕ), n ≤ ofGroups n gs := by
        intro gs
        induction gs with
        | nil => exact fun n => le_rfl
        | cons g gs ihg => exact fun n => le_trans (by omega) (ihg (n * 128 + g))
      exact hgen groups _
    have hstep : ((value <<< 7) ||| ((UInt8.ofNat d ||| 0x80).toUInt64 &&& 0x7f)).toNat =
        value.toNat * 128 + d := by
      rw [ofGroups, foldl_cons, ← ofGroups] at h
      rw [toNat_group, hbyte]
      omega
    rw [map_cons, cons_append, oidLoop]
    simp only [if_neg hset]
    rw [ih (fun x hx => hgroups x (mem_cons_of_mem d hx)) _ (by rw [hstep]; exact h), hstep]
    rfl

def splitFirst (value : ℕ) : Oid :=
  [UInt32.ofNat (min (value / 40) 2), UInt32.ofNat (value - min (value / 40) 2 * 40)]

theorem toUInt32_eq_ofNat {w : UInt64} {n : ℕ} (h : w.toNat = n) : w.toUInt32 = UInt32.ofNat n := by
  rw [← UInt32.toNat_inj, UInt64.toNat_toUInt32, h, UInt32.toNat_ofNat']

theorem splitFirst_eq {w : UInt64} {v : ℕ} (h : w.toNat = v) :
    [(min (w / 40) 2).toUInt32, (w - min (w / 40) 2 * 40).toUInt32] = splitFirst v := by
  have h40 : (w / 40).toNat = v / 40 := by
    rw [UInt64.toNat_div, h]
    rfl
  have hmin : (min (w / 40) 2).toNat = min (v / 40) 2 := by
    change (if w / 40 ≤ 2 then w / 40 else 2).toNat = _
    simp only [apply_ite UInt64.toNat, UInt64.le_iff_toNat_le, h40]
    rfl
  have hmul : (min (w / 40) 2 * 40).toNat = min (v / 40) 2 * 40 := by
    rw [UInt64.toNat_mul, hmin]
    change min (v / 40) 2 * 40 % 2 ^ 64 = _
    omega
  rw [splitFirst, toUInt32_eq_ofNat hmin, toUInt32_eq_ofNat]
  rw [UInt64.toNat_sub_of_le _ _ (by rw [UInt64.le_iff_toNat_le, hmul, h]; omega), hmul, h]

theorem oidLoop_base128 {v : ℕ} (h : v < 2 ^ 32) (content : Bytes) (first : Bool) (sub : Oid) :
    oidLoop (base128 v ++ content) 0 first sub =
      oidLoop content 0 false (sub ++ if first then splitFirst v else [UInt32.ofNat v]) := by
  have hlast : ∀ (byte : UInt8) (value : UInt64), byte.toNat < 128 →
      value.toNat * 128 + byte.toNat = v →
      oidLoop (byte :: content) value first sub =
        oidLoop content 0 false (sub ++ if first then splitFirst v else [UInt32.ofNat v]) := by
    intro byte value hbyte hvalue
    have hnat : ((value <<< 7) ||| (byte.toUInt64 &&& 0x7f)).toNat = v := by
      rw [toNat_group]
      omega
    rw [oidLoop]
    simp only [if_pos ((high_bit_clear_iff byte).mpr hbyte)]
    cases first with
    | false => simp only [Bool.false_eq_true, if_false, toUInt32_eq_ofNat hnat]
    | true => simp only [if_true, splitFirst_eq hnat]
  unfold base128
  cases hdigits : Nat.digits 128 v with
  | nil =>
    have hzero : v = 0 := Nat.digits_eq_nil_iff_eq_zero.mp hdigits
    exact hlast 0x00 0 (by decide) (by rw [hzero]; rfl)
  | cons low high =>
    have hbase : ∀ d ∈ low :: high, d < 128 := fun d hd =>
      Nat.digits_lt_base (by omega) (hdigits ▸ hd)
    have hvalue := ofGroups_reverse_digits v
    rw [hdigits, reverse_cons, ofGroups_concat] at hvalue
    have hlow := hbase low mem_cons_self
    have hlow' : (UInt8.ofNat low).toNat = low := by
      rw [UInt8.toNat_ofNat']
      omega
    dsimp only
    rw [← map_reverse, append_assoc, oidLoop_groups _ _ _ _ _ _]
    · refine hlast _ _ (by omega) ?_
      rw [hlow', UInt64.toNat_ofNat']
      change ofGroups 0 high.reverse % 2 ^ 64 * 128 + low = v
      omega
    · exact fun d hd => hbase d (mem_cons_of_mem low (mem_reverse.mp hd))
    · change ofGroups 0 high.reverse < 2 ^ 64
      omega

theorem oidLoop_rest (rest : List UInt32) (sub : Oid) :
    oidLoop (rest.flatMap fun s => base128 s.toNat) 0 false sub = (false, sub ++ rest) := by
  induction rest generalizing sub with
  | nil => simp [oidLoop]
  | cons s rest ih =>
    rw [flatMap_cons, oidLoop_base128 s.toNat_lt, ih]
    simp [UInt32.ofNat_toNat]

def Oid.image : Oid → Oid
  | a :: b :: rest => splitFirst ((a.toNat * 40 + b.toNat) % 2 ^ 32) ++ rest
  | oid => oid

def Oid.Combinable : Oid → Prop
  | a :: b :: _ => a.toNat * 40 + b.toNat < 2 ^ 32
  | _ => False

instance : DecidablePred Oid.Combinable
  | a :: b :: _ => inferInstanceAs (Decidable (a.toNat * 40 + b.toNat < 2 ^ 32))
  | [_] => .isFalse id
  | [] => .isFalse id

def Oid.Valid : Oid → Prop
  | a :: b :: _ => a.toNat ≤ 2 ∧ (a.toNat < 2 → b.toNat ≤ 39)
  | _ => False

theorem Oid.decode_of_encode {checks : Bool}
    (h : oid.encode checks = some bytes) : Oid.decode bytes = .ok oid.image := by
  rcases oid with - | ⟨a, - | ⟨b, rest⟩⟩
  · cases h
  · cases h
  · obtain ⟨combined, hcombine, rfl⟩ := Option.map_eq_some_iff.mp h
    have hcombined : combined = (a.toNat * 40 + b.toNat) % 2 ^ 32 := by
      unfold combine at hcombine
      split at hcombine
      · rename_i hlt
        cases hcombine
        exact (Nat.mod_eq_of_lt hlt).symm
      · split at hcombine
        · cases hcombine
        · cases hcombine
          rfl
    rw [Oid.decode, oidLoop_base128 (by omega), oidLoop_rest, hcombined]
    rfl

theorem Oid.image_eq_iff (h : oid.Valid) : oid.image = oid ↔ oid.Combinable := by
  rcases oid with - | ⟨a, - | ⟨b, rest⟩⟩
  · cases h
  · cases h
  · obtain ⟨ha, hb⟩ := h
    have hb32 := b.toNat_lt
    have hinj : ∀ (x : UInt32) {n : ℕ}, n < 2 ^ 32 → (UInt32.ofNat n = x ↔ n = x.toNat) := by
      intro x n hn
      rw [← UInt32.toNat_inj, UInt32.toNat_ofNat', Nat.mod_eq_of_lt hn]
    simp only [image, splitFirst, Combinable, cons_append, nil_append, List.cons.injEq, and_true]
    rw [hinj a (by omega), hinj b (by omega)]
    by_cases hlt : a.toNat * 40 + b.toNat < 2 ^ 32
    · rw [Nat.mod_eq_of_lt hlt]
      omega
    · have hmod : (a.toNat * 40 + b.toNat) % 2 ^ 32 = a.toNat * 40 + b.toNat - 2 ^ 32 := by omega
      rw [hmod]
      omega

end TptRfc.Snmp
