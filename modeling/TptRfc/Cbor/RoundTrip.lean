import TptRfc.Cbor.Decoder

/-!
# CBOR: the round trip

What `encode_value_to_vec` writes by default, `Decoder::decode_value` reads back, and stops
at its last byte.
-/

namespace TptRfc.Cbor

open Lib Parser List

/-! ## Heads -/

theorem additional_lt (value : UInt64) : additional value < 32 := by
  have hsmall : value < 24 → value.toUInt8 < 32 := by
    intro h
    rw [UInt8.lt_iff_toNat_lt, UInt64.toNat_toUInt8]
    have := UInt64.lt_iff_toNat_lt.mp h
    simp only [UInt64.reduceToNat, UInt8.reduceToNat] at this ⊢
    omega
  unfold additional
  split_ifs with h
  · exact hsmall h
  all_goals decide

theorem initial_fields (major : UInt8) {ai : UInt8} (hmajor : major < 8) (hai : ai < 32) :
    ((major <<< 5) ||| ai) >>> 5 = major ∧ ((major <<< 5) ||| ai) &&& 0x1f = ai := by
  have hall : ∀ m < 8, ∀ a < 32,
      ((UInt8.ofNat m <<< 5) ||| UInt8.ofNat a) >>> 5 = UInt8.ofNat m ∧
        ((UInt8.ofNat m <<< 5) ||| UInt8.ofNat a) &&& 0x1f = UInt8.ofNat a := by
    decide +kernel
  simpa only [UInt8.ofNat_toNat] using
    hall major.toNat (UInt8.lt_iff_toNat_lt.mp hmajor) ai.toNat (UInt8.lt_iff_toNat_lt.mp hai)

theorem decodes_readU8 (b : UInt8) : Decodes readU8 [b] b := by
  rw [readU8_eq]
  exact decodes_takeU8 eof b

theorem decodes_readExact (bytes : Bytes) : Decodes (readExact bytes.length) bytes bytes := by
  rw [readExact_eq]
  exact decodes_takeBytes eof bytes

variable {bytes : Bytes} {n : ℕ} {value : UInt64}

theorem decodes_wide (hlen : bytes.length = n) (hnat : beNat bytes = value.toNat) :
    Decodes (do
      let b ← readExact n
      pure (some (UInt64.ofNat (beNat b), n)) : Decode (Option (UInt64 × ℕ))) bytes
      (some (value, n)) := by
  subst hlen
  refine (decodes_readExact bytes).bind_nil ?_
  rw [hnat, UInt64.ofNat_toNat]
  exact Decodes.pure _

theorem decodes_readLen (major : UInt8) (value : UInt64) :
    Decodes (readLen major (additional value)) (follow value)
      (some (value, minimalWidth value)) := by
  have hlt := value.toNat_lt
  unfold additional follow minimalWidth
  simp only [UInt64.lt_iff_toNat_lt, UInt64.le_iff_toNat_le, UInt64.reduceToNat]
  by_cases h24 : value.toNat < 24
  · have hle : value.toUInt8 ≤ 23 := by
      rw [UInt8.le_iff_toNat_le, UInt64.toNat_toUInt8, Nat.mod_eq_of_lt (by omega)]
      exact Nat.le_of_lt_succ h24
    have hvalue : value.toUInt8.toUInt64 = value := by
      rw [← UInt64.toNat_inj, UInt8.toNat_toUInt64, UInt64.toNat_toUInt8,
        Nat.mod_eq_of_lt (by omega)]
    simp only [h24, if_true, readLen, hle, hvalue]
    exact Decodes.pure _
  by_cases h8 : value.toNat < 256
  · have hvalue : value.toUInt8.toUInt64 = value := by
      rw [← UInt64.toNat_inj, UInt8.toNat_toUInt64, UInt64.toNat_toUInt8,
        Nat.mod_eq_of_lt (by omega)]
    simp only [h24, h8, Nat.le_of_lt_succ h8, if_true, if_false]
    refine (decodes_readU8 value.toUInt8).bind_nil ?_
    rw [hvalue]
    exact Decodes.pure _
  by_cases h16 : value.toNat < 65536
  · have hnat : beNat (u16Bytes value.toUInt16) = value.toNat := by
      rw [u16Bytes, UInt64.toNat_toUInt16, beNat_beBytes]
      omega
    simp only [h24, h8, h16, Nat.le_of_lt_succ h16, show ¬ value.toNat ≤ 255 by omega,
      if_true, if_false]
    exact decodes_wide (length_beBytes 2 _) hnat
  by_cases h32 : value.toNat < 4294967296
  · have hnat : beNat (u32Bytes value.toUInt32) = value.toNat := by
      rw [u32Bytes, UInt64.toNat_toUInt32, beNat_beBytes]
      omega
    simp only [h24, h8, h16, h32, Nat.le_of_lt_succ h32, show ¬ value.toNat ≤ 255 by omega,
      show ¬ value.toNat ≤ 65535 by omega, if_true, if_false]
    exact decodes_wide (length_beBytes 4 _) hnat
  · have hnat : beNat (beBytes 8 value.toNat) = value.toNat := beNat_beBytes_of_lt (by omega)
    simp only [h24, h8, h16, h32, show ¬ value.toNat ≤ 255 by omega,
      show ¬ value.toNat ≤ 65535 by omega, show ¬ value.toNat ≤ 4294967295 by omega, if_false]
    exact decodes_wide (length_beBytes 8 _) hnat

theorem decodes_of_head {t : Target} {opts : DecodeOptions} {major : UInt8} {v : Value}
    (h : Decodes (decodeBody t opts (decode t opts) ((major <<< 5) ||| additional value))
      (follow value ++ bytes) v) :
    Decodes (decode t opts) (writeTypeNumber major value ++ bytes) v := by
  intro rest
  rw [writeTypeNumber_eq, cons_append, cons_append, decode_cons]
  exact h rest

section Majors

variable (t : Target) (opts : DecodeOptions) (p : Decode Value) {ai : UInt8} (hai : ai < 32)

include hai

theorem decodeBody_integer {major : UInt8} (hmajor : major = 0 ∨ major = 1) :
    decodeBody t opts p ((major <<< 5) ||| ai) =
      decodeInteger t opts ((major <<< 5) ||| ai) major ai := by
  obtain ⟨hmaj, hinfo⟩ := initial_fields major (by rcases hmajor with rfl | rfl <;> decide) hai
  unfold decodeBody
  rw [hmaj, hinfo]
  exact if_pos hmajor

theorem decodeBody_string (isText : Bool) :
    decodeBody t opts p ((stringMajor isText <<< 5) ||| ai) = decodeBytes opts ai isText := by
  obtain ⟨hmaj, hinfo⟩ := initial_fields (stringMajor isText) (by cases isText <;> decide) hai
  unfold decodeBody
  rw [hmaj, hinfo]
  cases isText <;> rfl

theorem decodeBody_array :
    decodeBody t opts p (((4 : UInt8) <<< 5) ||| ai) = decodeArray t opts p ai := by
  obtain ⟨hmaj, hinfo⟩ := initial_fields 4 (by decide) hai
  unfold decodeBody
  rw [hmaj, hinfo]
  rfl

theorem decodeBody_map :
    decodeBody t opts p (((5 : UInt8) <<< 5) ||| ai) = decodeMap t opts p ai := by
  obtain ⟨hmaj, hinfo⟩ := initial_fields 5 (by decide) hai
  unfold decodeBody
  rw [hmaj, hinfo]
  rfl

theorem decodeBody_tag :
    decodeBody t opts p (((6 : UInt8) <<< 5) ||| ai) = decodeTag t p ai := by
  obtain ⟨hmaj, hinfo⟩ := initial_fields 6 (by decide) hai
  unfold decodeBody
  rw [hmaj, hinfo]
  rfl

theorem decodeBody_simple :
    decodeBody t opts p (((7 : UInt8) <<< 5) ||| ai) = decodeSimple ai := by
  obtain ⟨hmaj, hinfo⟩ := initial_fields 7 (by decide) hai
  unfold decodeBody
  rw [hmaj, hinfo]
  rfl

end Majors

/-! ## Leaves -/

theorem toNat_ofNat_of_lt (h : n < 2 ^ 64) : (UInt64.ofNat n).toNat = n := by
  rw [UInt64.toNat_ofNat', Nat.mod_eq_of_lt h]

theorem lt_of_le_isizeMax (h : n ≤ isizeMax) : n < 2 ^ 64 := h.trans_lt (by decide)

section Leaves

variable (t : Target) (opts : DecodeOptions)

theorem decodes_integer_head {major : UInt8} (hmajor : major = 0 ∨ major = 1) (n : UInt64)
    (i : I128) (hi : i.val = if major = 0 then (n.toNat : ℤ) else -1 - n.toNat) :
    Decodes (decode t opts) (writeTypeNumber major n) (.integer i) := by
  rw [← append_nil (writeTypeNumber major n)]
  apply decodes_of_head
  rw [decodeBody_integer t opts _ (additional_lt n) hmajor, append_nil]
  refine (decodes_readLen major n).bind_nil ?_
  refine (Decodes.pure (n, minimalWidth n)).bind_nil ?_
  have hcheck : Decodes (checkHead opts (n, minimalWidth n)) [] () := by
    unfold checkHead checkShortestInt
    split
    · rw [if_neg (not_not.mpr rfl)]
      exact Decodes.pure _
    · exact Decodes.pure _
  refine hcheck.bind_nil ?_
  rcases hmajor with rfl | rfl
  · have hval : I128.ofU64 n = i := Subtype.ext (by rw [hi]; rfl)
    rw [if_pos rfl, hval]
    exact Decodes.pure _
  · have hval : -1 - (I128.ofU64 n).val = i.val := by rw [hi]; rfl
    rw [if_neg (by decide), hval, I128.arith_of_mem i.property]
    exact (Decodes.pure i).bind_nil (Decodes.pure _)

variable {bytes : Bytes}

theorem decodes_string (isText : Bool) {v : Value} (hlen : bytes.length < 2 ^ 64)
    (hv : Decodes (materializeString bytes isText) [] v) : Decodes (decode t opts)
      (writeTypeNumber (stringMajor isText) (UInt64.ofNat bytes.length) ++ bytes) v := by
  apply decodes_of_head
  rw [decodeBody_string t opts _ (additional_lt _)]
  refine (decodes_readLen 2 _).bind ?_
  have hread := decodes_readExact bytes
  rw [← toNat_ofNat_of_lt hlen] at hread
  exact hread.bind_nil hv

theorem decodes_bytes (hlen : bytes.length < 2 ^ 64) :
    Decodes (decode t opts) (writeTypeNumber 2 (UInt64.ofNat bytes.length) ++ bytes)
      (.bytes bytes) :=
  decodes_string t opts false hlen (Decodes.pure _)

theorem fromUTF8_utf8 (s : String) : String.fromUTF8? ⟨(utf8 s).toArray⟩ = some s := by
  change String.fromUTF8? s.toByteArray = some s
  rw [String.fromUTF8?, dif_pos s.isValidUTF8]
  rfl

theorem decodes_text {s : String} (hlen : (utf8 s).length < 2 ^ 64) :
    Decodes (decode t opts) (writeTypeNumber 3 (UInt64.ofNat (utf8 s).length) ++ utf8 s)
      (.text s) := by
  refine decodes_string t opts true hlen ?_
  unfold materializeString
  rw [if_pos rfl, fromUTF8_utf8]
  exact Decodes.pure _

theorem I128.ofBeBytes_replicate_append (k : ℕ) (bytes : Bytes) :
    I128.ofBeBytes (List.replicate k 0 ++ bytes) = I128.ofBeBytes bytes :=
  congrArg (fun n : ℕ => I128.wrap n) (beNat_replicate_append k bytes)

theorem I128.ofBeBytes_of_lt (h : beNat bytes < 2 ^ 127) :
    (I128.ofBeBytes bytes).val = beNat bytes := by
  unfold I128.ofBeBytes I128.wrap
  simp only
  apply Int.bmod_eq_of_le
  · norm_num
  · norm_num
    omega

theorem bignumToI128_eq (tag : UInt64) (hlen : bytes.length ≤ 16) :
    bignumToI128 t tag bytes =
      (if tag = 2 then pure (some (I128.ofBeBytes bytes))
      else do
        let v ← orPanic (I128.arith t.checks (-1 - (I128.ofBeBytes bytes).val))
        pure (some v)) := by
  have hsplit : List.replicate 16 (0 : UInt8) =
      List.replicate (16 - bytes.length) 0 ++ List.replicate bytes.length 0 := by
    rw [replicate_append_replicate, Nat.sub_add_cancel hlen]
  have hpatch : patch (List.replicate 16 0) (16 - bytes.length) bytes =
      some (List.replicate (16 - bytes.length) 0 ++ bytes) := by
    have hbuf := patch_append (List.replicate (16 - bytes.length) 0)
      (List.replicate bytes.length 0) [] bytes length_replicate
    rwa [append_nil, ← hsplit, length_replicate, append_nil] at hbuf
  unfold bignumToI128
  rw [if_neg (Nat.not_lt.mpr hlen), hpatch,
    ← I128.ofBeBytes_replicate_append (16 - bytes.length) bytes]
  rfl

theorem decodes_bignum {tag : UInt64} (htag : tag = 2 ∨ tag = 3) {n : ℕ} (hn : n < 2 ^ 127)
    (i : I128) (hi : i.val = if tag = 2 then (n : ℤ) else -1 - n) :
    Decodes (decode t opts) (writeTypeNumber 6 tag ++
      (writeTypeNumber 2 (UInt64.ofNat (minimalBe n).length) ++ minimalBe n)) (.integer i) := by
  have hlen := length_minimalBe_le n
  have hnat : beNat (minimalBe n) = n := beNat_minimalBe (by omega)
  have hval : (I128.ofBeBytes (minimalBe n)).val = n := by
    rw [I128.ofBeBytes_of_lt (by rwa [hnat]), hnat]
  have hvalue : Decodes (bignumToI128 t tag (minimalBe n)) [] (some i) := by
    rw [bignumToI128_eq t tag hlen]
    rcases htag with rfl | rfl
    · have heq : I128.ofBeBytes (minimalBe n) = i := Subtype.ext (by rw [hval, hi, if_pos rfl])
      rw [if_pos rfl, heq]
      exact Decodes.pure _
    · rw [if_neg (by decide)] at hi ⊢
      rw [hval, ← hi, I128.arith_of_mem i.property]
      exact (Decodes.pure i).bind_nil (Decodes.pure _)
  apply decodes_of_head
  rw [decodeBody_tag t opts _ (additional_lt tag)]
  refine (decodes_readLen 6 tag).bind ((Decodes.pure (tag, minimalWidth tag)).bind ?_)
  refine (decodes_bytes t opts (hlen.trans_lt (by decide))).bind_nil ?_
  dsimp only
  rw [if_pos htag]
  exact hvalue.bind_nil (Decodes.pure _)

theorem decodes_integer (i : I128) : Decodes (decode t opts) i.encoding (.integer i) := by
  have hlt := i.magnitude_lt
  have hval : i.val = if 0 ≤ i.val then (i.magnitude : ℤ) else -1 - i.magnitude := by
    unfold I128.magnitude
    split <;> omega
  unfold I128.encoding
  dsimp only
  split_ifs with hsmall hpos hpos
  · refine decodes_integer_head t opts (.inl rfl) _ i ?_
    rw [if_pos hpos] at hval
    rw [if_pos rfl, UInt64.toNat_ofNat', Nat.mod_eq_of_lt hsmall, ← hval]
  · refine decodes_integer_head t opts (.inr rfl) _ i ?_
    rw [if_neg hpos] at hval
    rw [if_neg (by decide), UInt64.toNat_ofNat', Nat.mod_eq_of_lt hsmall, ← hval]
  · refine decodes_bignum t opts (.inl rfl) hlt i ?_
    rwa [if_pos hpos] at hval
  · refine decodes_bignum t opts (.inr rfl) hlt i ?_
    rwa [if_neg hpos] at hval

theorem decodes_simple {s : UInt8} (hs : s ≤ 19 ∨ 32 ≤ s) :
    Decodes (decode t opts) (encodeSimple s) (.simple s) := by
  intro rest
  unfold encodeSimple
  rcases hs with hs | hs
  · have hle : s ≤ 23 := UInt8.le_trans hs (by decide)
    have hlt : s < 32 := UInt8.lt_of_le_of_lt hs (by decide)
    rw [if_pos hle, singleton_append, decode_cons]
    change decodeBody t opts _ (((7 : UInt8) <<< 5) ||| s) rest = _
    rw [decodeBody_simple t opts _ hlt, decodeSimple, if_pos hs]
    rfl
  · have hnot : ¬ s ≤ 31 := UInt8.not_le.mpr (UInt8.lt_of_lt_of_le (by decide) hs)
    have hle : ¬ s ≤ 23 := fun h => hnot (UInt8.le_trans h (by decide))
    rw [if_neg hle, cons_append, decode_cons]
    change decodeBody t opts _ (((7 : UInt8) <<< 5) ||| 24) ([s] ++ rest) = _
    rw [decodeBody_simple t opts _ (by decide), decodeSimple]
    change (readU8 >>= _) ([s] ++ rest) = _
    rw [bind_of_ok (decodes_readU8 s rest), if_neg hnot]
    rfl

end Leaves

theorem compare_eq_lt_iff (a b : Bytes) : compare a b = .lt ↔ a < b := by
  induction a generalizing b with
  | nil =>
    cases b <;> simp
  | cons x a ih =>
    cases b with
    | nil => simp
    | cons y b =>
      have hhead : compare x y = .lt ↔ x < y := Std.compare_eq_lt
      rw [List.compare_eq_compareLex, List.compareLex_cons_cons, cons_lt_cons_iff, ← ih,
        ← List.compare_eq_compareLex, ← hhead, ← Std.compare_eq_iff_eq (a := x),
        Ordering.then_eq_lt]

theorem canonicalKeyLt_eq {checks : Bool} {a b : Value}
    (ha : checks = true → a.Everywhere Value.NotMin)
    (hb : checks = true → b.Everywhere Value.NotMin) :
    canonicalKeyLt checks a b = some (Value.canonicalKeyCmp a b == .lt) := by
  rw [canonicalKeyLt, encodeValue_eq ha, encodeValue_eq hb, Value.canonicalKeyCmp, keyCmp]
  simp only [Option.bind_eq_bind, Option.bind_some]
  cases hlen : compare (a.encoding false).length (b.encoding false).length with
  | eq =>
    simp only [Option.pure_def, Option.some.injEq, ← compare_eq_lt_iff]
    cases compare (a.encoding false) (b.encoding false) <;> rfl
  | lt => rfl
  | gt => rfl

namespace Value

/-! ## Values that are read back -/

/-- What the round trip asks of an item: a number other than `i128::MIN`, a simple value
that can be written, no bignum tag over a string that the decoder takes for an integer, no
float, and vectors that fit into memory. -/
def Plain (t : Target) : Value → Prop
  | .integer i => i ≠ I128.min
  | .float _ => False
  | .simple s => s ≤ 19 ∨ 32 ≤ s
  | .bytes b => b.length ≤ isizeMax
  | .text s => (utf8 s).length ≤ isizeMax
  | .array items => items.length * t.valueSize ≤ isizeMax
  | .map pairs => pairs.length * (2 * t.valueSize) ≤ isizeMax
  | .tag number inner => number = 2 ∨ number = 3 → ∀ b ∈ inner.asBytes, 16 < b.length
  | .bool _ | .null | .undefined => True

instance (t : Target) : DecidablePred (Plain t) := fun v =>
  match v with
  | .integer i => inferInstanceAs (Decidable (i ≠ I128.min))
  | .float _ => inferInstanceAs (Decidable False)
  | .simple s => inferInstanceAs (Decidable (s ≤ 19 ∨ 32 ≤ s))
  | .bytes b => inferInstanceAs (Decidable (b.length ≤ isizeMax))
  | .text s => inferInstanceAs (Decidable ((utf8 s).length ≤ isizeMax))
  | .array items => inferInstanceAs (Decidable (items.length * t.valueSize ≤ isizeMax))
  | .map pairs => inferInstanceAs (Decidable (pairs.length * (2 * t.valueSize) ≤ isizeMax))
  | .tag number inner => inferInstanceAs
      (Decidable (number = 2 ∨ number = 3 → ∀ b ∈ inner.asBytes, 16 < b.length))
  | .bool _ | .null | .undefined => inferInstanceAs (Decidable True)

def Readable (t : Target) : Value → Prop
  | .integer _ => True
  | v => v.Plain t

def Ordered (opts : DecodeOptions) : Value → Prop
  | .map pairs =>
    (opts.rejectDuplicateKeys || opts.canonical → pairs.Pairwise fun a b => a.1 ≠ b.1) ∧
      (opts.canonical → pairs.Pairwise fun a b => canonicalKeyCmp a.1 b.1 = .lt)
  | _ => True

variable {t : Target} {opts : DecodeOptions}

variable {v : Value}

theorem Plain.readable (h : v.Plain t) : v.Readable t := by
  cases v <;> first | exact h | trivial

theorem Readable.notFloat (h : v.Readable t) : NotFloat v := by
  cases v <;> first | exact h.elim | trivial

theorem Plain.notMin (h : v.Plain t) : NotMin v := by
  rintro rfl
  exact h rfl

end Value

open Value

section Nested

variable {t : Target} {opts : DecodeOptions}

theorem decodes_array {items : List Value} (hplain : (Value.array items).Readable t)
    (h : ∀ v ∈ items, Decodes (decode t opts) (v.encoding false) v) :
    Decodes (decode t opts) ((Value.array items).encoding false) (.array items) := by
  have hpos := t.valueSize_pos
  have hlen : items.length ≤ isizeMax := (Nat.le_mul_of_pos_right _ hpos).trans hplain
  rw [encoding_array]
  apply decodes_of_head
  rw [decodeBody_array t opts _ (additional_lt _)]
  refine (decodes_readLen 4 _).bind ?_
  dsimp only
  rw [toNat_ofNat_of_lt (lt_of_le_isizeMax hlen), reserve, if_neg (Nat.not_lt.mpr hplain)]
  refine (Decodes.pure ()).bind ?_
  refine Decodes.bind_nil ?_ (Decodes.pure _)
  refine decodes_loop (fun _ => reads_decode t opts) items [] fun ys x zs hitems => ?_
  exact h x (by rw [hitems]; simp)

variable {pairs : List (Value × Value)} {v : Value}

theorem decodes_checkKey {key : Value} (hplain : ∀ e ∈ pairs, e.1.Everywhere (Readable t))
    (hmin : t.checks = true → ∀ e ∈ pairs, e.1.Everywhere NotMin)
    (hkey : t.checks = true → key.Everywhere NotMin)
    (hne : opts.rejectDuplicateKeys || opts.canonical → ∀ e ∈ pairs, e.1 ≠ key)
    (hlt : opts.canonical → ∀ e ∈ pairs, canonicalKeyCmp e.1 key = .lt) :
    Decodes (checkKey t opts pairs key) [] () := by
  have hdup : ¬ ((opts.rejectDuplicateKeys || opts.canonical) &&
      pairs.any fun e => e.1.beq key) = true := by
    rw [Bool.and_eq_true, any_eq_true]
    rintro ⟨hcheck, e, he, hbeq⟩
    have hfree : FloatFree e.1 := (hplain e he).mono fun _ => Readable.notFloat
    exact hne hcheck e he ((beq_iff_of_floatFree hfree key).mp hbeq)
  unfold checkKey
  rw [if_neg hdup]
  split
  · rename_i hcanonical
    cases hlast : pairs.getLast? with
    | none => exact Decodes.pure _
    | some last =>
      have hmem := mem_of_getLast? hlast
      dsimp only
      rw [canonicalKeyLt_eq (fun hchecks => hmin hchecks _ hmem) hkey, hlt hcanonical last hmem]
      exact (Decodes.pure true).bind (Decodes.pure _)
  · exact Decodes.pure _

theorem decodes_map (hplain : (Value.map pairs).Everywhere (Readable t))
    (hmin : t.checks = true → (Value.map pairs).Everywhere NotMin)
    (hordered : (Value.map pairs).Ordered opts)
    (h : ∀ e ∈ pairs, Decodes (decode t opts) (e.1.encoding false) e.1 ∧
      Decodes (decode t opts) (e.2.encoding false) e.2) :
    Decodes (decode t opts) ((Value.map pairs).encoding false) (.map pairs) := by
  rw [everywhere_map] at hplain
  obtain ⟨hself, hpairs⟩ := hplain
  have hpos := t.valueSize_pos
  have hlen : pairs.length ≤ isizeMax :=
    (Nat.le_mul_of_pos_right _ (Nat.mul_pos Nat.two_pos hpos)).trans hself
  rw [encoding_map_default]
  apply decodes_of_head
  rw [decodeBody_map t opts _ (additional_lt _)]
  refine (decodes_readLen 5 _).bind ?_
  dsimp only
  rw [toNat_ofNat_of_lt (lt_of_le_isizeMax hlen)]
  refine Decodes.bind_nil ?_ (Decodes.pure _)
  refine decodes_loop (reads_decodePair (reads_decode t opts)) pairs [] fun ys e zs hsplit => ?_
  have hmem : e ∈ pairs := by rw [hsplit]; simp
  have hbefore : ∀ e' ∈ ys, e' ∈ pairs := fun e' he' => by rw [hsplit]; simp [he']
  -- in an ordered list, what stands before a pair is related to it
  have hrel : ∀ {R : Value × Value → Value × Value → Prop}, pairs.Pairwise R →
      ∀ e' ∈ ys, R e' e := by
    intro R hR e' he'
    rw [hsplit, pairwise_append] at hR
    exact hR.2.2 e' he' e (mem_cons_self)
  have hkeyMin : t.checks = true → ∀ e ∈ pairs, e.1.Everywhere NotMin := fun hchecks e' he' =>
    (((everywhere_map pairs).mp (hmin hchecks)).2 e' he').1
  have hcheck : Decodes (checkKey t opts ys e.1) [] () :=
    decodes_checkKey (fun e' he' => (hpairs e' (hbefore e' he')).1)
      (fun hchecks e' he' => hkeyMin hchecks e' (hbefore e' he'))
      (fun hchecks => hkeyMin hchecks e hmem)
      (fun hc => hrel (hordered.1 hc)) (fun hc => hrel (hordered.2 hc))
  exact (h e hmem).1.bind ((h e hmem).2.bind_nil (hcheck.bind_nil (Decodes.pure _)))

theorem decodes_tag {number : UInt64} {inner : Value} (hplain : (Value.tag number inner).Readable t)
    (h : Decodes (decode t opts) (inner.encoding false) inner) :
    Decodes (decode t opts) ((Value.tag number inner).encoding false) (.tag number inner) := by
  rw [encoding_tag]
  apply decodes_of_head
  rw [decodeBody_tag t opts _ (additional_lt _)]
  refine (decodes_readLen 6 _).bind ((Decodes.pure (number, minimalWidth number)).bind ?_)
  refine h.bind_nil ?_
  cases inner with
  | bytes b =>
    dsimp only
    split
    · rename_i hbig
      rw [bignumToI128, if_pos (hplain hbig b rfl)]
      exact (Decodes.pure none).bind (Decodes.pure _)
    · exact Decodes.pure _
  | _ => exact Decodes.pure _

theorem decodes_encoding_of_readable (hplain : v.Everywhere (Readable t))
    (hmin : t.checks = true → v.Everywhere NotMin) (hordered : v.Everywhere (Ordered opts)) :
    Decodes (decode t opts) (v.encoding false) v := by
  induction v with
  | integer i =>
    rw [encoding_integer]
    exact decodes_integer t opts i
  | float f => exact hplain.self.elim
  | bool b =>
    rw [encoding_bool]
    intro rest
    rw [singleton_append, decode_cons]
    cases b <;> rfl
  | null =>
    rw [encoding_null]
    intro rest
    rw [singleton_append, decode_cons]
    rfl
  | undefined =>
    rw [encoding_undefined]
    intro rest
    rw [singleton_append, decode_cons]
    rfl
  | simple s =>
    rw [encoding_simple]
    exact decodes_simple t opts hplain.self
  | bytes b =>
    rw [encoding_bytes]
    exact decodes_bytes t opts (lt_of_le_isizeMax hplain.self)
  | text s =>
    rw [encoding_text]
    exact decodes_text t opts (lt_of_le_isizeMax hplain.self)
  | array items ih =>
    rw [everywhere_array] at hplain hordered
    exact decodes_array hplain.1 fun v hv => ih v hv (hplain.2 v hv)
      (fun hchecks => ((everywhere_array items).mp (hmin hchecks)).2 v hv) (hordered.2 v hv)
  | map pairs ih =>
    rw [everywhere_map] at hordered
    have hpairs := ((everywhere_map pairs).mp hplain).2
    have hpairsMin := fun hchecks => ((everywhere_map pairs).mp (hmin hchecks)).2
    exact decodes_map hplain hmin hordered.1 fun e he =>
      ⟨(ih e he).1 (hpairs e he).1 (fun hc => (hpairsMin hc e he).1) (hordered.2 e he).1,
        (ih e he).2 (hpairs e he).2 (fun hc => (hpairsMin hc e he).2) (hordered.2 e he).2⟩
  | tag number inner ih =>
    rw [everywhere_tag] at hplain hordered
    exact decodes_tag hplain.1 (ih hplain.2
      (fun hchecks => ((everywhere_tag number inner).mp (hmin hchecks)).2) hordered.2)

theorem decodes_encoding (hplain : v.Everywhere (Plain t))
    (hordered : v.Everywhere (Ordered opts)) : Decodes (decode t opts) (v.encoding false) v :=
  decodes_encoding_of_readable (hplain.mono fun _ => Plain.readable)
    (fun _ => hplain.mono fun _ => Plain.notMin) hordered

theorem ordered_default (v : Value) : v.Ordered {} := by
  cases v with
  | map pairs => exact ⟨fun h => absurd h (by decide), fun h => absurd h (by decide)⟩
  | _ => trivial

/-- Decoding inverts encoding, and stops where the encoding ends. -/
theorem decode_encode_value (t : Target) (v : Value) (hv : v.Everywhere (Plain t)) (rest : Bytes) :
    ∃ bytes, encodeValue t.checks false v = some bytes ∧
      decode t {} (bytes ++ rest) = .ok (v, rest) :=
  ⟨v.encoding false, encodeValue_eq (fun _ => hv.mono fun _ => Plain.notMin) false,
    decodes_encoding hv (fun w _ => ordered_default w) rest⟩

theorem decode_encode_value_sample :
    ∃ bytes, encodeValue true false (.map [(.text "a", .array [.integer ⟨-2 ^ 70, by decide⟩,
        .simple 255]), (.map [], .tag 2 (.bytes (List.replicate 17 0)))]) = some bytes ∧
      decode ⟨true, 32, by decide⟩ {} (bytes ++ [0xff]) =
        .ok (.map [(.text "a", .array [.integer ⟨-2 ^ 70, by decide⟩, .simple 255]),
          (.map [], .tag 2 (.bytes (List.replicate 17 0)))], [0xff]) :=
  decode_encode_value ⟨true, 32, by decide⟩ _ (by decide +kernel) [0xff]

end Nested

end TptRfc.Cbor
