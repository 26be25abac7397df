import TptRfc.Cbor.Canonical

/-!
# CBOR: preferred serialization

The float-free items in which every head is shortest and every bignum is minimal, as a grammar of
byte strings.
-/

namespace TptRfc.Cbor

open Lib Parser Value List

inductive Preferred : Bytes → Prop
  | integer (major : UInt8) (hmajor : major = 0 ∨ major = 1) (n : UInt64) :
      Preferred (writeTypeNumber major n)
  | string (isText : Bool) (b : Bytes) (hlen : b.length < 2 ^ 64) :
      Preferred (writeTypeNumber (stringMajor isText) (UInt64.ofNat b.length) ++ b)
  | array (xs : List Bytes) (hlen : xs.length < 2 ^ 64) (h : ∀ x ∈ xs, Preferred x) :
      Preferred (writeTypeNumber 4 (UInt64.ofNat xs.length) ++ xs.flatten)
  | map (xs : List (Bytes × Bytes)) (hlen : xs.length < 2 ^ 64)
      (hkeys : ∀ x ∈ xs, Preferred x.1) (hvals : ∀ x ∈ xs, Preferred x.2) :
      Preferred (writeTypeNumber 5 (UInt64.ofNat xs.length) ++ xs.flatMap fun x => x.1 ++ x.2)
  | bignum (tag : UInt64) (htag : tag = 2 ∨ tag = 3) (b : Bytes) (hlong : 8 < b.length)
      (hshort : b.length ≤ 16) (hhead : b.head? ≠ some 0) (hval : beNat b < 2 ^ 127) :
      Preferred (writeTypeNumber 6 tag ++ (writeTypeNumber 2 (UInt64.ofNat b.length) ++ b))
  | tag (number : UInt64) (x : Bytes) (h : Preferred x)
      (hbig : number = 2 ∨ number = 3 → ∀ b ∈ x.head?, b < 0x40 ∨ 0x50 < b) :
      Preferred (writeTypeNumber 6 number ++ x)
  | simple (s : UInt8) (hs : s ≤ 23 ∨ 32 ≤ s) : Preferred (encodeSimple s)

/-! ## Decoding a preferred item -/

section Decode

variable {t : Target} {opts : DecodeOptions}

variable {rest rest' b : Bytes}

/-- Whatever is decoded off the bytes is encoded as these bytes. -/
def ReadsBack (t : Target) (opts : DecodeOptions) (b : Bytes) : Prop :=
  ∀ rest v rest', decode t opts (b ++ rest) = .ok (v, rest') →
    rest' = rest ∧ v.encoding false = b

theorem ReadsBack.of_decodes {v : Value} (hdec : Decodes (decode t opts) b v)
    (henc : v.encoding false = b) : ReadsBack t opts b := by
  intro rest w rest' h
  rw [hdec rest] at h
  cases h
  exact ⟨rfl, henc⟩

theorem exists_integer {n : ℕ} (hn : n < 2 ^ 127) (p : Prop) [Decidable p] :
    ∃ i : I128, i.val = (if p then (n : ℤ) else -1 - n) ∧ i.magnitude = n ∧ (0 ≤ i.val ↔ p) := by
  by_cases hp : p
  · refine ⟨⟨n, by unfold InI128; omega⟩, by rw [if_pos hp], by simp [I128.magnitude], ?_⟩
    exact iff_of_true (Int.natCast_nonneg n) hp
  · have hneg : ¬ (0 : ℤ) ≤ -1 - n := by omega
    refine ⟨⟨-1 - n, by unfold InI128; omega⟩, by rw [if_neg hp], ?_, iff_of_false hneg hp⟩
    simp only [I128.magnitude, if_neg hneg]
    omega

theorem exists_integer_head {major : UInt8} (hmajor : major = 0 ∨ major = 1) (n : UInt64) :
    ∃ i : I128, i.val = (if major = 0 then (n.toNat : ℤ) else -1 - n.toNat) ∧
      i.encoding = writeTypeNumber major n := by
  have hn := n.toNat_lt
  obtain ⟨i, hval, hmag, hsign⟩ := exists_integer (n := n.toNat) (by omega) (major = 0)
  refine ⟨i, hval, ?_⟩
  rw [I128.encoding, hmag, if_pos hn]
  rcases hmajor with rfl | rfl <;> simp [hsign]

theorem exists_integer_bignum {tag : UInt64} (htag : tag = 2 ∨ tag = 3) {n : ℕ}
    (hlow : 2 ^ 64 ≤ n) (hn : n < 2 ^ 127) :
    ∃ i : I128, i.val = (if tag = 2 then (n : ℤ) else -1 - n) ∧
      i.encoding = writeTypeNumber 6 tag ++
        (writeTypeNumber 2 (UInt64.ofNat (minimalBe n).length) ++ minimalBe n) := by
  obtain ⟨i, hval, hmag, hsign⟩ := exists_integer hn (tag = 2)
  refine ⟨i, hval, ?_⟩
  rw [I128.encoding, hmag, if_neg (by omega)]
  rcases htag with rfl | rfl <;> simp [hsign]

theorem le_beNat_of_head (hlong : 8 < b.length) (hhead : b.head? ≠ some 0) : 2 ^ 64 ≤ beNat b := by
  cases b with
  | nil => simp at hlong
  | cons x b =>
    have hx : 1 ≤ x.toNat := by
      rw [Nat.one_le_iff_ne_zero]
      exact fun h => hhead (by rw [head?_cons, ← UInt8.ofNat_toNat (x := x), h]; rfl)
    have hpow : 256 ^ 8 ≤ 256 ^ b.length := Nat.pow_le_pow_right (by omega) (by simpa using hlong)
    have hmul : 256 ^ b.length ≤ x.toNat * 256 ^ b.length := Nat.le_mul_of_pos_left _ hx
    rw [beNat]
    omega

theorem decode_tag (number : UInt64) (bytes : Bytes) :
    decode t opts (writeTypeNumber 6 number ++ bytes) =
      (do
        let inner ← decode t opts
        match inner with
        | .bytes b =>
          if number = 2 ∨ number = 3 then do
            let v ← bignumToI128 t number b
            match v with
            | some v => pure (.integer v)
            | none => pure (.tag number (.bytes b))
          else pure (.tag number (.bytes b))
        | inner => pure (.tag number inner) : Decode Value) bytes := by
  rw [writeTypeNumber_eq, cons_append, decode_cons, decodeBody_tag t opts _ (additional_lt _),
    decodeTag, bind_of_ok (decodes_readLen 6 number bytes)]
  rfl

theorem decodePair_preferred {x : Bytes × Bytes}
    (hx : ReadsBack t opts x.1 ∧ ReadsBack t opts x.2) {acc : List (Value × Value)}
    {e : Value × Value}
    (h : decodePair t opts (decode t opts) acc (x.1 ++ x.2 ++ rest) = .ok (e, rest')) :
    rest' = rest ∧ pairEncoding false e = x.1 ++ x.2 := by
  simp only [decodePair, bind_ok_iff, append_assoc] at h
  obtain ⟨key, mid₁, hkey, val, mid₂, hval, ⟨⟩, mid₃, hcheck, h⟩ := h
  obtain ⟨rfl, hkeyEnc⟩ := hx.1 _ _ _ hkey
  obtain ⟨rfl, hvalEnc⟩ := hx.2 _ _ _ hval
  obtain rfl := checkKey_rest hcheck
  cases h
  exact ⟨rfl, by rw [pairEncoding, hkeyEnc, hvalEnc]⟩

theorem decodes_encodeSimple {s : UInt8} (hs : s ≤ 23 ∨ 32 ≤ s) :
    ∃ v : Value, Decodes (decode t opts) (encodeSimple s) v ∧
      v.encoding false = encodeSimple s := by
  by_cases hplain : s ≤ 19 ∨ 32 ≤ s
  · exact ⟨.simple s, decodes_simple t opts hplain, encoding_simple false s⟩
  · have hcases : s = 20 ∨ s = 21 ∨ s = 22 ∨ s = 23 := by
      rw [not_or, UInt8.not_le, UInt8.not_le] at hplain
      simp only [UInt8.le_iff_toNat_le, UInt8.lt_iff_toNat_lt, UInt8.reduceToNat,
        ← UInt8.toNat_inj] at hs hplain ⊢
      omega
    have hone : ∀ b v, encodeSimple s = [b] →
        (∀ rest, decodeBody t opts (decode t opts) b rest = .ok (v, rest)) →
        Decodes (decode t opts) (encodeSimple s) v := by
      intro b v hb hbody rest
      rw [hb, singleton_append, decode_cons, hbody]
    rcases hcases with rfl | rfl | rfl | rfl
    · exact ⟨.bool false, hone 0xf4 _ rfl fun _ => rfl, encoding_bool false false⟩
    · exact ⟨.bool true, hone 0xf5 _ rfl fun _ => rfl, encoding_bool false true⟩
    · exact ⟨.null, hone 0xf6 _ rfl fun _ => rfl, encoding_null false⟩
    · exact ⟨.undefined, hone 0xf7 _ rfl fun _ => rfl, encoding_undefined false⟩

theorem head_encoding_bytes (h : b.length ≤ 16) :
    ((Value.bytes b).encoding false).head? = some (0x40 + UInt8.ofNat b.length) := by
  have hall : ∀ n ≤ 16, (writeTypeNumber 2 (UInt64.ofNat n)).head? =
      some (0x40 + UInt8.ofNat n) := by decide +kernel
  rw [encoding_bytes, head?_append, hall _ h]
  rfl

theorem readsBack_string (isText : Bool) (hlen : b.length < 2 ^ 64) :
    ReadsBack t opts (writeTypeNumber (stringMajor isText) (UInt64.ofNat b.length) ++ b) := by
  intro rest v rest' h
  rw [append_assoc, writeTypeNumber_eq, cons_append, decode_cons,
    decodeBody_string t opts _ (additional_lt _), decodeBytes,
    bind_of_ok (decodes_readLen 2 _ _)] at h
  obtain ⟨str, mid, hread, hmat⟩ := bind_eq_ok h
  have hexact := decodes_readExact b rest
  rw [toNat_ofNat_of_lt hlen, hexact] at hread
  cases hread
  obtain ⟨rfl, ⟨rfl, rfl⟩ | ⟨s, rfl, rfl, hs⟩⟩ := materializeString_eq_ok hmat
  · exact ⟨rfl, encoding_bytes false _⟩
  · exact ⟨rfl, by rw [encoding_text, hs]; rfl⟩

theorem readsBack_array {xs : List Bytes} (hlen : xs.length < 2 ^ 64)
    (ih : ∀ x ∈ xs, ReadsBack t opts x) :
    ReadsBack t opts (writeTypeNumber 4 (UInt64.ofNat xs.length) ++ xs.flatten) := by
  intro rest v rest' h
  rw [append_assoc, writeTypeNumber_eq, cons_append, decode_cons,
    decodeBody_array t opts _ (additional_lt _), decodeArray,
    bind_of_ok (decodes_readLen 4 _ _)] at h
  obtain ⟨_, mid, hres, h⟩ := bind_eq_ok h
  have hmid : mid = xs.flatten ++ rest := by
    unfold reserve at hres
    split at hres
    · cases hres
    · cases hres
      rfl
  obtain ⟨items, rest'', hloop, hpure⟩ := bind_eq_ok h
  cases hpure
  rw [hmid, toNat_ofNat_of_lt hlen, ← flatMap_id] at hloop
  obtain ⟨hrest, vs, hitems, hvs⟩ := loop_reads_back (fun _ => reads_decode t opts)
    (fun x hx _ => ih x hx) hloop
  rw [map_id'] at hvs
  refine ⟨hrest, ?_⟩
  rw [encoding_array, hitems, nil_append, ← length_map (f := encoding false), hvs, flatMap, hvs]

theorem readsBack_map {xs : List (Bytes × Bytes)} (hlen : xs.length < 2 ^ 64)
    (ih : ∀ x ∈ xs, ReadsBack t opts x.1 ∧ ReadsBack t opts x.2) :
    ReadsBack t opts
      (writeTypeNumber 5 (UInt64.ofNat xs.length) ++ xs.flatMap fun x => x.1 ++ x.2) := by
  intro rest v rest' h
  rw [append_assoc, writeTypeNumber_eq, cons_append, decode_cons,
    decodeBody_map t opts _ (additional_lt _), decodeMap,
    bind_of_ok (decodes_readLen 5 _ _)] at h
  obtain ⟨pairs, rest'', hloop, hpure⟩ := bind_eq_ok h
  cases hpure
  rw [toNat_ofNat_of_lt hlen] at hloop
  obtain ⟨hrest, es, hpairs, hes⟩ := loop_reads_back (reads_decodePair (reads_decode t opts))
    (fun x hx _ _ _ _ => decodePair_preferred (ih x hx)) hloop
  refine ⟨hrest, ?_⟩
  rw [encoding_map_default, hpairs, nil_append, flatMap_def, hes, ← flatMap_def,
    ← length_map (f := pairEncoding false), hes, length_map]

/-- A byte string behind a bignum tag is too long for one, so that the tag is kept. -/
theorem readsBack_tag {number : UInt64} (ih : ReadsBack t opts b)
    (hbig : number = 2 ∨ number = 3 → ∀ a ∈ b.head?, a < 0x40 ∨ 0x50 < a) :
    ReadsBack t opts (writeTypeNumber 6 number ++ b) := by
  intro rest v rest' h
  rw [append_assoc, decode_tag] at h
  obtain ⟨inner, mid, hinner, h⟩ := bind_eq_ok h
  obtain ⟨rfl, henc⟩ := ih _ _ _ hinner
  have htag : (Value.tag number inner).encoding false = writeTypeNumber 6 number ++ b := by
    rw [encoding_tag, henc]
  cases inner with
  | bytes str =>
    dsimp only at h
    split at h
    · rename_i hnum
      have hlen : 16 < str.length := by
        by_contra hle
        have hle := Nat.not_lt.mp hle
        have hrange : ∀ n ≤ 16, ¬ ((0x40 : UInt8) + UInt8.ofNat n < 0x40 ∨
            (0x50 : UInt8) < 0x40 + UInt8.ofNat n) := by decide +kernel
        exact hrange _ hle (hbig hnum _ (by rw [← henc]; exact head_encoding_bytes hle))
      rw [bignumToI128, if_pos hlen] at h
      cases h
      exact ⟨rfl, htag⟩
    · cases h
      exact ⟨rfl, htag⟩
  | _ =>
    cases h
    exact ⟨rfl, htag⟩

theorem encoding_of_decode_preferred (hb : Preferred b) : ReadsBack t opts b := by
  induction hb with
  | integer major hmajor n =>
    obtain ⟨i, hi, henc⟩ := exists_integer_head hmajor n
    exact .of_decodes (decodes_integer_head t opts hmajor n i hi) (by rw [encoding_integer, henc])
  | string isText b hlen => exact readsBack_string isText hlen
  | array xs hlen _ ih => exact readsBack_array hlen ih
  | map xs hlen _ _ ihkeys ihvals => exact readsBack_map hlen fun x hx => ⟨ihkeys x hx, ihvals x hx⟩
  | bignum tag htag b hlong hshort hhead hval =>
    obtain ⟨i, hi, henc⟩ := exists_integer_bignum htag (le_beNat_of_head hlong hhead) hval
    have hdec := decodes_bignum t opts htag hval i hi
    rw [minimalBe_beNat hshort hhead] at hdec henc
    exact .of_decodes hdec (by rw [encoding_integer, henc])
  | tag number x _ hbig ih => exact readsBack_tag ih hbig
  | simple s hs =>
    obtain ⟨v, hdec, henc⟩ := @decodes_encodeSimple t opts s hs
    exact .of_decodes hdec henc

end Decode

/-! ## Encoding into preferred items -/

theorem initial_not_short (major : UInt8) {ai : UInt8} (hmajor : major < 8) (hai : ai < 32)
    (h : major ≠ 2 ∨ 16 < ai) :
    ((major <<< 5) ||| ai) < 0x40 ∨ (0x50 : UInt8) < ((major <<< 5) ||| ai) := by
  have hall : ∀ m < 8, ∀ a < 32, (UInt8.ofNat m ≠ 2 ∨ 16 < UInt8.ofNat a) →
      ((UInt8.ofNat m <<< 5) ||| UInt8.ofNat a) < 0x40 ∨
        (0x50 : UInt8) < ((UInt8.ofNat m <<< 5) ||| UInt8.ofNat a) := by
    decide +kernel
  have := hall major.toNat (UInt8.lt_iff_toNat_lt.mp hmajor) ai.toNat
    (UInt8.lt_iff_toNat_lt.mp hai)
  simp only [UInt8.ofNat_toNat] at this
  exact this h

theorem head_writeTypeNumber {major : UInt8} (hmajor : major < 8) {value : UInt64}
    (h : major ≠ 2 ∨ 16 < additional value) (rest : Bytes) :
    ∀ b ∈ (writeTypeNumber major value ++ rest).head?, b < 0x40 ∨ 0x50 < b := by
  intro b hb
  rw [writeTypeNumber_eq, cons_append] at hb
  cases hb
  exact initial_not_short major hmajor (additional_lt value) h

theorem lt_additional {n : ℕ} (hlow : 16 < n) (hn : n < 2 ^ 64) :
    16 < additional (UInt64.ofNat n) := by
  have hnat : (UInt64.ofNat n).toNat = n := toNat_ofNat_of_lt hn
  unfold additional
  split_ifs with hsmall
  · rw [UInt64.lt_iff_toNat_lt, hnat] at hsmall
    rw [UInt8.lt_iff_toNat_lt, UInt64.toNat_toUInt8, hnat]
    simp only [UInt64.reduceToNat, UInt8.reduceToNat] at hsmall ⊢
    omega
  all_goals decide

variable {v : Value}

theorem head_encoding_of_sound (hsound : v.Sound) (hfloat : v.Everywhere NotFloat)
    (hlong : ∀ b ∈ v.asBytes, 16 < b.length) :
    ∀ b ∈ (v.encoding false).head?, b < 0x40 ∨ 0x50 < b := by
  have hone : ∀ x : UInt8, (x < 0x40 ∨ 0x50 < x) → ∀ b ∈ [x].head?, b < 0x40 ∨ 0x50 < b := by
    intro x hx b hb
    cases hb
    exact hx
  cases v with
  | integer i =>
    rw [encoding_integer]
    unfold I128.encoding
    dsimp only
    split
    · rw [← append_nil (writeTypeNumber _ _)]
      exact head_writeTypeNumber (by split <;> decide) (.inl (by split <;> decide)) _
    · exact head_writeTypeNumber (by decide) (.inl (by decide)) _
  | float f => exact hfloat.self.elim
  | bool b =>
    rw [encoding_bool]
    exact hone _ (by cases b <;> decide)
  | null =>
    rw [encoding_null]
    exact hone _ (by decide)
  | undefined =>
    rw [encoding_undefined]
    exact hone _ (by decide)
  | simple s =>
    rw [encoding_simple, encodeSimple]
    split
    · rename_i hs
      have hlt : s < 32 := UInt8.lt_of_le_of_lt hs (by decide)
      exact hone _ (initial_not_short 7 (by decide) hlt (.inl (by decide)))
    · intro b hb
      cases hb
      decide
  | bytes b =>
    rw [encoding_bytes]
    exact head_writeTypeNumber (by decide) (.inr (lt_additional (hlong b rfl) hsound)) _
  | text s =>
    rw [encoding_text]
    exact head_writeTypeNumber (by decide) (.inl (by decide)) _
  | array items =>
    rw [encoding_array]
    exact head_writeTypeNumber (by decide) (.inl (by decide)) _
  | map pairs =>
    rw [encoding_map_default]
    exact head_writeTypeNumber (by decide) (.inl (by decide)) _
  | tag number inner =>
    rw [encoding_tag]
    exact head_writeTypeNumber (by decide) (.inl (by decide)) _

theorem head_minimalBe (n : ℕ) : (minimalBe n).head? ≠ some 0 := by
  intro h
  have hhead := head?_dropWhile_not (fun b => b == 0) (beBytes 16 n)
  rw [← minimalBe, h] at hhead
  exact absurd hhead (by decide)

theorem preferred_integer (i : I128) : Preferred i.encoding := by
  have hlt := i.magnitude_lt
  have hnat : beNat (minimalBe i.magnitude) = i.magnitude := beNat_minimalBe (by omega)
  unfold I128.encoding
  dsimp only
  split
  · exact .integer _ (by split <;> decide) _
  · exact .bignum _ (by split <;> decide) _ (lt_length_minimalBe (by omega) (by omega))
      (length_minimalBe_le _) (head_minimalBe _) (by rwa [hnat])

theorem preferred_encoding (hsound : v.Everywhere Sound)
    (hfloat : v.Everywhere NotFloat) : Preferred (v.encoding false) := by
  induction v with
  | integer i =>
    rw [encoding_integer]
    exact preferred_integer i
  | float f => exact hfloat.self.elim
  | bool b =>
    rw [encoding_bool]
    cases b
    · exact .simple 20 (by decide)
    · exact .simple 21 (by decide)
  | null =>
    rw [encoding_null]
    exact .simple 22 (by decide)
  | undefined =>
    rw [encoding_undefined]
    exact .simple 23 (by decide)
  | simple s =>
    rw [encoding_simple]
    exact .simple s (hsound.self.imp (fun h => UInt8.le_trans h (by decide)) id)
  | bytes b =>
    rw [encoding_bytes]
    exact .string false b hsound.self
  | text s =>
    rw [encoding_text]
    exact .string true (utf8 s) hsound.self
  | array items ih =>
    rw [everywhere_array] at hsound hfloat
    rw [encoding_array]
    have harray := Preferred.array (items.map (encoding false))
      (by rw [length_map]; exact hsound.1) (by
        intro x hx
        obtain ⟨v, hv, rfl⟩ := mem_map.mp hx
        exact ih v hv (hsound.2 v hv) (hfloat.2 v hv))
    rwa [length_map] at harray
  | map pairs ih =>
    rw [everywhere_map] at hsound hfloat
    rw [encoding_map_default]
    have hmap := Preferred.map (pairs.map fun e => (e.1.encoding false, e.2.encoding false))
      (by rw [length_map]; exact hsound.1.1)
      (by
        intro x hx
        obtain ⟨e, he, rfl⟩ := mem_map.mp hx
        exact (ih e he).1 (hsound.2 e he).1 (hfloat.2 e he).1)
      (by
        intro x hx
        obtain ⟨e, he, rfl⟩ := mem_map.mp hx
        exact (ih e he).2 (hsound.2 e he).2 (hfloat.2 e he).2)
    rwa [length_map, flatMap_map] at hmap
  | tag number inner ih =>
    rw [everywhere_tag] at hsound hfloat
    rw [encoding_tag]
    exact .tag number _ (ih hsound.2 hfloat.2) fun hbig =>
      head_encoding_of_sound hsound.2.self hfloat.2 (hsound.1 hbig)

/-! ## Canonical decoding -/

/-- A byte string that canonical decoding accepts, with a float-free value, is the canonical
encoding of that value exactly if it is in preferred serialization (and the value can be
encoded at all). -/
theorem encode_decode_canonical_iff (t : Target) (data : Bytes) (v : Value)
    (h : decodeValue t data .canonicalMode = .ok v) (hfloat : v.FloatFree) :
    encodeValue t.checks true v = some data ↔
      Preferred data ∧ (t.checks = true → v.Everywhere NotMin) := by
  have hdec := decodeValue_canonical_eq_ok h
  have hsound := sound_of_decode rfl rfl hdec
  have henc : v.encoding true = v.encoding false :=
    encoding_eq_of_sorted (hsound.mono fun _ => Sound.sortedKeys)
  constructor
  · intro hdata
    have hmin : t.checks = true → v.Everywhere NotMin := by
      intro hc w hw he
      have hnone : encodeValue t.checks true v = none := encodeValue_eq_none_iff.mpr ⟨hc, he ▸ hw⟩
      rw [hdata] at hnone
      cases hnone
    rw [eq_encoding_of_encodeValue hdata, henc]
    exact ⟨preferred_encoding hsound hfloat, hmin⟩
  · rintro ⟨hpref, hmin⟩
    rw [← append_nil data] at hdec
    rw [encodeValue_eq hmin, henc, (encoding_of_decode_preferred hpref _ _ _ hdec).2]

/-- A map with a byte string as it should be, and one with a head that is too long. -/
theorem encode_decode_canonical_iff_sample :
    Preferred [0xa1, 0xf5, 0x41, 0x61] ∧ ¬ Preferred [0x58, 0x01, 0x61] := by
  constructor
  · exact ((encode_decode_canonical_iff ⟨true, 32, by decide⟩ [0xa1, 0xf5, 0x41, 0x61]
      (.map [(.bool true, .bytes [0x61])]) (by decide +kernel) (by decide +kernel)).mp
      (by decide +kernel)).1
  · intro h
    have henc := (encode_decode_canonical_iff ⟨false, 32, by decide⟩ [0x58, 0x01, 0x61]
      (.bytes [0x61]) (by decide +kernel) (by decide +kernel)).mpr ⟨h, nofun⟩
    exact absurd henc (by decide +kernel)

/-- The head of a string is not checked: two byte strings have the same value, and only one
of them is its encoding. -/
theorem canonical_accepts_long_head :
    decodeValue ⟨true, 32, by decide⟩ [0x58, 0x01, 0x61] .canonicalMode = .ok (.bytes [0x61]) ∧
      decodeValue ⟨true, 32, by decide⟩ [0x41, 0x61] .canonicalMode = .ok (.bytes [0x61]) ∧
      encodeValue true true (.bytes [0x61]) = some [0x41, 0x61] ∧
      (Value.bytes [0x61]).FloatFree := by
  decide +kernel

end TptRfc.Cbor
