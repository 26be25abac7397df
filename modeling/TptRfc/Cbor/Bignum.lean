import TptRfc.Cbor.RoundTrip

/-!
# CBOR: what a bignum denotes

The decoder turns a bignum tag over a byte string into an integer by way of the sixteen bytes of an
`i128`.
-/

namespace TptRfc.Cbor

open Lib Parser

/-- The number that a bignum stands for: RFC 8949, section 3.4.3. -/
def bignumValue (tag : UInt64) (content : Bytes) : ℤ :=
  if tag = 2 then beNat content else -1 - beNat content

/-- The value is the number, or it is the bignum as it was and the number is not an `i128`. -/
def DenotesBignum (tag : UInt64) (content : Bytes) (v : Value) : Prop :=
  (∃ i : I128, v = .integer i ∧ i.val = bignumValue tag content) ∨
    ¬ InI128 (bignumValue tag content) ∧ v = .tag tag (.bytes content)

theorem inI128_bignumValue (tag : UInt64) (content : Bytes) :
    InI128 (bignumValue tag content) ↔ beNat content < 2 ^ 127 := by
  unfold InI128 bignumValue
  split <;> omega

theorem I128.ofBeBytes_eq_iff {content : Bytes} :
    (I128.ofBeBytes content).val = beNat content ↔ beNat content < 2 ^ 127 := by
  refine ⟨fun h => ?_, I128.ofBeBytes_of_lt⟩
  have hin := (I128.ofBeBytes content).property.2
  rw [h] at hin
  exact_mod_cast hin

/-- Sixteen bytes are always turned into an integer: `-1 - n` does not overflow. -/
theorem bignumToI128_short (t : Target) {tag : UInt64} {content : Bytes}
    (hlen : content.length ≤ 16) :
    ∃ i : I128, (∀ rest, bignumToI128 t tag content rest = .ok (some i, rest)) ∧
      i.val = if tag = 2 then (I128.ofBeBytes content).val
        else -1 - (I128.ofBeBytes content).val := by
  rw [bignumToI128_eq t tag hlen]
  split
  · exact ⟨_, fun _ => rfl, rfl⟩
  · have hin := (I128.ofBeBytes content).property
    have hneg : InI128 (-1 - (I128.ofBeBytes content).val) := by
      unfold InI128 at hin ⊢
      omega
    rw [I128.arith_of_mem hneg]
    exact ⟨_, fun _ => rfl, rfl⟩

/-- A bignum is decoded to what it denotes if and only if its content has at most sixteen bytes
exactly when its number fits. -/
theorem decode_bignum_denotes_iff (t : Target) (opts : DecodeOptions) {tag : UInt64}
    (htag : tag = 2 ∨ tag = 3) {ai : UInt8} (hai : ai < 32) {bytes mid rest content : Bytes}
    {width : ℕ} (hhead : readLen 6 ai bytes = .ok (some (tag, width), mid))
    (hcontent : decode t opts mid = .ok (.bytes content, rest)) :
    ∃ v, decode t opts (((6 : UInt8) <<< 5 ||| ai) :: bytes) = .ok (v, rest) ∧
      (DenotesBignum tag content v ↔ (content.length ≤ 16 ↔ beNat content < 2 ^ 127)) := by
  rw [decode_cons, decodeBody_tag t opts _ hai, decodeTag, bind_of_ok hhead, bind_of_ok rfl,
    bind_of_ok hcontent]
  dsimp only
  rw [if_pos htag]
  by_cases hlen : content.length ≤ 16
  · obtain ⟨i, hi, hval⟩ := @bignumToI128_short t tag _ hlen
    refine ⟨.integer i, by rw [bind_of_ok (hi rest)]; rfl, ?_⟩
    rw [iff_true_left hlen, ← I128.ofBeBytes_eq_iff]
    unfold DenotesBignum bignumValue
    simp only [Value.integer.injEq, reduceCtorEq, and_false, or_false, exists_eq_left', hval]
    split <;> omega
  · refine ⟨.tag tag (.bytes content), ?_, ?_⟩
    · rw [bignumToI128, if_pos (Nat.not_le.mp hlen)]
      rfl
    · rw [DenotesBignum, inI128_bignumValue]
      simp [hlen]

theorem decode_bignum_denotes_sample :
    ∃ v, decode ⟨true, 32, by decide⟩ {} [0xc2, 0x41, 0x05] = .ok (v, []) ∧
      (DenotesBignum 2 [0x05] v ↔ ([0x05].length ≤ 16 ↔ beNat [0x05] < 2 ^ 127)) :=
  @decode_bignum_denotes_iff _ {} 2 (.inl rfl) 2 (by decide) _ _ _ _ _ rfl rfl

/-- The number `2 ^ 128 - 1` is decoded to `-1`, and seventeen bytes of zero stay a tag. -/
theorem decode_bignum_wrong_value :
    decode ⟨true, 32, by decide⟩ {} (0xc2 :: 0x50 :: List.replicate 16 0xff) =
        .ok (.integer ⟨-1, by decide⟩, []) ∧
      bignumValue 2 (List.replicate 16 0xff) = 2 ^ 128 - 1 ∧
      decode ⟨true, 32, by decide⟩ {} (0xc2 :: 0x51 :: List.replicate 17 0) =
        .ok (.tag 2 (.bytes (List.replicate 17 0)), []) ∧
      bignumValue 2 (List.replicate 17 0) = 0 :=
  ⟨by decide +kernel, by decide +kernel, by decide +kernel, by decide +kernel⟩

end TptRfc.Cbor
