import TptRfc.Radius.Packet

/-!
# RADIUS: packets on the wire and hidden passwords

A packet is read back from its octets if its attributes have room (`Fits`), and whatever is read has
attributes that have room.
-/

namespace TptRfc.Radius

open Lib List

/-! ## Attributes -/

def Fits (attributes : List Attribute) : Prop :=
  (∀ a ∈ attributes, a.value.length ≤ 253) ∧ 20 + (encodeAttributes attributes).length ≤ 65535

theorem encodeAttributes_cons (a : Attribute) (attributes : List Attribute) :
    encodeAttributes (a :: attributes) = a.encode ++ encodeAttributes attributes :=
  flatMap_cons

theorem length_encode (a : Attribute) : a.encode.length = a.value.length + 2 := rfl

theorem toNat_attrLen {a : Attribute} (h : a.value.length ≤ 253) :
    (UInt8.ofNat (a.value.length + 2)).toNat = a.value.length + 2 := by
  rw [UInt8.toNat_ofNat']
  omega

variable {attributes : List Attribute} {declared offset : ℕ} {p : Packet}

theorem decodeAttributes_encode (h : ∀ a ∈ attributes, a.value.length ≤ 253) :
    decodeAttributes declared offset (encodeAttributes attributes) = .ok attributes := by
  induction attributes generalizing offset with
  | nil => rw [encodeAttributes, flatMap_nil, decodeAttributes]
  | cons a attributes ih =>
    have hlen := toNat_attrLen (h a mem_cons_self)
    rw [encodeAttributes_cons, Attribute.encode, cons_append, cons_append,
      decodeAttributes, hlen, if_neg (by omega), if_neg (by simp), Nat.add_sub_cancel,
      drop_left, take_left, ih fun x hx => h x (mem_cons_of_mem _ hx)]
    rfl

theorem of_decodeAttributes {rest : Bytes}
    (h : decodeAttributes declared offset rest = .ok attributes) :
    (∀ a ∈ attributes, a.value.length ≤ 253) ∧
      (encodeAttributes attributes).length = rest.length := by
  induction hn : rest.length using Nat.strong_induction_on generalizing offset rest attributes with
  | _ n ih =>
    rcases rest with _ | ⟨typeCode, _ | ⟨attrLen, rest⟩⟩
    · rw [decodeAttributes] at h
      cases h
      exact ⟨fun a ha => absurd ha not_mem_nil, by rw [← hn]; rfl⟩
    · rw [decodeAttributes] at h
      cases h
    · rw [decodeAttributes] at h
      have hbyte := attrLen.toNat_lt
      split_ifs at h with hshort hlong
      cases htail : decodeAttributes declared (offset + attrLen.toNat)
          (rest.drop (attrLen.toNat - 2)) with
      | error e =>
        rw [htail] at h
        cases h
      | ok tail =>
        rw [htail] at h
        cases h
        simp only [length_cons] at hn
        obtain ⟨hvalues, hlength⟩ := ih _ (by simp only [length_drop]; omega) htail rfl
        refine ⟨fun a ha => ?_, ?_⟩
        · rcases mem_cons.mp ha with rfl | ha
          · simp only [length_take]
            omega
          · exact hvalues a ha
        · rw [encodeAttributes_cons, length_append, length_encode, hlength]
          simp only [length_take, length_drop]
          omega

/-! ## Packets -/

theorem PacketCode.fromU8_toU8 {code : PacketCode}
    (h : ∀ v, code ≠ .other v) : PacketCode.fromU8 code.toU8 = code := by
  cases code with
  | other v => exact absurd rfl (h v)
  | _ => rfl

theorem Packet.octets_eq (p : Packet) : p.octets = (p.code.toU8 :: p.identifier ::
    beBytes 2 (20 + (encodeAttributes p.attributes).length)) ++
      (p.authenticator.val ++ encodeAttributes p.attributes) := by
  simp [Packet.octets]

theorem Packet.drop_octets (p : Packet) : p.octets.drop 20 = encodeAttributes p.attributes := by
  rw [p.octets_eq, ← append_assoc]
  exact drop_left' (by simp [p.authenticator.property])

theorem Packet.decode_octets (hcode : ∀ v, p.code ≠ .other v)
    (h : Fits p.attributes) : Packet.decode p.octets = .ok p := by
  have hauth := p.authenticator.property
  have hlength : p.octets.length = 20 + (encodeAttributes p.attributes).length := by
    simp only [Packet.octets, length_cons, length_append, length_beBytes, hauth]
    omega
  have hdeclared : beNat ((p.octets.drop 2).take 2) =
      20 + (encodeAttributes p.attributes).length := by
    have htake : (p.octets.drop 2).take 2 =
        beBytes 2 (20 + (encodeAttributes p.attributes).length) := by
      simp only [Packet.octets, drop_succ_cons, drop_zero]
      exact take_left' (length_beBytes _ _)
    rw [htake, beNat_beBytes_of_lt (by have := h.2; omega)]
  have hattributes : (p.octets.take (20 + (encodeAttributes p.attributes).length)).drop 20 =
      encodeAttributes p.attributes := by
    rw [take_of_length_le hlength.le, p.drop_octets]
  have hslice : FixedBytes.slice p.octets 4 16 = p.authenticator := by
    rw [p.octets_eq]
    exact FixedBytes.slice_append _ _ _
  unfold Packet.decode
  rw [if_neg (by omega)]
  dsimp only
  rw [hdeclared, if_neg (by omega), if_neg (by omega), hattributes,
    decodeAttributes_encode h.1, hslice]
  have hfirst : p.octets.getD 0 0 = p.code.toU8 := rfl
  have hsecond : p.octets.getD 1 0 = p.identifier := rfl
  rw [hfirst, hsecond, PacketCode.fromU8_toU8 hcode]
  rfl

theorem fits_of_decode {buf : Bytes} (h : Packet.decode buf = .ok p) : Fits p.attributes := by
  unfold Packet.decode at h
  dsimp only at h
  have hfield : beNat ((buf.drop 2).take 2) < 256 ^ ((buf.drop 2).take 2).length := beNat_lt _
  split_ifs at h with hshort hdeclared hlong
  cases hattributes : decodeAttributes (beNat ((buf.drop 2).take 2)) 20
      ((buf.take (beNat ((buf.drop 2).take 2))).drop 20) with
  | error e =>
    rw [hattributes] at h
    cases h
  | ok attributes =>
    rw [hattributes] at h
    cases h
    obtain ⟨hvalues, hlength⟩ := of_decodeAttributes hattributes
    refine ⟨hvalues, ?_⟩
    have htwo : ((buf.drop 2).take 2).length = 2 := by simp; omega
    rw [htwo] at hfield
    rw [hlength]
    simp only [length_drop, length_take]
    omega

theorem Packet.encode_of_fits (checks : Bool) (h : Fits p.attributes) :
    p.encode checks = some p.octets := by
  refine if_neg ?_
  rintro ⟨-, a, ha, hlong⟩
  have := h.1 a ha
  omega

theorem Packet.octets_of_encode {checks : Bool} {bytes : Bytes}
    (h : p.encode checks = some bytes) : bytes = p.octets := by
  unfold Packet.encode at h
  split_ifs at h
  exact (Option.some.inj h).symm

/-! ## Passwords -/

theorem revealBlocks_hideBlocks (d : Digests) (secret prev : Bytes) {pw : Bytes} {blocks : ℕ}
    (h : pw.length = 16 * blocks) : revealBlocks d secret prev (hideBlocks d secret prev pw) = pw ∧
      (hideBlocks d secret prev pw).length = pw.length := by
  induction blocks generalizing pw prev with
  | zero =>
    obtain rfl := eq_nil_of_length_eq_zero h
    rw [hideBlocks, if_pos rfl, revealBlocks, if_pos rfl]
    exact ⟨rfl, rfl⟩
  | succ blocks ih =>
    have hne : pw ≠ [] := by
      rintro rfl
      simp at h
    have hdigest := (d.md5 (secret ++ prev)).property
    have htake : (pw.take 16).length = 16 := by
      rw [length_take]
      omega
    set mask := zipWith (· ^^^ ·) (pw.take 16) (d.md5 (secret ++ prev)).val with hmask
    have hmaskLen : mask.length = 16 := by
      rw [hmask, length_zipWith, htake, hdigest]
      rfl
    have hblock : (padTo 16 mask).val = mask := by
      change (mask ++ List.replicate 16 0).take 16 = mask
      exact take_left' hmaskLen
    have hdrop : (pw.drop 16).length = 16 * blocks := by
      rw [length_drop]
      omega
    obtain ⟨hreveal, hlength⟩ := ih mask hdrop
    have hhide : hideBlocks d secret prev pw = mask ++ hideBlocks d secret mask (pw.drop 16) := by
      rw [hideBlocks, if_neg hne]
      dsimp only
      rw [← hmask, hblock]
    have hne' : mask ++ hideBlocks d secret mask (pw.drop 16) ≠ [] := by
      intro hnil
      rw [(append_eq_nil_iff.mp hnil).1] at hmaskLen
      cases hmaskLen
    constructor
    · rw [hhide, revealBlocks, if_neg hne', take_left' hmaskLen, drop_left' hmaskLen,
        hreveal, hmask, zipWith_xor_cancel (htake.trans hdigest.symm).le, take_append_drop]
    · rw [hhide, length_append, hmaskLen, hlength, length_drop]
      omega

theorem length_revealBlocks_le (d : Digests) (secret prev c : Bytes) :
    (revealBlocks d secret prev c).length ≤ c.length := by
  induction hn : c.length using Nat.strong_induction_on generalizing prev c with
  | _ n ih =>
    rw [revealBlocks]
    split_ifs with hnil
    · exact Nat.zero_le _
    · have hpos := length_pos_iff.mpr hnil
      have htail := ih (c.drop 16).length (by rw [length_drop]; omega)
        (c.take 16) (c.drop 16) rfl
      rw [length_append, length_zipWith, length_take]
      rw [length_drop] at htail
      omega

theorem length_padPassword (password : Bytes) :
    (padPassword password).length = 16 * ((password.length + 15) / 16) := by
  rw [padPassword, length_append, length_replicate]
  omega

theorem rdropWhile_padPassword {password : Bytes} (h : password.getLast? ≠ some 0) :
    (padPassword password).rdropWhile (· = 0) = password := by
  have hzeros : ∀ n, (password ++ List.replicate n (0 : UInt8)).rdropWhile (· = 0) =
      password.rdropWhile (· = 0) := by
    intro n
    induction n with
    | zero => rw [replicate_zero, append_nil]
    | succ n ih =>
      rw [replicate_succ', ← append_assoc, rdropWhile_concat_pos _ _ _ (by simp), ih]
  rw [padPassword, hzeros, rdropWhile_eq_self_iff]
  intro hne hlast
  refine h ?_
  rw [getLast?_eq_some_getLast hne]
  simpa using hlast

end TptRfc.Radius
