import TptRfc.Bgp.RoundTrip

/-!
# BGP: what a relayed attribute keeps

The converse of the round trip: an accepted attribute, decoded and encoded again.  The type code is
always kept.
-/

namespace TptRfc.Bgp

open Lib Parser FixedBytes List

variable {len n : ℕ} {as4 : Bool} {bytes rest : Bytes}

/-! ## The readers -/

theorem u8_eq_ok {b : UInt8} (h : Reader.u8 len bytes = .ok (b, rest)) : bytes = b :: rest := by
  cases bytes with
  | nil => cases h
  | cons b bytes => cases h; rfl

theorem u16_eq_ok {v : UInt16} (h : Reader.u16 len bytes = .ok (v, rest)) :
    bytes = u16Bytes v ++ rest := by
  obtain ⟨a, rfl, hlen, rfl⟩ := takeU16_eq_ok h
  have hlt := beNat_lt a
  rw [hlen] at hlt
  rw [u16Bytes, UInt16.toNat_ofNat_of_lt' hlt, ← hlen, beBytes_beNat]

theorem u32_eq_ok {v : UInt32} (h : Reader.u32 len bytes = .ok (v, rest)) :
    bytes = u32Bytes v ++ rest := by
  obtain ⟨m, mid, htake, hpure⟩ := bind_eq_ok h
  obtain ⟨a, rfl, hlen, rfl⟩ := takeBe_eq_ok htake
  cases hpure
  have hlt := beNat_lt a
  rw [hlen] at hlt
  rw [u32Bytes, UInt32.toNat_ofNat_of_lt' hlt, ← hlen, beBytes_beNat]

theorem takeArray_eq_ok {a : FixedBytes n} (h : Reader.takeArray len n bytes = .ok (a, rest)) :
    bytes = a.val ++ rest := by
  unfold Reader.takeArray takeFixed at h
  split at h
  · cases h
  · cases h
    exact (take_append_drop n bytes).symm

theorem known_eq_ok {α : Type} {o : Option α} {a : α}
    (h : Reader.known len o bytes = .ok (a, rest)) : o = some a ∧ rest = bytes := by
  cases o with
  | none => cases h
  | some a => cases h; exact ⟨rfl, rfl⟩

/-! ## The parts of a value -/

theorem Asn.lossless_decode (len : ℕ) (as4 : Bool) :
    Lossless (Asn.decode len as4) (·.encode as4) fun _ => True := by
  intro bytes a rest h
  refine ⟨?_, trivial⟩
  cases as4 with
  | true =>
    obtain ⟨v, hv, rfl⟩ := map_eq_ok_iff.mp h
    exact u32_eq_ok hv
  | false =>
    obtain ⟨v, hv, rfl⟩ := map_eq_ok_iff.mp h
    simpa [Asn.encode, Asn.to16bit] using u16_eq_ok hv

theorem AsPathSegment.lossless_decode (len : ℕ) (as4 : Bool) :
    Lossless (AsPathSegment.decode len as4) (·.encode as4) fun _ => True := by
  intro bytes seg rest h
  simp only [AsPathSegment.decode, bind_ok_iff] at h
  obtain ⟨v, mid, hv, t, mid', ht, count, mid'', hcount, asns, tail, hasns, h⟩ := h
  cases h
  obtain rfl := u8_eq_ok hv
  obtain ⟨ht, rfl⟩ := known_eq_ok ht
  obtain rfl := u8_eq_ok hcount
  obtain ⟨rfl, hlen, -⟩ := (Asn.lossless_decode len as4).times count.toNat _ _ _ hasns
  have htype : t.toU8 = v := by
    unfold AsPathSegmentType.fromU8 at ht
    split_ifs at ht with h1 h2 <;> cases ht <;> simp [AsPathSegmentType.toU8, *]
  simp [AsPathSegment.encode, htype, hlen]

theorem lossless_decodePrefix (len : ℕ) (hn : n = 4 ∨ n = 16) :
    Lossless (decodePrefix len n) Prefix.bytes (Prefix.Fits n) := by
  intro bytes p rest h
  simp only [decodePrefix, bind_ok_iff] at h
  obtain ⟨bits, mid, hbits, ⟨⟩, mid', hle, addr, tail, haddr, h⟩ := h
  cases h
  obtain rfl := u8_eq_ok hbits
  obtain ⟨hif, rfl⟩ := known_eq_ok hle
  have hfit : bits.toNat ≤ n * 8 := by
    by_contra hgt
    rw [if_pos (by omega)] at hif
    cases hif
  have hlossless : Lossless (Reader.u8 len) (fun b => [b]) fun _ => True :=
    fun _ _ _ h => ⟨u8_eq_ok h, trivial⟩
  obtain ⟨rfl, hlen, -⟩ := hlossless.times _ _ _ _ haddr
  have hbytes : prefixBytes bits ≤ n := by
    unfold prefixBytes
    omega
  have hpad : (padTo n addr).val = addr ++ List.replicate (n - addr.length) 0 := by
    simp [padTo, take_append, take_of_length_le, hlen, hbytes]
  have htake : (padTo n addr).val.take (prefixBytes bits) = addr := by
    rw [hpad, ← hlen, take_left]
  have hdrop : ∀ b ∈ (padTo n addr).val.drop (prefixBytes bits), b = 0 := by
    rw [hpad, ← hlen, drop_left]
    exact fun b hb => eq_of_mem_replicate hb
  rcases hn with rfl | rfl <;>
    exact ⟨by simp [Prefix.bytes, Prefix.octets, Prefix.len, htake], ⟨length_val _, hfit, hdrop⟩⟩

theorem slice_val (pre rest : Bytes) (h : bytes.length = n) :
    (slice (pre ++ (bytes ++ rest)) pre.length n).val = bytes :=
  congrArg Subtype.val (slice_append pre rest ⟨bytes, h⟩)

theorem NextHop.encode_decode (nh : Bytes) : (NextHop.decode nh).encode = nh := by
  have hwhole : ∀ {n}, nh.length = n → (slice nh 0 n).val = nh := by
    intro n h
    simpa using slice_val [] [] h
  unfold NextHop.decode
  split_ifs with h4 h16 h32
  · exact hwhole h4
  · exact hwhole h16
  · have hfirst := slice_val (n := 16) [] (nh.drop 16) (show (nh.take 16).length = 16 by simp [h32])
    have hlast := slice_val (n := 16) (nh.take 16) [] (show (nh.drop 16).length = 16 by simp [h32])
    simp [h32] at hfirst hlast
    simp [NextHop.encode, hfirst, hlast]
  · rfl

theorem encodedLen_decode (nh : Bytes) : (NextHop.decode nh).encodedLen = nh.length := by
  unfold NextHop.decode
  split_ifs with h4 h16 h32
  · exact h4.symm
  · exact h16.symm
  · exact h32.symm
  · rfl

theorem decodePrefixes_eq_ok {afi : UInt16} {ps : List Prefix}
    (h : whileRemaining 1 (decodePrefix len (addrLen afi)) bytes = .ok (ps, rest)) :
    encodePrefixes ps = some bytes := by
  obtain ⟨rfl, hrest, hfits⟩ := (lossless_decodePrefix len (addrLen_eq afi)).whileRemaining
    one_pos (fun p => by simp [Prefix.bytes]) h
  rw [encodePrefixes_of_fits hfits, length_eq_zero_iff.mp (Nat.lt_one_iff.mp hrest), append_nil]

/-! ## The value -/

def Kept (as4 : Bool) (typeCode : UInt8) (value : Bytes) : Prop :=
  match typeCode.toNat with
  | 1 => value.length = 1
  | 3 | 4 | 5 | 8 | 9 => value.length = 4
  | 6 => value.length = 0
  | 7 => value.length = (if as4 then 8 else 6)
  | 10 => value.length % 4 = 0
  -- the reserved byte behind the next hop
  | 14 => value.getD (4 + (value.getD 3 0).toNat) 0 = 0
  | _ => True

theorem some_eq_iff {enc : Bytes} (h : bytes = enc ++ rest) :
    some enc = some bytes ↔ bytes.length = enc.length := by
  subst h
  simp

theorem word_iff {v : UInt32} (h : Reader.u32 len bytes = .ok (v, rest)) :
    some (u32Bytes v) = some bytes ↔ bytes.length = 4 := by
  rw [some_eq_iff (u32_eq_ok h), length_u32Bytes]

theorem array_iff {a : FixedBytes n} (h : Reader.takeArray len n bytes = .ok (a, rest)) :
    some a.val = some bytes ↔ bytes.length = n := by
  rw [some_eq_iff (takeArray_eq_ok h), length_val]

theorem mpReach_iff {m : MpReachNlri} (h : decodeMpReach len bytes = .ok (m, rest)) :
    encodeMpReach m = some bytes ↔ bytes.getD (4 + (bytes.getD 3 0).toNat) 0 = 0 := by
  simp only [decodeMpReach, bind_ok_iff] at h
  obtain ⟨afi, mid, hafi, safi, mid₁, hsafi, nhLen, mid₂, hnhLen, nh, mid₃, hnh, reserved, mid₄,
    hreserved, nlri, mid₅, hnlri, h⟩ := h
  cases h
  have henc := decodePrefixes_eq_ok hnlri
  obtain rfl := u16_eq_ok hafi
  obtain rfl := u8_eq_ok hsafi
  obtain rfl := u8_eq_ok hnhLen
  obtain ⟨rfl, hlen⟩ := takeBytes_eq_ok hnh
  obtain rfl := u8_eq_ok hreserved
  have hlast : (u16Bytes afi ++ safi :: nhLen :: (nh ++ reserved :: mid₄)).getD
      (4 + nhLen.toNat) 0 = reserved := by
    rw [show 4 + nhLen.toNat = (u16Bytes afi ++ safi :: nhLen :: nh).length by simp [hlen]; omega,
      show u16Bytes afi ++ safi :: nhLen :: (nh ++ reserved :: mid₄) =
        (u16Bytes afi ++ safi :: nhLen :: nh) ++ reserved :: mid₄ by simp,
      getD_append_right _ _ _ _ le_rfl]
    simp
  have hthird : (u16Bytes afi ++ safi :: nhLen :: (nh ++ reserved :: mid₄)).getD 3 0 = nhLen := by
    simp [u16Bytes, beBytes]
  rw [hthird, hlast]
  simp [encodeMpReach, henc, NextHop.encode_decode, encodedLen_decode, hlen, eq_comm]

theorem mpUnreach_eq {m : MpUnreachNlri} (h : decodeMpUnreach len bytes = .ok (m, rest)) :
    encodeMpUnreach m = some bytes := by
  simp only [decodeMpUnreach, bind_ok_iff] at h
  obtain ⟨afi, mid, hafi, safi, mid₁, hsafi, withdrawn, mid₂, hwithdrawn, h⟩ := h
  cases h
  have henc := decodePrefixes_eq_ok hwithdrawn
  obtain rfl := u16_eq_ok hafi
  obtain rfl := u8_eq_ok hsafi
  simp [encodeMpUnreach, henc]

theorem asPath_eq {path : AsPath} (h : AsPath.decodeValue len as4 bytes = .ok (path, rest)) :
    path.encodeValue as4 = bytes := by
  obtain ⟨segments, hsegments, rfl⟩ := map_eq_ok_iff.mp h
  obtain ⟨rfl, hrest, -⟩ := (AsPathSegment.lossless_decode len as4).whileRemaining one_pos
    (fun seg => by simp [AsPathSegment.encode]) hsegments
  simp [AsPath.encodeValue, length_eq_zero_iff.mp (Nat.lt_one_iff.mp hrest)]

theorem clusterList_iff {list : List (FixedBytes 4)}
    (h : whileRemaining 4 (Reader.takeArray len 4) bytes = .ok (list, rest)) :
    some (list.flatMap Subtype.val) = some bytes ↔ bytes.length % 4 = 0 := by
  have hlossless : Lossless (Reader.takeArray len 4) Subtype.val fun _ => True :=
    fun _ _ _ h => ⟨takeArray_eq_ok h, trivial⟩
  obtain ⟨hbytes, hrest, -⟩ := hlossless.whileRemaining (by decide) (by simp) h
  rw [some_eq_iff hbytes, hbytes, length_append]
  have hlen : (list.flatMap Subtype.val).length = list.length * 4 := by
    clear h hbytes
    induction list with
    | nil => rfl
    | cons a list ih => rw [flatMap_cons, length_append, ih, length_val, length_cons]; omega
  omega

theorem aggregator_iff {asn : Asn} {addr : FixedBytes 4} {mid : Bytes}
    (hasn : Asn.decode len as4 bytes = .ok (asn, mid))
    (haddr : Reader.takeArray len 4 mid = .ok (addr, rest)) :
    some (asn.encode as4 ++ addr.val) = some bytes ↔
      bytes.length = if as4 then 8 else 6 := by
  obtain ⟨hbytes, -⟩ := Asn.lossless_decode len as4 _ _ _ hasn
  rw [takeArray_eq_ok haddr, ← append_assoc] at hbytes
  rw [some_eq_iff hbytes]
  cases as4 <;> simp [Asn.encode]

theorem origin_iff {v : UInt8} {o : Origin} {mid : Bytes} (hv : Reader.u8 len bytes = .ok (v, mid))
    (ho : Reader.known len (Origin.fromU8 v) mid = .ok (o, rest)) :
    some [o.toU8] = some bytes ↔ bytes.length = 1 := by
  obtain ⟨ho, -⟩ := known_eq_ok ho
  have hcode : o.toU8 = v := by
    unfold Origin.fromU8 at ho
    split_ifs at ho with h0 h1 h2 <;> cases ho <;> simp [Origin.toU8, *]
  rw [hcode, some_eq_iff (show bytes = [v] ++ mid from u8_eq_ok hv), length_singleton]

theorem encodeValue_iff {flags typeCode : UInt8} {value : Bytes} {attr : PathAttribute}
    (h : PathAttribute.decodeValue as4 flags typeCode value value = .ok (attr, rest)) :
    attr.typeCode = typeCode ∧
      (attr.encodeValue as4 = some value ↔ Kept as4 typeCode value) := by
  obtain ⟨k, hk⟩ : ∃ k, typeCode.toNat = k := ⟨_, rfl⟩
  have hcode : UInt8.ofNat k = typeCode := by rw [← hk, UInt8.ofNat_toNat]
  unfold PathAttribute.decodeValue at h
  unfold Kept
  rw [hk] at h ⊢
  split at h
  case h_1 =>
    obtain ⟨v, mid, hv, h⟩ := bind_eq_ok h
    obtain ⟨o, ho, rfl⟩ := map_eq_ok_iff.mp h
    exact ⟨hcode, origin_iff hv ho⟩
  case h_2 =>
    obtain ⟨path, hpath, rfl⟩ := map_eq_ok_iff.mp h
    exact ⟨hcode, by simp [PathAttribute.encodeValue, asPath_eq hpath]⟩
  case h_3 | h_9 =>
    obtain ⟨a, ha, rfl⟩ := map_eq_ok_iff.mp h
    exact ⟨hcode, array_iff ha⟩
  case h_4 | h_5 | h_8 =>
    obtain ⟨v, hv, rfl⟩ := map_eq_ok_iff.mp h
    exact ⟨hcode, word_iff hv⟩
  case h_6 =>
    cases h
    exact ⟨hcode, by simp [PathAttribute.encodeValue, eq_comm]⟩
  case h_7 =>
    obtain ⟨asn, mid, hasn, h⟩ := bind_eq_ok h
    obtain ⟨addr, mid', haddr, h⟩ := bind_eq_ok h
    cases h
    exact ⟨hcode, aggregator_iff hasn haddr⟩
  case h_10 =>
    obtain ⟨list, hlist, rfl⟩ := map_eq_ok_iff.mp h
    exact ⟨hcode, clusterList_iff hlist⟩
  case h_11 =>
    obtain ⟨m, hm, rfl⟩ := map_eq_ok_iff.mp h
    exact ⟨hcode, mpReach_iff hm⟩
  case h_12 =>
    obtain ⟨m, hm, rfl⟩ := map_eq_ok_iff.mp h
    exact ⟨hcode, iff_of_true (mpUnreach_eq hm) trivial⟩
  case h_13 =>
    cases h
    refine ⟨rfl, iff_of_true rfl ?_⟩
    split <;> trivial

/-- An accepted attribute, decoded and encoded again: it has the same type code, and
the same value bytes exactly where `Kept` says. -/
theorem reencode_keeps_iff (len : ℕ) (as4 : Bool) {attr : PathAttribute}
    (h : PathAttribute.decode len as4 bytes = .ok (attr, rest)) :
    ∃ flags typeCode lenBytes value,
      bytes = flags :: typeCode :: (lenBytes ++ (value ++ rest)) ∧
      (if flags &&& 0x10 ≠ 0 then lenBytes = u16Bytes (UInt16.ofNat value.length)
        else lenBytes = [UInt8.ofNat value.length]) ∧
      attr.typeCode = typeCode ∧
      (attr.encodeValue as4 = some value ↔ Kept as4 typeCode value) := by
  simp only [PathAttribute.decode, bind_ok_iff] at h
  obtain ⟨flags, mid, hflags, typeCode, mid₁, htype, valueLen, mid₂, hlen, value, mid₃, hvalue,
    h⟩ := h
  obtain ⟨hrun, rfl⟩ := lift_eq_ok h
  obtain ⟨tail, hdecode⟩ := run_eq_ok hrun
  obtain ⟨rfl, rfl⟩ := takeBytes_eq_ok hvalue
  obtain ⟨lenBytes, hwidth, rfl⟩ : ∃ lenBytes,
      (if flags &&& 0x10 ≠ 0 then lenBytes = u16Bytes (UInt16.ofNat value.length)
        else lenBytes = [UInt8.ofNat value.length]) ∧ mid₁ = lenBytes ++ (value ++ rest) := by
    split at hlen
    · obtain ⟨v, hv, hv'⟩ := map_eq_ok_iff.mp hlen
      exact ⟨_, by rw [if_pos ‹_›, ← hv', UInt16.ofNat_toNat], u16_eq_ok hv⟩
    · obtain ⟨v, hv, hv'⟩ := map_eq_ok_iff.mp hlen
      exact ⟨[v], by rw [if_neg ‹_›, ← hv', UInt8.ofNat_toNat], u8_eq_ok hv⟩
  obtain rfl := u8_eq_ok htype
  obtain rfl := u8_eq_ok hflags
  exact ⟨flags, typeCode, lenBytes, value, rfl, hwidth, encodeValue_iff hdecode⟩

def twoCommunities : Bytes := [0xC0, 8, 8, 0, 1, 0, 1, 0, 2, 0, 2]

theorem reencode_twoCommunities :
    ∃ flags typeCode lenBytes value,
      twoCommunities = flags :: typeCode :: (lenBytes ++ (value ++ [])) ∧
      (if flags &&& 0x10 ≠ 0 then lenBytes = u16Bytes (UInt16.ofNat value.length)
        else lenBytes = [UInt8.ofNat value.length]) ∧
      (PathAttribute.community 0x10001).typeCode = typeCode ∧
      ((PathAttribute.community 0x10001).encodeValue true = some value ↔
        Kept true typeCode value) :=
  reencode_keeps_iff 11 true (by decide +kernel)

/-- The second community is gone. -/
theorem second_community_lost :
    PathAttribute.decode 11 true twoCommunities = .ok (.community 0x10001, []) ∧
      (PathAttribute.community 0x10001).encode true = some [0xC0, 8, 4, 0, 1, 0, 1] := by
  decide +kernel

end TptRfc.Bgp
