import TptRfc.Ipsec.Panics

/-!
# IKEv2: encoding and decoding

`encode_payload` writes the length of the body into the header of a payload, and the decoder takes
it for the length of the payload with its header.
-/

namespace TptRfc.Ipsec

open Lib Access List Option

variable {n : ℕ} {out body enc bytes : Bytes} {checks : Bool} {next : PayloadType} {p : Payload}

theorem padTo_self (bytes : FixedBytes n) : padTo n bytes.val = bytes := by
  apply Subtype.ext
  change (bytes.val ++ List.replicate n 0).take n = bytes.val
  rw [take_append_of_le_length bytes.length_val.ge, take_of_length_le bytes.length_val.le]

theorem headerDecode_encode (h : Header) (rest : Bytes) :
    Header.decode (h.encode ++ rest) = .ok h := by
  obtain ⟨spiI, spiR, next, version, exchange, flags, messageId, length⟩ := h
  generalize hbuf : Header.encode _ ++ rest = buf
  have hflat : buf = spiI.val ++ (spiR.val ++ (next.toU8 :: version :: exchange.toU8 :: flags ::
      (u32Bytes messageId ++ (u32Bytes length ++ rest)))) := by
    rw [← hbuf]
    simp only [Header.encode, append_assoc, cons_append, nil_append]
  have hlen : ikeHeaderLen ≤ buf.length := by
    simp only [hflat, length_append, length_cons, length_u32Bytes,
      FixedBytes.length_val, ikeHeaderLen]
    omega
  -- the string, split at each field
  have h16 := hflat.trans (append_assoc ..).symm
  have h17 := h16.trans (append_cons ..)
  have h18 := h17.trans (append_cons ..)
  have h19 := h18.trans (append_cons ..)
  have h20 := h19.trans (append_cons ..)
  have h24 := h20.trans (append_assoc ..).symm
  have hspiI : (slice buf 0 8 : Decoded Bytes) = .ok spiI.val := slice_eq [] hflat rfl (by simp)
  have hspiR : (slice buf 8 16 : Decoded Bytes) = .ok spiR.val :=
    slice_eq _ hflat (by simp) (by simp)
  have hnext : (byteAt buf 16 : Decoded UInt8) = .ok next.toU8 := byteAt_eq _ h16 (by simp)
  have hversion : (byteAt buf 17 : Decoded UInt8) = .ok version := byteAt_eq _ h17 (by simp)
  have hexchange : (byteAt buf 18 : Decoded UInt8) = .ok exchange.toU8 := byteAt_eq _ h18 (by simp)
  have hflags : (byteAt buf 19 : Decoded UInt8) = .ok flags := byteAt_eq _ h19 (by simp)
  have hmessage : (slice buf 20 24 : Decoded Bytes) = .ok (u32Bytes messageId) :=
    slice_eq _ h20 (by simp) (by simp)
  have hlength : (slice buf 24 28 : Decoded Bytes) = .ok (u32Bytes length) :=
    slice_eq _ h24 (by simp) (by simp)
  rw [Header.decode, if_neg (Nat.not_lt.mpr hlen), hspiI, ok_bind, hspiR, ok_bind, hnext, ok_bind,
    PayloadType.fromU8_toU8, okOr, ok_bind, hversion, ok_bind, hexchange, ok_bind,
    ExchangeType.fromU8_toU8, okOr, ok_bind, hflags, ok_bind, hmessage, ok_bind, hlength, ok_bind,
    padTo_self, padTo_self, ofNat_beNat_u32Bytes, ofNat_beNat_u32Bytes]
  rfl

/-! ## Bodies that are decoded -/

theorem length_of_slice {ε : Type} {buf : Bytes} {start stop : ℕ}
    (h : (slice buf start stop : Except (Fault ε) Bytes) = .ok out) :
    start ≤ stop ∧ stop ≤ buf.length ∧ out.length = stop - start := by
  unfold slice at h
  split at h
  · rename_i hrange
    cases h
    refine ⟨hrange.1, hrange.2, ?_⟩
    rw [length_take, length_drop]
    omega
  · cases h

theorem length_of_decodeKeBody {ke : KePayload} (h : decodeKeBody body = .ok ke) :
    (encodeKeBody ke).length = body.length := by
  unfold decodeKeBody at h
  split at h
  · cases h
  · simp only [bind_eq_ok_iff] at h
    obtain ⟨code, -, group, -, publicKey, hkey, h⟩ := h
    cases h
    have := length_of_slice hkey
    simp only [encodeKeBody, length_append, length_u16Bytes]
    omega

theorem length_of_decodeCoded {α β : Type} {fromU8 : UInt8 → Option α} {unsupported : UInt8 → Error}
    {short : Prop} [Decidable short] {e : Error} {f : α × Bytes → β} {b : β}
    (h : (if short then fail e else do
      let r ← decodeCoded fromU8 unsupported body
      pure (f r)) = .ok b) :
    ∃ r, b = f r ∧ ∀ code, (encodeCoded code r.2).length = body.length := by
  split at h
  · cases h
  · simp only [decodeCoded, bind_eq_ok_iff] at h
    obtain ⟨_, ⟨b0, -, c, -, data, hdata, hr⟩, h⟩ := h
    cases hr
    cases h
    have := length_of_slice hdata
    refine ⟨_, rfl, fun code => ?_⟩
    simp only [encodeCoded, length_append, length_cons, length_nil]
    omega

theorem length_of_decodeIdBody {id : IdPayload} (h : decodeIdBody body = .ok id) :
    (encodeIdBody id).length = body.length := by
  obtain ⟨r, rfl, hr⟩ := length_of_decodeCoded h
  exact hr _

theorem length_of_decodeAuthBody {a : AuthPayload}
    (h : decodeAuthBody body = .ok a) : (encodeAuthBody a).length = body.length := by
  obtain ⟨r, rfl, hr⟩ := length_of_decodeCoded h
  exact hr _

theorem length_of_decodeCertBody {c : CertPayload}
    (h : decodeCertBody body = .ok c) : (encodeCertBody c).length = body.length := by
  obtain ⟨r, rfl, hr⟩ := length_of_decodeCoded h
  exact hr _

theorem length_of_decodeNotifyBody {n : NotifyPayload}
    (h : decodeNotifyBody body = .ok n) : (encodeNotifyBody n).length = body.length := by
  unfold decodeNotifyBody at h
  split at h
  · cases h
  · simp only [bind_eq_ok_iff] at h
    obtain ⟨protocol, -, spiSize, -, notifyType, -, spi, hspi, data, hdata, h⟩ := h
    cases h
    have hspi := length_of_slice hspi
    have hdata := length_of_slice hdata
    simp only [encodeNotifyBody, length_append, length_u16Bytes, length_cons, length_nil]
    omega

theorem length_encodeSelector (s : TrafficSelector) :
    (encodeSelector s).length = 8 + s.startAddr.length + s.endAddr.length := by
  simp only [encodeSelector, asU16, length_append, length_u16Bytes, length_cons, length_nil]
  omega

theorem decodeSelector_eq_ok {p : ℕ} {r : TrafficSelector × ℕ}
    (hsmall : body.length < 2 ^ 62) (h : decodeSelector checks body p = .ok r) :
    (encodeSelector r.1).length ≤ r.2 ∧ p + (encodeSelector r.1).length ≤ body.length := by
  have hfault : ¬ SelectorFault checks body p := by
    rw [← decodeSelector_eq_panic_iff hsmall, h]
    exact nofun
  rw [length_encodeSelector]
  unfold decodeSelector at h
  split at h
  · obtain ⟨_, -, h⟩ := bind_eq_ok_iff.mp h
    cases h
  · rename_i hroom
    simp only [bind_eq_ok_iff] at h
    obtain ⟨tsType, -, iproto, -, selLen, hsel, startPort, -, endPort, -, addrs, haddrs, startAddr,
      hstart, endAddr, hend, h⟩ := h
    cases h
    obtain ⟨-, rfl⟩ := u16At_eq_ok hsel
    have hlen : 8 ≤ (getU16 body (p + 2)).toNat := by
      by_contra hlt
      exact hfault (.inr ⟨by omega, .inr (.inl (by unfold selLenAt; omega))⟩)
    rw [subUsize, if_pos hlen] at haddrs
    cases haddrs
    have hstart := length_of_slice hstart
    have hend := length_of_slice hend
    dsimp only
    omega

theorem length_of_decodeSelectors {p : ℕ}
    {sels : List TrafficSelector} (hsmall : body.length < 2 ^ 62)
    (h : decodeSelectors checks body n p = .ok sels) (hp : p ≤ body.length) :
    p + (sels.flatMap encodeSelector).length ≤ body.length := by
  induction n generalizing p sels with
  | zero =>
    cases h
    exact hp
  | succ n ih =>
    simp only [decodeSelectors, bind_eq_ok_iff] at h
    obtain ⟨r, hr, more, hmore, h⟩ := h
    cases h
    have hsel := decodeSelector_eq_ok hsmall hr
    rw [flatMap_cons, length_append]
    by_cases hnext : p + r.2 ≤ body.length
    · have := ih hmore hnext
      omega
    · -- the next selector would start behind the body, so there is none
      cases n with
      | zero =>
        cases hmore
        rw [flatMap_nil, length_nil]
        omega
      | succ n =>
        obtain ⟨r', hr', -⟩ := bind_eq_ok_iff.mp hmore
        have := decodeSelector_eq_ok hsmall hr'
        omega

theorem length_of_decodeTsBody {ts : TsPayload}
    (hsmall : body.length < 2 ^ 62) (h : decodeTsBody checks body = .ok ts) :
    (encodeTsBody ts).length ≤ body.length := by
  unfold decodeTsBody at h
  split at h
  · cases h
  · simp only [bind_eq_ok_iff] at h
    obtain ⟨n, -, sels, hsels, h⟩ := h
    cases h
    have := length_of_decodeSelectors hsmall hsels (by omega)
    simp only [encodeTsBody, length_append, length_cons, length_nil]
    omega

/-! ## Security associations -/

variable {last critical : Bool} {t : Transform} {ts : List Transform} {fuel : ℕ}
  {ps : List Proposal}

theorem length_encodeTransform
    (h : encodeTransform checks t last = some out) : out.length = transformLen t := by
  obtain ⟨attributes, hattributes, h⟩ := bind_eq_some_iff.mp h
  cases h
  have hlen : attributes.length + 8 = transformLen t := by
    unfold encodeAttributes at hattributes
    split at hattributes
    · rename_i htype hkey
      obtain ⟨bits, -, h⟩ := bind_eq_some_iff.mp hattributes
      cases h
      rw [transformLen, if_pos ⟨htype, by rw [hkey]; rfl⟩]
      rfl
    · rename_i hnone
      cases hattributes
      rw [transformLen, if_neg]
      · rfl
      · rintro ⟨htype, hkey⟩
        obtain ⟨kl, hkl⟩ := isSome_iff_exists.mp hkey
        exact hnone kl htype hkl
  simp only [length_append, asU16, length_u16Bytes, length_cons, length_nil]
  omega

theorem length_encodeTransforms
    (h : encodeTransforms checks ts = some out) : out.length = (ts.map transformLen).sum := by
  induction ts generalizing out with
  | nil =>
    cases h
    rfl
  | cons t ts ih =>
    obtain ⟨bytes, hbytes, h⟩ := bind_eq_some_iff.mp h
    obtain ⟨more, hmore, h⟩ := bind_eq_some_iff.mp h
    cases h
    rw [length_append, length_encodeTransform hbytes, ih hmore, map_cons, sum_cons]

theorem encodeProposal_eq_some {p : Proposal} (h : encodeProposal checks p last = some out) :
    out.length = proposalLen p ∧
      ∃ first rest, out = [first, 0] ++ (asU16 (proposalLen p) ++ rest) ∧ 4 ≤ rest.length := by
  obtain ⟨transforms, htransforms, h⟩ := bind_eq_some_iff.mp h
  cases h
  refine ⟨?_, _, _, rfl, ?_⟩
  · simp only [length_append, asU16, length_u16Bytes, length_cons, length_nil,
      length_encodeTransforms htransforms, proposalLen]
    omega
  · simp only [length_append, length_cons]
    omega

theorem getU16_asU16 (hn : n < 2 ^ 16) (a b : UInt8) (rest : Bytes) :
    (getU16 ([a, b] ++ (asU16 n ++ rest)) 2).toNat = n := by
  change (UInt16.ofNat (beNat (u16Bytes (UInt16.ofNat n)))).toNat = n
  rw [ofNat_beNat_u16Bytes, UInt16.toNat_ofNat_of_lt' hn]

theorem decodeProposals_take {ps' : List Proposal} (pre : Bytes) (hps : ps ≠ [])
    (henc : encodeProposals checks ps = some enc) (hlen : enc.length < 2 ^ 16)
    (hdec : decodeProposals (pre ++ enc.take (enc.length - 4)) fuel pre.length = .ok ps') :
    ps'.length < ps.length := by
  induction ps generalizing pre enc fuel ps' with
  | nil => exact absurd rfl hps
  | cons p rest ih =>
    obtain ⟨bytes, hbytes, h⟩ := bind_eq_some_iff.mp henc
    obtain ⟨more, hmore, h⟩ := bind_eq_some_iff.mp h
    cases h
    obtain ⟨hsize, first, tail, hfirst, htail⟩ := encodeProposal_eq_some hbytes
    have hbody : 8 ≤ bytes.length := by
      rw [hfirst]
      simp only [length_append, length_cons, asU16, length_u16Bytes]
      omega
    rw [length_append] at hlen
    cases fuel with
    | zero => cases hdec
    | succ fuel =>
      rw [decodeProposals] at hdec
      split at hdec
      · rename_i hroom
        simp only [bind_eq_ok_iff] at hdec
        obtain ⟨r, hr, more', hmore', hdec⟩ := hdec
        cases hdec
        obtain ⟨hread, -, hend⟩ := decodeProposal_eq_ok hr
        have hwritten : r.2 = bytes.length := by
          rw [hread, hsize, propLenAt, getU16_append, getU16_take (by
            rw [length_append]
            omega), hfirst, append_assoc, append_assoc, getU16_asU16 (by omega)]
        simp only [length_append, length_take] at hend hroom
        have htake : (bytes ++ more).take ((bytes ++ more).length - 4) =
            bytes ++ more.take (more.length - 4) := by
          rw [length_append, Nat.add_sub_assoc (by omega), take_length_add_append]
        -- the proposal is not the last one, whose length leads behind what is left
        have hrest : rest ≠ [] := by
          rintro rfl
          cases hmore
          rw [length_nil] at hend
          omega
        rw [htake, ← append_assoc, hwritten, ← length_append] at hmore'
        exact Nat.succ_lt_succ (ih _ hrest hmore (by omega) hmore')
      · cases hdec
        exact Nat.succ_pos _

/-! ## Payloads -/

def typed : List PayloadType :=
  [.sa, .ke, .nonce, .idi, .idr, .auth, .cert, .certReq, .tsi, .tsr, .notify, .sk]

def Transform.Representable (t : Transform) : Prop :=
  ∀ kl ∈ t.keyLen, t.transformType = .encr ∧ kl < 8192

structure Proposal.Representable (p : Proposal) : Prop where
  spi : p.spi.length < 256
  transforms : p.transforms.length < 256
  each : ∀ t ∈ p.transforms, t.Representable

def Payload.Wellformed : Payload → Prop
  | .sa s => ∀ p ∈ s.proposals, p.Representable
  | .tsi t | .tsr t => ∀ s ∈ t.selectors, s.startAddr.length = s.endAddr.length
  | .sk _ => False
  | .raw r => r.ptype ∉ typed ∧ r.critical = false
  | _ => True

structure Payload.Representable (checks : Bool) (p : Payload) : Prop where
  wellformed : p.Wellformed
  short : ∀ body, payloadBody checks p = some body → body.length < 65532

theorem length_of_decodeBody {ptype : PayloadType}
    (hsa : ptype ≠ .sa) (hsmall : bytes.length < 2 ^ 62)
    (h : decodeBody checks ptype next critical bytes = .ok p)
    (hbody : payloadBody checks p = some body) : body.length ≤ bytes.length := by
  cases ptype with
  | sa => exact absurd rfl hsa
  | ke =>
    obtain ⟨k, hk, rfl⟩ := map_eq_ok h
    cases hbody
    exact (length_of_decodeKeBody hk).le
  | idi | idr =>
    obtain ⟨i, hi, rfl⟩ := map_eq_ok h
    cases hbody
    exact (length_of_decodeIdBody hi).le
  | cert | certReq =>
    obtain ⟨c, hc, rfl⟩ := map_eq_ok h
    cases hbody
    exact (length_of_decodeCertBody hc).le
  | auth =>
    obtain ⟨a, ha, rfl⟩ := map_eq_ok h
    cases hbody
    exact (length_of_decodeAuthBody ha).le
  | notify =>
    obtain ⟨n, hn, rfl⟩ := map_eq_ok h
    cases hbody
    exact (length_of_decodeNotifyBody hn).le
  | tsi | tsr =>
    obtain ⟨t, ht, rfl⟩ := map_eq_ok h
    cases hbody
    exact length_of_decodeTsBody hsmall ht
  | sk =>
    cases h
    cases hbody
    exact Nat.zero_le _
  | none | nonce | delete | vendor | cp | eap =>
    cases h
    cases hbody
    exact le_rfl

theorem decodeBody_take_ne (hp : p.Representable checks) (hbody : payloadBody checks p = some body)
    (hfour : 4 ≤ body.length) :
    decodeBody checks p.ptype next critical (body.take (body.length - 4)) ≠ .ok p := by
  intro h
  have hshort := hp.short body hbody
  have htake : (body.take (body.length - 4)).length = body.length - 4 := by
    rw [length_take]
    omega
  by_cases hsa : p.ptype = .sa
  · cases p with
    | sa s =>
      obtain ⟨s', hs', hs⟩ := map_eq_ok h
      cases hs
      obtain ⟨ps, hps, h⟩ := bind_eq_ok_iff.mp hs'
      cases h
      have hne : ps ≠ [] := by
        rintro rfl
        cases hbody
        exact absurd hfour (by decide)
      exact lt_irrefl _ (decodeProposals_take [] hne hbody (by omega) hps)
    | raw r =>
      have hraw : r.ptype = .sa := hsa
      exact hp.wellformed.1 (by rw [hraw]; decide)
    | _ => cases hsa
  · have := length_of_decodeBody hsa (by omega) h hbody
    omega

theorem decodeOne_encodePayload_ne {next' : PayloadType} {more : Bytes}
    (hp : p.Representable checks)
    (henc : encodePayload checks p next = some enc) (hbytes : bytes <+: enc ++ more) :
    decodeOne checks bytes p.ptype ≠ .ok (p, next') := by
  intro h
  obtain ⟨body, hbody, henc⟩ := bind_eq_some_iff.mp henc
  cases henc
  obtain ⟨taken, hread, next'', critical, hdec⟩ := hasBody_of_decodeOne h
  have hshort := hp.short body hbody
  have hheader := hread.header
  obtain ⟨hfour, -, hroom⟩ := hread.length
  have hflat : payloadHeader next false body.length ++ body ++ more =
      [next.toU8, 0] ++ (asU16 body.length ++ (body ++ more)) := by
    simp only [payloadHeader, append_assoc, Bool.false_eq_true, if_false]
  rw [hflat] at hbytes
  have htake := prefix_iff_eq_take.mp hbytes
  have hlen : (getU16 bytes 2).toNat = body.length := by
    rw [htake, getU16_take (by omega), getU16_asU16 (by omega)]
  have htaken : taken = body.take (body.length - 4) := by
    rw [hread.body, hlen, htake, drop_take, take_take, Nat.min_eq_left (by omega)]
    exact take_append_of_le_length (Nat.sub_le ..)
  rw [htaken] at hdec
  exact decodeBody_take_ne hp hbody (by omega) hdec

/-! ## Messages -/

theorem encodeTransform_isSome (checks last : Bool) (ht : t.Representable) :
    (encodeTransform checks t last).isSome := by
  have hattributes : (encodeAttributes checks t).isSome := by
    unfold encodeAttributes
    split
    · rename_i kl htype hkey
      have hbits : kl % 2 ^ 16 * 8 < 2 ^ 16 := by
        have := (ht kl hkey).2
        omega
      rw [keyBits, if_neg (fun h => absurd h.2 (Nat.not_le.mpr hbits))]
      rfl
    · rfl
  obtain ⟨attributes, hattributes⟩ := isSome_iff_exists.mp hattributes
  rw [encodeTransform, hattributes]
  rfl

theorem encodeTransforms_isSome (checks : Bool)
    (h : ∀ t ∈ ts, t.Representable) : (encodeTransforms checks ts).isSome := by
  induction ts with
  | nil => rfl
  | cons t ts ih =>
    obtain ⟨ht, hts⟩ := forall_mem_cons.mp h
    obtain ⟨bytes, hbytes⟩ := isSome_iff_exists.mp
      (encodeTransform_isSome checks ts.isEmpty ht)
    obtain ⟨more, hmore⟩ := isSome_iff_exists.mp (ih hts)
    rw [encodeTransforms, hbytes, hmore]
    rfl

theorem encodeProposals_isSome
    (h : ∀ p ∈ ps, p.Representable) : (encodeProposals checks ps).isSome := by
  induction ps with
  | nil => rfl
  | cons p ps ih =>
    obtain ⟨hp, hps⟩ := forall_mem_cons.mp h
    obtain ⟨transforms, htransforms⟩ := isSome_iff_exists.mp
      (encodeTransforms_isSome checks hp.each)
    obtain ⟨more, hmore⟩ := isSome_iff_exists.mp (ih hps)
    rw [encodeProposals, encodeProposal, htransforms, hmore]
    rfl

theorem encodePayload_isSome (hp : p.Representable checks)
    (next : PayloadType) : (encodePayload checks p next).isSome := by
  have hbody : (payloadBody checks p).isSome := by
    cases p with
    | sa s => exact encodeProposals_isSome hp.wellformed
    | _ => rfl
  obtain ⟨body, hbody⟩ := isSome_iff_exists.mp hbody
  rw [encodePayload, hbody]
  rfl

theorem encodePayloads_isSome {ps : List Payload}
    (h : ∀ p ∈ ps, p.Representable checks) : (encodePayloads checks ps).isSome := by
  induction ps with
  | nil => rfl
  | cons p ps ih =>
    obtain ⟨hp, hps⟩ := forall_mem_cons.mp h
    obtain ⟨bytes, hbytes⟩ := isSome_iff_exists.mp (encodePayload_isSome hp (firstType ps))
    obtain ⟨more, hmore⟩ := isSome_iff_exists.mp (ih hps)
    rw [encodePayloads, hbytes, hmore]
    rfl

theorem decodeChain_encodePayloads_ne {ps : List Payload} (hp : p.Representable checks)
    (henc : encodePayloads checks (p :: ps) = some enc) (hbytes : bytes <+: enc) :
    decodeChain checks fuel bytes p.ptype ≠ .ok (p :: ps) := by
  intro h
  obtain ⟨first, hfirst, henc⟩ := bind_eq_some_iff.mp henc
  obtain ⟨more, -, henc⟩ := bind_eq_some_iff.mp henc
  cases henc
  cases fuel with
  | zero => cases h
  | succ fuel =>
    rw [decodeChain] at h
    split at h
    · simp only [bind_eq_ok_iff] at h
      obtain ⟨r, hr, len, -, rest, -, h⟩ := h
      cases h
      exact decodeOne_encodePayload_ne hp hfirst hbytes hr
    · cases h

theorem length_headerEncode (h : Header) : h.encode.length = ikeHeaderLen := by
  simp [Header.encode, ikeHeaderLen]

theorem messageDecode_append (checks : Bool) (h : Header) (body : Bytes)
    (hlen : h.length.toNat ≤ ikeHeaderLen + body.length) :
    Message.decode checks (h.encode ++ body) =
      (do
        let payloads ← decodeChain checks ((h.encode ++ body).length + 1)
          (body.take (h.length.toNat - ikeHeaderLen)) h.nextPayload
        pure { header := h, payloads := payloads }) := by
  have hroom : ¬ (h.encode ++ body).length < h.length.toNat := by
    rw [length_append, length_headerEncode]
    omega
  rw [Message.decode, headerDecode_encode, ok_bind]
  dsimp only
  rw [if_neg hroom, drop_take, ← length_headerEncode h, drop_left]

def SameHeader (h h' : Header) : Prop :=
  { h with nextPayload := h'.nextPayload, length := h'.length } = h'

/-- A message is returned as it was exactly if it has no payloads. -/
theorem decode_encode_message_iff (checks : Bool) (m : Message)
    (h : ∀ p ∈ m.payloads, p.Representable checks) : ∃ bytes, m.encode checks = some bytes ∧
      ((∃ m', Message.decode checks bytes = .ok m' ∧ m'.payloads = m.payloads ∧
        SameHeader m'.header m.header) ↔ m.payloads = []) := by
  obtain ⟨body, hbody⟩ := isSome_iff_exists.mp (encodePayloads_isSome h)
  refine ⟨_, by rw [Message.encode, hbody]; rfl, ?_⟩
  rw [messageDecode_append checks _ _ (by
    dsimp only
    rw [UInt32.toNat_ofNat']
    exact Nat.mod_le ..)]
  dsimp only
  constructor
  · rintro ⟨m', hdec, hpayloads, -⟩
    obtain ⟨payloads, hchain, hdec⟩ := bind_eq_ok_iff.mp hdec
    cases hdec
    dsimp only at hpayloads
    subst hpayloads
    cases hm : m.payloads with
    | nil => rfl
    | cons p ps =>
      rw [hm] at hchain hbody h
      exact absurd hchain (decodeChain_encodePayloads_ne (h p mem_cons_self) hbody
        (List.take_prefix ..))
  · intro hnil
    rw [hnil]
    exact ⟨_, rfl, rfl, rfl⟩

def nonceMessage : Message where
  header :=
    { spiI := FixedBytes.replicate 8 1, spiR := FixedBytes.replicate 8 0, nextPayload := .nonce,
      version := 0x20, exchange := .ikeSaInit, flags := 0x08, messageId := 0, length := 40 }
  payloads := [.nonce ⟨[1, 2, 3, 4, 5, 6, 7, 8]⟩]

theorem nonceMessage_representable (checks : Bool) :
    ∀ p ∈ nonceMessage.payloads, p.Representable checks := by
  intro p hp
  rw [nonceMessage, mem_singleton] at hp
  subst hp
  exact ⟨trivial, fun body h => by cases h; decide⟩

theorem decode_encode_message_iff_nonce : ∃ bytes, nonceMessage.encode true = some bytes ∧
      ((∃ m', Message.decode true bytes = .ok m' ∧ m'.payloads = nonceMessage.payloads ∧
        SameHeader m'.header nonceMessage.header) ↔ nonceMessage.payloads = []) :=
  decode_encode_message_iff true nonceMessage (nonceMessage_representable true)

/-- The nonce comes back without its last four bytes, and the chain ends there. -/
theorem nonce_truncated : (∀ p ∈ nonceMessage.payloads, p.Representable true) ∧
      (nonceMessage.encode true).map (Message.decode true) =
        some (.ok { nonceMessage with payloads := [.nonce ⟨[1, 2, 3, 4]⟩] }) :=
  ⟨nonceMessage_representable true, by decide +kernel⟩

end TptRfc.Ipsec
