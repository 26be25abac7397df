import TptRfc.Dtls.Record
import TptRfc.Lib.Access

/-!
# DTLS: what protects a record opens it again

`build_protected` writes the low 48 bits of the sequence number and the low 16 bits of the length
into the header, and appends the connection id; `split_datagram` and `open_protected` start from the
header.
-/

namespace TptRfc.Dtls

open Lib List Access

structure Crypto.Lawful (env : Crypto) : Prop where
  length : ∀ {suite key nonce aad plaintext ciphertext},
    env.aeadSeal suite key nonce aad plaintext = .ok ciphertext →
      ciphertext.length = plaintext.length + suite.tagLen
  opens : ∀ {suite key nonce aad plaintext ciphertext},
    env.aeadSeal suite key nonce aad plaintext = .ok ciphertext →
      env.aeadOpen suite key nonce aad ciphertext = .ok plaintext

def splitDatagram (datagram : Bytes) (recvCidLen : ℕ) :
    Except DtlsError (RecordHeader × Bytes × Option Bytes) := do
  let record ← splitRecord recvCidLen datagram
  pure (record.header, record.body, record.cid)

section Split

variable {header : RecordHeader} {rest : Bytes} {recvCidLen : ℕ}

theorem splitRecord_of_le (hbody : header.length.toNat ≤ rest.length) (hcid : recvCidLen ≤ 255) :
    splitRecord recvCidLen (header.encode ++ rest) =
      .ok { header := { header with sequence := header.sequence % 256 ^ 6 }
            body := rest.take header.length.toNat
            cid := if 0 < recvCidLen then some ((rest.drop header.length.toNat).take recvCidLen)
              else none
            size := RecordHeader.size + (header.length.toNat +
              min recvCidLen (rest.length - header.length.toNat)) } := by
  have hnew : ∀ cid : Bytes, cid.length ≤ recvCidLen → ConnectionId.new cid = .ok cid :=
    fun cid h => if_neg (by omega)
  rw [splitRecord, RecordHeader.decode_encode]
  simp only [bind, Except.bind, pure, Except.pure]
  rw [if_neg (by omega), length_drop]
  by_cases hpos : 0 < recvCidLen
  · by_cases hfits : recvCidLen ≤ rest.length - header.length.toNat
    · rw [if_pos ⟨hpos, hfits⟩, hnew _ (length_take_le _ _), if_pos hpos, min_eq_left hfits]
    · have hshort : (rest.drop header.length.toNat).length ≤ recvCidLen := by
        rw [length_drop]
        omega
      rw [if_neg fun h => hfits h.2, if_pos hpos, hnew _ hshort, if_pos hpos,
        min_eq_right (by omega), take_of_length_le hshort]
  · obtain rfl : recvCidLen = 0 := by omega
    simp

theorem splitRecord_of_long (hbody : header.length.toNat + recvCidLen ≤ rest.length)
    (hcid : 255 < recvCidLen) (record : Record) :
    splitRecord recvCidLen (header.encode ++ rest) ≠ .ok record := by
  rw [splitRecord, RecordHeader.decode_encode]
  simp only [bind, Except.bind, pure, Except.pure]
  rw [if_neg (by omega), length_drop, if_pos ⟨by omega, by omega⟩, ConnectionId.new,
    if_pos (by rw [length_take, length_drop]; omega)]
  nofun

end Split

theorem nonceFor_inj {iv : FixedBytes 12} {m n : ℕ} (hm : m < 256 ^ 8) (hn : n < 256 ^ 8)
    (h : nonceFor iv m = nonceFor iv n) : m = n := by
  have hcancel : ∀ k, zipWith (· ^^^ ·) (zipWith (· ^^^ ·) (iv.val.drop 4) (beBytes 8 k))
      (iv.val.drop 4) = beBytes 8 k := fun k => by
    rw [zipWith_comm_of_comm (l := iv.val.drop 4) UInt8.xor_comm]
    exact zipWith_xor_cancel (by simp)
  have hbytes : beBytes 8 m = beBytes 8 n := by
    rw [← hcancel m, append_cancel_left (congrArg (·.val) h), hcancel]
  rw [← beNat_beBytes_of_lt hm, hbytes, beNat_beBytes_of_lt hn]

/-! ## The round trip -/

section RoundTrip

variable (env : Crypto) (suite : CipherSuite) (key : Bytes) (iv : FixedBytes 12) (epoch : UInt16)
  (sequence : ℕ) (outerType innerType : UInt8) (content : Bytes) (cid : Option Bytes)

def ProtectOpens : Prop :=
  ∀ datagram,
    buildProtected env suite key iv epoch sequence outerType innerType content cid = .ok datagram →
      ∃ header body, splitDatagram datagram (cid.getD []).length = .ok (header, body, cid) ∧
        openProtected env suite key iv header body = .ok (innerType, content)

def Carriable : Prop :=
  sequence < 2 ^ 48 ∧ content.length + 1 + suite.tagLen < 2 ^ 16 ∧ cid ≠ some [] ∧
    (cid.getD []).length ≤ 255

def protectedHeader : RecordHeader where
  contentType := outerType
  version := dtlsLegacyVersion
  epoch := epoch
  sequence := sequence
  length := UInt16.ofNat (content.length + 1 + suite.tagLen)

variable {env suite key iv epoch sequence outerType innerType content cid}

theorem buildProtected_eq_ok {datagram : Bytes}
    (h : buildProtected env suite key iv epoch sequence outerType innerType content cid =
      .ok datagram) : sequence ≤ maxSequence ∧ ∃ ct,
      env.aeadSeal suite key (nonceFor iv sequence) (buildAad outerType epoch sequence
        (UInt16.ofNat (content.length + 1 + suite.tagLen))) (content ++ [innerType]) = .ok ct ∧
      datagram = (protectedHeader suite epoch sequence outerType content).encode ++
        (ct ++ cid.getD []) := by
  simp only [buildProtected, length_append, length_singleton] at h
  split at h
  · cases h
  · rename_i hseq
    obtain ⟨ct, hseal, h⟩ := bind_eq_ok_iff.mp h
    cases h
    exact ⟨not_lt.mp hseq, ct, hseal, append_assoc _ _ _⟩

theorem toNat_protectedLength (h : content.length + 1 + suite.tagLen < 2 ^ 16) :
    (protectedHeader suite epoch sequence outerType content).length.toNat =
      content.length + 1 + suite.tagLen :=
  UInt16.toNat_ofNat_of_lt' h

theorem protectOpens_of_carriable (henv : env.Lawful) (h : Carriable suite sequence content cid) :
    ProtectOpens env suite key iv epoch sequence outerType innerType content cid := by
  obtain ⟨hseq, hlen, hempty, hcid⟩ := h
  intro datagram hbuild
  obtain ⟨-, ct, hseal, rfl⟩ := buildProtected_eq_ok hbuild
  have hct : (protectedHeader suite epoch sequence outerType content).length.toNat = ct.length := by
    rw [toNat_protectedLength hlen, henv.length hseal, length_append, length_singleton]
  refine ⟨protectedHeader suite epoch sequence outerType content, ct, ?_, ?_⟩
  · rw [splitDatagram, splitRecord_of_le (by rw [hct, length_append]; omega) hcid, hct, take_left,
      drop_left]
    have hkept : sequence % 256 ^ 6 = sequence := Nat.mod_eq_of_lt hseq
    simp only [protectedHeader, hkept]
    cases cid with
    | none => rfl
    | some id =>
      have hpos : 0 < id.length := length_pos_iff.mpr fun h => hempty (congrArg some h)
      rw [Option.getD_some, if_pos hpos, take_length]
      rfl
  · have hlength : UInt16.ofNat ct.length = UInt16.ofNat (content.length + 1 + suite.tagLen) := by
      rw [← hct, toNat_protectedLength hlen]
    rw [openProtected, hlength]
    simp only [protectedHeader]
    rw [henv.opens hseal]
    simp [bind, Except.bind, pure, Except.pure]

/-! ## An AEAD that commits to its nonce -/

def nonceTag (nonce : FixedBytes 12) : Bytes := nonce.val ++ replicate 4 0

def Crypto.nonceTag : Crypto :=
  { Crypto.plain with
    aeadSeal := fun _ _ nonce _ plaintext => .ok (plaintext ++ Dtls.nonceTag nonce)
    aeadOpen := fun _ _ nonce _ ciphertext =>
      if Dtls.nonceTag nonce <:+ ciphertext then .ok (ciphertext.take (ciphertext.length - 16))
      else .error .decryptFailed }

@[simp] theorem length_nonceTag (nonce : FixedBytes 12) : (nonceTag nonce).length = 16 := by
  simp [nonceTag]

theorem lawful_nonceTag : Crypto.nonceTag.Lawful where
  length h := by
    cases h
    simp [CipherSuite.tagLen]
  opens {suite key nonce aad plaintext ciphertext} h := by
    cases h
    simp [Crypto.nonceTag]

theorem nonceTag_injective {m n : FixedBytes 12} (h : nonceTag m = nonceTag n) : m = n :=
  Subtype.ext (append_cancel_right h)

theorem openProtected_nonceTag {header : RecordHeader} {body : Bytes}
    (h : openProtected .nonceTag suite key iv header body = .ok (innerType, content)) :
    nonceTag (nonceFor iv header.sequence) <:+ body ∧ content.length + 17 = body.length := by
  obtain ⟨plaintext, hopen, h⟩ := bind_eq_ok_iff.mp h
  simp only [Crypto.nonceTag] at hopen
  split at hopen
  · rename_i hsuffix
    cases hopen
    have hlen := hsuffix.length_le
    rw [length_nonceTag] at hlen
    split at h
    · cases h
    · rename_i last hlast
      cases h
      obtain ⟨front, hfront⟩ := getLast?_eq_some_iff.mp hlast
      have := congrArg length hfront
      rw [length_take, length_append, length_singleton] at this
      rw [hfront, dropLast_concat]
      exact ⟨hsuffix, by omega⟩
  · cases hopen

theorem sequence_lt_of_nonceTag (hmax : sequence ≤ maxSequence) {text : Bytes}
    (h : nonceTag (nonceFor iv (sequence % 256 ^ 6)) <:+ text ++ nonceTag (nonceFor iv sequence)) :
    sequence < 2 ^ 48 := by
  have hlt : sequence < 256 ^ 8 := lt_of_le_of_lt hmax (by decide)
  obtain ⟨front, hfront⟩ := h
  have hsame := nonceFor_inj (lt_of_le_of_lt (Nat.mod_le _ _) hlt) hlt
    (nonceTag_injective (append_inj' hfront (by simp)).2)
  rw [← hsame]
  exact Nat.mod_lt _ (by decide)

theorem carriable_of_protectOpens (hmax : sequence ≤ maxSequence)
    (h : ProtectOpens .nonceTag suite key iv epoch sequence outerType innerType content cid) :
    Carriable suite sequence content cid := by
  have htag : suite.tagLen = 16 := rfl
  set ct := content ++ [innerType] ++ nonceTag (nonceFor iv sequence) with hct
  have hctlen : ct.length = content.length + 17 := by simp [hct]
  set header := protectedHeader suite epoch sequence outerType content with hheader
  have hbuild : buildProtected .nonceTag suite key iv epoch sequence outerType innerType content
      cid = .ok (header.encode ++ (ct ++ cid.getD [])) := by
    rw [buildProtected, if_neg (not_lt.mpr hmax), ← append_assoc]
    simp [Crypto.nonceTag, bind, Except.bind, pure, Except.pure, hct, hheader, protectedHeader]
  obtain ⟨header', body, hsplit, hopen⟩ := h _ hbuild
  obtain ⟨record, hrecord, hparts⟩ := bind_eq_ok_iff.mp hsplit
  simp only [pure, Except.pure, Except.ok.injEq, Prod.mk.injEq] at hparts
  obtain ⟨rfl, rfl, hcideq⟩ := hparts
  -- the length field is never too large
  have hwrapped : header.length.toNat = (content.length + 17) % 2 ^ 16 := UInt16.toNat_ofNat'
  have hcid : (cid.getD []).length ≤ 255 := by
    by_contra hlong
    exact splitRecord_of_long (by rw [length_append]; omega) (not_le.mp hlong) record hrecord
  rw [splitRecord_of_le (by rw [length_append]; omega) hcid] at hrecord
  cases hrecord
  obtain ⟨htagged, hlength⟩ := openProtected_nonceTag hopen
  rw [length_take, length_append] at hlength
  have hwhole : header.length.toNat = ct.length := by omega
  rw [hwhole, take_left] at htagged
  refine ⟨sequence_lt_of_nonceTag hmax htagged, by omega, ?_, hcid⟩
  rintro rfl
  cases hcideq

end RoundTrip

/-- **A record comes back whatever the AEAD exactly if** `build_protected` refuses to build it,
or its number has 48 bits, its length 16, and its connection id is missing or has between 1
and 255 bytes. -/
theorem protect_open_iff (suite : CipherSuite) (key : Bytes) (iv : FixedBytes 12) (epoch : UInt16)
    (sequence : ℕ) (outerType innerType : UInt8) (content : Bytes) (cid : Option Bytes) :
    (∀ env : Crypto, env.Lawful →
        ProtectOpens env suite key iv epoch sequence outerType innerType content cid) ↔
      maxSequence < sequence ∨ Carriable suite sequence content cid := by
  constructor
  · intro h
    rcases lt_or_ge maxSequence sequence with hrefused | hmax
    · exact .inl hrefused
    · exact .inr (carriable_of_protectOpens hmax (h .nonceTag lawful_nonceTag))
  · rintro (hrefused | hcarriable) env henv
    · intro datagram hbuild
      exact absurd (buildProtected_eq_ok hbuild).1 (not_le.mpr hrefused)
    · exact protectOpens_of_carriable henv hcarriable

/-- The record with the number `2 ^ 48` is built, and it does not open. -/
theorem protected_not_opened : Crypto.nonceTag.Lawful ∧
      ∃ datagram header body,
        buildProtected .nonceTag .tlsAes128GcmSha256 [] (FixedBytes.replicate 12 0) 1 (2 ^ 48)
          contentApplicationData contentApplicationData [] none = .ok datagram ∧
        splitDatagram datagram 0 = .ok (header, body, none) ∧
        openProtected .nonceTag .tlsAes128GcmSha256 [] (FixedBytes.replicate 12 0) header body =
          .error .decryptFailed :=
  ⟨lawful_nonceTag, _, _, _, rfl, rfl, by decide⟩

end TptRfc.Dtls
