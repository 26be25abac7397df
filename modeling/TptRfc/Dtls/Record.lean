import TptRfc.Dtls.Crypto
import TptRfc.Dtls.Handshake
import TptRfc.Dtls.Replay

/-!
# DTLS: the record layer

A record is a 13-byte header, a body whose length the header declares, and, when a connection id is
in use, the id behind it, which the declared length does not count.
-/

namespace TptRfc.Dtls

open Lib Parser

def contentHandshake : UInt8 := 22

def contentApplicationData : UInt8 := 23

def dtlsLegacyVersion : UInt16 := 0xfefd

structure RecordHeader where
  contentType : UInt8
  version : UInt16
  epoch : UInt16
  /-- 48-bit record sequence number. -/
  sequence : ℕ
  /-- Length of the body, without a trailing connection id. -/
  length : UInt16
  deriving DecidableEq

namespace RecordHeader

def size : ℕ := 13

def encode (h : RecordHeader) : Bytes :=
  [h.contentType] ++ (u16Bytes h.version ++ (u16Bytes h.epoch ++
    (Writer.u48 h.sequence ++ u16Bytes h.length)))

def parser : Parser DtlsError RecordHeader := do
  let contentType ← Reader.u8
  let version ← Reader.u16
  let epoch ← Reader.u16
  let sequence ← Reader.u48
  let length ← Reader.u16
  pure
    { contentType := contentType, version := version, epoch := epoch, sequence := sequence,
      length := length }

def decode (buf : Bytes) : Except DtlsError (RecordHeader × Bytes) :=
  if buf.length < size then .error (.recordLengthMismatch size buf.length)
  else do
    let header ← Parser.run parser (buf.take size)
    pure (header, buf.drop size)

end RecordHeader

structure Record where
  header : RecordHeader
  body : Bytes
  cid : Option Bytes
  /-- The bytes of the buffer that it takes up: `13 + advance` in the source. -/
  size : ℕ
  deriving DecidableEq

def splitRecord (recvCidLen : ℕ) (buf : Bytes) : Except DtlsError Record := do
  let (header, rest) ← RecordHeader.decode buf
  let bodyLen := header.length.toNat
  if rest.length < bodyLen then .error (.recordLengthMismatch bodyLen rest.length)
  else
    let body := rest.take bodyLen
    let trailing := rest.drop bodyLen
    if 0 < recvCidLen ∧ recvCidLen ≤ trailing.length then do
      let cid ← ConnectionId.new (trailing.take recvCidLen)
      pure
        { header := header, body := body, cid := some cid,
          size := RecordHeader.size + (bodyLen + recvCidLen) }
    else if 0 < recvCidLen then do
      let cid ← ConnectionId.new trailing
      pure
        { header := header, body := body, cid := some cid,
          size := RecordHeader.size + (bodyLen + trailing.length) }
    else
      pure
        { header := header, body := body, cid := none, size := RecordHeader.size + bodyLen }

variable {buf : Bytes} {record : Record} {recvCidLen : ℕ}

theorem splitRecord_eq_ok (h : splitRecord recvCidLen buf = .ok record) :
    ∃ rest, RecordHeader.decode buf = .ok (record.header, rest) ∧
      record.body = rest.take record.header.length.toNat ∧ RecordHeader.size ≤ record.size := by
  unfold splitRecord at h
  cases hdecode : RecordHeader.decode buf with
  | error e =>
    rw [hdecode] at h
    cases h
  | ok x =>
    rw [hdecode] at h
    simp only [bind, Except.bind, pure, Except.pure] at h
    split_ifs at h with hshort hcid htrailing
    iterate 2
      · cases hnew : ConnectionId.new _ <;> rw [hnew] at h <;> cases h
        exact ⟨_, rfl, rfl, Nat.le_add_right _ _⟩
    · cases h
      exact ⟨_, rfl, rfl, Nat.le_add_right _ _⟩

theorem size_le_of_splitRecord
    (h : splitRecord recvCidLen buf = .ok record) : RecordHeader.size ≤ record.size := by
  obtain ⟨-, -, -, hsize⟩ := splitRecord_eq_ok h
  exact hsize

namespace RecordHeader

@[simp] theorem length_encode (h : RecordHeader) : h.encode.length = size := by
  simp [encode, Writer.u48, size]

theorem decode_encode (h : RecordHeader) (rest : Bytes) :
    decode (h.encode ++ rest) = .ok ({ h with sequence := h.sequence % 256 ^ 6 }, rest) := by
  have hsequence : Decodes Reader.u48 (Writer.u48 h.sequence) (h.sequence % 256 ^ 6) := by
    rw [Writer.u48, ← beBytes_mod 6 h.sequence 6 le_rfl]
    exact decodes_takeBe _ (Nat.mod_lt _ (by decide))
  have hparser : Decodes parser h.encode { h with sequence := h.sequence % 256 ^ 6 } :=
    (decodes_takeU8 _ h.contentType).bind ((decodes_takeU16 _ h.version).bind
      ((decodes_takeU16 _ h.epoch).bind (hsequence.bind
        ((decodes_takeU16 _ h.length).bind_pure fun length =>
          (⟨h.contentType, h.version, h.epoch, h.sequence % 256 ^ 6, length⟩ : RecordHeader)))))
  rw [decode, if_neg (by simp), List.take_left' h.length_encode, List.drop_left' h.length_encode,
    run_of_ok hparser.run_nil]
  rfl

end RecordHeader

theorem splitRecord_encode {header : RecordHeader} {rest : Bytes}
    (h : splitRecord recvCidLen (header.encode ++ rest) = .ok record) :
    record.header = { header with sequence := header.sequence % 256 ^ 6 } ∧
      record.body = rest.take header.length.toNat := by
  obtain ⟨rest', hdecode, hbody, -⟩ := splitRecord_eq_ok h
  rw [RecordHeader.decode_encode] at hdecode
  obtain ⟨hheader, rfl⟩ := Prod.mk.inj (Except.ok.inj hdecode)
  rw [← hheader] at hbody ⊢
  exact ⟨rfl, hbody⟩

def buildCleartext (contentType : UInt8) (epoch : UInt16) (sequence : ℕ) (content : Bytes) :
    Bytes :=
  RecordHeader.encode
    { contentType := contentType, version := dtlsLegacyVersion, epoch := epoch,
      sequence := sequence, length := UInt16.ofNat content.length } ++ content

def buildAad (outerType : UInt8) (epoch : UInt16) (sequence : ℕ) (length : UInt16) : Bytes :=
  [outerType] ++ (u16Bytes dtlsLegacyVersion ++ (u16Bytes epoch ++
    (Writer.u48 sequence ++ u16Bytes length)))

def nonceFor (iv : FixedBytes 12) (sequence : ℕ) : FixedBytes 12 :=
  ⟨iv.val.take 4 ++ List.zipWith (· ^^^ ·) (iv.val.drop 4) (beBytes 8 sequence), by
    simp [iv.property]⟩

variable (env : Crypto)

def buildProtected (suite : CipherSuite) (key : Bytes) (iv : FixedBytes 12) (epoch : UInt16)
    (sequence : ℕ) (outerType innerType : UInt8) (content : Bytes) (cid : Option Bytes) :
    Except DtlsError Bytes :=
  if maxSequence < sequence then .error (.sequenceOverflow epoch.toNat)
  else do
    let plaintext := content ++ [innerType]
    let length := UInt16.ofNat (plaintext.length + suite.tagLen)
    let ct ← env.aeadSeal suite key (nonceFor iv sequence)
      (buildAad outerType epoch sequence length) plaintext
    pure (RecordHeader.encode
      { contentType := outerType, version := dtlsLegacyVersion, epoch := epoch,
        sequence := sequence, length := length } ++ ct ++ cid.getD [])

def openProtected (suite : CipherSuite) (key : Bytes) (iv : FixedBytes 12)
    (header : RecordHeader) (aeadOutput : Bytes) : Except DtlsError (UInt8 × Bytes) := do
  let plaintext ← env.aeadOpen suite key (nonceFor iv header.sequence)
    (buildAad header.contentType header.epoch header.sequence (UInt16.ofNat aeadOutput.length))
    aeadOutput
  match plaintext.getLast? with
  | none => .error .decryptFailed
  | some innerType => pure (innerType, plaintext.dropLast)

end TptRfc.Dtls
