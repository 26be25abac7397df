import TptRfc.Lib.Parser
import TptRfc.Dtls.Basic

/-!
# DTLS: handshake messages

Their encoders and parsers, the fragment header in front of each, `fragment_message` and the
`Reassembler`.
-/

namespace TptRfc.Dtls

open Lib Parser

namespace HandshakeType

def code : HandshakeType → UInt8
  | clientHello => 1
  | serverHello => 2
  | encryptedExtensions => 8
  | certificate => 11
  | certificateVerify => 15
  | finished => 20

def fromCode (c : UInt8) : Except DtlsError HandshakeType :=
  if c = 1 then .ok .clientHello
  else if c = 2 then .ok .serverHello
  else if c = 8 then .ok .encryptedExtensions
  else if c = 11 then .ok .certificate
  else if c = 15 then .ok .certificateVerify
  else if c = 20 then .ok .finished
  else .error (.unknownHandshakeType c)

@[simp] theorem fromCode_code (t : HandshakeType) : fromCode t.code = .ok t := by
  cases t <;> rfl

theorem fromCode_eq_ok_iff {c : UInt8} {t : HandshakeType} : fromCode c = .ok t ↔ c = t.code := by
  constructor
  · intro h
    unfold fromCode at h
    split_ifs at h with h₁ h₂ h₃ h₄ h₅ h₆ <;> cases h <;> assumption
  · rintro rfl
    exact fromCode_code t

theorem code_injective : Function.Injective code := by
  intro t t' h
  have hcode := fromCode_code t
  rw [h, fromCode_code] at hcode
  exact (Except.ok.inj hcode).symm

end HandshakeType

/-! ## Writer and reader -/

namespace Writer

def u24 (v : ℕ) : Bytes := beBytes 3 v

def u48 (v : ℕ) : Bytes := beBytes 6 v

def vecU8 (v : Bytes) : Bytes := UInt8.ofNat v.length :: v

def vecU16 (v : Bytes) : Bytes := u16Bytes (UInt16.ofNat v.length) ++ v

def vecU24 (v : Bytes) : Bytes := u24 v.length ++ v

end Writer

namespace Reader

def bytes (n : ℕ) : Parser DtlsError Bytes := takeBytes .unexpectedEof n

def fixed (n : ℕ) : Parser DtlsError (FixedBytes n) := takeFixed .unexpectedEof n

def u8 : Parser DtlsError UInt8 := takeU8 .unexpectedEof

def u16 : Parser DtlsError UInt16 := takeU16 .unexpectedEof

def u24 : Parser DtlsError ℕ := takeBe .unexpectedEof 3

def u48 : Parser DtlsError ℕ := takeBe .unexpectedEof 6

def vecU8 : Parser DtlsError Bytes := do
  let n ← u8
  bytes n.toNat

def vecU16 : Parser DtlsError Bytes := do
  let n ← u16
  bytes n.toNat

def vecU24 : Parser DtlsError Bytes := do
  let n ← u24
  bytes n

def all {α : Type} (p : Parser DtlsError α) (list : Bytes) : Except DtlsError (List α) :=
  Parser.run (whileRemaining 1 p) list

end Reader

/-! ## Extensions -/

abbrev Extension := UInt16 × Bytes

namespace Ext

def supportedVersions : UInt16 := 0x002b
def supportedGroups : UInt16 := 0x000a
def signatureAlgorithms : UInt16 := 0x000d
def keyShare : UInt16 := 0x0033
def cookie : UInt16 := 0x002c
def connectionId : UInt16 := 0x0039

end Ext

def groupX25519 : UInt16 := 29

def sigschemeEd25519 : UInt16 := 0x0807

def dtls13Version : UInt16 := 0xfefc

def legacyVersion : UInt16 := 0xfefd

def encodeExtension (e : Extension) : Bytes := u16Bytes e.1 ++ Writer.vecU16 e.2

def putExtensions (exts : List Extension) : Bytes := Writer.vecU16 (exts.flatMap encodeExtension)

def readExtension : Parser DtlsError Extension := do
  let ty ← Reader.u16
  let data ← Reader.vecU16
  pure (ty, data)

def readExtensions : Parser DtlsError (List Extension) := do
  let list ← Reader.vecU16
  lift (Reader.all readExtension list)

def findExt (exts : List Extension) (ty : UInt16) : Option Bytes :=
  (exts.find? fun e => e.1 == ty).map Prod.snd

def optionalExt {α : Type} (exts : List Extension) (ty : UInt16) (default : α)
    (parse : Bytes → Except DtlsError α) : Except DtlsError α :=
  match findExt exts ty with
  | none => .ok default
  | some data => parse data

def ConnectionId.new (bytes : Bytes) : Except DtlsError Bytes :=
  if bytes.length > 255 then .error (.handshakeIncomplete "cid too long") else .ok bytes

def parseU16List (data : Bytes) : Except DtlsError (List UInt16) := do
  let list ← Parser.run Reader.vecU16 data
  Reader.all Reader.u16 list

/-! ## Bodies -/

structure KeyShareEntry where
  group : UInt16
  keyExchange : Bytes
  deriving DecidableEq

namespace KeyShareEntry

def encode (e : KeyShareEntry) : Bytes := u16Bytes e.group ++ Writer.vecU16 e.keyExchange

def parse : Parser DtlsError KeyShareEntry := do
  let group ← Reader.u16
  let keyExchange ← Reader.vecU16
  pure { group := group, keyExchange := keyExchange }

end KeyShareEntry

structure ClientHello where
  random : FixedBytes 32
  sessionId : Bytes
  cipherSuites : List UInt16
  groups : List UInt16
  sigAlgs : List UInt16
  keyShare : List KeyShareEntry
  cookie : Option Bytes
  connectionId : Option Bytes
  deriving DecidableEq

namespace ClientHello

def extensions (c : ClientHello) : List Extension :=
  [(Ext.supportedVersions, Writer.vecU16 (u16Bytes dtls13Version)),
    (Ext.supportedGroups, Writer.vecU16 (c.groups.flatMap u16Bytes)),
    (Ext.signatureAlgorithms, Writer.vecU16 (c.sigAlgs.flatMap u16Bytes)),
    (Ext.keyShare, Writer.vecU16 (c.keyShare.flatMap KeyShareEntry.encode))] ++
    (c.cookie.toList.map fun cookie => (Ext.cookie, cookie)) ++
    (c.connectionId.toList.map fun cid => (Ext.connectionId, cid))

def encode (c : ClientHello) : Bytes :=
  u16Bytes legacyVersion ++ (c.random.val ++ (Writer.vecU8 c.sessionId ++
    (Writer.vecU16 (c.cipherSuites.flatMap u16Bytes) ++ (Writer.vecU8 [0] ++
    putExtensions c.extensions))))

def parseKeyShare (data : Bytes) : Except DtlsError (List KeyShareEntry) := do
  let list ← Parser.run Reader.vecU16 data
  Reader.all KeyShareEntry.parse list

def fromExtensions (random : FixedBytes 32) (sessionId : Bytes) (cipherSuites : List UInt16)
    (exts : List Extension) : Except DtlsError ClientHello := do
  let groups ← optionalExt exts Ext.supportedGroups [] parseU16List
  let sigAlgs ← optionalExt exts Ext.signatureAlgorithms [] parseU16List
  let keyShare ← optionalExt exts Ext.keyShare [] parseKeyShare
  let cookie := findExt exts Ext.cookie
  let cid ← optionalExt exts Ext.connectionId none fun c =>
    some <$> ConnectionId.new c
  pure
    { random := random, sessionId := sessionId, cipherSuites := cipherSuites,
      groups := groups, sigAlgs := sigAlgs, keyShare := keyShare, cookie := cookie,
      connectionId := cid }

def parse : Parser DtlsError ClientHello := do
  let _ ← Reader.u16
  let random ← Reader.fixed 32
  let sessionId ← Reader.vecU8
  let csList ← Reader.vecU16
  let cipherSuites ← lift (Reader.all Reader.u16 csList)
  let _ ← Reader.vecU8
  let exts ← readExtensions
  lift (fromExtensions random sessionId cipherSuites exts)

end ClientHello

structure ServerHello where
  random : FixedBytes 32
  sessionIdEcho : Bytes
  cipherSuite : UInt16
  keyShare : Option KeyShareEntry
  connectionId : Option Bytes
  cookie : Option Bytes
  deriving DecidableEq

def hrrRandom : FixedBytes 32 :=
  ⟨[0xCF, 0x21, 0xAD, 0x74, 0xE5, 0x9A, 0x61, 0x11, 0xBE, 0x1D, 0x8C, 0x02, 0x1E, 0x65, 0xB8,
    0x91, 0xC2, 0xA2, 0x11, 0x16, 0x7A, 0xBB, 0x8C, 0x5E, 0x07, 0x9E, 0x09, 0xE2, 0xC8, 0xA8,
    0x33, 0x9C], rfl⟩

namespace ServerHello

def isHelloRetryRequest (s : ServerHello) : Bool := s.random == hrrRandom

def extensions (s : ServerHello) : List Extension :=
  [(Ext.supportedVersions, u16Bytes dtls13Version)] ++
    (s.keyShare.toList.map fun ks => (Ext.keyShare, ks.encode)) ++
    (s.connectionId.toList.map fun cid => (Ext.connectionId, cid)) ++
    (s.cookie.toList.map fun cookie => (Ext.cookie, cookie))

def encode (s : ServerHello) : Bytes :=
  u16Bytes legacyVersion ++ (s.random.val ++ (Writer.vecU8 s.sessionIdEcho ++
    (u16Bytes s.cipherSuite ++ ([0] ++ putExtensions s.extensions))))

def fromExtensions (random : FixedBytes 32) (sessionIdEcho : Bytes) (cipherSuite : UInt16)
    (exts : List Extension) : Except DtlsError ServerHello := do
  let keyShare ← optionalExt exts Ext.keyShare none fun ks =>
    some <$> Parser.run KeyShareEntry.parse ks
  let cid ← optionalExt exts Ext.connectionId none fun c =>
    some <$> ConnectionId.new c
  let cookie := findExt exts Ext.cookie
  pure
    { random := random, sessionIdEcho := sessionIdEcho, cipherSuite := cipherSuite,
      keyShare := keyShare, connectionId := cid, cookie := cookie }

def parse : Parser DtlsError ServerHello := do
  let _ ← Reader.u16
  let random ← Reader.fixed 32
  let sessionIdEcho ← Reader.vecU8
  let cipherSuite ← Reader.u16
  let _ ← Reader.u8
  let exts ← readExtensions
  lift (fromExtensions random sessionIdEcho cipherSuite exts)

end ServerHello

structure EncryptedExtensions where
  extensions : List Extension
  deriving DecidableEq

structure Certificate where
  requestContext : Bytes
  certData : Bytes
  deriving DecidableEq

namespace Certificate

def encode (c : Certificate) : Bytes :=
  Writer.vecU8 c.requestContext ++
    Writer.vecU24 (Writer.vecU24 c.certData ++ Writer.vecU16 [])

def parse : Parser DtlsError Certificate := do
  let requestContext ← Reader.vecU8
  let list ← Reader.vecU24
  let certData ← lift (Parser.run Reader.vecU24 list)
  pure { requestContext := requestContext, certData := certData }

end Certificate

structure CertificateVerify where
  algorithm : UInt16
  signature : Bytes
  deriving DecidableEq

namespace CertificateVerify

def encode (c : CertificateVerify) : Bytes := u16Bytes c.algorithm ++ Writer.vecU16 c.signature

def parse : Parser DtlsError CertificateVerify := do
  let algorithm ← Reader.u16
  let signature ← Reader.vecU16
  pure { algorithm := algorithm, signature := signature }

end CertificateVerify

inductive HandshakeBody where
  | clientHello (c : ClientHello)
  | serverHello (s : ServerHello)
  | encryptedExtensions (e : EncryptedExtensions)
  | certificate (c : Certificate)
  | certificateVerify (c : CertificateVerify)
  | finished (verifyData : Bytes)
  deriving DecidableEq

namespace HandshakeBody

def msgType : HandshakeBody → HandshakeType
  | clientHello _ => .clientHello
  | serverHello _ => .serverHello
  | encryptedExtensions _ => .encryptedExtensions
  | certificate _ => .certificate
  | certificateVerify _ => .certificateVerify
  | finished _ => .finished

def bodyBytes : HandshakeBody → Bytes
  | clientHello c => c.encode
  | serverHello s => s.encode
  | encryptedExtensions e => putExtensions e.extensions
  | certificate c => c.encode
  | certificateVerify c => c.encode
  | finished verifyData => verifyData

def parser : HandshakeType → Parser DtlsError HandshakeBody
  | .clientHello => clientHello <$> ClientHello.parse
  | .serverHello => serverHello <$> ServerHello.parse
  | .encryptedExtensions => (fun exts => encryptedExtensions ⟨exts⟩) <$> readExtensions
  | .certificate => certificate <$> Certificate.parse
  | .certificateVerify => certificateVerify <$> CertificateVerify.parse
  | .finished => fun bytes => .ok (finished bytes, [])

def parse (msgType : HandshakeType) (bytes : Bytes) : Except DtlsError HandshakeBody :=
  Parser.run (parser msgType) bytes

end HandshakeBody

/-! ## Messages and fragments -/

structure HandshakeMessage where
  msgType : HandshakeType
  messageSeq : UInt16
  body : HandshakeBody
  deriving DecidableEq

def fragmentHeader (code : UInt8) (total : ℕ) (seq : UInt16) (offset length : ℕ) : Bytes :=
  [code] ++ (Writer.u24 total ++ (u16Bytes seq ++ (Writer.u24 offset ++ Writer.u24 length)))

namespace HandshakeMessage

def new (body : HandshakeBody) (messageSeq : UInt16) : HandshakeMessage :=
  { msgType := body.msgType, messageSeq := messageSeq, body := body }

def encode (m : HandshakeMessage) : Bytes :=
  let body := m.body.bodyBytes
  fragmentHeader m.msgType.code body.length m.messageSeq 0 body.length ++ body

end HandshakeMessage

def fragmentFrom (full : Bytes) (code : UInt8) (total : ℕ) (seq : UInt16) (maxFragment : ℕ) :
    ℕ → ℕ → List Bytes
  | 0, _ => []
  | fuel + 1, offset =>
    if offset < total then
      let take := min (total - offset) maxFragment
      (fragmentHeader code total seq offset take ++ (full.drop offset).take take) ::
        fragmentFrom full code total seq maxFragment fuel (offset + take)
    else []

/-- Split a full handshake message into fragments of at most `maxFragment` bytes. -/
def fragmentMessage (full : Bytes) (seq : UInt16) (maxFragment : ℕ) : Option (List Bytes) :=
  let total := full.length % 2 ^ 32
  let max := maxFragment % 2 ^ 32
  match full with
  | [] => some [fragmentHeader HandshakeType.clientHello.code 0 seq 0 0]
  | code :: _ =>
    if total = 0 then some [fragmentHeader HandshakeType.clientHello.code 0 seq 0 0]
    else if max = 0 then none
    else some (fragmentFrom full code total seq max total 0)

structure Reassembler where
  total : ℕ
  buffer : Bytes
  filled : List Bool

namespace Reassembler

def new (total : ℕ) : Reassembler where
  total := total
  buffer := List.replicate total 0
  filled := List.replicate total false

def complete (r : Reassembler) : Bool := r.filled.all id

def add (r : Reassembler) (offset : ℕ) (data : Bytes) :
    Except DtlsError (Option Bytes) × Reassembler :=
  let stop := offset + data.length
  if r.buffer.length < stop ∨ r.total - offset < data.length then
    (.error (.fragmentOutOfRange offset data.length r.total), r)
  else
    let r' : Reassembler :=
      { r with
        buffer := r.buffer.take offset ++ data ++ r.buffer.drop stop
        filled := r.filled.take offset ++ List.replicate data.length true ++
          r.filled.drop stop }
    (.ok (if r'.complete then some r'.buffer else none), r')

end Reassembler

structure Fragment where
  msgType : HandshakeType
  length : ℕ
  messageSeq : UInt16
  offset : ℕ
  fragLength : ℕ
  payload : Bytes

def Fragment.parse : Parser DtlsError Fragment := do
  let code ← Reader.u8
  let msgType ← lift (HandshakeType.fromCode code)
  let length ← Reader.u24
  let messageSeq ← Reader.u16
  let offset ← Reader.u24
  let fragLength ← Reader.u24
  let payload ← Reader.bytes fragLength
  pure
    { msgType := msgType, length := length, messageSeq := messageSeq, offset := offset,
      fragLength := fragLength, payload := payload }

def parseHandshake (bytes : Bytes) : Except DtlsError (Option HandshakeMessage) := do
  let f ← Parser.run Fragment.parse bytes
  if f.offset = 0 ∧ f.fragLength = f.payload.length then do
    let body ← HandshakeBody.parse f.msgType f.payload
    pure (some { msgType := f.msgType, messageSeq := f.messageSeq, body := body })
  else do
    let full ← ((Reassembler.new f.length).add f.offset f.payload).1
    match full with
    | some full => do
      let body ← HandshakeBody.parse f.msgType full
      pure (some { msgType := f.msgType, messageSeq := f.messageSeq, body := body })
    | none => pure none

end TptRfc.Dtls
