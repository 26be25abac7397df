import TptRfc.Ipsec.Types
import TptRfc.Lib.Access

/-!
# IKEv2: messages

The codec of `message.rs`: the header, and payloads of which each names the type of the next.
-/

namespace TptRfc.Ipsec

open Lib Access

def ikeHeaderLen : ℕ := 28

def payloadHeaderLen : ℕ := 4

abbrev Decoded (α : Type) := Except (Fault Error) α

def fail {α : Type} (e : Error) : Decoded α := .error (.error e)

def okOr {α : Type} (o : Option α) (e : Error) : Decoded α :=
  match o with
  | some a => .ok a
  | none => .error (.error e)

/-! ## The header -/

structure Header where
  spiI : FixedBytes 8
  spiR : FixedBytes 8
  nextPayload : PayloadType
  version : UInt8
  exchange : ExchangeType
  flags : UInt8
  messageId : UInt32
  length : UInt32
  deriving DecidableEq

namespace Header

def encode (h : Header) : Bytes :=
  h.spiI.val ++ (h.spiR.val ++ ([h.nextPayload.toU8, h.version, h.exchange.toU8, h.flags] ++
    (u32Bytes h.messageId ++ u32Bytes h.length)))

def decode (buf : Bytes) : Decoded Header := do
  if buf.length < ikeHeaderLen then
    fail (.truncated ikeHeaderLen buf.length)
  else
    let spiI ← slice buf 0 8
    let spiR ← slice buf 8 16
    let b16 ← byteAt buf 16
    let next ← okOr (PayloadType.fromU8 b16) (.unsupportedPayload b16)
    let version ← byteAt buf 17
    let b18 ← byteAt buf 18
    let exchange ← okOr (ExchangeType.fromU8 b18) (.unsupportedExchange b18)
    let flags ← byteAt buf 19
    let messageId ← slice buf 20 24
    let length ← slice buf 24 28
    pure
      { spiI := padTo 8 spiI, spiR := padTo 8 spiR, nextPayload := next, version := version,
        exchange := exchange, flags := flags, messageId := UInt32.ofNat (beNat messageId),
        length := UInt32.ofNat (beNat length) }

def isResponse (h : Header) : Bool := h.flags &&& 0x20 != 0

end Header

/-! ## Payloads -/

structure KePayload where
  group : DhGroup
  publicKey : Bytes
  deriving DecidableEq

structure NoncePayload where
  nonce : Bytes
  deriving DecidableEq

structure IdPayload where
  idType : IdType
  data : Bytes
  deriving DecidableEq

structure AuthPayload where
  method : AuthMethod
  data : Bytes
  deriving DecidableEq

structure CertPayload where
  encoding : CertEncoding
  data : Bytes
  deriving DecidableEq

structure TrafficSelector where
  tsType : UInt8
  iproto : UInt8
  startPort : UInt16
  endPort : UInt16
  startAddr : Bytes
  endAddr : Bytes
  deriving DecidableEq

structure TsPayload where
  selectors : List TrafficSelector
  deriving DecidableEq

structure NotifyPayload where
  protocol : UInt8
  spi : Bytes
  notifyType : UInt16
  data : Bytes
  deriving DecidableEq

structure EncryptedPayload where
  nextPayload : PayloadType
  critical : Bool
  iv : Bytes
  ciphertext : Bytes
  icv : Bytes
  deriving DecidableEq

structure RawPayload where
  ptype : PayloadType
  critical : Bool
  data : Bytes
  deriving DecidableEq

inductive Payload where
  | sa (p : SaPayload)
  | ke (p : KePayload)
  | nonce (p : NoncePayload)
  | idi (p : IdPayload)
  | idr (p : IdPayload)
  | auth (p : AuthPayload)
  | cert (p : CertPayload)
  | certReq (p : CertPayload)
  | tsi (p : TsPayload)
  | tsr (p : TsPayload)
  | notify (p : NotifyPayload)
  | sk (p : EncryptedPayload)
  | raw (p : RawPayload)
  deriving DecidableEq

def Payload.ptype : Payload → PayloadType
  | sa _ => .sa
  | ke _ => .ke
  | nonce _ => .nonce
  | idi _ => .idi
  | idr _ => .idr
  | auth _ => .auth
  | cert _ => .cert
  | certReq _ => .certReq
  | tsi _ => .tsi
  | tsr _ => .tsr
  | notify _ => .notify
  | sk _ => .sk
  | raw r => r.ptype

/-! ## Encoding -/

def asU16 (n : ℕ) : Bytes := u16Bytes (UInt16.ofNat n)

def payloadHeader (next : PayloadType) (critical : Bool) (bodyLen : ℕ) : Bytes :=
  [next.toU8, if critical then 0x80 else 0] ++ asU16 bodyLen

def transformLen (t : Transform) : ℕ :=
  (if t.transformType = .encr ∧ t.keyLen.isSome then 4 else 0) + 8

def keyBits (checks : Bool) (kl : ℕ) : Option UInt16 :=
  if checks ∧ 2 ^ 16 ≤ kl % 2 ^ 16 * 8 then none else some (UInt16.ofNat (kl % 2 ^ 16 * 8))

def encodeAttributes (checks : Bool) (t : Transform) : Option Bytes :=
  match t.transformType, t.keyLen with
  | .encr, some kl => do
    let bits ← keyBits checks kl
    some (asU16 0x000e ++ u16Bytes bits)
  | _, _ => some []

def encodeTransform (checks : Bool) (t : Transform) (last : Bool) : Option Bytes := do
  let attributes ← encodeAttributes checks t
  some ([if last then 0 else 3, 0] ++ (asU16 (transformLen t) ++ ([t.transformType.toU8, 0] ++
    (u16Bytes t.transformId ++ attributes))))

def encodeTransforms (checks : Bool) : List Transform → Option Bytes
  | [] => some []
  | t :: rest => do
    let bytes ← encodeTransform checks t rest.isEmpty
    let more ← encodeTransforms checks rest
    some (bytes ++ more)

def proposalLen (p : Proposal) : ℕ := 8 + p.spi.length + (p.transforms.map transformLen).sum

def encodeProposal (checks : Bool) (p : Proposal) (last : Bool) : Option Bytes := do
  let transforms ← encodeTransforms checks p.transforms
  some ([if last then 0 else 2, 0] ++ (asU16 (proposalLen p) ++
    ([p.proposalNum, p.protocol.toU8, UInt8.ofNat p.spi.length,
      UInt8.ofNat p.transforms.length] ++ (p.spi ++ transforms))))

def encodeProposals (checks : Bool) : List Proposal → Option Bytes
  | [] => some []
  | p :: rest => do
    let bytes ← encodeProposal checks p rest.isEmpty
    let more ← encodeProposals checks rest
    some (bytes ++ more)

def encodeSaBody (checks : Bool) (sa : SaPayload) : Option Bytes :=
  encodeProposals checks sa.proposals

def encodeKeBody (ke : KePayload) : Bytes := u16Bytes ke.group.toU16 ++ (u16Bytes 0 ++ ke.publicKey)

def encodeNonceBody (n : NoncePayload) : Bytes := n.nonce

def encodeCoded (code : UInt8) (data : Bytes) : Bytes := [code, 0, 0, 0] ++ data

def encodeIdBody (id : IdPayload) : Bytes := encodeCoded id.idType.toU8 id.data

def encodeAuthBody (a : AuthPayload) : Bytes := encodeCoded a.method.toU8 a.data

def encodeCertBody (c : CertPayload) : Bytes := encodeCoded c.encoding.toU8 c.data

def encodeSelector (s : TrafficSelector) : Bytes :=
  [s.tsType, s.iproto] ++ (asU16 (8 + s.startAddr.length + s.endAddr.length) ++
    (u16Bytes s.startPort ++ (u16Bytes s.endPort ++ (s.startAddr ++ s.endAddr))))

def encodeTsBody (ts : TsPayload) : Bytes :=
  [UInt8.ofNat ts.selectors.length, 0, 0, 0] ++ ts.selectors.flatMap encodeSelector

def encodeNotifyBody (n : NotifyPayload) : Bytes :=
  [n.protocol, UInt8.ofNat n.spi.length] ++ (u16Bytes n.notifyType ++ (n.spi ++ n.data))

def payloadBody (checks : Bool) : Payload → Option Bytes
  | .sa s => encodeSaBody checks s
  | .ke k => some (encodeKeBody k)
  | .nonce n => some (encodeNonceBody n)
  | .idi i | .idr i => some (encodeIdBody i)
  | .auth a => some (encodeAuthBody a)
  | .cert c | .certReq c => some (encodeCertBody c)
  | .tsi t | .tsr t => some (encodeTsBody t)
  | .notify n => some (encodeNotifyBody n)
  | .sk _ => some []
  | .raw r => some r.data

def encodePayload (checks : Bool) (p : Payload) (next : PayloadType) : Option Bytes := do
  let body ← payloadBody checks p
  some (payloadHeader next false body.length ++ body)

def firstType : List Payload → PayloadType
  | [] => .none
  | p :: _ => p.ptype

def encodePayloads (checks : Bool) : List Payload → Option Bytes
  | [] => some []
  | p :: rest => do
    let bytes ← encodePayload checks p (firstType rest)
    let more ← encodePayloads checks rest
    some (bytes ++ more)

structure Message where
  header : Header
  payloads : List Payload
  deriving DecidableEq

def Message.encode (checks : Bool) (m : Message) : Option Bytes := do
  let body ← encodePayloads checks m.payloads
  some ({ m.header with
    nextPayload := firstType m.payloads
    length := UInt32.ofNat (ikeHeaderLen + body.length) }.encode ++ body)

/-! ## Decoding -/

def decodeAttributes (buf : Bytes) : ℕ → ℕ → Option ℕ → Decoded (Option ℕ)
  | 0, _, _ => .error .panic
  | fuel + 1, a, keyLen => do
    if a + 4 ≤ buf.length then
      let atype ← u16At buf a
      let value ← u16At buf (a + 2)
      if atype &&& 0x8000 ≠ 0 then
        decodeAttributes buf fuel (a + 4 + value.toNat) keyLen
      else if atype = 0x000e then
        decodeAttributes buf fuel (a + 4) (some (value.toNat / 8))
      else
        decodeAttributes buf fuel (a + 4) keyLen
    else
      pure keyLen

def decodeTransform (buf : Bytes) : Decoded (Transform × UInt8) := do
  if buf.length < 8 then
    fail (.truncated 8 buf.length)
  else
    let next ← byteAt buf 0
    let b4 ← byteAt buf 4
    let ttype ← okOr (TransformType.fromU8 b4) (.unsupportedTransformType b4)
    let tid ← u16At buf 6
    let keyLen ← decodeAttributes buf (buf.length + 1) 8 none
    pure ({ transformType := ttype, transformId := tid, keyLen := keyLen }, next)

def decodeTransforms (body : Bytes) : ℕ → ℕ → Decoded (List Transform)
  | 0, _ => pure []
  | n + 1, p => do
    let rest ← slice body p body.length
    let (t, next) ← decodeTransform rest
    let tlen ← u16At body (p + 2)
    if next = 0 then
      pure [t]
    else
      let more ← decodeTransforms body n (p + tlen.toNat)
      pure (t :: more)

def decodeProposal (body : Bytes) (off : ℕ) : Decoded (Proposal × ℕ) := do
  let propLen ← u16At body (off + 2)
  if propLen.toNat < 8 ∨ body.length < off + propLen.toNat then
    fail (.truncated (off + propLen.toNat) body.length)
  else
    let b5 ← byteAt body (off + 5)
    let protocol ← okOr (ProtocolId.fromU8 b5) (.unsupportedPayload b5)
    let spiSize ← byteAt body (off + 6)
    let nTrans ← byteAt body (off + 7)
    let spi ← slice body (off + 8) (off + 8 + spiSize.toNat)
    let transforms ← decodeTransforms body nTrans.toNat (off + 8 + spiSize.toNat)
    let num ← byteAt body (off + 4)
    pure ({ proposalNum := num, protocol := protocol, spi := spi, transforms := transforms },
      propLen.toNat)

def decodeProposals (body : Bytes) : ℕ → ℕ → Decoded (List Proposal)
  | 0, _ => .error .panic
  | fuel + 1, off => do
    if off + 8 ≤ body.length then
      let (p, len) ← decodeProposal body off
      let more ← decodeProposals body fuel (off + len)
      pure (p :: more)
    else
      pure []

def decodeSaBody (body : Bytes) : Decoded SaPayload := do
  let proposals ← decodeProposals body (body.length + 1) 0
  pure { proposals := proposals }

def decodeKeBody (body : Bytes) : Decoded KePayload := do
  if body.length < 4 then
    fail (.truncated 4 body.length)
  else
    let code ← u16At body 0
    let group ← okOr (DhGroup.fromU16 code) (.unsupportedDhGroup code)
    let publicKey ← slice body 4 body.length
    pure { group := group, publicKey := publicKey }

def decodeNonceBody (body : Bytes) : NoncePayload := { nonce := body }

def decodeCoded {α : Type} (fromU8 : UInt8 → Option α) (unsupported : UInt8 → Error)
    (body : Bytes) : Decoded (α × Bytes) := do
  let b0 ← byteAt body 0
  let code ← okOr (fromU8 b0) (unsupported b0)
  let data ← slice body 4 body.length
  pure (code, data)

def decodeIdBody (body : Bytes) : Decoded IdPayload := do
  if body.isEmpty then
    fail (.truncated 1 0)
  else
    let r ← decodeCoded IdType.fromU8 .unsupportedIdType body
    pure { idType := r.1, data := r.2 }

def decodeAuthBody (body : Bytes) : Decoded AuthPayload := do
  if body.length < 4 then
    fail (.truncated 4 body.length)
  else
    let r ← decodeCoded AuthMethod.fromU8 .unsupportedAuthMethod body
    pure { method := r.1, data := r.2 }

def decodeCertBody (body : Bytes) : Decoded CertPayload := do
  if body.isEmpty then
    fail (.truncated 1 0)
  else
    let r ← decodeCoded CertEncoding.fromU8 .unsupportedCertEncoding body
    pure { encoding := r.1, data := r.2 }

def decodeSelector (checks : Bool) (body : Bytes) (p : ℕ) : Decoded (TrafficSelector × ℕ) := do
  if body.length < p + 4 then
    let available ← subUsize checks body.length p
    fail (.truncated 4 available)
  else
    let tsType ← byteAt body p
    let iproto ← byteAt body (p + 1)
    let selLen ← u16At body (p + 2)
    let startPort ← u16At body (p + 4)
    let endPort ← u16At body (p + 6)
    let addrs ← subUsize checks selLen.toNat 8
    let startAddr ← slice body (p + 8) (p + 8 + addrs / 2)
    let endAddr ← slice body (p + 8 + addrs / 2) (p + 8 + 2 * (addrs / 2))
    pure ({ tsType := tsType, iproto := iproto, startPort := startPort, endPort := endPort,
            startAddr := startAddr, endAddr := endAddr }, selLen.toNat)

def decodeSelectors (checks : Bool) (body : Bytes) : ℕ → ℕ → Decoded (List TrafficSelector)
  | 0, _ => pure []
  | n + 1, p => do
    let (s, len) ← decodeSelector checks body p
    let more ← decodeSelectors checks body n (p + len)
    pure (s :: more)

def decodeTsBody (checks : Bool) (body : Bytes) : Decoded TsPayload := do
  if body.length < 4 then
    fail (.truncated 4 body.length)
  else
    let n ← byteAt body 0
    let selectors ← decodeSelectors checks body n.toNat 4
    pure { selectors := selectors }

def decodeNotifyBody (body : Bytes) : Decoded NotifyPayload := do
  if body.length < 4 then
    fail (.truncated 4 body.length)
  else
    let protocol ← byteAt body 0
    let spiSize ← byteAt body 1
    let notifyType ← u16At body 2
    let spi ← slice body 4 (4 + spiSize.toNat)
    let data ← slice body (4 + spiSize.toNat) body.length
    pure { protocol := protocol, spi := spi, notifyType := notifyType, data := data }

def decodeBody (checks : Bool) (ptype next : PayloadType) (critical : Bool) (body : Bytes) :
    Decoded Payload :=
  match ptype with
  | .sa => Payload.sa <$> decodeSaBody body
  | .ke => Payload.ke <$> decodeKeBody body
  | .nonce => pure (.nonce (decodeNonceBody body))
  | .idi => Payload.idi <$> decodeIdBody body
  | .idr => Payload.idr <$> decodeIdBody body
  | .auth => Payload.auth <$> decodeAuthBody body
  | .cert => Payload.cert <$> decodeCertBody body
  | .certReq => Payload.certReq <$> decodeCertBody body
  | .tsi => Payload.tsi <$> decodeTsBody checks body
  | .tsr => Payload.tsr <$> decodeTsBody checks body
  | .notify => Payload.notify <$> decodeNotifyBody body
  | .sk => pure (.sk
      { nextPayload := next, critical := critical, iv := [], ciphertext := [], icv := [] })
  | other => pure (.raw { ptype := other, critical := critical, data := body })

def decodeOne (checks : Bool) (bytes : Bytes) (ptype : PayloadType) :
    Decoded (Payload × PayloadType) := do
  if bytes.length < payloadHeaderLen then
    fail (.truncated payloadHeaderLen bytes.length)
  else
    let b0 ← byteAt bytes 0
    let next ← okOr (PayloadType.fromU8 b0) (.unsupportedPayload b0)
    let b1 ← byteAt bytes 1
    let len ← u16At bytes 2
    if len.toNat < payloadHeaderLen ∨ len.toNat % 4 ≠ 0 then
      fail (.badPayloadLength len.toNat)
    else if bytes.length < len.toNat then
      fail (.truncated len.toNat bytes.length)
    else
      let body ← slice bytes payloadHeaderLen len.toNat
      let payload ← decodeBody checks ptype next (b1 &&& 0x80 != 0) body
      pure (payload, next)

def payloadLen (bytes : Bytes) : Decoded ℕ := do
  if bytes.length < payloadHeaderLen then
    pure bytes.length
  else
    let len ← u16At bytes 2
    pure len.toNat

def decodeChain (checks : Bool) : ℕ → Bytes → PayloadType → Decoded (List Payload)
  | 0, _, _ => .error .panic
  | fuel + 1, bytes, cur => do
    if cur ≠ .none ∧ bytes ≠ [] then
      let (p, next) ← decodeOne checks bytes cur
      let len ← payloadLen bytes
      let more ← decodeChain checks fuel (bytes.drop len) next
      pure (p :: more)
    else
      pure []

def decodePayloadsChain (checks : Bool) (buf : Bytes) (start : PayloadType) :
    Decoded (List Payload) :=
  decodeChain checks (buf.length + 1) buf start

def Message.decode (checks : Bool) (buf : Bytes) : Decoded Message := do
  let header ← Header.decode buf
  let total := header.length.toNat
  if buf.length < total then
    fail (.truncated total buf.length)
  else
    let payloads ← decodeChain checks (buf.length + 1) ((buf.take total).drop ikeHeaderLen)
      header.nextPayload
    pure { header := header, payloads := payloads }

end TptRfc.Ipsec
