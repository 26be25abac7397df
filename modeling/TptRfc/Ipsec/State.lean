import TptRfc.Ipsec.Keys

/-!
# IKEv2: the parties of the handshake

`IkeInitiator` and `IkeResponder` of `state.rs`, up to the established SA: IKE_SA_INIT and IKE_AUTH.
-/

namespace TptRfc.Ipsec

open Lib Access Exec

inductive AuthConfig where
  | psk (key : Bytes)
  | ed25519 (ownSecret peerPublic : FixedBytes 32)

def AuthConfig.method : AuthConfig → AuthMethod
  | psk _ => .psk
  | ed25519 _ _ => .digitalSignature

structure IkeParty where
  params : SaParams
  auth : AuthConfig
  spiI : FixedBytes 8
  spiR : FixedBytes 8
  ni : Bytes
  nr : Bytes
  dh : Dh
  peerDhPub : Bytes
  keys : IkeSaKeys
  idI : IdPayload
  idR : IdPayload
  realInitRequest : Bytes
  realInitResponse : Bytes
  established : Bool
  messageId : UInt32

structure IkeSa where
  spiI : FixedBytes 8
  spiR : FixedBytes 8
  isInitiator : Bool
  params : SaParams
  keys : IkeSaKeys
  established : Bool
  messageId : UInt32
  childKeymat : Bytes
  deriving DecidableEq

abbrev Method (α : Type) := Exec IkeParty Error α

structure PartyRandom where
  spi : FixedBytes 8
  nonce : FixedBytes 32
  dh : Bytes

structure SealRandom where
  childSpi : FixedBytes 4
  iv : IvRandom

/-! ## Payloads of a message -/

def extractNonce (payloads : List Payload) : Decoded Bytes :=
  okOr (payloads.findSome? fun | .nonce n => some n.nonce | _ => none) (.other "missing nonce")

def extractKe (payloads : List Payload) : Decoded Bytes :=
  okOr (payloads.findSome? fun | .ke k => some k.publicKey | _ => none) (.other "missing KE")

def saAndKe (payloads : List Payload) : Decoded (Payload × Payload) := do
  let sa ← okOr (payloads.find? fun | .sa _ => true | _ => false) (.other "missing SA")
  let ke ← okOr (payloads.find? fun | .ke _ => true | _ => false) (.other "missing KE")
  pure (sa, ke)

def extractSk (payloads : List Payload) : Decoded EncryptedPayload :=
  okOr (payloads.findSome? fun | .sk s => some s | _ => none) (.other "missing SK")

def extractAuth (payloads : List Payload) : Decoded AuthPayload :=
  okOr (payloads.findSome? fun | .auth a => some a | _ => none) (.other "missing AUTH")

variable (checks : Bool)

def encodedPayload (p : Payload) (next : PayloadType) : Decoded Bytes :=
  orPanic (encodePayload checks p next)

def findIdBytesIn (which : PayloadType) : List Payload → Decoded Bytes
  | [] => fail (.other "missing ID payload")
  | p :: rest =>
    if p.ptype = which then encodedPayload checks p (firstType rest) else findIdBytesIn which rest

def encoded (m : Message) : Decoded Bytes := orPanic (m.encode checks)

def realMessage (header : Header) (payloads : List Payload) : Decoded Bytes :=
  encoded checks ⟨header, payloads⟩

def noncePayloadBytes (nonce : Bytes) : Decoded Bytes :=
  encodedPayload checks (.nonce ⟨nonce⟩) .none

def anyTs : TsPayload :=
  ⟨[{ tsType := 9, iproto := 0, startPort := 0, endPort := 65535, startAddr := [0, 0, 0, 0],
      endAddr := [255, 255, 255, 255] }]⟩

/-! ## Headers -/

def flagInitiator : UInt8 := 0x08

def flagResponse : UInt8 := 0x20

def handshakeHeader (spiI spiR : FixedBytes 8) (next : PayloadType) (exchange : ExchangeType)
    (flags : UInt8) (messageId : UInt32) : Header :=
  { spiI := spiI, spiR := spiR, nextPayload := next, version := 0x20, exchange := exchange,
    flags := flags, messageId := messageId, length := 0 }

def initPayloads (group : DhGroup) (publicKey nonce : Bytes) : List Payload :=
  [.sa ⟨[defaultIkeProposal]⟩, .ke ⟨group, publicKey⟩, .nonce ⟨nonce⟩]

/-! ## Authentication -/

variable (c : Crypto)

namespace IkeParty

variable (s : IkeParty)

def signedData (isInitiator : Bool) (idBytes : Bytes) : Decoded Bytes := do
  let (real, nonce, skP) :=
    if isInitiator then (s.realInitRequest, s.ni, s.keys.skPi)
    else (s.realInitResponse, s.nr, s.keys.skPr)
  let np ← noncePayloadBytes checks nonce
  pure (real ++ np ++ prfPlus c s.params.prf skP idBytes s.params.prf.outputLen)

def computeAuth (isInitiator : Bool) (idBytes : Bytes) : Decoded Bytes :=
  match s.auth with
  | .psk key => pure (c.prf s.params.prf key (s.ni ++ s.nr)).val
  | .ed25519 ownSecret _ => do
    let data ← s.signedData checks c isInitiator idBytes
    c.sign ownSecret data

def computeAuthPeer (isInitiator : Bool) (idBytes : Bytes) : Decoded Bytes :=
  match s.auth with
  | .psk key => pure (c.prf s.params.prf key (s.ni ++ s.nr)).val
  | .ed25519 _ _ => s.signedData checks c isInitiator idBytes

def buildAuthInner (isInitiator : Bool) (childSpi : FixedBytes 4) :
    Decoded (List Payload × Bytes) := do
  let id := if isInitiator then Payload.idi s.idI else .idr s.idR
  let (next, cert) := match s.auth with
    | .psk _ => (PayloadType.auth, [])
    | .ed25519 _ peerPublic => (.cert, [Payload.cert ⟨.rawPublicKey, peerPublic.val⟩])
  let idBytes ← encodedPayload checks id next
  pure (id :: cert ++ [.auth ⟨s.auth.method, []⟩, .sa ⟨[defaultEspProposal childSpi.val]⟩,
    .tsi anyTs, .tsr anyTs], idBytes)

def toEstablished (isInitiator : Bool) : IkeSa where
  spiI := s.spiI
  spiR := s.spiR
  isInitiator := isInitiator
  params := s.params
  keys := s.keys
  established := true
  messageId := s.messageId
  childKeymat := childKeymat c s.params s.keys.skD s.ni s.nr
    (childKeymatLen (defaultEspProposal [0, 0, 0, 0]))

end IkeParty

def verifyAuth (config : AuthConfig) (expected received : Bytes) : Decoded Unit :=
  match config with
  | .psk _ => if expected = received then pure () else fail .integrityCheckFailed
  | .ed25519 _ peerPublic => c.verify peerPublic expected received

def splitSalt (encr : EncrId) (skE : Bytes) : Decoded (Bytes × Bytes) :=
  if encr.isAead then do
    let key ← slice skE 4 skE.length
    let salt ← slice skE 0 4
    pure (key, salt)
  else
    pure (skE, [])

def fillAuth (authData : Bytes) : Payload → Payload
  | .auth a => .auth { a with data := authData }
  | p => p

def sealInner (random : IvRandom) (params : SaParams) (header : Header) (inner : List Payload)
    (skE skA authData : Bytes) : Decoded EncryptedPayload := do
  let inner := inner.map (fillAuth authData)
  let (key, salt) ← splitSalt params.encr skE
  EncryptedPayload.encrypt c checks random params.encr params.integ header (firstType inner) inner
    key skA salt

/-- What both sides do with the SK payload of the peer: decrypt it, and verify the AUTH payload in
it. -/
def IkeParty.openAuth (s : IkeParty) (msg : Message) (which : PayloadType) (isInitiator : Bool) :
    Decoded Bytes := do
  let sk ← extractSk msg.payloads
  let (key, salt) ← splitSalt s.params.encr s.keys.skEi
  let inner ← sk.decrypt c checks s.params.encr s.params.integ msg.header key s.keys.skAi salt
  let idBytes ← findIdBytesIn checks which inner
  let expected ← s.computeAuthPeer checks c isInitiator idBytes
  let auth ← extractAuth inner
  verifyAuth c s.auth expected auth.data
  pure idBytes

def skMessage (header : Header) (sk : EncryptedPayload) : Decoded Message := do
  let bytes ← encoded checks ⟨header, [.sk sk]⟩
  Message.decode checks bytes

/-! ## The initiator -/

namespace IkeInitiator

def new (params : SaParams) (auth : AuthConfig) (idI : IdPayload) (random : PartyRandom) :
    Decoded IkeParty := do
  let dh ← c.generate params.dh random.dh
  pure
    { params := params, auth := auth, spiI := random.spi, spiR := .replicate 8 0,
      ni := random.nonce.val, nr := [], dh := dh, peerDhPub := [], keys := zeroKeys, idI := idI,
      idR := ⟨.keyId, []⟩, realInitRequest := [], realInitResponse := [], established := false,
      messageId := 0 }

def ikeSaInitRequest : Method Message := do
  let s ← get
  let header := handshakeHeader s.spiI (.replicate 8 0) .sa .ikeSaInit flagInitiator 0
  let payloads := initPayloads s.params.dh s.dh.publicKey.val s.ni
  let bytes ← call (encoded checks ⟨header, payloads⟩)
  let real ← call (realMessage checks header (payloads.take 2))
  Exec.modify fun s => { s with realInitRequest := real }
  call (Message.decode checks bytes)

def encryptInner (random : IvRandom) (s : IkeParty) (header : Header) (inner : List Payload)
    (skE skA : Bytes) (isInitiator : Bool) : Decoded EncryptedPayload := do
  let idForAuth ← findIdBytesIn checks .idi inner
  let authData ← s.computeAuth checks c isInitiator idForAuth
  sealInner checks c random s.params header inner skE skA authData

def buildAuthRequest (random : SealRandom) : Method Message := do
  Exec.modify fun s => { s with messageId := 1 }
  let s ← get
  let (inner, idBytes) ← call (s.buildAuthInner checks true random.childSpi)
  let _ ← call (s.computeAuth checks c true idBytes)
  let header := handshakeHeader s.spiI s.spiR .sk .ikeAuth flagInitiator s.messageId
  let sk ← call (encryptInner checks c random.iv s header inner s.keys.skEi s.keys.skAi true)
  call (skMessage checks header sk)

def afterKeys (random : SealRandom) (resp : Message) : Method Message := do
  let (sa, ke) ← call (saAndKe resp.payloads)
  let real ← call (realMessage checks resp.header [sa, ke])
  Exec.modify fun s => { s with realInitResponse := real }
  buildAuthRequest checks c random

def onInitResponse (random : SealRandom) (resp : Message) : Method Message := do
  let s ← get
  if resp.header.spiI ≠ s.spiI then
    Exec.fail (.other "SPI mismatch")
  else
    Exec.modify fun s => { s with spiR := resp.header.spiR }
    let nr ← call (extractNonce resp.payloads)
    Exec.modify fun s => { s with nr := nr }
    let peer ← call (extractKe resp.payloads)
    Exec.modify fun s => { s with peerDhPub := peer, idR := { s.idR with data := s.idI.data } }
    let gir ← call (c.shared s.dh peer)
    Exec.modify fun s =>
      { s with keys := deriveKeys c s.params s.ni s.nr s.spiI s.spiR gir }
    afterKeys checks c random resp

def onAuthResponse (resp : Message) : Method IkeSa := do
  if !resp.header.isResponse then
    Exec.fail (.other "expected response")
  else
    let (sa, ke) ← call (saAndKe resp.payloads)
    let real ← call (realMessage checks resp.header [sa, ke])
    Exec.modify fun s => { s with realInitResponse := real }
    let s ← get
    let _ ← call (s.openAuth checks c resp .idr false)
    Exec.modify fun s => { s with established := true }
    let s ← get
    pure (s.toEstablished c true)

end IkeInitiator

/-! ## The responder -/

namespace IkeResponder

def new (params : SaParams) (auth : AuthConfig) (idR : IdPayload) (random : PartyRandom) :
    Decoded IkeParty := do
  let dh ← c.generate params.dh random.dh
  pure
    { params := params, auth := auth, spiI := .replicate 8 0, spiR := random.spi, ni := [],
      nr := random.nonce.val, dh := dh, peerDhPub := [], keys := zeroKeys, idI := ⟨.keyId, []⟩,
      idR := idR, realInitRequest := [], realInitResponse := [], established := false,
      messageId := 0 }

def afterKeys (req : Message) : Method Message := do
  let (sa, ke) ← call (saAndKe req.payloads)
  let real ← call (realMessage checks req.header [sa, ke])
  Exec.modify fun s => { s with realInitRequest := real }
  let s ← get
  let header := handshakeHeader s.spiI s.spiR .sa .ikeSaInit flagResponse 0
  let payloads := initPayloads s.params.dh s.dh.publicKey.val s.nr
  let bytes ← call (encoded checks ⟨header, payloads⟩)
  let real ← call (realMessage checks header (payloads.take 2))
  Exec.modify fun s => { s with realInitResponse := real }
  call (Message.decode checks bytes)

def onInitRequest (req : Message) : Method Message := do
  Exec.modify fun s => { s with spiI := req.header.spiI }
  let ni ← call (extractNonce req.payloads)
  Exec.modify fun s => { s with ni := ni }
  let peer ← call (extractKe req.payloads)
  Exec.modify fun s => { s with peerDhPub := peer }
  let s ← get
  let gir ← call (c.shared s.dh peer)
  Exec.modify fun s => { s with keys := deriveKeys c s.params s.ni s.nr s.spiI s.spiR gir }
  afterKeys checks req

def onAuthRequest (random : SealRandom) (req : Message) : Method (Message × IkeSa) := do
  let s ← get
  let idiBytes ← call (s.openAuth checks c req .idi true)
  let data ← call (slice idiBytes 4 idiBytes.length)
  Exec.modify fun s =>
    { s with idI := { s.idI with data := data }, messageId := req.header.messageId }
  let s ← get
  let (inner, idrBytes) ← call (s.buildAuthInner checks false random.childSpi)
  let authData ← call (s.computeAuth checks c false idrBytes)
  let header := handshakeHeader s.spiI s.spiR .sk .ikeAuth flagResponse s.messageId
  let sk ← call
    (sealInner checks c random.iv s.params header inner s.keys.skEr s.keys.skAr authData)
  let bytes ← call (encoded checks ⟨header, [.sk sk]⟩)
  Exec.modify fun s => { s with established := true }
  let msg ← call (Message.decode checks bytes)
  pure (msg, s.toEstablished c false)

end IkeResponder

end TptRfc.Ipsec
