import TptRfc.Ipsec.Message

/-!
# IKEv2: keys and the encrypted payload

The key schedule of `state.rs` and the envelope of `message.rs`, over primitives that are arbitrary
functions.
-/

namespace TptRfc.Ipsec

open Lib Access

structure Dh where
  group : DhGroup
  privateKey : Bytes
  publicKey : FixedBytes group.keyLen

structure Crypto where
  prf : (id : PrfId) → (key data : Bytes) → FixedBytes id.outputLen
  mac : (id : IntegId) → (key data : Bytes) → FixedBytes id.keyLen
  cbcEncrypt : EncrId → (key iv plaintext : Bytes) → Decoded Bytes
  cbcDecrypt : EncrId → (key iv ciphertext : Bytes) → Decoded Bytes
  /-- The ciphertext and the tag. -/
  aeadEncrypt : EncrId → (key nonce plaintext aad : Bytes) → Decoded (Bytes × Bytes)
  aeadDecrypt : EncrId → (key nonce ciphertext tag aad : Bytes) → Decoded Bytes
  /-- `Dh::generate`, from random bytes. -/
  generate : DhGroup → (random : Bytes) → Decoded Dh
  shared : Dh → (peerPublic : Bytes) → Decoded Bytes
  sign : (ownSecret : FixedBytes 32) → (data : Bytes) → Decoded Bytes
  verify : (peerPublic : FixedBytes 32) → (data signature : Bytes) → Decoded Unit

/-! ## Proposals -/

def Transform.new (transformType : TransformType) (transformId : UInt16) : Transform :=
  ⟨transformType, transformId, none⟩

def Transform.withKey (t : Transform) (keyLenBytes : ℕ) : Transform :=
  { t with keyLen := some keyLenBytes }

def defaultIkeProposal : Proposal where
  proposalNum := 1
  protocol := .ike
  spi := []
  transforms :=
    [(Transform.new .encr EncrId.aesCbc128.toU16).withKey 16,
      .new .prf PrfId.hmacSha256.toU16, .new .integ IntegId.hmacSha256With128.toU16,
      .new .dh DhGroup.curve25519.toU16, .new .esn 0]

def defaultEspProposal (spi : Bytes) : Proposal where
  proposalNum := 1
  protocol := .esp
  spi := spi
  transforms :=
    [(Transform.new .encr EncrId.aesCbc128.toU16).withKey 16,
      .new .integ IntegId.hmacSha256With128.toU16, .new .esn 0]

def Proposal.find (p : Proposal) (t : TransformType) : Option Transform :=
  p.transforms.find? fun x => x.transformType = t

def childKeymatLen (p : Proposal) : ℕ :=
  (((p.find .encr).bind fun t => EncrId.fromU16 t.transformId).map EncrId.keyLen).getD 0 +
    (((p.find .integ).bind fun t => IntegId.fromU16 t.transformId).map IntegId.keyLen).getD 0

/-! ## Key derivation -/

structure SaParams where
  prf : PrfId
  encr : EncrId
  integ : Option IntegId
  dh : DhGroup
  deriving DecidableEq

structure IkeSaKeys where
  skD : Bytes
  skAi : Bytes
  skAr : Bytes
  skEi : Bytes
  skEr : Bytes
  skPi : Bytes
  skPr : Bytes
  deriving DecidableEq

def zeroKeys : IkeSaKeys := ⟨[], [], [], [], [], [], []⟩

variable (c : Crypto)

/-- The loop of `prf_plus`: the blocks so far and the last of them.  A block is not empty, so
`n` rounds are enough for `n` bytes. -/
def prfPlusLoop (id : PrfId) (key seed : Bytes) (n : ℕ) : ℕ → Bytes → Bytes → Bytes
  | 0, out, _ => out
  | fuel + 1, out, t =>
    if out.length < n then
      let block := (c.prf id key (t ++ seed)).val
      prfPlusLoop id key seed n fuel (out ++ block) block
    else
      out

def prfPlus (id : PrfId) (key seed : Bytes) (n : ℕ) : Bytes :=
  (prfPlusLoop c id key seed n n [] []).take n

def cut (km : Bytes) (o n : ℕ) : Bytes := (km.drop o).take n

def encrKeyLen (encr : EncrId) : ℕ := encr.keyLen + if encr.isAead then 4 else 0

def deriveKeysFromSkeyseed (params : SaParams) (skeyseed ni nr : Bytes)
    (spii spir : FixedBytes 8) : IkeSaKeys :=
  let le := encrKeyLen params.encr
  let li := (params.integ.map IntegId.keyLen).getD 0
  let lp := params.prf.outputLen
  let km := prfPlus c params.prf skeyseed (ni ++ nr ++ spii.val ++ spir.val)
    (lp + 2 * li + 2 * le + 2 * lp)
  { skD := cut km 0 lp
    skAi := cut km lp li
    skAr := cut km (lp + li) li
    skEi := cut km (lp + 2 * li) le
    skEr := cut km (lp + 2 * li + le) le
    skPi := cut km (lp + 2 * li + 2 * le) lp
    skPr := cut km (lp + 2 * li + 2 * le + lp) lp }

def deriveKeys (params : SaParams) (ni nr : Bytes) (spii spir : FixedBytes 8) (gir : Bytes) :
    IkeSaKeys :=
  deriveKeysFromSkeyseed c params (c.prf params.prf (ni ++ nr) gir).val ni nr spii spir

def childKeymat (params : SaParams) (skD ni nr : Bytes) (len : ℕ) : Bytes :=
  prfPlus c params.prf skD (ni ++ nr) len

/-! ## The encrypted payload -/

def orPanic {α : Type} (o : Option α) : Decoded α :=
  match o with
  | some a => .ok a
  | none => .error .panic

structure IvRandom where
  iv8 : FixedBytes 8
  iv16 : FixedBytes 16

def IntegId.icv (id : IntegId) (key data : Bytes) : Bytes := (c.mac id key data).val.take id.icvLen

def icvInput (header : Header) (next : PayloadType) (iv ciphertext : Bytes) (icvLen : ℕ) : Bytes :=
  header.encode ++ payloadHeader next false
    (payloadHeaderLen + iv.length + ciphertext.length + icvLen) ++ iv ++ ciphertext

def padded (inner : Bytes) : Bytes :=
  let padLen := (16 - (inner.length + 1) % 16) % 16
  inner ++ List.replicate padLen 0 ++ [UInt8.ofNat padLen]

def EncryptedPayload.encrypt (checks : Bool) (random : IvRandom) (encr : EncrId)
    (integ : Option IntegId) (header : Header) (next : PayloadType) (inner : List Payload)
    (skE skA salt : Bytes) : Decoded EncryptedPayload := do
  let innerBytes ← orPanic (encodePayloads checks inner)
  let plaintext := padded innerBytes
  if encr.isAead then
    let iv := random.iv8.val
    let (ciphertext, tag) ← c.aeadEncrypt encr skE (salt ++ iv) plaintext []
    pure { nextPayload := next, critical := false, iv := iv, ciphertext := ciphertext, icv := tag }
  else
    let id ← okOr integ (.crypto "CBC needs integrity")
    let iv := random.iv16.val
    let ciphertext ← c.cbcEncrypt encr skE iv plaintext
    let sum := id.icv c skA (icvInput header next iv ciphertext id.icvLen)
    pure { nextPayload := next, critical := false, iv := iv, ciphertext := ciphertext, icv := sum }

def unpadded (plaintext : Bytes) : Decoded Bytes :=
  match plaintext.getLast? with
  | none => fail .decryptFailed
  | some padLen =>
    if plaintext.length < padLen.toNat + 1 then fail .decryptFailed
    else pure (plaintext.take (plaintext.length - 1 - padLen.toNat))

def EncryptedPayload.decrypt (checks : Bool) (sk : EncryptedPayload) (encr : EncrId)
    (integ : Option IntegId) (header : Header) (skE skA salt : Bytes) :
    Decoded (List Payload) := do
  let plaintext ←
    if encr.isAead then
      c.aeadDecrypt encr skE (salt ++ sk.iv) sk.ciphertext sk.icv []
    else do
      let id ← okOr integ (.crypto "CBC needs integrity")
      if id.icv c skA (icvInput header sk.nextPayload sk.iv sk.ciphertext id.icvLen) ≠ sk.icv then
        fail .integrityCheckFailed
      else
        c.cbcDecrypt encr skE sk.iv sk.ciphertext
  let inner ← unpadded plaintext
  decodePayloadsChain checks inner sk.nextPayload

end TptRfc.Ipsec
