import TptRfc.Lib.Exec

/-!
# IKEv2: protocol numbers

The enumerations of `types.rs` and the proposals of `transforms.rs`.
-/

namespace TptRfc.Ipsec

def ofCode {α β : Type} [DecidableEq β] (code : α → β) (all : List α) (v : β) : Option α :=
  all.find? fun a => code a = v

theorem ofCode_code {α β : Type} [DecidableEq β] {code : α → β} {all : List α} {a : α}
    (hmem : a ∈ all) (hcode : ∀ b ∈ all, code b = code a → b = a) :
    ofCode code all (code a) = some a := by
  unfold ofCode
  cases hfind : all.find? fun b => code b = code a with
  | none => exact absurd (List.find?_eq_none.mp hfind a hmem) (by simp)
  | some b =>
    have hb : code b = code a := by simpa using List.find?_some hfind
    rw [hcode b (List.mem_of_find?_eq_some hfind) hb]

/-! ## Enumerations -/

inductive PayloadType where
  | none | sa | ke | idi | idr | cert | certReq | auth | nonce | notify | delete | vendor
  | tsi | tsr | sk | cp | eap
  deriving DecidableEq

namespace PayloadType

def toU8 : PayloadType → UInt8
  | none => 0
  | sa => 33
  | ke => 34
  | idi => 35
  | idr => 36
  | cert => 37
  | certReq => 38
  | auth => 39
  | nonce => 40
  | notify => 41
  | delete => 42
  | vendor => 43
  | tsi => 44
  | tsr => 45
  | sk => 46
  | cp => 47
  | eap => 48

def all : List PayloadType :=
  [none, sa, ke, idi, idr, cert, certReq, auth, nonce, notify, delete, vendor, tsi, tsr, sk, cp,
    eap]

def fromU8 : UInt8 → Option PayloadType := ofCode toU8 all

theorem fromU8_toU8 (t : PayloadType) : fromU8 t.toU8 = some t :=
  ofCode_code (by cases t <;> decide) (by cases t <;> decide)

end PayloadType

inductive ExchangeType where
  | ikeSaInit | ikeAuth | createChildSa | informational
  deriving DecidableEq

namespace ExchangeType

def toU8 : ExchangeType → UInt8
  | ikeSaInit => 34
  | ikeAuth => 35
  | createChildSa => 36
  | informational => 37

def all : List ExchangeType := [ikeSaInit, ikeAuth, createChildSa, informational]

def fromU8 : UInt8 → Option ExchangeType := ofCode toU8 all

theorem fromU8_toU8 (t : ExchangeType) : fromU8 t.toU8 = some t :=
  ofCode_code (by cases t <;> decide) (by cases t <;> decide)

end ExchangeType

inductive ProtocolId where
  | ike | ah | esp
  deriving DecidableEq

namespace ProtocolId

def toU8 : ProtocolId → UInt8
  | ike => 1
  | ah => 2
  | esp => 3

def fromU8 : UInt8 → Option ProtocolId := ofCode toU8 [ike, ah, esp]

end ProtocolId

inductive TransformType where
  | encr | prf | integ | dh | esn
  deriving DecidableEq

namespace TransformType

def toU8 : TransformType → UInt8
  | encr => 1
  | prf => 2
  | integ => 3
  | dh => 4
  | esn => 5

def fromU8 : UInt8 → Option TransformType := ofCode toU8 [encr, prf, integ, dh, esn]

end TransformType

inductive EncrId where
  | aesCbc128 | aesCbc192 | aesCbc256 | aesGcm16With128 | aesGcm16With192 | aesGcm16With256
  deriving DecidableEq

namespace EncrId

def toU16 : EncrId → UInt16
  | aesCbc128 => 12
  | aesCbc192 => 13
  | aesCbc256 => 14
  | aesGcm16With128 => 18
  | aesGcm16With192 => 19
  | aesGcm16With256 => 20

def fromU16 : UInt16 → Option EncrId :=
  ofCode toU16 [aesCbc128, aesCbc192, aesCbc256, aesGcm16With128, aesGcm16With192, aesGcm16With256]

def keyLen : EncrId → ℕ
  | aesCbc128 | aesGcm16With128 => 16
  | aesCbc192 | aesGcm16With192 => 24
  | aesCbc256 | aesGcm16With256 => 32

def isAead : EncrId → Bool
  | aesCbc128 | aesCbc192 | aesCbc256 => false
  | aesGcm16With128 | aesGcm16With192 | aesGcm16With256 => true

end EncrId

inductive PrfId where
  | hmacSha1 | hmacSha256 | hmacSha384 | hmacSha512
  deriving DecidableEq

namespace PrfId

def toU16 : PrfId → UInt16
  | hmacSha1 => 1
  | hmacSha256 => 2
  | hmacSha384 => 3
  | hmacSha512 => 4

def outputLen : PrfId → ℕ
  | hmacSha1 => 20
  | hmacSha256 => 32
  | hmacSha384 => 48
  | hmacSha512 => 64

end PrfId

inductive IntegId where
  | hmacSha1With96 | hmacSha256With128 | hmacSha384With192 | hmacSha512With256
  deriving DecidableEq

namespace IntegId

def toU16 : IntegId → UInt16
  | hmacSha1With96 => 1
  | hmacSha256With128 => 12
  | hmacSha384With192 => 13
  | hmacSha512With256 => 14

def fromU16 : UInt16 → Option IntegId :=
  ofCode toU16 [hmacSha1With96, hmacSha256With128, hmacSha384With192, hmacSha512With256]

def keyLen : IntegId → ℕ
  | hmacSha1With96 => 20
  | hmacSha256With128 => 32
  | hmacSha384With192 => 48
  | hmacSha512With256 => 64

def icvLen : IntegId → ℕ
  | hmacSha1With96 => 12
  | hmacSha256With128 => 16
  | hmacSha384With192 => 24
  | hmacSha512With256 => 32

end IntegId

inductive DhGroup where
  | modp768 | modp1024 | modp1536 | modp2048 | modp3072 | modp4096 | curve25519
  deriving DecidableEq

namespace DhGroup

def toU16 : DhGroup → UInt16
  | modp768 => 1
  | modp1024 => 2
  | modp1536 => 5
  | modp2048 => 14
  | modp3072 => 15
  | modp4096 => 16
  | curve25519 => 31

def fromU16 : UInt16 → Option DhGroup :=
  ofCode toU16 [modp768, modp1024, modp1536, modp2048, modp3072, modp4096, curve25519]

def keyLen : DhGroup → ℕ
  | modp768 => 96
  | modp1024 => 128
  | modp1536 => 192
  | modp2048 => 256
  | modp3072 => 384
  | modp4096 => 512
  | curve25519 => 32

end DhGroup

inductive AuthMethod where
  | rsa | psk | ecdsa | digitalSignature
  deriving DecidableEq

namespace AuthMethod

def toU8 : AuthMethod → UInt8
  | rsa => 1
  | psk => 2
  | ecdsa => 3
  | digitalSignature => 14

def fromU8 : UInt8 → Option AuthMethod := ofCode toU8 [rsa, psk, ecdsa, digitalSignature]

end AuthMethod

inductive IdType where
  | ipv4 | fqdn | rfc822 | ipv6 | keyId
  deriving DecidableEq

namespace IdType

def toU8 : IdType → UInt8
  | ipv4 => 1
  | fqdn => 2
  | rfc822 => 3
  | ipv6 => 5
  | keyId => 11

def fromU8 : UInt8 → Option IdType := ofCode toU8 [ipv4, fqdn, rfc822, ipv6, keyId]

end IdType

inductive CertEncoding where
  | pkcs7 | pgp | dns | x509 | rawRsa | x509Attr | hashUrlX509 | hashUrlX509Bundle | ocsp
  | rawPublicKey
  deriving DecidableEq

namespace CertEncoding

def toU8 : CertEncoding → UInt8
  | pkcs7 => 1
  | pgp => 2
  | dns => 3
  | x509 => 4
  | rawRsa => 5
  | x509Attr => 6
  | hashUrlX509 => 7
  | hashUrlX509Bundle => 8
  | ocsp => 9
  | rawPublicKey => 11

def fromU8 : UInt8 → Option CertEncoding :=
  ofCode toU8 [pkcs7, pgp, dns, x509, rawRsa, x509Attr, hashUrlX509, hashUrlX509Bundle, ocsp,
    rawPublicKey]

end CertEncoding

inductive Error where
  | truncated (needed available : ℕ)
  | badPayloadLength (len : ℕ)
  | unsupportedPayload (v : UInt8)
  | unsupportedExchange (v : UInt8)
  | unsupportedTransformType (v : UInt8)
  | unsupportedDhGroup (v : UInt16)
  | unsupportedAuthMethod (v : UInt8)
  | unsupportedIdType (v : UInt8)
  | unsupportedCertEncoding (v : UInt8)
  | integrityCheckFailed
  | decryptFailed
  | dhFailed
  | ed25519 (msg : String)
  | crypto (msg : String)
  | other (msg : String)
  deriving DecidableEq

/-! ## Proposals -/

structure Transform where
  transformType : TransformType
  transformId : UInt16
  /-- The AES key length in bytes. -/
  keyLen : Option ℕ
  deriving DecidableEq

structure Proposal where
  proposalNum : UInt8
  protocol : ProtocolId
  spi : List UInt8
  transforms : List Transform
  deriving DecidableEq

structure SaPayload where
  proposals : List Proposal
  deriving DecidableEq

end TptRfc.Ipsec
