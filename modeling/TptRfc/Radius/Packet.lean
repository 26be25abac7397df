import TptRfc.Lib.Exec
import TptRfc.Lib.Text

/-!
# RADIUS: packets

`attribute.rs` and `packet.rs`: packets on the wire, the hiding of a password, the authenticators.
-/

namespace TptRfc.Radius

open Lib List

structure Digests where
  md5 : Bytes → FixedBytes 16
  hmacMd5 : Bytes → Bytes → FixedBytes 16

/-! ## Data -/

abbrev AttributeType := UInt8

def userNameType : AttributeType := 1
def userPasswordType : AttributeType := 2
def replyMessageType : AttributeType := 18
def stateType : AttributeType := 24
def proxyStateType : AttributeType := 33
def eapMessageType : AttributeType := 79
def messageAuthenticatorType : AttributeType := 80

structure Attribute where
  type : AttributeType
  value : Bytes

inductive PacketCode where
  | accessRequest | accessAccept | accessReject | accountingRequest | accountingResponse
  | accessChallenge
  | other (v : UInt8)
  deriving DecidableEq

def PacketCode.fromU8 (v : UInt8) : PacketCode :=
  if v = 1 then .accessRequest
  else if v = 2 then .accessAccept
  else if v = 3 then .accessReject
  else if v = 4 then .accountingRequest
  else if v = 5 then .accountingResponse
  else if v = 11 then .accessChallenge
  else .other v

def PacketCode.toU8 : PacketCode → UInt8
  | .accessRequest => 1
  | .accessAccept => 2
  | .accessReject => 3
  | .accountingRequest => 4
  | .accountingResponse => 5
  | .accessChallenge => 11
  | .other v => v

structure Packet where
  code : PacketCode
  identifier : UInt8
  authenticator : FixedBytes 16
  attributes : List Attribute

inductive DecodeError where
  | tooShort
  | lengthMismatch (declared available : ℕ)
  | attributeTooShort (offset len : ℕ)
  | attributeTruncated (offset len stop : ℕ)

inductive RadiusError where
  | decode (e : DecodeError)
  | emptySecret
  | missingPassword
  | passwordLength (len : ℕ)
  | notAccessRequest

/-! ## The wire format -/

def decodeAttributes (declared : ℕ) : ℕ → Bytes → Except DecodeError (List Attribute)
  | _, [] => .ok []
  | offset, [_] => .error (.attributeTruncated offset (declared - offset) declared)
  | offset, typeCode :: attrLen :: rest =>
    if attrLen.toNat < 2 then .error (.attributeTooShort offset attrLen.toNat)
    else if rest.length < attrLen.toNat - 2 then
      .error (.attributeTruncated offset attrLen.toNat declared)
    else do
      let attributes ← decodeAttributes declared (offset + attrLen.toNat)
        (rest.drop (attrLen.toNat - 2))
      pure (⟨typeCode, rest.take (attrLen.toNat - 2)⟩ :: attributes)
termination_by _ rest => rest.length
decreasing_by
  simp only [length_drop, length_cons]
  omega

def Packet.decode (buf : Bytes) : Except DecodeError Packet :=
  if buf.length < 20 then .error .tooShort
  else
    let declared := beNat ((buf.drop 2).take 2)
    if declared < 20 then .error .tooShort
    else if buf.length < declared then .error (.lengthMismatch declared buf.length)
    else do
      let attributes ← decodeAttributes declared 20 ((buf.take declared).drop 20)
      pure ⟨.fromU8 (buf.getD 0 0), buf.getD 1 0, .slice buf 4 16, attributes⟩

def Attribute.encode (a : Attribute) : Bytes :=
  a.type :: UInt8.ofNat (a.value.length + 2) :: a.value

def encodeAttributes (attributes : List Attribute) : Bytes := attributes.flatMap Attribute.encode

def Packet.octets (p : Packet) : Bytes :=
  p.code.toU8 :: p.identifier ::
    (beBytes 2 (20 + (encodeAttributes p.attributes).length) ++
      (p.authenticator.val ++ encodeAttributes p.attributes))

def Packet.encode (checks : Bool) (p : Packet) : Option Bytes :=
  if checks ∧ ∃ a ∈ p.attributes, 253 < a.value.length then none else some p.octets

def Packet.attribute (p : Packet) (type : AttributeType) : Option Attribute :=
  p.attributes.find? fun a => a.type = type

/-! ## Passwords -/

def hideBlocks (d : Digests) (secret : Bytes) (prev pw : Bytes) : Bytes :=
  if pw = [] then []
  else
    let block := padTo 16 (zipWith (· ^^^ ·) (pw.take 16) (d.md5 (secret ++ prev)).val)
    block.val ++ hideBlocks d secret block.val (pw.drop 16)
termination_by pw.length
decreasing_by
  have := length_pos_iff.mpr (by assumption)
  simp only [length_drop]
  omega

def padPassword (password : Bytes) : Bytes :=
  password ++ List.replicate ((16 - password.length % 16) % 16) 0

def Packet.hideUserPassword (d : Digests) (p : Packet) (secret password : Bytes) :
    Except RadiusError Packet :=
  if secret = [] then .error .emptySecret
  else if p.code ≠ .accessRequest then .error .notAccessRequest
  else
    .ok { p with attributes := (p.attributes.filter fun a => a.type ≠ userPasswordType) ++
      [⟨userPasswordType, hideBlocks d secret p.authenticator.val (padPassword password)⟩] }

def revealBlocks (d : Digests) (secret : Bytes) (prev c : Bytes) : Bytes :=
  if c = [] then []
  else
    zipWith (· ^^^ ·) (c.take 16) (d.md5 (secret ++ prev)).val ++
      revealBlocks d secret (c.take 16) (c.drop 16)
termination_by c.length
decreasing_by
  have := length_pos_iff.mpr (by assumption)
  simp only [length_drop]
  omega

def Packet.userPassword (d : Digests) (p : Packet) (secret : Bytes) : Except RadiusError Bytes :=
  if secret = [] then .error .emptySecret
  else
    match p.attribute userPasswordType with
    | none => .error .missingPassword
    | some attr =>
      if attr.value = [] ∨ attr.value.length % 16 ≠ 0 then
        .error (.passwordLength attr.value.length)
      else .ok ((revealBlocks d secret p.authenticator.val attr.value).rdropWhile (· = 0))

def Packet.accessRequest (d : Digests) (identifier : UInt8) (authenticator : FixedBytes 16)
    (secret : Bytes) (userName password : List Char) : Except RadiusError Packet :=
  Packet.hideUserPassword d
    ⟨.accessRequest, identifier, authenticator, [⟨userNameType, Text.encode userName⟩]⟩
    secret (Text.encode password)

/-! ## Authenticators -/

def Packet.responseAuthenticator (checks : Bool) (d : Digests) (p : Packet)
    (requestAuth : FixedBytes 16) (secret : Bytes) : Option (FixedBytes 16) :=
  (p.encode checks).map fun buf =>
    d.md5 (buf.take 4 ++ (requestAuth.val ++ buf.drop 20) ++ secret)

def zeroMessageAuthenticator : ℕ → Bytes → Option Bytes
  | 0, buf => some buf
  | remaining + 1, buf =>
    if remaining = 0 ∨ buf = [] then some buf
    else
      match buf with
      | typeCode :: attrLen :: rest =>
        if typeCode = messageAuthenticatorType ∧ 18 ≤ attrLen.toNat then
          if rest.length < 16 then none
          else some (typeCode :: attrLen :: (List.replicate 16 0 ++ rest.drop 16))
        else if attrLen.toNat < 2 then some buf
        else
          (zeroMessageAuthenticator (remaining + 1 - attrLen.toNat)
            (rest.drop (attrLen.toNat - 2))).map fun tail =>
              typeCode :: attrLen :: (rest.take (attrLen.toNat - 2) ++ tail)
      | _ => none
termination_by remaining => remaining
decreasing_by omega

def Packet.computeMessageAuthenticator (checks : Bool) (d : Digests) (p : Packet)
    (secret : Bytes) : Option (FixedBytes 16) := do
  let buf ← p.encode checks
  let attributes ← zeroMessageAuthenticator (beNat ((buf.drop 2).take 2) - 20) (buf.drop 20)
  pure (d.hmacMd5 secret (buf.take 20 ++ attributes))

def Packet.verifyMessageAuthenticator (checks : Bool) (d : Digests) (p : Packet)
    (secret : Bytes) : Option Bool :=
  match p.attribute messageAuthenticatorType with
  | some attr =>
    if attr.value.length = 16 then
      (p.computeMessageAuthenticator checks d secret).map fun expected =>
        decide (attr.value = expected.val)
    else some false
  | none => some false

end TptRfc.Radius
