import TptRfc.Lib.Bytes

/-!
# BFD: control packets

The control packet with its optional authentication section, and its wire format.
-/

namespace TptRfc.Bfd

open Lib

inductive BfdError where
  | packetTooShort (len : ℕ)
  | reservedDiagnostic (code : UInt8)
  | invalidState (code : UInt8)
  | lengthMismatch (length available : ℕ)
  | unsupportedAuth (code : UInt8)
  | authSeqReplay
  deriving DecidableEq

def bfdVersion : UInt8 := 1

def minLenNoAuth : ℕ := 24

def minLenAuth : ℕ := 26

/-! ## Enumerations -/

inductive Diagnostic where
  | none
  | controlDetectionTimeExpired
  | echoFunctionFailed
  | neighborSignaledSessionDown
  | forwardingPlaneReset
  | pathDown
  | concatenatedPathDown
  | administrativelyDown
  | reverseConcatenatedPathDown
  deriving DecidableEq

namespace Diagnostic

def asU8 : Diagnostic → UInt8
  | none => 0
  | controlDetectionTimeExpired => 1
  | echoFunctionFailed => 2
  | neighborSignaledSessionDown => 3
  | forwardingPlaneReset => 4
  | pathDown => 5
  | concatenatedPathDown => 6
  | administrativelyDown => 7
  | reverseConcatenatedPathDown => 8

def fromU8 (v : UInt8) : Except BfdError Diagnostic :=
  match v.toNat with
  | 0 => .ok none
  | 1 => .ok controlDetectionTimeExpired
  | 2 => .ok echoFunctionFailed
  | 3 => .ok neighborSignaledSessionDown
  | 4 => .ok forwardingPlaneReset
  | 5 => .ok pathDown
  | 6 => .ok concatenatedPathDown
  | 7 => .ok administrativelyDown
  | 8 => .ok reverseConcatenatedPathDown
  | _ => .error (.reservedDiagnostic v)

end Diagnostic

inductive SessionState where
  | adminDown
  | down
  | init
  | up
  deriving DecidableEq

namespace SessionState

def asU8 : SessionState → UInt8
  | adminDown => 0
  | down => 1
  | init => 2
  | up => 3

def fromU8 (v : UInt8) : Except BfdError SessionState :=
  match v.toNat with
  | 0 => .ok adminDown
  | 1 => .ok down
  | 2 => .ok init
  | 3 => .ok up
  | _ => .error (.invalidState v)

end SessionState

inductive AuthType where
  | reserved
  | simplePassword
  | keyedMd5
  | meticulousKeyedMd5
  | keyedSha1
  | meticulousKeyedSha1
  deriving DecidableEq

namespace AuthType

def asU8 : AuthType → UInt8
  | reserved => 0
  | simplePassword => 1
  | keyedMd5 => 2
  | meticulousKeyedMd5 => 3
  | keyedSha1 => 4
  | meticulousKeyedSha1 => 5

def fromU8 (v : UInt8) : AuthType :=
  match v.toNat with
  | 1 => simplePassword
  | 2 => keyedMd5
  | 3 => meticulousKeyedMd5
  | 4 => keyedSha1
  | 5 => meticulousKeyedSha1
  | _ => reserved

def isKeyed : AuthType → Bool
  | keyedSha1 | meticulousKeyedSha1 => true
  | _ => false

def digestLen : AuthType → ℕ
  | keyedMd5 | meticulousKeyedMd5 => 16
  | keyedSha1 | meticulousKeyedSha1 => 20
  | _ => 0

end AuthType

/-! ## Packets -/

structure AuthSection where
  authType : AuthType
  keyId : UInt8
  sequenceNumber : UInt32
  data : Bytes
  deriving DecidableEq

structure ControlPacket where
  version : UInt8
  diagnostic : Diagnostic
  state : SessionState
  poll : Bool
  finalBit : Bool
  controlPlaneIndependent : Bool
  authPresent : Bool
  demand : Bool
  multipoint : Bool
  detectMult : UInt8
  myDiscriminator : UInt32
  yourDiscriminator : UInt32
  desiredMinTxInterval : UInt32
  requiredMinRxInterval : UInt32
  requiredMinEchoRxInterval : UInt32
  auth : Option AuthSection
  deriving DecidableEq

def AuthSection.toBytes (auth : AuthSection) : Bytes :=
  match auth.authType with
  | .simplePassword =>
    [auth.authType.asU8, UInt8.ofNat (auth.data.length + 3), auth.keyId] ++ auth.data
  | .keyedMd5 | .meticulousKeyedMd5 =>
    [auth.authType.asU8, 24, auth.keyId, 0] ++
      (u32Bytes auth.sequenceNumber ++ (padTo 16 auth.data).val)
  | .keyedSha1 | .meticulousKeyedSha1 =>
    [auth.authType.asU8, 28, auth.keyId, 0] ++
      (u32Bytes auth.sequenceNumber ++ (padTo 20 auth.data).val)
  | .reserved => [auth.authType.asU8, 0, auth.keyId, 0]

def u32At (buf : Bytes) (off : ℕ) : UInt32 := UInt32.ofNat (beNat (FixedBytes.slice buf off 4).val)

def parseAuthSection (slice : Bytes) : Except BfdError AuthSection :=
  if slice.length < 3 then .error (.packetTooShort slice.length)
  else
    let authType := AuthType.fromU8 (slice.getD 0 0)
    let authLen := (slice.getD 1 0).toNat
    let keyId := slice.getD 2 0
    match authType with
    | .reserved => .error (.unsupportedAuth (slice.getD 0 0))
    | .simplePassword =>
      if slice.length < authLen ∨ authLen < 4 then
        .error (.lengthMismatch authLen slice.length)
      else .ok ⟨authType, keyId, 0, (slice.take authLen).drop 3⟩
    | .keyedMd5 | .meticulousKeyedMd5 =>
      if slice.length < 24 then .error (.lengthMismatch 24 slice.length)
      else .ok ⟨authType, keyId, u32At slice 4, (FixedBytes.slice slice 8 16).val⟩
    | .keyedSha1 | .meticulousKeyedSha1 =>
      if slice.length < 28 then .error (.lengthMismatch 28 slice.length)
      else .ok ⟨authType, keyId, u32At slice 4, (FixedBytes.slice slice 8 20).val⟩

def parseAuth (authPresent : Bool) (slice : Bytes) : Except BfdError (Option AuthSection) :=
  if authPresent then some <$> parseAuthSection slice else .ok none

namespace ControlPacket

def versionByte (p : ControlPacket) : UInt8 :=
  (p.version &&& 0x07) <<< 5 ||| (p.diagnostic.asU8 &&& 0x1f)

def flagsByte (p : ControlPacket) : UInt8 :=
  (p.state.asU8 &&& 0x03) <<< 6 ||| p.poll.toUInt8 <<< 5 ||| p.finalBit.toUInt8 <<< 4 |||
    p.controlPlaneIndependent.toUInt8 <<< 3 ||| p.authPresent.toUInt8 <<< 2 |||
    p.demand.toUInt8 <<< 1 ||| p.multipoint.toUInt8

def headerBytes (p : ControlPacket) (len : ℕ) : Bytes :=
  [p.versionByte, p.flagsByte, p.detectMult, UInt8.ofNat len] ++
    (u32Bytes p.myDiscriminator ++ (u32Bytes p.yourDiscriminator ++
      (u32Bytes p.desiredMinTxInterval ++ (u32Bytes p.requiredMinRxInterval ++
        u32Bytes p.requiredMinEchoRxInterval))))

def toBytes (p : ControlPacket) : Bytes :=
  let auth := (p.auth.map AuthSection.toBytes).getD []
  p.headerBytes (minLenNoAuth + auth.length) ++ auth

def flag (b : UInt8) (k : UInt8) : Bool := (b >>> k) &&& 0x01 == 1

def fromBytes (buf : Bytes) : Except BfdError ControlPacket :=
  if buf.length < minLenNoAuth then .error (.packetTooShort buf.length)
  else do
    let b0 := buf.getD 0 0
    let b1 := buf.getD 1 0
    let diagnostic ← Diagnostic.fromU8 (b0 &&& 0x1f)
    let state ← SessionState.fromU8 ((b1 >>> 6) &&& 0x03)
    let authPresent := flag b1 2
    let length := (buf.getD 3 0).toNat
    if length < minLenNoAuth ∨ authPresent = true ∧ length < minLenAuth then
      .error (.lengthMismatch length buf.length)
    else if length > buf.length then .error (.lengthMismatch length buf.length)
    else do
      let auth ← parseAuth authPresent ((buf.take length).drop minLenNoAuth)
      .ok
        { version := b0 >>> 5
          diagnostic := diagnostic
          state := state
          poll := flag b1 5
          finalBit := flag b1 4
          controlPlaneIndependent := flag b1 3
          authPresent := authPresent
          demand := flag b1 1
          multipoint := flag b1 0
          detectMult := buf.getD 2 0
          myDiscriminator := u32At buf 4
          yourDiscriminator := u32At buf 8
          desiredMinTxInterval := u32At buf 12
          requiredMinRxInterval := u32At buf 16
          requiredMinEchoRxInterval := u32At buf 20
          auth := auth }

/-! ## Reading the mandatory section back -/

@[simp] theorem length_headerBytes (p : ControlPacket) (len : ℕ) :
    (p.headerBytes len).length = 24 := by
  simp [headerBytes]

theorem versionByte_fields {p : ControlPacket} (h : p.version = bfdVersion) :
    p.versionByte >>> 5 = p.version ∧
      Diagnostic.fromU8 (p.versionByte &&& 0x1f) = .ok p.diagnostic := by
  unfold versionByte
  rw [h]
  cases p.diagnostic <;> decide +kernel

theorem flagsByte_fields (p : ControlPacket) :
    SessionState.fromU8 ((p.flagsByte >>> 6) &&& 0x03) = .ok p.state ∧
      flag p.flagsByte 5 = p.poll ∧ flag p.flagsByte 4 = p.finalBit ∧
      flag p.flagsByte 3 = p.controlPlaneIndependent ∧ flag p.flagsByte 2 = p.authPresent ∧
      flag p.flagsByte 1 = p.demand ∧ flag p.flagsByte 0 = p.multipoint := by
  have hbits : ∀ (a b c d e f : Bool), ∀ st ∈ [SessionState.adminDown, .down, .init, .up],
      let byte := (st.asU8 &&& 0x03) <<< 6 ||| a.toUInt8 <<< 5 ||| b.toUInt8 <<< 4 |||
        c.toUInt8 <<< 3 ||| d.toUInt8 <<< 2 ||| e.toUInt8 <<< 1 ||| f.toUInt8
      SessionState.fromU8 ((byte >>> 6) &&& 0x03) = .ok st ∧ flag byte 5 = a ∧ flag byte 4 = b ∧
        flag byte 3 = c ∧ flag byte 2 = d ∧ flag byte 1 = e ∧ flag byte 0 = f := by
    decide +kernel
  exact hbits _ _ _ _ _ _ _ (by cases p.state <;> simp)

theorem fromBytes_headerBytes {p : ControlPacket} (h : p.version = bfdVersion) (len : ℕ)
    (rest : Bytes) :
    fromBytes (p.headerBytes len ++ rest) =
      let length := (UInt8.ofNat len).toNat
      if length < minLenNoAuth ∨ p.authPresent = true ∧ length < minLenAuth then
        .error (.lengthMismatch length (24 + rest.length))
      else if length > 24 + rest.length then .error (.lengthMismatch length (24 + rest.length))
      else (parseAuth p.authPresent (rest.take (length - 24))).map fun auth =>
        { p with auth := auth } := by
  obtain ⟨hversion, hdiag⟩ := versionByte_fields h
  obtain ⟨hstate, hpoll, hfinal, hcpi, hauth, hdemand, hmulti⟩ := flagsByte_fields p
  have hword : ∀ v : UInt32, UInt32.ofNat (beNat (u32Bytes v)) = v := ofNat_beNat_u32Bytes
  set buf := p.headerBytes len ++ rest with hbuf
  have hlen : buf.length = 24 + rest.length := by simp [hbuf]
  have h0 : buf.getD 0 0 = p.versionByte := rfl
  have h1 : buf.getD 1 0 = p.flagsByte := rfl
  have h2 : buf.getD 2 0 = p.detectMult := rfl
  have h3 : buf.getD 3 0 = UInt8.ofNat len := rfl
  have hmy : u32At buf 4 = p.myDiscriminator := hword _
  have hyour : u32At buf 8 = p.yourDiscriminator := hword _
  have htx : u32At buf 12 = p.desiredMinTxInterval := hword _
  have hrx : u32At buf 16 = p.requiredMinRxInterval := hword _
  have hecho : u32At buf 20 = p.requiredMinEchoRxInterval := hword _
  have hsection : ∀ n, (buf.take n).drop minLenNoAuth = rest.take (n - 24) := by
    intro n
    rw [List.drop_take]
    rfl
  unfold fromBytes
  rw [if_neg (by rw [hlen, minLenNoAuth]; omega)]
  simp only [h0, h1, h2, h3, hmy, hyour, htx, hrx, hecho, hsection, hversion, hdiag, hstate, hpoll,
    hfinal, hcpi, hauth, hdemand, hmulti, hlen]
  cases parseAuth p.authPresent (rest.take ((UInt8.ofNat len).toNat - 24)) <;> rfl

end ControlPacket

end TptRfc.Bfd
