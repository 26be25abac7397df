import TptRfc.Bgp.Attributes

/-!
# BGP: the message codec

The common header, the four message types and the capabilities of an OPEN.
-/

namespace TptRfc.Bgp

open Lib Parser

def bgpMarker : Bytes := List.replicate 16 0xFF

def bgpHeaderLen : ℕ := 19

inductive Capability where
  | multiProtocol (afi : UInt16) (safi : UInt8)
  | as4 (asn : Asn)
  | unknown (code : UInt8) (value : Bytes)
  deriving DecidableEq

def Capability.asn? : Capability → Option Asn
  | as4 a => some a
  | _ => none

structure OpenMessage where
  version : UInt8
  myAsn : Asn
  holdTime : UInt16
  bgpId : FixedBytes 4
  capabilities : List Capability
  deriving DecidableEq

structure Update where
  withdrawnRoutes : List Ipv4Prefix
  pathAttributes : List PathAttribute
  nlri : List Ipv4Prefix
  deriving DecidableEq

structure Notification where
  code : UInt8
  subcode : UInt8
  data : Bytes
  deriving DecidableEq

inductive Message where
  | openMessage (o : OpenMessage)
  | update (u : Update)
  | notification (n : Notification)
  | keepalive
  deriving DecidableEq

structure CodecOptions where
  as4 : Bool

/-! ## OPEN -/

def encodeCapability : Capability → Bytes
  | .multiProtocol afi safi => [1, 4] ++ (u16Bytes afi ++ [0, safi])
  | .as4 a => [65, 4] ++ u32Bytes a.val
  | .unknown code value => [code, UInt8.ofNat value.length] ++ value

def wantsAs4 (o : OpenMessage) (as4 : Bool) : Bool :=
  as4 || o.capabilities.any fun c => c.asn?.isSome

def encodeCapabilities (o : OpenMessage) (as4 : Bool) : Bytes :=
  let caps := o.capabilities.flatMap encodeCapability
  if wantsAs4 o as4 then
    let found := o.capabilities.any fun c => c.asn?.isSome
    if found then caps else caps ++ encodeCapability (.as4 o.myAsn)
  else caps

def encodeOpen (o : OpenMessage) (as4 : Bool) : Bytes :=
  let twoByteAs :=
    if o.myAsn.fits16bit && !wantsAs4 o as4 then o.myAsn.to16bit else asTrans.toUInt16
  let caps := encodeCapabilities o as4
  [o.version] ++ (u16Bytes twoByteAs ++ (u16Bytes o.holdTime ++ (o.bgpId.val ++
    ([UInt8.ofNat caps.length] ++ caps))))

def interpretCapability (code capLen : UInt8) (value : Bytes) :
    Except (Fault DecodeError) Capability :=
  if code = 1 then
    if value.length < 4 then .error (.error (.malformedCapability code capLen))
    else .ok (.multiProtocol (UInt16.ofNat (beNat (value.take 2))) (value.getD 3 0))
  else if code = 65 then
    if value.length < 4 then .error (.error (.malformedCapability code capLen))
    else .ok (.as4 ⟨UInt32.ofNat (beNat (value.take 4))⟩)
  else .ok (.unknown code value)

def decodeCapability (len : ℕ) : Read Capability := do
  let code ← Reader.u8 len
  let capLen ← Reader.u8 len
  let value ← Reader.take len capLen.toNat
  lift (interpretCapability code capLen value)

def decodeOpen (body : Bytes) : Except (Fault DecodeError) OpenMessage :=
  let len := body.length
  let read : Read OpenMessage := do
    let version ← Reader.u8 len
    lift (if version ≠ 4 then .error (.error (.unsupportedVersion version)) else .ok ())
    let twoByteAs ← Reader.u16 len
    let holdTime ← Reader.u16 len
    let bgpId ← Reader.takeArray len 4
    let paramLen ← Reader.u8 len
    let params ← Reader.take len paramLen.toNat
    let capabilities ← lift
      (Parser.run (whileRemaining 1 (decodeCapability params.length)) params)
    let myAsn := (capabilities.findSome? Capability.asn?).getD ⟨twoByteAs.toUInt32⟩
    pure { version := version, myAsn := myAsn, holdTime := holdTime, bgpId := bgpId,
           capabilities := capabilities }
  Parser.run read body

/-! ## UPDATE -/

def encodeAttributes (attrs : List PathAttribute) (as4 : Bool) : Option Bytes :=
  (attrs.mapM fun a : PathAttribute => a.encode as4).map List.flatten

def encodeUpdate (u : Update) (as4 : Bool) : Option Bytes := do
  let withdrawn ← encodePrefixes (u.withdrawnRoutes.map .v4)
  let attrs ← encodeAttributes u.pathAttributes as4
  let nlri ← encodePrefixes (u.nlri.map .v4)
  pure (u16Bytes (UInt16.ofNat withdrawn.length) ++ (withdrawn ++
    (u16Bytes (UInt16.ofNat attrs.length) ++ (attrs ++ nlri))))

def decodeIpv4Prefix (len : ℕ) : Read Ipv4Prefix := do
  let p ← decodePrefix len 4
  lift <|
    match p with
    | .v4 p => .ok p
    | .v6 _ => .error .panic

def decodeUpdate (body : Bytes) (as4 : Bool) : Except (Fault DecodeError) Update :=
  let len := body.length
  let read : Read Update := do
    let wlen ← Reader.u16 len
    let withdrawnBytes ← Reader.take len wlen.toNat
    let withdrawnRoutes ← lift (Parser.run
      (whileRemaining 1 (decodeIpv4Prefix withdrawnBytes.length)) withdrawnBytes)
    let alen ← Reader.u16 len
    let attrBytes ← Reader.take len alen.toNat
    let pathAttributes ← lift (Parser.run
      (whileRemaining 1 (PathAttribute.decode attrBytes.length as4)) attrBytes)
    let nlri ← whileRemaining 1 (decodeIpv4Prefix len)
    pure { withdrawnRoutes := withdrawnRoutes, pathAttributes := pathAttributes, nlri := nlri }
  Parser.run read body

/-! ## Messages -/

namespace Message

def msgType : Message → UInt8
  | openMessage _ => 1
  | update _ => 2
  | notification _ => 3
  | keepalive => 4

def encodeBody (m : Message) (opts : CodecOptions) : Option Bytes :=
  match m with
  | openMessage o => some (encodeOpen o opts.as4)
  | update u => encodeUpdate u opts.as4
  | notification n => some ([n.code] ++ ([n.subcode] ++ n.data))
  | keepalive => some []

def encode (m : Message) (opts : CodecOptions) : Option Bytes := do
  let body ← m.encodeBody opts
  let total := UInt16.ofNat (bgpHeaderLen + body.length)
  pure (bgpMarker ++ (u16Bytes total ++ ([m.msgType] ++ body)))

def decodeNotification (body : Bytes) : Except (Fault DecodeError) Notification :=
  let len := body.length
  let read : Read Notification := do
    let code ← Reader.u8 len
    let subcode ← Reader.u8 len
    let data ← Reader.takeRemaining len
    pure { code := code, subcode := subcode, data := data }
  Parser.run read body

def decode (bytes : Bytes) (opts : CodecOptions) : Except (Fault DecodeError) Message :=
  if bytes.length < bgpHeaderLen then .error (.error (.truncatedHeader bytes.length))
  else
    let declared := (UInt16.ofNat (beNat [bytes.getD 16 0, bytes.getD 17 0])).toNat
    if declared < bgpHeaderLen ∨ declared ≠ bytes.length then
      .error (.error (.lengthMismatch declared bytes.length))
    else
      let typeByte := bytes.getD 18 0
      let body := bytes.drop bgpHeaderLen
      if typeByte = 1 then openMessage <$> decodeOpen body
      else if typeByte = 2 then update <$> decodeUpdate body opts.as4
      else if typeByte = 3 then notification <$> decodeNotification body
      else if typeByte = 4 then .ok keepalive
      else .error (.error (.unknownMessageType typeByte))

end Message

end TptRfc.Bgp
