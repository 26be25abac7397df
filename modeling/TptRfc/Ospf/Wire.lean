import TptRfc.Lib.OnesComplement
import TptRfc.Ospf.Lsa

/-!
# OSPF: the packet codec

The common packet header and the five packet bodies for both versions, with the
16-bit Internet checksum.
-/

namespace TptRfc.Ospf

open Lib Parser

namespace OspfVersion

def fromU8 (v : UInt8) : Option OspfVersion :=
  if v = 2 then some .v2 else if v = 3 then some .v3 else none

def toU8 : OspfVersion → UInt8
  | v2 => 2
  | v3 => 3

def headerLen : OspfVersion → ℕ
  | v2 => 24
  | v3 => 16

end OspfVersion

inductive PacketType where
  | hello
  | dbd
  | lsr
  | lsu
  | lsAck
  deriving DecidableEq

namespace PacketType

def fromU8 (v : UInt8) : Option PacketType :=
  if v = 1 then some .hello else if v = 2 then some .dbd else if v = 3 then some .lsr
  else if v = 4 then some .lsu else if v = 5 then some .lsAck else none

def toU8 : PacketType → UInt8
  | hello => 1
  | dbd => 2
  | lsr => 3
  | lsu => 4
  | lsAck => 5

@[simp] theorem fromU8_toU8 (t : PacketType) : fromU8 t.toU8 = some t := by
  cases t <;> rfl

end PacketType

structure HelloPacket where
  networkMask : Ip4
  interfaceId : UInt32
  helloInterval : UInt16
  options : UInt8
  routerPriority : UInt8
  routerDeadInterval : UInt32
  designatedRouter : Ip4
  backupDesignatedRouter : Ip4
  neighbors : List Ip4
  deriving DecidableEq

structure LinkStateRequest where
  lsaType : UInt16
  linkStateId : Ip4
  advertisingRouter : Ip4
  deriving DecidableEq

structure DbdPacket where
  interfaceMtu : UInt16
  options : UInt8
  init : Bool
  more : Bool
  master : Bool
  ddSequence : UInt32
  lsas : List LsaHeader
  deriving DecidableEq

structure LsuPacket where
  lsas : List Lsa
  deriving DecidableEq

structure LsAckPacket where
  lsas : List LsaHeader
  deriving DecidableEq

inductive PacketBody where
  | hello (h : HelloPacket)
  | dbd (d : DbdPacket)
  | lsr (reqs : List LinkStateRequest)
  | lsu (l : LsuPacket)
  | lsAck (a : LsAckPacket)
  deriving DecidableEq

structure OspfPacket where
  version : OspfVersion
  packetType : PacketType
  routerId : Ip4
  areaId : Ip4
  authType : UInt16
  auth : FixedBytes 8
  instanceId : UInt8
  body : PacketBody
  deriving DecidableEq

def internetChecksum (data : Bytes) : UInt16 :=
  ~~~ (UInt16.ofNat (foldCarries (wordSum data % 2 ^ 32)))

def internetChecksumSkip (data : Bytes) (start stop : ℕ) : UInt16 :=
  internetChecksum (data.take start ++ data.drop stop)

/-! ## The reader -/

namespace Reader

def u8 : Parser DecodeError UInt8 := takeU8 .truncatedBody

def u16 : Parser DecodeError UInt16 := takeU16 .truncatedBody

def u32 : Parser DecodeError UInt32 := takeU32 .truncatedBody

def ip : Parser DecodeError Ip4 := ipParser

def header (version : OspfVersion) : Parser DecodeError LsaHeader := fun b =>
  (LsaHeader.decode version (b.take lsaHeaderLen)).map fun h => (h, b.drop lsaHeaderLen)

def lsa (version : OspfVersion) : Parser DecodeError Lsa := fun b =>
  if b.length < lsaHeaderLen then .error .truncatedBody
  else do
    let hdr ← LsaHeader.decode version b
    let len := hdr.length.toNat
    if len < lsaHeaderLen ∨ b.length < len then .error .truncatedBody
    else do
      let l ← Lsa.decode version (b.take len)
      pure (l, b.drop len)

end Reader

/-! ## Bodies -/

def encodeHello (version : OspfVersion) (h : HelloPacket) : Bytes :=
  match version with
  | .v2 =>
    h.networkMask.bytes ++ (u16Bytes h.helloInterval ++ ([h.options] ++
      ([h.routerPriority] ++ (u32Bytes h.routerDeadInterval ++ (h.designatedRouter.bytes ++
      (h.backupDesignatedRouter.bytes ++ h.neighbors.flatMap Ip4.bytes))))))
  | .v3 =>
    u32Bytes h.interfaceId ++ ([h.routerPriority] ++ ([h.options, 0, 0] ++
      (u16Bytes h.helloInterval ++ (u32Bytes h.routerDeadInterval ++
      (h.designatedRouter.bytes ++ (h.backupDesignatedRouter.bytes ++
      (u32Bytes (UInt32.ofNat h.neighbors.length) ++ h.neighbors.flatMap Ip4.bytes)))))))

def decodeHello (version : OspfVersion) : Parser DecodeError HelloPacket :=
  match version with
  | .v2 => do
    let networkMask ← Reader.ip
    let helloInterval ← Reader.u16
    let options ← Reader.u8
    let routerPriority ← Reader.u8
    let dead ← Reader.u32
    let dr ← Reader.ip
    let bdr ← Reader.ip
    let neighbors ← whileRemaining 4 Reader.ip
    pure
      { networkMask := networkMask, interfaceId := 0, helloInterval := helloInterval,
        options := options, routerPriority := routerPriority, routerDeadInterval := dead,
        designatedRouter := dr, backupDesignatedRouter := bdr, neighbors := neighbors }
  | .v3 => do
    let interfaceId ← Reader.u32
    let routerPriority ← Reader.u8
    let options ← Reader.u8
    let _ ← Reader.u8
    let _ ← Reader.u8
    let helloInterval ← Reader.u16
    let dead ← Reader.u32
    let dr ← Reader.ip
    let bdr ← Reader.ip
    let n ← Reader.u32
    let neighbors ← times Reader.ip n.toNat
    pure
      { networkMask := ⟨0, 0, 0, 0⟩, interfaceId := interfaceId,
        helloInterval := helloInterval, options := options, routerPriority := routerPriority,
        routerDeadInterval := dead, designatedRouter := dr, backupDesignatedRouter := bdr,
        neighbors := neighbors }

def encodeDbd (version : OspfVersion) (d : DbdPacket) : Bytes :=
  u16Bytes d.interfaceMtu ++
    ((match version with
      | .v2 => [d.options]
      | .v3 => [d.options, 0, 0]) ++
    ([flagBits d.master d.more d.init] ++
    (u32Bytes d.ddSequence ++ d.lsas.flatMap LsaHeader.encode)))

def decodeDbd (version : OspfVersion) : Parser DecodeError DbdPacket := do
  let mtu ← Reader.u16
  let options ← (match version with
    | .v2 => Reader.u8
    | .v3 => do
      let o ← Reader.u8
      let _ ← Reader.u8
      let _ ← Reader.u8
      pure o)
  let flags ← Reader.u8
  let ddSequence ← Reader.u32
  let lsas ← whileRemaining lsaHeaderLen (Reader.header version)
  pure
    { interfaceMtu := mtu
      options := options
      init := flags &&& ((1 : UInt8) <<< 2) != 0
      more := flags &&& ((1 : UInt8) <<< 1) != 0
      master := flags &&& 1 != 0
      ddSequence := ddSequence
      lsas := lsas }

def encodeRequest (version : OspfVersion) (req : LinkStateRequest) : Bytes :=
  (match version with
    | .v2 => u32Bytes req.lsaType.toUInt32
    | .v3 => u16Bytes 0 ++ u16Bytes req.lsaType) ++
    (req.linkStateId.bytes ++ req.advertisingRouter.bytes)

def encodeLsr (version : OspfVersion) (reqs : List LinkStateRequest) : Bytes :=
  reqs.flatMap (encodeRequest version)

def decodeRequest (version : OspfVersion) : Parser DecodeError LinkStateRequest := do
  let lsaType ← (match version with
    | .v2 => do
      let v ← Reader.u32
      pure v.toUInt16
    | .v3 => do
      let _ ← Reader.u16
      Reader.u16)
  let linkStateId ← Reader.ip
  let advertisingRouter ← Reader.ip
  pure { lsaType := lsaType, linkStateId := linkStateId, advertisingRouter := advertisingRouter }

def decodeLsr (version : OspfVersion) : Parser DecodeError (List LinkStateRequest) :=
  whileRemaining
    (match version with
      | .v2 => 12
      | .v3 => 16)
    (decodeRequest version)

def encodeLsu (l : LsuPacket) : Bytes :=
  u32Bytes (UInt32.ofNat l.lsas.length) ++ l.lsas.flatMap Lsa.encode

def decodeLsu (version : OspfVersion) : Parser DecodeError LsuPacket := do
  let n ← Reader.u32
  let lsas ← times (Reader.lsa version) n.toNat
  pure ⟨lsas⟩

def encodeLsack (a : LsAckPacket) : Bytes := a.lsas.flatMap LsaHeader.encode

def decodeLsack (version : OspfVersion) : Parser DecodeError LsAckPacket := do
  let lsas ← whileRemaining lsaHeaderLen (Reader.header version)
  pure ⟨lsas⟩

def encodeBody (version : OspfVersion) : PacketBody → Bytes
  | .hello h => encodeHello version h
  | .dbd d => encodeDbd version d
  | .lsr reqs => encodeLsr version reqs
  | .lsu l => encodeLsu l
  | .lsAck a => encodeLsack a

def decodeBody (version : OspfVersion) (pt : PacketType) : Parser DecodeError PacketBody :=
  match pt with
  | .hello => .hello <$> decodeHello version
  | .dbd => .dbd <$> decodeDbd version
  | .lsr => .lsr <$> decodeLsr version
  | .lsu => .lsu <$> decodeLsu version
  | .lsAck => .lsAck <$> decodeLsack version

/-! ## Packets -/

def writeAt (buf : Bytes) (off : ℕ) (bytes : Bytes) : Bytes :=
  buf.take off ++ bytes ++ buf.drop (off + bytes.length)

namespace OspfPacket

def commonHeader (p : OspfPacket) (bodyLen : ℕ) : Bytes :=
  [p.version.toU8, p.packetType.toU8] ++
    u16Bytes (UInt16.ofNat (p.version.headerLen + bodyLen)) ++ p.routerId.bytes ++
    p.areaId.bytes

def toBytes (p : OspfPacket) : Bytes :=
  let body := encodeBody p.version p.body
  match p.version with
  | .v2 =>
    let buf := p.commonHeader body.length ++ (u16Bytes 0 ++ (u16Bytes p.authType ++
      (p.auth.val ++ body)))
    writeAt buf 12 (u16Bytes (internetChecksumSkip buf 16 24))
  | .v3 =>
    let buf := p.commonHeader body.length ++ ([p.instanceId, 0] ++ (u16Bytes 0 ++ body))
    writeAt buf 14 (u16Bytes (internetChecksum buf))

def fromBytes (bytes : Bytes) : Except DecodeError OspfPacket :=
  match bytes.head? with
  | none => .error (.truncatedHeader 1 0)
  | some first =>
    match OspfVersion.fromU8 first with
    | none => .error (.unsupportedVersion first)
    | some version =>
      if bytes.length < version.headerLen then
        .error (.truncatedHeader version.headerLen bytes.length)
      else
        match PacketType.fromU8 (byteAt bytes 1) with
        | none => .error (.unknownPacketType (byteAt bytes 1))
        | some packetType =>
          let declared := (u16At bytes 2).toNat
          if declared ≠ bytes.length then .error (.lengthMismatch declared bytes.length)
          else do
            let (authType, auth, instanceId) : UInt16 × FixedBytes 8 × UInt8 :=
              match version with
              | .v2 => (u16At bytes 14, FixedBytes.slice bytes 16 8, 0)
              | .v3 => (0, FixedBytes.replicate 8 0, byteAt bytes 12)
            let (body, _) ← decodeBody version packetType (bytes.drop version.headerLen)
            pure
              { version := version
                packetType := packetType
                routerId := ipAt bytes 4
                areaId := ipAt bytes 8
                authType := authType
                auth := auth
                instanceId := instanceId
                body := body }

end OspfPacket

end TptRfc.Ospf
