import TptRfc.Lib.Exec
import TptRfc.Lib.Parser

/-!
# BGP: path attributes

AS numbers, prefixes, AS paths and path attributes, with their wire codecs.
-/

namespace TptRfc.Bgp

open Lib Parser FixedBytes

inductive DecodeError where
  | truncatedHeader (actual : ℕ)
  | lengthMismatch (declared actual : ℕ)
  | unknownMessageType (messageType : UInt8)
  | truncatedField (needed offset len : ℕ)
  | unsupportedVersion (version : UInt8)
  | malformedCapability (code len : UInt8)
  deriving DecidableEq

/-! ## The reader -/

abbrev Read := Parser (Fault DecodeError)

namespace Reader

def truncated (len needed : ℕ) (bytes : Bytes) : Fault DecodeError :=
  .error (.truncatedField needed (len - bytes.length) len)

def u8 (len : ℕ) : Read UInt8 := fun bytes => takeU8 (truncated len 1 bytes) bytes

def u16 (len : ℕ) : Read UInt16 := fun bytes => takeU16 (truncated len 2 bytes) bytes

def u32 (len : ℕ) : Read UInt32 := fun bytes => takeU32 (truncated len 4 bytes) bytes

def take (len n : ℕ) : Read Bytes := fun bytes =>
  takeBytes (truncated len n bytes) n bytes

def takeArray (len n : ℕ) : Read (FixedBytes n) := fun bytes =>
  takeFixed (truncated len n bytes) n bytes

def takeRemaining (len : ℕ) : Read Bytes := fun bytes => take len bytes.length bytes

def known (len : ℕ) (o : Option α) : Read α := fun bytes =>
  match o with
  | some a => .ok (a, bytes)
  | none => .error (truncated len 1 bytes)

end Reader

/-! ## AS numbers -/

def asTrans : UInt32 := 23456

structure Asn where
  val : UInt32
  deriving DecidableEq

namespace Asn

def fits16bit (a : Asn) : Bool := a.val ≤ 0xFFFF

def to16bit (a : Asn) : UInt16 := a.val.toUInt16

def encode (a : Asn) (as4 : Bool) : Bytes :=
  if as4 then u32Bytes a.val else u16Bytes a.to16bit

def decode (len : ℕ) (as4 : Bool) : Read Asn :=
  if as4 then Asn.mk <$> Reader.u32 len else (fun v => ⟨v.toUInt32⟩) <$> Reader.u16 len

end Asn

/-! ## Prefixes -/

structure Ipv4Prefix where
  addr : FixedBytes 4
  len : UInt8
  deriving DecidableEq

structure Ipv6Prefix where
  addr : FixedBytes 16
  len : UInt8
  deriving DecidableEq

def Ipv6Prefix.afi : UInt16 := 2

inductive Prefix where
  | v4 (p : Ipv4Prefix)
  | v6 (p : Ipv6Prefix)
  deriving DecidableEq

namespace Prefix

def len : Prefix → UInt8
  | v4 p => p.len
  | v6 p => p.len

def octets : Prefix → Bytes
  | v4 p => p.addr.val
  | v6 p => p.addr.val

end Prefix

def prefixBytes (len : UInt8) : ℕ := (len.toNat + 7) / 8

def encodePrefixBits (addr : Bytes) (len : UInt8) : Option Bytes :=
  if prefixBytes len ≤ addr.length then some (len :: addr.take (prefixBytes len)) else none

def decodePrefix (len addrLen : ℕ) : Read Prefix := do
  let bits ← Reader.u8 len
  let _ ← Reader.known len (if addrLen * 8 < bits.toNat then none else some ())
  let addr ← times (Reader.u8 len) (prefixBytes bits)
  pure (if addrLen = 4 then .v4 ⟨padTo 4 addr, bits⟩ else .v6 ⟨padTo 16 addr, bits⟩)

def encodePrefixes (prefixes : List Prefix) : Option Bytes :=
  (prefixes.mapM fun p => encodePrefixBits p.octets p.len).map List.flatten

/-! ## AS paths -/

inductive Origin where
  | igp
  | egp
  | incomplete
  deriving DecidableEq

namespace Origin

def fromU8 (v : UInt8) : Option Origin :=
  if v = 0 then some .igp else if v = 1 then some .egp else if v = 2 then some .incomplete
  else none

def toU8 : Origin → UInt8
  | igp => 0
  | egp => 1
  | incomplete => 2

@[simp] theorem fromU8_toU8 (o : Origin) : fromU8 o.toU8 = some o := by
  cases o <;> rfl

end Origin

inductive AsPathSegmentType where
  | set
  | sequence
  deriving DecidableEq

namespace AsPathSegmentType

def fromU8 (v : UInt8) : Option AsPathSegmentType :=
  if v = 1 then some .set else if v = 2 then some .sequence else none

def toU8 : AsPathSegmentType → UInt8
  | set => 1
  | sequence => 2

@[simp] theorem fromU8_toU8 (t : AsPathSegmentType) : fromU8 t.toU8 = some t := by
  cases t <;> rfl

end AsPathSegmentType

structure AsPathSegment where
  segmentType : AsPathSegmentType
  asns : List Asn
  deriving DecidableEq

namespace AsPathSegment

def encode (seg : AsPathSegment) (as4 : Bool) : Bytes :=
  [seg.segmentType.toU8] ++ ([UInt8.ofNat seg.asns.length] ++
    seg.asns.flatMap fun a => a.encode as4)

def decode (len : ℕ) (as4 : Bool) : Read AsPathSegment := do
  let v ← Reader.u8 len
  let segmentType ← Reader.known len (AsPathSegmentType.fromU8 v)
  let count ← Reader.u8 len
  let asns ← times (Asn.decode len as4) count.toNat
  pure ⟨segmentType, asns⟩

end AsPathSegment

structure AsPath where
  segments : List AsPathSegment
  deriving DecidableEq

namespace AsPath

def pathLength (p : AsPath) : ℕ := p.segments.length

def firstAsn (p : AsPath) : Option Asn := p.segments.head?.bind fun s => s.asns.head?

def encodeValue (p : AsPath) (as4 : Bool) : Bytes := p.segments.flatMap fun s => s.encode as4

def decodeValue (len : ℕ) (as4 : Bool) : Read AsPath :=
  AsPath.mk <$> whileRemaining 1 (AsPathSegment.decode len as4)

end AsPath

/-! ## The other attributes -/

structure Aggregator where
  asn : Asn
  addr : FixedBytes 4
  deriving DecidableEq

inductive NextHop where
  | ipv4 (a : FixedBytes 4)
  | ipv6 (a : FixedBytes 16)
  | ipv6LinkLocal (g l : FixedBytes 16)
  | other (v : Bytes)
  deriving DecidableEq

namespace NextHop

def encode : NextHop → Bytes
  | ipv4 a => a.val
  | ipv6 a => a.val
  | ipv6LinkLocal g l => g.val ++ l.val
  | other v => v

def encodedLen : NextHop → ℕ
  | ipv4 _ => 4
  | ipv6 _ => 16
  | ipv6LinkLocal _ _ => 32
  | other v => v.length

def decode (bytes : Bytes) : NextHop :=
  if bytes.length = 4 then .ipv4 (slice bytes 0 4)
  else if bytes.length = 16 then .ipv6 (slice bytes 0 16)
  else if bytes.length = 32 then
    .ipv6LinkLocal (slice bytes 0 16) (slice bytes 16 16)
  else .other bytes

end NextHop

structure MpReachNlri where
  afi : UInt16
  safi : UInt8
  nextHop : NextHop
  nlri : List Prefix
  deriving DecidableEq

structure MpUnreachNlri where
  afi : UInt16
  safi : UInt8
  withdrawn : List Prefix
  deriving DecidableEq

def addrLen (afi : UInt16) : ℕ := if afi = Ipv6Prefix.afi then 16 else 4

def encodeMpReach (m : MpReachNlri) : Option Bytes := do
  let nlri ← encodePrefixes m.nlri
  pure (u16Bytes m.afi ++ ([m.safi] ++ ([UInt8.ofNat m.nextHop.encodedLen] ++
    (m.nextHop.encode ++ ([0] ++ nlri)))))

def decodeMpReach (len : ℕ) : Read MpReachNlri := do
  let afi ← Reader.u16 len
  let safi ← Reader.u8 len
  let nhLen ← Reader.u8 len
  let nh ← Reader.take len nhLen.toNat
  let _ ← Reader.u8 len
  let nlri ← whileRemaining 1 (decodePrefix len (addrLen afi))
  pure { afi := afi, safi := safi, nextHop := NextHop.decode nh, nlri := nlri }

def encodeMpUnreach (m : MpUnreachNlri) : Option Bytes := do
  let withdrawn ← encodePrefixes m.withdrawn
  pure (u16Bytes m.afi ++ ([m.safi] ++ withdrawn))

def decodeMpUnreach (len : ℕ) : Read MpUnreachNlri := do
  let afi ← Reader.u16 len
  let safi ← Reader.u8 len
  let withdrawn ← whileRemaining 1 (decodePrefix len (addrLen afi))
  pure { afi := afi, safi := safi, withdrawn := withdrawn }

inductive PathAttribute where
  | origin (o : Origin)
  | asPath (p : AsPath)
  | nextHop (a : FixedBytes 4)
  | multiExitDisc (v : UInt32)
  | localPref (v : UInt32)
  | atomicAggregate
  | aggregator (agg : Aggregator)
  | community (v : UInt32)
  | originatorId (a : FixedBytes 4)
  | clusterList (list : List (FixedBytes 4))
  | mpReachNlri (m : MpReachNlri)
  | mpUnreachNlri (m : MpUnreachNlri)
  | unknown (typeCode : UInt8) (transitive : Bool) (value : Bytes)
  deriving DecidableEq

namespace PathAttribute

def typeCode : PathAttribute → UInt8
  | origin _ => 1
  | asPath _ => 2
  | nextHop _ => 3
  | multiExitDisc _ => 4
  | localPref _ => 5
  | atomicAggregate => 6
  | aggregator _ => 7
  | community _ => 8
  | originatorId _ => 9
  | clusterList _ => 10
  | mpReachNlri _ => 14
  | mpUnreachNlri _ => 15
  | unknown typeCode _ _ => typeCode

def defaultFlags : PathAttribute → UInt8
  | origin _ | asPath _ | nextHop _ | localPref _ | atomicAggregate => 0x40
  | aggregator _ | community _ => 0x80 ||| 0x40
  | multiExitDisc _ | originatorId _ | clusterList _ | mpReachNlri _ | mpUnreachNlri _ => 0x80
  | unknown _ transitive _ => if transitive then 0x80 ||| 0x40 else 0x80

def encodeValue (as4 : Bool) : PathAttribute → Option Bytes
  | origin o => some [o.toU8]
  | asPath p => some (p.encodeValue as4)
  | nextHop a => some a.val
  | multiExitDisc v => some (u32Bytes v)
  | localPref v => some (u32Bytes v)
  | atomicAggregate => some []
  | aggregator agg => some (agg.asn.encode as4 ++ agg.addr.val)
  | community v => some (u32Bytes v)
  | originatorId a => some a.val
  | clusterList list => some (list.flatMap Subtype.val)
  | mpReachNlri m => encodeMpReach m
  | mpUnreachNlri m => encodeMpUnreach m
  | unknown _ _ value => some value

def encode (attr : PathAttribute) (as4 : Bool) : Option Bytes := do
  let value ← attr.encodeValue as4
  let flags := if value.length > 255 then attr.defaultFlags ||| 0x10 else attr.defaultFlags
  pure ([flags] ++ ([attr.typeCode] ++
    ((if flags &&& 0x10 ≠ 0 then u16Bytes (UInt16.ofNat value.length)
      else [UInt8.ofNat value.length]) ++ value)))

def decodeValue (as4 : Bool) (flags typeCode : UInt8) (value : Bytes) : Read PathAttribute :=
  let len := value.length
  match typeCode.toNat with
  | 1 => do
    let v ← Reader.u8 len
    origin <$> Reader.known len (Origin.fromU8 v)
  | 2 => asPath <$> AsPath.decodeValue len as4
  | 3 => nextHop <$> Reader.takeArray len 4
  | 4 => multiExitDisc <$> Reader.u32 len
  | 5 => localPref <$> Reader.u32 len
  | 6 => pure atomicAggregate
  | 7 => do
    let asn ← Asn.decode len as4
    let addr ← Reader.takeArray len 4
    pure (aggregator ⟨asn, addr⟩)
  | 8 => community <$> Reader.u32 len
  | 9 => originatorId <$> Reader.takeArray len 4
  | 10 => clusterList <$> whileRemaining 4 (Reader.takeArray len 4)
  | 14 => mpReachNlri <$> decodeMpReach len
  | 15 => mpUnreachNlri <$> decodeMpUnreach len
  | _ => pure (unknown typeCode (flags &&& 0x40 ≠ 0) value)

def decode (len : ℕ) (as4 : Bool) : Read PathAttribute := do
  let flags ← Reader.u8 len
  let typeCode ← Reader.u8 len
  let valueLen ← (if flags &&& 0x10 ≠ 0 then UInt16.toNat <$> Reader.u16 len
    else UInt8.toNat <$> Reader.u8 len)
  let value ← Reader.take len valueLen
  lift (Parser.run (decodeValue as4 flags typeCode value) value)

end PathAttribute

end TptRfc.Bgp
