import TptRfc.Snmp.Ber

/-!
# SNMP: values, PDUs and messages

`value.rs`, `pdu.rs` and the codec of `v3.rs`.  Fields of a machine type have that type.
-/

namespace TptRfc.Snmp

open Lib Access

/-! ## Values and bindings -/

inductive SnmpValue where
  | integer (v : Int32)
  | octetString (s : Bytes)
  | objectId (oid : Oid)
  | ipAddress (a : FixedBytes 4)
  | counter32 (v : UInt32)
  | gauge32 (v : UInt32)
  | timeTicks (v : UInt32)
  | opaqueData (s : Bytes)
  | counter64 (v : UInt64)
  | noSuchObject
  | noSuchInstance
  | endOfMibView
  deriving DecidableEq

def writeUnsigned (tag : UInt8) (v : UInt64) : Bytes := writeTlv tag (encodeUnsigned v)

def SnmpValue.encode (checks : Bool) : SnmpValue → Option Bytes
  | .integer v => some (writeInteger v.toInt)
  | .octetString s => some (writeOctetString s)
  | .objectId oid => writeOid checks oid
  | .ipAddress a => some (writeTlv tagIpAddress a.val)
  | .counter32 v => some (writeUnsigned tagCounter32 v.toUInt64)
  | .gauge32 v => some (writeUnsigned tagGauge32 v.toUInt64)
  | .timeTicks v => some (writeUnsigned tagTimeTicks v.toUInt64)
  | .opaqueData s => some (writeTlv tagOpaque s)
  | .counter64 v => some (writeUnsigned tagCounter64 v)
  | .noSuchObject => some (writeTlv tagNoSuchObject [])
  | .noSuchInstance => some (writeTlv tagNoSuchInstance [])
  | .endOfMibView => some (writeTlv tagEndOfMibView [])

def decodeInt (content : Bytes) : Decoded UInt64 :=
  match decodeSigned content with
  | .ok v => .ok (asU64 v)
  | .error .panic => .error .panic
  | .error (.error _) => decodeUnsigned content

def fixed (e : SnmpError) (n : ℕ) (content : Bytes) : Decoded (FixedBytes n) :=
  if h : content.length = n then .ok ⟨content, h⟩ else .error (.error e)

def SnmpValue.decode (tag : UInt8) (content : Bytes) : Decoded SnmpValue :=
  if tag = tagInteger then (decodeInt content).map fun v => .integer (asI32 v.toNat)
  else if tag = tagOctetString then .ok (.octetString content)
  else if tag = tagObjectIdentifier then (Oid.decode content).map .objectId
  else if tag = tagIpAddress then (fixed (.ber .badInteger) 4 content).map .ipAddress
  else if tag = tagCounter32 then (decodeInt content).map fun v => .counter32 v.toUInt32
  else if tag = tagGauge32 then (decodeInt content).map fun v => .gauge32 v.toUInt32
  else if tag = tagTimeTicks then (decodeInt content).map fun v => .timeTicks v.toUInt32
  else if tag = tagOpaque then .ok (.opaqueData content)
  else if tag = tagCounter64 then (decodeInt content).map .counter64
  else if tag = tagNoSuchObject then .ok .noSuchObject
  else if tag = tagNoSuchInstance then .ok .noSuchInstance
  else if tag = tagEndOfMibView then .ok .endOfMibView
  else berError (.unknownTag tag)

structure VarBind where
  oid : Oid
  value : SnmpValue
  deriving DecidableEq

def VarBind.encode (checks : Bool) (vb : VarBind) : Option Bytes := do
  let oid ← writeOid checks vb.oid
  let value ← vb.value.encode checks
  pure (writeSequence (oid ++ value))

def VarBind.decode (tag : UInt8) (content : Bytes) : Decoded VarBind :=
  if tag ≠ tagSequence then berError (.unknownTag tag)
  else do
    let (oid, r) ← readOid (.new content)
    let ((vtag, vcontent), _) ← readTlv r
    let value ← SnmpValue.decode vtag vcontent
    pure ⟨oid, value⟩

abbrev VarBindList := List VarBind

def encodeBinds (checks : Bool) : List VarBind → Option Bytes
  | [] => some []
  | vb :: list => do
    let first ← vb.encode checks
    let rest ← encodeBinds checks list
    pure (first ++ rest)

def VarBindList.encode (checks : Bool) (list : VarBindList) : Option Bytes :=
  (encodeBinds checks list).map writeSequence

/-- The loop of `VarBindList::decode`.  Every round reads at least one byte, so that as many
rounds as there are bytes are enough. -/
def decodeBinds : ℕ → BerReader → Decoded (List VarBind)
  | 0, _ => .ok []
  | rounds + 1, r =>
    if r.rest = [] then .ok []
    else do
      let ((vtag, vcontent), r) ← readTlv r
      let vb ← VarBind.decode vtag vcontent
      let list ← decodeBinds rounds r
      pure (vb :: list)

def VarBindList.decode (tag : UInt8) (content : Bytes) : Decoded VarBindList :=
  if tag ≠ tagSequence then berError (.unknownTag tag)
  else decodeBinds content.length (.new content)

/-! ## PDUs -/

inductive PduType where
  | getRequest | getNextRequest | getResponse | setRequest | getBulkRequest | informRequest
  | snmpV2Trap | report
  deriving DecidableEq

def PduType.tag : PduType → UInt8
  | .getRequest => 0xa0
  | .getNextRequest => 0xa1
  | .getResponse => 0xa2
  | .setRequest => 0xa3
  | .getBulkRequest => 0xa5
  | .informRequest => 0xa6
  | .snmpV2Trap => 0xa7
  | .report => 0xa8

def PduType.fromTag (tag : UInt8) : Decoded PduType :=
  if tag = 0xa0 then .ok .getRequest
  else if tag = 0xa1 then .ok .getNextRequest
  else if tag = 0xa2 then .ok .getResponse
  else if tag = 0xa3 then .ok .setRequest
  else if tag = 0xa5 then .ok .getBulkRequest
  else if tag = 0xa6 then .ok .informRequest
  else if tag = 0xa7 then .ok .snmpV2Trap
  else if tag = 0xa8 then .ok .report
  else .error (.error (.unknownPdu tag))

structure Pdu where
  pduType : PduType
  requestId : Int32
  errorStatus : Int32
  errorIndex : Int32
  varbinds : VarBindList
  deriving DecidableEq

def Pdu.encode (checks : Bool) (p : Pdu) : Option Bytes := do
  let list ← VarBindList.encode checks p.varbinds
  pure (writeTlv p.pduType.tag (writeInteger p.requestId.toInt ++
    (writeInteger p.errorStatus.toInt ++ (writeInteger p.errorIndex.toInt ++ list))))

def readI32 (r : BerReader) : Decoded (Int32 × BerReader) := do
  let ((_, content), r) ← readTlv r
  let v ← decodeSigned content
  pure (asI32 v, r)

def Pdu.decode (tag : UInt8) (content : Bytes) : Decoded Pdu := do
  let pduType ← PduType.fromTag tag
  let (requestId, r) ← readI32 (.new content)
  let (errorStatus, r) ← readI32 r
  let (errorIndex, r) ← readI32 r
  let ((vtag, vcontent), _) ← readTlv r
  let varbinds ← VarBindList.decode vtag vcontent
  pure ⟨pduType, requestId, errorStatus, errorIndex, varbinds⟩

structure TrapV1 where
  enterprise : Oid
  agentAddress : FixedBytes 4
  genericTrap : Int32
  specificTrap : Int32
  timeStamp : UInt32
  varbinds : VarBindList
  deriving DecidableEq

def TrapV1.encode (checks : Bool) (t : TrapV1) : Option Bytes := do
  let enterprise ← writeOid checks t.enterprise
  let list ← VarBindList.encode checks t.varbinds
  pure (writeTlv 0xa4 (enterprise ++ (writeTlv tagIpAddress t.agentAddress.val ++
    (writeInteger t.genericTrap.toInt ++ (writeInteger t.specificTrap.toInt ++
      (writeUnsigned tagTimeTicks t.timeStamp.toUInt64 ++ list))))))

def TrapV1.decode (tag : UInt8) (content : Bytes) : Decoded TrapV1 :=
  if tag ≠ 0xa4 then .error (.error (.unknownPdu tag))
  else do
    let (enterprise, r) ← readOid (.new content)
    let ((atag, acontent), r) ← readTlv r
    if atag ≠ tagIpAddress then .error (.error .malformed)
    else do
      let agentAddress ← fixed .malformed 4 acontent
      let (genericTrap, r) ← readI32 r
      let (specificTrap, r) ← readI32 r
      let ((_, ts), r) ← readTlv r
      let timeStamp ← decodeUnsigned ts
      let ((vtag, vcontent), _) ← readTlv r
      let varbinds ← VarBindList.decode vtag vcontent
      pure ⟨enterprise, agentAddress, genericTrap, specificTrap, timeStamp.toUInt32, varbinds⟩

/-! ## Community messages -/

inductive SnmpVersion where
  | v1 | v2c | v3
  deriving DecidableEq

def SnmpVersion.toInt : SnmpVersion → ℤ
  | .v1 => 0
  | .v2c => 1
  | .v3 => 3

def SnmpVersion.fromInt (v : ℤ) : Decoded SnmpVersion :=
  if v = 0 then .ok .v1
  else if v = 1 then .ok .v2c
  else if v = 3 then .ok .v3
  else .error (.error (.unknownVersion v))

inductive MessageData where
  | pdu (p : Pdu)
  | trapV1 (t : TrapV1)
  deriving DecidableEq

structure Message where
  version : SnmpVersion
  community : Bytes
  data : MessageData
  deriving DecidableEq

def MessageData.encode (checks : Bool) : MessageData → Option Bytes
  | .pdu p => p.encode checks
  | .trapV1 t => t.encode checks

def Message.encode (checks : Bool) (m : Message) : Option Bytes := do
  let data ← m.data.encode checks
  pure (writeSequence (writeInteger m.version.toInt ++ (writeOctetString m.community ++ data)))

def MessageData.decode (tag : UInt8) (content : Bytes) : Decoded MessageData :=
  if tag = 0xa4 then (TrapV1.decode tag content).map .trapV1
  else (Pdu.decode tag content).map .pdu

def Message.decode (bytes : Bytes) : Decoded Message := do
  let ((tag, content), _) ← readTlv (.new bytes)
  if tag ≠ tagSequence then .error (.error .malformed)
  else do
    let ((_, vc), r) ← readTlv (.new content)
    let v ← decodeSigned vc
    let version ← SnmpVersion.fromInt v
    -- a version 3 message has another wrapper
    if version = .v3 then .error (.error .malformed)
    else do
      let ((_, community), r) ← readTlv r
      let ((dtag, dcontent), _) ← readTlv r
      let data ← MessageData.decode dtag dcontent
      pure ⟨version, community, data⟩

/-! ## Version 3 -/

structure HeaderData where
  msgId : Int64
  msgMaxSize : Int64
  msgFlags : UInt8
  msgSecurityModel : Int64
  deriving DecidableEq

def HeaderData.auth (h : HeaderData) : Bool := h.msgFlags &&& 0x01 ≠ 0

def HeaderData.isPriv (h : HeaderData) : Bool := h.msgFlags &&& 0x02 ≠ 0

structure UsmSecurityParameters where
  authoritativeEngineId : Bytes
  authoritativeEngineBoots : UInt32
  authoritativeEngineTime : UInt32
  userName : Bytes
  authParameters : FixedBytes 12
  privParameters : FixedBytes 8
  deriving DecidableEq

structure ScopedPdu where
  contextEngineId : Bytes
  contextName : Bytes
  pdu : Pdu
  deriving DecidableEq

inductive V3Data where
  | plain (scopedPdu : ScopedPdu)
  | encrypted (ct : Bytes)
  deriving DecidableEq

structure V3Message where
  header : HeaderData
  securityParameters : UsmSecurityParameters
  data : V3Data
  deriving DecidableEq

def encodeUsm (usm : UsmSecurityParameters) : Bytes :=
  writeSequence (writeOctetString usm.authoritativeEngineId ++
    (writeInteger usm.authoritativeEngineBoots.toNat ++
      (writeInteger usm.authoritativeEngineTime.toNat ++
        (writeOctetString usm.userName ++
          (writeOctetString usm.authParameters.val ++
            writeOctetString usm.privParameters.val)))))

def readU32 (r : BerReader) : Decoded (UInt32 × BerReader) := do
  let ((_, content), r) ← readTlv r
  let v ← decodeUnsigned content
  pure (v.toUInt32, r)

def decodeUsm (content : Bytes) : Decoded UsmSecurityParameters := do
  let ((tag, inner), _) ← readTlv (.new content)
  if tag ≠ tagSequence then .error (.error .malformed)
  else do
    let ((_, eid), r) ← readTlv (.new inner)
    let (boots, r) ← readU32 r
    let (time, r) ← readU32 r
    let ((_, u), r) ← readTlv r
    let ((_, a), r) ← readTlv r
    let authParameters ← fixed .malformed 12 a
    let ((_, p), _) ← readTlv r
    let privParameters ← fixed .malformed 8 p
    pure ⟨eid, boots, time, u, authParameters, privParameters⟩

def encodeScoped (checks : Bool) (scopedPdu : ScopedPdu) : Option Bytes := do
  let pdu ← scopedPdu.pdu.encode checks
  pure (writeSequence (writeOctetString scopedPdu.contextEngineId ++
    (writeOctetString scopedPdu.contextName ++ pdu)))

def decodeScoped (content : Bytes) : Decoded ScopedPdu := do
  let ((tag, inner), _) ← readTlv (.new content)
  if tag ≠ tagSequence then .error (.error .malformed)
  else do
    let ((_, ceid), r) ← readTlv (.new inner)
    let ((_, cn), r) ← readTlv r
    let ((ptag, pcontent), _) ← readTlv r
    let pdu ← Pdu.decode ptag pcontent
    pure ⟨ceid, cn, pdu⟩

def HeaderData.fields (h : HeaderData) : Bytes :=
  writeInteger h.msgId.toInt ++ (writeInteger h.msgMaxSize.toInt ++
    (writeOctetString [h.msgFlags] ++ writeInteger h.msgSecurityModel.toInt))

def V3Data.encode (checks : Bool) : V3Data → Option Bytes
  | .plain scopedPdu => encodeScoped checks scopedPdu
  | .encrypted ct => some (writeOctetString ct)

def V3Message.encode (checks : Bool) (m : V3Message) : Option Bytes := do
  let data ← m.data.encode checks
  pure (writeSequence (writeInteger 3 ++ (writeSequence m.header.fields ++
    (writeOctetString (encodeUsm m.securityParameters) ++ data))))

def readI64 (r : BerReader) : Decoded (Int64 × BerReader) := do
  let ((_, content), r) ← readTlv r
  let v ← decodeSigned content
  pure (Int64.ofInt v, r)

def HeaderData.decode (content : Bytes) : Decoded HeaderData := do
  let (msgId, r) ← readI64 (.new content)
  let (msgMaxSize, r) ← readI64 r
  let ((_, ff), r) ← readTlv r
  let flags ← fixed .malformed 1 ff
  let (model, _) ← readI64 r
  if model ≠ 3 then .error (.error (.unsupportedSecurityModel model.toInt))
  else pure ⟨msgId, msgMaxSize, flags.val.headD 0, model⟩

def V3Data.decode (tag : UInt8) (content : Bytes) : Decoded V3Data :=
  if tag = tagSequence then (decodeScoped (writeTlv tag content)).map .plain
  else .ok (.encrypted content)

def V3Message.decode (bytes : Bytes) : Decoded V3Message := do
  let ((tag, content), _) ← readTlv (.new bytes)
  if tag ≠ tagSequence then .error (.error .malformed)
  else do
    let ((_, vc), r) ← readTlv (.new content)
    let version ← decodeSigned vc
    if version ≠ 3 then .error (.error (.unknownVersion version))
    else do
      let ((_, gc), r) ← readTlv r
      let header ← HeaderData.decode gc
      let ((_, sc), r) ← readTlv r
      let usm ← decodeUsm sc
      let ((dtag, dcontent), _) ← readTlv r
      let data ← V3Data.decode dtag dcontent
      pure ⟨header, usm, data⟩

end TptRfc.Snmp
