import TptRfc.Snmp.Message

/-!
# SNMP: the agent

`agent.rs`, with `mib.rs` and the authentication of `v3.rs`.
-/

namespace TptRfc.Snmp

open Lib List

/-! ## The parameters -/

inductive AuthProtocol where
  | none | md5 | sha1
  deriving DecidableEq

inductive PrivProtocol where
  | none | des | aes
  deriving DecidableEq

structure Crypto where
  authMac : AuthProtocol → Bytes → Bytes → FixedBytes 12
  encryptScoped : Bytes → FixedBytes 16 → PrivProtocol → UInt32 → UInt32 → FixedBytes 8 → Bytes
  /-- `decrypt_scoped`, `none` for an error. -/
  decryptScoped :
    Bytes → FixedBytes 16 → PrivProtocol → UInt32 → UInt32 → FixedBytes 8 → Option Bytes

structure MibHandler (M : Type) where
  get : M → Oid → Option VarBind
  getNext : M → Oid → Option VarBind
  set : M → VarBind → Bool × M

inductive MibCall where
  | get (oid : Oid)
  | getNext (oid : Oid)
  | set (vb : VarBind)

/-! ## The MIB in memory -/

def insertEntry (oid : Oid) (value : SnmpValue) : List (Oid × SnmpValue) → List (Oid × SnmpValue)
  | [] => [(oid, value)]
  | (key, v) :: map =>
    if oid = key then (oid, value) :: map
    else if oid < key then (oid, value) :: (key, v) :: map
    else (key, v) :: insertEntry oid value map

theorem mem_insertEntry {oid : Oid} {value : SnmpValue} {map : List (Oid × SnmpValue)}
    {entry : Oid × SnmpValue} (h : entry ∈ insertEntry oid value map) :
    entry = (oid, value) ∨ entry ∈ map := by
  fun_induction insertEntry oid value map with
  | case1 => exact .inl (mem_singleton.mp h)
  | case2 => exact (mem_cons.mp h).imp_right (mem_cons_of_mem _)
  | case3 => exact mem_cons.mp h
  | case4 key v map hne hlt ih =>
    rcases mem_cons.mp h with rfl | h
    · exact .inr mem_cons_self
    · exact (ih h).imp_right (mem_cons_of_mem _)

theorem pairwise_insertEntry {oid : Oid} {value : SnmpValue} {map : List (Oid × SnmpValue)}
    (h : map.Pairwise (·.1 < ·.1)) : (insertEntry oid value map).Pairwise (·.1 < ·.1) := by
  fun_induction insertEntry oid value map with
  | case1 => exact pairwise_singleton _ _
  | case2 => exact pairwise_cons.mpr (pairwise_cons.mp h)
  | case3 key v map hne hlt =>
    refine pairwise_cons.mpr ⟨fun entry hentry => ?_, h⟩
    rcases mem_cons.mp hentry with rfl | hentry
    · exact hlt
    · exact List.lt_trans hlt ((pairwise_cons.mp h).1 entry hentry)
  | case4 key v map hne hlt ih =>
    obtain ⟨hfirst, hrest⟩ := pairwise_cons.mp h
    refine pairwise_cons.mpr ⟨fun entry hentry => ?_, ih hrest⟩
    rcases mem_insertEntry hentry with rfl | hentry
    · exact Std.lt_of_le_of_ne (List.not_lt.mp hlt) (Ne.symm hne)
    · exact hfirst entry hentry

structure InMemoryMib where
  map : List (Oid × SnmpValue)
  sorted : map.Pairwise (·.1 < ·.1)

def bindingOf (entry : Oid × SnmpValue) : VarBind := ⟨entry.1, entry.2⟩

def inMemory : MibHandler InMemoryMib where
  get mib oid := (mib.map.find? fun entry => entry.1 = oid).map bindingOf
  getNext mib oid := (mib.map.find? fun entry => oid < entry.1).map bindingOf
  set mib vb := (true, ⟨insertEntry vb.oid vb.value mib.map, pairwise_insertEntry mib.sorted⟩)

structure AgentUser where
  authProto : AuthProtocol
  privProto : PrivProtocol
  authKey : Bytes
  privKey : FixedBytes 16

structure Agent (M : Type) where
  mib : M
  engineId : Bytes
  engineBoots : UInt32
  engineTime : UInt32
  users : Bytes → Option AgentUser
  saltCounter : UInt64

/-! ## Requests -/

structure Served (M : Type) where
  bindings : VarBindList
  mib : M
  calls : List MibCall

def missingBinding (oid : Oid) : VarBind := ⟨oid, .noSuchObject⟩

variable {M : Type}

def setLoop (h : MibHandler M) : M → VarBindList → Served M
  | mib, [] => ⟨[], mib, []⟩
  | mib, vb :: list =>
    let (done, mib) := h.set mib vb
    let rest := setLoop h mib list
    ⟨(if done then vb else missingBinding vb.oid) :: rest.bindings, rest.mib, .set vb :: rest.calls⟩

def repeatNext (h : MibHandler M) (mib : M) : ℕ → Oid → VarBindList × List MibCall
  | 0, _ => ([], [])
  | reps + 1, cur =>
    match h.getNext mib cur with
    | some b =>
      let (out, calls) := repeatNext h mib reps b.oid
      (b :: out, .getNext cur :: calls)
    | none => ([], [.getNext cur])

def lookup (find : Oid → Option VarBind) (vb : VarBind) : VarBind :=
  (find vb.oid).getD (missingBinding vb.oid)

def Pdu.nonRepeaters (req : Pdu) : ℕ := req.errorStatus.toInt.toNat

def Pdu.maxReps (req : Pdu) : ℕ := req.errorIndex.toInt.toNat

def processRequest (h : MibHandler M) (mib : M) (req : Pdu) : Served M :=
  match req.pduType with
  | .getRequest =>
    ⟨req.varbinds.map (lookup (h.get mib)), mib, req.varbinds.map fun vb => .get vb.oid⟩
  | .getNextRequest =>
    ⟨req.varbinds.map (lookup (h.getNext mib)), mib, req.varbinds.map fun vb => .getNext vb.oid⟩
  | .setRequest => setLoop h mib req.varbinds
  | .getBulkRequest =>
    let single := req.varbinds.take req.nonRepeaters
    let repeated := (req.varbinds.drop req.nonRepeaters).map fun vb =>
      repeatNext h mib req.maxReps vb.oid
    ⟨single.map (lookup (h.get mib)) ++ repeated.flatMap Prod.fst, mib,
      (single.map fun vb => .get vb.oid) ++ repeated.flatMap Prod.snd⟩
  | _ => ⟨req.varbinds, mib, []⟩

def responseFor (request : Pdu) (varbinds : VarBindList) : Pdu :=
  ⟨.getResponse, request.requestId, 0, 0, varbinds⟩

/-! ## Authentication -/

def findAuthOffsetFrom (i : ℕ) : Bytes → Option ℕ
  | [] => none
  | b :: bytes =>
    if 16 ≤ (b :: bytes).length ∧ b = 0x04 ∧ bytes[0]? = some 0x0c ∧
        bytes[13]? = some 0x04 ∧ bytes[14]? = some 0x08 then
      some (i + 2)
    else findAuthOffsetFrom (i + 1) bytes

def findAuthOffset (bytes : Bytes) : Option ℕ := findAuthOffsetFrom 0 bytes

def embed (bytes : Bytes) (off : ℕ) (mac : FixedBytes 12) : Bytes :=
  bytes.take off ++ (mac.val ++ bytes.drop (off + 12))

def noAuth : FixedBytes 12 := ⟨List.replicate 12 0, rfl⟩

def verifyAuth (c : Crypto) (bytes authKey : Bytes) (authProto : AuthProtocol) : Bool :=
  match findAuthOffset bytes with
  | none => false
  | some off =>
    (bytes.drop off).take 12 = (c.authMac authProto authKey (embed bytes off noAuth)).val

def V3Message.encodeSigned (checks : Bool) (c : Crypto) (m : V3Message) (authKey : Option Bytes)
    (authProto : AuthProtocol) : Option Bytes :=
  match authKey with
  | none => m.encode checks
  | some key =>
    let msg := { m with
      securityParameters := { m.securityParameters with authParameters := noAuth } }
    (msg.encode checks).map fun bytes =>
      match findAuthOffset bytes with
      | none => bytes
      | some off => embed bytes off (c.authMac authProto key bytes)

/-! ## Datagrams -/

inductive Outcome where
  | silent
  | reply (bytes : Bytes)
  | panic
  deriving DecidableEq

def Outcome.ofEncoding : Option Bytes → Outcome
  | some bytes => .reply bytes
  | none => .panic

structure Step (M : Type) where
  agent : Agent M
  calls : List MibCall
  outcome : Outcome

def processCommunity (checks : Bool) (h : MibHandler M) (agent : Agent M) (msg : Message) :
    Step M :=
  match msg.data with
  | .pdu req =>
    let served := processRequest h agent.mib req
    ⟨{ agent with mib := served.mib }, served.calls, .ofEncoding (Message.encode checks
      ⟨msg.version, msg.community, .pdu (responseFor req served.bindings)⟩)⟩
  | .trapV1 _ => ⟨agent, [], .silent⟩

def verified (c : Crypto) (agent : Agent M) (v3 : V3Message) (raw : Bytes) : Bool :=
  match agent.users v3.securityParameters.userName with
  | some u => u.authProto ≠ .none && verifyAuth c raw u.authKey u.authProto
  | none => false

def scopedOf (c : Crypto) (agent : Agent M) (v3 : V3Message) : Decoded ScopedPdu :=
  match v3.data with
  | .plain s => .ok s
  | .encrypted ct =>
    let usm := v3.securityParameters
    if !v3.header.isPriv then .error (.error .malformed)
    else
      match agent.users usm.userName with
      | none => .error (.error .malformed)
      | some u =>
        if u.privProto = .none then .error (.error .malformed)
        else
          match c.decryptScoped ct u.privKey u.privProto usm.authoritativeEngineBoots
              usm.authoritativeEngineTime usm.privParameters with
          | none => .error (.error .malformed)
          | some pt => decodeScoped pt

def oidUsmUnknownEngine : Oid := [1, 3, 6, 1, 6, 3, 15, 1, 1, 4, 0]

def noPriv : FixedBytes 8 := ⟨List.replicate 8 0, rfl⟩

def buildDiscovery (checks : Bool) (agent : Agent M) (v3 : V3Message) (req : Pdu) : Option Bytes :=
  let report : Pdu := ⟨.report, req.requestId, 0, 0, [⟨oidUsmUnknownEngine, .counter32 1⟩]⟩
  V3Message.encode checks
    { header := ⟨v3.header.msgId, v3.header.msgMaxSize, 0x04, 3⟩
      securityParameters :=
        ⟨agent.engineId, agent.engineBoots, agent.engineTime, [], noAuth, noPriv⟩
      data := .plain ⟨agent.engineId, [], report⟩ }

def Agent.nextSalt (agent : Agent M) : FixedBytes 8 × Agent M :=
  (⟨beBytes 8 agent.saltCounter.toNat, length_beBytes _ _⟩,
    { agent with saltCounter := agent.saltCounter + 1 })

def respond (checks : Bool) (c : Crypto) (agent : Agent M) (v3 : V3Message) (resp : ScopedPdu) :
    Agent M × Outcome :=
  let flags : UInt8 :=
    (if v3.header.auth then 0x01 else 0) ||| (if v3.header.isPriv then 0x02 else 0)
  let userName := v3.securityParameters.userName
  let user := agent.users userName
  let authProto := if v3.header.auth then (user.map AgentUser.authProto).getD .none else .none
  let authKey := if v3.header.auth then user.map AgentUser.authKey else none
  let message (salt : FixedBytes 8) (data : V3Data) : V3Message :=
    { header := ⟨v3.header.msgId, v3.header.msgMaxSize, flags, 3⟩
      securityParameters :=
        ⟨agent.engineId, agent.engineBoots, agent.engineTime, userName, noAuth, salt⟩
      data := data }
  if v3.header.isPriv then
    match user with
    | none => (agent, .silent)
    | some u =>
      let (salt, agent) := agent.nextSalt
      match encodeScoped checks resp with
      | none => (agent, .panic)
      | some pt =>
        let ct := c.encryptScoped pt u.privKey u.privProto agent.engineBoots
          agent.engineTime salt
        (agent, .ofEncoding
          ((message salt (.encrypted ct)).encodeSigned checks c authKey authProto))
  else
    (agent, .ofEncoding ((message noPriv (.plain resp)).encodeSigned checks c authKey authProto))

def isDiscovery (agent : Agent M) (v3 : V3Message) : Bool :=
  !v3.header.auth && (v3.securityParameters.authoritativeEngineId = [] ||
    (agent.users v3.securityParameters.userName).isNone)

def processV3 (checks : Bool) (c : Crypto) (h : MibHandler M) (agent : Agent M) (v3 : V3Message)
    (raw : Bytes) : Step M :=
  if v3.header.auth && !verified c agent v3 raw then ⟨agent, [], .silent⟩
  else
    match scopedOf c agent v3 with
    | .error .panic => ⟨agent, [], .panic⟩
    | .error (.error _) => ⟨agent, [], .silent⟩
    | .ok s =>
      if isDiscovery agent v3 then
        ⟨agent, [], .ofEncoding (buildDiscovery checks agent v3 s.pdu)⟩
      else
        let served := processRequest h agent.mib s.pdu
        let (agent, outcome) := respond checks c { agent with mib := served.mib } v3
          ⟨agent.engineId, s.contextName, responseFor s.pdu served.bindings⟩
        ⟨agent, served.calls, outcome⟩

def process (checks : Bool) (c : Crypto) (h : MibHandler M) (agent : Agent M) (bytes : Bytes) :
    Step M :=
  match Message.decode bytes with
  | .ok msg => processCommunity checks h agent msg
  | .error .panic => ⟨agent, [], .panic⟩
  | .error (.error _) =>
    match V3Message.decode bytes with
    | .ok v3 => processV3 checks c h agent v3 bytes
    | .error .panic => ⟨agent, [], .panic⟩
    | .error (.error _) => ⟨agent, [], .silent⟩

end TptRfc.Snmp
