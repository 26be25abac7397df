import TptRfc.Bfd.Packet
import TptRfc.Lib.Exec

/-!
# BFD: the session

One endpoint's view of a session: the state machine, the timers, and authentication.
-/

namespace TptRfc.Bfd

open Lib

abbrev Instant := ℕ

inductive Role where
  | active
  | passive
  deriving DecidableEq

structure AuthConfig where
  authType : AuthType
  keyId : UInt8
  key : Bytes

structure SessionConfig where
  localDiscriminator : UInt32
  desiredMinTxInterval : UInt32
  requiredMinRxInterval : UInt32
  detectMult : UInt8
  demandMode : Bool
  controlPlaneIndependent : Bool
  role : Role
  auth : Option AuthConfig

def SessionConfig.validate (config : SessionConfig) : Except BfdError Unit :=
  match config.auth with
  | some auth =>
    match auth.authType with
    | .simplePassword | .keyedSha1 | .meticulousKeyedSha1 => .ok ()
    | other => .error (.unsupportedAuth other.asU8)
  | none => .ok ()

inductive PacketResult where
  | discarded
  | accepted (respond : Option ControlPacket)

structure Session where
  sessionState : SessionState
  localDiag : Diagnostic
  localDiscr : UInt32
  desiredMinTx : UInt32
  requiredMinRx : UInt32
  detectMult : UInt8
  demandMode : Bool
  cpi : Bool
  role : Role
  auth : Option AuthConfig
  remoteDiscr : UInt32
  remoteState : SessionState
  remoteDemand : Bool
  remoteMinRx : UInt32
  remoteDesiredMinTx : UInt32
  remoteDetectMult : UInt8
  lastRx : Option Instant
  pollSequence : Bool
  pollStart : Option Instant
  xmitAuthSeq : UInt32
  rcvAuthSeq : UInt32
  authSeqKnown : Bool

namespace Session

def fresh (config : SessionConfig) (seed : UInt32) : Session :=
  { sessionState := .down
    localDiag := .none
    localDiscr := config.localDiscriminator
    desiredMinTx := config.desiredMinTxInterval
    requiredMinRx := config.requiredMinRxInterval
    detectMult := config.detectMult
    demandMode := config.demandMode
    cpi := config.controlPlaneIndependent
    role := config.role
    auth := config.auth
    remoteDiscr := 0
    remoteState := .down
    remoteDemand := false
    remoteMinRx := 1
    remoteDesiredMinTx := 0
    remoteDetectMult := 0
    lastRx := none
    pollSequence := false
    pollStart := none
    xmitAuthSeq := seed
    rcvAuthSeq := 0
    authSeqKnown := false }

def new (config : SessionConfig) (seed : UInt32) : Except BfdError Session := do
  config.validate
  .ok (fresh config seed)

theorem eq_fresh_of_new {config : SessionConfig} {seed : UInt32} {s : Session}
    (h : new config seed = .ok s) : s = fresh config seed := by
  unfold new at h
  cases hvalid : config.validate with
  | error e =>
    rw [hvalid] at h
    cases h
  | ok u =>
    rw [hvalid] at h
    cases h
    rfl

/-! ## Administrative calls -/

def adminDown (s : Session) : Session :=
  { s with sessionState := .adminDown, localDiag := .administrativelyDown }

def adminUp (s : Session) : Session :=
  if s.sessionState = .adminDown then { s with sessionState := .down, localDiag := .none } else s

def startPoll (s : Session) (now : Instant) : Session :=
  { s with pollSequence := true, pollStart := some now }

/-! ## Transmission -/

def effectiveDesiredMinTx (s : Session) : UInt32 :=
  if s.sessionState = .up then s.desiredMinTx else max s.desiredMinTx 1000000

def remoteDemandActive (s : Session) : Bool :=
  s.remoteDemand && s.sessionState = .up && s.remoteState = .up

def advanceSeq (s : Session) : Session :=
  match s.auth with
  | some cfg =>
    if cfg.authType.isKeyed then { s with xmitAuthSeq := s.xmitAuthSeq + 1 } else s
  | none => s

theorem advanceSeq_eq (s : Session) :
    s.advanceSeq = { s with xmitAuthSeq := s.advanceSeq.xmitAuthSeq } := by
  unfold advanceSeq
  repeat' split
  all_goals rfl

@[simp] theorem advanceSeq_sessionState (s : Session) :
    s.advanceSeq.sessionState = s.sessionState := by
  rw [advanceSeq_eq]

@[simp] theorem advanceSeq_remoteDiscr (s : Session) :
    s.advanceSeq.remoteDiscr = s.remoteDiscr := by
  rw [advanceSeq_eq]

def authSection (s : Session) (cfg : AuthConfig) : AuthSection :=
  { authType := cfg.authType
    keyId := cfg.keyId
    sequenceNumber := if cfg.authType.isKeyed then s.xmitAuthSeq else 0
    data := if cfg.authType = .simplePassword then cfg.key else [] }

def buildPacket (s : Session) (poll finalBit : Bool) : ControlPacket × Session :=
  let dBit := s.demandMode && s.sessionState = .up && s.remoteState = .up
  let s := s.advanceSeq
  let auth := s.auth.map s.authSection
  ({ version := bfdVersion
     diagnostic := s.localDiag
     state := s.sessionState
     poll := poll
     finalBit := finalBit
     controlPlaneIndependent := s.cpi
     authPresent := auth.isSome
     demand := dBit
     multipoint := false
     detectMult := s.detectMult
     myDiscriminator := s.localDiscr
     yourDiscriminator := s.remoteDiscr
     desiredMinTxInterval := s.effectiveDesiredMinTx
     requiredMinRxInterval := s.requiredMinRx
     requiredMinEchoRxInterval := 0
     auth := auth }, s)

def shouldSendPeriodic (s : Session) : Bool :=
  if s.role = .passive ∧ s.remoteDiscr = 0 then false
  else if s.remoteMinRx = 0 then false
  else if s.remoteDemandActive && !s.pollSequence then false
  else true

def nextPeriodicPacket (s : Session) : Option ControlPacket × Session :=
  if s.shouldSendPeriodic then
    (some (s.buildPacket s.pollSequence false).1, (s.buildPacket s.pollSequence false).2)
  else (none, s)

/-! ## Timers -/

def detectionTime (s : Session) : ℕ :=
  if s.remoteDemandActive then
    (max s.effectiveDesiredMinTx s.remoteMinRx).toNat * s.detectMult.toNat * 1000
  else (max s.requiredMinRx s.remoteDesiredMinTx).toNat * s.remoteDetectMult.toNat * 1000

def declareDown (s : Session) (diag : Diagnostic) : Session :=
  { s with sessionState := .down, localDiag := diag, remoteDiscr := 0 }

def expired (s : Session) (start : Option Instant) (now : Instant) : Bool :=
  match start with
  | some t => s.detectionTime ≤ now - t
  | none => false

def checkTimeout (s : Session) (now : Instant) : Bool × Session :=
  if s.remoteDemandActive then
    if s.pollSequence && s.expired s.pollStart now then
      (true, { s.declareDown .controlDetectionTimeExpired with
        pollSequence := false, pollStart := none })
    else (false, s)
  else if (s.sessionState = .init || s.sessionState = .up) && s.expired s.lastRx now then
    (true, s.declareDown .controlDetectionTimeExpired)
  else (false, s)

/-! ## Reception -/

def learn (s : Session) (pkt : ControlPacket) : Session :=
  let s := { s with
    remoteDiscr := pkt.myDiscriminator
    remoteState := pkt.state
    remoteDemand := pkt.demand
    remoteMinRx := pkt.requiredMinRxInterval
    remoteDesiredMinTx := pkt.desiredMinTxInterval
    remoteDetectMult := pkt.detectMult }
  if pkt.finalBit && s.pollSequence then { s with pollSequence := false, pollStart := none } else s

theorem learn_eq (s : Session) (pkt : ControlPacket) : s.learn pkt = { s with
      remoteDiscr := pkt.myDiscriminator
      remoteState := pkt.state
      remoteDemand := pkt.demand
      remoteMinRx := pkt.requiredMinRxInterval
      remoteDesiredMinTx := pkt.desiredMinTxInterval
      remoteDetectMult := pkt.detectMult
      pollSequence := (s.learn pkt).pollSequence
      pollStart := (s.learn pkt).pollStart } := by
  simp only [learn]
  split <;> rfl

@[simp] theorem learn_sessionState (s : Session) (pkt : ControlPacket) :
    (s.learn pkt).sessionState = s.sessionState := by
  rw [learn_eq]

def transition (s : Session) (remote : SessionState) : Session :=
  if remote = .adminDown then
    if s.sessionState ≠ .down then
      { s with localDiag := .neighborSignaledSessionDown, sessionState := .down }
    else s
  else if s.sessionState = .down then
    if remote = .down then { s with sessionState := .init }
    else if remote = .init then { s with sessionState := .up }
    else s
  else if s.sessionState = .init then
    if remote = .init ∨ remote = .up then { s with sessionState := .up } else s
  else
    if remote = .down then
      { s with localDiag := .neighborSignaledSessionDown, sessionState := .down }
    else s

theorem transition_eq (s : Session) (remote : SessionState) : s.transition remote = { s with
      sessionState := (s.transition remote).sessionState
      localDiag := (s.transition remote).localDiag } := by
  unfold transition
  repeat' split
  all_goals rfl

def accept (s : Session) (pkt : ControlPacket) (now : Instant) : Option ControlPacket × Session :=
  let s := s.learn pkt
  if s.sessionState = .adminDown then (none, { s with lastRx := some now })
  else
    let s := s.transition pkt.state
    if pkt.poll then
      (some (s.buildPacket false true).1, { (s.buildPacket false true).2 with lastRx := some now })
    else (none, { s with lastRx := some now })

def processPacket (s : Session) (pkt : ControlPacket) (now : Instant) : PacketResult × Session :=
  if pkt.version ≠ bfdVersion then (.discarded, s)
  else if pkt.detectMult = 0 then (.discarded, s)
  else if pkt.multipoint then (.discarded, s)
  else if pkt.myDiscriminator = 0 then (.discarded, s)
  else if pkt.yourDiscriminator ≠ 0 ∧ pkt.yourDiscriminator ≠ s.localDiscr then (.discarded, s)
  else if pkt.yourDiscriminator = 0 ∧ pkt.state ≠ .down ∧ pkt.state ≠ .adminDown then
    (.discarded, s)
  else (.accepted (s.accept pkt now).1, (s.accept pkt now).2)

/-! ## Authentication -/

section Authentication

variable (sha1 : Bytes → FixedBytes 20)

def digestOff : ℕ := 24 + 8

def encodePacket (s : Session) (pkt : ControlPacket) : Option Bytes :=
  match s.auth with
  | none => some pkt.toBytes
  | some cfg =>
    if cfg.authType.isKeyed then do
      let buf ← patch pkt.toBytes digestOff (padTo cfg.authType.digestLen cfg.key).val
      patch buf digestOff (sha1 buf).val
    else some pkt.toBytes

def replays (s : Session) (authType : AuthType) (seq : UInt32) : Bool :=
  s.authSeqKnown &&
    if authType = .meticulousKeyedSha1 then seq ≠ s.rcvAuthSeq + 1 else seq < s.rcvAuthSeq

def hear (s : Session) (seq : UInt32) : Session :=
  { s with rcvAuthSeq := seq, authSeqKnown := true }

def checkSeq (s : Session) (authType : AuthType) (seq : UInt32) :
    Except (Fault BfdError) Bool × Session :=
  if s.replays authType seq then (.error (.error .authSeqReplay), s)
  else (.ok true, s.hear seq)

def verifyAuth (s : Session) (pkt : ControlPacket) (raw : Bytes) :
    Except (Fault BfdError) Bool × Session :=
  match s.auth, pkt.auth with
  | some cfg, some authSection =>
    if authSection.authType ≠ cfg.authType then (.ok false, s)
    else if authSection.authType = .simplePassword then (.ok (authSection.data == cfg.key), s)
    else if authSection.authType.isKeyed then
      let digestLen := cfg.authType.digestLen
      if raw.length < digestOff + digestLen then (.ok false, s)
      else
        match patch raw digestOff (padTo digestLen cfg.key).val with
        | none => (.error .panic, s)
        | some buf =>
          if (sha1 buf).val ≠
              authSection.data.take (min digestLen authSection.data.length) then
            (.ok false, s)
          else s.checkSeq cfg.authType authSection.sequenceNumber
    else (.error (.error (.unsupportedAuth authSection.authType.asU8)), s)
  | _, _ => (.error .panic, s)

def authenticate (s : Session) (buf : Bytes) :
    Except (Fault BfdError) (Option ControlPacket) × Session :=
  match ControlPacket.fromBytes buf with
  | .error _ => (.ok none, s)
  | .ok pkt =>
    if pkt.authPresent ≠ s.auth.isSome then (.ok none, s)
    else if pkt.authPresent then
      match s.verifyAuth sha1 pkt buf with
      | (.ok verified, s) => (.ok (if verified then some pkt else none), s)
      | (.error e, s) => (.error e, s)
    else (.ok (some pkt), s)

def SameButRcv (s s' : Session) : Prop :=
  s' = { s with rcvAuthSeq := s'.rcvAuthSeq, authSeqKnown := s'.authSeqKnown }

theorem SameButRcv.remoteDiscr {s s' : Session} (h : s.SameButRcv s') :
    s'.remoteDiscr = s.remoteDiscr := by
  rw [h]

theorem SameButRcv.sessionState {s s' : Session} (h : s.SameButRcv s') :
    s'.sessionState = s.sessionState := by
  rw [h]

theorem sameButRcv_checkSeq (s : Session) (authType : AuthType) (seq : UInt32) :
    s.SameButRcv (s.checkSeq authType seq).2 := by
  unfold checkSeq
  split <;> rfl

theorem sameButRcv_verifyAuth (s : Session) (pkt : ControlPacket) (raw : Bytes) :
    s.SameButRcv (s.verifyAuth sha1 pkt raw).2 := by
  simp only [verifyAuth]
  repeat' split
  any_goals rfl
  exact s.sameButRcv_checkSeq _ _

theorem sameButRcv_authenticate (s : Session) (buf : Bytes) :
    s.SameButRcv (s.authenticate sha1 buf).2 := by
  unfold authenticate
  split
  · rfl
  · rename_i pkt hread
    have hverify := s.sameButRcv_verifyAuth sha1 pkt buf
    generalize s.verifyAuth sha1 pkt buf = verdict at hverify ⊢
    obtain ⟨r, s'⟩ := verdict
    split
    · rfl
    · split
      · cases r <;> exact hverify
      · rfl

def receiveBytes (s : Session) (buf : Bytes) (now : Instant) :
    Except (Fault BfdError) PacketResult × Session :=
  match s.authenticate sha1 buf with
  | (.ok (some pkt), s) => (.ok (s.processPacket pkt now).1, (s.processPacket pkt now).2)
  | (.ok none, s) => (.ok .discarded, s)
  | (.error e, s) => (.error e, s)

def processBytes (s : Session) (buf : Bytes) (now : Instant) :
    Except (Fault BfdError) (Option ControlPacket) × Session :=
  match s.receiveBytes sha1 buf now with
  | (.ok .discarded, s) => (.ok none, s)
  | (.ok (.accepted respond), s) => (.ok respond, s)
  | (.error e, s) => (.error e, s)

inductive Call where
  | adminDown
  | adminUp
  | startPoll (now : Instant)
  | checkTimeout (now : Instant)
  | nextPeriodicPacket

def call (s : Session) : Call → List ControlPacket × Session
  | .adminDown => ([], s.adminDown)
  | .adminUp => ([], s.adminUp)
  | .startPoll now => ([], s.startPoll now)
  | .checkTimeout now => ([], (s.checkTimeout now).2)
  | .nextPeriodicPacket => (s.nextPeriodicPacket.1.toList, s.nextPeriodicPacket.2)

end Authentication

end Session

end TptRfc.Bfd
