import TptRfc.Lib.Parser
import TptRfc.Lib.Text

/-!
# SSH: the session channel of the server

The messages of `connection.rs` and of `run_server_session`.
-/

namespace TptRfc.Ssh

open Lib Parser List Option

/-! ## Messages -/

inductive ChannelError where
  | unexpectedEof
  | invalidBoolean (b : UInt8)
  | unsupportedChannelType
  | badUtf8
  | unexpectedMessage (code : UInt8)

inductive ChannelMessage where
  | openSession (sender window maxPacket : UInt32)
  | openConfirm (recipient sender window maxPacket : UInt32)
  | openFailure (recipient reason : UInt32) (desc : List Char)
  | windowAdjust (recipient bytes : UInt32)
  | data (recipient : UInt32) (data : Bytes)
  | extendedData (recipient dataType : UInt32) (data : Bytes)
  | eof (recipient : UInt32)
  | close (recipient : UInt32)
  | request (recipient : UInt32) (kind : List Char) (wantReply : Bool)
      (command subsystem : Option (List Char)) (exitStatus : Option UInt32)
  | success (recipient : UInt32)
  | failure (recipient : UInt32)
  deriving DecidableEq

abbrev Read (α : Type) := Parser ChannelError α

def readU32 : Read UInt32 := takeU32 .unexpectedEof

def readString : Read Bytes := do
  let len ← readU32
  takeBytes .unexpectedEof len.toNat

def readBool : Read Bool := do
  let b ← takeU8 .unexpectedEof
  if b = 0 then pure false
  else if b = 1 then pure true
  else lift (.error (.invalidBoolean b))

def readText : Read (List Char) := do
  let bytes ← readString
  match Text.decode bytes with
  | some text => pure text
  | none => lift (.error .badUtf8)

def readRequest : Read ChannelMessage := do
  let recipient ← readU32
  let kind ← readText
  let wantReply ← readBool
  if kind = "exec".toList ∨ kind = "shell".toList then do
    let command ← readText
    pure (.request recipient kind wantReply (some command) none none)
  else if kind = "subsystem".toList then do
    let subsystem ← readText
    pure (.request recipient kind wantReply none (some subsystem) none)
  else if kind = "exit-status".toList then do
    let code ← readU32
    pure (.request recipient kind wantReply none none (some code))
  else pure (.request recipient kind wantReply none none none)

def readMessage (code : UInt8) : Read ChannelMessage :=
  if code = 90 then do
    let chanType ← readString
    let sender ← readU32
    let window ← readU32
    let maxPacket ← readU32
    if chanType ≠ Text.encode "session".toList then lift (.error .unsupportedChannelType)
    else pure (.openSession sender window maxPacket)
  else if code = 91 then do
    let recipient ← readU32
    let sender ← readU32
    let window ← readU32
    let maxPacket ← readU32
    pure (.openConfirm recipient sender window maxPacket)
  else if code = 92 then do
    let recipient ← readU32
    let reason ← readU32
    let desc ← readText
    pure (.openFailure recipient reason desc)
  else if code = 93 then do
    let recipient ← readU32
    let bytes ← readU32
    pure (.windowAdjust recipient bytes)
  else if code = 94 then do
    let recipient ← readU32
    let data ← readString
    pure (.data recipient data)
  else if code = 95 then do
    let recipient ← readU32
    let dataType ← readU32
    let data ← readString
    pure (.extendedData recipient dataType data)
  else if code = 96 then do
    let recipient ← readU32
    pure (.eof recipient)
  else if code = 97 then do
    let recipient ← readU32
    pure (.close recipient)
  else if code = 98 then readRequest
  else if code = 99 then do
    let recipient ← readU32
    pure (.success recipient)
  else if code = 100 then do
    let recipient ← readU32
    pure (.failure recipient)
  else lift (.error (.unexpectedMessage code))

def parseChannelMessage (payload : Bytes) : Except ChannelError ChannelMessage :=
  run (do
    let code ← takeU8 .unexpectedEof
    readMessage code) payload

def writeString (bytes : Bytes) : Bytes := u32Bytes (UInt32.ofNat bytes.length) ++ bytes

def writeBool (b : Bool) : Bytes := [if b then 1 else 0]

def encodeOpenSession (sender window maxPacket : UInt32) : Bytes :=
  [90] ++ (writeString (Text.encode "session".toList) ++
    (u32Bytes sender ++ (u32Bytes window ++ u32Bytes maxPacket)))

def encodeRequestExec (recipient : UInt32) (command : List Char) (wantReply : Bool) : Bytes :=
  [98] ++ (u32Bytes recipient ++ (writeString (Text.encode "exec".toList) ++
    (writeBool wantReply ++ writeString (Text.encode command))))

/-! ## The server -/

structure CommandOutput where
  stdout : Bytes
  exitStatus : UInt32

inductive ServerMessage where
  | openConfirm (recipient sender window maxPacket : UInt32)
  | data (recipient : UInt32) (data : Bytes)
  | exitStatus (recipient code : UInt32)
  | success (recipient : UInt32)
  | eof (recipient : UInt32)
  | close (recipient : UInt32)
  deriving DecidableEq

/-- `encode_open_confirm`, `encode_channel_data`, `encode_request_exit_status`,
`encode_channel_success`, `encode_channel_eof` and `encode_channel_close`. -/
def ServerMessage.encode : ServerMessage → Bytes
  | .openConfirm recipient sender window maxPacket =>
    [91] ++ (u32Bytes recipient ++ (u32Bytes sender ++ (u32Bytes window ++ u32Bytes maxPacket)))
  | .data recipient d => [94] ++ (u32Bytes recipient ++ writeString d)
  | .exitStatus recipient code =>
    [98] ++ (u32Bytes recipient ++ (writeString (Text.encode "exit-status".toList) ++
      (writeBool false ++ u32Bytes code)))
  | .success recipient => [99] ++ u32Bytes recipient
  | .eof recipient => [96] ++ u32Bytes recipient
  | .close recipient => [97] ++ u32Bytes recipient

def ServerMessage.view : ServerMessage → ChannelMessage
  | .openConfirm recipient sender window maxPacket =>
    .openConfirm recipient sender window maxPacket
  | .data recipient d => .data recipient d
  | .exitStatus recipient code =>
    .request recipient "exit-status".toList false none none (some code)
  | .success recipient => .success recipient
  | .eof recipient => .eof recipient
  | .close recipient => .close recipient

def defaultWindow : UInt32 := 1048576

def defaultMaxPacket : UInt32 := 32768

def ChannelMessage.exec? : ChannelMessage → Option (UInt32 × List Char)
  | .request recipient kind _ command _ _ =>
    if kind = "exec".toList then some (recipient, command.getD []) else none
  | _ => none

def ChannelMessage.wantReply : ChannelMessage → Bool
  | .request _ _ wantReply _ _ _ => wantReply
  | _ => false

def commandMessages (out : CommandOutput) (recipient : UInt32) (wantReply : Bool) :
    List ServerMessage :=
  .data recipient out.stdout :: .exitStatus recipient out.exitStatus ::
    ((if wantReply then [.success recipient] else []) ++ [.eof recipient, .close recipient])

def otherMessages (sentClose : Bool) : ChannelMessage → List ServerMessage
  | .openSession sender _ _ => [.openConfirm sender 0 defaultWindow defaultMaxPacket]
  | .close recipient => if sentClose then [] else [.close recipient]
  | _ => []

inductive End where
  | closed
  | failed (e : ChannelError)
  | waiting

abbrev Trace := List (ChannelMessage × List ServerMessage)

variable (handler : List Char → CommandOutput)

def runServerSession : Bool → List Bytes → Trace × End
  | _, [] => ([], .waiting)
  | sentClose, payload :: payloads =>
    match parseChannelMessage payload with
    | .error e => ([], .failed e)
    | .ok msg =>
      match msg.exec? with
      | some (recipient, command) =>
        let (trace, last) := runServerSession true payloads
        ((msg, commandMessages (handler command) recipient msg.wantReply) :: trace, last)
      | none =>
        match msg with
        | .close _ => ([(msg, otherMessages sentClose msg)], .closed)
        | _ =>
          let (trace, last) := runServerSession sentClose payloads
          ((msg, otherMessages sentClose msg) :: trace, last)

/-! ## Discipline -/

def ServerMessage.recipient? : ServerMessage → Option UInt32
  | .openConfirm _ _ _ _ => none
  | .data r _ => some r
  | .exitStatus r _ => some r
  | .success r => some r
  | .eof r => some r
  | .close r => some r

def dataLength (messages : List ServerMessage) : ℕ :=
  (messages.map fun
    | .data _ d => d.length
    | _ => 0).sum

def adjusted (trace : Trace) : ℕ :=
  (trace.map fun
    | (.windowAdjust _ bytes, _) => bytes.toNat
    | _ => 0).sum

structure Disciplined (c w m : UInt32) (trace : Trace) : Prop where
  recipients : ∀ step ∈ trace, ∀ msg ∈ step.2, ∀ r, msg.recipient? = some r → r = c
  packets : ∀ step ∈ trace, ∀ r d, .data r d ∈ step.2 → d.length ≤ m.toNat
  window : ∀ pre, pre <+: trace → (pre.map fun step => dataLength step.2).sum ≤
    w.toNat + adjusted pre
  output : ∀ step ∈ trace, ∀ r command, step.1.exec? = some (r, command) →
    .data c (handler command).stdout ∈ step.2 ∧ .exitStatus c (handler command).exitStatus ∈ step.2

def outputLength (msg : ChannelMessage) : ℕ :=
  match msg.exec? with
  | some (_, command) => (handler command).stdout.length
  | none => 0

/-- The requests of the client are sent to its own number, and outputs are short: none is longer
than a packet, and all of them together never exceed the window. -/
structure Modest (c w m : UInt32) (trace : Trace) : Prop where
  requests : ∀ step ∈ trace, ∀ r command, step.1.exec? = some (r, command) →
    r = c ∧ (handler command).stdout.length ≤ m.toNat
  close : ∀ step ∈ trace, ∀ r, step.1 = .close r → (∀ other ∈ trace, other.1.exec? = none) → r = c
  window : ∀ pre, pre <+: trace → (pre.map fun step => outputLength handler step.1).sum ≤
    w.toNat + adjusted pre

variable {handler}

theorem step_cases {sentClose : Bool} {payloads : List Bytes}
    {step : ChannelMessage × List ServerMessage}
    (h : step ∈ (runServerSession handler sentClose payloads).1) :
    (∃ r command, step.1.exec? = some (r, command) ∧
      step.2 = commandMessages (handler command) r step.1.wantReply) ∨
    (step.1.exec? = none ∧ ∃ before, step.2 = otherMessages before step.1 ∧
      (before = true → sentClose = true ∨
        ∃ other ∈ (runServerSession handler sentClose payloads).1, other.1.exec? ≠ none) ∧
      ((∃ r, step.1 = .close r) → before = false → sentClose = false ∧
        ∀ other ∈ (runServerSession handler sentClose payloads).1, other.1.exec? = none)) := by
  induction payloads generalizing sentClose with
  | nil => cases h
  | cons payload payloads ih =>
    rw [runServerSession] at h ⊢
    cases hparse : parseChannelMessage payload with
    | error e =>
      rw [hparse] at h
      cases h
    | ok msg =>
      rw [hparse] at h
      dsimp only at h ⊢
      cases hexec : msg.exec? with
      | some found =>
        obtain ⟨recipient, command⟩ := found
        rw [hexec] at h
        dsimp only at h ⊢
        rcases mem_cons.mp h with rfl | h
        · exact .inl ⟨recipient, command, hexec, rfl⟩
        · rcases ih h with hleft | ⟨hnone, before, hsent, hbefore, hclose⟩
          · exact .inl hleft
          · refine .inr ⟨hnone, before, hsent, fun _ => .inr ⟨_, mem_cons_self, ?_⟩, ?_⟩
            · rw [hexec]
              exact nofun
            · intro hisClose hfalse
              exact absurd (hclose hisClose hfalse).1 nofun
      | none =>
        rw [hexec] at h
        dsimp only at h ⊢
        split at h
        · obtain rfl := mem_singleton.mp h
          refine .inr ⟨hexec, sentClose, rfl, .inl, fun _ hfalse => ⟨hfalse, ?_⟩⟩
          intro other hother
          obtain rfl := mem_singleton.mp hother
          exact hexec
        · rename_i hnotClose
          rcases mem_cons.mp h with rfl | h
          · refine .inr ⟨hexec, sentClose, rfl, .inl, ?_⟩
            rintro ⟨r, hr⟩
            exact absurd hr (hnotClose r)
          · rcases ih h with hleft | ⟨hnone, before, hsent, hbefore, hclose⟩
            · exact .inl hleft
            · refine .inr ⟨hnone, before, hsent, fun htrue => ?_, fun hisClose hfalse => ?_⟩
              · rcases hbefore htrue with hyes | ⟨other, hother, hne⟩
                · exact .inl hyes
                · exact .inr ⟨other, mem_cons_of_mem _ hother, hne⟩
              · obtain ⟨hno, hall⟩ := hclose hisClose hfalse
                refine ⟨hno, fun other hother => ?_⟩
                rcases mem_cons.mp hother with rfl | hother
                · exact hexec
                · exact hall other hother

/-! ### What one step sends -/

variable {out : CommandOutput} {r r' : UInt32} {wantReply : Bool} {msg : ServerMessage}

@[simp]
theorem data_mem_commandMessages {d : Bytes} :
    .data r d ∈ commandMessages out r' wantReply ↔ r = r' ∧ d = out.stdout := by
  cases wantReply <;> simp [commandMessages]

@[simp]
theorem exitStatus_mem_commandMessages {code : UInt32} :
    .exitStatus r code ∈ commandMessages out r' wantReply ↔ r = r' ∧ code = out.exitStatus := by
  cases wantReply <;> simp [commandMessages]

theorem recipient_of_mem_commandMessages (h : msg ∈ commandMessages out r wantReply) :
    msg.recipient? = some r := by
  cases wantReply
  all_goals
    simp only [commandMessages, Bool.false_eq_true, if_true, if_false, nil_append,
      cons_append, mem_cons, not_mem_nil, or_false] at h
    rcases h with rfl | rfl | rfl | rfl | rfl <;> rfl

theorem data_notMem_otherMessages (before : Bool) (msg : ChannelMessage) (r : UInt32)
    (d : Bytes) : .data r d ∉ otherMessages before msg := by
  cases msg <;> cases before <;> simp [otherMessages]

theorem recipient_of_mem_otherMessages {before : Bool} {msg : ChannelMessage}
    {sent : ServerMessage} (h : sent ∈ otherMessages before msg)
    (hr : sent.recipient? = some r) : before = false ∧ msg = .close r := by
  cases msg with
  | openSession sender window maxPacket =>
    obtain rfl := mem_singleton.mp h
    cases hr
  | close recipient =>
    cases before with
    | true => cases h
    | false =>
      obtain rfl := mem_singleton.mp h
      exact ⟨rfl, congrArg ChannelMessage.close (some.inj hr)⟩
  | _ => cases h

@[simp]
theorem dataLength_commandMessages (out : CommandOutput) (r : UInt32) (wantReply : Bool) :
    dataLength (commandMessages out r wantReply) = out.stdout.length := by
  cases wantReply <;> simp [commandMessages, dataLength]

@[simp]
theorem dataLength_otherMessages (before : Bool) (msg : ChannelMessage) :
    dataLength (otherMessages before msg) = 0 := by
  cases msg <;> cases before <;> simp [otherMessages, dataLength]

/-! ### What is read back -/

theorem decodes_readU32 (v : UInt32) : Decodes readU32 (u32Bytes v) v := decodes_takeU32 _ v

theorem decodes_readString {bytes : Bytes} (h : bytes.length < 2 ^ 32) :
    Decodes readString (writeString bytes) bytes := by
  refine (decodes_readU32 _).bind ?_
  rw [UInt32.toNat_ofNat_of_lt' h]
  exact decodes_takeBytes _ bytes

theorem decodes_readText {text : List Char} (h : (Text.encode text).length < 2 ^ 32) :
    Decodes readText (writeString (Text.encode text)) text := by
  refine (decodes_readString h).bind_nil ?_
  rw [Text.decode_encode]
  exact Decodes.pure text

theorem decodes_readBool (b : Bool) : Decodes readBool (writeBool b) b := by
  refine (decodes_takeU8 _ _).bind_nil ?_
  cases b <;> exact Decodes.pure _

theorem parse_of_decodes {code : UInt8} {body : Bytes} {msg : ChannelMessage}
    (h : Decodes (readMessage code) body msg) : parseChannelMessage ([code] ++ body) = .ok msg :=
  run_of_ok ((decodes_takeU8 _ code).bind h).run_nil

theorem parse_encodeOpenSession (sender window maxPacket : UInt32) :
    parseChannelMessage (encodeOpenSession sender window maxPacket) =
      .ok (.openSession sender window maxPacket) := by
  refine parse_of_decodes ((decodes_readString (by decide)).bind ?_)
  refine (decodes_readU32 sender).bind ((decodes_readU32 window).bind ?_)
  refine (decodes_readU32 maxPacket).bind_nil ?_
  rw [if_neg (not_not_intro rfl)]
  exact Decodes.pure _

theorem parse_encode (h : ∀ r d, msg = .data r d → d.length < 2 ^ 32) :
    parseChannelMessage msg.encode = .ok msg.view := by
  cases msg with
  | openConfirm recipient sender window maxPacket =>
    refine parse_of_decodes ((decodes_readU32 recipient).bind ((decodes_readU32 sender).bind ?_))
    exact (decodes_readU32 window).bind ((decodes_readU32 maxPacket).bind_pure _)
  | data recipient data =>
    have hlen := h recipient data rfl
    exact parse_of_decodes ((decodes_readU32 recipient).bind
      ((decodes_readString hlen).bind_pure _))
  | exitStatus recipient code =>
    refine parse_of_decodes ((decodes_readU32 recipient).bind ?_)
    refine (decodes_readText (by decide)).bind ((decodes_readBool false).bind ?_)
    exact (decodes_readU32 code).bind_pure _
  | success recipient => exact parse_of_decodes ((decodes_readU32 recipient).bind_pure _)
  | eof recipient => exact parse_of_decodes ((decodes_readU32 recipient).bind_pure _)
  | close recipient => exact parse_of_decodes ((decodes_readU32 recipient).bind_pure _)

section Session

variable {payloads : List Bytes}

variable {step : ChannelMessage × List ServerMessage}

theorem dataLength_eq_outputLength (h : step ∈ (runServerSession handler false payloads).1) :
    dataLength step.2 = outputLength handler step.1 := by
  rcases step_cases h with ⟨r, command, hexec, hsent⟩ | ⟨hexec, before, hsent, -⟩
  · rw [hsent, dataLength_commandMessages, outputLength, hexec]
  · rw [hsent, dataLength_otherMessages, outputLength, hexec]

theorem sum_dataLength {pre : Trace} (h : pre <+: (runServerSession handler false payloads).1) :
    (pre.map fun step => dataLength step.2).sum =
      (pre.map fun step => outputLength handler step.1).sum := by
  congr 1
  exact map_congr_left fun step hstep =>
    dataLength_eq_outputLength (h.subset hstep)

variable {c w m : UInt32}

theorem Disciplined.modest
    (h : Disciplined handler c w m (runServerSession handler false payloads).1) :
    Modest handler c w m (runServerSession handler false payloads).1 where
  requests := by
    intro step hstep r command hexec
    rcases step_cases hstep with ⟨r', command', hexec', hsent⟩ | ⟨hnone, -⟩
    · rw [hexec] at hexec'
      obtain ⟨rfl, rfl⟩ := Prod.mk.inj (some.inj hexec')
      have hdata : .data r (handler command).stdout ∈ step.2 := by
        rw [hsent]
        exact data_mem_commandMessages.mpr ⟨rfl, rfl⟩
      exact ⟨h.recipients step hstep _ hdata r rfl, h.packets step hstep r _ hdata⟩
    · rw [hexec] at hnone
      cases hnone
  close := by
    intro step hstep r hclose hquiet
    rcases step_cases hstep with ⟨r', command', hexec', -⟩ | ⟨-, before, hsent, hbefore, -⟩
    · rw [hquiet step hstep] at hexec'
      cases hexec'
    · -- No command was run, so the server has not closed the channel before.
      have hfalse : before = false := by
        cases before with
        | false => rfl
        | true =>
          rcases hbefore rfl with hno | ⟨other, hother, hne⟩
          · cases hno
          · exact absurd (hquiet other hother) hne
      refine h.recipients step hstep (.close r) ?_ r rfl
      rw [hsent, hclose, hfalse]
      exact mem_singleton_self _
  window := by
    intro pre hpre
    rw [← sum_dataLength hpre]
    exact h.window pre hpre

theorem Modest.disciplined (h : Modest handler c w m (runServerSession handler false payloads).1) :
    Disciplined handler c w m (runServerSession handler false payloads).1 where
  recipients := by
    intro step hstep msg hmsg r hr
    rcases step_cases hstep with ⟨r', command, hexec, hsent⟩ | ⟨-, before, hsent, -, hclose⟩
    · rw [hsent] at hmsg
      rw [recipient_of_mem_commandMessages hmsg] at hr
      obtain rfl := some.inj hr
      exact (h.requests step hstep r' command hexec).1
    · rw [hsent] at hmsg
      obtain ⟨hbefore, hstepClose⟩ := recipient_of_mem_otherMessages hmsg hr
      exact h.close step hstep r hstepClose (hclose ⟨r, hstepClose⟩ hbefore).2
  packets := by
    intro step hstep r d hdata
    rcases step_cases hstep with ⟨r', command, hexec, hsent⟩ | ⟨-, before, hsent, -⟩
    · rw [hsent] at hdata
      obtain ⟨-, rfl⟩ := data_mem_commandMessages.mp hdata
      exact (h.requests step hstep r' command hexec).2
    · rw [hsent] at hdata
      exact absurd hdata (data_notMem_otherMessages before step.1 r d)
  window := by
    intro pre hpre
    rw [sum_dataLength hpre]
    exact h.window pre hpre
  output := by
    intro step hstep r command hexec
    obtain ⟨rfl, -⟩ := h.requests step hstep r command hexec
    rcases step_cases hstep with ⟨r', command', hexec', hsent⟩ | ⟨hnone, -⟩
    · rw [hexec] at hexec'
      obtain ⟨rfl, rfl⟩ := Prod.mk.inj (some.inj hexec')
      rw [hsent]
      exact ⟨data_mem_commandMessages.mpr ⟨rfl, rfl⟩, exitStatus_mem_commandMessages.mpr ⟨rfl, rfl⟩⟩
    · rw [hexec] at hnone
      cases hnone

theorem Disciplined.parse_encode {trace : Trace} (h : Disciplined handler c w m trace)
    (hstep : step ∈ trace) {msg : ServerMessage}
    (hmsg : msg ∈ step.2) : parseChannelMessage msg.encode = .ok msg.view := by
  refine Ssh.parse_encode fun r d hdata => ?_
  subst hdata
  exact (h.packets step hstep r d hmsg).trans_lt m.toNat_lt

end Session

/-- A client opens a channel with the number `c`, the window `w` and the maximum packet size `m`,
and sends any messages after that. -/
theorem disciplined_iff (handler : List Char → CommandOutput) (c w m : UInt32)
    (payloads : List Bytes) :
    let trace := (runServerSession handler false (encodeOpenSession c w m :: payloads)).1
    trace.head? =
        some (.openSession c w m, [.openConfirm c 0 defaultWindow defaultMaxPacket]) ∧
      (Disciplined handler c w m trace ∧
          (∀ step ∈ trace, ∀ msg ∈ step.2, parseChannelMessage msg.encode = .ok msg.view) ↔
        Modest handler c w m trace) := by
  refine ⟨?_, fun h => h.1.modest, fun h => ?_⟩
  · rw [runServerSession, parse_encodeOpenSession]
    rfl
  · have hdisc := h.disciplined
    exact ⟨hdisc, fun step hstep msg hmsg => hdisc.parse_encode hstep hmsg⟩

/-- A client opens the channel with its number 7 and sends its request to the server's number 0, as
the confirmation tells it to. -/
theorem disciplined_fails :
    let handler : List Char → CommandOutput := fun _ => ⟨[104, 105], 0⟩
    let request := encodeRequestExec 0 "ls".toList true
    let swapped := (runServerSession handler false [encodeOpenSession 7 1024 1024, request]).1
    let flooded := (runServerSession handler false [encodeOpenSession 0 1 1, request]).1
    (swapped.map Prod.snd =
      [[.openConfirm 7 0 defaultWindow defaultMaxPacket],
        [.data 0 [104, 105], .exitStatus 0 0, .success 0, .eof 0, .close 0]] ∧
      ¬ Disciplined handler 7 1024 1024 swapped) ∧
    ¬ Disciplined handler 0 1 1 flooded := by
  refine ⟨⟨by decide +kernel, fun h => ?_⟩, fun h => ?_⟩
  · have hwrong := h.recipients
      (.request 0 "exec".toList true (some "ls".toList) none none,
        commandMessages ⟨[104, 105], 0⟩ 0 true) (by decide +kernel) (.eof 0) (by decide) 0 rfl
    exact absurd hwrong (by decide)
  · have hlong := h.packets
      (.request 0 "exec".toList true (some "ls".toList) none none,
        commandMessages ⟨[104, 105], 0⟩ 0 true) (by decide +kernel) 0 [104, 105] (by decide)
    exact absurd hlong (by decide)

end TptRfc.Ssh
