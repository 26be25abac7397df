import TptRfc.Dtls.Interface

/-!
# DTLS: the phases of a side and what it says in them

An argument about runs of both sides starts with what one side can queue at all.
-/

namespace TptRfc.Dtls

open Lib List Exec

namespace Connection

variable (env : Crypto)

/-! ## What a side can queue -/

def verifyDataOver (c : Connection) (keys : TrafficKeys) (T : Bytes) : Bytes :=
  c.ks.finishedVerifyData env (keys.finishedKey env c.ks) (env.digest c.hash T)

structure Concluded (c : Connection) (m : HandshakeMessage) : Prop where
  connected : c.connected = true
  state : c.state ∈ connectedStates
  finished : ∃ T verifyData keys hs, m.body = .finished verifyData ∧
    c.transcript = T ++ m.encode ∧ c.clientHs = some keys ∧
    c.verifyDataOver env keys T = verifyData ∧ c.handshakeSecret = some hs ∧
    c.clientApp = (c.withAppKeys env hs).clientApp ∧
    c.serverApp = (c.withAppKeys env hs).serverApp

def Short (body : HandshakeBody) : Prop := body.bodyBytes.length < 65000

inductive RecordOk (c : Connection) : Bytes → Prop
  | hello {seq : ℕ} {body : HandshakeBody} {msgSeq : UInt16} (hbody : body.IsHello) :
      RecordOk c (buildCleartext contentHandshake 0 seq (HandshakeMessage.new body msgSeq).encode)
  | handshake {keys : TrafficKeys} {seq : ℕ} {body : HandshakeBody} {msgSeq : UInt16}
      {cid : Option Bytes} {record : Bytes}
      (hbuild : buildProtected env c.suite keys.key keys.iv 1 seq contentApplicationData
        contentHandshake (HandshakeMessage.new body msgSeq).encode cid = .ok record)
      (hclient : c.role = .client → c.clientHs = some keys ∧ Short body ∧
        (body.msgType = .finished → Concluded env c (HandshakeMessage.new body msgSeq))) :
      RecordOk c record
  | data {keys : TrafficKeys} {seq : ℕ} {content : Bytes} {cid : Option Bytes} {record : Bytes}
      (hbuild : buildProtected env c.suite keys.key keys.iv 2 seq contentApplicationData
        contentApplicationData content cid = .ok record) : RecordOk c record

def emitted (c : Connection) : List Bytes := c.out ++ c.pendingFlight.getD []

variable {env} {log : List Bytes} {c c' : Connection} {m : HandshakeMessage}

theorem RecordOk.mono {record : Bytes} (h : RecordOk env c record) (hrole : c'.role = c.role)
    (hsuite : c'.suite = c.suite)
    (hkeys : c.role = .client → ∀ keys, c.clientHs = some keys → c'.clientHs = some keys)
    (hconcluded : ∀ m, Concluded env c m → Concluded env c' m) : RecordOk env c' record := by
  cases h with
  | hello hbody => exact .hello hbody
  | handshake hbuild hclient =>
    refine .handshake (hsuite ▸ hbuild) fun hc' => ?_
    have hc : c.role = .client := hrole ▸ hc'
    obtain ⟨hown, hshort, hfinished⟩ := hclient hc
    exact ⟨hkeys hc _ hown, hshort, fun hbody => hconcluded _ (hfinished hbody)⟩
  | data hbuild => exact .data (hsuite ▸ hbuild)

/-! ## The phases -/

variable (env log)

structure Unfinished (c : Connection) : Prop where
  connected : c.connected = false
  clientApp : c.clientApp = none
  records : ∀ record ∈ log ++ c.emitted, RecordOk env c record

structure ClientGreeting (c : Connection) : Prop extends Unfinished env log c where
  role : c.role = .client
  state : c.state ∈ [State.clientStart, .clientWaitServerHello]
  clientHs : c.clientHs = none
  serverHs : c.serverHs = none

structure ClientKeyed (c : Connection) : Prop extends Unfinished env log c where
  role : c.role = .client
  clientHs : c.clientHs.isSome
  handshakeSecret : c.handshakeSecret.isSome

structure ClientFlight (c : Connection) : Prop extends ClientKeyed env log c where
  state : c.state = .clientWaitServerFlight

structure Serving (c : Connection) : Prop extends Unfinished env log c where
  role : c.role = .server

structure ServingKeyed (c : Connection) : Prop extends Serving env log c where
  clientHs : c.clientHs.isSome

inductive Honest (c : Connection) : Prop
  | greeting (h : ClientGreeting env log c)
  | flight (h : ClientFlight env log c)
  | serving (h : Serving env log c)
  | ended {m : HandshakeMessage} (h : Concluded env c m)
      (hrecords : ∀ record ∈ log ++ c.emitted, RecordOk env c record)

variable {env log}

theorem Unfinished.not_concluded (h : Unfinished env log c) (m : HandshakeMessage) :
    ¬ Concluded env c m := by
  intro hm
  have hc := hm.connected
  rw [h.connected] at hc
  cases hc

theorem Unfinished.frame (h : Unfinished env log c) (hrole : c'.role = c.role)
    (hsuite : c'.suite = c.suite)
    (hkeys : c.role = .client → ∀ keys, c.clientHs = some keys → c'.clientHs = some keys)
    (hconnected : c'.connected = c.connected)
    (happ : c'.clientApp = c.clientApp) (hemitted : c'.emitted ⊆ c.emitted) :
    Unfinished env log c' where
  connected := hconnected.trans h.connected
  clientApp := happ.trans h.clientApp
  records record hrecord := by
    have hbefore : record ∈ log ++ c.emitted := by
      rcases mem_append.mp hrecord with hlog | hnew
      · exact mem_append_left _ hlog
      · exact mem_append_right _ (hemitted hnew)
    exact (h.records record hbefore).mono hrole hsuite hkeys fun m hm =>
      absurd hm (h.not_concluded m)

theorem emitted_arm (c : Connection) (timer : RetransmitTimer) :
    emitted { c with pendingFlight := some c.out, retransmit := timer } ⊆ c.emitted :=
  append_subset.mpr ⟨subset_append_left _ _, subset_append_left _ _⟩

theorem emitted_clear (c : Connection) (timer : RetransmitTimer) :
    emitted { c with pendingFlight := none, retransmit := timer } ⊆ c.emitted :=
  append_subset.mpr ⟨subset_append_left _ _, nil_subset _⟩

theorem sendEpoch_of_not_connected (h : c.connected = false) : c.sendEpoch = c.handshakeEpoch := by
  rw [sendEpoch, h]
  rfl

theorem handshakeEpoch_of_none (h : c.clientHs = none) (h' : c.serverHs = none) :
    c.handshakeEpoch = 0 := by
  simp [handshakeEpoch, h, h']

theorem handshakeEpoch_of_isSome (h : c.clientHs.isSome) : c.handshakeEpoch = 1 := by
  simp [handshakeEpoch, h]

variable {r : Except (Fault DtlsError) Unit} {msg : HandshakeMessage}

theorem clientHs_of_outgoingKeys {keys : TrafficKeys} (hrole : c.role = .client)
    (h : c.outgoingKeys (1 : Fin 3) = .ok keys) : c.clientHs = some keys := by
  rw [outgoingKeys, hrole] at h
  change c.clientHs.elim _ _ = _ at h
  cases hhs : c.clientHs with
  | none => rw [hhs] at h; cases h
  | some keys' => rw [hhs] at h; cases h; rfl

/-- What `sendHandshake` queues before the end of the handshake is in order, if only
hellos are sent in the clear and a client sends only short messages under its keys. -/
theorem Unfinished.sendHandshake {body : HandshakeBody} (hc : Unfinished env log c)
    (h : sendHandshake env body c = (r, c')) (hclear : c.handshakeEpoch = 0 → body.IsHello)
    (hclient : c.role = .client → c.handshakeEpoch ≠ 0 → Short body ∧ body.msgType ≠ .finished) :
    Unfinished env log c' := by
  obtain ⟨e, seq, -, rfl⟩ | ⟨record, -, hemits, rfl⟩ := sendHandshake_cases h
  · exact hc.frame rfl rfl (fun _ _ => id) rfl rfl (List.Subset.refl _)
  rw [sendEpoch_of_not_connected hc.connected] at hemits ⊢
  have hnew : RecordOk env c record := by
    rcases hemits with ⟨hepoch, rfl⟩ | ⟨hepoch, keys, hkeys, hbuild⟩
    · exact .hello (hclear hepoch)
    · have hone : c.handshakeEpoch = 1 := by
        rw [handshakeEpoch] at hepoch ⊢
        split at hepoch
        · rw [if_pos (by assumption)]
        · exact absurd rfl hepoch
      rw [hone] at hbuild hkeys
      refine .handshake hbuild fun hrole => ?_
      obtain ⟨hshort, hbody⟩ := hclient hrole hepoch
      exact ⟨clientHs_of_outgoingKeys hrole hkeys, hshort,
        fun hfinished => absurd hfinished hbody⟩
  refine ⟨hc.connected, hc.clientApp, fun record' hrecord' => ?_⟩
  have hrecord : record' = record ∨ record' ∈ log ++ c.emitted := by
    simp only [emitted, mem_append, mem_singleton] at hrecord' ⊢
    tauto
  have hold : RecordOk env c record' := by
    rcases hrecord with rfl | hrecord
    · exact hnew
    · exact hc.records record' hrecord
  exact hold.mono rfl rfl (fun _ _ => id) fun m hm => absurd hm (hc.not_concluded m)

/-! ## The hellos of a client -/

section Greeting

theorem ClientGreeting.frame (hc : ClientGreeting env log c) (hrole : c'.role = c.role)
    (hsuite : c'.suite = c.suite) (hconnected : c'.connected = c.connected)
    (happ : c'.clientApp = c.clientApp) (hclientHs : c'.clientHs = c.clientHs)
    (hserverHs : c'.serverHs = c.serverHs)
    (hstate : c'.state ∈ [State.clientStart, .clientWaitServerHello])
    (hemitted : c'.emitted ⊆ c.emitted) : ClientGreeting env log c' :=
  ⟨hc.toUnfinished.frame hrole hsuite (fun _ _ h => hclientHs.trans h) hconnected happ hemitted,
    hrole.trans hc.role, hstate,
    hclientHs.trans hc.clientHs, hserverHs.trans hc.serverHs⟩

theorem ClientGreeting.sendClientHello (ch : ClientHello) :
    Keeps (ClientGreeting env log) (sendHandshake env (.clientHello ch)) := by
  refine .of_moves fun c r c' hc h => ?_
  have hclear := handshakeEpoch_of_none hc.clientHs hc.serverHs
  have hnext := hc.toUnfinished.sendHandshake h (fun _ => trivial)
    fun _ hepoch => absurd hclear hepoch
  obtain ⟨seq, counter, transcript, out, rfl⟩ := ((sent_sendHandshake env _).of_eq h).1
  exact ⟨hnext, hc.role, hc.state, hc.clientHs, hc.serverHs⟩

theorem ClientGreeting.setState :
    Keeps (ClientGreeting env log) (setState .clientWaitServerHello) :=
  .modify fun _ hc => hc.frame rfl rfl rfl rfl rfl rfl (by simp) (List.Subset.refl _)

theorem ClientGreeting.extendTranscript (bytes : Bytes) :
    Keeps (ClientGreeting env log) (extendTranscript bytes) :=
  .modify fun _ hc => hc.frame rfl rfl rfl rfl rfl rfl hc.state (List.Subset.refl _)

theorem ClientGreeting.armFlight : Keeps (ClientGreeting env log) armFlight :=
  .modify fun c hc => hc.frame rfl rfl rfl rfl rfl rfl hc.state (emitted_arm c _)

theorem ClientGreeting.start : Keeps (ClientGreeting env log) (start env) := by
  refine .get_bind fun c hc => ?_
  rw [if_pos hc.role]
  exact ClientGreeting.setState.bind fun _ => .lift_bind (fun _ h => h) fun ch _ =>
    (ClientGreeting.sendClientHello ch).bind fun _ => ClientGreeting.armFlight

theorem ClientGreeting.handleHrr (msg : HandshakeMessage) (hrr : ServerHello) :
    Keeps (ClientGreeting env log) (handleHrr env msg hrr) := by
  refine (ClientGreeting.extendTranscript _).bind fun _ => .bind (.modify fun c hc => ?_) fun _ =>
    ClientGreeting.setState.bind fun _ => .get_bind fun _ _ => .lift_bind (fun _ h => h) fun ch _ =>
      (ClientGreeting.sendClientHello ch).bind fun _ => ClientGreeting.armFlight
  exact hc.frame rfl rfl rfl rfl rfl rfl hc.state (List.Subset.refl _)

theorem ClientGreeting.deriveHandshakeSecrets (dhe : FixedBytes 32) :
    Triple (ClientGreeting env log) (deriveHandshakeSecrets env dhe)
      (fun _ => ClientKeyed env log) (ClientGreeting env log) :=
  .modify fun _ hc =>
    ⟨hc.toUnfinished.frame rfl rfl (fun _ _ h => by rw [hc.clientHs] at h; cases h) rfl rfl
      (List.Subset.refl _), hc.role, rfl, rfl⟩

theorem ClientKeyed.setState :
    Triple (ClientKeyed env log) (setState .clientWaitServerFlight)
      (fun _ => ClientFlight env log) (ClientGreeting env log) :=
  .modify fun _ hc => ⟨⟨hc.toUnfinished.frame rfl rfl (fun _ _ => id) rfl rfl
    (List.Subset.refl _), hc.role, hc.clientHs, hc.handshakeSecret⟩, rfl⟩

theorem ClientFlight.clearFlight :
    Triple (ClientFlight env log) clearFlight (fun _ => ClientFlight env log)
      (ClientGreeting env log) :=
  .modify fun c hc => ⟨⟨hc.toUnfinished.frame rfl rfl (fun _ _ => id) rfl rfl
    (emitted_clear c _), hc.role, hc.clientHs, hc.handshakeSecret⟩, hc.state⟩

theorem ClientGreeting.handleServerHello (sh : ServerHello) (msgSeq : UInt16) :
    Triple (ClientGreeting env log) (handleServerHello env sh msgSeq)
      (fun _ => ClientFlight env log) (ClientGreeting env log) := by
  refine .bind (.modify fun c hc => ?_) fun _ => .okOr_bind (fun _ h => h) fun entry _ =>
    .get_bind fun c hc => .okOr_bind (fun _ h => h) fun ks _ =>
      .lift_bind (fun _ h => h) fun dhe _ => .bind (.modify fun c hc => ?_) fun _ =>
        (ClientGreeting.extendTranscript _).bind fun _ =>
          (ClientGreeting.deriveHandshakeSecrets dhe).bind fun _ =>
            ClientKeyed.setState.bind fun _ => ClientFlight.clearFlight
  · exact hc.frame rfl rfl rfl rfl rfl rfl hc.state (List.Subset.refl _)
  · exact hc.frame rfl rfl rfl rfl rfl rfl hc.state (List.Subset.refl _)

end Greeting

/-! ## The hellos of a server -/

section Serving

theorem Serving.frame (hc : Serving env log c) (hrole : c'.role = c.role)
    (hsuite : c'.suite = c.suite) (hconnected : c'.connected = c.connected)
    (happ : c'.clientApp = c.clientApp) (hemitted : c'.emitted ⊆ c.emitted) : Serving env log c' :=
  ⟨hc.toUnfinished.frame hrole hsuite (fun hclient => by rw [hc.role] at hclient; cases hclient)
    hconnected happ hemitted, hrole.trans hc.role⟩

theorem Serving.sendServerHello (sh : ServerHello) :
    Keeps (Serving env log) (sendHandshake env (.serverHello sh)) := by
  refine .of_moves fun c r c' hc h => ?_
  have hnext := hc.toUnfinished.sendHandshake h (fun _ => trivial)
    fun hrole => by rw [hc.role] at hrole; cases hrole
  obtain ⟨seq, counter, transcript, out, rfl⟩ := ((sent_sendHandshake env _).of_eq h).1
  exact ⟨hnext, hc.role⟩

theorem Serving.setState (state : State) : Keeps (Serving env log) (setState state) :=
  .modify fun _ hc => hc.frame rfl rfl rfl rfl (List.Subset.refl _)

theorem Serving.armFlight : Keeps (Serving env log) armFlight :=
  .modify fun c hc => hc.frame rfl rfl rfl rfl (emitted_arm c _)

theorem Serving.clearFlight : Keeps (Serving env log) clearFlight :=
  .modify fun c hc => hc.frame rfl rfl rfl rfl (emitted_clear c _)

theorem Serving.handleFirstClientHello (ch : ClientHello) :
    Keeps (Serving env log) (handleFirstClientHello env ch) :=
  .get_bind fun _ _ => .okOr_bind (fun _ h => h) fun _ _ =>
    (Serving.sendServerHello _).bind fun _ => (Serving.setState _).bind fun _ =>
      Serving.clearFlight.bind fun _ => Serving.armFlight

theorem Serving.deriveHandshakeSecrets (dhe : FixedBytes 32) :
    Triple (Serving env log) (deriveHandshakeSecrets env dhe)
      (fun _ => ServingKeyed env log) (Serving env log) :=
  .modify fun _ hc => ⟨hc.frame rfl rfl rfl rfl (List.Subset.refl _), rfl⟩

theorem ServingKeyed.sendHandshake (body : HandshakeBody) :
    Triple (ServingKeyed env log) (sendHandshake env body)
      (fun _ => ServingKeyed env log) (Serving env log) := by
  have hkeep : Keeps (ServingKeyed env log) (Connection.sendHandshake env body) := by
    refine .of_moves fun c r c' hc h => ?_
    have hkeyed := handshakeEpoch_of_isSome hc.clientHs
    have hnext := hc.toUnfinished.sendHandshake h
      (fun hclear => by rw [hkeyed] at hclear; cases hclear)
      (fun hrole => by rw [hc.role] at hrole; cases hrole)
    obtain ⟨seq, counter, transcript, out, rfl⟩ := ((sent_sendHandshake env _).of_eq h).1
    exact ⟨⟨hnext, hc.role⟩, hc.clientHs⟩
  exact ⟨hkeep.ok, fun hc h => (hkeep.error hc h).toServing⟩

theorem ServingKeyed.sendServerFlight :
    Triple (ServingKeyed env log) (sendServerFlight env)
      (fun _ => ServingKeyed env log) (Serving env log) :=
  (ServingKeyed.sendHandshake _).bind fun _ =>
    .bind (.get_bind fun _ _ => ServingKeyed.sendHandshake _) fun _ =>
      .bind (.get_bind fun _ _ => ServingKeyed.sendHandshake _) fun _ =>
        .get_bind fun _ _ => .okOr_bind (fun _ h => h.toServing) fun _ _ =>
          ServingKeyed.sendHandshake _

theorem Serving.handleSecondClientHello (ch : ClientHello) (cookie : Bytes) :
    Keeps (Serving env log) (handleSecondClientHello env ch cookie) := by
  refine .get_bind fun c _ => .okOr_bind (fun _ h => h) fun maker _ => ?_
  split
  · refine .okOr_bind (fun _ h => h) fun entry _ => .okOr_bind (fun _ h => h) fun ks _ =>
      .lift_bind (fun _ h => h) fun dhe _ => .bind (.modify fun c hc => ?_) fun _ =>
        (Serving.sendServerHello _).bind fun _ =>
          (Serving.deriveHandshakeSecrets dhe).bind fun _ =>
            ServingKeyed.sendServerFlight.bind fun _ => .bind (.modify fun c hc => ?_) fun _ =>
              Serving.clearFlight.bind fun _ => Serving.armFlight
    · exact hc.frame rfl rfl rfl rfl (List.Subset.refl _)
    · exact hc.toServing.frame rfl rfl rfl rfl (List.Subset.refl _)
  · exact .fail _ fun _ h => h

theorem Serving.handleClientHello (msg : HandshakeMessage) (ch : ClientHello) :
    Keeps (Serving env log) (handleClientHello env msg ch) := by
  refine .bind (.modify fun c hc => hc.frame rfl rfl rfl rfl (List.Subset.refl _)) fun _ => ?_
  split
  · exact Serving.handleFirstClientHello ch
  · exact Serving.handleSecondClientHello ch _

end Serving

/-! ## The flight of a client -/

section Flight

theorem ClientFlight.frame (hc : ClientFlight env log c) (hrole : c'.role = c.role)
    (hsuite : c'.suite = c.suite) (hconnected : c'.connected = c.connected)
    (happ : c'.clientApp = c.clientApp) (hclientHs : c'.clientHs = c.clientHs)
    (hsecret : c'.handshakeSecret = c.handshakeSecret) (hstate : c'.state = c.state)
    (hemitted : c'.emitted ⊆ c.emitted) : ClientFlight env log c' :=
  ⟨⟨hc.toUnfinished.frame hrole hsuite (fun _ _ h => hclientHs.trans h) hconnected happ hemitted,
    hrole.trans hc.role,
    hclientHs ▸ hc.clientHs, hsecret ▸ hc.handshakeSecret⟩, hstate.trans hc.state⟩

theorem ClientFlight.sendHandshake {body : HandshakeBody} (hshort : Short body)
    (hbody : body.msgType ≠ .finished) : Keeps (ClientFlight env log) (sendHandshake env body) := by
  refine .of_moves fun c r c' hc h => ?_
  have hkeyed := handshakeEpoch_of_isSome hc.clientHs
  have hnext := hc.toUnfinished.sendHandshake h
    (fun hclear => by rw [hkeyed] at hclear; cases hclear) fun _ _ => ⟨hshort, hbody⟩
  obtain ⟨seq, counter, transcript, out, rfl⟩ := ((sent_sendHandshake env _).of_eq h).1
  exact ⟨⟨hnext, hc.role, hc.clientHs, hc.handshakeSecret⟩, hc.state⟩

theorem short_certificate (key : FixedBytes 32) : Short (.certificate ⟨[], key.val⟩) := by
  simp [Short, HandshakeBody.bodyBytes, Certificate.encode, Writer.vecU8, Writer.vecU16,
    Writer.vecU24, Writer.u24]

theorem short_certificateVerify (algorithm : UInt16) (signature : FixedBytes 64) :
    Short (.certificateVerify ⟨algorithm, signature.val⟩) := by
  simp [Short, HandshakeBody.bodyBytes, CertificateVerify.encode, Writer.vecU16]

theorem short_finished (c : Connection) (keys : TrafficKeys) :
    Short (.finished (c.verifyDataFor env keys)) := by
  have hlen : (c.verifyDataFor env keys).length = c.ks.hash.outputLen := FixedBytes.length_val _
  rw [Short, HandshakeBody.bodyBytes, hlen]
  cases c.ks.hash <;> decide

def finishedMessage (env : Crypto) (c : Connection) (keys : TrafficKeys) : HandshakeMessage :=
  .new (.finished (c.verifyDataFor env keys)) c.msgSeqCounter

def ClientClosing (env : Crypto) (log : List Bytes) (c : Connection) : Prop :=
  ∃ c₀ keys record seq, ClientFlight env log c₀ ∧ c₀.clientHs = some keys ∧
    Emits env c₀ 1 contentHandshake (finishedMessage env c₀ keys).encode record ∧
    c = { c₀ with
      sendSeq := seq
      msgSeqCounter := c₀.msgSeqCounter + 1
      transcript := c₀.transcript ++ (finishedMessage env c₀ keys).encode
      out := c₀.out ++ [record] }

theorem ClientFlight.sendFinished (missing : String) :
    Triple (ClientFlight env log) (sendFinished env (·.clientHs) missing)
      (fun _ => ClientClosing env log) (ClientFlight env log) := by
  have hboth : ∀ {c c' r}, ClientFlight env log c →
      Connection.sendFinished env (·.clientHs) missing c = (r, c') →
      (∃ e, r = .error e ∧ ClientFlight env log c') ∨ (r = .ok () ∧ ClientClosing env log c') := by
    intro c c' r hc h
    obtain ⟨keys, hkeys⟩ := Option.isSome_iff_exists.mp hc.clientHs
    rw [Connection.sendFinished, get_bind, hkeys, bind_of_ok (okOr_some _ _ _)] at h
    obtain ⟨e, seq, rfl, rfl⟩ | ⟨record, rfl, hemits, rfl⟩ := sendHandshake_cases h
    · exact .inl ⟨_, rfl, hc.frame rfl rfl rfl rfl rfl rfl rfl (List.Subset.refl _)⟩
    · rw [sendEpoch_of_not_connected hc.connected, handshakeEpoch_of_isSome hc.clientHs] at hemits ⊢
      exact .inr ⟨rfl, c, keys, record, _, hc, hkeys, hemits, rfl⟩
  constructor
  · intro c a c' hc h
    obtain ⟨e, hr, -⟩ | ⟨-, hclosing⟩ := hboth hc h
    · cases hr
    · exact hclosing
  · intro c e c' hc h
    obtain ⟨e, -, hflight⟩ | ⟨hr, -⟩ := hboth hc h
    · exact hflight
    · cases hr

theorem ClientFlight.sendClientMessages :
    Triple (ClientFlight env log) (sendClientMessages env)
      (fun _ => ClientClosing env log) (ClientFlight env log) :=
  .bind (.get_bind fun _ _ => ClientFlight.sendHandshake (short_certificate _) nofun) fun _ =>
    .bind (.get_bind fun _ _ => ClientFlight.sendHandshake (short_certificateVerify _ _) nofun)
      fun _ => ClientFlight.sendFinished _

theorem ClientClosing.ended (h : ClientClosing env log c) {hs : Bytes}
    (hsecret : c.handshakeSecret = some hs) (timer : RetransmitTimer) : Honest env log
      { c.withAppKeys env hs with
        connected := true, state := .clientConnected, pendingFlight := some c.out,
        retransmit := timer } := by
  obtain ⟨c₀, keys, record, seq, hc₀, hkeys, hemits, rfl⟩ := h
  refine .ended ⟨rfl, by simp [connectedStates], _, _, keys, hs, rfl, rfl, hkeys, rfl, hsecret, rfl,
    rfl⟩ fun record' hrecord' => ?_
  have hrecord : record' = record ∨ record' ∈ log ++ c₀.emitted := by
    simp only [emitted, withAppKeys, Option.getD_some, mem_append, mem_singleton]
      at hrecord' ⊢
    tauto
  rcases hrecord with rfl | hrecord
  · obtain ⟨hepoch, -⟩ | ⟨-, keys', hkeys', hbuild⟩ := hemits
    · cases hepoch
    · have hown := clientHs_of_outgoingKeys hc₀.role hkeys'
      exact .handshake hbuild fun _ => ⟨hown, short_finished c₀ keys, fun _ =>
        ⟨rfl, by simp [connectedStates], _, _, keys, hs, rfl, rfl, hkeys, rfl, hsecret, rfl, rfl⟩⟩
  · exact (hc₀.records record' hrecord).mono rfl rfl (fun _ _ => id) fun m hm =>
      absurd hm (hc₀.toUnfinished.not_concluded m)

end Flight

/-! ## A dispatch leads from one phase to the next -/

theorem onHandshakeMessage_connected
    (hstate : c.state ∈ connectedStates) (h : onHandshakeMessage env msg c = (r, c')) : c' = c := by
  have hhello : c.state ∉ helloStates := by
    revert hstate
    cases c.state <;> decide
  have hflight : c.state ∉ flightStates := by
    revert hstate
    cases c.state <;> decide
  cases dispatches h with
  | refused => rfl
  | hello _ hs => exact absurd hs hhello
  | extensions _ hs => exact absurd hs hflight
  | certificate _ hs => exact absurd hs hflight
  | certificateVerify _ hs => exact absurd hs hflight
  | stalled _ hs => exact absurd hs hflight
  | finished _ hs => exact absurd hs hflight

theorem ClientGreeting.clientOnMessage (hc : ClientGreeting env log c)
    (h : clientOnMessage env msg c = (r, c')) : Honest env log c' := by
  obtain ⟨e, -, rfl⟩ | ⟨sh, -, -, h | h⟩ | ⟨hstate, -⟩ := clientOnMessage_cases h
  · exact .greeting hc
  · exact .greeting ((ClientGreeting.handleHrr msg sh).moves hc h)
  · cases r with
    | ok _ => exact .flight ((ClientGreeting.handleServerHello sh _).ok hc h)
    | error e => exact .greeting ((ClientGreeting.handleServerHello sh _).error hc h)
  · have hgreeting := hc.state
    rw [mem_singleton.mp hstate] at hgreeting
    exact absurd hgreeting (by decide)

theorem ClientFlight.recorded (hc : ClientFlight env log c) (msg : HandshakeMessage) :
    ClientFlight env log (c.recorded msg) :=
  hc.frame rfl rfl rfl rfl rfl rfl rfl (List.Subset.refl _)

theorem ClientFlight.handleServerFlightMessage (hc : ClientFlight env log c)
    (h : handleServerFlightMessage env msg c = (r, c')) : Honest env log c' := by
  unfold Connection.handleServerFlightMessage at h
  cases hbody : msg.body <;> rw [hbody] at h
  case certificate cert =>
    obtain ⟨-, rfl⟩ | ⟨-, -, rfl⟩ := acceptCertificate_cases h
    · exact .flight hc
    · exact .flight (hc.frame rfl rfl rfl rfl rfl rfl rfl (List.Subset.refl _))
  case certificateVerify cv =>
    obtain ⟨e, -, rfl⟩ | ⟨pk, -, -, -, rfl⟩ := acceptCertificateVerify_cases h
    · exact .flight hc
    · exact .flight (hc.recorded msg)
  case finished verifyData =>
    obtain ⟨e, -, rfl⟩ | ⟨keys, -, -, h⟩ := checkFinished_cases h
    · exact .flight hc
    · obtain ⟨e, rfl, r', hsend, hmissing⟩ | ⟨c₂, hs, hsend, hsecret, rfl, rfl⟩ :=
        sendClientFlight_cases h
      · cases r' with
        | error e =>
          exact .flight (ClientFlight.sendClientMessages.error (hc.recorded msg) hsend)
        | ok _ =>
          -- with a handshake secret the derivation behind the messages cannot fail
          obtain ⟨seq, counter, transcript, out, rfl⟩ :=
            ((sent_sendClientMessages env).of_eq hsend).1
          have hsecret := hc.handshakeSecret
          rw [show c.handshakeSecret = none from hmissing rfl] at hsecret
          cases hsecret
      · exact (ClientFlight.sendClientMessages.ok (hc.recorded msg) hsend).ended hsecret _
  case encryptedExtensions ee =>
    cases h
    exact .flight (hc.recorded msg)
  all_goals
    cases h
    exact .flight hc

theorem ClientFlight.clientOnMessage (hc : ClientFlight env log c)
    (h : clientOnMessage env msg c = (r, c')) : Honest env log c' := by
  obtain ⟨e, -, rfl⟩ | ⟨sh, -, hstate, -⟩ | ⟨-, h⟩ := clientOnMessage_cases h
  · exact .flight hc
  · rw [hc.state] at hstate
    exact absurd hstate (by decide)
  · exact hc.handleServerFlightMessage h

theorem Serving.handleClientFlightMessage (hc : Serving env log c)
    (h : handleClientFlightMessage env msg c = (r, c')) :
    Serving env log c' ∨ (Concluded env c' msg ∧ Honest env log c') := by
  have hrecorded : Serving env log (c.recorded msg) := hc.frame rfl rfl rfl rfl (List.Subset.refl _)
  unfold Connection.handleClientFlightMessage at h
  cases hbody : msg.body <;> rw [hbody] at h
  case certificate cert =>
    obtain ⟨-, rfl⟩ | ⟨-, -, rfl⟩ := acceptCertificate_cases h
    · exact .inl hc
    · exact .inl (hc.frame rfl rfl rfl rfl (List.Subset.refl _))
  case certificateVerify cv =>
    obtain ⟨e, -, rfl⟩ | ⟨pk, -, -, -, rfl⟩ := acceptCertificateVerify_cases h
    · exact .inl hc
    · exact .inl hrecorded
  case finished verifyData =>
    obtain ⟨e, -, rfl⟩ | ⟨keys, hkeys, hverify, h⟩ := checkFinished_cases h
    · exact .inl hc
    · obtain ⟨e, -, -, rfl⟩ | ⟨hs, hsecret, h⟩ := deriveAppSecrets_cases h
      · exact .inl hrecorded
      · cases h
        have hconcluded : Concluded env
            { (c.recorded msg).withAppKeys env hs with
              connected := true, state := .serverConnected, pendingFlight := none,
              retransmit := c.retransmit.disarm } msg :=
          ⟨rfl, by simp [connectedStates], _, _, keys, hs, hbody, rfl, hkeys, hverify, hsecret,
            rfl, rfl⟩
        refine .inr ⟨hconcluded, .ended hconcluded fun record hrecord => ?_⟩
        have hbefore : record ∈ log ++ c.emitted := by
          simp only [emitted, withAppKeys, Connection.recorded, Option.getD_none,
            append_nil, mem_append] at hrecord ⊢
          tauto
        exact (hc.records record hbefore).mono rfl rfl (fun _ _ => id) fun m hm =>
          absurd hm (hc.toUnfinished.not_concluded m)
  all_goals
    cases h
    exact .inl hc

theorem Serving.serverOnMessage (hc : Serving env log c) (h : serverOnMessage env msg c = (r, c')) :
    Serving env log c' ∨ (Concluded env c' msg ∧ Honest env log c') := by
  obtain ⟨e, -, rfl⟩ | ⟨ch, -, -, h⟩ | ⟨-, h⟩ := serverOnMessage_cases h
  · exact .inl hc
  · exact .inl ((Serving.handleClientHello msg ch).moves hc h)
  · exact hc.handleClientFlightMessage h

theorem onHandshakeMessage_client (hrole : c.role = .client) (msg : HandshakeMessage) :
    onHandshakeMessage env msg c = clientOnMessage env msg c := by
  rw [onHandshakeMessage, get_bind, hrole]

theorem onHandshakeMessage_server (hrole : c.role = .server) (msg : HandshakeMessage) :
    onHandshakeMessage env msg c = serverOnMessage env msg c := by
  rw [onHandshakeMessage, get_bind, hrole]

theorem Honest.onHandshakeMessage
    (hc : Honest env log c) (h : onHandshakeMessage env msg c = (r, c')) : Honest env log c' := by
  cases hc with
  | greeting hc | flight hc =>
    rw [onHandshakeMessage_client hc.role] at h
    exact hc.clientOnMessage h
  | serving hc =>
    rw [onHandshakeMessage_server hc.role] at h
    obtain hserving | ⟨-, hended⟩ := hc.serverOnMessage h
    · exact .serving hserving
    · exact hended
  | ended hc hrecords =>
    rw [onHandshakeMessage_connected hc.state h]
    exact .ended hc hrecords

/-! ## The other calls stay in their phase -/

theorem Honest.housekeep (hc : Honest env log c) {log' : List Bytes} {windows : List ReplayWindow}
    {inbox out : List Bytes} {seq : Fin 3 → ℕ} {timer : RetransmitTimer}
    (hrecords : ∀ record ∈ log' ++ (out ++ c.pendingFlight.getD []),
      record ∈ log ++ c.emitted ∨ RecordOk env c record) : Honest env log'
      { c with
        recvReplay := windows, appInbox := inbox, sendSeq := seq, retransmit := timer,
        out := out } := by
  have hall : (∀ record ∈ log ++ c.emitted, RecordOk env c record) →
      ∀ record ∈ log' ++ (out ++ c.pendingFlight.getD []), RecordOk env
        { c with
          recvReplay := windows, appInbox := inbox, sendSeq := seq, retransmit := timer,
          out := out } record := by
    intro hold record hrecord
    have hok : RecordOk env c record := (hrecords record hrecord).elim (hold record) id
    exact hok.mono rfl rfl (fun _ _ => id) fun m hm => ⟨hm.connected, hm.state, hm.finished⟩
  cases hc with
  | greeting hc =>
    exact .greeting ⟨⟨hc.connected, hc.clientApp, hall hc.records⟩, hc.role, hc.state,
      hc.clientHs, hc.serverHs⟩
  | flight hc =>
    exact .flight ⟨⟨⟨hc.connected, hc.clientApp, hall hc.records⟩, hc.role, hc.clientHs,
      hc.handshakeSecret⟩, hc.state⟩
  | serving hc => exact .serving ⟨⟨hc.connected, hc.clientApp, hall hc.records⟩, hc.role⟩
  | ended hc hold => exact .ended ⟨hc.connected, hc.state, hc.finished⟩ (hall hold)

theorem Honest.records (hc : Honest env log c) :
    ∀ record ∈ log ++ c.emitted, RecordOk env c record := by
  cases hc with
  | greeting hc => exact hc.records
  | flight hc => exact hc.records
  | serving hc => exact hc.records
  | ended _ hrecords => exact hrecords

theorem Honest.quiet (hc : Honest env log c) (h : Quiet c c') : Honest env log c' := by
  obtain ⟨windows, inbox, rfl⟩ := h
  exact hc.housekeep fun _ hrecord => .inl hrecord

theorem Honest.processDatagram (hc : Honest env log c) (datagram : Bytes) :
    Honest env log (processDatagram env datagram c).2 := by
  refine receiveFrom_induct (I := fun _ c => Honest env log c) hc fun _ pos c₁ _ _ hc₁ => ?_
  obtain ⟨-, hquiet⟩ | ⟨e, -, hquiet, hafter⟩ := eventAt_cases env datagram pos c₁
  · exact hc₁.quiet hquiet
  · rw [hafter]
    exact (hc₁.quiet hquiet).onHandshakeMessage rfl

theorem Honest.start (hc : Honest env log c) (hstate : c.state = .clientStart) :
    Honest env log (start env c).2 := by
  cases hc with
  | greeting hc => exact .greeting (ClientGreeting.start.moves hc rfl)
  | flight hc =>
    rw [hc.state] at hstate
    cases hstate
  | serving hc =>
    have hfails : (Connection.start env c).2 = c := by
      rw [Connection.start, get_bind, if_neg (by rw [hc.role]; nofun)]
      rfl
    rw [hfails]
    exact .serving hc
  | ended hc =>
    have hs := hc.state
    rw [hstate] at hs
    exact absurd hs (by decide)

theorem Honest.tick (hc : Honest env log c) (dt : ℕ) : Honest env log (tick dt c).2 := by
  obtain ⟨timer, out, htick, hout⟩ := tick_cases c dt
  rw [htick]
  refine hc.housekeep fun record hrecord => .inl ?_
  simp only [emitted, mem_append] at hrecord ⊢
  rcases hout with rfl | rfl
  · exact hrecord
  · rw [mem_append] at hrecord
    tauto

theorem Honest.sendAppData (hc : Honest env log c) (data : Bytes) :
    Honest env log (sendAppData env data c).2 := by
  rcases h : Connection.sendAppData env data c with ⟨r, c'⟩
  obtain ⟨e, seq, -, rfl⟩ | ⟨record, -, -, hemits, rfl⟩ := sendAppData_cases h
  · exact hc.housekeep fun _ hrecord => .inl hrecord
  · refine hc.housekeep fun record' hrecord' => ?_
    have hrecord : record' = record ∨ record' ∈ log ++ c.emitted := by
      simp only [emitted, mem_append, mem_singleton] at hrecord' ⊢
      tauto
    rcases hrecord with rfl | hrecord
    · obtain ⟨hepoch, -⟩ | ⟨-, keys, -, hbuild⟩ := hemits
      · cases hepoch
      · exact .inr (.data hbuild)
    · exact .inl hrecord

theorem Honest.takeOutput (hc : Honest env log c) : Honest env (log ++ c.out) (takeOutput c).2 := by
  refine hc.housekeep fun record hrecord => .inl ?_
  simpa only [emitted, append_assoc, nil_append] using hrecord

theorem Honest.recvAppData (hc : Honest env log c) : Honest env log (recvAppData c).2 :=
  hc.housekeep fun _ hrecord => .inl hrecord

theorem honest_of_fresh (h : Fresh c) (hrole : c.role = .client → c.state = .clientStart) :
    Honest env [] c := by
  have hunfinished : Unfinished env [] c := by
    rw [h.eq_blank]
    exact ⟨rfl, rfl, fun _ hrecord => by cases hrecord⟩
  cases hr : c.role with
  | client =>
    refine .greeting ⟨hunfinished, hr, by simp [hrole hr], ?_, ?_⟩
    · rw [h.eq_blank]; rfl
    · rw [h.eq_blank]; rfl
  | server => exact .serving ⟨hunfinished, hr⟩

theorem quiet_processDatagram (hstate : c.state ∈ connectedStates) (datagram : Bytes) :
    Quiet c (processDatagram env datagram c).2 := by
  refine receiveFrom_induct (I := fun _ c' => Quiet c c') (refl_of Quiet c)
    fun _ pos c₁ _ _ hc₁ => ?_
  obtain ⟨-, hquiet⟩ | ⟨e, -, hquiet, hafter⟩ := eventAt_cases env datagram pos c₁
  · exact trans_of Quiet hc₁ hquiet
  · have hbefore : Quiet c e.before := trans_of Quiet hc₁ hquiet
    have hsame : e.after env = e.before := by
      obtain ⟨windows, inbox, hbefore⟩ := hbefore
      exact onHandshakeMessage_connected (by rw [hbefore]; exact hstate) rfl
    rw [hafter, hsame]
    exact hbefore

end Connection

end TptRfc.Dtls
