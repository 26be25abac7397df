import TptRfc.Dtls.Connection

/-!
# DTLS: what the methods of a connection do to it

The proofs about runs never unfold a handler.
-/

namespace TptRfc.Dtls

open Lib Exec

def helloStates : List State :=
  [.clientWaitServerHello, .serverWaitClientHello, .serverWaitClientHelloCookie]

def flightStates : List State := [.clientWaitServerFlight, .serverWaitClientFlight]

def connectedStates : List State := [.clientConnected, .serverConnected]

def HandshakeBody.IsHello : HandshakeBody → Prop
  | .clientHello _ | .serverHello _ => True
  | _ => False

namespace Connection

variable (env : Crypto)

/-! ## Sending -/

def Sent (c c' : Connection) : Prop :=
  ∃ seq counter transcript out,
    c' = { c with
      sendSeq := seq, msgSeqCounter := counter, transcript := transcript, out := out }

instance : IsPreorder Connection Sent where
  refl c := ⟨c.sendSeq, c.msgSeqCounter, c.transcript, c.out, rfl⟩
  trans := by
    rintro a b c ⟨seq, counter, transcript, out, rfl⟩ ⟨seq', counter', transcript', out', rfl⟩
    exact ⟨seq', counter', transcript', out', rfl⟩

def Emits (c : Connection) (epoch : Fin 3) (innerType : UInt8) (content record : Bytes) : Prop :=
  (epoch = 0 ∧ record = buildCleartext contentHandshake 0 (c.sendSeq 0) content) ∨
    (epoch ≠ 0 ∧ ∃ keys, c.outgoingKeys epoch = .ok keys ∧
      buildProtected env c.suite keys.key keys.iv (UInt16.ofNat epoch) (c.sendSeq epoch)
        contentApplicationData innerType content c.sendCid = .ok record)

theorem encrypt_cases {env : Crypto} {epoch : Fin 3} {innerType : UInt8} {content : Bytes}
    {c c' : Connection} {r : Except (Fault DtlsError) Bytes}
    (h : encrypt env epoch innerType content c = (r, c')) :
    (∃ e seq, r = .error (.error e) ∧ c' = { c with sendSeq := seq }) ∨
      (∃ record, r = .ok record ∧ Emits env c epoch innerType content record ∧
        c' = { c with sendSeq := Function.update c.sendSeq epoch (c.sendSeq epoch + 1) }) := by
  unfold encrypt at h
  rw [get_bind] at h
  by_cases hepoch : epoch = 0
  · subst hepoch
    rw [if_pos rfl] at h
    split at h
    · cases h
      exact .inl ⟨_, c.sendSeq, rfl, rfl⟩
    · cases h
      exact .inr ⟨_, rfl, .inl ⟨rfl, rfl⟩, rfl⟩
  · rw [if_neg hepoch] at h
    cases hkeys : c.outgoingKeys epoch with
    | error e =>
      rw [hkeys] at h
      cases h
      exact .inl ⟨_, c.sendSeq, rfl, rfl⟩
    | ok keys =>
      rw [hkeys, bind_of_ok (lift_ok _ _)] at h
      split at h
      · cases h
        exact .inl ⟨_, c.sendSeq, rfl, rfl⟩
      · obtain ⟨rfl, ⟨record, hbuild, rfl⟩ | ⟨e, -, rfl⟩⟩ := lift_cases h
        · exact .inr ⟨record, rfl, .inr ⟨hepoch, keys, hkeys, hbuild⟩, rfl⟩
        · exact .inl ⟨e, _, rfl, rfl⟩

def sendEpoch (c : Connection) : Fin 3 := if c.connected then 2 else c.handshakeEpoch

theorem sendHandshake_cases {env : Crypto} {body : HandshakeBody} {c c' : Connection}
    {r : Except (Fault DtlsError) Unit} (h : sendHandshake env body c = (r, c')) :
    (∃ e seq, r = .error (.error e) ∧
        c' = { c with sendSeq := seq, msgSeqCounter := c.msgSeqCounter + 1 }) ∨
      (∃ record, r = .ok () ∧
        Emits env c c.sendEpoch contentHandshake
          (HandshakeMessage.new body c.msgSeqCounter).encode record ∧
        c' = { c with
          sendSeq := Function.update c.sendSeq c.sendEpoch (c.sendSeq c.sendEpoch + 1)
          msgSeqCounter := c.msgSeqCounter + 1
          transcript := c.transcript ++ (HandshakeMessage.new body c.msgSeqCounter).encode
          out := c.out ++ [record] }) := by
  unfold sendHandshake at h
  rw [get_bind, bind_of_ok (modify_apply _ _)] at h
  obtain ⟨record, c₁, henc, h⟩ | ⟨e, henc, rfl⟩ := bind_cases h
  · obtain ⟨e, seq, hr, -⟩ | ⟨record', hr, hemits, rfl⟩ := encrypt_cases henc
    · cases hr
    · cases hr
      cases h
      exact .inr ⟨record, rfl, hemits, rfl⟩
  · obtain ⟨e, seq, hr, rfl⟩ | ⟨record', hr, -⟩ := encrypt_cases henc
    · cases hr
      exact .inl ⟨e, seq, rfl, rfl⟩
    · cases hr

theorem sent_sendHandshake (body : HandshakeBody) : Safe Sent (sendHandshake env body) := by
  have hboth : ∀ c, Sent c (sendHandshake env body c).2 ∧
      (sendHandshake env body c).1 ≠ .error .panic := by
    intro c
    rcases h : sendHandshake env body c with ⟨r, c'⟩
    obtain ⟨e, seq, rfl, rfl⟩ | ⟨record, rfl, -, rfl⟩ := sendHandshake_cases h
    · exact ⟨⟨_, _, _, _, rfl⟩, fun h => by cases h⟩
    · exact ⟨⟨_, _, _, _, rfl⟩, fun h => by cases h⟩
  exact ⟨fun c => (hboth c).1, fun c => (hboth c).2⟩

theorem sent_sendCertificate : Safe Sent (sendCertificate env) :=
  Safe.get_bind fun _ => sent_sendHandshake env _

theorem sent_sendCertificateVerify (context : Bytes) :
    Safe Sent (sendCertificateVerify env context) :=
  Safe.get_bind fun _ => sent_sendHandshake env _

theorem sent_sendFinished (keys : Connection → Option TrafficKeys) (missing : String) :
    Safe Sent (sendFinished env keys missing) :=
  Safe.get_bind fun _ => (Safe.okOr _ _).bind fun _ => sent_sendHandshake env _

theorem sent_sendServerFlight : Safe Sent (sendServerFlight env) :=
  (sent_sendHandshake env _).bind fun _ => (sent_sendCertificate env).bind fun _ =>
    (sent_sendCertificateVerify env _).bind fun _ => sent_sendFinished env _ _

/-! ## What no handler touches -/

structure Fixed where
  role : ConnectionRole
  suite : CipherSuite
  recvCidLen : ℕ
  sendCid : Option Bytes
  clientRandom : FixedBytes 32
  clientKs : Option X25519KeyPair
  serverKs : Option X25519KeyPair
  identity : Ed25519KeyPair
  verifier : Bytes → Bool
  cookieMaker : Option CookieMaker
  clientAddress : Bytes
  recvReplay : List ReplayWindow
  appInbox : List Bytes

def fixed (c : Connection) : Fixed where
  role := c.role
  suite := c.suite
  recvCidLen := c.recvCidLen
  sendCid := c.sendCid
  clientRandom := c.clientRandom
  clientKs := c.clientKs
  serverKs := c.serverKs
  identity := c.identity
  verifier := c.verifier
  cookieMaker := c.cookieMaker
  clientAddress := c.clientAddress
  recvReplay := c.recvReplay
  appInbox := c.appInbox

structure Established where
  peerRawPubkey : Option Bytes
  connected : Bool
  clientApp : Option TrafficKeys
  serverApp : Option TrafficKeys

def established (c : Connection) : Established where
  peerRawPubkey := c.peerRawPubkey
  connected := c.connected
  clientApp := c.clientApp
  serverApp := c.serverApp

structure Greeted (c c' : Connection) : Prop where
  fixed : c'.fixed = c.fixed
  established : c'.established = c.established

instance : IsPreorder Connection Greeted where
  refl _ := ⟨rfl, rfl⟩
  trans _ _ _ h h' := ⟨h'.fixed.trans h.fixed, h'.established.trans h.established⟩

theorem Sent.greeted {c c' : Connection} (h : Sent c c') : Greeted c c' := by
  obtain ⟨_, _, _, _, rfl⟩ := h
  exact ⟨rfl, rfl⟩

theorem greeted_sendHandshake (body : HandshakeBody) : Safe Greeted (sendHandshake env body) :=
  (sent_sendHandshake env body).mono fun _ _ => Sent.greeted

theorem greeted_modify {f : Connection → Connection} (h : ∀ c, (f c).fixed = c.fixed)
    (h' : ∀ c, (f c).established = c.established) : Safe Greeted (Exec.modify f : Method Unit) :=
  .modify fun c => ⟨h c, h' c⟩

theorem greeted_extendTranscript (bytes : Bytes) : Safe Greeted (extendTranscript bytes) :=
  greeted_modify (by intro; rfl) (by intro; rfl)

theorem greeted_setState (state : State) : Safe Greeted (setState state) :=
  greeted_modify (by intro; rfl) (by intro; rfl)

theorem greeted_armFlight : Safe Greeted armFlight := greeted_modify (by intro; rfl) (by intro; rfl)

theorem greeted_clearFlight : Safe Greeted clearFlight :=
  greeted_modify (by intro; rfl) (by intro; rfl)

theorem greeted_deriveHandshakeSecrets (dhe : FixedBytes 32) :
    Safe Greeted (deriveHandshakeSecrets env dhe) :=
  greeted_modify (by intro; rfl) (by intro; rfl)

theorem greeted_handleHrr (msg : HandshakeMessage) (hrr : ServerHello) :
    Safe Greeted (handleHrr env msg hrr) :=
  (greeted_extendTranscript _).bind fun _ =>
    (greeted_modify (by intro; rfl) (by intro; rfl)).bind fun _ =>
      (greeted_setState _).bind fun _ => Safe.get_bind fun _ =>
        (Safe.lift _).bind fun _ => (greeted_sendHandshake env _).bind fun _ =>
          greeted_armFlight

theorem greeted_handleServerHello (sh : ServerHello) (msgSeq : UInt16) :
    Safe Greeted (handleServerHello env sh msgSeq) :=
  (greeted_modify (by intro; rfl) (by intro; rfl)).bind fun _ =>
    (Safe.okOr _ _).bind fun _ => Safe.get_bind fun _ =>
      (Safe.okOr _ _).bind fun _ => (Safe.lift _).bind fun _ =>
        (greeted_modify (by intro; rfl) (by intro; rfl)).bind fun _ =>
          (greeted_extendTranscript _).bind fun _ =>
            (greeted_deriveHandshakeSecrets env _).bind fun _ =>
              (greeted_setState _).bind fun _ => greeted_clearFlight

theorem greeted_handleFirstClientHello (ch : ClientHello) :
    Safe Greeted (handleFirstClientHello env ch) :=
  Safe.get_bind fun _ => (Safe.okOr _ _).bind fun _ =>
    (greeted_sendHandshake env _).bind fun _ => (greeted_setState _).bind fun _ =>
      greeted_clearFlight.bind fun _ => greeted_armFlight

theorem greeted_handleSecondClientHello (ch : ClientHello) (cookie : Bytes) :
    Safe Greeted (handleSecondClientHello env ch cookie) := by
  refine Safe.get_bind fun _ => (Safe.okOr _ _).bind fun _ => ?_
  split
  · exact (Safe.okOr _ _).bind fun _ => (Safe.okOr _ _).bind fun _ =>
      (Safe.lift _).bind fun _ =>
        (greeted_modify (by intro; rfl) (by intro; rfl)).bind fun _ =>
          (greeted_sendHandshake env _).bind fun _ =>
            (greeted_deriveHandshakeSecrets env _).bind fun _ =>
              ((sent_sendServerFlight env).mono fun _ _ => Sent.greeted).bind fun _ =>
                (greeted_setState _).bind fun _ => greeted_clearFlight.bind fun _ =>
                  greeted_armFlight
  · exact .fail _

theorem greeted_handleClientHello (msg : HandshakeMessage) (ch : ClientHello) :
    Safe Greeted (handleClientHello env msg ch) := by
  refine (greeted_extendTranscript _).bind fun _ => ?_
  split
  · exact greeted_handleFirstClientHello env _
  · exact greeted_handleSecondClientHello env _ _

/-! ## The messages of a flight -/

def recorded (c : Connection) (msg : HandshakeMessage) : Connection :=
  { c with transcript := c.transcript ++ msg.encode }

variable {cert : Certificate} {cv : CertificateVerify} {handler : Method Unit} {states : List State}
  {bytes : Bytes} {msg : HandshakeMessage} {c c' : Connection} {r : Except (Fault DtlsError) Unit}

theorem acceptCertificate_cases (h : acceptCertificate msg cert c = (r, c')) :
    (r = .error (.error .certificateVerifyFailed) ∧ c' = c) ∨
      (c.verifier cert.certData = true ∧ r = .ok () ∧
        c' = { c.recorded msg with peerRawPubkey := some cert.certData }) := by
  unfold acceptCertificate at h
  rw [get_bind] at h
  split at h
  · rename_i hverify
    cases h
    exact .inr ⟨hverify, rfl, rfl⟩
  · cases h
    exact .inl ⟨rfl, rfl⟩

theorem acceptCertificateVerify_cases {env : Crypto} {context : Bytes}
    (h : acceptCertificateVerify env context msg cv c = (r, c')) :
    (∃ e, r = .error (.error e) ∧ c' = c) ∨
      ∃ pk, c.peerRawPubkey = some pk ∧
        env.ed25519Verify pk (cvMessage context (c.txHash env)) cv.signature = true ∧
        r = .ok () ∧ c' = c.recorded msg := by
  unfold acceptCertificateVerify at h
  rw [get_bind, verifyCv] at h
  cases hpk : c.peerRawPubkey with
  | none =>
    rw [hpk] at h
    cases h
    exact .inl ⟨_, rfl, rfl⟩
  | some pk =>
    simp only [hpk] at h
    split at h
    · rename_i hverify
      cases h
      exact .inr ⟨pk, rfl, hverify, rfl, rfl⟩
    · cases h
      exact .inl ⟨_, rfl, rfl⟩

theorem checkFinished_cases {env : Crypto} {keys : Connection → Option TrafficKeys}
    {missing : String}
    {verifyData : Bytes} (h : (do
      checkFinished env keys missing msg verifyData
      handler) c = (r, c')) :
    (∃ e, r = .error (.error e) ∧ c' = c) ∨
      ∃ k, keys c = some k ∧ c.verifyDataFor env k = verifyData ∧
        handler (c.recorded msg) = (r, c') := by
  rw [bind_apply, checkFinished, get_bind] at h
  cases hkeys : keys c with
  | none =>
    rw [hkeys] at h
    cases h
    exact .inl ⟨_, rfl, rfl⟩
  | some k =>
    rw [hkeys, bind_of_ok (okOr_some _ _ _)] at h
    by_cases hverify : c.verifyDataFor env k = verifyData
    · rw [if_pos hverify] at h
      exact .inr ⟨k, rfl, hverify, h⟩
    · rw [if_neg hverify] at h
      cases h
      exact .inl ⟨_, rfl, rfl⟩

def withAppKeys (c : Connection) (hs : Bytes) : Connection :=
  { c with
    clientApp := some (c.trafficKeysFor env (masterSecretOf env c.ks hs) "c ap traffic"
      (c.txHash env))
    serverApp := some (c.trafficKeysFor env (masterSecretOf env c.ks hs) "s ap traffic"
      (c.txHash env)) }

theorem deriveAppSecrets_cases {env : Crypto} (h : (do
      deriveAppSecrets env
      handler) c = (r, c')) :
    (∃ e, c.handshakeSecret = none ∧ r = .error (.error e) ∧ c' = c) ∨
      ∃ hs, c.handshakeSecret = some hs ∧ handler (c.withAppKeys env hs) = (r, c') := by
  rw [bind_apply, deriveAppSecrets, get_bind] at h
  cases hs : c.handshakeSecret with
  | none =>
    rw [hs] at h
    cases h
    exact .inl ⟨_, rfl, rfl, rfl⟩
  | some secret =>
    rw [hs, bind_of_ok (okOr_some _ _ _)] at h
    exact .inr ⟨secret, rfl, h⟩

theorem sent_sendClientMessages : Safe Sent (sendClientMessages env) :=
  (sent_sendCertificate env).bind fun _ => (sent_sendCertificateVerify env _).bind fun _ =>
    sent_sendFinished env _ _

theorem sendClientFlight_cases {env : Crypto} (h : sendClientFlight env c = (r, c')) :
    (∃ e, r = .error (.error e) ∧ ∃ r', sendClientMessages env c = (r', c') ∧
        (r' = .ok () → c'.handshakeSecret = none)) ∨
      ∃ c₁ hs, sendClientMessages env c = (.ok (), c₁) ∧ c₁.handshakeSecret = some hs ∧
        r = .ok () ∧
        c' = { c₁.withAppKeys env hs with
          connected := true, state := .clientConnected, pendingFlight := some c₁.out,
          retransmit := c₁.retransmit.arm } := by
  unfold sendClientFlight at h
  obtain ⟨⟨⟩, c₁, hsend, h⟩ | ⟨e, hsend, rfl⟩ := bind_cases h
  · obtain ⟨e, hsecret, rfl, rfl⟩ | ⟨hs, hsecret, h⟩ := deriveAppSecrets_cases h
    · exact .inl ⟨e, rfl, _, hsend, fun _ => hsecret⟩
    · cases h
      exact .inr ⟨c₁, hs, hsend, hsecret, rfl, rfl⟩
  · cases e with
    | panic => exact absurd rfl ((sent_sendClientMessages env).of_eq hsend).2
    | error e => exact .inl ⟨e, rfl, _, hsend, nofun⟩

/-! ## A whole dispatch -/

def peerCvContext : ConnectionRole → Bytes
  | .client => serverCvContext
  | .server => clientCvContext

inductive Dispatches (msg : HandshakeMessage) (c : Connection) :
    Except (Fault DtlsError) Unit → Connection → Prop
  | refused (e : DtlsError) : Dispatches msg c (.error (.error e)) c
  | hello {r : Except (Fault DtlsError) Unit} {c' : Connection} (hbody : msg.body.IsHello)
      (hstate : c.state ∈ helloStates) (hr : r ≠ .error .panic) (h : Greeted c c') :
      Dispatches msg c r c'
  | extensions {ee : EncryptedExtensions} (hbody : msg.body = .encryptedExtensions ee)
      (hstate : c.state ∈ flightStates) : Dispatches msg c (.ok ()) (c.recorded msg)
  | certificate {cert : Certificate} (hbody : msg.body = .certificate cert)
      (hstate : c.state ∈ flightStates) (hverify : c.verifier cert.certData = true) :
      Dispatches msg c (.ok ()) { c.recorded msg with peerRawPubkey := some cert.certData }
  | certificateVerify {cv : CertificateVerify} {pk : Bytes}
      (hbody : msg.body = .certificateVerify cv) (hstate : c.state ∈ flightStates)
      (hpk : c.peerRawPubkey = some pk)
      (hverify : env.ed25519Verify pk (cvMessage (peerCvContext c.role) (c.txHash env))
        cv.signature = true) :
      Dispatches msg c (.ok ()) (c.recorded msg)
  | stalled {verifyData : Bytes} {e : DtlsError} {c' : Connection}
      (hbody : msg.body = .finished verifyData) (hstate : c.state ∈ flightStates)
      (h : Sent (c.recorded msg) c') : Dispatches msg c (.error (.error e)) c'
  | finished {verifyData hs : Bytes} {c₁ c' : Connection}
      (hbody : msg.body = .finished verifyData) (hstate : c.state ∈ flightStates)
      (hsent : Sent (c.recorded msg) c₁) (hfixed : c'.fixed = c.fixed)
      (hestablished : c'.established =
        { (c₁.withAppKeys env hs).established with connected := true })
      (hstate' : c'.state ∈ connectedStates) : Dispatches msg c (.ok ()) c'

variable {env}

theorem expecting_cases (h : expecting states msg handler c = (r, c')) :
    (∃ e, r = .error (.error e) ∧ c' = c) ∨ (c.state ∈ states ∧ handler c = (r, c')) := by
  unfold expecting at h
  rw [get_bind] at h
  split at h
  · rename_i hstate
    exact .inr ⟨hstate, h⟩
  · cases h
    exact .inl ⟨_, rfl, rfl⟩

theorem dispatches_acceptCertificate (hbody : msg.body = .certificate cert)
    (hstate : c.state ∈ flightStates) (h : acceptCertificate msg cert c = (r, c')) :
    Dispatches env msg c r c' := by
  obtain ⟨rfl, rfl⟩ | ⟨hverify, rfl, rfl⟩ := acceptCertificate_cases h
  · exact .refused _
  · exact .certificate hbody hstate hverify

theorem dispatches_acceptCertificateVerify
    (hbody : msg.body = .certificateVerify cv) (hstate : c.state ∈ flightStates)
    (h : acceptCertificateVerify env (peerCvContext c.role) msg cv c = (r, c')) :
    Dispatches env msg c r c' := by
  obtain ⟨e, rfl, rfl⟩ | ⟨pk, hpk, hverify, rfl, rfl⟩ := acceptCertificateVerify_cases h
  · exact .refused _
  · exact .certificateVerify hbody hstate hpk hverify

theorem dispatches_serverFlight (hrole : c.role = .client) (hstate : c.state ∈ flightStates)
    (h : handleServerFlightMessage env msg c = (r, c')) : Dispatches env msg c r c' := by
  unfold handleServerFlightMessage at h
  cases hbody : msg.body <;> rw [hbody] at h
  case certificate cert => exact dispatches_acceptCertificate hbody hstate h
  case certificateVerify cv =>
    exact dispatches_acceptCertificateVerify hbody hstate (by rw [hrole]; exact h)
  case finished verifyData =>
    obtain ⟨e, rfl, rfl⟩ | ⟨k, -, -, h⟩ := checkFinished_cases h
    · exact .refused _
    · obtain ⟨e, rfl, r', hsend, -⟩ | ⟨c₂, hs, hsend, -, rfl, rfl⟩ := sendClientFlight_cases h
      · exact .stalled hbody hstate ((sent_sendClientMessages env).of_eq hsend).1
      · have hsent := ((sent_sendClientMessages env).of_eq hsend).1
        exact .finished hbody hstate hsent hsent.greeted.fixed rfl (by simp [connectedStates])
  case encryptedExtensions ee =>
    cases h
    exact .extensions hbody hstate
  all_goals
    cases h
    exact .refused _

theorem dispatches_clientFlight (hrole : c.role = .server) (hstate : c.state ∈ flightStates)
    (h : handleClientFlightMessage env msg c = (r, c')) : Dispatches env msg c r c' := by
  unfold handleClientFlightMessage at h
  cases hbody : msg.body <;> rw [hbody] at h
  case certificate cert => exact dispatches_acceptCertificate hbody hstate h
  case certificateVerify cv =>
    exact dispatches_acceptCertificateVerify hbody hstate (by rw [hrole]; exact h)
  case finished verifyData =>
    obtain ⟨e, rfl, rfl⟩ | ⟨k, -, -, h⟩ := checkFinished_cases h
    · exact .refused _
    · obtain ⟨e, -, rfl, rfl⟩ | ⟨hs, -, h⟩ := deriveAppSecrets_cases h
      · exact .stalled hbody hstate (refl_of Sent _)
      · cases h
        exact .finished hbody hstate (refl_of Sent _) rfl rfl (by simp [connectedStates])
  all_goals
    cases h
    exact .refused _

theorem clientOnMessage_cases (h : clientOnMessage env msg c = (r, c')) :
    (∃ e, r = .error (.error e) ∧ c' = c) ∨
    (∃ sh, msg.body = .serverHello sh ∧ c.state ∈ [State.clientWaitServerHello] ∧
      (handleHrr env msg sh c = (r, c') ∨ handleServerHello env sh msg.messageSeq c = (r, c'))) ∨
    (c.state ∈ [State.clientWaitServerFlight] ∧ handleServerFlightMessage env msg c = (r, c')) := by
  unfold clientOnMessage at h
  cases hbody : msg.body <;> simp only [hbody] at h
  case serverHello sh =>
    split at h
    · exact (expecting_cases h).imp_right fun ⟨hs, h⟩ => .inl ⟨sh, rfl, hs, .inl h⟩
    · exact (expecting_cases h).imp_right fun ⟨hs, h⟩ => .inl ⟨sh, rfl, hs, .inr h⟩
  case clientHello ch =>
    cases h
    exact .inl ⟨_, rfl, rfl⟩
  all_goals exact (expecting_cases h).imp_right .inr

theorem serverOnMessage_cases (h : serverOnMessage env msg c = (r, c')) :
    (∃ e, r = .error (.error e) ∧ c' = c) ∨ (∃ ch, msg.body = .clientHello ch ∧
      c.state ∈ [State.serverWaitClientHello, .serverWaitClientHelloCookie] ∧
      handleClientHello env msg ch c = (r, c')) ∨
    (c.state ∈ [State.serverWaitClientFlight] ∧ handleClientFlightMessage env msg c = (r, c')) := by
  unfold serverOnMessage at h
  cases hbody : msg.body <;> simp only [hbody] at h
  case clientHello ch =>
    exact (expecting_cases h).imp_right fun ⟨hs, h⟩ => .inl ⟨ch, rfl, hs, h⟩
  case serverHello | encryptedExtensions =>
    cases h
    exact .inl ⟨_, rfl, rfl⟩
  all_goals exact (expecting_cases h).imp_right .inr

theorem dispatches (h : onHandshakeMessage env msg c = (r, c')) : Dispatches env msg c r c' := by
  unfold onHandshakeMessage at h
  rw [get_bind] at h
  cases hrole : c.role with
  | client =>
    rw [hrole] at h
    obtain ⟨e, rfl, rfl⟩ | ⟨sh, hbody, hstate, hhello⟩ | ⟨hstate, h⟩ := clientOnMessage_cases h
    · exact .refused e
    · obtain ⟨hgreeted, hr⟩ : Greeted c c' ∧ r ≠ .error .panic := by
        rcases hhello with h | h
        · exact (greeted_handleHrr env _ _).of_eq h
        · exact (greeted_handleServerHello env _ _).of_eq h
      exact .hello (by rw [hbody]; trivial) (by rw [List.mem_singleton.mp hstate]; decide) hr
        hgreeted
    · exact dispatches_serverFlight hrole (by rw [List.mem_singleton.mp hstate]; decide) h
  | server =>
    rw [hrole] at h
    obtain ⟨e, rfl, rfl⟩ | ⟨ch, hbody, hstate, h⟩ | ⟨hstate, h⟩ := serverOnMessage_cases h
    · exact .refused e
    · obtain ⟨hgreeted, hr⟩ := (greeted_handleClientHello env _ _).of_eq h
      have hhello : [State.serverWaitClientHello, .serverWaitClientHelloCookie] ⊆ helloStates := by
        decide
      exact .hello (by rw [hbody]; trivial) (hhello hstate) hr hgreeted
    · exact dispatches_clientFlight hrole (by rw [List.mem_singleton.mp hstate]; decide) h

theorem Dispatches.fixed (h : Dispatches env msg c r c') : c'.fixed = c.fixed := by
  cases h with
  | hello _ _ _ h => exact h.fixed
  | stalled _ _ h => exact h.greeted.fixed
  | finished _ _ _ hfixed => exact hfixed
  | _ => rfl

theorem Dispatches.returns (h : Dispatches env msg c r c') : r ≠ .error .panic := by
  cases h with
  | hello _ _ hr => exact hr
  | _ => nofun

theorem handleHandshakeBytes_cases (h : handleHandshakeBytes env bytes c = (r, c')) :
    (∃ msg, parseHandshake bytes = .ok (some msg) ∧ onHandshakeMessage env msg c = (r, c')) ∨
      ((∀ msg, parseHandshake bytes ≠ .ok (some msg)) ∧ r ≠ .error .panic ∧ c' = c) := by
  unfold handleHandshakeBytes at h
  cases hparse : parseHandshake bytes with
  | error e =>
    rw [hparse] at h
    cases h
    exact .inr ⟨nofun, nofun, rfl⟩
  | ok msg =>
    rw [hparse, bind_of_ok (lift_ok _ _)] at h
    cases msg with
    | none =>
      cases h
      exact .inr ⟨nofun, nofun, rfl⟩
    | some msg => exact .inl ⟨msg, rfl, h⟩

theorem handleHandshakeBytes_fixed (h : handleHandshakeBytes env bytes c = (r, c')) :
    c'.fixed = c.fixed ∧ r ≠ .error .panic := by
  obtain ⟨msg, -, h⟩ | ⟨-, hr, rfl⟩ := handleHandshakeBytes_cases h
  · exact ⟨(dispatches h).fixed, (dispatches h).returns⟩
  · exact ⟨rfl, hr⟩

end Connection

end TptRfc.Dtls
