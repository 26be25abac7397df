import TptRfc.Dtls.Record

/-!
# DTLS: the connection state machine

A `Connection` drives one side of the handshake.
-/

namespace TptRfc.Dtls

open Lib Exec

/-! ## The retransmission timer -/

inductive RetransmitEvent where
  | none
  | retransmit
  | abort
  deriving DecidableEq

structure RetransmitTimer where
  base : ℕ
  max : ℕ
  current : ℕ
  elapsed : ℕ
  retries : ℕ
  maxRetries : ℕ
  armed : Bool

def durationMax : ℕ := (2 ^ 64 - 1) * 10 ^ 9 + 999999999

namespace RetransmitTimer

def new (base max maxRetries : ℕ) : RetransmitTimer where
  base := base
  max := max
  current := base
  elapsed := 0
  retries := 0
  maxRetries := maxRetries
  armed := false

def arm (t : RetransmitTimer) : RetransmitTimer :=
  { t with current := t.base, elapsed := 0, retries := 0, armed := true }

def disarm (t : RetransmitTimer) : RetransmitTimer :=
  { t with armed := false, elapsed := 0, retries := 0 }

def tick (t : RetransmitTimer) (dt : ℕ) : Option (RetransmitEvent × RetransmitTimer) :=
  if t.armed = false then some (.none, t)
  else if durationMax < t.elapsed + dt then none
  else if t.elapsed + dt < t.current then some (.none, { t with elapsed := t.elapsed + dt })
  else if t.maxRetries < t.retries + 1 then
    some (.abort, { t with elapsed := 0, retries := t.retries + 1, armed := false })
  else
    some (.retransmit,
      { t with elapsed := 0, retries := t.retries + 1, current := min (t.current * 2) t.max })

end RetransmitTimer

/-! ## The state -/

inductive ConnectionRole where
  | client
  | server
  deriving DecidableEq

def ConnectionRole.peer : ConnectionRole → ConnectionRole
  | client => server
  | server => client

inductive State where
  | clientStart
  | clientWaitServerHello
  | clientWaitServerFlight
  | clientConnected
  | serverStart
  | serverWaitClientHello
  | serverWaitClientHelloCookie
  | serverWaitClientFlight
  | serverConnected
  deriving DecidableEq

structure ClientConfig where
  cipherSuites : List CipherSuite
  identity : Ed25519KeyPair
  connectionId : Option Bytes
  serverVerifier : Bytes → Bool

structure ServerConfig where
  cipherSuites : List CipherSuite
  identity : Ed25519KeyPair
  connectionId : Option Bytes
  cookieSecret : FixedBytes 32
  clientAddress : Bytes
  clientVerifier : Bytes → Bool

structure Connection where
  role : ConnectionRole
  suite : CipherSuite
  /-- Accumulated handshake-message bytes. -/
  transcript : Bytes
  /-- Next send sequence number per epoch. -/
  sendSeq : Fin 3 → ℕ
  /-- Outgoing handshake `message_seq` counter. -/
  msgSeqCounter : UInt16
  /-- Length of the connection id expected on incoming records (0 = none). -/
  recvCidLen : ℕ
  /-- Our connection id appended to outgoing protected records. -/
  sendCid : Option Bytes
  clientHs : Option TrafficKeys
  serverHs : Option TrafficKeys
  clientApp : Option TrafficKeys
  serverApp : Option TrafficKeys
  handshakeSecret : Option Bytes
  dhe : Option (FixedBytes 32)
  clientRandom : FixedBytes 32
  serverRandom : FixedBytes 32
  clientKs : Option X25519KeyPair
  serverKs : Option X25519KeyPair
  peerRawPubkey : Option Bytes
  pendingCookie : Option Bytes
  identity : Ed25519KeyPair
  verifier : Bytes → Bool
  /-- Pending outbound records. -/
  out : List Bytes
  state : State
  retransmit : RetransmitTimer
  /-- The current flight to retransmit, if any. -/
  pendingFlight : Option (List Bytes)
  cookieMaker : Option CookieMaker
  clientAddress : Bytes
  /-- Decrypted application data that was not yet read. -/
  appInbox : List Bytes
  connected : Bool
  /-- Per-epoch anti-replay windows for received records. -/
  recvReplay : List ReplayWindow

abbrev Method (α : Type) := Exec Connection DtlsError α

namespace Connection

def blank (role : ConnectionRole) (suite : CipherSuite) (identity : Ed25519KeyPair)
    (verifier : Bytes → Bool) : Connection where
  role := role
  suite := suite
  transcript := []
  sendSeq := fun _ => 0
  msgSeqCounter := 0
  recvCidLen := 0
  sendCid := none
  clientHs := none
  serverHs := none
  clientApp := none
  serverApp := none
  handshakeSecret := none
  dhe := none
  clientRandom := FixedBytes.replicate 32 0
  serverRandom := FixedBytes.replicate 32 0
  clientKs := none
  serverKs := none
  peerRawPubkey := none
  pendingCookie := none
  identity := identity
  verifier := verifier
  out := []
  state := match role with
    | .client => .clientStart
    | .server => .serverStart
  retransmit := .new (100 * 10 ^ 6) (60 * 10 ^ 9) 10
  pendingFlight := none
  cookieMaker := none
  clientAddress := []
  appInbox := []
  connected := false
  recvReplay := List.replicate 3 (ReplayWindow.new 64)

def newClient (config : ClientConfig) (ks : X25519KeyPair) (random : FixedBytes 32) :
    Except DtlsError Connection :=
  match config.cipherSuites with
  | [] => .error (.handshakeIncomplete "no cipher suites")
  | suite :: _ =>
    .ok { blank .client suite config.identity config.serverVerifier with
      sendCid := config.connectionId
      recvCidLen := (config.connectionId.map List.length).getD 0
      clientKs := some ks
      clientRandom := random }

def newServer (config : ServerConfig) (ks : X25519KeyPair) (random : FixedBytes 32) :
    Except DtlsError Connection :=
  match config.cipherSuites with
  | [] => .error (.handshakeIncomplete "no cipher suites")
  | suite :: _ =>
    .ok { blank .server suite config.identity config.clientVerifier with
      sendCid := config.connectionId
      recvCidLen := (config.connectionId.map List.length).getD 0
      cookieMaker := some ⟨config.cookieSecret⟩
      clientAddress := config.clientAddress
      serverKs := some ks
      serverRandom := random
      state := .serverWaitClientHello }

def hash (c : Connection) : HashAlg := c.suite.hashAlg

def ks (c : Connection) : KeySchedule := ⟨c.hash⟩

def isConnected (c : Connection) : Bool := c.connected

def trafficKeysOf (c : Connection) (sender : ConnectionRole) (epoch : ℕ) :
    Except DtlsError TrafficKeys :=
  match sender, epoch with
  | .client, 1 => c.clientHs.elim (.error (.handshakeIncomplete "client hs keys missing")) .ok
  | .client, 2 => c.clientApp.elim (.error (.handshakeIncomplete "client app keys missing")) .ok
  | .server, 1 => c.serverHs.elim (.error (.handshakeIncomplete "server hs keys missing")) .ok
  | .server, 2 => c.serverApp.elim (.error (.handshakeIncomplete "server app keys missing")) .ok
  | _, _ => .error (.handshakeIncomplete "no keys for epoch")

def outgoingKeys (c : Connection) (epoch : ℕ) : Except DtlsError TrafficKeys :=
  c.trafficKeysOf c.role epoch

def incomingKeys (c : Connection) (epoch : ℕ) : Except DtlsError TrafficKeys :=
  c.trafficKeysOf c.role.peer epoch

instance : NeZero 3 := ⟨by decide⟩

def handshakeEpoch (c : Connection) : Fin 3 :=
  if c.clientHs.isSome ∨ c.serverHs.isSome then 1 else 0

/-! ## Sending -/

variable (env : Crypto)

def txHash (c : Connection) : Bytes := env.digest c.hash c.transcript

def bumpSeq (epoch : Fin 3) : Method Unit :=
  Exec.modify fun c => { c with sendSeq := Function.update c.sendSeq epoch (c.sendSeq epoch + 1) }

def encrypt (epoch : Fin 3) (innerType : UInt8) (content : Bytes) : Method Bytes := do
  let c ← get
  if epoch = 0 then
    if maxSequence < c.sendSeq 0 then fail (.sequenceOverflow 0)
    else do
      bumpSeq 0
      pure (buildCleartext contentHandshake 0 (c.sendSeq 0) content)
  else do
    let keys ← lift (c.outgoingKeys epoch)
    if maxSequence < c.sendSeq epoch then fail (.sequenceOverflow epoch)
    else do
      bumpSeq epoch
      lift (buildProtected env c.suite keys.key keys.iv (UInt16.ofNat epoch)
        (c.sendSeq epoch) contentApplicationData innerType content c.sendCid)

def extendTranscript (bytes : Bytes) : Method Unit :=
  Exec.modify fun c => { c with transcript := c.transcript ++ bytes }

def sendHandshake (body : HandshakeBody) : Method Unit := do
  let c ← get
  let bytes := (HandshakeMessage.new body c.msgSeqCounter).encode
  Exec.modify fun c => { c with msgSeqCounter := c.msgSeqCounter + 1 }
  let datagram ← encrypt env (if c.connected then 2 else c.handshakeEpoch) contentHandshake bytes
  extendTranscript bytes
  Exec.modify fun c => { c with out := c.out ++ [datagram] }

def armFlight : Method Unit :=
  Exec.modify fun c => { c with pendingFlight := some c.out, retransmit := c.retransmit.arm }

def clearFlight : Method Unit :=
  Exec.modify fun c => { c with pendingFlight := none, retransmit := c.retransmit.disarm }

def setState (state : State) : Method Unit := Exec.modify fun c => { c with state := state }

/-! ## Key schedule and signing helpers -/

def buildClientHello (c : Connection) (withCookie : Bool) : Except DtlsError ClientHello :=
  match c.clientKs with
  | none => .error (.handshakeIncomplete "no client key share")
  | some ks =>
    .ok
      { random := c.clientRandom
        sessionId := []
        cipherSuites := [c.suite.code]
        groups := [groupX25519]
        sigAlgs := [sigschemeEd25519]
        keyShare := [{ group := groupX25519, keyExchange := ks.publicBytes.val }]
        cookie := if withCookie then c.pendingCookie else none
        connectionId := c.sendCid }

def serverCvContext : Bytes := labelBytes "TLS 1.3, server CertificateVerify"

def clientCvContext : Bytes := labelBytes "TLS 1.3, client CertificateVerify"

def cvMessage (context ts : Bytes) : Bytes := context ++ [0x20] ++ ts

def buildCv (c : Connection) (context ts : Bytes) : CertificateVerify where
  algorithm := sigschemeEd25519
  signature := (c.identity.sign (cvMessage context ts)).val

def verifyCv (c : Connection) (context ts : Bytes) (cv : CertificateVerify) :
    Except DtlsError Unit :=
  match c.peerRawPubkey with
  | none => .error (.handshakeIncomplete "no peer public key")
  | some pk =>
    if env.ed25519Verify pk (cvMessage context ts) cv.signature then .ok ()
    else .error .certificateVerifyFailed

def handshakeSecretOf (ks : KeySchedule) (dhe : FixedBytes 32) : Bytes :=
  let pki := List.replicate ks.hash.outputLen 0
  let early := ks.extract env (some pki) pki
  let derived := ks.expandLabel env early "derived" [] ks.hash.outputLen
  ks.extract env (some derived) dhe.val

def masterSecretOf (ks : KeySchedule) (hsSecret : Bytes) : Bytes :=
  let pki := List.replicate ks.hash.outputLen 0
  let derived2 := ks.expandLabel env hsSecret "derived" [] ks.hash.outputLen
  ks.extract env (some derived2) pki

def trafficKeysFor (c : Connection) (secret : Bytes) (label : String) (hash : Bytes) :
    TrafficKeys :=
  TrafficKeys.fromSecret env c.ks c.suite (c.ks.deriveSecret env secret label hash)

def deriveHandshakeSecrets (dhe : FixedBytes 32) : Method Unit :=
  Exec.modify fun c =>
    let hsSecret := handshakeSecretOf env c.ks dhe
    { c with
      clientHs := some (c.trafficKeysFor env hsSecret "c hs traffic" (c.txHash env))
      serverHs := some (c.trafficKeysFor env hsSecret "s hs traffic" (c.txHash env))
      handshakeSecret := some hsSecret }

def deriveAppSecrets : Method Unit := do
  let c ← get
  let hs ← okOr c.handshakeSecret (.handshakeIncomplete "no handshake secret")
  let master := masterSecretOf env c.ks hs
  Exec.modify fun c =>
    { c with
      clientApp := some (c.trafficKeysFor env master "c ap traffic" (c.txHash env))
      serverApp := some (c.trafficKeysFor env master "s ap traffic" (c.txHash env)) }

def verifyDataFor (c : Connection) (keys : TrafficKeys) : Bytes :=
  c.ks.finishedVerifyData env (keys.finishedKey env c.ks) (c.txHash env)

/-! ## The messages of an encrypted flight, common to both roles -/

def sendCertificate : Method Unit := do
  let c ← get
  sendHandshake env
    (.certificate { requestContext := [], certData := c.identity.publicBytes.val })

def sendCertificateVerify (context : Bytes) : Method Unit := do
  let c ← get
  sendHandshake env (.certificateVerify (c.buildCv context (c.txHash env)))

def sendFinished (keys : Connection → Option TrafficKeys) (missing : String) : Method Unit := do
  let c ← get
  let keys ← okOr (keys c) (.handshakeIncomplete missing)
  sendHandshake env (.finished (c.verifyDataFor env keys))

def acceptCertificate (msg : HandshakeMessage) (cert : Certificate) : Method Unit := do
  let c ← get
  if c.verifier cert.certData then do
    Exec.modify fun c => { c with peerRawPubkey := some cert.certData }
    extendTranscript msg.encode
  else fail .certificateVerifyFailed

def acceptCertificateVerify (context : Bytes) (msg : HandshakeMessage)
    (cv : CertificateVerify) : Method Unit := do
  let c ← get
  lift (c.verifyCv env context (c.txHash env) cv)
  extendTranscript msg.encode

def checkFinished (keys : Connection → Option TrafficKeys) (missing : String)
    (msg : HandshakeMessage) (verifyData : Bytes) : Method Unit := do
  let c ← get
  let keys ← okOr (keys c) (.handshakeIncomplete missing)
  if c.verifyDataFor env keys = verifyData then extendTranscript msg.encode
  else fail .finishedMismatch

/-! ## Client-side handlers -/

def handleHrr (msg : HandshakeMessage) (hrr : ServerHello) : Method Unit := do
  extendTranscript msg.encode
  Exec.modify fun c => { c with pendingCookie := hrr.cookie }
  setState .clientWaitServerHello
  let c ← get
  let ch ← lift (c.buildClientHello true)
  sendHandshake env (.clientHello ch)
  armFlight

def handleServerHello (sh : ServerHello) (msgSeq : UInt16) : Method Unit := do
  Exec.modify fun c => { c with serverRandom := sh.random }
  let entry ← okOr sh.keyShare (.handshakeIncomplete "server hello missing key_share")
  let c ← get
  let clientKs ← okOr c.clientKs (.handshakeIncomplete "no client key share")
  let dhe ← lift (clientKs.agree entry.keyExchange)
  Exec.modify fun c => { c with dhe := some dhe }
  extendTranscript (HandshakeMessage.new (.serverHello sh) msgSeq).encode
  deriveHandshakeSecrets env dhe
  setState .clientWaitServerFlight
  clearFlight

def sendClientMessages : Method Unit := do
  sendCertificate env
  sendCertificateVerify env clientCvContext
  sendFinished env (·.clientHs) "client hs keys"

def sendClientFlight : Method Unit := do
  sendClientMessages env
  deriveAppSecrets env
  Exec.modify fun c => { c with connected := true, state := .clientConnected }
  armFlight

def handleServerFlightMessage (msg : HandshakeMessage) : Method Unit :=
  match msg.body with
  | .certificate cert => acceptCertificate msg cert
  | .certificateVerify cv => acceptCertificateVerify env serverCvContext msg cv
  | .finished verifyData => do
    checkFinished env (·.serverHs) "server hs keys" msg verifyData
    sendClientFlight env
  | .encryptedExtensions _ => extendTranscript msg.encode
  | _ => fail (.unexpectedHandshake msg.msgType)

def expecting (states : List State) (msg : HandshakeMessage) (handler : Method Unit) :
    Method Unit := do
  let c ← get
  if c.state ∈ states then handler else fail (.unexpectedHandshake msg.msgType)

def clientOnMessage (msg : HandshakeMessage) : Method Unit :=
  match msg.body with
  | .serverHello sh =>
    if sh.isHelloRetryRequest then
      expecting [.clientWaitServerHello] msg (handleHrr env msg sh)
    else expecting [.clientWaitServerHello] msg (handleServerHello env sh msg.messageSeq)
  | .encryptedExtensions _ | .certificate _ | .certificateVerify _ | .finished _ =>
    expecting [.clientWaitServerFlight] msg (handleServerFlightMessage env msg)
  | .clientHello _ => fail (.unexpectedHandshake msg.msgType)

/-! ## Server-side handlers -/

def sendServerFlight : Method Unit := do
  sendHandshake env (.encryptedExtensions { extensions := [] })
  sendCertificate env
  sendCertificateVerify env serverCvContext
  sendFinished env (·.serverHs) "server hs keys"

def handleFirstClientHello (ch : ClientHello) : Method Unit := do
  let c ← get
  let maker ← okOr c.cookieMaker (.handshakeIncomplete "no cookie maker")
  sendHandshake env (.serverHello
    { random := hrrRandom
      sessionIdEcho := ch.sessionId
      cipherSuite := c.suite.code
      keyShare := none
      connectionId := c.sendCid
      cookie := some (maker.generate env c.clientAddress ch.random.val) })
  setState .serverWaitClientHelloCookie
  clearFlight
  armFlight

def handleSecondClientHello (ch : ClientHello) (cookie : Bytes) : Method Unit := do
  let c ← get
  let maker ← okOr c.cookieMaker (.handshakeIncomplete "no cookie maker")
  if maker.generate env c.clientAddress ch.random.val = cookie then do
    let entry ← okOr ch.keyShare.head? (.handshakeIncomplete "client hello missing key_share")
    let serverKs ← okOr c.serverKs (.handshakeIncomplete "no server key share")
    let dhe ← lift (serverKs.agree entry.keyExchange)
    Exec.modify fun c => { c with dhe := some dhe }
    sendHandshake env (.serverHello
      { random := c.serverRandom
        sessionIdEcho := ch.sessionId
        cipherSuite := c.suite.code
        keyShare := some { group := groupX25519, keyExchange := serverKs.publicBytes.val }
        connectionId := c.sendCid
        cookie := none })
    deriveHandshakeSecrets env dhe
    sendServerFlight env
    setState .serverWaitClientFlight
    clearFlight
    armFlight
  else fail .cookieMismatch

def handleClientHello (msg : HandshakeMessage) (ch : ClientHello) : Method Unit := do
  extendTranscript msg.encode
  match ch.cookie with
  | none => handleFirstClientHello env ch
  | some cookie => handleSecondClientHello env ch cookie

def handleClientFlightMessage (msg : HandshakeMessage) : Method Unit :=
  match msg.body with
  | .certificate cert => acceptCertificate msg cert
  | .certificateVerify cv => acceptCertificateVerify env clientCvContext msg cv
  | .finished verifyData => do
    checkFinished env (·.clientHs) "client hs keys" msg verifyData
    deriveAppSecrets env
    Exec.modify fun c => { c with connected := true, state := .serverConnected }
    clearFlight
  | _ => fail (.unexpectedHandshake msg.msgType)

def serverOnMessage (msg : HandshakeMessage) : Method Unit :=
  match msg.body with
  | .clientHello ch =>
    expecting [.serverWaitClientHello, .serverWaitClientHelloCookie] msg
      (handleClientHello env msg ch)
  | .certificate _ | .certificateVerify _ | .finished _ =>
    expecting [.serverWaitClientFlight] msg (handleClientFlightMessage env msg)
  | .serverHello _ | .encryptedExtensions _ => fail (.unexpectedHandshake msg.msgType)

def onHandshakeMessage (msg : HandshakeMessage) : Method Unit := do
  let c ← get
  match c.role with
  | .client => clientOnMessage env msg
  | .server => serverOnMessage env msg

/-! ## Receiving -/

def handleHandshakeBytes (bytes : Bytes) : Method Unit := do
  let msg ← lift (parseHandshake bytes)
  match msg with
  | some msg => onHandshakeMessage env msg
  | none => pure ()

def checkReplay (epoch sequence : ℕ) : Method Bool := fun c =>
  match c.recvReplay[epoch]? with
  | none => (.error .panic, c)
  | some window =>
    ((ReplayWindow.check sequence window).1,
      { c with recvReplay := c.recvReplay.set epoch (ReplayWindow.check sequence window).2 })

def opened (c : Connection) (record : Record) : Except DtlsError (UInt8 × Bytes) := do
  let keys ← c.incomingKeys record.header.epoch.toNat
  openProtected env c.suite keys.key keys.iv record.header record.body

def passOn (record : Record) (innerType : UInt8) (content : Bytes) : Method (ℕ × Option Bytes) :=
  if innerType = contentHandshake then pure (record.size, some content)
  else if innerType = contentApplicationData then do
    Exec.modify fun c => { c with appInbox := c.appInbox ++ [content] }
    pure (record.size, none)
  else pure (record.size, none)

/-- Treat one record: the bytes by which the loop advances, and the handshake bytes that the record
carries, if any. -/
def receiveRecord (record : Record) : Method (ℕ × Option Bytes) := do
  if record.header.epoch = 0 ∧ record.header.contentType = contentHandshake then
    pure (record.size, some record.body)
  else if 1 ≤ record.header.epoch then do
    let fresh ← checkReplay record.header.epoch.toNat record.header.sequence
    if fresh then do
      let c ← get
      let (innerType, content) ← lift (c.opened env record)
      passOn record innerType content
    else pure (record.size + record.size, none)
  else pure (record.size, none)

def receiveAt (datagram : Bytes) (pos : ℕ) : Method ℕ := do
  let c ← get
  let record ← lift (splitRecord c.recvCidLen (datagram.drop pos))
  let (advance, handshake) ← receiveRecord env record
  match handshake with
  | some bytes => handleHandshakeBytes env bytes
  | none => pure ()
  pure (pos + advance)

def receiveFrom (datagram : Bytes) : ℕ → ℕ → Method Unit
  | 0, _ => Exec.abort
  | fuel + 1, pos =>
    if pos < datagram.length then do
      let pos' ← receiveAt env datagram pos
      receiveFrom datagram fuel pos'
    else pure ()

def processDatagram (datagram : Bytes) : Method Unit :=
  receiveFrom env datagram (datagram.length + 1) 0

/-! ## The rest of the interface -/

def start : Method Unit := do
  let c ← get
  if c.role = .client then do
    setState .clientWaitServerHello
    let ch ← lift (c.buildClientHello false)
    sendHandshake env (.clientHello ch)
    armFlight
  else fail (.wrongRole "start is client-only")

def takeOutput : Method Bytes := do
  let c ← get
  Exec.modify fun c => { c with out := [] }
  pure c.out.flatten

def tick (dt : ℕ) : Method RetransmitEvent := do
  let c ← get
  match c.retransmit.tick dt with
  | none => Exec.abort
  | some (event, timer) => do
    Exec.modify fun c => { c with retransmit := timer }
    if event = .retransmit then
      Exec.modify fun c => { c with out := c.out ++ c.pendingFlight.getD [] }
    else pure ()
    pure event

def sendAppData (data : Bytes) : Method Unit := do
  let c ← get
  if c.connected then do
    let datagram ← encrypt env 2 contentApplicationData data
    Exec.modify fun c => { c with out := c.out ++ [datagram] }
  else fail (.handshakeIncomplete "not connected")

def recvAppData : Method (Option Bytes) := do
  let c ← get
  Exec.modify fun c => { c with appInbox := c.appInbox.tail }
  pure c.appInbox.head?

end Connection

end TptRfc.Dtls
