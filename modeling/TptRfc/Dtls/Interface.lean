import TptRfc.Dtls.Receive

/-!
# DTLS: calls of the interface

The six calls on a connection, in any order and with any arguments; a datagram is
whatever the network delivers.
-/

namespace TptRfc.Dtls

open Lib List Exec

inductive Call where
  | start
  | processDatagram (datagram : Bytes)
  | tick (dt : ℕ)
  | takeOutput
  | sendAppData (data : Bytes)
  | recvAppData

namespace Connection

variable (env : Crypto)

def call (c : Connection) : Call → Connection
  | .start => (start env c).2
  | .processDatagram datagram => (processDatagram env datagram c).2
  | .tick dt => (tick dt c).2
  | .takeOutput => (takeOutput c).2
  | .sendAppData data => (sendAppData env data c).2
  | .recvAppData => (recvAppData c).2

def calls (c : Connection) (cs : List Call) : Connection := cs.foldl (call env) c

@[simp] theorem calls_nil (c : Connection) : calls env c [] = c := rfl

@[simp] theorem calls_concat (c : Connection) (cs : List Call) (a : Call) :
    calls env c (cs ++ [a]) = call env (calls env c cs) a := by
  simp [calls]

inductive Fresh : Connection → Prop
  | client {config : ClientConfig} {ks : X25519KeyPair} {random : FixedBytes 32} {c : Connection}
      (h : newClient config ks random = .ok c) : Fresh c
  | server {config : ServerConfig} {ks : X25519KeyPair} {random : FixedBytes 32} {c : Connection}
      (h : newServer config ks random = .ok c) : Fresh c

variable {c c' : Connection} {epoch : ℕ} {window : ReplayWindow} {record : Record}

theorem Fresh.eq_blank (h : Fresh c) : c = { blank c.role c.suite c.identity c.verifier with
      recvCidLen := c.recvCidLen
      sendCid := c.sendCid
      clientRandom := c.clientRandom
      serverRandom := c.serverRandom
      clientKs := c.clientKs
      serverKs := c.serverKs
      cookieMaker := c.cookieMaker
      clientAddress := c.clientAddress
      state := c.state } := by
  cases h with
  | client h =>
    unfold newClient at h
    split at h <;> cases h
    rfl
  | server h =>
    unfold newServer at h
    split at h <;> cases h
    rfl

variable {ks : X25519KeyPair} {random : FixedBytes 32} {sequence : ℕ}
  {r : Except (Fault DtlsError) (ℕ × Option Bytes)}

theorem newClient_eq_ok {config : ClientConfig} (h : newClient config ks random = .ok c) :
    c.role = .client ∧ c.state = .clientStart := by
  unfold newClient at h
  split at h <;> cases h
  exact ⟨rfl, rfl⟩

theorem newServer_eq_ok {config : ServerConfig}
    (h : newServer config ks random = .ok c) : c.role = .server := by
  unfold newServer at h
  split at h <;> cases h
  rfl

def Reachable (c : Connection) : Prop := ∃ c₀ cs, Fresh c₀ ∧ c = calls env c₀ cs

theorem Reachable.induct {env : Crypto} {P : Connection → Prop} (hfresh : ∀ c, Fresh c → P c)
    (hcall : ∀ c a, P c → P (call env c a)) (h : Reachable env c) : P c := by
  obtain ⟨c₀, cs, h₀, rfl⟩ := h
  induction cs using reverseRecOn with
  | nil => exact hfresh c₀ h₀
  | append_singleton cs a ih =>
    rw [calls_concat]
    exact hcall _ a ih

/-! ## What the calls touch -/

def Housekept (c c' : Connection) : Prop :=
  ∃ seq out timer inbox,
    c' = { c with sendSeq := seq, out := out, retransmit := timer, appInbox := inbox }

theorem tick_cases (c : Connection) (dt : ℕ) :
    ∃ timer out, (tick dt c).2 = { c with retransmit := timer, out := out } ∧
      (out = c.out ∨ out = c.out ++ c.pendingFlight.getD []) := by
  unfold tick
  rw [get_bind]
  cases c.retransmit.tick dt with
  | none => exact ⟨c.retransmit, c.out, rfl, .inl rfl⟩
  | some result =>
    obtain ⟨event, timer⟩ := result
    cases event with
    | retransmit => exact ⟨timer, _, rfl, .inr rfl⟩
    | none | abort => exact ⟨timer, c.out, rfl, .inl rfl⟩

theorem housekept_tick (c : Connection) (dt : ℕ) : Housekept c (tick dt c).2 := by
  obtain ⟨timer, out, htick, -⟩ := tick_cases c dt
  rw [htick]
  exact ⟨c.sendSeq, out, timer, c.appInbox, rfl⟩

theorem sendAppData_cases {env : Crypto} {data : Bytes}
    {r : Except (Fault DtlsError) Unit} (h : sendAppData env data c = (r, c')) :
    (∃ e seq, r = .error (.error e) ∧ c' = { c with sendSeq := seq }) ∨
      (∃ record, r = .ok () ∧ c.connected = true ∧
        Emits env c 2 contentApplicationData data record ∧
        c' = { c with
          sendSeq := Function.update c.sendSeq 2 (c.sendSeq 2 + 1),
          out := c.out ++ [record] }) := by
  unfold sendAppData at h
  rw [get_bind] at h
  split at h
  · rename_i hconnected
    obtain ⟨record, c₁, henc, h⟩ | ⟨e, henc, rfl⟩ := bind_cases h
    · obtain ⟨e, seq, hr, -⟩ | ⟨record', hr, hemits, rfl⟩ := encrypt_cases henc
      · cases hr
      · cases hr
        cases h
        exact .inr ⟨record, rfl, hconnected, hemits, rfl⟩
    · obtain ⟨e, seq, hr, rfl⟩ | ⟨record', hr, -⟩ := encrypt_cases henc
      · cases hr
        exact .inl ⟨e, seq, rfl, rfl⟩
      · cases hr
  · cases h
    exact .inl ⟨_, c.sendSeq, rfl, rfl⟩

theorem housekept_sendAppData (c : Connection) (data : Bytes) :
    Housekept c (sendAppData env data c).2 := by
  rcases h : sendAppData env data c with ⟨r, c'⟩
  obtain ⟨e, seq, -, rfl⟩ | ⟨record, -, -, -, rfl⟩ := sendAppData_cases h
  · exact ⟨seq, c.out, c.retransmit, c.appInbox, rfl⟩
  · exact ⟨_, _, c.retransmit, c.appInbox, rfl⟩

theorem call_cases (c : Connection) (a : Call) :
    a = .start ∨ (∃ datagram, a = .processDatagram datagram) ∨
      ((∀ datagram, a ≠ .processDatagram datagram) ∧ Housekept c (call env c a)) := by
  cases a with
  | start => exact .inl rfl
  | processDatagram datagram => exact .inr (.inl ⟨datagram, rfl⟩)
  | tick dt => exact .inr (.inr ⟨nofun, housekept_tick c dt⟩)
  | takeOutput => exact .inr (.inr ⟨nofun, c.sendSeq, [], c.retransmit, c.appInbox, rfl⟩)
  | sendAppData data => exact .inr (.inr ⟨nofun, housekept_sendAppData env c data⟩)
  | recvAppData => exact .inr (.inr ⟨nofun, c.sendSeq, c.out, c.retransmit, c.appInbox.tail, rfl⟩)

theorem greeted_start : Safe Greeted (start env) := by
  refine Safe.get_bind fun c => ?_
  split
  · exact (greeted_setState _).bind fun _ => (Safe.lift _).bind fun _ =>
      (greeted_sendHandshake env _).bind fun _ => greeted_armFlight
  · exact .fail _

theorem windowsWellFormed_of_fresh (h : Fresh c) : c.WindowsWellFormed := by
  have hblank : c.recvReplay = List.replicate 3 (ReplayWindow.new 64) := by rw [h.eq_blank]; rfl
  refine ⟨by rw [hblank]; rfl, fun w hw => ?_⟩
  rw [hblank] at hw
  rw [eq_of_mem_replicate hw]
  exact ReplayWindow.wellFormed_new 64

theorem WindowsWellFormed.call (hc : c.WindowsWellFormed) (a : Call) :
    (call env c a).WindowsWellFormed := by
  obtain rfl | ⟨datagram, rfl⟩ | ⟨-, seq, out, timer, inbox, h⟩ := call_cases env c a
  · exact hc.of_fixed ((greeted_start env).moves c).fixed
  · exact receiveFrom_induct (I := fun _ c => c.WindowsWellFormed) hc
      fun _ pos c₁ _ _ h => h.receiveAt env datagram pos
  · rw [h]
    exact ⟨hc.length, hc.wellFormed⟩

theorem Reachable.windowsWellFormed {env : Crypto} (h : Reachable env c) : c.WindowsWellFormed :=
  h.induct (fun _ => windowsWellFormed_of_fresh) fun _ a hc => hc.call env a

/-! ## Records that do not open -/

structure SameProtected (c c' : Connection) : Prop where
  recvReplay : c'.recvReplay = c.recvReplay
  transcript : c'.transcript = c.transcript
  clientHs : c'.clientHs = c.clientHs
  serverHs : c'.serverHs = c.serverHs
  clientApp : c'.clientApp = c.clientApp
  serverApp : c'.serverApp = c.serverApp
  handshakeSecret : c'.handshakeSecret = c.handshakeSecret
  state : c'.state = c.state
  connected : c'.connected = c.connected
  appInbox : c'.appInbox = c.appInbox

theorem SameProtected.refl (c : Connection) : SameProtected c c :=
  ⟨rfl, rfl, rfl, rfl, rfl, rfl, rfl, rfl, rfl, rfl⟩

theorem setWindow_self (h : c.recvReplay[epoch]? = some window) : c.setWindow epoch window = c := by
  obtain ⟨hlt, rfl⟩ := List.getElem?_eq_some_iff.mp h
  rw [setWindow, set_getElem_self]

theorem setWindow_of_not_admits (hc : c.WindowsWellFormed)
    (hwindow : c.recvReplay[epoch]? = some window)
    (h : ¬ window.Admits sequence) : c.setWindow epoch (window.check sequence).2 = c := by
  rw [ReplayWindow.check_of_not_admits (hc.wellFormed _ (mem_of_getElem? hwindow)) h]
  exact setWindow_self hwindow

theorem setWindow_of_admits (hc : c.WindowsWellFormed)
    (hwindow : c.recvReplay[epoch]? = some window) (h : window.Admits sequence) :
    (c.setWindow epoch (window.check sequence).2).recvReplay ≠ c.recvReplay := by
  obtain ⟨hlt, -⟩ := List.getElem?_eq_some_iff.mp hwindow
  intro hsame
  have hget := congrArg (fun windows : List ReplayWindow => windows[epoch]?) hsame
  simp only [setWindow, getElem?_set_self hlt, hwindow, Option.some.injEq] at hget
  have hseen := ReplayWindow.not_admits_check
    (hc.wellFormed _ (mem_of_getElem? hwindow)) sequence (.inl rfl)
  rw [hget] at hseen
  exact hseen h

theorem epoch_ne_zero {epoch : UInt16} (h : 1 ≤ epoch) : epoch ≠ 0 := by
  rintro rfl
  exact absurd h (by decide)

theorem Receives.of_not_admits {env : Crypto} (h : Receives env record c r c')
    (hc : c.WindowsWellFormed) (hepoch : 1 ≤ record.header.epoch)
    (hnew : ∀ w, c.recvReplay[record.header.epoch.toNat]? = some w →
      ¬ w.Admits record.header.sequence) :
    c' = c ∧ ∀ advance handshake, r = .ok (advance, handshake) →
      advance = record.size + record.size ∧ handshake = none := by
  cases h with
  | cleartext h0 | ignored h0 => exact absurd h0 (epoch_ne_zero hepoch)
  | outOfRange => exact ⟨rfl, nofun⟩
  | failed _ hwindow => exact ⟨setWindow_of_not_admits hc hwindow (hnew _ hwindow), nofun⟩
  | refused _ hwindow =>
    refine ⟨setWindow_of_not_admits hc hwindow (hnew _ hwindow), ?_⟩
    rintro advance handshake ⟨⟩
    exact ⟨rfl, rfl⟩
  | unopened _ hwindow hcheck | handshake _ hwindow hcheck => exact absurd hcheck (hnew _ hwindow)
  | data _ hwindow hcheck | other _ hwindow hcheck => exact absurd hcheck (hnew _ hwindow)

theorem Receives.of_admits {env : Crypto} (h : Receives env record c r c')
    (hc : c.WindowsWellFormed)
    (hepoch : 1 ≤ record.header.epoch) (hopen : ∀ x, c.opened env record ≠ .ok x) {w : ReplayWindow}
    (hw : c.recvReplay[record.header.epoch.toNat]? = some w)
    (hadmits : w.Admits record.header.sequence) :
    c'.recvReplay ≠ c.recvReplay ∧ ∃ e, r = .error e := by
  have hsame : ∀ {window}, c.recvReplay[record.header.epoch.toNat]? = some window →
      (window.check record.header.sequence).1 = .ok true := by
    intro window hwindow
    rw [hw] at hwindow
    cases hwindow
    exact hadmits
  cases h with
  | cleartext h0 | ignored h0 => exact absurd h0 (epoch_ne_zero hepoch)
  | outOfRange _ hwindow => rw [hw] at hwindow; cases hwindow
  | failed _ hwindow hcheck | refused _ hwindow hcheck => rw [hsame hwindow] at hcheck; cases hcheck
  | unopened _ hwindow hcheck => exact ⟨setWindow_of_admits hc hwindow hcheck, _, rfl⟩
  | handshake _ _ _ h => exact absurd h (hopen _)
  | data _ _ _ h => exact absurd h (hopen _)
  | other _ _ _ h => exact absurd h (hopen _)

theorem processDatagram_of_not_admits {env : Crypto} {datagram : Bytes} (hc : c.WindowsWellFormed)
    (hsplit : splitRecord c.recvCidLen datagram = .ok record) (hepoch : 1 ≤ record.header.epoch)
    (hnew : ∀ w, c.recvReplay[record.header.epoch.toNat]? = some w →
      ¬ w.Admits record.header.sequence) (hlen : datagram.length ≤ record.size + record.size) :
    (processDatagram env datagram c).2 = c := by
  by_cases hpos : 0 < datagram.length
  · rcases h : receiveAt env datagram 0 c with ⟨r, c'⟩
    obtain ⟨e, hno, -⟩ | ⟨record', hsplit', hcases⟩ := receiveAt_cases h
    · cases hsplit.symm.trans hno
    cases hsplit.symm.trans hsplit'
    rcases hcases with ⟨e, hreceives, rfl⟩ | ⟨advance, hreceives, rfl⟩ |
      ⟨advance, bytes, r', c₁, hreceives, -, -⟩
    · rw [processDatagram, (loop_of_error env datagram.length hpos h).1]
      exact (hreceives.of_not_admits hc hepoch hnew).1
    · obtain ⟨rfl, hadvance⟩ := hreceives.of_not_admits hc hepoch hnew
      obtain ⟨n, hn⟩ : ∃ n, datagram.length = n + 1 := ⟨datagram.length - 1, by omega⟩
      have hend := (hadvance advance none rfl).1
      rw [processDatagram, (loop_of_ok env datagram.length hpos h).1, hn,
        (loop_of_le env n c' (by omega)).1]
    · cases ((hreceives.of_not_admits hc hepoch hnew).2 advance (some bytes) rfl).2
  · rw [processDatagram, (loop_of_le env datagram.length c (not_lt.mp hpos)).1]

/-! ## Sides on concrete inputs -/

def plainKeyPair : X25519KeyPair :=
  ⟨FixedBytes.replicate 32 7, fun _ => .ok (FixedBytes.replicate 32 9)⟩

def plainIdentity : Ed25519KeyPair :=
  ⟨FixedBytes.replicate 32 5, fun _ => FixedBytes.replicate 64 0⟩

def plainClient : Connection :=
  { blank .client .tlsAes128GcmSha256 plainIdentity (fun _ => true) with
    clientKs := some plainKeyPair }

def plainServer : Connection :=
  { blank .server .tlsAes128GcmSha256 plainIdentity (fun _ => true) with
    cookieMaker := some ⟨FixedBytes.replicate 32 0⟩
    serverKs := some plainKeyPair
    state := .serverWaitClientHello }

theorem fresh_plainClient : Fresh plainClient :=
  @Fresh.client ⟨[.tlsAes128GcmSha256], plainIdentity, none, fun _ => true⟩ plainKeyPair
    (FixedBytes.replicate 32 0) _ rfl

def plainRecord (body : HandshakeBody) : Bytes :=
  buildCleartext contentHandshake 0 0 (HandshakeMessage.new body 0).encode

def plainServerHello : HandshakeBody :=
  .serverHello
    { random := FixedBytes.replicate 32 1
      sessionIdEcho := []
      cipherSuite := 0x1301
      keyShare := some { group := groupX25519, keyExchange := FixedBytes.replicate 32 3 }
      connectionId := none
      cookie := none }

def plainWaiting : Connection :=
  calls .plain plainClient [.start, .processDatagram (plainRecord plainServerHello)]

theorem reachable_plainWaiting : Reachable .plain plainWaiting :=
  ⟨plainClient, _, fresh_plainClient, rfl⟩

def forgedRecord (epoch : UInt16) : Record where
  header :=
    { contentType := contentApplicationData, version := dtlsLegacyVersion, epoch := epoch,
      sequence := 5, length := 1 }
  body := [0]
  cid := none
  size := 14

def forgedBytes (epoch : UInt16) : Bytes := (forgedRecord epoch).header.encode ++ [0]

/-! ## Unauthenticated records -/

/-- **When an unauthenticated record changes nothing.**  For a datagram of one
protected record that does not open, the windows, transcript, keys, handshake state
and inbox stay as they are exactly when no window takes its number for new. -/
theorem unopened_unchanged_iff {env : Crypto} {c : Connection} (hreach : Reachable env c)
    {datagram : Bytes} {record : Record} (hsplit : splitRecord c.recvCidLen datagram = .ok record)
    (hone : record.size = datagram.length) (hepoch : 1 ≤ record.header.epoch)
    (hopen : ∀ x, c.opened env record ≠ .ok x) :
    SameProtected c (processDatagram env datagram c).2 ↔
      ∀ w, c.recvReplay[record.header.epoch.toNat]? = some w →
        ¬ w.Admits record.header.sequence := by
  have hc := hreach.windowsWellFormed
  constructor
  · -- were the number new, the record would mark it and fail
    intro hsame w hw hadmits
    have hsize : 13 ≤ record.size := size_le_of_splitRecord hsplit
    have hpos : 0 < datagram.length := by omega
    rcases h : receiveAt env datagram 0 c with ⟨r, c'⟩
    obtain ⟨e, hno, -⟩ | ⟨record', hsplit', hcases⟩ := receiveAt_cases h
    · cases hsplit.symm.trans hno
    cases hsplit.symm.trans hsplit'
    rcases hcases with ⟨e, hreceives, rfl⟩ | ⟨advance, hreceives, -⟩ |
      ⟨advance, bytes, r', c₁, hreceives, -, -⟩
    · have hwindows := hsame.recvReplay
      rw [processDatagram, (loop_of_error env datagram.length hpos h).1] at hwindows
      exact (hreceives.of_admits hc hepoch hopen hw hadmits).1 hwindows
    · obtain ⟨-, e, hr⟩ := hreceives.of_admits hc hepoch hopen hw hadmits
      cases hr
    · obtain ⟨-, e, hr⟩ := hreceives.of_admits hc hepoch hopen hw hadmits
      cases hr
  · intro hnew
    rw [processDatagram_of_not_admits hc hsplit hepoch hnew (by omega)]
    exact SameProtected.refl c

/-- Sent a second time, a forged record changes nothing. -/
theorem unopened_unchanged_again :
    SameProtected (calls .plain plainWaiting [.processDatagram (forgedBytes 1)])
      (processDatagram .plain (forgedBytes 1)
        (calls .plain plainWaiting [.processDatagram (forgedBytes 1)])).2 := by
  have hreach : Reachable .plain (calls .plain plainWaiting [.processDatagram (forgedBytes 1)]) :=
    ⟨plainClient, [.start, .processDatagram (plainRecord plainServerHello),
      .processDatagram (forgedBytes 1)], fresh_plainClient, rfl⟩
  refine (@unopened_unchanged_iff .plain _ hreach (forgedBytes 1) (forgedRecord 1) (by decide)
    (by decide) (by decide) ?_).mpr ?_
  · intro x
    have hopen : opened .plain (calls .plain plainWaiting [.processDatagram (forgedBytes 1)])
        (forgedRecord 1) = .error .decryptFailed := by decide
    rw [hopen]
    nofun
  · intro w hw
    have hseen : ((calls .plain plainWaiting [.processDatagram (forgedBytes 1)]).recvReplay[1]?).map
        (fun w => (w.check 5).1) = some (.ok false) := by decide +kernel
    rw [show (forgedRecord 1).header.epoch.toNat = 1 from rfl] at hw
    rw [hw, Option.map_some, Option.some.injEq] at hseen
    rw [ReplayWindow.Admits, show (forgedRecord 1).header.sequence = 5 from rfl, hseen]
    nofun

/-- Sent for the first time to a client that has its handshake keys, it takes the
number of a genuine record. -/
theorem unopened_changes_window : Reachable .plain plainWaiting ∧
      splitRecord plainWaiting.recvCidLen (forgedBytes 1) = .ok (forgedRecord 1) ∧
      (forgedRecord 1).size = (forgedBytes 1).length ∧
      (∃ keys, plainWaiting.incomingKeys 1 = .ok keys) ∧
      plainWaiting.opened .plain (forgedRecord 1) = .error .decryptFailed ∧
      ¬ SameProtected plainWaiting (processDatagram .plain (forgedBytes 1) plainWaiting).2 := by
  refine ⟨reachable_plainWaiting, by decide, by decide, ⟨_, rfl⟩, by decide, fun h => ?_⟩
  have hwindows := h.recvReplay
  revert hwindows
  decide

/-! ## Panics -/

/-- **When a call returns.**  `process_datagram` returns, with a value or an error,
exactly when every record that its loop reaches claims one of the epochs `0`, `1`
and `2`. -/
theorem processDatagram_returns_iff {env : Crypto} {c : Connection} (hreach : Reachable env c)
    (datagram : Bytes) : (processDatagram env datagram c).1 ≠ .error .panic ↔
      ∀ visit ∈ visits env datagram c, ∀ record,
        splitRecord visit.2.recvCidLen (datagram.drop visit.1) = .ok record →
          record.header.epoch.toNat < 3 := by
  rw [Ne, processDatagram, receiveFrom_panic_iff hreach.windowsWellFormed (by omega), ← visits]
  simp only [not_exists, not_and, not_le]

/-- The forged record claims epoch `1`, so the call returns. -/
theorem processDatagram_returns_forged :
    (processDatagram .plain (forgedBytes 1) plainWaiting).1 ≠ .error .panic := by
  refine (processDatagram_returns_iff reachable_plainWaiting (forgedBytes 1)).mpr ?_
  have hone : (visits .plain (forgedBytes 1) plainWaiting).all (fun visit =>
      splitRecord visit.2.recvCidLen ((forgedBytes 1).drop visit.1) = .ok (forgedRecord 1)) =
      true := by decide +kernel
  intro visit hvisit record hsplit
  have hrecord := of_decide_eq_true (all_eq_true.mp hone visit hvisit)
  rw [hsplit] at hrecord
  cases hrecord
  decide

/-- The same record with epoch `3` takes the connection down, in its first state. -/
theorem processDatagram_panics : Reachable .plain plainClient ∧
      (processDatagram .plain (forgedBytes 3) plainClient).1 = .error .panic :=
  ⟨⟨plainClient, [], fresh_plainClient, rfl⟩, by decide⟩

/-! ## A wrong cookie -/

/-- **A wrong cookie is refused and changes the transcript alone**, which the hello always
makes longer. -/
theorem handleClientHello_mismatch {env : Crypto} {c : Connection} {maker : CookieMaker}
    {msg : HandshakeMessage} {ch : ClientHello} {cookie : Bytes}
    (hmaker : c.cookieMaker = some maker) (hcookie : ch.cookie = some cookie)
    (hne : cookie ≠ maker.generate env c.clientAddress ch.random.val) :
    handleClientHello env msg ch c = (.error (.error .cookieMismatch), c.recorded msg) ∧
      c.transcript.length < (c.recorded msg).transcript.length := by
  refine ⟨?_, ?_⟩
  · have hmaker' : (c.recorded msg).cookieMaker = some maker := hmaker
    rw [handleClientHello, hcookie]
    change handleSecondClientHello env ch cookie (c.recorded msg) = _
    rw [handleSecondClientHello, get_bind, hmaker', bind_of_ok (okOr_some _ _ _),
      if_neg fun h => hne h.symm]
    rfl
  · simp [recorded, HandshakeMessage.encode, fragmentHeader]

def helloWith (cookie : Bytes) : ClientHello :=
  ⟨FixedBytes.replicate 32 0, [], [], [], [], [], some cookie, none⟩

theorem mismatch_plainServer :
    ([] : Bytes) ≠ CookieMaker.generate .plain ⟨FixedBytes.replicate 32 0⟩ [] (replicate 32 0) ∧
      (handleClientHello .plain (.new (.clientHello (helloWith [])) 0) (helloWith [])
        plainServer).1 = .error (.error .cookieMismatch) := by
  have hne : ([] : Bytes) ≠
      CookieMaker.generate .plain ⟨FixedBytes.replicate 32 0⟩ [] (replicate 32 0) := by decide
  exact ⟨hne, congrArg Prod.fst (handleClientHello_mismatch rfl rfl hne).1⟩

/-- The wrong hello is in the transcript of the handshake that follows. -/
theorem transcript_keeps_bad_hello :
    plainServer.state = .serverWaitClientHello ∧ plainServer.transcript = [] ∧
      (handleClientHello .plain (.new (.clientHello (helloWith [])) 0) (helloWith [])
        plainServer).1 = .error (.error .cookieMismatch) ∧
      (handleClientHello .plain (.new (.clientHello (helloWith [])) 0) (helloWith [])
        plainServer).2.transcript ≠ [] := by
  decide

end Connection

end TptRfc.Dtls
