import TptRfc.Bfd.Session

/-!
# BFD: the three-way handshake

Two sessions exchange packets over a network.
-/

namespace TptRfc.Bfd

open Lib List Function

namespace Session

/-! ## What one call does -/

def Builds (s : Session) (pkt : ControlPacket) : Prop :=
  pkt.version = bfdVersion ∧ pkt.yourDiscriminator = s.remoteDiscr

theorem builds_buildPacket (s : Session) (poll finalBit : Bool) :
    s.Builds (s.buildPacket poll finalBit).1 :=
  ⟨rfl, s.advanceSeq_remoteDiscr⟩

structure Quiet (s : Session) (out : List ControlPacket) (s' : Session) : Prop where
  remoteDiscr : s'.remoteDiscr = s.remoteDiscr ∨ s'.remoteDiscr = 0
  up : s'.sessionState = .up → s.sessionState = .up
  out : ∀ pkt ∈ out, s.Builds pkt

theorem quiet_nextPeriodicPacket (s : Session) :
    s.Quiet s.nextPeriodicPacket.1.toList s.nextPeriodicPacket.2 := by
  unfold nextPeriodicPacket
  split
  · refine ⟨.inl s.advanceSeq_remoteDiscr, fun h => s.advanceSeq_sessionState.symm.trans h, ?_⟩
    intro pkt hpkt
    obtain rfl := mem_singleton.mp hpkt
    exact s.builds_buildPacket _ _
  · exact ⟨.inl rfl, id, by simp⟩

theorem quiet_adminDown (s : Session) : s.Quiet [] s.adminDown := ⟨.inl rfl, nofun, by simp⟩

theorem quiet_adminUp (s : Session) : s.Quiet [] s.adminUp := by
  unfold adminUp
  split
  · exact ⟨.inl rfl, nofun, by simp⟩
  · exact ⟨.inl rfl, id, by simp⟩

theorem quiet_startPoll (s : Session) (now : Instant) : s.Quiet [] (s.startPoll now) :=
  ⟨.inl rfl, id, by simp⟩

theorem quiet_checkTimeout (s : Session) (now : Instant) : s.Quiet [] (s.checkTimeout now).2 := by
  unfold checkTimeout
  repeat' split
  · exact ⟨.inr rfl, nofun, by simp⟩
  · exact ⟨.inl rfl, id, by simp⟩
  · exact ⟨.inr rfl, nofun, by simp⟩
  · exact ⟨.inl rfl, id, by simp⟩

theorem quiet_call (s : Session) (c : Call) : s.Quiet (s.call c).1 (s.call c).2 := by
  cases c with
  | adminDown => exact s.quiet_adminDown
  | adminUp => exact s.quiet_adminUp
  | startPoll now => exact s.quiet_startPoll now
  | checkTimeout now => exact s.quiet_checkTimeout now
  | nextPeriodicPacket => exact s.quiet_nextPeriodicPacket

def Echoes (s : Session) (pkt : ControlPacket) : Prop :=
  pkt.yourDiscriminator ≠ 0 ∧ pkt.yourDiscriminator = s.localDiscr ∧
    (pkt.state = .init ∨ pkt.state = .up)

variable {s : Session} {pkt : ControlPacket}

theorem transition_up {remote : SessionState} (h : (s.transition remote).sessionState = .up) :
    s.sessionState = .up ∨ remote = .init ∨ remote = .up := by
  cases remote with
  | init | up => simp
  | adminDown | down => cases hs : s.sessionState <;> simp_all [transition]

structure Takes (s : Session) (pkt : ControlPacket) (out : List ControlPacket) (s' : Session) :
    Prop where
  up : s'.sessionState = .up → s.sessionState = .up ∨ pkt.state = .init ∨ pkt.state = .up
  out : ∀ p ∈ out, p.version = bfdVersion

theorem takes_accept (s : Session) (pkt : ControlPacket) (now : Instant) :
    s.Takes pkt (s.accept pkt now).1.toList (s.accept pkt now).2 := by
  have hup : ∀ st, ((s.learn pkt).transition pkt.state).sessionState = st → st = .up →
      s.sessionState = .up ∨ pkt.state = .init ∨ pkt.state = .up := by
    rintro _ rfl h
    rw [← s.learn_sessionState pkt]
    exact transition_up h
  simp only [accept]
  split
  · exact ⟨fun h => .inl ((s.learn_sessionState pkt).symm.trans h), by simp⟩
  · split
    · refine ⟨hup _ (advanceSeq_sessionState _).symm, ?_⟩
      intro p hp
      obtain rfl := mem_singleton.mp hp
      exact (builds_buildPacket _ _ _).1
    · exact ⟨hup _ rfl, by simp⟩

theorem processPacket_cases (s : Session) (pkt : ControlPacket) (now : Instant) :
    s.processPacket pkt now = (.discarded, s) ∨
      (s.processPacket pkt now = (.accepted (s.accept pkt now).1, (s.accept pkt now).2) ∧
        (pkt.yourDiscriminator ≠ 0 → pkt.yourDiscriminator = s.localDiscr) ∧
        (pkt.yourDiscriminator = 0 → pkt.state = .down ∨ pkt.state = .adminDown)) := by
  unfold processPacket
  repeat' split
  any_goals exact .inl rfl
  rename_i hyour hzero
  refine .inr ⟨rfl, fun h => ?_, fun h => ?_⟩
  · by_contra hne
    exact hyour ⟨h, hne⟩
  · by_contra hne
    rw [not_or] at hne
    exact hzero ⟨h, hne⟩

theorem echoes_of_up {now : Instant}
    (hbefore : s.sessionState ≠ .up) (hafter : (s.processPacket pkt now).2.sessionState = .up) :
    s.Echoes pkt := by
  rcases s.processPacket_cases pkt now with hdiscard | ⟨haccept, hyour, hzero⟩
  · rw [hdiscard] at hafter
    exact absurd hafter hbefore
  · rw [haccept] at hafter
    have hstate := ((s.takes_accept pkt now).up hafter).resolve_left hbefore
    have hne : pkt.yourDiscriminator ≠ 0 := by
      intro h
      rcases hzero h with h | h <;> simp [h] at hstate
    exact ⟨hne, hyour hne, hstate⟩

/-! ## Packets on the wire -/

variable (sha1 : Bytes → FixedBytes 20)

def SameHeader (p q : ControlPacket) : Prop := p = { q with auth := p.auth }

theorem encodePacket_take {buf : Bytes} (h : s.encodePacket sha1 pkt = some buf) :
    ∃ len rest, buf = pkt.headerBytes len ++ rest := by
  have htake : buf.take 24 = pkt.toBytes.take 24 := by
    unfold encodePacket at h
    split at h
    · rw [Option.some.inj h]
    · split at h
      · obtain ⟨mid, hfirst, hsecond⟩ := Option.bind_eq_some_iff.mp h
        rw [patch_take hsecond (by decide), patch_take hfirst (by decide)]
      · rw [Option.some.inj h]
  have hheader : pkt.toBytes.take 24 = pkt.headerBytes _ := take_left' (pkt.length_headerBytes _)
  exact ⟨_, buf.drop 24, by rw [← hheader, ← htake, take_append_drop]⟩

theorem sameHeader_of_encodePacket {pkt' : ControlPacket} {buf : Bytes}
    (hversion : pkt.version = bfdVersion) (h : s.encodePacket sha1 pkt = some buf)
    (hread : ControlPacket.fromBytes buf = .ok pkt') : SameHeader pkt' pkt := by
  obtain ⟨len, rest, rfl⟩ := encodePacket_take sha1 h
  rw [ControlPacket.fromBytes_headerBytes hversion] at hread
  simp only at hread
  repeat' split at hread
  · cases hread
  · cases hread
  · cases hparse : parseAuth pkt.authPresent (rest.take ((UInt8.ofNat len).toNat - 24)) with
    | error e => rw [hparse] at hread; cases hread
    | ok auth => rw [hparse] at hread; cases hread; rfl

theorem fromBytes_of_authenticate (s : Session) (buf : Bytes) (pkt : ControlPacket)
    (h : (s.authenticate sha1 buf).1 = .ok (some pkt)) : ControlPacket.fromBytes buf = .ok pkt := by
  unfold authenticate at h
  split at h
  · cases h
  · rename_i pkt' hread
    rw [hread]
    generalize s.verifyAuth sha1 pkt' buf = verdict at h
    obtain ⟨r, s'⟩ := verdict
    repeat' split at h
    all_goals simp_all

end Session

/-! ## Two sessions and a network -/

inductive Side where
  | a
  | b
  deriving DecidableEq

def Side.peer : Side → Side
  | a => b
  | b => a

@[simp] theorem Side.peer_peer (x : Side) : x.peer.peer = x := by
  cases x <;> rfl

theorem Side.eq_or_eq_peer (x y : Side) : y = x ∨ y = x.peer := by
  cases x <;> cases y <;> simp [Side.peer]

theorem Side.peer_ne (x : Side) : x.peer ≠ x := by
  cases x <;> decide

structure Net where
  session : Side → Session
  sent : Side → List ControlPacket
  accepted : Side → List ControlPacket

inductive Event where
  | call (x : Side) (c : Session.Call)
  | deliver (x : Side) (pkt : ControlPacket) (now : Instant)
  | deliverBytes (x : Side) (pkt : ControlPacket) (now : Instant)

namespace Net

def start (session : Side → Session) : Net := ⟨session, fun _ => [], fun _ => []⟩

def move (net : Net) (x : Side) (out : List ControlPacket) (s : Session) : Net :=
  { net with
    session := update net.session x s
    sent := update net.sent x (net.sent x ++ out) }

def note (net : Net) (x : Side) (pkt : ControlPacket) : Net :=
  { net with accepted := update net.accepted x (net.accepted x ++ [pkt]) }

def receive (net : Net) (x : Side) (pkt : ControlPacket) : PacketResult × Session → Net
  | (.discarded, s) => net.move x [] s
  | (.accepted respond, s) => (net.note x pkt).move x respond.toList s

variable (sha1 : Bytes → FixedBytes 20)

def step (net : Net) : Event → Net
  | .call x c => net.move x ((net.session x).call c).1 ((net.session x).call c).2
  | .deliver x pkt now =>
    if pkt ∈ net.sent x.peer then net.receive x pkt ((net.session x).processPacket pkt now)
    else net
  | .deliverBytes x pkt now =>
    if pkt ∈ net.sent x.peer then
      match (net.session x.peer).encodePacket sha1 pkt with
      | none => net
      | some buf =>
        match (net.session x).receiveBytes sha1 buf now with
        | (.ok result, s) => net.receive x pkt (result, s)
        | (.error _, s) => net.move x [] s
    else net

def run (net : Net) (events : List Event) : Net := events.foldl (step sha1) net

structure Inv (net : Net) : Prop where
  learned : ∀ x, (net.session x).remoteDiscr ≠ 0 → net.accepted x ≠ []
  built : ∀ x, ∀ pkt ∈ net.sent x, pkt.version = bfdVersion
  echoed : ∀ x, ∀ pkt ∈ net.sent x, pkt.yourDiscriminator ≠ 0 → net.accepted x ≠ []
  up : ∀ x, (net.session x).sessionState = .up → net.accepted x.peer ≠ []
  origin : ∀ x, ∀ pkt ∈ net.accepted x, pkt ∈ net.sent x.peer

section Moves

variable (net : Net) (x : Side) (out : List ControlPacket) (s : Session) (pkt : ControlPacket)

@[simp] theorem move_session_self : (net.move x out s).session x = s := by
  simp [move]

@[simp] theorem move_session_peer : (net.move x out s).session x.peer = net.session x.peer := by
  simp [move, x.peer_ne]

@[simp] theorem move_sent_self : (net.move x out s).sent x = net.sent x ++ out := by
  simp [move]

@[simp] theorem move_sent_peer : (net.move x out s).sent x.peer = net.sent x.peer := by
  simp [move, x.peer_ne]

@[simp] theorem move_accepted : (net.move x out s).accepted = net.accepted := rfl

@[simp] theorem note_session : (net.note x pkt).session = net.session := rfl

@[simp] theorem note_sent : (net.note x pkt).sent = net.sent := rfl

@[simp] theorem note_accepted_self : (net.note x pkt).accepted x = net.accepted x ++ [pkt] := by
  simp [note]

@[simp] theorem note_accepted_peer : (net.note x pkt).accepted x.peer = net.accepted x.peer := by
  simp [note, x.peer_ne]

end Moves

theorem forall_side {P : Side → Prop} (x : Side) (hself : P x) (hpeer : P x.peer) : ∀ y, P y := by
  intro y
  rcases x.eq_or_eq_peer y with rfl | rfl
  · exact hself
  · exact hpeer

variable {net : Net} {x : Side}

theorem Inv.move (h : net.Inv) {out : List ControlPacket} {s : Session}
    (hq : (net.session x).Quiet out s) : (net.move x out s).Inv := by
  have hlearned : s.remoteDiscr ≠ 0 → net.accepted x ≠ [] := by
    intro hne
    rcases hq.remoteDiscr with heq | heq
    · exact h.learned x (heq ▸ hne)
    · exact absurd heq hne
  refine ⟨forall_side x ?_ ?_, forall_side x ?_ ?_, forall_side x ?_ ?_, forall_side x ?_ ?_,
    forall_side x ?_ ?_⟩
  · simpa using hlearned
  · simpa using h.learned x.peer
  · intro pkt hpkt
    rw [move_sent_self] at hpkt
    rcases mem_append.mp hpkt with hold | hnew
    · exact h.built x pkt hold
    · exact (hq.out pkt hnew).1
  · simpa using h.built x.peer
  · intro pkt hpkt hne
    rw [move_sent_self] at hpkt
    rcases mem_append.mp hpkt with hold | hnew
    · exact h.echoed x pkt hold hne
    · exact h.learned x ((hq.out pkt hnew).2 ▸ hne)
  · simpa using h.echoed x.peer
  · intro hup
    rw [move_session_self] at hup
    exact h.up x (hq.up hup)
  · simpa using h.up x.peer
  · simpa using h.origin x
  · intro pkt hpkt
    rw [Side.peer_peer, move_sent_self]
    exact mem_append_left _ (by simpa using h.origin x.peer pkt hpkt)

/-- A side that processes a packet of the other side keeps the invariant. -/
theorem Inv.receive (h : net.Inv) {pkt pkt' : ControlPacket}
    (hsent : pkt ∈ net.sent x.peer) (hheader : Session.SameHeader pkt' pkt) {s : Session}
    (hremote : s.remoteDiscr = (net.session x).remoteDiscr)
    (hstate : s.sessionState = (net.session x).sessionState) (now : Instant) :
    (net.receive x pkt (s.processPacket pkt' now)).Inv := by
  rcases s.processPacket_cases pkt' now with hdiscard | ⟨haccept, hyour, hzero⟩
  · rw [hdiscard]
    exact h.move ⟨.inl hremote, fun hup => hstate ▸ hup, by simp⟩
  rw [haccept]
  have htakes := s.takes_accept pkt' now
  -- the packet that moves `x` to `Up` echoes something, so its sender has learned it
  have hup : (s.accept pkt' now).2.sessionState = .up → net.accepted x.peer ≠ [] := by
    intro hafter
    rcases htakes.up hafter with hbefore | hinit
    · exact h.up x (hstate ▸ hbefore)
    · refine h.echoed x.peer pkt hsent fun hzero' => ?_
      have hyour' : pkt'.yourDiscriminator = 0 := by rw [hheader]; exact hzero'
      rcases hzero hyour' with hst | hst <;> simp [hst] at hinit
  simp only [Net.receive]
  refine ⟨forall_side x ?_ ?_, forall_side x ?_ ?_, forall_side x ?_ ?_, forall_side x ?_ ?_,
    forall_side x ?_ ?_⟩
  · simp
  · simpa using h.learned x.peer
  · intro p hp
    rw [move_sent_self] at hp
    rcases mem_append.mp hp with hold | hnew
    · exact h.built x p hold
    · exact htakes.out p hnew
  · simpa using h.built x.peer
  · simp
  · simpa using h.echoed x.peer
  · simpa using hup
  · simp
  · intro p hp
    rw [move_accepted, note_accepted_self] at hp
    rw [move_sent_peer]
    rcases mem_append.mp hp with hold | hnew
    · exact h.origin x p hold
    · exact mem_singleton.mp hnew ▸ hsent
  · intro p hp
    rw [move_accepted, note_accepted_peer] at hp
    rw [Side.peer_peer, move_sent_self]
    exact mem_append_left _ (by simpa using h.origin x.peer p hp)

theorem Inv.receiveBytes (h : net.Inv) {pkt : ControlPacket} (hsent : pkt ∈ net.sent x.peer)
    {buf : Bytes} (hbuf : (net.session x.peer).encodePacket sha1 pkt = some buf) (now : Instant) :
    (match (net.session x).receiveBytes sha1 buf now with
      | (.ok result, s) => net.receive x pkt (result, s)
      | (.error _, s) => net.move x [] s).Inv := by
  have hframe := (net.session x).sameButRcv_authenticate sha1 buf
  have hpassed := (net.session x).fromBytes_of_authenticate sha1 buf
  unfold Session.receiveBytes
  generalize (net.session x).authenticate sha1 buf = outcome at hframe hpassed ⊢
  obtain ⟨result, s⟩ := outcome
  have hremote : s.remoteDiscr = (net.session x).remoteDiscr := hframe.remoteDiscr
  have hstate : s.sessionState = (net.session x).sessionState := hframe.sessionState
  have hquiet : (net.session x).Quiet [] s := ⟨.inl hremote, fun hup => hstate ▸ hup, by simp⟩
  cases result with
  | error e => exact h.move hquiet
  | ok passed =>
    cases passed with
    | none => exact h.move hquiet
    | some pkt' =>
      have hheader := Session.sameHeader_of_encodePacket sha1 (h.built x.peer pkt hsent) hbuf
        (hpassed pkt' rfl)
      exact h.receive hsent hheader hremote hstate now

theorem Inv.step (h : net.Inv) (e : Event) : (net.step sha1 e).Inv := by
  cases e with
  | call x c => exact h.move ((net.session x).quiet_call c)
  | deliver x pkt now =>
    simp only [Net.step]
    split
    · rename_i hsent
      exact h.receive hsent (show Session.SameHeader pkt pkt from rfl) rfl rfl now
    · exact h
  | deliverBytes x pkt now =>
    simp only [Net.step]
    split
    · rename_i hsent
      split
      · exact h
      · rename_i buf hbuf
        exact h.receiveBytes sha1 hsent hbuf now
    · exact h

theorem inv_start {session : Side → Session} (hremote : ∀ x, (session x).remoteDiscr = 0)
    (hstate : ∀ x, (session x).sessionState ≠ .up) : (start session).Inv :=
  ⟨fun x h => absurd (hremote x) h, by simp [start], by simp [start],
    fun x h => absurd h (hstate x), by simp [start]⟩

theorem inv_run (h : net.Inv) (events : List Event) : (net.run sha1 events).Inv := by
  induction events generalizing net with
  | nil => exact h
  | cons e events ih => exact ih (h.step sha1 e)

end Net

/-! ## Safety -/

/-- The three-way handshake is safe: along every run a session that is `Up` has had a
packet accepted by its peer; the packet that moved it to `Up` echoed its discriminator;
and a discarded packet changes nothing. -/
theorem handshake_safe (sha1 : Bytes → FixedBytes 20) (config : Side → SessionConfig)
    (seed : Side → UInt32) (session : Side → Session)
    (hnew : ∀ x, Session.new (config x) (seed x) = .ok (session x)) :
    (∀ (events : List Event) (x : Side),
      let net := (Net.start session).run sha1 events
      (net.session x).sessionState = .up → ∃ pkt ∈ net.accepted x.peer, pkt ∈ net.sent x) ∧
    (∀ (s : Session) (pkt : ControlPacket) (now : Instant),
      s.sessionState = .down ∨ s.sessionState = .init →
      (s.processPacket pkt now).2.sessionState = .up →
        pkt.yourDiscriminator = s.localDiscr ∧ (pkt.state = .init ∨ pkt.state = .up)) ∧
    (∀ (s : Session) (pkt : ControlPacket) (now : Instant),
      (s.processPacket pkt now).1 = .discarded → (s.processPacket pkt now).2 = s) := by
  refine ⟨?_, ?_, ?_⟩
  · intro events x net hup
    have hstart : (Net.start session).Inv := Net.inv_start
      (fun y => by rw [Session.eq_fresh_of_new (hnew y)]; rfl)
      (fun y => by rw [Session.eq_fresh_of_new (hnew y)]; nofun)
    have hinv : net.Inv := Net.inv_run sha1 hstart events
    obtain ⟨pkt, hpkt⟩ := exists_mem_of_ne_nil _ (hinv.up x hup)
    exact ⟨pkt, hpkt, by simpa using hinv.origin x.peer pkt hpkt⟩
  · intro s pkt now hbefore hafter
    have hne : s.sessionState ≠ .up := by
      rcases hbefore with h | h <;> rw [h] <;> decide
    exact (Session.echoes_of_up hne hafter).2
  · intro s pkt now hresult
    rcases s.processPacket_cases pkt now with hdiscard | ⟨haccept, -⟩
    · rw [hdiscard]
    · rw [haccept] at hresult
      cases hresult

def sampleConfig (x : Side) : SessionConfig :=
  { localDiscriminator := if x = .a then 1 else 2
    desiredMinTxInterval := 1000
    requiredMinRxInterval := 1000
    detectMult := 3
    demandMode := false
    controlPlaneIndependent := false
    role := .active
    auth := none }

def sampleDown : ControlPacket := ((Session.fresh (sampleConfig .a) 0).buildPacket false false).1

def sampleInit : ControlPacket :=
  ((((Session.fresh (sampleConfig .b) 0).accept sampleDown 0).2).buildPacket false false).1

def sampleEvents : List Event :=
  [.call .a .nextPeriodicPacket, .deliver .b sampleDown 0, .call .b .nextPeriodicPacket,
    .deliverBytes .a sampleInit 0]

theorem handshake_safe_sample :
    let net := (Net.start fun x => Session.fresh (sampleConfig x) 0).run
      (fun _ => FixedBytes.replicate 20 0) sampleEvents
    (net.session .a).sessionState = .up ∧ ∃ pkt ∈ net.accepted .b, pkt ∈ net.sent .a := by
  intro net
  have hup : (net.session .a).sessionState = .up := by decide +kernel
  exact ⟨hup, (handshake_safe (fun _ => FixedBytes.replicate 20 0) sampleConfig (fun _ => 0)
    (fun x => Session.fresh (sampleConfig x) 0) (fun _ => rfl)).1 sampleEvents .a hup⟩

end TptRfc.Bfd
