import TptRfc.Dtls.Interface

/-!
# DTLS: peer authentication

A connection is to count as established only when the key of the peer was approved by the verifier
and the peer signed the transcript with it.
-/

namespace TptRfc.Dtls

open Lib List

namespace Event

variable (env : Crypto)

def Accepted (e : Event) : Prop := (Connection.onHandshakeMessage env e.msg e.before).1 = .ok ()

instance (e : Event) : Decidable (e.Accepted env) := inferInstanceAs (Decidable (_ = _))

def acceptedKey (e : Event) : Option Bytes :=
  match e.msg.body with
  | .certificate cert => if e.Accepted env then some cert.certData else none
  | _ => none

def Closing (e : Event) : Prop :=
  (∃ verifyData, e.msg.body = .finished verifyData) ∧ e.before.state ∈ flightStates

variable {env} {e : Event}

theorem acceptedKey_of_certificate {cert : Certificate} (hbody : e.msg.body = .certificate cert)
    (h : e.Accepted env) : e.acceptedKey env = some cert.certData := by
  rw [acceptedKey, hbody]
  exact if_pos h

theorem acceptedKey_of_not_accepted (h : ¬ e.Accepted env) : e.acceptedKey env = none := by
  unfold acceptedKey
  split
  · exact if_neg h
  · rfl

theorem acceptedKey_of_not_certificate (h : ∀ cert, e.msg.body ≠ .certificate cert) :
    e.acceptedKey env = none := by
  unfold acceptedKey
  split
  · rename_i cert hbody
    exact absurd hbody (h cert)
  · rfl

theorem dispatches (env : Crypto) (e : Event) :
    ∃ r c', (Connection.onHandshakeMessage env e.msg e.before).1 = r ∧ e.after env = c' ∧
      Connection.Dispatches env e.msg e.before r c' :=
  ⟨_, _, rfl, rfl, Connection.dispatches rfl⟩

theorem approved_of_accepted {cert : Certificate} (hbody : e.msg.body = .certificate cert)
    (h : e.Accepted env) : e.before.verifier cert.certData = true := by
  obtain ⟨r, c', hr, -, hdispatch⟩ := e.dispatches env
  obtain rfl : r = .ok () := hr.symm.trans h
  cases hdispatch with
  | hello hhello => rw [hbody] at hhello; exact hhello.elim
  | extensions hother => rw [hbody] at hother; cases hother
  | certificate hsame _ hverify => rw [hbody] at hsame; cases hsame; exact hverify
  | certificateVerify hother | finished hother => rw [hbody] at hother; cases hother

theorem verified_of_accepted {cv : CertificateVerify}
    (hbody : e.msg.body = .certificateVerify cv) (h : e.Accepted env) :
    ∃ pk, e.before.peerRawPubkey = some pk ∧
      env.ed25519Verify pk (Connection.cvMessage (Connection.peerCvContext e.before.role)
        (e.before.txHash env)) cv.signature = true := by
  obtain ⟨r, c', hr, -, hdispatch⟩ := e.dispatches env
  obtain rfl : r = .ok () := hr.symm.trans h
  cases hdispatch with
  | hello hhello => rw [hbody] at hhello; exact hhello.elim
  | extensions hother | certificate hother => rw [hbody] at hother; cases hother
  | certificateVerify hsame _ hpk hverify =>
    rw [hbody] at hsame
    cases hsame
    exact ⟨_, hpk, hverify⟩
  | finished hother => rw [hbody] at hother; cases hother

end Event

namespace Connection

variable (env : Crypto)

/-! ## The history of a run -/

def callEvents (c : Connection) : Call → List Event
  | .processDatagram datagram => (visits env datagram c).filterMap (eventAt env datagram)
  | _ => []

theorem callEvents_of_ne {c : Connection} {a : Call}
    (h : ∀ datagram, a ≠ .processDatagram datagram) : callEvents env c a = [] := by
  cases a with
  | processDatagram datagram => exact absurd rfl (h datagram)
  | _ => rfl

def history (c : Connection) : List Call → List Event
  | [] => []
  | a :: as => callEvents env c a ++ history (call env c a) as

/-! ## What holds along a history -/

def lastKey (H : List Event) : Option Bytes := (H.filterMap (Event.acceptedKey env)).getLast?

/-- The history holds an accepted Certificate, not followed by another one, and behind
it an accepted CertificateVerify over the transcript up to that Certificate. -/
def Vouched (H : List Event) : Prop :=
  ∃ (earlier between later : List Event) (certEvent cvEvent : Event) (cert : Certificate)
    (cv : CertificateVerify),
    H = earlier ++ certEvent :: (between ++ cvEvent :: later) ∧
    certEvent.msg.body = .certificate cert ∧ certEvent.Accepted env ∧
    cvEvent.msg.body = .certificateVerify cv ∧ cvEvent.Accepted env ∧
    cvEvent.before.transcript = (certEvent.after env).transcript ∧
    (between ++ cvEvent :: later).filterMap (Event.acceptedKey env) = []

structure Tracked (H : List Event) (c : Connection) : Prop where
  config : ∀ e ∈ H,
    e.before.role = c.role ∧ e.before.suite = c.suite ∧ e.before.verifier = c.verifier
  /-- The key of the peer is that of the last Certificate accepted. -/
  key : c.peerRawPubkey = lastKey env H
  /-- So it was for every message. -/
  keys : ∀ earlier e later, H = earlier ++ e :: later → e.before.peerRawPubkey = lastKey env earlier
  /-- A connected connection accepted a Finished, and no Certificate since. -/
  connected : c.connected = true → c.state ∈ connectedStates ∧
    ∃ earlier fin later, H = earlier ++ fin :: later ∧ fin.Closing ∧ fin.Accepted env ∧
      Vouched env earlier ∧ later.filterMap (Event.acceptedKey env) = []

variable {env} {H : List Event} {c c' : Connection} {e : Event}

theorem lastKey_concat : lastKey env (H ++ [e]) = (e.acceptedKey env).or (lastKey env H) := by
  rw [lastKey, filterMap_append, getLast?_append, lastKey]
  cases h : e.acceptedKey env <;> simp [h]

theorem lastKey_append {later : List Event} (h : later.filterMap (Event.acceptedKey env) = []) :
    lastKey env (H ++ later) = lastKey env H := by
  rw [lastKey, filterMap_append, h, append_nil, lastKey]

theorem Tracked.not_connected (h : Tracked env H c) (hstate : c.state ∉ connectedStates) :
    c.connected = false :=
  Bool.eq_false_iff.mpr fun hconnected => hstate (h.connected hconnected).1

theorem Tracked.frame (h : Tracked env H c) (hrole : c'.role = c.role) (hsuite : c'.suite = c.suite)
    (hverifier : c'.verifier = c.verifier) (hkey : c'.peerRawPubkey = c.peerRawPubkey)
    (hconnected : c'.connected = true → c.connected = true ∧ c'.state = c.state) :
    Tracked env H c' where
  config e he := by
    rw [hrole, hsuite, hverifier]
    exact h.config e he
  key := hkey.trans h.key
  keys := h.keys
  connected hc' := by
    obtain ⟨hc, hstate⟩ := hconnected hc'
    rw [hstate]
    exact h.connected hc

theorem Tracked.concat (h : Tracked env H e.before) (hfixed : c'.fixed = e.before.fixed)
    (hkey : c'.peerRawPubkey = (e.acceptedKey env).or e.before.peerRawPubkey)
    (hconnected : c'.connected = true → c'.state ∈ connectedStates ∧
      ((e.before.connected = true ∧ e.acceptedKey env = none) ∨
        (e.Closing ∧ e.Accepted env ∧ Vouched env H))) :
    Tracked env (H ++ [e]) c' where
  config e' he' := by
    rw [show c'.role = e.before.role from congrArg Fixed.role hfixed,
      show c'.suite = e.before.suite from congrArg Fixed.suite hfixed,
      show c'.verifier = e.before.verifier from congrArg Fixed.verifier hfixed]
    rcases mem_append.mp he' with he' | he'
    · exact h.config e' he'
    · rw [mem_singleton.mp he']
      exact ⟨rfl, rfl, rfl⟩
  key := by rw [hkey, h.key, lastKey_concat]
  keys earlier e' later hsplit := by
    rcases eq_nil_or_concat later with rfl | ⟨later, last, rfl⟩
    · obtain ⟨rfl, hlast⟩ := append_inj' hsplit rfl
      cases hlast
      exact h.key
    · have hsplit' : H ++ [e] = (earlier ++ e' :: later) ++ [last] := by simp [hsplit]
      exact h.keys earlier e' later (append_inj' hsplit' rfl).1
  connected hc' := by
    obtain ⟨hstate, ⟨hbefore, hnone⟩ | ⟨hclosing, haccepted, hvouched⟩⟩ := hconnected hc'
    · obtain ⟨-, earlier, fin, later, rfl, hclosing, haccepted, hvouched, hlater⟩ :=
        h.connected hbefore
      refine ⟨hstate, earlier, fin, later ++ [e], by simp, hclosing, haccepted, hvouched, ?_⟩
      simp [filterMap_append, hlater, hnone]
    · exact ⟨hstate, H, e, [], rfl, hclosing, haccepted, hvouched, rfl⟩

theorem not_connected_of_hello {s : State} (h : s ∈ helloStates) : s ∉ connectedStates := by
  revert h
  cases s <;> decide

theorem not_connected_of_flight {s : State} (h : s ∈ flightStates) : s ∉ connectedStates := by
  revert h
  cases s <;> decide

theorem Tracked.event (h : Tracked env H e.before) (hclosing : e.Closing → Vouched env H) :
    Tracked env (H ++ [e]) (e.after env) := by
  obtain ⟨r, c', hr, hafter, hdispatch⟩ := e.dispatches env
  rw [hafter]
  have hrejected : ∀ {err}, r = .error err → e.acceptedKey env = none := by
    intro err herr
    refine Event.acceptedKey_of_not_accepted fun haccepted => ?_
    rw [Event.Accepted, hr, herr] at haccepted
    cases haccepted
  have hother : ∀ {body}, e.msg.body = body → (∀ cert, body ≠ .certificate cert) →
      e.acceptedKey env = none := by
    rintro body rfl hne
    exact Event.acceptedKey_of_not_certificate hne
  -- outside the connected states the connection is not connected yet
  have hflight : e.before.state ∈ flightStates → e.before.connected = false := fun hstate =>
    h.not_connected (not_connected_of_flight hstate)
  have hfixed := hdispatch.fixed
  cases hdispatch with
  | refused err =>
    have hnone := hrejected rfl
    exact h.concat hfixed (by rw [hnone]; rfl) fun hc =>
      ⟨(h.connected hc).1, .inl ⟨hc, hnone⟩⟩
  | hello hbody hstate _ hgreeted =>
    have hnone : e.acceptedKey env = none :=
      Event.acceptedKey_of_not_certificate fun cert hcert => by rw [hcert] at hbody; exact hbody
    have hc' : c'.connected = false :=
      (congrArg Established.connected hgreeted.established).trans
        (h.not_connected (not_connected_of_hello hstate))
    refine h.concat hfixed ?_ fun hc => absurd hc (by rw [hc']; nofun)
    rw [hnone]
    exact congrArg Established.peerRawPubkey hgreeted.established
  | extensions hbody hstate | certificateVerify hbody hstate =>
    have hnone := hother hbody nofun
    refine h.concat hfixed (by rw [hnone]; rfl) fun hc => absurd hc ?_
    rw [show (e.before.recorded e.msg).connected = false from hflight hstate]
    nofun
  | certificate hbody hstate =>
    have hsome := Event.acceptedKey_of_certificate hbody hr
    refine h.concat hfixed (by rw [hsome]; rfl) fun hc => absurd hc ?_
    rw [show (e.before.recorded e.msg).connected = false from hflight hstate]
    nofun
  | stalled hbody hstate hsent =>
    have hnone := hother hbody nofun
    have hsame := hsent.greeted.established
    refine h.concat hfixed ?_ fun hc => absurd hc ?_
    · rw [hnone]
      exact congrArg Established.peerRawPubkey hsame
    · rw [show c'.connected = false from
        (congrArg Established.connected hsame).trans (hflight hstate)]
      nofun
  | finished hbody hstate hsent _ hestablished hstate' =>
    have hnone := hother hbody nofun
    have hclose : e.Closing := ⟨⟨_, hbody⟩, hstate⟩
    refine h.concat hfixed ?_ fun _ =>
      ⟨hstate', .inr ⟨hclose, hr, hclosing hclose⟩⟩
    rw [hnone]
    exact (congrArg Established.peerRawPubkey hestablished).trans
      (congrArg Established.peerRawPubkey hsent.greeted.established)

theorem Tracked.quiet (h : Tracked env H c) (hquiet : Quiet c c') : Tracked env H c' := by
  obtain ⟨windows, inbox, rfl⟩ := hquiet
  exact h.frame rfl rfl rfl rfl fun hc => ⟨hc, rfl⟩

/-! ## Runs that keep to the order of the flight -/

variable (env)

/-- A call keeps to the order after the history `H`: it does not start a connected
connection again, and a Finished comes only when the messages before it vouch for
the peer. -/
structure InOrder (H : List Event) (c : Connection) (a : Call) : Prop where
  start : a = .start → c.connected = false
  closing : ∀ earlier e later, callEvents env c a = earlier ++ e :: later → e.Closing →
    Vouched env (H ++ earlier)

def AllInOrder (H : List Event) (c : Connection) : List Call → Prop
  | [] => True
  | a :: as => InOrder env H c a ∧ AllInOrder (H ++ callEvents env c a) (call env c a) as

variable {env}

theorem Tracked.call {a : Call} (h : Tracked env H c) (ha : InOrder env H c a) :
    Tracked env (H ++ callEvents env c a) (call env c a) := by
  obtain rfl | ⟨datagram, rfl⟩ | ⟨hother, seq, out, timer, inbox, hkept⟩ := call_cases env c a
  · have hgreeted : Greeted c (start env c).2 := (greeted_start env).moves c
    rw [callEvents_of_ne env (fun _ h => by cases h), append_nil]
    refine h.frame (congrArg Fixed.role hgreeted.fixed) (congrArg Fixed.suite hgreeted.fixed)
      (congrArg Fixed.verifier hgreeted.fixed)
      (congrArg Established.peerRawPubkey hgreeted.established) fun hc => ?_
    have hsame : (start env c).2.connected = c.connected :=
      congrArg Established.connected hgreeted.established
    rw [show (Connection.call env c .start).connected = false from
      hsame.trans (ha.start rfl)] at hc
    cases hc
  · -- the invariant of the loop pairs the visits so far with the events in them
    refine receiveFrom_induct
      (I := fun visited c' => Tracked env (H ++ visited.filterMap (eventAt env datagram)) c')
      (by simpa using h) ?_
    intro before pos c₁ after hsplit htracked
    obtain ⟨hnone, hquiet⟩ | ⟨e, hsome, hquiet, hafter⟩ := eventAt_cases env datagram pos c₁
    · simpa [filterMap_append, hnone] using htracked.quiet hquiet
    · have hclosing : e.Closing → Vouched env (H ++ before.filterMap (eventAt env datagram)) := by
        refine ha.closing _ e (after.filterMap (eventAt env datagram)) ?_
        rw [callEvents, visits, hsplit, filterMap_append, filterMap_cons_some hsome]
      rw [hafter, filterMap_append, filterMap_cons_some hsome, filterMap_nil, ← append_assoc]
      exact (htracked.quiet hquiet).event hclosing
  · rw [callEvents_of_ne env hother, append_nil, hkept]
    exact h.frame rfl rfl rfl rfl fun hc => ⟨hc, rfl⟩

theorem Tracked.calls {cs : List Call} (h : Tracked env H c) (hcs : AllInOrder env H c cs) :
    Tracked env (H ++ history env c cs) (calls env c cs) := by
  induction cs generalizing H c with
  | nil => simpa [history] using h
  | cons a cs ih =>
    rw [history, ← append_assoc]
    exact ih (h.call hcs.1) hcs.2

theorem tracked_of_fresh (h : Fresh c) : Tracked env [] c := by
  have hblank : c.peerRawPubkey = none ∧ c.connected = false := by
    rw [h.eq_blank]
    exact ⟨rfl, rfl⟩
  refine ⟨?_, hblank.1, ?_, ?_⟩
  · intro e he
    cases he
  · intro earlier e later hnil
    simp at hnil
  · intro hc
    rw [hblank.2] at hc
    cases hc

/-! ## Authentication -/

variable (env) in
/-- The peer of `c` is authenticated by the history `H`: the verifier approved a key,
behind its Certificate a CertificateVerify verified under that key over the
transcript up to the Certificate, behind that a Finished was accepted, and the key
is still the key of the peer. -/
def Authenticated (H : List Event) (c : Connection) : Prop :=
  ∃ (earlier between later rest : List Event) (certEvent cvEvent finEvent : Event)
    (cert : Certificate) (cv : CertificateVerify) (verifyData : Bytes),
    H = earlier ++ certEvent :: (between ++ cvEvent :: later) ++ finEvent :: rest ∧
    certEvent.msg.body = .certificate cert ∧ certEvent.Accepted env ∧
    c.verifier cert.certData = true ∧
    cvEvent.msg.body = .certificateVerify cv ∧ cvEvent.Accepted env ∧
    env.ed25519Verify cert.certData
      (cvMessage (peerCvContext c.role) (env.digest c.hash (certEvent.after env).transcript))
      cv.signature = true ∧
    finEvent.msg.body = .finished verifyData ∧ finEvent.Accepted env ∧
    c.peerRawPubkey = some cert.certData

theorem Tracked.authenticated (h : Tracked env H c) (hconnected : c.connected = true) :
    Authenticated env H c := by
  obtain ⟨-, before, fin, rest, rfl, ⟨⟨verifyData, hfin⟩, -⟩, hfinOk, hvouched, hrest⟩ :=
    h.connected hconnected
  obtain ⟨earlier, between, later, certEvent, cvEvent, cert, cv, rfl, hcert, hcertOk, hcv, hcvOk,
    htranscript, hlater⟩ := hvouched
  have hkey := Event.acceptedKey_of_certificate hcert hcertOk
  -- no Certificate was accepted behind this one, so its key is the last one ever after
  have hlast : ∀ {es : List Event}, es.filterMap (Event.acceptedKey env) = [] →
      lastKey env (earlier ++ certEvent :: es) = some cert.certData := by
    intro es hes
    rw [append_cons, lastKey_append hes, lastKey_concat, hkey, Option.some_or]
  have hconfigCert := h.config certEvent (by simp)
  have hconfigCv := h.config cvEvent (by simp)
  rw [filterMap_append, append_eq_nil_iff] at hlater
  have hpk : cvEvent.before.peerRawPubkey = some cert.certData := by
    rw [h.keys (earlier ++ certEvent :: between) cvEvent (later ++ fin :: rest) (by simp)]
    exact hlast hlater.1
  have hfinal : c.peerRawPubkey = some cert.certData := by
    have hnone : fin.acceptedKey env = none :=
      Event.acceptedKey_of_not_certificate fun _ => by rw [hfin]; nofun
    rw [h.key, append_assoc, cons_append]
    refine hlast ?_
    simp only [filterMap_append, hlater.1, hlater.2, filterMap_cons_none hnone, hrest, append_nil]
  have happroved := Event.approved_of_accepted hcert hcertOk
  rw [hconfigCert.2.2] at happroved
  obtain ⟨pk, hpk', hverified⟩ := Event.verified_of_accepted hcv hcvOk
  rw [hpk] at hpk'
  cases hpk'
  rw [hconfigCv.1, txHash, hash, hconfigCv.2.1, htranscript] at hverified
  exact ⟨earlier, between, later, rest, certEvent, cvEvent, fin, cert, cv, verifyData, rfl, hcert,
    hcertOk, happroved, hcv, hcvOk, hverified, hfin, hfinOk, hfinal⟩

/-- **When a connection authenticates its peer.**  In a run from a fresh connection in
which every Finished finds a vouched history, and in which no connected connection is
started again, a connected connection has authenticated its peer. -/
theorem connected_authenticated {c₀ : Connection} (hfresh : Fresh c₀) {cs : List Call}
    (horder : AllInOrder env [] c₀ cs) (hconnected : (calls env c₀ cs).isConnected = true) :
    Authenticated env (history env c₀ cs) (calls env c₀ cs) := by
  have htracked := (tracked_of_fresh hfresh).calls horder
  rw [nil_append] at htracked
  exact htracked.authenticated hconnected

/-! ## Runs of a client -/

def orderedCalls : List Call :=
  [.start, .processDatagram (plainRecord plainServerHello),
    .processDatagram (plainRecord (.certificate ⟨[], [1, 2, 3]⟩)),
    .processDatagram (plainRecord (.certificateVerify ⟨sigschemeEd25519, [4]⟩)),
    .processDatagram (plainRecord (.finished (List.replicate 32 0)))]

def orderedEvent (n : ℕ) (body : HandshakeBody) : Event :=
  ⟨calls .plain plainClient (orderedCalls.take n), .new body 0⟩

theorem InOrder.of_no_finished {a : Call} (hstart : a = .start → c.connected = false)
    (h : (callEvents env c a).all fun e => e.msg.body.msgType != .finished) :
    InOrder env H c a where
  start := hstart
  closing earlier e later hsplit hclosing := by
    obtain ⟨⟨verifyData, hbody⟩, -⟩ := hclosing
    have hne := all_eq_true.mp h e (by simp [hsplit])
    rw [hbody] at hne
    cases hne

theorem InOrder.of_vouched {a : Call} (hstart : a = .start → c.connected = false)
    (hone : (callEvents env c a).length = 1) (h : Vouched env H) : InOrder env H c a where
  start := hstart
  closing earlier e later hsplit _ := by
    rw [hsplit, length_append, length_cons] at hone
    rw [eq_nil_of_length_eq_zero (show earlier.length = 0 by omega), append_nil]
    exact h

set_option maxRecDepth 4000 in
/-- A client that is sent the flight in order authenticates its peer. -/
theorem connected_authenticated_ordered :
    Authenticated .plain (history .plain plainClient orderedCalls)
      (calls .plain plainClient orderedCalls) := by
  refine connected_authenticated fresh_plainClient ⟨?_, ?_, ?_, ?_, ?_, trivial⟩
    (by decide +kernel)
  · exact .of_no_finished (fun _ => rfl) (by decide +kernel)
  · exact .of_no_finished nofun (by decide +kernel)
  · exact .of_no_finished nofun (by decide +kernel)
  · exact .of_no_finished nofun (by decide +kernel)
  · refine .of_vouched nofun (by decide +kernel) ?_
    exact ⟨[orderedEvent 1 plainServerHello], [], [],
      orderedEvent 2 (.certificate ⟨[], [1, 2, 3]⟩),
      orderedEvent 3 (.certificateVerify ⟨sigschemeEd25519, [4]⟩), _, _, rfl, rfl,
      by decide +kernel, rfl, by decide +kernel, by decide +kernel, by decide +kernel⟩

def hurriedCalls : List Call :=
  [.start, .processDatagram (plainRecord plainServerHello),
    .processDatagram (plainRecord (.finished (List.replicate 32 0)))]

/-- It connects, without having heard of any key. -/
theorem connected_without_certificate :
    Fresh plainClient ∧ (calls .plain plainClient hurriedCalls).isConnected = true ∧
      ¬ Authenticated .plain (history .plain plainClient hurriedCalls)
        (calls .plain plainClient hurriedCalls) := by
  refine ⟨fresh_plainClient, by decide +kernel, ?_⟩
  rintro ⟨_, _, _, _, _, _, _, _, _, _, _, _, _, _, _, _, _, _, _, hkey⟩
  have hnone : (calls .plain plainClient hurriedCalls).peerRawPubkey = none := by decide +kernel
  rw [hnone] at hkey
  cases hkey

end Connection

end TptRfc.Dtls
