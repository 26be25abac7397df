import TptRfc.Ssh.Cipher

/-!
# SSH: two encrypted endpoints and the bytes between them

`EncryptedConn`, and a client and a server of which each may be fed what the other did not send.

* A run is a list of calls of `send`, `take_pending`, `feed_recv` and `recv` on both endpoints.
  Between `take_pending` of the one and `feed_recv` of the other the bytes are in the hands of the
  adversary; `deliver` is the two calls with the same bytes.
* `Unforged` is the assumption on the cipher: a packet is decrypted only if it is the packet of
  that direction and number.
* `Keyed` and `Counted` tie the counters to what was sent and received, `taken_run` ties the bytes
  that leave an endpoint to what was sent.  One step preserves each of them, hence every run.
* `stream_integrity` is the result for both directions.
-/

namespace TptRfc.Ssh

open Lib List Function

inductive Role where
  | client | server
  deriving DecidableEq

def Role.peer : Role → Role
  | .client => .server
  | .server => .client

structure CipherPair where
  clientToServer : Cipher
  serverToClient : Cipher

structure EncryptedConn where
  role : Role
  cipher : CipherPair
  pending : Bytes
  buf : Bytes
  clientSeq : UInt32
  serverSeq : UInt32

def EncryptedConn.new (role : Role) (cipher : CipherPair) : EncryptedConn :=
  ⟨role, cipher, [], [], 0, 0⟩

namespace EncryptedConn

def outgoingCipher (conn : EncryptedConn) : Cipher :=
  match conn.role with
  | .client => conn.cipher.clientToServer
  | .server => conn.cipher.serverToClient

def incomingCipher (conn : EncryptedConn) : Cipher :=
  match conn.role with
  | .client => conn.cipher.serverToClient
  | .server => conn.cipher.clientToServer

def outgoingSeq (conn : EncryptedConn) : UInt32 :=
  match conn.role with
  | .client => conn.clientSeq
  | .server => conn.serverSeq

def incomingSeq (conn : EncryptedConn) : UInt32 :=
  match conn.role with
  | .client => conn.serverSeq
  | .server => conn.clientSeq

def advanceOutgoingSeq (conn : EncryptedConn) : EncryptedConn :=
  match conn.role with
  | .client => { conn with clientSeq := conn.clientSeq + 1 }
  | .server => { conn with serverSeq := conn.serverSeq + 1 }

def advanceIncomingSeq (conn : EncryptedConn) : EncryptedConn :=
  match conn.role with
  | .client => { conn with serverSeq := conn.serverSeq + 1 }
  | .server => { conn with clientSeq := conn.clientSeq + 1 }

variable (prims : Primitives)

def packetOf (conn : EncryptedConn) (payload : Bytes) : Bytes :=
  conn.outgoingCipher.encryptPacket prims conn.outgoingSeq (frameContent payload)

def send (conn : EncryptedConn) (payload : Bytes) : EncryptedConn :=
  advanceOutgoingSeq { conn with pending := conn.pending ++ conn.packetOf prims payload }

def feedRecv (conn : EncryptedConn) (bytes : Bytes) : EncryptedConn :=
  { conn with buf := conn.buf ++ bytes }

/-- The bytes that are queued, which are then cleared. -/
def takePending (conn : EncryptedConn) : Bytes × EncryptedConn :=
  (conn.pending, { conn with pending := [] })

/-- The endpoint and its peer after the queued bytes are moved to the peer. -/
def deliver (conn peer : EncryptedConn) : EncryptedConn × EncryptedConn :=
  ({ conn with pending := [] }, { peer with buf := peer.buf ++ conn.pending })

def nextPacket (conn : EncryptedConn) : Option Bytes :=
  if conn.buf.length < 4 then none
  else
    let total :=
      4 + conn.incomingCipher.peekContentLen prims conn.incomingSeq (conn.buf.take 4) + 16
    if conn.buf.length < total then none else some (conn.buf.take total)

def recv (conn : EncryptedConn) : Except Error (Option Bytes) × EncryptedConn :=
  match conn.nextPacket prims with
  | none => (.ok none, conn)
  | some packet =>
    let drained := { conn with buf := conn.buf.drop packet.length }
    match conn.incomingCipher.decryptPacket prims conn.incomingSeq packet with
    | .error e => (.error e, drained)
    | .ok content =>
      -- the counter is moved before the content is unpacked
      ((unpackContent content).map some, drained.advanceIncomingSeq)

end EncryptedConn

/-! ## Sessions -/

inductive Event where
  | send (role : Role) (payload : Bytes)
  | take (role : Role)
  | feed (role : Role) (bytes : Bytes)
  | recv (role : Role)
  deriving DecidableEq

/-- The endpoints, with a record of the calls: the payloads given to `send`, the bytes returned by
`take_pending`, those given to `feed_recv` and the payloads returned by `recv`. -/
structure Session where
  conn : Role → EncryptedConn
  sent : Role → List Bytes
  taken : Role → Bytes
  fed : Role → Bytes
  received : Role → List Bytes

def Session.start (keys : CipherPair) : Session where
  conn role := .new role keys
  sent _ := []
  taken _ := []
  fed _ := []
  received _ := []

def returned : Except Error (Option Bytes) → List Bytes
  | .ok (some payload) => [payload]
  | _ => []

def Session.step (prims : Primitives) (s : Session) : Event → Session
  | .send role payload =>
    { s with
      conn := update s.conn role ((s.conn role).send prims payload)
      sent := update s.sent role (s.sent role ++ [payload]) }
  | .take role =>
    { s with
      conn := update s.conn role (s.conn role).takePending.2
      taken := update s.taken role (s.taken role ++ (s.conn role).takePending.1) }
  | .feed role bytes =>
    { s with
      conn := update s.conn role ((s.conn role).feedRecv bytes)
      fed := update s.fed role (s.fed role ++ bytes) }
  | .recv role =>
    { s with
      conn := update s.conn role ((s.conn role).recv prims).2
      received := update s.received role
        (s.received role ++ returned ((s.conn role).recv prims).1) }

def Session.run (prims : Primitives) (s : Session) (events : List Event) : Session :=
  events.foldl (Session.step prims) s

def CipherPair.out (keys : CipherPair) : Role → Cipher
  | .client => keys.clientToServer
  | .server => keys.serverToClient

def stream (prims : Primitives) (c : Cipher) (payloads : List Bytes) : Bytes :=
  (payloads.mapIdx fun i p => c.encryptPacket prims (UInt32.ofNat i) (frameContent p)).flatten

/-- Whenever `recv` decrypts a packet, it is the one that the peer sent under that number. -/
def Unforged (prims : Primitives) (keys : CipherPair) (events : List Event) : Prop :=
  ∀ pre role post, events = pre ++ .recv role :: post →
    ∀ packet content, (((Session.start keys).run prims pre).conn role).nextPacket prims =
        some packet →
      ((keys.out role.peer).decryptPacket prims
        (((Session.start keys).run prims pre).conn role).incomingSeq packet = .ok content) →
      ∃ i payload, (((Session.start keys).run prims pre).sent role.peer)[i]? = some payload ∧
        UInt32.ofNat i = (((Session.start keys).run prims pre).conn role).incomingSeq ∧
        packet = (keys.out role.peer).encryptPacket prims (UInt32.ofNat i) (frameContent payload)

def Event.role : Event → Role
  | .send role _ => role
  | .take role => role
  | .feed role _ => role
  | .recv role => role

/-! ## The counters -/

structure Keyed (keys : CipherPair) (s : Session) (role : Role) : Prop where
  role_eq : (s.conn role).role = role
  cipher_eq : (s.conn role).cipher = keys
  outgoing : (s.conn role).outgoingSeq = UInt32.ofNat (s.sent role).length

variable {role : Role} {s : Session} {e : Event} {events : List Event} {payloads : List Bytes}

theorem Keyed.outgoingCipher {keys : CipherPair}
    (h : Keyed keys s role) : (s.conn role).outgoingCipher = keys.out role := by
  unfold EncryptedConn.outgoingCipher
  rw [h.role_eq, h.cipher_eq]
  cases role <;> rfl

theorem Keyed.incomingCipher {keys : CipherPair}
    (h : Keyed keys s role) : (s.conn role).incomingCipher = keys.out role.peer := by
  unfold EncryptedConn.incomingCipher
  rw [h.role_eq, h.cipher_eq]
  cases role <;> rfl

def Counted (s : Session) (role : Role) : Prop :=
  (s.conn role).incomingSeq = UInt32.ofNat (s.received role).length

theorem ofNat_succ (n : ℕ) : UInt32.ofNat n + 1 = UInt32.ofNat (n + 1) := by
  rw [UInt32.ofNat_add]
  rfl

section Counters

variable (conn : EncryptedConn) (prims : Primitives)

theorem send_spec (payload : Bytes) :
    (conn.send prims payload).role = conn.role ∧ (conn.send prims payload).cipher = conn.cipher ∧
      (conn.send prims payload).outgoingSeq = conn.outgoingSeq + 1 ∧
      (conn.send prims payload).incomingSeq = conn.incomingSeq ∧
      (conn.send prims payload).buf = conn.buf ∧
      (conn.send prims payload).pending = conn.pending ++ conn.packetOf prims payload := by
  obtain ⟨role, cipher, pending, buf, clientSeq, serverSeq⟩ := conn
  cases role <;> exact ⟨rfl, rfl, rfl, rfl, rfl, rfl⟩

theorem advanceIncomingSeq_spec :
    conn.advanceIncomingSeq.role = conn.role ∧ conn.advanceIncomingSeq.cipher = conn.cipher ∧
      conn.advanceIncomingSeq.outgoingSeq = conn.outgoingSeq ∧
      conn.advanceIncomingSeq.incomingSeq = conn.incomingSeq + 1 ∧
      conn.advanceIncomingSeq.buf = conn.buf ∧
      conn.advanceIncomingSeq.pending = conn.pending := by
  obtain ⟨role, cipher, pending, buf, clientSeq, serverSeq⟩ := conn
  cases role <;> exact ⟨rfl, rfl, rfl, rfl, rfl, rfl⟩

variable {conn prims}

theorem recv_of_none (h : conn.nextPacket prims = none) : conn.recv prims = (.ok none, conn) := by
  unfold EncryptedConn.recv
  rw [h]

theorem recv_of_error {packet : Bytes} {e : Error} (h : conn.nextPacket prims = some packet)
    (hdecrypt : conn.incomingCipher.decryptPacket prims conn.incomingSeq packet = .error e) :
    conn.recv prims = (.error e, { conn with buf := conn.buf.drop packet.length }) := by
  unfold EncryptedConn.recv
  rw [h]
  dsimp only
  rw [hdecrypt]

theorem recv_of_frame {packet payload : Bytes} (h : conn.nextPacket prims = some packet)
    (hdecrypt : conn.incomingCipher.decryptPacket prims conn.incomingSeq packet =
      .ok (frameContent payload)) : conn.recv prims = (.ok (some payload),
      ({ conn with buf := conn.buf.drop packet.length } : EncryptedConn).advanceIncomingSeq) := by
  unfold EncryptedConn.recv
  rw [h]
  dsimp only
  rw [hdecrypt]
  dsimp only
  rw [unpackContent_frameContent]
  rfl

variable (conn prims)

theorem recv_outgoing : ((conn.recv prims).2).role = conn.role ∧
    ((conn.recv prims).2).cipher = conn.cipher ∧
      ((conn.recv prims).2).outgoingSeq = conn.outgoingSeq ∧
      ((conn.recv prims).2).pending = conn.pending := by
  unfold EncryptedConn.recv
  split
  · exact ⟨rfl, rfl, rfl, rfl⟩
  · dsimp only
    split
    · exact ⟨rfl, rfl, rfl, rfl⟩
    · obtain ⟨hrole, hcipher, hout, -, -, hpending⟩ := advanceIncomingSeq_spec
        ({ conn with buf := conn.buf.drop _ } : EncryptedConn)
      exact ⟨hrole, hcipher, hout, hpending⟩

end Counters

/-! ## Runs -/

variable {prims : Primitives} {keys : CipherPair}

theorem run_concat (s : Session) (events : List Event) (e : Event) :
    s.run prims (events ++ [e]) = (s.run prims events).step prims e := foldl_concat _ _ _ _

theorem step_of_ne (s : Session) (h : role ≠ e.role) :
    (s.step prims e).conn role = s.conn role ∧ (s.step prims e).sent role = s.sent role ∧
      (s.step prims e).taken role = s.taken role ∧ (s.step prims e).fed role = s.fed role ∧
      (s.step prims e).received role = s.received role := by
  cases e with
  | send r payload | take r | feed r bytes | recv r =>
    have hne : role ≠ r := h
    simp only [Session.step, update_of_ne hne, and_self]

theorem grows_step (s : Session) (e : Event) (role : Role) :
    s.sent role <+: (s.step prims e).sent role ∧ s.fed role <+: (s.step prims e).fed role := by
  by_cases h : role = e.role
  · subst h
    cases e with
    | send r payload =>
      simp only [Session.step, Event.role, update_self]
      exact ⟨prefix_append _ _, prefix_rfl⟩
    | feed r bytes =>
      simp only [Session.step, Event.role, update_self]
      exact ⟨prefix_rfl, prefix_append _ _⟩
    | take r | recv r => exact ⟨prefix_rfl, prefix_rfl⟩
  · rw [(step_of_ne s h).2.1, (step_of_ne s h).2.2.2.1]
    exact ⟨prefix_rfl, prefix_rfl⟩

theorem keyed_step (h : Keyed keys s role) (e : Event) : Keyed keys (s.step prims e) role := by
  by_cases hr : role = e.role
  · subst hr
    obtain ⟨h₁, h₂, h₃⟩ := h
    cases e with
    | send r payload =>
      obtain ⟨hrole, hcipher, hout, -⟩ := send_spec (s.conn r) prims payload
      constructor
      all_goals simp only [Session.step, Event.role, update_self]
      · exact hrole.trans h₁
      · exact hcipher.trans h₂
      · rw [hout, length_append, length_singleton, ← ofNat_succ]
        exact congrArg (· + 1) h₃
    | take r | feed r bytes =>
      constructor <;> simpa only [Session.step, Event.role, update_self]
    | recv r =>
      obtain ⟨hrole, hcipher, hout, -⟩ := recv_outgoing (s.conn r) prims
      constructor
      all_goals simp only [Session.step, Event.role, update_self]
      · exact hrole.trans h₁
      · exact hcipher.trans h₂
      · exact hout.trans h₃
  · obtain ⟨hconn, hsent, -⟩ : (s.step prims e).conn role = _ ∧ _ := step_of_ne s hr
    obtain ⟨h₁, h₂, h₃⟩ := h
    exact ⟨by rw [hconn]; exact h₁, by rw [hconn]; exact h₂, by rw [hconn, hsent]; exact h₃⟩

theorem keyed_run (keys : CipherPair) (events : List Event) (role : Role) :
    Keyed keys ((Session.start keys).run prims events) role := by
  induction events using reverseRecOn with
  | nil => exact ⟨rfl, rfl, by cases role <;> rfl⟩
  | append_singleton events e ih =>
    rw [run_concat]
    exact keyed_step ih e

theorem counted_step (h : Counted s role) (he : e ≠ .recv role) :
    Counted (s.step prims e) role ∧ (s.step prims e).received role = s.received role := by
  by_cases hr : role = e.role
  · subst hr
    unfold Counted at *
    cases e with
    | send r payload =>
      simp only [Session.step, Event.role, update_self]
      exact ⟨(send_spec (s.conn r) prims payload).2.2.2.1.trans h, trivial⟩
    | take r | feed r bytes =>
      simp only [Session.step, Event.role, update_self]
      exact ⟨h, trivial⟩
    | recv r => exact absurd rfl he
  · obtain ⟨hconn, -, -, -, hreceived⟩ : (s.step prims e).conn role = _ ∧ _ := step_of_ne s hr
    exact ⟨by unfold Counted; rw [hconn, hreceived]; exact h, hreceived⟩

def takeOff (conn : EncryptedConn) (packet : Bytes) : EncryptedConn :=
  ({ conn with buf := conn.buf.drop packet.length } : EncryptedConn).advanceIncomingSeq

theorem counted_recv_nothing (h : Counted s role)
    (hreturned : returned ((s.conn role).recv prims).1 = [])
    (hseq : ((s.conn role).recv prims).2.incomingSeq = (s.conn role).incomingSeq) :
    Counted (s.step prims (.recv role)) role ∧
      (s.step prims (.recv role)).received role = s.received role := by
  unfold Counted at *
  simp only [Session.step, update_self, hreturned, append_nil, and_true]
  exact hseq.trans h

theorem counted_recv_next (h : Counted s role) {packet payload : Bytes}
    (hrecv : (s.conn role).recv prims = (.ok (some payload), takeOff (s.conn role) packet)) :
    Counted (s.step prims (.recv role)) role ∧
      (s.step prims (.recv role)).received role = s.received role ++ [payload] ∧
      ((s.step prims (.recv role)).conn role).buf = (s.conn role).buf.drop packet.length := by
  obtain ⟨-, -, -, hin, hbuf, -⟩ := advanceIncomingSeq_spec
    ({ s.conn role with buf := (s.conn role).buf.drop packet.length } : EncryptedConn)
  unfold Counted at *
  simp only [Session.step, update_self, hrecv, returned, true_and]
  refine ⟨hin.trans ?_, hbuf⟩
  change (s.conn role).incomingSeq + 1 = _
  rw [h, ofNat_succ, length_append]
  rfl

def Bounded (prims : Primitives) (keys : CipherPair) (events : List Event) : Prop :=
  ∀ role, (((Session.start keys).run prims events).sent role).length < 2 ^ 32 ∧
    ∀ p ∈ ((Session.start keys).run prims events).sent role, p.length < 2 ^ 31

theorem Bounded.init (h : Bounded prims keys (events ++ [e])) : Bounded prims keys events := by
  intro role
  obtain ⟨hcount, hsize⟩ := h role
  rw [run_concat] at hcount hsize
  have hgrow : _ <+: (((Session.start keys).run prims events).step prims e).sent role :=
    (grows_step _ e role).1
  exact ⟨lt_of_le_of_lt hgrow.length_le hcount, fun p hp => hsize p (hgrow.subset hp)⟩

theorem Unforged.init (h : Unforged prims keys (events ++ [e])) : Unforged prims keys events := by
  intro pre role post hsplit
  refine h pre role (post ++ [e]) ?_
  rw [hsplit, append_assoc]
  rfl

theorem length_frame_lt {p : Bytes} (h : p.length < 2 ^ 31) : (frameContent p).length < 2 ^ 32 := by
  have := length_frameContent_le p
  omega

structure Inv (s : Session) : Prop where
  counted : ∀ role, Counted s role
  received : ∀ role, s.received role <+: s.sent role.peer

theorem Inv.of_same (h : Inv s) (hsame : ∀ role, Counted (s.step prims e) role ∧
      (s.step prims e).received role = s.received role) : Inv (s.step prims e) where
  counted role := (hsame role).1
  received role := by
    rw [(hsame role).2]
    exact (h.received role).trans (grows_step s e role.peer).1

theorem append_prefix_of_getElem? {α : Type} {a b : List α} {x : α} (h : a <+: b)
    (hx : b[a.length]? = some x) : a ++ [x] <+: b := by
  obtain ⟨tail, rfl⟩ := h
  rw [getElem?_append_right le_rfl, Nat.sub_self] at hx
  cases tail with
  | nil => cases hx
  | cons first tail =>
    cases hx
    exact ⟨tail, by rw [append_assoc]; rfl⟩

theorem inv_recv_nothing (h : Inv s) {r : Role}
    (hreturned : returned ((s.conn r).recv prims).1 = [])
    (hseq : ((s.conn r).recv prims).2.incomingSeq = (s.conn r).incomingSeq) :
    Inv (s.step prims (.recv r)) := by
  refine h.of_same fun role => ?_
  by_cases hr : role = r
  · subst hr
    exact counted_recv_nothing (h.counted role) hreturned hseq
  · exact counted_step (h.counted role) fun heq => hr (Event.recv.inj heq).symm

theorem inv_recv_next (h : Inv s) {r : Role} {packet payload : Bytes}
    (hnext : (s.sent r.peer)[(s.received r).length]? = some payload)
    (hrecv : (s.conn r).recv prims = (.ok (some payload), takeOff (s.conn r) packet)) :
    Inv (s.step prims (.recv r)) := by
  have hother : ∀ role, role ≠ r → Counted (s.step prims (.recv r)) role ∧
      (s.step prims (.recv r)).received role = s.received role := fun role hr =>
    counted_step (h.counted role) fun heq => hr (Event.recv.inj heq).symm
  obtain ⟨hcounted, hreceived, -⟩ := counted_recv_next (h.counted r) hrecv
  constructor
  · intro role
    by_cases hr : role = r
    · subst hr
      exact hcounted
    · exact (hother role hr).1
  · intro role
    by_cases hr : role = r
    · subst hr
      rw [hreceived]
      exact append_prefix_of_getElem? (h.received role) hnext
    · rw [(hother role hr).2]
      exact h.received role

theorem inv_run (hbounded : Bounded prims keys events)
    (hunforged : Unforged prims keys events) : Inv ((Session.start keys).run prims events) := by
  induction events using reverseRecOn with
  | nil => exact ⟨fun role => by cases role <;> rfl, fun _ => prefix_rfl⟩
  | append_singleton events e ih =>
    have h := ih hbounded.init hunforged.init
    have hbound := hbounded.init
    have hkeyed : ∀ role, Keyed keys ((Session.start keys).run prims events) role :=
      keyed_run keys events
    have hpackets := fun role (he : e = .recv role) =>
      hunforged events role [] (by rw [he])
    rw [run_concat]
    generalize hs : (Session.start keys).run prims events = s at h hpackets hkeyed
    cases e with
    | send r payload => exact h.of_same fun role => counted_step (h.counted role) nofun
    | take r | feed r bytes =>
      exact h.of_same fun role => counted_step (h.counted role) nofun
    | recv r =>
      cases hpacket : (s.conn r).nextPacket prims with
      | none =>
        have hrecv := recv_of_none hpacket
        exact inv_recv_nothing h (by rw [hrecv]; rfl) (by rw [hrecv])
      | some packet =>
        have hcipher := (hkeyed r).incomingCipher
        cases hdecrypt : (keys.out r.peer).decryptPacket prims (s.conn r).incomingSeq
            packet with
        | error error =>
          have hrecv := recv_of_error hpacket (hcipher ▸ hdecrypt)
          exact inv_recv_nothing h (by rw [hrecv]; rfl) (by rw [hrecv]; rfl)
        | ok content =>
          obtain ⟨i, payload, hi, hseq, rfl⟩ := hpackets r rfl packet content hpacket hdecrypt
          obtain ⟨hcount, hsize⟩ := hbound r.peer
          rw [hs] at hcount hsize
          have hilt := (List.getElem?_eq_some_iff.mp hi).1
          have hle := (h.received r).length_le
          -- the counters are below `2 ^ 32`, so that the number names one payload
          have hindex : i = (s.received r).length := by
            have heq := congrArg UInt32.toNat (hseq.trans (h.counted r))
            rw [UInt32.toNat_ofNat', UInt32.toNat_ofNat'] at heq
            omega
          have hframe := decryptPacket_encryptPacket prims (keys.out r.peer)
            (UInt32.ofNat i)
            (length_frame_lt (hsize payload (mem_of_getElem? hi)))
          rw [hindex] at hi
          refine inv_recv_next h hi (recv_of_frame hpacket ?_)
          rw [hcipher, ← hseq]
          exact hframe

/-! ## Bytes that are not changed -/

theorem stream_concat (c : Cipher) (payloads : List Bytes) (p : Bytes) :
    stream prims c (payloads ++ [p]) = stream prims c payloads ++
      c.encryptPacket prims (UInt32.ofNat payloads.length) (frameContent p) := by
  unfold stream
  rw [mapIdx_concat, flatten_append, flatten_singleton]

theorem stream_prefix (c : Cipher) {a b : List Bytes} (h : a <+: b) :
    stream prims c a <+: stream prims c b := by
  obtain ⟨tail, rfl⟩ := h
  induction tail using reverseRecOn with
  | nil =>
    rw [append_nil]
  | append_singleton tail p ih =>
    rw [← append_assoc, stream_concat]
    exact ih.trans (prefix_append _ _)

theorem nextPacket_of_buf {conn : EncryptedConn} {content rest : Bytes}
    (hcontent : content.length < 2 ^ 32)
    (hbuf : conn.buf <+: conn.incomingCipher.encryptPacket prims conn.incomingSeq content ++ rest) :
    conn.nextPacket prims =
      if conn.buf.length < 4 + content.length + 16 then none
      else some (conn.incomingCipher.encryptPacket prims conn.incomingSeq content) := by
  have hlength := length_encryptPacket prims conn.incomingCipher conn.incomingSeq content
  have hpeek := peekContentLen_encryptPacket prims conn.incomingCipher conn.incomingSeq hcontent
  set packet := conn.incomingCipher.encryptPacket prims conn.incomingSeq content
  obtain ⟨tail, htail⟩ := hbuf
  unfold EncryptedConn.nextPacket
  by_cases hfour : conn.buf.length < 4
  · rw [if_pos hfour, if_pos (by omega)]
  · rw [if_neg hfour]
    have htake : conn.buf.take 4 = packet.take 4 := by
      have hboth := congrArg (List.take 4) htail
      rwa [take_append_of_le_length (by omega), take_append_of_le_length (by omega)] at hboth
    dsimp only
    rw [htake, hpeek]
    split_ifs with hshort
    · rfl
    · have hboth := congrArg (List.take (4 + content.length + 16)) htail
      rw [take_append_of_le_length (by omega), take_left' hlength] at hboth
      rw [hboth]

structure Faithful (prims : Primitives) (keys : CipherPair) (role : Role) (payloads : List Bytes)
    (s : Session) : Prop where
  counted : Counted s role
  received : s.received role <+: payloads
  fed : s.fed role = stream prims (keys.out role.peer) (s.received role) ++ (s.conn role).buf

def nextFor (prims : Primitives) (keys : CipherPair) (s : Session) (role : Role)
    (payload : Bytes) : Bytes :=
  (keys.out role.peer).encryptPacket prims (UInt32.ofNat (s.received role).length)
    (frameContent payload)

theorem recv_of_faithful (hkeyed : Keyed keys s role) (h : Faithful prims keys role payloads s)
    (hfed : s.fed role <+: stream prims (keys.out role.peer) payloads)
    (hsize : ∀ p ∈ payloads, p.length < 2 ^ 31) :
    ((s.conn role).recv prims = (.ok none, s.conn role) ∧
      (s.fed role = stream prims (keys.out role.peer) payloads → s.received role = payloads)) ∨
    ∃ payload tail, payloads = s.received role ++ payload :: tail ∧
      nextFor prims keys s role payload <+: (s.conn role).buf ∧
      (s.conn role).recv prims = (.ok (some payload),
        takeOff (s.conn role) (nextFor prims keys s role payload)) := by
  obtain ⟨hcounted, ⟨tail, htail⟩, hbuf⟩ := h
  have hcipher := hkeyed.incomingCipher
  have hseq : (s.conn role).incomingSeq = _ := hcounted
  cases tail with
  | nil =>
    rw [append_nil] at htail
    left
    have hempty : (s.conn role).buf = [] := by
      have hle := hfed.length_le
      rw [hbuf, htail, length_append] at hle
      exact eq_nil_of_length_eq_zero (by omega)
    refine ⟨recv_of_none ?_, fun _ => htail⟩
    unfold EncryptedConn.nextPacket
    rw [hempty]
    rfl
  | cons payload tail =>
    have hframe := length_frame_lt (hsize payload (by rw [← htail]; simp))
    have hsplit : stream prims (keys.out role.peer) (s.received role ++ [payload]) <+:
        stream prims (keys.out role.peer) payloads :=
      stream_prefix _ ⟨tail, by rw [append_assoc]; exact htail⟩
    rw [stream_concat] at hsplit
    change _ ++ nextFor prims keys s role payload <+: _ at hsplit
    generalize hpacket : nextFor prims keys s role payload = packet at hsplit
    unfold nextFor at hpacket
    obtain ⟨rest, hrest⟩ := hsplit
    have hstart : (s.conn role).buf <+: packet ++ rest := by
      rw [hbuf, ← hrest, append_assoc] at hfed
      exact (prefix_append_right_inj _).mp hfed
    have hlength : packet.length = 4 + (frameContent payload).length + 16 := by
      rw [← hpacket]
      exact length_encryptPacket ..
    have hnext : (s.conn role).nextPacket prims = _ :=
      nextPacket_of_buf hframe (by rw [hcipher, hseq, hpacket]; exact hstart)
    rw [hcipher, hseq, hpacket, ← hlength] at hnext
    by_cases hshort : (s.conn role).buf.length < packet.length
    · rw [if_pos hshort] at hnext
      refine .inl ⟨recv_of_none hnext, fun hall => ?_⟩
      have hfull : (s.conn role).buf = packet ++ rest := by
        rw [hbuf, ← hrest, append_assoc] at hall
        exact append_cancel_left hall
      rw [hfull, length_append] at hshort
      omega
    · rw [if_neg hshort] at hnext
      refine .inr ⟨payload, tail, htail.symm, ?_, ?_⟩
      · rw [nextFor, hpacket]
        exact prefix_of_prefix_length_le (prefix_append _ _) hstart (by omega)
      · rw [nextFor, hpacket]
        refine recv_of_frame hnext ?_
        rw [hcipher, hseq, ← hpacket]
        exact decryptPacket_encryptPacket prims _ _ hframe

theorem faithful_step (hkeyed : Keyed keys s role) (h : Faithful prims keys role payloads s)
    (e : Event) (hfed : (s.step prims e).fed role <+: stream prims (keys.out role.peer) payloads)
    (hsize : ∀ p ∈ payloads, p.length < 2 ^ 31) :
    Faithful prims keys role payloads (s.step prims e) := by
  have hbefore : s.fed role <+: _ := (grows_step s e role).2.trans hfed
  by_cases he : e = .recv role
  · subst he
    rcases recv_of_faithful hkeyed h hbefore hsize with
      ⟨hrecv, -⟩ | ⟨payload, tail, hsplit, ⟨rest, hrest⟩, hrecv⟩
    · obtain ⟨hcounted, hreceived⟩ := counted_recv_nothing h.counted
        (by rw [hrecv]; rfl) (by rw [hrecv])
      refine ⟨hcounted, by rw [hreceived]; exact h.received, ?_⟩
      rw [hreceived]
      simp only [Session.step, update_self, hrecv]
      exact h.fed
    · obtain ⟨hcounted, hreceived, hbuf⟩ := counted_recv_next h.counted hrecv
      refine ⟨hcounted, ?_, ?_⟩
      · rw [hreceived, hsplit]
        exact ⟨tail, by rw [append_assoc]; rfl⟩
      · rw [hreceived, hbuf, stream_concat, ← hrest, drop_left, append_assoc]
        change s.fed role = _ ++ (nextFor prims keys s role payload ++ rest)
        rw [hrest]
        exact h.fed
  · obtain ⟨hcounted, hreceived⟩ : Counted (s.step prims e) role ∧ _ :=
      counted_step h.counted he
    refine ⟨hcounted, by rw [hreceived]; exact h.received, ?_⟩
    rw [hreceived]
    by_cases hr : role = e.role
    · subst hr
      cases e with
      | send r payload =>
        simp only [Session.step, Event.role, update_self]
        rw [(send_spec (s.conn r) prims payload).2.2.2.2.1]
        exact h.fed
      | take r =>
        simp only [Session.step, Event.role, update_self]
        exact h.fed
      | feed r bytes =>
        simp only [Session.step, Event.role, update_self, EncryptedConn.feedRecv]
        rw [← append_assoc]
        exact congrArg (· ++ bytes) h.fed
      | recv r => exact absurd rfl he
    · obtain ⟨hconn, -, -, hsame, -⟩ : (s.step prims e).conn role = _ ∧ _ := step_of_ne s hr
      rw [hconn, hsame]
      exact h.fed

theorem faithful_run (hfed : ((Session.start keys).run prims events).fed role <+:
      stream prims (keys.out role.peer) payloads) (hsize : ∀ p ∈ payloads, p.length < 2 ^ 31) :
    Faithful prims keys role payloads ((Session.start keys).run prims events) := by
  induction events using reverseRecOn with
  | nil => exact ⟨by cases role <;> rfl, nil_prefix, rfl⟩
  | append_singleton events e ih =>
    rw [run_concat] at hfed ⊢
    exact faithful_step (keyed_run keys events role)
      (ih ((grows_step _ e role).2.trans hfed)) e hfed hsize

theorem drain (n : ℕ) (hkeyed : Keyed keys s role) (h : Faithful prims keys role payloads s)
    (hfed : s.fed role = stream prims (keys.out role.peer) payloads)
    (hsize : ∀ p ∈ payloads, p.length < 2 ^ 31)
    (hn : payloads.length ≤ (s.received role).length + n) :
    (s.run prims (List.replicate n (.recv role))).received role = payloads := by
  induction n generalizing s with
  | zero => exact h.received.eq_of_length_le hn
  | succ n ih =>
    rw [replicate_succ]
    have hafter : (s.step prims (.recv role)).fed role = _ := hfed
    refine ih (keyed_step hkeyed _)
      (faithful_step hkeyed h _ (by rw [hafter]) hsize) hafter ?_
    rcases recv_of_faithful hkeyed h (by rw [hfed]) hsize with
      ⟨hrecv, hall⟩ | ⟨payload, tail, -, -, hrecv⟩
    · rw [(counted_recv_nothing h.counted (by rw [hrecv]; rfl) (by rw [hrecv])).2, hall hfed]
      omega
    · rw [(counted_recv_next h.counted hrecv).2.1, length_append]
      simp only [length_singleton]
      omega

/-- The bytes that were taken and those that are queued are the packets of what was sent. -/
theorem taken_run (events : List Event) (role : Role) :
    ((Session.start keys).run prims events).taken role ++
        (((Session.start keys).run prims events).conn role).pending =
      stream prims (keys.out role) (((Session.start keys).run prims events).sent role) := by
  induction events using reverseRecOn with
  | nil => rfl
  | append_singleton events e ih =>
    have hkeyed : Keyed keys ((Session.start keys).run prims events) role :=
      keyed_run keys events role
    rw [run_concat]
    by_cases hr : role = e.role
    · subst hr
      cases e with
      | send r payload =>
        have hpacket : EncryptedConn.packetOf prims _ payload = _ :=
          congrArg₂ (fun c n => Cipher.encryptPacket prims c n (frameContent payload))
            hkeyed.outgoingCipher hkeyed.outgoing
        simp only [Session.step, Event.role, update_self]
        rw [(send_spec _ prims payload).2.2.2.2.2, stream_concat, ← append_assoc]
        exact congrArg₂ (· ++ ·) ih hpacket
      | take r =>
        simp only [Session.step, Event.role, update_self, EncryptedConn.takePending, append_nil]
        exact ih
      | feed r bytes =>
        simp only [Session.step, Event.role, update_self]
        exact ih
      | recv r =>
        simp only [Session.step, Event.role, update_self]
        rw [(recv_outgoing _ prims).2.2.2]
        exact ih
    · obtain ⟨hconn, hsent, htaken, -⟩ :
          (((Session.start keys).run prims events).step prims e).conn role = _ ∧ _ :=
        step_of_ne _ hr
      rw [hconn, hsent, htaken]
      exact ih

/-- If the packets of some payloads are fed, as many calls of `recv` return them. -/
theorem received_of_fed
    (hfed : ((Session.start keys).run prims events).fed role =
      stream prims (keys.out role.peer) payloads)
    (hsize : ∀ p ∈ payloads, p.length < 2 ^ 31) {n : ℕ} (hn : payloads.length ≤ n) :
    (((Session.start keys).run prims events).run prims
      (List.replicate n (.recv role))).received role = payloads :=
  drain n (keyed_run keys events role) (faithful_run (by rw [hfed]) hsize) hfed hsize (by omega)

/-- **Integrity of the stream**, in both directions.  Whatever is fed, the payloads that are
returned are a prefix of those that were sent.  Where the bytes are fed as they were taken, in any
pieces, every payload is returned once and in order, after all are taken or after a `deliver` of
those that are queued. -/
theorem stream_integrity {events : List Event} (hbounded : Bounded prims keys events)
    (role : Role) :
    let s := (Session.start keys).run prims events
    let t := s.run prims [.take role.peer, .feed role (s.conn role.peer).pending]
    (Unforged prims keys events → s.received role <+: s.sent role.peer) ∧
    (s.conn role.peer).deliver (s.conn role) = (t.conn role.peer, t.conn role) ∧
    (s.fed role = s.taken role.peer → ∀ n, (s.sent role.peer).length ≤ n →
      ((s.conn role.peer).pending = [] →
        (s.run prims (List.replicate n (.recv role))).received role = s.sent role.peer) ∧
      (t.run prims (List.replicate n (.recv role))).received role = s.sent role.peer) := by
  intro s t
  have hsize := (hbounded role.peer).2
  have hstream : s.taken role.peer ++ (s.conn role.peer).pending = _ :=
    taken_run events role.peer
  refine ⟨fun hunforged => (inv_run hbounded hunforged).received role, by cases role <;> rfl,
    fun hfed n hn => ⟨fun hnone => ?_, ?_⟩⟩
  · rw [hnone, append_nil, ← hfed] at hstream
    exact received_of_fed hstream hsize hn
  · have ht : t = (Session.start keys).run prims
        (events ++ [.take role.peer, .feed role (s.conn role.peer).pending]) :=
      foldl_append.symm
    have hall : t.fed role = s.fed role ++ (s.conn role.peer).pending := by cases role <;> rfl
    rw [hfed, hstream, ht] at hall
    rw [ht]
    exact received_of_fed hall hsize hn

/-- Packets that show the key, the number and the end of the content. -/
def labelledPrims : Primitives where
  chacha key seq _ := key.val.headD 0 + UInt8.ofNat seq.toNat
  poly1305 key message := padTo 16 (key.val.take 1 ++ message.reverse)

def distinctKeys : CipherPair := ⟨.new (padTo 64 [1]), .new (padTo 64 [2])⟩

def firstPacket : Bytes :=
  distinctKeys.clientToServer.encryptPacket labelledPrims 0 (frameContent [5])

/-- The client sends a payload, its packet reaches the server in two pieces, and it is also sent
back to the client. -/
def reflected : List Event :=
  [.send .client [5], .take .client, .feed .server (firstPacket.take 3), .recv .server,
    .feed .server (firstPacket.drop 3), .feed .client firstPacket, .recv .client, .recv .server]

theorem unforged_reflected : Unforged labelledPrims distinctKeys reflected := by
  intro pre role post hsplit packet content hpacket hdecrypt
  have hlen := congrArg length hsplit
  rcases pre with _ | ⟨_, _ | ⟨_, _ | ⟨_, _ | ⟨_, _ | ⟨_, _ | ⟨_, _ | ⟨_, _ | ⟨_, pre⟩⟩⟩⟩⟩⟩⟩⟩ <;>
    first | cases hsplit | simp [reflected] at hlen
  · -- three bytes are no packet
    cases hpacket.symm.trans (by decide +kernel : _ = none)
  · -- the client has the other key
    cases hpacket.symm.trans (by decide +kernel : _ = some firstPacket)
    have hfail : (Cipher.decryptPacket labelledPrims (distinctKeys.out .server) 0
      firstPacket).toOption = none := by decide +kernel
    cases (congrArg Except.toOption hdecrypt).symm.trans hfail
  · cases hpacket.symm.trans (by decide +kernel : _ = some firstPacket)
    exact ⟨0, [5], by decide +kernel, by decide +kernel, rfl⟩

/-- The server returns the payload once, and the client nothing. -/
theorem stream_integrity_reflected :
    let s := (Session.start distinctKeys).run labelledPrims reflected
    Bounded labelledPrims distinctKeys reflected ∧
      Unforged labelledPrims distinctKeys reflected ∧ s.received .client <+: [] ∧
      (s.run labelledPrims (List.replicate 1 (.recv .server))).received .server = [[5]] := by
  have hbounded : Bounded labelledPrims distinctKeys reflected := by
    intro role
    cases role <;> decide +kernel
  refine ⟨hbounded, unforged_reflected, (stream_integrity hbounded .client).1 unforged_reflected,
    (((stream_integrity hbounded .server).2.2 ?_ 1 ?_).1 ?_).trans ?_⟩
  · decide +kernel
  · decide +kernel
  · decide +kernel
  · rfl

end TptRfc.Ssh
