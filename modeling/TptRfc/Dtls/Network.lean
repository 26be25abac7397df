import TptRfc.Dtls.Delivery

/-!
# DTLS: a client and a server over a lossy network

The two sides talk over a network that may lose, duplicate and reorder datagrams: a `Net` holds
both connections, every datagram that was ever sent, as the list of its records, and the
datagrams that each side has processed.  An `Action` is a call on one side or the delivery of any
datagram of its peer, so that a run is any interleaving of the calls with any loss, duplication,
delay and order of the datagrams.

The module proves two properties of every run from a fresh pair of sides.

* **Redelivery.**  A datagram that its receiver has processed before leaves the transcript, the
  keys and the state as they are.  It holds of the runs whose steps are `Calm`: a record in the
  clear bypasses the replay windows, so that a hello delivered twice is answered twice.
* **Agreement.**  When both sides are connected, their application keys are equal.  The server
  is connected by a Finished message, and what has to be shown is that it is the one with which
  the client concluded its own handshake (`Agreed`).

Redelivery needs nothing of the cryptography.  For agreement two things are asked of the run's own
records and of the two final transcripts: the server opens a record of the client to what the
client sealed in it (`Faithful`), and the Finished MAC does not collide on the transcripts
(`Binding`).

Both invariants are carried by a step lemma and an induction over the run (`Ok.step`, `Ok.run`;
`agreed_step`, `agreed_run`).
-/

namespace TptRfc.Dtls

open Lib List Function

open Connection

structure Net where
  side : ConnectionRole → Connection
  /-- The datagrams that a side has sent, each as its list of records. -/
  sent : ConnectionRole → List (List Bytes)
  /-- The datagrams that a side has processed. -/
  seen : ConnectionRole → List Bytes

inductive Action where
  | start
  | tick (r : ConnectionRole) (dt : ℕ)
  | sendAppData (r : ConnectionRole) (data : Bytes)
  | recvAppData (r : ConnectionRole)
  /-- Send what is queued as one datagram. -/
  | flush (r : ConnectionRole)
  /-- Deliver the `i`-th datagram of the peer to `r`. -/
  | deliver (r : ConnectionRole) (i : ℕ)

namespace Net

variable (env : Crypto)

def datagram (net : Net) (r : ConnectionRole) (i : ℕ) : List Bytes := (net.sent r.peer).getD i []

def withSide (net : Net) (r : ConnectionRole) (c : Connection) : Net :=
  { net with side := update net.side r c }

def step (net : Net) : Action → Net
  | .start => net.withSide .client (start env (net.side .client)).2
  | .tick r dt => net.withSide r (tick dt (net.side r)).2
  | .sendAppData r data => net.withSide r (sendAppData env data (net.side r)).2
  | .recvAppData r => net.withSide r (recvAppData (net.side r)).2
  | .flush r =>
    { net.withSide r (takeOutput (net.side r)).2 with
      sent := update net.sent r (net.sent r ++ [(net.side r).out]) }
  | .deliver r i =>
    { net.withSide r (processDatagram env (net.datagram r i).flatten (net.side r)).2 with
      seen := update net.seen r (net.seen r ++ [(net.datagram r i).flatten]) }

def run (net : Net) (as : List Action) : Net := as.foldl (step env) net

structure Fresh (net : Net) : Prop where
  client : ∃ config ks random, newClient config ks random = .ok (net.side .client)
  server : ∃ config ks random, newServer config ks random = .ok (net.side .server)
  sent : ∀ r, net.sent r = []
  seen : ∀ r, net.seen r = []

/-! ## Harmless steps -/

def boundaries (D : List Bytes) : List ℕ :=
  (range (D.length + 1)).map fun i => (D.take i).flatten.length

def Aligned (c : Connection) (D : List Bytes) : Prop :=
  ∀ visit ∈ visits env D.flatten c, visit.1 ∈ boundaries D

instance (c : Connection) (D : List Bytes) : Decidable (Aligned env c D) :=
  inferInstanceAs (Decidable (∀ visit ∈ _, _))

/-- A step is harmless: the client is started once; a datagram is delivered again only
where it can be; and the loop of a server in its handshake stays on the boundaries. -/
def Calm (net : Net) : Action → Prop
  | .start => (net.side .client).state = .clientStart
  | .deliver r i =>
    ((net.datagram r i).flatten ∈ net.seen r →
        RedeliveryOk (net.side r) (net.datagram r i).flatten) ∧
      (r = .server → (net.side r).connected = false → Aligned env (net.side r) (net.datagram r i))
  | _ => True

instance decidableCalm (net : Net) : (a : Action) → Decidable (Calm env net a)
  | .start => inferInstanceAs (Decidable (_ = _))
  | .deliver _ _ => inferInstanceAs (Decidable (_ ∧ _))
  | .tick _ _ | .sendAppData _ _ | .recvAppData _ | .flush _ => inferInstanceAs (Decidable True)

/-- What the server opens of the client's records is what the client sealed in them. -/
def Faithful (net : Net) : Action → Prop
  | .deliver .server i =>
    ∀ visit ∈ visits env (net.datagram .server i).flatten (net.side .server),
      ∀ sent ∈ net.datagram .server i, ∀ rest,
        (net.datagram .server i).flatten.drop visit.1 = sent ++ rest →
          ReadsBack env (net.side .client) visit.2 sent rest
  | _ => True

/-- Every step of the run has the property `P`, in the state in which it is taken. -/
def Along (P : Net → Action → Prop) (net : Net) : List Action → Prop
  | [] => True
  | a :: as => P net a ∧ Along P (step env net a) as

instance decidableAlong (P : Net → Action → Prop) [∀ net a, Decidable (P net a)] :
    (net : Net) → (as : List Action) → Decidable (Along env P net as)
  | _, [] => inferInstanceAs (Decidable True)
  | net, a :: as =>
    haveI := decidableAlong P (step env net a) as
    inferInstanceAs (Decidable (_ ∧ _))

/-! ## The invariant -/

def Agreed (client server : Connection) : Prop :=
  server.connected = true → ∃ m, Concluded env client m ∧ Concluded env server m ∧
    client.suite = server.suite

structure SideOk (r : ConnectionRole) (log seen : List Bytes) (c : Connection) : Prop where
  role : c.role = r
  windows : c.WindowsWellFormed
  honest : Honest env log c
  refuses : ∀ d ∈ seen, Refuses c d

def Ok (net : Net) : Prop :=
  ∀ r, SideOk env r (net.sent r).flatten (net.seen r) (net.side r)

variable {env} {net : Net} {r : ConnectionRole} {log seen : List Bytes} {c c' s : Connection}

variable {m : HandshakeMessage} {D : List Bytes} {pos : ℕ}

theorem concluded_housekept (h : Concluded env c m)
    (hkept : Housekept c c') : Concluded env c' m ∧ c'.suite = c.suite := by
  obtain ⟨seq, out, timer, inbox, rfl⟩ := hkept
  exact ⟨⟨h.connected, h.state, h.finished⟩, rfl⟩

theorem concluded_quiet (h : Concluded env c m) (hquiet : Quiet c c') :
    Concluded env c' m ∧ c'.suite = c.suite := by
  obtain ⟨windows, inbox, rfl⟩ := hquiet
  exact ⟨⟨h.connected, h.state, h.finished⟩, rfl⟩

theorem SideOk.housekept (h : SideOk env r log seen c) (hkept : Housekept c c') {log' : List Bytes}
    (hhonest : Honest env log' c') : SideOk env r log' seen c' := by
  obtain ⟨seq, out, timer, inbox, rfl⟩ := hkept
  exact ⟨h.role, ⟨h.windows.length, h.windows.wellFormed⟩, hhonest, fun d hd =>
    (h.refuses d hd).onward (onward_of_same rfl rfl)⟩

theorem role_processDatagram (c : Connection) (datagram : Bytes) :
    (processDatagram env datagram c).2.role = c.role := by
  refine receiveFrom_induct (I := fun _ c' => c'.role = c.role) rfl fun _ pos c₁ _ _ hrole => ?_
  obtain ⟨-, ⟨windows, inbox, hquiet⟩⟩ | ⟨e, -, ⟨windows, inbox, hquiet⟩, hafter⟩ :=
    eventAt_cases env datagram pos c₁
  · rw [hquiet]
    exact hrole
  · have hfixed : (e.after env).fixed = e.before.fixed := (dispatches rfl).fixed
    rw [hafter, show (e.after env).role = e.before.role from congrArg Fixed.role hfixed, hquiet]
    exact hrole

theorem SideOk.processDatagram (h : SideOk env r log seen c) (datagram : Bytes) :
    SideOk env r log (seen ++ [datagram]) (processDatagram env datagram c).2 where
  role := (role_processDatagram c datagram).trans h.role
  windows := h.windows.call env (.processDatagram datagram)
  honest := h.honest.processDatagram datagram
  refuses d hd := by
    rcases mem_append.mp hd with hd | hd
    · exact (h.refuses d hd).onward (onward_receiveFrom h.windows datagram _ 0)
    · rw [mem_singleton.mp hd]
      exact refuses_processDatagram h.windows datagram

theorem exists_of_mem_boundaries (hpos : pos ∈ boundaries D)
    (hlt : pos < D.flatten.length) : ∃ sent ∈ D, ∃ rest, D.flatten.drop pos = sent ++ rest := by
  obtain ⟨i, -, rfl⟩ := mem_map.mp hpos
  have hsplit : D.flatten = (D.take i).flatten ++ (D.drop i).flatten := by
    rw [← flatten_append, take_append_drop]
  have hdrop : D.flatten.drop (D.take i).flatten.length = (D.drop i).flatten := by
    rw [hsplit, drop_left]
  cases htail : D.drop i with
  | nil =>
    rw [hsplit, htail, flatten_nil, append_nil] at hlt
    exact absurd hlt (lt_irrefl _)
  | cons sent tail =>
    refine ⟨sent, mem_of_mem_drop (by rw [htail]; exact mem_cons_self), tail.flatten, ?_⟩
    rw [hdrop, htail, flatten_cons]

structure Serves (env : Crypto) (log : List Bytes) (c s : Connection) : Prop where
  role : s.role = .server
  honest : Honest env log s
  agreed : Agreed env c s

theorem Serves.quiet {s' : Connection} (h : Serves env log c s) (hquiet : Quiet s s') :
    Serves env log c s' := by
  refine ⟨?_, h.honest.quiet hquiet, fun hconnected => ?_⟩
  · obtain ⟨windows, inbox, rfl⟩ := hquiet
    exact h.role
  · have hbefore : s.connected = true := by
      obtain ⟨windows, inbox, rfl⟩ := hquiet
      exact hconnected
    obtain ⟨m, hcm, hsm, hsuite⟩ := h.agreed hbefore
    obtain ⟨hsm', hsame⟩ := concluded_quiet hsm hquiet
    exact ⟨m, hcm, hsm', hsuite.trans hsame.symm⟩

theorem Serves.receiveAt (h : Serves env log c s)
    (hclient : c.role = .client) {datagram sent rest : Bytes}
    (hread : ReadsBack env c s sent rest) (hsent : RecordOk env c sent)
    (hdrop : datagram.drop pos = sent ++ rest) :
    Serves env log c (receiveAt env datagram pos s).2 := by
  obtain ⟨-, hquiet⟩ | ⟨e, hevent, hquiet, hafter⟩ := eventAt_cases env datagram pos s
  · exact h.quiet hquiet
  have hbefore := h.quiet hquiet
  have hfixed : (e.after env).fixed = e.before.fixed := (dispatches rfl).fixed
  have hsuite : (e.after env).suite = e.before.suite := congrArg Fixed.suite hfixed
  rw [hafter]
  refine ⟨(congrArg Fixed.role hfixed).trans hbefore.role, hbefore.honest.onHandshakeMessage rfl,
    fun hconnected => ?_⟩
  cases hhonest : hbefore.honest with
  | greeting hgreeting =>
    have hrole := hgreeting.role
    rw [hbefore.role] at hrole
    cases hrole
  | flight hflight =>
    have hrole := hflight.role
    rw [hbefore.role] at hrole
    cases hrole
  | ended hended =>
    have hsame : e.after env = e.before := onHandshakeMessage_connected hended.state rfl
    rw [hsame] at hconnected ⊢
    exact hbefore.agreed hconnected
  | serving hserving =>
    obtain ⟨r, hdispatch⟩ : ∃ r, serverOnMessage env e.msg e.before = (r, e.after env) := by
      rw [← onHandshakeMessage_server hbefore.role]
      exact ⟨_, rfl⟩
    obtain hstill | ⟨hconcluded, -⟩ := hserving.serverOnMessage hdispatch
    · rw [hstill.connected] at hconnected
      cases hconnected
    obtain ⟨record, advance, bytes, hsplit, hreceives, hparse⟩ := eventAt_eq_some env hevent
    rw [hdrop] at hsplit
    have htype : e.msg.body.msgType = .finished := by
      obtain ⟨T, verifyData, keys, hs, hbody, -⟩ := hconcluded.finished
      rw [hbody]
      rfl
    have happ : s.clientApp = none := by
      obtain ⟨windows, inbox, hq⟩ := hquiet
      have hnone := hserving.clientApp
      rwa [hq] at hnone
    obtain ⟨hcm, hsame⟩ := hsent.finished hread hclient h.role happ hsplit hreceives hparse htype
    refine ⟨e.msg, hcm, hconcluded, ?_⟩
    obtain ⟨windows, inbox, hq⟩ := hquiet
    rw [hsuite, hq]
    exact hsame.symm

theorem agreed_deliver (hclient : c.role = .client)
    (hD : ∀ sent ∈ D, RecordOk env c sent) (h : Serves env log c s)
    (hread : ∀ visit ∈ visits env D.flatten s, ∀ sent ∈ D, ∀ rest,
      D.flatten.drop visit.1 = sent ++ rest → ReadsBack env c visit.2 sent rest)
    (haligned : s.connected = false → Aligned env s D) :
    Agreed env c (processDatagram env D.flatten s).2 := by
  cases hconnected : s.connected with
  | true =>
    obtain ⟨m, hcm, hsm, hsuite⟩ := h.agreed hconnected
    obtain ⟨hsm', hsame⟩ := concluded_quiet hsm (quiet_processDatagram hsm.state D.flatten)
    exact fun _ => ⟨m, hcm, hsm', hsuite.trans hsame.symm⟩
  | false =>
    have hrun : Serves env log c (processDatagram env D.flatten s).2 := by
      refine receiveFrom_induct (I := fun _ s' => Serves env log c s') h ?_
      intro before pos s₁ after hsplit hs₁
      have hvisit : (pos, s₁) ∈ visits env D.flatten s := by rw [visits, hsplit]; simp
      obtain ⟨sent, hsent, rest, hdrop⟩ :=
        exists_of_mem_boundaries (haligned hconnected _ hvisit) (bounds_of_mem_iterations hvisit).2
      exact hs₁.receiveAt hclient (hread _ hvisit sent hsent rest hdrop) (hD sent hsent) hdrop
    exact hrun.agreed

/-! ## Every run of harmless steps -/

@[simp] theorem side_withSide_self (net : Net) (r : ConnectionRole) (c : Connection) :
    (net.withSide r c).side r = c := by simp [withSide]

@[simp] theorem server_withSide_client (net : Net) (c : Connection) :
    (net.withSide .client c).side .server = net.side .server := by simp [withSide]

@[simp] theorem client_withSide_server (net : Net) (c : Connection) :
    (net.withSide .server c).side .client = net.side .client := by simp [withSide]

theorem side_withSide_of_ne {r r' : ConnectionRole} (h : r' ≠ r) (net : Net) (c : Connection) :
    (net.withSide r c).side r' = net.side r' := by simp [withSide, h]

theorem agreed_withSide (h : Agreed env (net.side .client) (net.side .server))
    (hconnected : r = .server → c.connected = true → (net.side .server).connected = true)
    (hkeeps : ∀ m, Concluded env (net.side r) m →
      Concluded env c m ∧ c.suite = (net.side r).suite) :
    Agreed env ((net.withSide r c).side .client) ((net.withSide r c).side .server) := by
  cases r with
  | client =>
    rw [side_withSide_self, server_withSide_client]
    intro hs
    obtain ⟨m, hcm, hsm, hsuite⟩ := h hs
    obtain ⟨hcm', hsame⟩ := hkeeps m hcm
    exact ⟨m, hcm', hsm, hsame.trans hsuite⟩
  | server =>
    rw [side_withSide_self, client_withSide_server]
    intro hs
    obtain ⟨m, hcm, hsm, hsuite⟩ := h (hconnected rfl hs)
    obtain ⟨hsm', hsame⟩ := hkeeps m hsm
    exact ⟨m, hcm, hsm', hsuite.trans hsame.symm⟩

theorem Ok.withSide (h : Ok env net)
    (hside : SideOk env r (net.sent r).flatten (net.seen r) c) : Ok env (net.withSide r c) := by
  intro r'
  by_cases hr : r' = r
  · subst hr
    rw [side_withSide_self]
    exact hside
  · rw [side_withSide_of_ne hr]
    exact h r'

theorem Ok.start (h : Ok env net) (hstate : (net.side .client).state = .clientStart) :
    Ok env (net.step env .start) := by
  have hgreeted : Greeted (net.side .client) (Connection.start env (net.side .client)).2 :=
    (greeted_start env).moves _
  have hclient := h .client
  exact h.withSide ⟨(congrArg Fixed.role hgreeted.fixed).trans hclient.role,
    hclient.windows.of_fixed hgreeted.fixed, hclient.honest.start hstate,
    fun d hd => (hclient.refuses d hd).onward (onward_of_fixed hgreeted.fixed)⟩

theorem housekept_takeOutput (c : Connection) : Housekept c (takeOutput c).2 :=
  ⟨c.sendSeq, [], c.retransmit, c.appInbox, rfl⟩

theorem housekept_recvAppData (c : Connection) : Housekept c (recvAppData c).2 :=
  ⟨_, _, _, c.appInbox.tail, rfl⟩

theorem Ok.flush (h : Ok env net) (r : ConnectionRole) : Ok env (net.step env (.flush r)) := by
  intro r'
  by_cases hr : r' = r
  · subst hr
    simp only [step, side_withSide_self, update_self, flatten_append, flatten_singleton]
    exact (h r').housekept (housekept_takeOutput _) (h r').honest.takeOutput
  · simp only [step, side_withSide_of_ne hr, update_of_ne hr]
    exact h r'

theorem Ok.deliver (h : Ok env net) (r : ConnectionRole) (i : ℕ) :
    Ok env (net.step env (.deliver r i)) := by
  intro r'
  by_cases hr : r' = r
  · subst hr
    simp only [step, side_withSide_self, update_self]
    exact (h r').processDatagram _
  · simp only [step, side_withSide_of_ne hr, update_of_ne hr]
    exact h r'

theorem Ok.step (h : Ok env net) {a : Action} (ha : Calm env net a) : Ok env (net.step env a) := by
  cases a with
  | start => exact h.start ha
  | tick r dt => exact h.withSide ((h r).housekept (housekept_tick _ dt) ((h r).honest.tick dt))
  | sendAppData r data =>
    exact h.withSide ((h r).housekept (housekept_sendAppData env _ data)
      ((h r).honest.sendAppData data))
  | recvAppData r =>
    exact h.withSide ((h r).housekept (housekept_recvAppData _) (h r).honest.recvAppData)
  | flush r => exact h.flush r
  | deliver r i => exact h.deliver r i

theorem fresh_side (h : Fresh net) (r : ConnectionRole) : Connection.Fresh (net.side r) ∧
    (net.side r).role = r ∧ ((net.side r).role = .client → (net.side r).state = .clientStart) := by
  cases r with
  | client =>
    obtain ⟨config, ks, random, hclient⟩ := h.client
    exact ⟨.client hclient, (newClient_eq_ok hclient).1, fun _ => (newClient_eq_ok hclient).2⟩
  | server =>
    obtain ⟨config, ks, random, hserver⟩ := h.server
    have hrole := newServer_eq_ok hserver
    exact ⟨.server hserver, hrole, fun hc => by rw [hrole] at hc; cases hc⟩

theorem ok_of_fresh (h : Fresh net) : Ok env net := by
  intro r
  obtain ⟨hfresh, hrole, hstate⟩ := fresh_side h r
  rw [h.sent r, h.seen r]
  exact ⟨hrole, windowsWellFormed_of_fresh hfresh, honest_of_fresh hfresh hstate,
    fun d hd => by cases hd⟩

theorem Ok.run (h : Ok env net) {as : List Action} (has : Along env (Calm env) net as) :
    Ok env (net.run env as) := by
  induction as generalizing net with
  | nil => exact h
  | cons a as ih => exact ih (h.step has.1) has.2

theorem Along.of_append {P : Net → Action → Prop} {earlier later : List Action} :
    ∀ {net : Net}, Along env P net (earlier ++ later) →
      Along env P net earlier ∧ Along env P (net.run env earlier) later := by
  induction earlier with
  | nil => exact fun h => ⟨trivial, h⟩
  | cons a earlier ih =>
    intro net h
    obtain ⟨hearlier, hlater⟩ := ih h.2
    exact ⟨⟨h.1, hearlier⟩, hlater⟩

theorem Ok.records (h : Ok env net) (r : ConnectionRole) (i : ℕ) :
    ∀ sent ∈ net.datagram r i, RecordOk env (net.side r.peer) sent := by
  intro sent hsent
  have hlog : sent ∈ (net.sent r.peer).flatten := by
    rw [datagram, getD_eq_getElem?_getD] at hsent
    cases hi : (net.sent r.peer)[i]? with
    | none => rw [hi] at hsent; cases hsent
    | some D =>
      rw [hi] at hsent
      exact mem_flatten.mpr ⟨D, mem_of_getElem? hi, hsent⟩
  exact (h r.peer).honest.records sent (mem_append_left _ hlog)

/-! ## Agreement is kept -/

theorem agreed_housekept (h : Agreed env (net.side .client) (net.side .server))
    (hkept : Housekept (net.side r) c) :
    Agreed env ((net.withSide r c).side .client) ((net.withSide r c).side .server) := by
  refine agreed_withSide h ?_ fun m hm => concluded_housekept hm hkept
  rintro rfl hconnected
  obtain ⟨seq, out, timer, inbox, rfl⟩ := hkept
  exact hconnected

theorem agreed_step (hok : Ok env net) (h : Agreed env (net.side .client) (net.side .server))
    {a : Action} (ha : Calm env net a) (hread : Faithful env net a) :
    Agreed env ((net.step env a).side .client) ((net.step env a).side .server) := by
  cases a with
  | start =>
    refine agreed_withSide h nofun fun m hm => ?_
    have hs := hm.state
    rw [show (net.side .client).state = .clientStart from ha] at hs
    exact absurd hs (by decide)
  | tick r dt => exact agreed_housekept h (housekept_tick _ dt)
  | sendAppData r data => exact agreed_housekept h (housekept_sendAppData env _ data)
  | recvAppData r => exact agreed_housekept h (housekept_recvAppData _)
  | flush r => exact agreed_housekept h (housekept_takeOutput _)
  | deliver r i =>
    cases r with
    | client =>
      exact agreed_withSide h nofun fun m hm =>
        concluded_quiet hm (quiet_processDatagram hm.state _)
    | server =>
      have hserver := hok .server
      simp only [step, side_withSide_self, client_withSide_server]
      exact agreed_deliver (hok .client).role (hok.records .server i)
        ⟨hserver.role, hserver.honest, h⟩ hread (ha.2 rfl)

theorem agreed_of_fresh (h : Fresh net) : Agreed env (net.side .client) (net.side .server) := by
  intro hconnected
  rw [(fresh_side h .server).1.eq_blank] at hconnected
  cases hconnected

theorem agreed_run (hok : Ok env net) (h : Agreed env (net.side .client) (net.side .server))
    {as : List Action} (has : Along env (Calm env) net as)
    (hread : Along env (Faithful env) net as) :
    Agreed env ((net.run env as).side .client) ((net.run env as).side .server) := by
  induction as generalizing net with
  | nil => exact h
  | cons a as ih => exact ih (hok.step has.1) (agreed_step hok h has.1 hread.1) has.2 hread.2

/-! ## Redelivery and agreement -/

variable (env) in
def Binding (client server : Connection) : Prop :=
  ∀ T T' m keys keys', client.transcript = T ++ HandshakeMessage.encode m →
    server.transcript = T' ++ HandshakeMessage.encode m → client.clientHs = some keys →
    server.clientHs = some keys' →
    client.verifyDataOver env keys T = server.verifyDataOver env keys' T' →
      T = T' ∧ client.handshakeSecret = server.handshakeSecret

theorem keys_eq_of_concluded (hc : Concluded env c m)
    (hs : Concluded env s m) (hsuite : c.suite = s.suite) (hbinding : Binding env c s) :
    c.clientApp = s.clientApp ∧ c.serverApp = s.serverApp := by
  obtain ⟨T, verifyData, keys, secret, hbody, htranscript, hkeys, hverify, hsecret, hclientApp,
    hserverApp⟩ := hc.finished
  obtain ⟨T', verifyData', keys', secret', hbody', htranscript', hkeys', hverify', hsecret',
    hclientApp', hserverApp'⟩ := hs.finished
  have hdata : verifyData = verifyData' := by
    rw [hbody] at hbody'
    cases hbody'
    rfl
  obtain ⟨rfl, hsame⟩ := hbinding T T' m keys keys' htranscript htranscript' hkeys hkeys'
    (by rw [hverify, hverify', hdata])
  rw [hsecret, hsecret', Option.some.injEq] at hsame
  subst hsame
  rw [hclientApp, hclientApp', hserverApp, hserverApp']
  simp only [withAppKeys, trafficKeysFor, txHash, ks, Connection.hash, hsuite,
    htranscript, htranscript',
    and_self]

/-- **Redelivery and agreement.**  In a run of harmless steps a datagram that was already
processed leaves the transcript, the keys and the state of its receiver as they are; and
when both sides are connected at the end of a run in which the server reads back what the client
sealed, their application keys are equal. -/
theorem redelivery_unchanged_and_keys_agree (hfresh : Fresh net)
    {as : List Action} (hcalm : Along env (Calm env) net as) :
    (∀ earlier r i later, as = earlier ++ .deliver r i :: later →
      ((net.run env earlier).datagram r i).flatten ∈ (net.run env earlier).seen r →
        SameHandshake ((net.run env earlier).side r)
          (((net.run env earlier).step env (.deliver r i)).side r)) ∧
      (Along env (Faithful env) net as →
        ((net.run env as).side .client).isConnected = true →
        ((net.run env as).side .server).isConnected = true →
        Binding env ((net.run env as).side .client) ((net.run env as).side .server) →
          ((net.run env as).side .client).clientApp = ((net.run env as).side .server).clientApp ∧
          ((net.run env as).side .client).serverApp =
            ((net.run env as).side .server).serverApp) := by
  constructor
  · rintro earlier r i later rfl hseen
    obtain ⟨hearlier, hstep⟩ := hcalm.of_append
    have hok := (ok_of_fresh hfresh).run hearlier
    have hside := hok r
    simp only [step, side_withSide_self]
    exact sameHandshake_again hside.windows (hok.records r i) (hside.refuses _ hseen)
      (hstep.1.1 hseen)
  · intro hread _ hserver hbinding
    obtain ⟨m, hcm, hsm, hsuite⟩ :=
      agreed_run (ok_of_fresh hfresh) (agreed_of_fresh hfresh) hcalm hread hserver
    exact keys_eq_of_concluded hcm hsm hsuite hbinding

def plainNet : Net where
  side
    | .client => plainClient
    | .server => plainServer
  sent _ := []
  seen _ := []

theorem fresh_plainNet : Fresh plainNet where
  client := ⟨⟨[.tlsAes128GcmSha256], plainIdentity, none, fun _ => true⟩, plainKeyPair,
    FixedBytes.replicate 32 0, rfl⟩
  server := ⟨⟨[.tlsAes128GcmSha256], plainIdentity, none, FixedBytes.replicate 32 0, [],
    fun _ => true⟩, plainKeyPair, FixedBytes.replicate 32 0, rfl⟩
  sent _ := rfl
  seen _ := rfl

def plainRun : List Action :=
  [.start, .flush .client, .deliver .server 0, .flush .server, .deliver .client 0,
    .flush .client, .deliver .server 1, .flush .server, .deliver .client 1,
    .flush .client, .deliver .server 2, .deliver .server 2]

theorem binding_of_eq (htranscript : c.transcript = s.transcript)
    (hsecret : c.handshakeSecret = s.handshakeSecret) : Binding env c s := by
  intro T T' m keys keys' hT hT' _ _ _
  rw [htranscript, hT'] at hT
  exact ⟨(append_cancel_right hT).symm, hsecret⟩

theorem faithful_plain (net : Net) (as : List Action) :
    Along .plain (Faithful .plain) net as := by
  induction as generalizing net with
  | nil => trivial
  | cons a as ih =>
    refine ⟨?_, ih _⟩
    cases a with
    | deliver r i =>
      cases r with
      | client => trivial
      | server => exact fun visit _ sent _ rest _ => readsBack_plain _ visit.2 sent rest
    | _ => trivial

/-- The second delivery leaves the server as it was, and the two sides have the same keys. -/
theorem plainRun_agrees : SameHandshake ((plainNet.run .plain (plainRun.take 11)).side .server)
        (((plainNet.run .plain (plainRun.take 11)).step .plain (.deliver .server 2)).side .server) ∧
      ((plainNet.run .plain plainRun).side .client).clientApp =
        ((plainNet.run .plain plainRun).side .server).clientApp ∧
      ((plainNet.run .plain plainRun).side .client).serverApp =
        ((plainNet.run .plain plainRun).side .server).serverApp := by
  -- one evaluation of the run for all that has to be checked of it
  obtain ⟨hcalm, hseen, hclient, hserver, htranscript, hsecret⟩ :
      Along .plain (Calm .plain) plainNet plainRun ∧
      ((plainNet.run .plain (plainRun.take 11)).datagram .server 2).flatten ∈
        (plainNet.run .plain (plainRun.take 11)).seen .server ∧
      ((plainNet.run .plain plainRun).side .client).isConnected = true ∧
      ((plainNet.run .plain plainRun).side .server).isConnected = true ∧
      ((plainNet.run .plain plainRun).side .client).transcript =
        ((plainNet.run .plain plainRun).side .server).transcript ∧
      ((plainNet.run .plain plainRun).side .client).handshakeSecret =
        ((plainNet.run .plain plainRun).side .server).handshakeSecret := by
    decide +kernel
  obtain ⟨hagain, hagree⟩ :=
    redelivery_unchanged_and_keys_agree fresh_plainNet hcalm
  exact ⟨hagain (plainRun.take 11) .server 2 [] rfl hseen,
    hagree (faithful_plain plainNet plainRun) hclient hserver
      (binding_of_eq htranscript hsecret)⟩

/-- A ClientHello that comes twice changes the transcript of the server. -/
theorem redelivery_changes_transcript : Fresh plainNet ∧
      ((plainNet.run .plain
        [.start, .flush .client, .deliver .server 0]).datagram .server 0).flatten ∈
        (plainNet.run .plain [.start, .flush .client, .deliver .server 0]).seen .server ∧
      ((plainNet.run .plain [.start, .flush .client, .deliver .server 0,
          .deliver .server 0]).side .server).transcript ≠
        ((plainNet.run .plain
          [.start, .flush .client, .deliver .server 0]).side .server).transcript :=
  ⟨fresh_plainNet, by decide +kernel, by decide +kernel⟩

end Net

end TptRfc.Dtls
