import TptRfc.Lib.Bytes

/-!
# DHCPv4: the server and its in-memory leases

`Server::process` over `MemoryLeaseStore`, for a sequence of messages of any clients.
-/

namespace TptRfc.Dhcp

open Lib List Function

structure PoolConfig where
  serverIp : ℕ
  poolStart : ℕ
  poolEnd : ℕ
  leaseDuration : ℕ

structure Lease where
  ip : ℕ
  clientId : Bytes
  mac : Bytes
  leaseDuration : ℕ
  expiresAt : ℕ

def Lease.isExpired (l : Lease) (now : ℕ) : Bool := decide (l.expiresAt ≤ now)

inductive LeaseError where
  | poolExhausted
  | noLease (ip : ℕ)
  | clientMismatch (ip : ℕ)

structure AcquireRequest where
  clientId : Bytes
  mac : Bytes
  requestedIp : ℕ
  now : ℕ

structure MemoryLeaseStore where
  config : PoolConfig
  leases : ℕ → Option Lease
  declined : ℕ → Option ℕ

namespace MemoryLeaseStore

def new (config : PoolConfig) : MemoryLeaseStore := ⟨config, fun _ => none, fun _ => none⟩

variable (s : MemoryLeaseStore)

def inPool (ip : ℕ) : Bool := decide (s.config.poolStart ≤ ip ∧ ip ≤ s.config.poolEnd)

def isDeclined (ip : ℕ) (now : ℕ) : Bool :=
  match s.declined ip with
  | some expiry => decide (now < expiry)
  | none => false

def prune (now : ℕ) : MemoryLeaseStore :=
  { s with
    leases := fun ip => (s.leases ip).filter fun l => !l.isExpired now
    declined := fun ip => (s.declined ip).filter fun expiry => decide (now < expiry) }

def makeLease (ip : ℕ) (clientId mac : Bytes) (now : ℕ) : Lease :=
  ⟨ip, clientId, mac, s.config.leaseDuration, now + s.config.leaseDuration⟩

def isFree (clientId : Bytes) (now : ℕ) (ip : ℕ) : Bool :=
  match s.leases ip with
  | none => !s.isDeclined ip now
  | some l => l.clientId == clientId

def choose (req : AcquireRequest) : Option ℕ :=
  if req.requestedIp ≠ 0 ∧ s.inPool req.requestedIp ∧
      s.isFree req.clientId req.now req.requestedIp then
    some req.requestedIp
  else
    (range' s.config.poolStart (s.config.poolEnd + 1 - s.config.poolStart)).find?
      (s.isFree req.clientId req.now)

def insert (lease : Lease) : MemoryLeaseStore :=
  { s with leases := update s.leases lease.ip (some lease) }

def acquire (req : AcquireRequest) : MemoryLeaseStore × Except LeaseError Lease :=
  let s := s.prune req.now
  match s.choose req with
  | none => (s, .error .poolExhausted)
  | some ip =>
    let lease := s.makeLease ip req.clientId req.mac req.now
    (s.insert lease, .ok lease)

def confirm (ip : ℕ) (clientId : Bytes) (now : ℕ) : MemoryLeaseStore × Except LeaseError Lease :=
  match s.leases ip with
  | none => (s, .error (.noLease ip))
  | some lease =>
    if lease.clientId ≠ clientId then (s, .error (.clientMismatch ip))
    else
      let renewed := s.makeLease ip clientId lease.mac now
      (s.insert renewed, .ok renewed)

def release (ip : ℕ) : MemoryLeaseStore := { s with leases := update s.leases ip none }

def decline (ip : ℕ) (later : ℕ) : MemoryLeaseStore :=
  { s.release ip with
    declined := update s.declined ip (some (later + s.config.leaseDuration)) }

end MemoryLeaseStore

inductive MessageType where
  | discover | offer | request | decline | ack | nak | release | inform

structure DhcpMessage where
  messageType : Option MessageType
  clientIdentifier : Option Bytes
  mac : Bytes
  requestedIp : Option ℕ
  serverIdentifier : Option ℕ
  ciaddr : ℕ

def DhcpMessage.clientId (msg : DhcpMessage) : Bytes := msg.clientIdentifier.getD msg.mac

structure Reply where
  kind : MessageType
  yiaddr : ℕ
  lease : Option Lease

def buildReply (kind : MessageType) (req : DhcpMessage) (lease : Option Lease) : Reply :=
  ⟨kind, match lease with | some l => if req.ciaddr = 0 then l.ip else 0 | none => 0, lease⟩

structure Event where
  msg : DhcpMessage
  now : ℕ
  later : ℕ

def process (s : MemoryLeaseStore) (e : Event) :
    MemoryLeaseStore × Except LeaseError (Option Reply) :=
  match e.msg.messageType with
  | some .discover =>
    let (s, r) := s.acquire ⟨e.msg.clientId, e.msg.mac, e.msg.requestedIp.getD 0, e.now⟩
    (s, r.map fun lease => some (buildReply .offer e.msg (some lease)))
  | some .request =>
    if ∃ sid ∈ e.msg.serverIdentifier, sid ≠ s.config.serverIp then (s, .ok none)
    else if e.msg.requestedIp.getD e.msg.ciaddr = 0 then (s, .ok none)
    else
      match s.confirm (e.msg.requestedIp.getD e.msg.ciaddr) e.msg.clientId e.now with
      | (s, .ok lease) => (s, .ok (some (buildReply .ack e.msg (some lease))))
      | (s, .error _) => (s, .ok (some (buildReply .nak e.msg none)))
  | some .decline => (s.decline (e.msg.requestedIp.getD e.msg.ciaddr) e.later, .ok none)
  | some .release => (s.release e.msg.ciaddr, .ok none)
  | some .inform => (s, .ok (some (buildReply .ack e.msg none)))
  | _ => (s, .ok none)

/-! ## Histories -/

def run (config : PoolConfig) (events : List Event) : MemoryLeaseStore :=
  events.foldl (fun s e => (process s e).1) (.new config)

def grant (s : MemoryLeaseStore) (e : Event) : Option (MessageType × Lease) :=
  match (process s e).2 with
  | .ok (some r) => r.lease.map (r.kind, ·)
  | _ => none

def Event.givesUp (e : Event) : Option ℕ :=
  match e.msg.messageType with
  | some .decline => some (e.msg.requestedIp.getD e.msg.ciaddr)
  | some .release => some e.msg.ciaddr
  | _ => none

def Timely (events : List Event) : Prop :=
  (events.flatMap fun e => [e.now, e.later]).Pairwise (· ≤ ·)

variable (config : PoolConfig)

def Holds (past : List Event) (id : Bytes) (ip : ℕ) (now : ℕ) : Prop :=
  ∃ pre e mid lease, past = pre ++ e :: mid ∧ grant (run config pre) e = some (.ack, lease) ∧
    e.msg.clientId = id ∧ lease.ip = ip ∧ now < lease.expiresAt ∧
    ∀ d ∈ mid, d.givesUp = some ip → d.msg.clientId ≠ id

def Exclusive (events : List Event) : Prop :=
  ∀ pre e post, events = pre ++ e :: post → ∀ kind lease id,
    grant (run config pre) e = some (kind, lease) → Holds config pre id lease.ip e.now →
    e.msg.clientId = id

def Pooled (events : List Event) : Prop :=
  ∀ pre e post, events = pre ++ e :: post → ∀ kind lease,
    grant (run config pre) e = some (kind, lease) →
    config.poolStart ≤ lease.ip ∧ lease.ip ≤ config.poolEnd

/-- A client that holds an address is offered it, in `yiaddr` unless it has filled in `ciaddr`. -/
def Steady (events : List Event) : Prop :=
  ∀ pre e post, events = pre ++ e :: post → e.msg.messageType = some .discover →
    ∀ ip, Holds config pre e.msg.clientId ip e.now →
    ∃ r lease, (process (run config pre) e).2 = .ok (some r) ∧ r.kind = .offer ∧
      r.lease = some lease ∧ lease.ip = ip ∧ (e.msg.ciaddr = 0 → r.yiaddr = ip)

def Considerate (events : List Event) : Prop :=
  ∀ pre e post, events = pre ++ e :: post → ∀ id ip, Holds config pre id ip e.now →
    (e.givesUp = some ip → e.msg.clientId = id) ∧
    (e.msg.messageType = some .discover → e.msg.clientId = id → e.msg.requestedIp = some ip)

/-! ## One message -/

variable {config} {s : MemoryLeaseStore} {e : Event} {ip : ℕ} {l lease : Lease}

theorem inPool_iff : s.inPool ip ↔ s.config.poolStart ≤ ip ∧ ip ≤ s.config.poolEnd := by
  rw [MemoryLeaseStore.inPool, decide_eq_true_iff]

structure Aged (s : MemoryLeaseStore) (now : ℕ) (t : MemoryLeaseStore) : Prop where
  config : t.config = s.config
  kept : ∀ ⦃ip l⦄, s.leases ip = some l → now < l.expiresAt → t.leases ip = some l
  old : ∀ ⦃ip l⦄, t.leases ip = some l → s.leases ip = some l

theorem aged_self (s : MemoryLeaseStore) (now : ℕ) : Aged s now s :=
  ⟨rfl, fun _ _ hl _ => hl, fun _ _ hl => hl⟩

theorem aged_prune (s : MemoryLeaseStore) (now : ℕ) : Aged s now (s.prune now) := by
  refine ⟨rfl, fun ip l hl hnow => ?_, fun ip l hl => (Option.filter_eq_some_iff.mp hl).1⟩
  simp [MemoryLeaseStore.prune, hl, Lease.isExpired, hnow]

theorem choose_spec {req : AcquireRequest} (h : s.choose req = some ip) :
    s.inPool ip ∧ s.isFree req.clientId req.now ip := by
  unfold MemoryLeaseStore.choose at h
  split at h
  case isTrue hreq =>
    cases h
    exact hreq.2
  case isFalse =>
    obtain ⟨hstart, hend⟩ := mem_range'_1.mp (mem_of_find?_eq_some h)
    exact ⟨inPool_iff.mpr ⟨hstart, by omega⟩, find?_some h⟩

theorem choose_own {req : AcquireRequest} (hl : s.leases ip = some l)
    (hid : l.clientId = req.clientId) (hpool : s.inPool ip) (hreq : req.requestedIp = ip) :
    s.choose req = some ip := by
  have hfree : s.isFree req.clientId req.now ip := by
    simp [MemoryLeaseStore.isFree, hl, hid]
  unfold MemoryLeaseStore.choose
  by_cases h0 : ip = 0
  · rw [if_neg (fun h => h.1 (hreq.trans h0))]
    have hstart := inPool_iff.mp hpool
    rw [h0, Nat.le_zero] at hstart
    rw [hstart.1, Nat.sub_zero, range'_succ, find?_cons_of_pos (h0 ▸ hfree), h0]
  · rw [hreq, if_pos ⟨h0, hpool, hfree⟩]

structure Granted (s : MemoryLeaseStore) (e : Event) (lease : Lease) : Prop where
  clientId : lease.clientId = e.msg.clientId
  expiresAt : lease.expiresAt = e.now + s.config.leaseDuration
  owner : ∀ l, s.leases lease.ip = some l → e.now < l.expiresAt → l.clientId = e.msg.clientId
  known : s.inPool lease.ip ∨ ∃ l, s.leases lease.ip = some l

theorem acquire_cases (s : MemoryLeaseStore) (req : AcquireRequest) :
    s.acquire req = (s.prune req.now, .error .poolExhausted) ∨
    ∃ ip, (s.prune req.now).choose req = some ip ∧
      s.acquire req = ((s.prune req.now).insert (s.makeLease ip req.clientId req.mac req.now),
        .ok (s.makeLease ip req.clientId req.mac req.now)) := by
  unfold MemoryLeaseStore.acquire
  cases hchoose : (s.prune req.now).choose req with
  | none => exact .inl (by simp only [hchoose])
  | some ip => exact .inr ⟨ip, rfl, by simp only [hchoose]; rfl⟩

theorem confirm_cases (s : MemoryLeaseStore) (ip : ℕ) (clientId : Bytes) (now : ℕ) :
    (∃ err, s.confirm ip clientId now = (s, .error err)) ∨
    ∃ l, s.leases ip = some l ∧ l.clientId = clientId ∧ s.confirm ip clientId now =
      (s.insert (s.makeLease ip clientId l.mac now), .ok (s.makeLease ip clientId l.mac now)) := by
  unfold MemoryLeaseStore.confirm
  cases hl : s.leases ip with
  | none => exact .inl ⟨_, rfl⟩
  | some l =>
    by_cases hid : l.clientId = clientId
    · exact .inr ⟨l, rfl, hid, if_neg (not_not_intro hid)⟩
    · exact .inl ⟨_, if_pos hid⟩

theorem process_cases (s : MemoryLeaseStore) (e : Event) :
    (∃ kind lease t, Aged s e.now t ∧ grant s e = some (kind, lease) ∧ Granted s e lease ∧
      (process s e).1 = t.insert lease) ∨ grant s e = none ∧ (Aged s e.now (process s e).1 ∨
      ∃ ip, e.givesUp = some ip ∧ (process s e).1.config = s.config ∧
        (process s e).1.leases = update s.leases ip none) := by
  unfold grant Event.givesUp process
  rcases e.msg.messageType with _ | kind
  · exact .inr ⟨rfl, .inl (aged_self s _)⟩
  cases kind with
  | discover =>
    obtain hacq | ⟨ip, hchoose, hacq⟩ :=
      acquire_cases s ⟨e.msg.clientId, e.msg.mac, e.msg.requestedIp.getD 0, e.now⟩
    · simp only [hacq]
      exact .inr ⟨rfl, .inl (aged_prune s _)⟩
    · obtain ⟨hpool, hfree⟩ := choose_spec hchoose
      simp only [hacq]
      refine .inl ⟨.offer, _, _, aged_prune s _, rfl, ⟨rfl, rfl, ?_, .inl hpool⟩, rfl⟩
      intro l hl hnow
      have hl' : (s.prune e.now).leases ip = some l := (aged_prune s _).kept hl hnow
      simpa [MemoryLeaseStore.isFree, hl'] using hfree
  | request =>
    dsimp only
    split_ifs with hsid hip
    · exact .inr ⟨rfl, .inl (aged_self s _)⟩
    · exact .inr ⟨rfl, .inl (aged_self s _)⟩
    obtain ⟨err, hcon⟩ | ⟨l, hl, hid, hcon⟩ :=
      confirm_cases s (e.msg.requestedIp.getD e.msg.ciaddr) e.msg.clientId e.now
    · simp only [hcon]
      exact .inr ⟨rfl, .inl (aged_self s _)⟩
    · simp only [hcon]
      refine .inl ⟨.ack, _, s, aged_self s _, rfl, ⟨rfl, rfl, ?_, .inr ⟨l, hl⟩⟩, rfl⟩
      rintro l' hl' -
      cases hl.symm.trans hl'
      exact hid
  | decline | release => exact .inr ⟨rfl, .inr ⟨_, rfl, rfl, rfl⟩⟩
  | offer | ack | nak | inform => exact .inr ⟨rfl, .inl (aged_self s _)⟩

theorem process_discover (h : e.msg.messageType = some .discover) (hchoose : (s.prune e.now).choose
      ⟨e.msg.clientId, e.msg.mac, e.msg.requestedIp.getD 0, e.now⟩ = some ip) :
    (process s e).2 = .ok (some (buildReply .offer e.msg
      (some (s.makeLease ip e.msg.clientId e.msg.mac e.now)))) := by
  simp only [process, h, MemoryLeaseStore.acquire, hchoose]
  rfl

/-! ## Whole runs -/

theorem config_process (s : MemoryLeaseStore) (e : Event) : (process s e).1.config = s.config := by
  obtain ⟨_, _, t, ht, -, -, h⟩ | ⟨-, h | ⟨_, -, h, -⟩⟩ := process_cases s e
  · rw [h]
    exact ht.config
  · exact h.config
  · exact h

theorem leases_process (hl : s.leases ip = some l) (hnow : e.now < l.expiresAt)
    (hup : e.givesUp ≠ some ip) :
    ∃ l', (process s e).1.leases ip = some l' ∧ l'.clientId = l.clientId ∧
      (l' = l ∨ l'.expiresAt = e.now + s.config.leaseDuration) := by
  obtain ⟨_, lease, t, ht, -, hg, h⟩ | ⟨-, h | ⟨ip', hup', -, h⟩⟩ := process_cases s e
  · rw [h, MemoryLeaseStore.insert]
    by_cases hip : ip = lease.ip
    · subst hip
      exact ⟨lease, update_self .., hg.clientId.trans (hg.owner l hl hnow).symm, .inr hg.expiresAt⟩
    · exact ⟨l, (update_of_ne hip ..).trans (ht.kept hl hnow), rfl, .inl rfl⟩
  · exact ⟨l, h.kept hl hnow, rfl, .inl rfl⟩
  · have hip : ip ≠ ip' := fun heq => hup (heq ▸ hup')
    exact ⟨l, by rw [h, update_of_ne hip, hl], rfl, .inl rfl⟩

theorem leases_of_process (h : (process s e).1.leases ip = some l) :
    s.inPool ip ∨ ∃ l', s.leases ip = some l' := by
  obtain ⟨_, lease, t, ht, -, hg, hp⟩ | ⟨-, hp | ⟨ip', -, -, hp⟩⟩ := process_cases s e
  · rw [hp, MemoryLeaseStore.insert] at h
    by_cases hip : ip = lease.ip
    · exact hip ▸ hg.known
    · exact .inr ⟨l, ht.old ((update_of_ne hip ..).symm.trans h)⟩
  · exact .inr ⟨l, hp.old h⟩
  · rw [hp, update_apply] at h
    split_ifs at h
    exact .inr ⟨l, h⟩

theorem run_concat (events : List Event) (e : Event) :
    run config (events ++ [e]) = (process (run config events) e).1 := by
  rw [run, foldl_append]
  rfl

theorem config_run (config : PoolConfig) (events : List Event) :
    (run config events).config = config := by
  induction events using reverseRecOn with
  | nil => rfl
  | append_singleton events e ih => rw [run_concat, config_process, ih]

theorem inPool_run (events : List Event) (h : (run config events).leases ip = some l) :
    config.poolStart ≤ ip ∧ ip ≤ config.poolEnd := by
  induction events using reverseRecOn generalizing l with
  | nil => cases h
  | append_singleton events e ih =>
    rw [run_concat] at h
    obtain hpool | ⟨l', hl'⟩ := leases_of_process h
    · rw [inPool_iff, config_run] at hpool
      exact hpool
    · exact ih hl'

theorem granted_run {pre : List Event} {kind : MessageType}
    (h : grant (run config pre) e = some (kind, lease)) :
    Granted (run config pre) e lease ∧ (run config (pre ++ [e])).leases lease.ip = some lease := by
  obtain ⟨kind', lease', t, -, h', hg, hp⟩ | ⟨h', -⟩ := process_cases (run config pre) e
  · cases h.symm.trans h'
    exact ⟨hg, by rw [run_concat, hp]; exact update_self ..⟩
  · cases h.symm.trans h'

theorem Timely.now_le (pre mid : List Event) {post : List Event} {d : Event}
    (h : Timely (pre ++ e :: (mid ++ d :: post))) : e.now ≤ d.now := by
  simp only [Timely, flatMap_append, flatMap_cons, pairwise_append, cons_append, nil_append,
    pairwise_cons] at h
  exact h.2.1.1 d.now (mem_cons_of_mem _ (mem_append_right _ mem_cons_self))

theorem stored_of_holds {past post : List Event} {id : Bytes} (ht : Timely (past ++ e :: post))
    (hc : Considerate config (past ++ e :: post)) (h : Holds config past id ip e.now) :
    ∃ l, (run config past).leases ip = some l ∧ l.clientId = id ∧ e.now < l.expiresAt := by
  obtain ⟨pre, a, mid, lease, rfl, hack, hid, hip, hnow, hkept⟩ := h
  obtain ⟨hg, hstored⟩ := granted_run hack
  have hexp := hg.expiresAt
  rw [config_run] at hexp
  -- the messages after the acknowledgement, one by one
  suffices hrun : ∀ m rest, mid = m ++ rest → ∃ l, (run config (pre ++ a :: m)).leases ip = some l ∧
      l.clientId = id ∧ lease.expiresAt ≤ l.expiresAt by
    obtain ⟨l, hl, hl', hle⟩ := hrun mid [] (append_nil mid).symm
    exact ⟨l, hl, hl', hnow.trans_le hle⟩
  intro m
  induction m using reverseRecOn with
  | nil => exact fun _ _ => ⟨lease, hip ▸ hstored, hg.clientId.trans hid, le_rfl⟩
  | append_singleton m d ih =>
    intro rest hmid
    subst hmid
    obtain ⟨l, hl, hlid, hle⟩ := ih (d :: rest) (by simp)
    have had : a.now ≤ d.now := Timely.now_le pre m (by simpa using ht)
    have hde : d.now ≤ e.now := Timely.now_le (pre ++ a :: m) rest (by simpa using ht)
    have hholds : Holds config (pre ++ a :: m) id ip d.now :=
      ⟨pre, a, m, lease, rfl, hack, hid, hip, by omega, fun x hx => hkept x (by simp [hx])⟩
    have hup : d.givesUp ≠ some ip := fun hup =>
      hkept d (by simp) hup ((hc _ d (rest ++ e :: post) (by simp) id ip hholds).1 hup)
    obtain ⟨l', hl', hid', hexp'⟩ := leases_process hl (by omega) hup
    rw [config_run] at hexp'
    have hassoc : pre ++ a :: (m ++ [d]) = pre ++ a :: m ++ [d] := by simp
    rw [hassoc, run_concat]
    refine ⟨l', hl', hid'.trans hlid, ?_⟩
    rcases hexp' with rfl | h <;> omega

/-- Leases are exclusive and kept, if nobody gives up the address of another and who holds an
address asks for it; the pool is kept to in any case. -/
theorem leases_exclusive (config : PoolConfig) (events : List Event) (ht : Timely events) :
    Pooled config events ∧
      (Considerate config events → Exclusive config events ∧ Steady config events) := by
  refine ⟨?_, fun hc => ⟨?_, ?_⟩⟩
  · rintro pre e post rfl kind lease hgrant
    exact inPool_run _ (granted_run hgrant).2
  · rintro pre e post rfl kind lease id hgrant hholds
    obtain ⟨l, hl, rfl, hnow⟩ := stored_of_holds ht hc hholds
    exact ((granted_run hgrant).1.owner l hl hnow).symm
  · rintro pre e post rfl hdisc ip hholds
    obtain ⟨l, hl, hid, hnow⟩ := stored_of_holds ht hc hholds
    have hask := (hc pre e post rfl _ _ hholds).2 hdisc rfl
    have hpool := inPool_run pre hl
    rw [← config_run config pre] at hpool
    refine ⟨_, _, process_discover hdisc ?_, rfl, rfl, rfl, fun hciaddr => if_pos hciaddr⟩
    exact choose_own ((aged_prune _ _).kept hl hnow) hid (inPool_iff.mpr hpool) (by rw [hask]; rfl)

def sampleEvent (kind : MessageType) (id : UInt8) (ask : Option ℕ) (ciaddr : ℕ) : Event :=
  ⟨⟨some kind, none, [id], ask, none, ciaddr⟩, 0, 0⟩

def samplePool : PoolConfig := ⟨1, 10, 20, 3600⟩

def sampleAck : List Event :=
  [sampleEvent .discover 1 (some 11) 0, sampleEvent .request 1 (some 11) 0]

theorem leases_exclusive_sample :
    Exclusive samplePool (sampleAck ++ [sampleEvent .discover 1 (some 11) 0]) ∧
      Steady samplePool (sampleAck ++ [sampleEvent .discover 1 (some 11) 0]) := by
  refine (leases_exclusive samplePool _ (by unfold Timely; decide)).2 ?_
  rintro _ e post h id ip ⟨pre, a, mid, lease, rfl, hack, rfl, rfl, -, -⟩
  -- the acknowledgement is the second message of the three, so that `e` is the third
  rcases pre with _ | ⟨x, _ | ⟨y, _ | ⟨z, pre⟩⟩⟩ <;> simp [sampleAck] at h
  · obtain ⟨rfl, -⟩ := h
    cases hack
  · obtain ⟨rfl, rfl, h⟩ := h
    cases hack
    rcases mid with _ | ⟨x, mid⟩ <;> simp at h
    obtain ⟨rfl, -⟩ := h
    exact ⟨nofun, fun _ _ => rfl⟩

theorem holds_sampleAck (rest : List Event)
    (h : ∀ d ∈ rest, d.givesUp = some 11 → d.msg.clientId ≠ [1]) :
    Holds samplePool (sampleAck ++ rest) [1] 11 0 :=
  ⟨[sampleEvent .discover 1 (some 11) 0], sampleEvent .request 1 (some 11) 0, rest,
    ⟨11, [1], [1], 3600, 3600⟩, rfl, rfl, rfl, rfl, by decide, h⟩

/-- A RELEASE of client 2 frees the address of client 1, which client 2 is then offered; and client
1 is offered the address 10 if it does not ask for its own. -/
theorem leases_not_exclusive :
    let stolen := sampleAck ++
      [sampleEvent .release 2 none 11, sampleEvent .discover 2 (some 11) 0]
    let moved := sampleAck ++ [sampleEvent .discover 1 none 0]
    (Timely stolen ∧ ¬ Exclusive samplePool stolen) ∧ Timely moved ∧ ¬ Steady samplePool moved := by
  refine ⟨⟨by unfold Timely; decide, ?_⟩, by unfold Timely; decide, ?_⟩
  · intro h
    have hid := h (sampleAck ++ [sampleEvent .release 2 none 11]) _ [] rfl .offer
      ⟨11, [2], [2], 3600, 3600⟩ [1] rfl (holds_sampleAck _ (by simp; decide))
    cases hid
  · intro h
    obtain ⟨r, lease, hr, -, hlease, hip, -⟩ :=
      h sampleAck _ [] rfl rfl 11 (holds_sampleAck [] nofun)
    cases hr
    cases hlease
    cases hip

end TptRfc.Dhcp
