import TptRfc.Snmp.Agent

/-!
# SNMP: which requests of version 3 are served

For a user with an authentication protocol the MIB is to be touched only by messages that are
`Authentic`: with the auth flag and a valid code, for this engine, and timely.
-/

namespace TptRfc.Snmp

open Lib Access List

variable {M : Type}

/-! ## What a request does to the MIB -/

def Pdu.Touches (req : Pdu) : Prop :=
  match req.pduType with
  | .getRequest | .getNextRequest | .setRequest => req.varbinds ≠ []
  | .getBulkRequest =>
    req.varbinds.take req.nonRepeaters ≠ [] ∨
      (req.varbinds.drop req.nonRepeaters ≠ [] ∧ 0 < req.maxReps)
  | _ => False

theorem repeatNext_calls_eq_nil_iff (h : MibHandler M) (mib : M) (reps : ℕ) (cur : Oid) :
    (repeatNext h mib reps cur).2 = [] ↔ reps = 0 := by
  cases reps with
  | zero => exact iff_of_true rfl rfl
  | succ reps =>
    rw [repeatNext]
    cases h.getNext mib cur <;> exact iff_of_false nofun nofun

theorem processRequest_calls_ne_nil_iff (h : MibHandler M) (mib : M) (req : Pdu) :
    (processRequest h mib req).calls ≠ [] ↔ req.Touches := by
  unfold processRequest Pdu.Touches
  cases req.pduType with
  | getRequest | getNextRequest => exact not_congr map_eq_nil_iff
  | setRequest =>
    cases req.varbinds with
    | nil => exact iff_of_false (fun hne => hne rfl) (fun hne => hne rfl)
    | cons vb list => exact iff_of_true nofun nofun
  | getBulkRequest =>
    simp only [ne_eq, append_eq_nil_iff, map_eq_nil_iff, flatMap_eq_nil_iff,
      forall_mem_map, repeatNext_calls_eq_nil_iff]
    cases req.varbinds.drop req.nonRepeaters with
    | nil => simp
    | cons vb list =>
      simp only [forall_mem_cons, reduceCtorEq, not_false_eq_true, true_and]
      constructor
      · intro hne
        by_cases htake : req.varbinds.take req.nonRepeaters = []
        · exact .inr (Nat.pos_of_ne_zero fun hzero =>
            hne ⟨htake, hzero, fun _ _ => hzero⟩)
        · exact .inl htake
      · rintro (htake | hpos) ⟨h₁, h₂, -⟩
        · exact htake h₁
        · omega
  | _ => exact iff_of_false (fun hne => hne rfl) id

/-! ## Messages of version 3 -/

variable {bytes : Bytes} {v3 : V3Message} {agent a b : Agent M} {c : Crypto}

theorem Message.decode_of_v3 (h : V3Message.decode bytes = .ok v3) :
    Message.decode bytes = .error (.error .malformed) := by
  unfold V3Message.decode at h
  obtain ⟨⟨⟨tag, content⟩, r⟩, houter, h⟩ := bind_eq_ok_iff.mp h
  dsimp only at h
  split_ifs at h with htag
  obtain ⟨⟨⟨vtag, vc⟩, r⟩, hvc, h⟩ := bind_eq_ok_iff.mp h
  obtain ⟨version, hversion, h⟩ := bind_eq_ok_iff.mp h
  split_ifs at h with hthree
  have hversion' : version = 3 := not_not.mp hthree
  subst hversion'
  simp only [Message.decode, houter, ok_bind, if_neg htag, hvc, hversion, SnmpVersion.fromInt]
  rfl

theorem process_of_v3 {checks : Bool} {h : MibHandler M}
    (hdecode : V3Message.decode bytes = .ok v3) :
    process checks c h agent bytes = processV3 checks c h agent v3 bytes := by
  rw [process, Message.decode_of_v3 hdecode, hdecode]

theorem processV3_calls_ne_nil_iff (checks : Bool) (c : Crypto) (h : MibHandler M)
    (agent : Agent M) (v3 : V3Message) (raw : Bytes) :
    (processV3 checks c h agent v3 raw).calls ≠ [] ↔
      (v3.header.auth = true → verified c agent v3 raw = true) ∧
        isDiscovery agent v3 = false ∧ ∃ s, scopedOf c agent v3 = .ok s ∧ s.pdu.Touches := by
  unfold processV3
  split
  · rename_i hrefused
    rw [Bool.and_eq_true, Bool.not_eq_true'] at hrefused
    refine iff_of_false (fun hne => hne rfl) fun ⟨hverified, _⟩ => ?_
    rw [hverified hrefused.1] at hrefused
    exact absurd hrefused.2 nofun
  · rename_i hpassed
    have hverified : v3.header.auth = true → verified c agent v3 raw = true := by
      intro hauth
      rw [hauth, Bool.true_and, Bool.not_eq_true', Bool.not_eq_false] at hpassed
      exact hpassed
    cases hscoped : scopedOf c agent v3 with
    | error fault =>
      have hnone : ¬ ∃ s, (Except.error fault : Decoded ScopedPdu) = .ok s ∧ s.pdu.Touches :=
        fun ⟨_, hs, _⟩ => nomatch hs
      cases fault <;> exact iff_of_false (fun hne => hne rfl) fun hall => hnone hall.2.2
    | ok s =>
      cases hdiscovery : isDiscovery agent v3 with
      | true => exact iff_of_false (fun hne => hne rfl) fun hall => nomatch hall.2.1
      | false =>
        refine (processRequest_calls_ne_nil_iff h agent.mib s.pdu).trans ?_
        exact ⟨fun htouches => ⟨hverified, rfl, s, rfl, htouches⟩,
          fun ⟨_, _, s', hs', htouches⟩ => by cases hs'; exact htouches⟩

/-! ## Runs -/

def SameIdentity (a b : Agent M) : Prop :=
  a.engineId = b.engineId ∧ a.engineBoots = b.engineBoots ∧ a.engineTime = b.engineTime ∧
    a.users = b.users

theorem SameIdentity.trans {d : Agent M} (h : SameIdentity a b) (h' : SameIdentity b d) :
    SameIdentity a d :=
  ⟨h.1.trans h'.1, h.2.1.trans h'.2.1, h.2.2.1.trans h'.2.2.1, h.2.2.2.trans h'.2.2.2⟩

theorem respond_sameIdentity (checks : Bool) (c : Crypto) (agent : Agent M) (v3 : V3Message)
    (resp : ScopedPdu) : SameIdentity (respond checks c agent v3 resp).1 agent := by
  unfold respond
  dsimp only [Agent.nextSalt]
  split
  · split
    · exact ⟨rfl, rfl, rfl, rfl⟩
    · cases encodeScoped checks resp <;> exact ⟨rfl, rfl, rfl, rfl⟩
  · exact ⟨rfl, rfl, rfl, rfl⟩

theorem process_sameIdentity (checks : Bool) (c : Crypto) (h : MibHandler M) (agent : Agent M)
    (bytes : Bytes) : SameIdentity (process checks c h agent bytes).agent agent := by
  have hsame : SameIdentity agent agent := ⟨rfl, rfl, rfl, rfl⟩
  unfold process
  split
  · rename_i msg _
    unfold processCommunity
    split
    · exact hsame
    · exact hsame
  · exact hsame
  · split
    · unfold processV3
      split
      · exact hsame
      · split
        · exact hsame
        · exact hsame
        · split
          · exact hsame
          · exact respond_sameIdentity _ _ _ _ _
    · exact hsame
    · exact hsame

/-- The run is of datagrams: `set_engine_time` is not called in it. -/
def agentAfter (checks : Bool) (c : Crypto) (h : MibHandler M) (agent : Agent M)
    (datagrams : List Bytes) : Agent M :=
  datagrams.foldl (fun agent bytes => (process checks c h agent bytes).agent) agent

theorem agentAfter_sameIdentity (checks : Bool) (c : Crypto) (h : MibHandler M)
    (agent : Agent M) (datagrams : List Bytes) :
    SameIdentity (agentAfter checks c h agent datagrams) agent := by
  induction datagrams generalizing agent with
  | nil => exact ⟨rfl, rfl, rfl, rfl⟩
  | cons bytes datagrams ih =>
    exact (ih _).trans (process_sameIdentity checks c h agent bytes)

/-! ## Authentic requests -/

def Timely (agent : Agent M) (v3 : V3Message) : Prop :=
  v3.securityParameters.authoritativeEngineId = agent.engineId ∧
    v3.securityParameters.authoritativeEngineBoots = agent.engineBoots ∧
    |(v3.securityParameters.authoritativeEngineTime.toNat : ℤ) - agent.engineTime.toNat| ≤ 150

/-- The flag is set, the twelve bytes at the first place that looks like the authentication
parameters are the code of the message with zeros there, and the message is timely. -/
def Authentic (c : Crypto) (agent : Agent M) (v3 : V3Message) (u : AgentUser) (raw : Bytes) :
    Prop :=
  v3.header.auth = true ∧ verifyAuth c raw u.authKey u.authProto = true ∧ Timely agent v3

def StepSecure (checks : Bool) (c : Crypto) (h : MibHandler M) (agent : Agent M)
    (bytes : Bytes) : Prop :=
  ∀ v3 u, V3Message.decode bytes = .ok v3 →
    agent.users v3.securityParameters.userName = some u → u.authProto ≠ .none →
      (process checks c h agent bytes).calls ≠ [] → Authentic c agent v3 u bytes

def Secure (checks : Bool) (c : Crypto) (h : MibHandler M) (agent : Agent M)
    (datagrams : List Bytes) : Prop :=
  ∀ pre bytes post, datagrams = pre ++ bytes :: post →
    StepSecure checks c h (agentAfter checks c h agent pre) bytes

/-- What a datagram of a user with an authentication protocol has to be, if its body is a request
that touches the MIB: timely where it has the flag and a valid code, and without an engine id where
it has no flag. -/
def Harmless (c : Crypto) (agent : Agent M) (bytes : Bytes) : Prop :=
  ∀ v3 u s, V3Message.decode bytes = .ok v3 →
    agent.users v3.securityParameters.userName = some u → u.authProto ≠ .none →
      scopedOf c agent v3 = .ok s → s.pdu.Touches →
        if v3.header.auth then verifyAuth c bytes u.authKey u.authProto = true → Timely agent v3
        else v3.securityParameters.authoritativeEngineId = []

theorem verified_of_user {raw : Bytes} {u : AgentUser}
    (huser : agent.users v3.securityParameters.userName = some u) (hproto : u.authProto ≠ .none) :
    verified c agent v3 raw = verifyAuth c raw u.authKey u.authProto := by
  simp only [verified, huser, hproto, ne_eq, not_false_eq_true, decide_true, Bool.true_and]

theorem stepSecure_iff (checks : Bool) (c : Crypto) (h : MibHandler M) (agent : Agent M)
    (bytes : Bytes) : StepSecure checks c h agent bytes ↔ Harmless c agent bytes := by
  constructor
  · intro hsecure v3 u s hdecode huser hproto hscoped htouches
    have hstep := hsecure v3 u hdecode huser hproto
    rw [process_of_v3 hdecode, processV3_calls_ne_nil_iff, verified_of_user huser hproto] at hstep
    cases hauth : v3.header.auth with
    | true =>
      intro hverify
      exact (hstep ⟨fun _ => hverify, by simp [isDiscovery, hauth], s, hscoped, htouches⟩).2.2
    | false =>
      by_contra hengine
      have hengine' : v3.securityParameters.authoritativeEngineId ≠ [] := hengine
      have hall := hstep ⟨fun hyes => absurd (hauth.symm.trans hyes) nofun,
        by simp [isDiscovery, hauth, huser, hengine'], s, hscoped, htouches⟩
      exact nomatch hauth.symm.trans hall.1
  · intro hharmless v3 u hdecode huser hproto hcalls
    rw [process_of_v3 hdecode, processV3_calls_ne_nil_iff, verified_of_user huser hproto] at hcalls
    obtain ⟨hverify, hdiscovery, s, hscoped, htouches⟩ := hcalls
    have hbody := hharmless v3 u s hdecode huser hproto hscoped htouches
    cases hauth : v3.header.auth with
    | true =>
      rw [hauth] at hbody
      exact ⟨hauth, hverify hauth, hbody (hverify hauth)⟩
    | false =>
      rw [hauth] at hbody
      have hengine : v3.securityParameters.authoritativeEngineId = [] := hbody
      simp [isDiscovery, hauth, hengine] at hdiscovery

theorem harmless_congr (hsame : SameIdentity a b) (bytes : Bytes) :
    Harmless c a bytes ↔ Harmless c b bytes := by
  obtain ⟨hid, hboots, htime, husers⟩ := hsame
  simp only [Harmless, Timely, scopedOf, hid, hboots, htime, husers]

/-- A sequence of datagrams is secure for the agent exactly if each of them is harmless. -/
theorem secure_iff (checks : Bool) (c : Crypto) (h : MibHandler M) (agent : Agent M)
    (datagrams : List Bytes) :
    Secure checks c h agent datagrams ↔ ∀ bytes ∈ datagrams, Harmless c agent bytes := by
  have hmet : ∀ pre bytes, StepSecure checks c h (agentAfter checks c h agent pre) bytes ↔
      Harmless c agent bytes := fun pre bytes =>
    (stepSecure_iff ..).trans (harmless_congr (agentAfter_sameIdentity checks c h agent pre) bytes)
  constructor
  · intro hsecure bytes hbytes
    obtain ⟨pre, post, hsplit⟩ := append_of_mem hbytes
    exact (hmet pre bytes).mp (hsecure pre bytes post hsplit)
  · intro hharmless pre bytes post hsplit
    refine (hmet pre bytes).mpr (hharmless bytes ?_)
    rw [hsplit]
    exact mem_append_right _ mem_cons_self

def exampleAgent : Agent InMemoryMib where
  mib := ⟨[], List.Pairwise.nil⟩
  engineId := [0x80, 0x00]
  engineBoots := 5
  engineTime := 100000
  users name := if name = [0x75] then
    some ⟨.md5, .none, List.replicate 16 7, ⟨List.replicate 16 0, rfl⟩⟩ else none
  saltCounter := 0

def forgedSet : V3Message where
  header := ⟨1, 65507, 0, 3⟩
  securityParameters := ⟨[0x01], 0, 0, [0x75], noAuth, noPriv⟩
  data := .plain ⟨[], [], ⟨.setRequest, 1, 0, 0, [⟨[1, 3, 6, 1], .integer 9⟩]⟩⟩

/-- The forged request is served, whatever the hashes are, and a second time as well. -/
theorem forged_set_is_served :
    ∃ bytes, forgedSet.encode true = some bytes ∧ V3Message.decode bytes = .ok forgedSet ∧
      ∀ c : Crypto,
        (process true c inMemory exampleAgent bytes).calls = [.set ⟨[1, 3, 6, 1], .integer 9⟩] ∧
        (process true c inMemory exampleAgent bytes).agent.mib.map = [([1, 3, 6, 1], .integer 9)] ∧
        (process true c inMemory (process true c inMemory exampleAgent bytes).agent bytes).calls =
          [.set ⟨[1, 3, 6, 1], .integer 9⟩] ∧
        ¬ Secure true c inMemory exampleAgent [bytes] := by
  have hdecode : ((forgedSet.encode true).map V3Message.decode) = some (.ok forgedSet) := by
    decide +kernel
  obtain ⟨bytes, hencode, hdecode⟩ := Option.map_eq_some_iff.mp hdecode
  refine ⟨bytes, hencode, hdecode, fun c => ?_⟩
  have hcalls : (process true c inMemory exampleAgent bytes).calls =
      [.set ⟨[1, 3, 6, 1], .integer 9⟩] := by
    rw [process_of_v3 hdecode]
    rfl
  refine ⟨hcalls, ?_, ?_, fun hsecure => ?_⟩
  · rw [process_of_v3 hdecode]
    rfl
  · rw [process_of_v3 hdecode, process_of_v3 hdecode]
    rfl
  · have hauthentic := hsecure [] bytes [] rfl forgedSet _ hdecode rfl nofun
      (by rw [show agentAfter true c inMemory exampleAgent [] = exampleAgent from rfl, hcalls]
          exact cons_ne_nil _ _)
    exact nomatch hauthentic.1

end TptRfc.Snmp
