import TptRfc.Bfd.Session

/-!
# BFD: the authenticated stream

A sender with keyed SHA-1 authentication numbers its packets consecutively, modulo 2³².
-/

namespace TptRfc.Bfd

open Lib List Option

def PacketResult.response : PacketResult → List ControlPacket
  | .discarded => []
  | .accepted respond => respond.toList

namespace Session

/-! ## What a call does to the authentication fields -/

def Signed (cfg : AuthConfig) (seq : UInt32) (pkt : ControlPacket) : Prop :=
  pkt.version = bfdVersion ∧ pkt.authPresent = true ∧
    pkt.auth = some ⟨cfg.authType, cfg.keyId, seq, []⟩

def SignedFrom (cfg : AuthConfig) : UInt32 → List ControlPacket → Prop
  | _, [] => True
  | seq, pkt :: pkts => Signed cfg (seq + 1) pkt ∧ SignedFrom cfg (seq + 1) pkts

variable {cfg cfg' : AuthConfig} {pkts out : List ControlPacket} {seq q : UInt32} {s s' : Session}
  {pkt : ControlPacket} {accepted : List UInt32}

theorem SignedFrom.append {pkts' : List ControlPacket}
    (h : SignedFrom cfg seq pkts) (h' : SignedFrom cfg (seq + UInt32.ofNat pkts.length) pkts') :
    SignedFrom cfg seq (pkts ++ pkts') := by
  induction pkts generalizing seq with
  | nil => simpa using h'
  | cons pkt pkts ih =>
    refine ⟨h.1, ih h.2 ?_⟩
    have hseq : seq + 1 + UInt32.ofNat pkts.length =
        seq + UInt32.ofNat (pkt :: pkts).length := by
      rw [length_cons, UInt32.ofNat_add, add_assoc, add_comm (UInt32.ofNat pkts.length)]
      rfl
    rwa [hseq]

theorem SignedFrom.getElem (h : SignedFrom cfg seq pkts) {i : ℕ} (hi : i < pkts.length) :
    Signed cfg (seq + UInt32.ofNat (i + 1)) pkts[i] := by
  induction pkts generalizing seq i with
  | nil => cases hi
  | cons pkt pkts ih =>
    cases i with
    | zero => exact h.1
    | succ i =>
      have hseq : seq + UInt32.ofNat (i + 1 + 1) = seq + 1 + UInt32.ofNat (i + 1) := by
        rw [UInt32.ofNat_add (i + 1) 1, add_assoc, add_comm (UInt32.ofNat (i + 1))]
        rfl
      rw [getElem_cons_succ, hseq]
      exact ih h.2 (Nat.lt_of_succ_lt_succ hi)

/-- The effect of a call on the authentication fields: the configuration and what is
known of the peer stay, and each packet handed out takes the next sequence number. -/
structure Emits (s : Session) (out : List ControlPacket) (s' : Session) : Prop where
  auth : s'.auth = s.auth
  rcvAuthSeq : s'.rcvAuthSeq = s.rcvAuthSeq
  authSeqKnown : s'.authSeqKnown = s.authSeqKnown
  xmitAuthSeq : ∀ cfg, s.auth = some cfg → cfg.authType.isKeyed = true →
    s'.xmitAuthSeq = s.xmitAuthSeq + UInt32.ofNat out.length ∧ SignedFrom cfg s.xmitAuthSeq out

theorem Emits.silent (hauth : s'.auth = s.auth)
    (hrcv : s'.rcvAuthSeq = s.rcvAuthSeq) (hknown : s'.authSeqKnown = s.authSeqKnown)
    (hxmit : s'.xmitAuthSeq = s.xmitAuthSeq) : s.Emits [] s' :=
  ⟨hauth, hrcv, hknown, fun _ _ _ => ⟨by simp [hxmit], trivial⟩⟩

theorem Emits.trans {s'' : Session} {out' : List ControlPacket} (h : s.Emits out s')
    (h' : s'.Emits out' s'') : s.Emits (out ++ out') s'' := by
  refine ⟨h'.auth.trans h.auth, h'.rcvAuthSeq.trans h.rcvAuthSeq,
    h'.authSeqKnown.trans h.authSeqKnown, ?_⟩
  intro cfg hcfg hkeyed
  obtain ⟨hxmit, hsigned⟩ := h.xmitAuthSeq cfg hcfg hkeyed
  obtain ⟨hxmit', hsigned'⟩ := h'.xmitAuthSeq cfg (h.auth.trans hcfg) hkeyed
  refine ⟨?_, hsigned.append (hxmit ▸ hsigned')⟩
  rw [hxmit', hxmit, length_append, UInt32.ofNat_add, add_assoc]

theorem emits_buildPacket (s : Session) (poll finalBit : Bool) :
    s.Emits [(s.buildPacket poll finalBit).1] (s.buildPacket poll finalBit).2 := by
  have hframe := s.advanceSeq_eq
  have hauth : s.advanceSeq.auth = s.auth := by rw [hframe]
  refine ⟨hauth, by rw [buildPacket, hframe], by rw [buildPacket, hframe], ?_⟩
  intro cfg hcfg hkeyed
  have hseq : s.advanceSeq.xmitAuthSeq = s.xmitAuthSeq + 1 := by
    rw [advanceSeq, hcfg]
    simp [hkeyed]
  have hplain : cfg.authType ≠ .simplePassword := by
    rintro h
    rw [h] at hkeyed
    cases hkeyed
  refine ⟨hseq, ⟨rfl, ?_, ?_⟩, trivial⟩
  · simp [buildPacket, hauth, hcfg]
  · simp [buildPacket, hauth, hcfg, authSection, hkeyed, hplain, hseq]

theorem emits_call (s : Session) (c : Call) : s.Emits (s.call c).1 (s.call c).2 := by
  cases c with
  | adminDown => exact .silent rfl rfl rfl rfl
  | adminUp =>
    simp only [call, adminUp]
    split <;> exact .silent rfl rfl rfl rfl
  | startPoll now => exact .silent rfl rfl rfl rfl
  | checkTimeout now =>
    simp only [call, checkTimeout]
    repeat' split
    all_goals exact .silent rfl rfl rfl rfl
  | nextPeriodicPacket =>
    simp only [call, nextPeriodicPacket]
    split
    · exact s.emits_buildPacket _ _
    · exact .silent rfl rfl rfl rfl

theorem emits_accept (s : Session) (pkt : ControlPacket) (now : Instant) :
    s.Emits (s.accept pkt now).1.toList (s.accept pkt now).2 := by
  have hlearn : s.Emits [] (s.learn pkt) := by
    rw [learn_eq]
    exact .silent rfl rfl rfl rfl
  have htransition : (s.learn pkt).Emits [] ((s.learn pkt).transition pkt.state) := by
    rw [transition_eq]
    exact .silent rfl rfl rfl rfl
  have htouch : ∀ s : Session, s.Emits [] { s with lastRx := some now } :=
    fun _ => .silent rfl rfl rfl rfl
  simp only [accept]
  split
  · exact hlearn.trans (htouch _)
  · have hmoved := hlearn.trans htransition
    split
    · have hbuilt := hmoved.trans (emits_buildPacket _ false true)
      exact hbuilt.trans (htouch _)
    · exact hmoved.trans (htouch _)

theorem emits_processPacket (s : Session) (pkt : ControlPacket) (now : Instant) :
    s.Emits (s.processPacket pkt now).1.response (s.processPacket pkt now).2 := by
  unfold processPacket
  repeat' split
  any_goals exact .silent rfl rfl rfl rfl
  exact s.emits_accept pkt now

/-! ## Runs of a session -/

variable (sha1 : Bytes → FixedBytes 20)

inductive Action where
  | call (c : Call)
  | processPacket (pkt : ControlPacket) (now : Instant)
  | processBytes (buf : Bytes) (now : Instant)

def act (s : Session) : Action → List ControlPacket × Session
  | .call c => s.call c
  | .processPacket pkt now => ((s.processPacket pkt now).1.response, (s.processPacket pkt now).2)
  | .processBytes buf now =>
    match s.processBytes sha1 buf now with
    | (.ok respond, s) => (respond.toList, s)
    | (.error _, s) => ([], s)

def after (s : Session) (acts : List Action) : Session := acts.foldl (fun s a => (s.act sha1 a).2) s

def emitted : Session → List Action → List ControlPacket
  | _, [] => []
  | s, a :: acts => (s.act sha1 a).1 ++ emitted (s.act sha1 a).2 acts

def inputs : List Action → List Bytes
  | [] => []
  | .processBytes buf _ :: acts => buf :: inputs acts
  | _ :: acts => inputs acts

def verdicts : Session → List Action → List (Except (Fault BfdError) (Option ControlPacket))
  | _, [] => []
  | s, .processBytes buf now :: acts =>
    (s.authenticate sha1 buf).1 :: verdicts (s.act sha1 (.processBytes buf now)).2 acts
  | s, a :: acts => verdicts (s.act sha1 a).2 acts

theorem act_processBytes (s : Session) (buf : Bytes) (now : Instant) :
    s.act sha1 (.processBytes buf now) =
      match s.authenticate sha1 buf with
      | (.ok (some pkt), s') => s'.act sha1 (.processPacket pkt now)
      | (.ok none, s') => ([], s')
      | (.error _, s') => ([], s') := by
  simp only [act, processBytes, receiveBytes]
  generalize s.authenticate sha1 buf = outcome
  obtain ⟨result, s'⟩ := outcome
  cases result with
  | error e => rfl
  | ok passed =>
    cases passed with
    | none => rfl
    | some pkt =>
      simp only
      generalize s'.processPacket pkt now = processed
      obtain ⟨r, s''⟩ := processed
      cases r <;> rfl

theorem emits_processBytes (s : Session) (buf : Bytes) (now : Instant) :
    (s.authenticate sha1 buf).2.Emits (s.act sha1 (.processBytes buf now)).1
      (s.act sha1 (.processBytes buf now)).2 := by
  rw [act_processBytes]
  generalize s.authenticate sha1 buf = outcome
  obtain ⟨result, s'⟩ := outcome
  cases result with
  | error e => exact .silent rfl rfl rfl rfl
  | ok passed =>
    cases passed with
    | none => exact .silent rfl rfl rfl rfl
    | some pkt => exact s'.emits_processPacket pkt now

theorem signedFrom_emitted (hcfg : s.auth = some cfg)
    (hkeyed : cfg.authType.isKeyed = true) (acts : List Action) :
    SignedFrom cfg s.xmitAuthSeq (s.emitted sha1 acts) := by
  induction acts generalizing s with
  | nil => trivial
  | cons a acts ih =>
    have hstep : (s.act sha1 a).2.auth = s.auth ∧
        (s.act sha1 a).2.xmitAuthSeq = s.xmitAuthSeq + UInt32.ofNat (s.act sha1 a).1.length ∧
        SignedFrom cfg s.xmitAuthSeq (s.act sha1 a).1 := by
      cases a with
      | call c =>
        have h := s.emits_call c
        exact ⟨h.auth, h.xmitAuthSeq cfg hcfg hkeyed⟩
      | processPacket pkt now =>
        have h := s.emits_processPacket pkt now
        exact ⟨h.auth, h.xmitAuthSeq cfg hcfg hkeyed⟩
      | processBytes buf now =>
        have hsame := s.sameButRcv_authenticate sha1 buf
        have h := s.emits_processBytes sha1 buf now
        have hauth : (s.authenticate sha1 buf).2.auth = s.auth := by rw [hsame]
        have hxmit : (s.authenticate sha1 buf).2.xmitAuthSeq = s.xmitAuthSeq := by rw [hsame]
        have hnext := h.xmitAuthSeq cfg (hauth.trans hcfg) hkeyed
        rw [hxmit] at hnext
        exact ⟨h.auth.trans hauth, hnext⟩
    obtain ⟨hauth, hxmit, hsigned⟩ := hstep
    exact hsigned.append (hxmit ▸ ih (hauth.trans hcfg))

/-! ## The bytes of a signed packet -/

def wireFront (cfg : AuthConfig) (seq : UInt32) (pkt : ControlPacket) : Bytes :=
  pkt.headerBytes 52 ++ ([cfg.authType.asU8, 28, cfg.keyId, 0] ++ u32Bytes seq)

def wire (cfg : AuthConfig) (seq : UInt32) (pkt : ControlPacket) : Bytes :=
  wireFront cfg seq pkt ++ (sha1 (wireFront cfg seq pkt ++ (padTo 20 cfg.key).val)).val

@[simp] theorem length_wireFront (cfg : AuthConfig) (seq : UInt32) (pkt : ControlPacket) :
    (wireFront cfg seq pkt).length = 32 := by
  simp [wireFront]

theorem digestLen_of_isKeyed {t : AuthType} (h : t.isKeyed = true) : t.digestLen = 20 := by
  cases t <;> first | rfl | cases h

theorem padTo_digestLen {t : AuthType} (h : t.isKeyed = true) (key : Bytes) :
    (padTo t.digestLen key).val = (padTo 20 key).val := by
  rw [digestLen_of_isKeyed h]

theorem patch_wireFront (cfg : AuthConfig) (seq : UInt32) (pkt : ControlPacket)
    (old new : FixedBytes 20) : patch (wireFront cfg seq pkt ++ old.val) digestOff new.val =
      some (wireFront cfg seq pkt ++ new.val) := by
  have h := patch_append (wireFront cfg seq pkt) old.val [] new.val (by simp)
  rwa [append_nil, append_nil, length_wireFront] at h

theorem toBytes_of_signed (hkeyed : cfg.authType.isKeyed = true) (h : Signed cfg seq pkt) :
    pkt.toBytes = wireFront cfg seq pkt ++ (padTo 20 []).val := by
  obtain ⟨-, -, hauth⟩ := h
  have hsection : AuthSection.toBytes ⟨cfg.authType, cfg.keyId, seq, []⟩ =
      [cfg.authType.asU8, 28, cfg.keyId, 0] ++ (u32Bytes seq ++ (padTo 20 []).val) := by
    cases htype : cfg.authType with
    | keyedSha1 | meticulousKeyedSha1 => rfl
    | _ => rw [htype] at hkeyed; cases hkeyed
  rw [ControlPacket.toBytes, hauth, map_some, getD_some, hsection, wireFront]
  simp [minLenNoAuth]

theorem encodePacket_of_signed (hcfg : s.auth = some cfg) (hkeyed : cfg.authType.isKeyed = true)
    (h : Signed cfg seq pkt) : s.encodePacket sha1 pkt = some (wire sha1 cfg seq pkt) := by
  simp only [encodePacket, hcfg, hkeyed, if_true, padTo_digestLen hkeyed,
    toBytes_of_signed hkeyed h, patch_wireFront, bind_eq_bind, bind_some]
  rfl

theorem fromBytes_wire
    (hkeyed : cfg.authType.isKeyed = true) (h : Signed cfg seq pkt) (digest : FixedBytes 20) :
    ControlPacket.fromBytes (wireFront cfg seq pkt ++ digest.val) =
      .ok { pkt with auth := some ⟨cfg.authType, cfg.keyId, seq, digest.val⟩ } := by
  obtain ⟨hversion, hpresent, -⟩ := h
  have hparse : parseAuthSection ([cfg.authType.asU8, 28, cfg.keyId, 0] ++
      (u32Bytes seq ++ digest.val)) = .ok ⟨cfg.authType, cfg.keyId, seq, digest.val⟩ := by
    have hdata : FixedBytes.slice ([cfg.authType.asU8, 28, cfg.keyId, 0] ++
        (u32Bytes seq ++ digest.val)) 8 20 = digest := by
      have h := FixedBytes.slice_append
        ([cfg.authType.asU8, 28, cfg.keyId, 0] ++ u32Bytes seq) [] digest
      rwa [append_nil, append_assoc] at h
    have hseq : u32At ([cfg.authType.asU8, 28, cfg.keyId, 0] ++ (u32Bytes seq ++ digest.val)) 4 =
        seq := ofNat_beNat_u32Bytes seq
    have hlen : ([cfg.authType.asU8, 28, cfg.keyId, 0] ++ (u32Bytes seq ++ digest.val)).length =
        28 := by simp
    unfold parseAuthSection
    rw [hdata, hseq, hlen]
    cases hcfg : cfg.authType with
    | keyedSha1 | meticulousKeyedSha1 => rfl
    | _ => rw [hcfg] at hkeyed; cases hkeyed
  have hread := ControlPacket.fromBytes_headerBytes hversion 52
    ([cfg.authType.asU8, 28, cfg.keyId, 0] ++ (u32Bytes seq ++ digest.val))
  have hlength : (UInt8.ofNat 52).toNat = 52 := rfl
  have htake : ([cfg.authType.asU8, 28, cfg.keyId, 0] ++ (u32Bytes seq ++ digest.val)).take
      (52 - 24) = [cfg.authType.asU8, 28, cfg.keyId, 0] ++ (u32Bytes seq ++ digest.val) :=
    take_of_length_le (by simp)
  have hauth : parseAuth pkt.authPresent ([cfg.authType.asU8, 28, cfg.keyId, 0] ++
      (u32Bytes seq ++ digest.val)) = .ok (some ⟨cfg.authType, cfg.keyId, seq, digest.val⟩) := by
    rw [hpresent, parseAuth, if_pos rfl, hparse]
    rfl
  simp only [hlength, htake, hauth] at hread
  rw [wireFront, append_assoc, append_assoc, hread,
    if_neg (by simp [minLenNoAuth, minLenAuth]), if_neg (by simp)]
  rfl

def received (cfg : AuthConfig) (seq : UInt32) (pkt : ControlPacket) : ControlPacket :=
  { pkt with
    auth := some ⟨cfg.authType, cfg.keyId, seq,
      (sha1 (wireFront cfg seq pkt ++ (padTo 20 cfg.key).val)).val⟩ }

theorem verifyAuth_wire (seq : UInt32) (pkt : ControlPacket)
    (hcfg : s.auth = some cfg') (htype : cfg'.authType = cfg.authType)
    (hkey : cfg'.key = cfg.key) (hkeyed : cfg.authType.isKeyed = true) :
    s.verifyAuth sha1 (received sha1 cfg seq pkt) (wire sha1 cfg seq pkt) =
      s.checkSeq cfg.authType seq := by
  have hplain : cfg.authType ≠ .simplePassword := by
    intro h
    rw [h] at hkeyed
    cases hkeyed
  have hkeyed' : cfg'.authType.isKeyed = true := htype ▸ hkeyed
  have hpatch := patch_wireFront cfg seq pkt
    (sha1 (wireFront cfg seq pkt ++ (padTo 20 cfg.key).val)) (padTo 20 cfg.key)
  simp only [verifyAuth, received, hcfg, hkey, padTo_digestLen hkeyed',
    digestLen_of_isKeyed hkeyed', wire, hpatch]
  simp [htype, hkeyed, hplain, digestOff]

theorem authenticate_wire (hcfg : s.auth = some cfg') (htype : cfg'.authType = cfg.authType)
    (hkey : cfg'.key = cfg.key) (hkeyed : cfg.authType.isKeyed = true) (h : Signed cfg seq pkt) :
    s.authenticate sha1 (wire sha1 cfg seq pkt) =
      if s.replays cfg.authType seq then (.error (.error .authSeqReplay), s)
      else (.ok (some (received sha1 cfg seq pkt)), s.hear seq) := by
  have hread : ControlPacket.fromBytes (wire sha1 cfg seq pkt) = .ok (received sha1 cfg seq pkt) :=
    fromBytes_wire hkeyed h _
  have hpresent : (received sha1 cfg seq pkt).authPresent = true := h.2.1
  have hsome : s.auth.isSome = true := by rw [hcfg]; rfl
  unfold authenticate
  rw [hread]
  simp only [hpresent, hsome, ne_eq, not_true_eq_false, if_false, if_true,
    verifyAuth_wire sha1 seq pkt hcfg htype hkey hkeyed, checkSeq]
  cases s.replays cfg.authType seq <;> rfl

/-! ## The receiver -/

def Passed (verdict : Except (Fault BfdError) (Option ControlPacket)) : Prop :=
  ∃ pkt, verdict = .ok (some pkt)

theorem not_passed_error (e : Fault BfdError) : ¬ Passed (.error e) := by
  rintro ⟨pkt, h⟩
  cases h

theorem not_passed_none : ¬ Passed (.ok none) := by
  rintro ⟨pkt, h⟩
  cases h

def Follows (t : AuthType) (r q : UInt32) : Prop :=
  if t = .meticulousKeyedSha1 then q = r + 1 else r ≤ q

def heard (s : Session) : List UInt32 := if s.authSeqKnown then [s.rcvAuthSeq] else []

theorem replays_eq_false_iff (s : Session) (t : AuthType) (q : UInt32) :
    s.replays t q = false ↔ ∀ r ∈ s.heard, Follows t r q := by
  unfold replays heard Follows
  cases s.authSeqKnown with
  | false => simp
  | true =>
    by_cases ht : t = .meticulousKeyedSha1
    · simp [ht]
    · simp [ht]

theorem Emits.heard (h : s.Emits out s') : s'.heard = s.heard := by
  rw [Session.heard, h.authSeqKnown, h.rcvAuthSeq, Session.heard]

theorem isChain_heard_append {R : UInt32 → UInt32 → Prop} (s : Session) (q : UInt32)
    (qs : List UInt32) :
    (s.heard ++ q :: qs).IsChain R ↔ (∀ r ∈ s.heard, R r q) ∧ (q :: qs).IsChain R := by
  unfold heard
  split
  · simp
  · simp

theorem verdicts_wire (htype : cfg'.authType = cfg.authType)
    (hkey : cfg'.key = cfg.key) (hkeyed : cfg.authType.isKeyed = true) (acts : List Action) :
    ∀ {s : Session} {stream : List (UInt32 × ControlPacket)}, s.auth = some cfg' →
      (∀ p ∈ stream, Signed cfg p.1 p.2) →
      inputs acts = stream.map (fun p => wire sha1 cfg p.1 p.2) →
      (∀ v ∈ s.verdicts sha1 acts, Passed v ∨ v = .error (.error .authSeqReplay)) ∧
      ((∀ v ∈ s.verdicts sha1 acts, Passed v) ↔
        (s.heard ++ stream.map Prod.fst).IsChain (Follows cfg.authType)) := by
  induction acts with
  | nil =>
    intro s stream _ _ hinputs
    obtain rfl : stream = [] := map_eq_nil_iff.mp hinputs.symm
    refine ⟨by simp [verdicts], ?_⟩
    unfold heard
    split <;> simp [verdicts]
  | cons a acts ih =>
    intro s stream hcfg hsigned hinputs
    cases a with
    | call c =>
      have hemits := s.emits_call c
      have hrest := ih (hemits.auth.trans hcfg) hsigned hinputs
      rwa [hemits.heard] at hrest
    | processPacket pkt now =>
      have hemits := s.emits_processPacket pkt now
      have hrest := ih (hemits.auth.trans hcfg) hsigned hinputs
      rwa [hemits.heard] at hrest
    | processBytes buf now =>
      obtain ⟨p, stream, rfl, hbuf, hrest⟩ := map_eq_cons_iff.mp hinputs.symm
      obtain ⟨hp, hsigned⟩ := forall_mem_cons.mp hsigned
      have hemits := s.emits_processBytes sha1 buf now
      have hauth := authenticate_wire sha1 hcfg htype hkey hkeyed hp
      rw [hbuf] at hauth
      rw [map_cons, isChain_heard_append, ← replays_eq_false_iff]
      simp only [verdicts, forall_mem_cons]
      by_cases hreplay : s.replays cfg.authType p.1 = true
      · rw [if_pos hreplay] at hauth
        rw [hauth] at hemits ⊢
        have hclass := (ih (hemits.auth.trans hcfg) hsigned hrest.symm).1
        refine ⟨⟨.inr rfl, hclass⟩, iff_of_false ?_ ?_⟩
        · exact fun hall => not_passed_error _ hall.1
        · rintro ⟨hfresh, -⟩
          rw [hreplay] at hfresh
          cases hfresh
      · rw [if_neg hreplay] at hauth
        rw [hauth] at hemits ⊢
        have hnext := ih (hemits.auth.trans hcfg) hsigned hrest.symm
        rw [hemits.heard] at hnext
        refine ⟨⟨.inl ⟨_, rfl⟩, hnext.1⟩, ?_⟩
        rw [hnext.2]
        exact and_congr (iff_of_true ⟨_, rfl⟩ (Bool.not_eq_true _ ▸ hreplay)) Iff.rfl

/-! ## Losses and wraps -/

def Unbroken (t : AuthType) (seed : UInt32) (i j : ℕ) : Prop :=
  if t = .meticulousKeyedSha1 then j = i + 1
  else (seed.toNat + i + 1) / 2 ^ 32 = (seed.toNat + j + 1) / 2 ^ 32

instance (t : AuthType) (seed : UInt32) (i j : ℕ) : Decidable (Unbroken t seed i j) :=
  inferInstanceAs (Decidable (if t = .meticulousKeyedSha1 then j = i + 1
    else (seed.toNat + i + 1) / 2 ^ 32 = (seed.toNat + j + 1) / 2 ^ 32))

theorem follows_iff_unbroken (t : AuthType) (seed : UInt32) {i j : ℕ} (hij : i < j)
    (hgap : j - i < 2 ^ 32) :
    Follows t (seed + UInt32.ofNat (i + 1)) (seed + UInt32.ofNat (j + 1)) ↔
      Unbroken t seed i j := by
  unfold Follows Unbroken
  split
  · rw [← UInt32.toNat_inj]
    simp only [UInt32.toNat_add, UInt32.toNat_ofNat', UInt32.toNat_one]
    omega
  · rw [UInt32.le_iff_toNat_le]
    simp only [UInt32.toNat_add, UInt32.toNat_ofNat']
    omega

theorem isChain_congr {α : Type} {R S T : α → α → Prop} {xs : List α} (h : xs.IsChain R)
    (hiff : ∀ a b, R a b → (S a b ↔ T a b)) : xs.IsChain S ↔ xs.IsChain T := by
  induction h with
  | nil => simp
  | singleton a => simp
  | cons_cons hab _ ih => rw [isChain_cons_cons, isChain_cons_cons, hiff _ _ hab, ih]

def InOrder (detectMult : UInt8) (i j : ℕ) : Prop := i < j ∧ j - i - 1 < 3 * detectMult.toNat

instance (detectMult : UInt8) (i j : ℕ) : Decidable (InOrder detectMult i j) :=
  inferInstanceAs (Decidable (_ ∧ _))

def Encodes (s : Session) (pkts : List ControlPacket) (i : ℕ) (buf : Bytes) : Prop :=
  ∃ pkt, pkts[i]? = some pkt ∧ s.encodePacket sha1 pkt = some buf

theorem exists_stream (hcfg : s.auth = some cfg) (hkeyed : cfg.authType.isKeyed = true)
    {seed : UInt32} (hsigned : SignedFrom cfg seed pkts) {idx : List ℕ} {bufs : List Bytes}
    (h : List.Forall₂ (s.Encodes sha1 pkts) idx bufs) :
    ∃ stream : List (UInt32 × ControlPacket), (∀ p ∈ stream, Signed cfg p.1 p.2) ∧
      stream.map Prod.fst = idx.map (fun i => seed + UInt32.ofNat (i + 1)) ∧
      bufs = stream.map (fun p => wire sha1 cfg p.1 p.2) := by
  induction h with
  | nil => exact ⟨[], by simp, rfl, rfl⟩
  | @cons i buf idx bufs hbuf _ ih =>
    obtain ⟨stream, hstream, hfst, hbufs⟩ := ih
    obtain ⟨pkt, hpkt, hencode⟩ := hbuf
    obtain ⟨hi, rfl⟩ := List.getElem?_eq_some_iff.mp hpkt
    have hpkt := hsigned.getElem hi
    have hwire := encodePacket_of_signed sha1 hcfg hkeyed hpkt
    rw [hencode] at hwire
    refine ⟨(_, pkts[i]) :: stream, forall_mem_cons.mpr ⟨hpkt, hstream⟩, ?_, ?_⟩
    · rw [map_cons, map_cons, hfst]
    · rw [map_cons, ← hbufs, ← some.inj hwire]

/-! ## Replays -/

theorem verifyAuth_keyed (hcfg : s.auth = some cfg)
    (hkeyed : cfg.authType.isKeyed = true) (pkt : ControlPacket) (raw : Bytes) :
    (∃ sect, pkt.auth = some sect ∧ s.replays cfg.authType sect.sequenceNumber = false ∧
      s.verifyAuth sha1 pkt raw = (.ok true, s.hear sect.sequenceNumber)) ∨
    ((s.verifyAuth sha1 pkt raw).1 ≠ .ok true ∧ (s.verifyAuth sha1 pkt raw).2 = s) := by
  cases hauth : pkt.auth with
  | none =>
    refine .inr ?_
    simp [verifyAuth, hcfg, hauth]
  | some sect =>
    simp only [verifyAuth, hcfg, hauth]
    split
    · exact .inr ⟨by simp, rfl⟩
    rename_i htype
    rw [not_not] at htype
    have hplain : sect.authType ≠ .simplePassword := by
      intro h
      rw [htype] at h
      rw [h] at hkeyed
      cases hkeyed
    rw [if_neg hplain]
    repeat' split
    any_goals exact .inr ⟨by simp, rfl⟩
    unfold checkSeq
    cases hreplay : s.replays cfg.authType sect.sequenceNumber with
    | true => exact .inr ⟨by simp, rfl⟩
    | false => exact .inl ⟨sect, rfl, hreplay, rfl⟩

theorem authenticate_keyed (hcfg : s.auth = some cfg)
    (hkeyed : cfg.authType.isKeyed = true) (buf : Bytes) :
    (∃ pkt sect, ControlPacket.fromBytes buf = .ok pkt ∧ pkt.auth = some sect ∧
      s.replays cfg.authType sect.sequenceNumber = false ∧
      s.authenticate sha1 buf = (.ok (some pkt), s.hear sect.sequenceNumber)) ∨
    (¬ Passed (s.authenticate sha1 buf).1 ∧ (s.authenticate sha1 buf).2 = s) := by
  unfold authenticate
  split
  · exact .inr ⟨not_passed_none, rfl⟩
  rename_i pkt hread
  have hsome : s.auth.isSome = true := by rw [hcfg]; rfl
  split
  · exact .inr ⟨not_passed_none, rfl⟩
  rename_i hpresent
  rw [not_not, hsome] at hpresent
  rw [if_pos hpresent]
  rcases verifyAuth_keyed sha1 hcfg hkeyed pkt buf with ⟨sect, hauth, hreplay, hverify⟩ | ⟨hno, hs⟩
  · rw [hverify]
    exact .inl ⟨pkt, sect, hread, hauth, hreplay, rfl⟩
  · refine .inr ?_
    generalize s.verifyAuth sha1 pkt buf = verdict at hno hs
    obtain ⟨r, s'⟩ := verdict
    obtain rfl : s' = s := hs
    rcases r with e | _ | _
    · exact ⟨not_passed_error e, rfl⟩
    · exact ⟨not_passed_none, rfl⟩
    · exact absurd rfl hno

def passedSeq : Except (Fault BfdError) (Option ControlPacket) → Option UInt32
  | .ok (some pkt) => pkt.auth.map AuthSection.sequenceNumber
  | _ => none

def acceptedSeqs (s : Session) (acts : List Action) : List UInt32 :=
  (s.verdicts sha1 acts).filterMap passedSeq

structure Tracks (s : Session) (accepted : List UInt32) : Prop where
  known : s.authSeqKnown = true ↔ accepted ≠ []
  distance : ∀ j a, accepted[j]? = some a →
    a + UInt32.ofNat (accepted.length - 1 - j) = s.rcvAuthSeq

theorem Tracks.congr (h : s.Tracks accepted) (hemits : s.Emits out s') : s'.Tracks accepted :=
  ⟨hemits.authSeqKnown ▸ h.known, hemits.rcvAuthSeq ▸ h.distance⟩

theorem Tracks.next (h : s.Tracks accepted)
    (hfresh : s.replays .meticulousKeyedSha1 q = false) (hne : accepted ≠ []) :
    q = s.rcvAuthSeq + 1 := by
  have hfollows := (replays_eq_false_iff s _ q).mp hfresh s.rcvAuthSeq
    (by simp [heard, h.known.mpr hne])
  simpa [Follows] using hfollows

theorem Tracks.hear (h : s.Tracks accepted) (hfresh : s.replays .meticulousKeyedSha1 q = false) :
    (s.hear q).Tracks (accepted ++ [q]) := by
  refine ⟨by simp [Session.hear], ?_⟩
  intro j a hj
  have hlast : (s.hear q).rcvAuthSeq = q := rfl
  rw [hlast, length_append, length_singleton, Nat.add_sub_cancel]
  rcases Nat.lt_or_ge j accepted.length with hold | hnew
  · rw [getElem?_append_left hold] at hj
    have hne : accepted ≠ [] := ne_nil_of_length_pos (Nat.zero_lt_of_lt hold)
    have hnext : q = s.rcvAuthSeq + 1 := h.next hfresh hne
    have hsplit : accepted.length - j = (accepted.length - 1 - j) + 1 := by omega
    rw [hnext, ← h.distance j a hj, hsplit, UInt32.ofNat_add, ← add_assoc]
    rfl
  · rw [getElem?_append_right hnew] at hj
    obtain ⟨hzero, rfl⟩ : j - accepted.length = 0 ∧ q = a := by
      cases hk : j - accepted.length with
      | zero => rw [hk] at hj; exact ⟨rfl, some.inj hj⟩
      | succ k => rw [hk] at hj; cases hj
    have : accepted.length - j = 0 := by omega
    rw [this]
    simp

theorem Tracks.distance_bound (h : s.Tracks accepted)
    (hfresh : s.replays .meticulousKeyedSha1 q = false) {j d : ℕ} {a : UInt32}
    (hj : accepted[j]? = some a) (hbehind : q + UInt32.ofNat d = a) :
    ¬ d + (accepted.length - j) < 2 ^ 32 := by
  intro hbound
  have hlt : j < accepted.length := (List.getElem?_eq_some_iff.mp hj).1
  have hne : accepted ≠ [] := ne_nil_of_length_pos (Nat.zero_lt_of_lt hlt)
  have hnext : q = s.rcvAuthSeq + 1 := h.next hfresh hne
  have hlast := h.distance j a hj
  rw [← hbehind, hnext, ← UInt32.toNat_inj] at hlast
  simp only [UInt32.toNat_add, UInt32.toNat_ofNat', UInt32.toNat_one] at hlast
  omega

theorem tracks_after (hmet : cfg.authType = .meticulousKeyedSha1) (acts : List Action) :
    ∀ {s : Session} {accepted : List UInt32}, s.auth = some cfg → s.Tracks accepted →
      (s.after sha1 acts).Tracks (accepted ++ s.acceptedSeqs sha1 acts) ∧
        (s.after sha1 acts).auth = some cfg := by
  have hkeyed : cfg.authType.isKeyed = true := by rw [hmet]; rfl
  induction acts with
  | nil =>
    intro s accepted hcfg h
    rw [acceptedSeqs, verdicts, filterMap_nil, append_nil]
    exact ⟨h, hcfg⟩
  | cons a acts ih =>
    intro s accepted hcfg h
    cases a with
    | call c => exact ih ((s.emits_call c).auth.trans hcfg) (h.congr (s.emits_call c))
    | processPacket pkt now =>
      have hemits := s.emits_processPacket pkt now
      exact ih (hemits.auth.trans hcfg) (h.congr hemits)
    | processBytes buf now =>
      have hemits := s.emits_processBytes sha1 buf now
      have hsplit : s.acceptedSeqs sha1 (.processBytes buf now :: acts) =
          (passedSeq (s.authenticate sha1 buf).1).toList ++
            (s.act sha1 (.processBytes buf now)).2.acceptedSeqs sha1 acts := by
        rw [acceptedSeqs, verdicts, filterMap_cons]
        cases passedSeq (s.authenticate sha1 buf).1 <;> rfl
      rw [hsplit, ← append_assoc]
      rcases authenticate_keyed sha1 hcfg hkeyed buf with
        ⟨pkt, sect, -, hauth, hfresh, hpass⟩ | ⟨hno, hs⟩
      · rw [hpass] at hemits ⊢
        rw [hmet] at hfresh
        have hseq : (passedSeq (.ok (some pkt))).toList = [sect.sequenceNumber] := by
          simp [passedSeq, hauth]
        rw [hseq]
        exact ih (hemits.auth.trans hcfg) ((h.hear hfresh).congr hemits)
      · rw [hs] at hemits
        have hseq : passedSeq (s.authenticate sha1 buf).1 = none := by
          generalize (s.authenticate sha1 buf).1 = verdict at hno
          rcases verdict with e | _ | pkt
          · rfl
          · rfl
          · exact absurd ⟨pkt, rfl⟩ hno
        rw [hseq, toList_none, append_nil]
        exact ih (hemits.auth.trans hcfg) (h.congr hemits)

/-! ## The stream -/

/-- What an authenticated stream achieves. -/
theorem stream_passes_iff {config config' : SessionConfig} {seed seed' : UInt32}
    {sender receiver : Session} (hsender : new config seed = .ok sender)
    (hreceiver : new config' seed' = .ok receiver) {cfg cfg' : AuthConfig}
    (hcfg : config.auth = some cfg) (hcfg' : config'.auth = some cfg')
    (htype : cfg'.authType = cfg.authType) (hkey : cfg'.key = cfg.key)
    (hkeyed : cfg.authType.isKeyed = true) :
    (∀ acts, ∀ pkt ∈ sender.emitted sha1 acts, ∃ buf, sender.encodePacket sha1 pkt = some buf) ∧
    (∀ acts idx racts, idx.IsChain (InOrder sender.detectMult) →
      List.Forall₂ (sender.Encodes sha1 (sender.emitted sha1 acts)) idx (inputs racts) →
      (∀ v ∈ receiver.verdicts sha1 racts, Passed v ∨ v = .error (.error .authSeqReplay)) ∧
      ((∀ v ∈ receiver.verdicts sha1 racts, Passed v) ↔
        idx.IsChain (Unbroken cfg.authType seed))) ∧ (cfg.authType = .meticulousKeyedSha1 →
      ∀ racts buf pkt sect, ControlPacket.fromBytes buf = .ok pkt → pkt.auth = some sect →
      ∀ j a d, (receiver.acceptedSeqs sha1 racts)[j]? = some a →
        sect.sequenceNumber + UInt32.ofNat d = a →
        d + ((receiver.acceptedSeqs sha1 racts).length - j) < 2 ^ 32 →
        ¬ Passed ((receiver.after sha1 racts).authenticate sha1 buf).1) := by
  obtain rfl := eq_fresh_of_new hsender
  obtain rfl := eq_fresh_of_new hreceiver
  have hsigned : ∀ acts, SignedFrom cfg seed ((fresh config seed).emitted sha1 acts) :=
    fun acts => signedFrom_emitted (s := fresh config seed) sha1 hcfg hkeyed acts
  refine ⟨?_, ?_, ?_⟩
  · intro acts pkt hpkt
    obtain ⟨i, hi, rfl⟩ := mem_iff_getElem.mp hpkt
    exact ⟨_, encodePacket_of_signed (s := fresh config seed) sha1 hcfg hkeyed
      ((hsigned acts).getElem hi)⟩
  · intro acts idx racts horder hencodes
    obtain ⟨stream, hstream, hfst, hbufs⟩ :=
      exists_stream (s := fresh config seed) sha1 hcfg hkeyed (hsigned acts) hencodes
    obtain ⟨hclass, hiff⟩ := verdicts_wire (s := fresh config' seed') sha1 htype hkey hkeyed racts
      hcfg' hstream hbufs
    refine ⟨hclass, hiff.trans ?_⟩
    have hheard : (fresh config' seed').heard = [] := rfl
    rw [hheard, nil_append, hfst, isChain_map]
    refine isChain_congr horder fun i j hij => follows_iff_unbroken _ _ hij.1 ?_
    have := (fresh config seed).detectMult.toNat_lt
    have := hij.2
    omega
  · intro hmet racts buf pkt sect hread hauth j a d haccepted hbehind hbound hpassed
    have hstart : (fresh config' seed').Tracks [] := ⟨by simp [fresh], by simp⟩
    obtain ⟨htracks, hcfg''⟩ := tracks_after (s := fresh config' seed') sha1
      (htype.trans hmet) racts hcfg' hstart
    rw [nil_append] at htracks
    rcases authenticate_keyed sha1 hcfg'' (htype ▸ hkeyed) buf with
      ⟨pkt', sect', hread', hauth', hfresh, -⟩ | ⟨hno, -⟩
    · obtain rfl : pkt = pkt' := Except.ok.inj (hread.symm.trans hread')
      obtain rfl : sect = sect' := some.inj (hauth.symm.trans hauth')
      rw [htype, hmet] at hfresh
      exact htracks.distance_bound hfresh haccepted hbehind hbound
    · exact hno hpassed

def zeroHash (_ : Bytes) : FixedBytes 20 := FixedBytes.replicate 20 0

def sampleKeyed (t : AuthType) : SessionConfig :=
  { localDiscriminator := 1
    desiredMinTxInterval := 1000
    requiredMinRxInterval := 1000
    detectMult := 3
    demandMode := false
    controlPlaneIndependent := false
    role := .active
    auth := some ⟨t, 7, [1, 2, 3]⟩ }

def sampleBytes (t : AuthType) (seed : UInt32) (i : ℕ) : Bytes :=
  let sender := fresh (sampleKeyed t) seed
  ((sender.emitted zeroHash (List.replicate 3 (.call .nextPeriodicPacket)))[i]?.bind
    (sender.encodePacket zeroHash)).getD []

def sampleVerdicts (t : AuthType) (seed : UInt32) (i j : ℕ) :
    List (Except (Fault BfdError) (Option ControlPacket)) :=
  (fresh (sampleKeyed t) 0).verdicts zeroHash
    [.processBytes (sampleBytes t seed i) 0, .processBytes (sampleBytes t seed j) 0]

theorem stream_passes_sample : (∀ v ∈ sampleVerdicts .keyedSha1 5 0 2, Passed v) ∧
      [0, 2].IsChain (Unbroken .keyedSha1 5) := by
  have hunbroken : [0, 2].IsChain (Unbroken .keyedSha1 5) := by decide
  have hencodes : ∀ i < 3, (fresh (sampleKeyed .keyedSha1) 5).Encodes zeroHash
      ((fresh (sampleKeyed .keyedSha1) 5).emitted zeroHash
        (List.replicate 3 (.call .nextPeriodicPacket))) i (sampleBytes .keyedSha1 5 i) := by
    intro i hi
    refine bind_eq_some_iff.mp ?_
    revert i
    decide +kernel
  have hstream := stream_passes_iff zeroHash (rfl : new (sampleKeyed .keyedSha1) 5 = .ok _)
    (rfl : new (sampleKeyed .keyedSha1) 0 = .ok _) rfl rfl rfl rfl rfl
  have hiff := (hstream.2.1 (List.replicate 3 (.call .nextPeriodicPacket)) [0, 2]
    [.processBytes (sampleBytes .keyedSha1 5 0) 0, .processBytes (sampleBytes .keyedSha1 5 2) 0]
    (by decide) (.cons (hencodes 0 (by decide)) (.cons (hencodes 2 (by decide)) .nil))).2
  exact ⟨hiff.mpr hunbroken, hunbroken⟩

/-- One lost packet ends a meticulous stream, and the wrap of the number ends the other. -/
theorem stream_broken :
    (sampleVerdicts .meticulousKeyedSha1 0 0 2)[1]? = some (.error (.error .authSeqReplay)) ∧
      (sampleVerdicts .keyedSha1 0xFFFFFFFE 0 1)[1]? = some (.error (.error .authSeqReplay)) := by
  decide +kernel

end Session

end TptRfc.Bfd
