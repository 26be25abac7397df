import TptRfc.Dtls.Fragmentation
import TptRfc.Dtls.Phases
import TptRfc.Dtls.Protection

/-!
# DTLS: what the records of a peer do at their receiver

`RecordOk` says what a side can send; this is what comes of it at the other end.
-/

namespace TptRfc.Dtls

open Lib List Parser

/-! ## Messages in bytes -/

variable {bytes : Bytes} {body : HandshakeBody}

theorem Fragment.parse_inv {f : Fragment} (h : Parser.run Fragment.parse bytes = .ok f) :
    f.fragLength = f.payload.length ∧ ∃ total seq offset rest : Bytes,
      bytes = f.msgType.code :: (total ++ (seq ++ (offset ++ rest))) ∧
      total.length = 3 ∧ seq.length = 2 ∧ offset.length = 3 ∧ f.offset = beNat offset := by
  obtain ⟨rest, h⟩ := run_eq_ok h
  unfold Fragment.parse at h
  simp only [bind_ok_iff] at h
  obtain ⟨code, bytes₁, hcode, msgType, bytes₂, htype, total, bytes₃, htotal, seq, bytes₄, hseq,
    offset, bytes₅, hoffset, fragLength, bytes₆, hfragLength, payload, bytes₇, hpayload, h⟩ := h
  cases h
  obtain ⟨hcodeOk, rfl⟩ := lift_eq_ok htype
  obtain ⟨total, rfl, htotalLen, -⟩ := takeBe_eq_ok htotal
  obtain ⟨seq, rfl, hseqLen, -⟩ := takeU16_eq_ok hseq
  obtain ⟨offset, rfl, hoffsetLen, hvalue⟩ := takeBe_eq_ok hoffset
  obtain ⟨-, hlen⟩ := takeBytes_eq_ok hpayload
  have hbytes : bytes = code :: (total ++ (seq ++ (offset ++ bytes₅))) := by
    cases bytes with
    | nil => cases hcode
    | cons b bytes => cases hcode; rfl
  rw [HandshakeType.fromCode_eq_ok_iff] at hcodeOk
  subst hcodeOk
  exact ⟨hlen.symm, total, seq, offset, bytes₅, hbytes, htotalLen, hseqLen, hoffsetLen, hvalue⟩

theorem HandshakeBody.msgType_of_parse {t : HandshakeType}
    (h : parse t bytes = .ok body) : body.msgType = t := by
  have hmap : ∀ {α : Type} {f : α → HandshakeBody} {p : Parser DtlsError α},
      (∀ a, (f a).msgType = t) → Parser.run (f <$> p) bytes = .ok body → body.msgType = t := by
    intro α f p hf hrun
    obtain ⟨rest, hrun⟩ := run_eq_ok hrun
    cases hp : p bytes with
    | error e =>
      change (p bytes >>= fun r => pure (f r.1, r.2)) = _ at hrun
      rw [hp] at hrun
      cases hrun
    | ok r =>
      rw [map_of_ok f hp] at hrun
      cases hrun
      exact hf r.1
  cases t with
  | finished => cases h; rfl
  | _ => exact hmap (fun _ => rfl) h

theorem parseHandshake_take {msgSeq : UInt16} {n : ℕ} {parsed : Option HandshakeMessage}
    (h : parseHandshake ((HandshakeMessage.new body msgSeq).encode.take n) = .ok parsed) :
    ∃ m, parsed = some m ∧ m.body.msgType = body.msgType := by
  unfold parseHandshake at h
  cases hfrag : Parser.run Fragment.parse ((HandshakeMessage.new body msgSeq).encode.take n) with
  | error e =>
    rw [hfrag] at h
    cases h
  | ok f =>
    rw [hfrag] at h
    obtain ⟨hlen, total, seq, offset, rest, hbytes, htotal, hseq, hoffset, hvalue⟩ :=
      Fragment.parse_inv hfrag
    -- the bytes are the front of the header that was written
    have hfront : f.msgType.code :: (total ++ (seq ++ (offset ++ rest))) ++
        (HandshakeMessage.new body msgSeq).encode.drop n =
          body.msgType.code :: (Writer.u24 body.bodyBytes.length ++ (u16Bytes msgSeq ++
            (Writer.u24 0 ++ (Writer.u24 body.bodyBytes.length ++ body.bodyBytes)))) := by
      rw [← hbytes, take_append_drop]
      simp [HandshakeMessage.encode, HandshakeMessage.new, fragmentHeader]
    simp only [cons_append, append_assoc, List.cons.injEq] at hfront
    obtain ⟨hcode, hfront⟩ := hfront
    obtain ⟨-, hfront⟩ := append_inj hfront (by simpa [Writer.u24] using htotal)
    obtain ⟨-, hfront⟩ := append_inj hfront (by simpa using hseq)
    obtain ⟨rfl, -⟩ := append_inj hfront (by simpa [Writer.u24] using hoffset)
    have hzero : f.offset = 0 := by rw [hvalue]; rfl
    cases hbody : HandshakeBody.parse f.msgType f.payload with
    | error e => simp [bind, Except.bind, hzero, hlen, hbody] at h
    | ok body' =>
      simp only [bind, Except.bind, hzero, hlen, and_self, if_true, hbody, pure, Except.pure,
        Except.ok.injEq] at h
      refine ⟨_, h.symm, ?_⟩
      rw [HandshakeBody.msgType_of_parse hbody]
      exact HandshakeType.code_injective hcode

theorem HandshakeBody.isHello_of_msgType {body' : HandshakeBody}
    (h : body'.msgType = body.msgType) (hbody : body.IsHello) : body'.IsHello := by
  cases body' <;> cases body <;> trivial

theorem parseHandshake_finished {verifyData : Bytes} (hlen : verifyData.length < 256 ^ 3)
    (msgSeq : UInt16) : parseHandshake (HandshakeMessage.new (.finished verifyData) msgSeq).encode =
      .ok (some (.new (.finished verifyData) msgSeq)) := by
  have hparse := Fragment.parse_fragmentHeader .finished 0 msgSeq verifyData hlen (by decide) hlen
  change parseHandshake (fragmentHeader HandshakeType.finished.code verifyData.length msgSeq 0
    verifyData.length ++ verifyData) = _
  simp only [parseHandshake, hparse, bind, Except.bind, and_self, if_true]
  rfl

namespace Connection

variable {env : Crypto} {sender c c' : Connection} {sent rest : Bytes} {record : Record}

variable {content : Bytes} {innerType : UInt8} {recvCidLen : ℕ} {msg : HandshakeMessage}
  {r : Except (Fault DtlsError) (ℕ × Option Bytes)}

theorem splitRecord_protected {suite : CipherSuite} {keys : TrafficKeys}
    {epoch : UInt16} {seq : ℕ} {cid : Option Bytes}
    (hbuild : buildProtected env suite keys.key keys.iv epoch seq contentApplicationData innerType
      content cid = .ok sent) (hsplit : splitRecord recvCidLen (sent ++ rest) = .ok record) :
    record.header.epoch = epoch ∧ ∃ nonce aad ct,
      env.aeadSeal suite keys.key nonce aad (content ++ [innerType]) = .ok ct ∧
      record.body = (ct ++ (cid.getD [] ++ rest)).take
        (UInt16.ofNat (content.length + 1 + suite.tagLen)).toNat := by
  obtain ⟨-, ct, hseal, rfl⟩ := buildProtected_eq_ok hbuild
  rw [append_assoc, append_assoc] at hsplit
  obtain ⟨hheader, hbody⟩ := splitRecord_encode hsplit
  rw [hheader]
  exact ⟨rfl, _, _, ct, hseal, hbody⟩

theorem opened_eq_ok (h : c.opened env record = .ok (innerType, content)) : ∃ key nonce aad,
      env.aeadOpen c.suite key nonce aad record.body = .ok (content ++ [innerType]) := by
  unfold opened at h
  cases hkeys : c.incomingKeys record.header.epoch.toNat with
  | error e =>
    rw [hkeys] at h
    cases h
  | ok keys =>
    rw [hkeys] at h
    replace h : openProtected env c.suite keys.key keys.iv record.header record.body = _ := h
    unfold openProtected at h
    cases hopen : env.aeadOpen c.suite keys.key (nonceFor keys.iv record.header.sequence)
        (buildAad record.header.contentType record.header.epoch record.header.sequence
          (UInt16.ofNat record.body.length)) record.body with
    | error e =>
      rw [hopen] at h
      cases h
    | ok plaintext =>
      rw [hopen] at h
      simp only [bind, Except.bind] at h
      split at h
      · cases h
      · rename_i last hlast
        cases h
        obtain ⟨front, rfl⟩ := getLast?_eq_some_iff.mp hlast
        rw [dropLast_concat]
        exact ⟨_, _, _, hopen⟩

theorem RecordOk.clear (h : RecordOk env sender sent)
    (hsplit : splitRecord recvCidLen (sent ++ rest) = .ok record)
    (hepoch : record.header.epoch = 0) : record.header.contentType = contentHandshake ∧
      ∀ parsed, parseHandshake record.body = .ok parsed →
        ∃ m, parsed = some m ∧ m.body.IsHello := by
  cases h with
  | @hello seq body msgSeq hbody =>
    rw [buildCleartext, append_assoc] at hsplit
    obtain ⟨hheader, htake⟩ := splitRecord_encode hsplit
    refine ⟨by rw [hheader], fun parsed hparse => ?_⟩
    -- the length in the header never reaches beyond the message
    have hshort : (UInt16.ofNat (HandshakeMessage.new body msgSeq).encode.length).toNat ≤
        (HandshakeMessage.new body msgSeq).encode.length := by
      rw [UInt16.toNat_ofNat']
      exact Nat.mod_le _ _
    rw [htake, take_append_of_le_length hshort] at hparse
    obtain ⟨m, hm, htype⟩ := parseHandshake_take hparse
    exact ⟨m, hm, HandshakeBody.isHello_of_msgType htype hbody⟩
  | handshake hbuild | data hbuild =>
    rw [(splitRecord_protected hbuild hsplit).1] at hepoch
    cases hepoch

theorem length_encode_new (body : HandshakeBody) (msgSeq : UInt16) :
    (HandshakeMessage.new body msgSeq).encode.length = body.bodyBytes.length + 12 := by
  simp [HandshakeMessage.encode, HandshakeMessage.new, fragmentHeader, Writer.u24]
  omega

/-- `c` opens the record `sent`, if the client built it under its handshake keys, to nothing but
what the client put into it, and then has the client's suite. -/
def ReadsBack (env : Crypto) (client c : Connection) (sent rest : Bytes) : Prop :=
  ∀ keys seq body msgSeq cid record innerType content, client.clientHs = some keys → Short body →
    buildProtected env client.suite keys.key keys.iv 1 seq contentApplicationData contentHandshake
      (HandshakeMessage.new body msgSeq).encode cid = .ok sent →
    splitRecord c.recvCidLen (sent ++ rest) = .ok record →
    c.opened env record = .ok (innerType, content) →
      content = (HandshakeMessage.new body msgSeq).encode ∧ c.suite = client.suite

/-- **A Finished that reaches a server is its client's**: one that came out of a record of
a client, in the middle of the handshake, concluded the handshake of that client. -/
theorem RecordOk.finished (hread : ReadsBack env sender c sent rest) (h : RecordOk env sender sent)
    (hsender : sender.role = .client) (hrole : c.role = .server) (happ : c.clientApp = none)
    (hsplit : splitRecord c.recvCidLen (sent ++ rest) = .ok record) {advance : ℕ} {bytes : Bytes}
    (hreceives : Receives env record c (.ok (advance, some bytes)) c')
    (hparse : parseHandshake bytes = .ok (some msg)) (hmsg : msg.body.msgType = .finished) :
    Concluded env sender msg ∧ c.suite = sender.suite := by
  cases hreceives with
  | cleartext hepoch =>
    obtain ⟨m, hm, hhello⟩ := (h.clear hsplit hepoch).2 _ hparse
    cases hm
    cases hbody : msg.body with
    | finished verifyData => rw [hbody] at hhello; exact hhello.elim
    | _ => rw [hbody] at hmsg; cases hmsg
  | handshake hepoch _ _ hopen =>
    cases h with
    | hello hbody =>
      rw [buildCleartext, append_assoc] at hsplit
      have hzero : record.header.epoch = 0 := by rw [(splitRecord_encode hsplit).1]
      rw [hzero] at hepoch
      exact absurd hepoch (by decide)
    | data hbuild =>
      -- before the end of the handshake the server has no keys for epoch 2
      have htwo := (splitRecord_protected hbuild hsplit).1
      rw [opened, incomingKeys, hrole, htwo] at hopen
      simp only [ConnectionRole.peer, trafficKeysOf] at hopen
      change (c.clientApp.elim _ _ >>= _ : Except DtlsError (UInt8 × Bytes)) = _ at hopen
      rw [happ] at hopen
      cases hopen
    | @handshake keys seq body msgSeq cid _ hbuild hclient =>
      obtain ⟨hkeys, hshort, hconcluded⟩ := hclient hsender
      obtain ⟨rfl, hsuite⟩ := hread _ _ _ _ _ _ _ _ hkeys hshort hbuild hsplit hopen
      refine ⟨?_, hsuite⟩
      have htype : msg.body.msgType = body.msgType := by
        obtain ⟨m, hm, htype⟩ := parseHandshake_take
          (n := (HandshakeMessage.new body msgSeq).encode.length) (by rwa [take_length])
        cases hm
        exact htype
      rw [hmsg] at htype
      cases body with
      | finished verifyData =>
        rw [parseHandshake_finished
          (by rw [Short] at hshort; exact lt_trans hshort (by decide))]
          at hparse
        cases hparse
        exact hconcluded rfl
      | _ => cases htype

theorem aeadOpen_plain {suite suite' : CipherSuite} {key key' aad aad' : Bytes}
    {nonce nonce' : FixedBytes 12} {plaintext plaintext' ct : Bytes}
    (hseal : Crypto.plain.aeadSeal suite key nonce aad plaintext = .ok ct)
    (hopen : Crypto.plain.aeadOpen suite' key' nonce' aad' ct = .ok plaintext') :
    suite' = suite ∧ plaintext' = plaintext := by
  cases hseal
  simp only [Crypto.plain] at hopen
  split at hopen
  · rename_i hsuffix
    have hlen : ∀ s, (plainTag s).length = 16 := fun s => by simp [plainTag]
    have htag : plainTag suite' = plainTag suite := by
      obtain ⟨front, hfront⟩ := hsuffix
      exact (append_inj' hfront (by rw [hlen, hlen])).2
    refine ⟨?_, ?_⟩
    · revert htag
      cases suite' <;> cases suite <;> decide
    · cases hopen
      simp [hlen]
  · cases hopen

/-- With the tag of `Crypto.plain` every record is read back. -/
theorem readsBack_plain (client c : Connection) (sent rest : Bytes) :
    ReadsBack .plain client c sent rest := by
  intro keys seq body msgSeq cid record innerType content _ hshort hbuild hsplit hopen
  obtain ⟨-, nonce, aad, ct, hseal, hbody⟩ := splitRecord_protected hbuild hsplit
  have hlen : ct.length = (HandshakeMessage.new body msgSeq).encode.length + 1 +
      client.suite.tagLen := by
    cases hseal
    simp [plainTag, CipherSuite.tagLen]
  have hfits : (HandshakeMessage.new body msgSeq).encode.length + 1 +
      client.suite.tagLen < 2 ^ 16 := by
    rw [length_encode_new, CipherSuite.tagLen]
    rw [Short] at hshort
    omega
  rw [UInt16.toNat_ofNat', Nat.mod_eq_of_lt hfits, ← hlen, take_left] at hbody
  obtain ⟨key', nonce', aad', hopen⟩ := opened_eq_ok hopen
  rw [hbody] at hopen
  obtain ⟨hsuite, htext⟩ := aeadOpen_plain hseal hopen
  exact ⟨(append_inj' htext rfl).1, hsuite⟩

/-! ## Datagrams that were processed before -/

def Refuses (c : Connection) (datagram : Bytes) : Prop :=
  ∀ record, splitRecord c.recvCidLen datagram = .ok record → 1 ≤ record.header.epoch →
    ∀ w, c.recvReplay[record.header.epoch.toNat]? = some w → ¬ w.Admits record.header.sequence

structure Onward (c c' : Connection) : Prop where
  recvCidLen : c'.recvCidLen = c.recvCidLen
  refuses : ∀ epoch sequence : ℕ,
    (∀ w : ReplayWindow, c.recvReplay[epoch]? = some w → ¬ w.Admits sequence) →
      ∀ w : ReplayWindow, c'.recvReplay[epoch]? = some w → ¬ w.Admits sequence

instance : IsPreorder Connection Onward where
  refl _ := ⟨rfl, fun _ _ h => h⟩
  trans _ _ _ h h' := ⟨h'.recvCidLen.trans h.recvCidLen, fun epoch sequence hrefuses =>
    h'.refuses epoch sequence (h.refuses epoch sequence hrefuses)⟩

theorem Refuses.onward {datagram : Bytes} (h : Refuses c datagram) (hnext : Onward c c') :
    Refuses c' datagram := by
  intro record hsplit hepoch
  rw [hnext.recvCidLen] at hsplit
  exact hnext.refuses _ _ (h record hsplit hepoch)

theorem onward_of_same (hcid : c'.recvCidLen = c.recvCidLen)
    (hwindows : c'.recvReplay = c.recvReplay) : Onward c c' :=
  ⟨hcid, fun epoch sequence h => by rw [hwindows]; exact h⟩

theorem onward_of_fixed (h : c'.fixed = c.fixed) : Onward c c' :=
  onward_of_same (congrArg Fixed.recvCidLen h) (congrArg Fixed.recvReplay h)

theorem onward_setWindow (hc : c.WindowsWellFormed) {epoch : ℕ} {window : ReplayWindow}
    (hwindow : c.recvReplay[epoch]? = some window) (sequence : ℕ) :
    Onward c (c.setWindow epoch (window.check sequence).2) := by
  refine ⟨rfl, fun epoch' sequence' hrefuses w hw => ?_⟩
  obtain ⟨hlt, -⟩ := List.getElem?_eq_some_iff.mp hwindow
  by_cases hsame : epoch = epoch'
  · subst hsame
    simp only [setWindow, getElem?_set_self hlt, Option.some.injEq] at hw
    subst hw
    exact ReplayWindow.not_admits_check (hc.wellFormed _ (mem_of_getElem? hwindow)) sequence
      (.inr (hrefuses window hwindow))
  · simp only [setWindow, getElem?_set_ne hsame] at hw
    exact hrefuses w hw

theorem Receives.onward
    (h : Receives env record c r c') (hc : c.WindowsWellFormed) : Onward c c' := by
  cases h with
  | cleartext => exact refl_of Onward c
  | ignored => exact refl_of Onward c
  | outOfRange => exact refl_of Onward c
  | data _ hwindow =>
    have hset := onward_setWindow hc hwindow record.header.sequence
    exact ⟨hset.recvCidLen, hset.refuses⟩
  | failed _ hwindow | refused _ hwindow | unopened _ hwindow => exact onward_setWindow hc hwindow _
  | handshake _ hwindow | other _ hwindow => exact onward_setWindow hc hwindow _

theorem Receives.taken (h : Receives env record c r c') (hc : c.WindowsWellFormed)
    (hepoch : 1 ≤ record.header.epoch) : ∀ w, c'.recvReplay[record.header.epoch.toNat]? = some w →
      ¬ w.Admits record.header.sequence := by
  have hset : ∀ {window}, c.recvReplay[record.header.epoch.toNat]? = some window →
      ∀ w, (c.setWindow record.header.epoch.toNat
        (window.check record.header.sequence).2).recvReplay[record.header.epoch.toNat]? = some w →
          ¬ w.Admits record.header.sequence := by
    intro window hwindow w hw
    obtain ⟨hlt, -⟩ := List.getElem?_eq_some_iff.mp hwindow
    simp only [setWindow, getElem?_set_self hlt, Option.some.injEq] at hw
    subst hw
    exact ReplayWindow.not_admits_check (hc.wellFormed _ (mem_of_getElem? hwindow)) _
      (.inl rfl)
  cases h with
  | cleartext h0 | ignored h0 => exact absurd h0 (epoch_ne_zero hepoch)
  | outOfRange _ hwindow =>
    intro w hw
    rw [hwindow] at hw
    cases hw
  | failed _ hwindow => exact hset hwindow
  | refused _ hwindow => exact hset hwindow
  | unopened _ hwindow => exact hset hwindow
  | handshake _ hwindow => exact hset hwindow
  | data _ hwindow => exact hset hwindow
  | other _ hwindow => exact hset hwindow

theorem onward_receiveAt (hc : c.WindowsWellFormed) (datagram : Bytes) (pos : ℕ) :
    Onward c (receiveAt env datagram pos c).2 :=
  receiveAt_induct (refl_of Onward c) (fun h => h.onward hc)
    (fun h hfixed => trans_of Onward h (onward_of_fixed hfixed)) datagram pos

theorem onward_receiveFrom (hc : c.WindowsWellFormed) (datagram : Bytes) (fuel pos : ℕ) :
    Onward c (receiveFrom env datagram fuel pos c).2 := by
  have hboth : (receiveFrom env datagram fuel pos c).2.WindowsWellFormed ∧
      Onward c (receiveFrom env datagram fuel pos c).2 :=
    receiveFrom_induct (I := fun _ c' => c'.WindowsWellFormed ∧ Onward c c')
      ⟨hc, refl_of Onward c⟩ fun _ p c₁ _ _ h => ⟨h.1.receiveAt env datagram p,
        trans_of Onward h.2 (onward_receiveAt h.1 datagram p)⟩
  exact hboth.2

theorem refuses_processDatagram (hc : c.WindowsWellFormed) (datagram : Bytes) :
    Refuses (processDatagram env datagram c).2 datagram := by
  intro record hsplit hepoch
  rw [show (processDatagram env datagram c).2.recvCidLen = c.recvCidLen from
    (onward_receiveFrom hc datagram _ 0).recvCidLen] at hsplit
  have hpos : 0 < datagram.length := by
    cases datagram with
    | nil => cases hsplit
    | cons _ _ => exact Nat.succ_pos _
  -- the first iteration takes the number, the others leave it taken
  have hfirst : ∀ w,
      (receiveAt env datagram 0 c).2.recvReplay[record.header.epoch.toNat]? = some w →
      ¬ w.Admits record.header.sequence := by
    rcases h : receiveAt env datagram 0 c with ⟨r, c'⟩
    obtain ⟨e, hno, -⟩ | ⟨record', hsplit', hcases⟩ := receiveAt_cases h
    · cases hsplit.symm.trans hno
    cases hsplit.symm.trans hsplit'
    rcases hcases with ⟨e, hreceives, -⟩ | ⟨advance, hreceives, -⟩ |
      ⟨advance, bytes, r', c₁, hreceives, hhandle, -⟩
    · exact hreceives.taken hc hepoch
    · exact hreceives.taken hc hepoch
    · have hsame : c'.recvReplay = c₁.recvReplay :=
        congrArg Fixed.recvReplay (handleHandshakeBytes_fixed hhandle).1
      rw [hsame]
      exact hreceives.taken hc hepoch
  have hnext := hc.receiveAt env datagram 0
  rcases h : receiveAt env datagram 0 c with ⟨r, c'⟩
  rw [h] at hfirst hnext
  cases r with
  | error e =>
    rw [processDatagram, (loop_of_error env datagram.length hpos h).1]
    exact hfirst
  | ok pos' =>
    rw [processDatagram, (loop_of_ok env datagram.length hpos h).1]
    exact (onward_receiveFrom hnext datagram _ pos').refuses _ _ hfirst

/-! ## Delivering a datagram again -/

structure SameHandshake (c c' : Connection) : Prop where
  transcript : c'.transcript = c.transcript
  clientHs : c'.clientHs = c.clientHs
  serverHs : c'.serverHs = c.serverHs
  clientApp : c'.clientApp = c.clientApp
  serverApp : c'.serverApp = c.serverApp
  handshakeSecret : c'.handshakeSecret = c.handshakeSecret
  state : c'.state = c.state
  connected : c'.connected = c.connected

theorem SameHandshake.of_quiet (h : Quiet c c') : SameHandshake c c' := by
  obtain ⟨windows, inbox, rfl⟩ := h
  exact ⟨rfl, rfl, rfl, rfl, rfl, rfl, rfl, rfl⟩

/-- A datagram can be delivered to `c` again: the handshake of `c` is over; or the
datagram starts in the clear and `c` waits for no hello; or it starts with a protected
record and is not longer than what the loop skips for it. -/
def RedeliveryOk (c : Connection) (datagram : Bytes) : Prop :=
  c.state ∈ connectedStates ∨
    ∀ record ∈ (splitRecord c.recvCidLen datagram).toOption,
      (record.header.epoch = 0 → c.state ∉ helloStates) ∧
        (1 ≤ record.header.epoch → datagram.length ≤ record.size + record.size)

instance (c : Connection) (datagram : Bytes) : Decidable (RedeliveryOk c datagram) :=
  inferInstanceAs (Decidable (_ ∨ _))

theorem onHandshakeMessage_hello (hbody : msg.body.IsHello) (hstate : c.state ∉ helloStates) :
    ∃ e, onHandshakeMessage env msg c = (.error e, c) := by
  rcases h : onHandshakeMessage env msg c with ⟨r, c'⟩
  cases dispatches h with
  | refused e => exact ⟨_, rfl⟩
  | hello _ hs => exact absurd hs hstate
  | extensions hother | certificate hother => rw [hother] at hbody; exact hbody.elim
  | certificateVerify hother | stalled hother => rw [hother] at hbody; exact hbody.elim
  | finished hother => rw [hother] at hbody; exact hbody.elim

theorem processDatagram_of_clear (hsent : RecordOk env sender sent)
    (hsplit : splitRecord c.recvCidLen (sent ++ rest) = .ok record)
    (hepoch : record.header.epoch = 0) (hstate : c.state ∉ helloStates) :
    (processDatagram env (sent ++ rest) c).2 = c := by
  have hpos : 0 < (sent ++ rest).length := by
    rcases hnil : sent ++ rest with _ | ⟨b, bytes⟩
    · rw [hnil] at hsplit
      cases hsplit
    · exact Nat.succ_pos _
  obtain ⟨htype, hhello⟩ := hsent.clear hsplit hepoch
  -- the only iteration ends in an error and leaves the connection alone
  obtain ⟨e, hfirst⟩ : ∃ e, receiveAt env (sent ++ rest) 0 c = (.error e, c) := by
    have hreceive : receiveRecord env record c = (.ok (record.size, some record.body), c) := by
      rw [receiveRecord, if_pos ⟨hepoch, htype⟩]
      rfl
    have hhandle : ∃ e, handleHandshakeBytes env record.body c = (.error e, c) := by
      unfold handleHandshakeBytes
      cases hparse : parseHandshake record.body with
      | error e => exact ⟨.error e, rfl⟩
      | ok parsed =>
        obtain ⟨m, rfl, hm⟩ := hhello parsed hparse
        exact onHandshakeMessage_hello hm hstate
    obtain ⟨e, hhandle⟩ := hhandle
    refine ⟨e, ?_⟩
    unfold receiveAt
    rw [Exec.get_bind, drop_zero, hsplit, Exec.bind_of_ok (Exec.lift_ok _ _),
      Exec.bind_of_ok hreceive]
    exact Exec.bind_of_error hhandle
  rw [processDatagram, (loop_of_error env _ hpos hfirst).1]

theorem sameHandshake_again {D : List Bytes} (hc : c.WindowsWellFormed)
    (hsent : ∀ r ∈ D, RecordOk env sender r) (hrefuses : Refuses c D.flatten)
    (hok : RedeliveryOk c D.flatten) : SameHandshake c (processDatagram env D.flatten c).2 := by
  rcases hok with hstate | hok
  · exact .of_quiet (quiet_processDatagram hstate _)
  have hsame : (processDatagram env D.flatten c).2 = c := by
    cases hsplit : splitRecord c.recvCidLen D.flatten with
    | error e =>
      by_cases hpos : 0 < D.flatten.length
      · have hfirst : receiveAt env D.flatten 0 c = (.error (.error e), c) := by
          unfold receiveAt
          rw [Exec.get_bind, drop_zero, hsplit]
          rfl
        rw [processDatagram, (loop_of_error env _ hpos hfirst).1]
      · rw [processDatagram, (loop_of_le env _ c (not_lt.mp hpos)).1]
    | ok record =>
      obtain ⟨hclear, hprotected⟩ := hok record (by rw [hsplit]; rfl)
      by_cases hepoch : record.header.epoch = 0
      · cases D with
        | nil => cases hsplit
        | cons sent D =>
          rw [flatten_cons] at hsplit ⊢
          exact processDatagram_of_clear (hsent sent mem_cons_self) hsplit hepoch
            (hclear hepoch)
      · have hone : 1 ≤ record.header.epoch := by
          rw [UInt16.le_iff_toNat_le]
          have hne : record.header.epoch.toNat ≠ 0 := fun h0 => hepoch (UInt16.toNat_inj.mp h0)
          simpa using Nat.one_le_iff_ne_zero.mpr hne
        exact processDatagram_of_not_admits hc hsplit hone (hrefuses record hsplit hone)
          (hprotected hone)
  rw [hsame]
  exact ⟨rfl, rfl, rfl, rfl, rfl, rfl, rfl, rfl⟩

end Connection

end TptRfc.Dtls
