import TptRfc.Ipsec.RoundTrip
import TptRfc.Ipsec.State

/-!
# IKEv2: the handshake

A handshake between honest parties fails with its first message.
-/

namespace TptRfc.Ipsec

open Lib Access List

variable {checks : Bool} {c : Crypto}

/-! ## Messages that are built -/

theorem decodeOne_append {ptype next : PayloadType} {body rest : Bytes} (hfour : 4 ≤ body.length)
    (hmod : body.length % 4 = 0) (hshort : body.length < 2 ^ 16) :
    decodeOne checks (payloadHeader next false body.length ++ body ++ rest) ptype =
      decodeBody checks ptype next false (body.take (body.length - 4)) >>= fun p =>
        pure (p, next) := by
  have hflat : payloadHeader next false body.length ++ body ++ rest =
      [next.toU8, 0] ++ (asU16 body.length ++ (body ++ rest)) := by
    simp only [payloadHeader, append_assoc, Bool.false_eq_true, if_false]
  have hlen : (payloadHeader next false body.length ++ body ++ rest).length =
      4 + body.length + rest.length := by
    rw [hflat]
    simp only [length_append, asU16, length_u16Bytes, length_cons, length_nil]
    omega
  have hread := getU16_asU16 hshort next.toU8 0 (body ++ rest)
  rw [← hflat] at hread
  rw [decodeOne, payloadHeaderLen, if_neg (by omega), byteAt_of_lt (by omega), ok_bind]
  rw [show (payloadHeader next false body.length ++ body ++ rest).getD 0 0 = next.toU8 from rfl,
    PayloadType.fromU8_toU8, okOr, ok_bind, byteAt_of_lt (by omega), ok_bind,
    u16At_of_lt (by omega), ok_bind]
  rw [hread, if_neg (by omega), if_neg (by omega), slice_of_le hfour (by omega), ok_bind]
  rw [show (payloadHeader next false body.length ++ body ++ rest).drop 4 = body ++ rest from rfl,
    show (payloadHeader next false body.length ++ body ++ rest).getD 1 0 = 0 from rfl,
    take_append_of_le_length (Nat.sub_le ..)]
  rfl

def initSaBody : Bytes :=
  [0, 0, 0, 52, 1, 1, 0, 5, 3, 0, 0, 12, 1, 0, 0, 12, 0, 14, 0, 128, 3, 0, 0, 8, 2, 0, 0, 2,
    3, 0, 0, 8, 3, 0, 0, 12, 3, 0, 0, 8, 4, 0, 0, 31, 0, 0, 0, 8, 5, 0, 0, 0]

theorem encodeSaBody_default : encodeSaBody checks ⟨[defaultIkeProposal]⟩ = some initSaBody := by
  cases checks <;> decide +kernel

theorem decodeSaBody_init : decodeSaBody (initSaBody.take (initSaBody.length - 4)) =
      .error (.error (.truncated 52 48)) := by
  decide +kernel

theorem keyLen_le (group : DhGroup) : group.keyLen ≤ 512 := by
  cases group <;> decide

variable {bytes gir peer : Bytes} {header : Header} {auth : AuthConfig} {idI idR : IdPayload}

theorem messageDecode_init {group : DhGroup} {publicKey nonce : Bytes}
    (hkey : publicKey.length ≤ 512) (hnonce : nonce.length ≤ 512)
    (henc : encoded checks ⟨header, initPayloads group publicKey nonce⟩ = .ok bytes) :
    Message.decode checks bytes = .error (.error (.truncated 52 48)) := by
  -- the SA payload, and the other two behind it
  let ke := encodeKeBody ⟨group, publicKey⟩
  let rest := payloadHeader .nonce false ke.length ++ ke ++
    (payloadHeader .none false nonce.length ++ nonce ++ [])
  let body := payloadHeader .ke false initSaBody.length ++ initSaBody ++ rest
  have hbody : encodePayloads checks (initPayloads group publicKey nonce) = some body := by
    rw [initPayloads, encodePayloads, encodePayload, payloadBody, encodeSaBody_default]
    rfl
  have hlen : body.length < 2 ^ 16 := by
    simp only [body, rest, ke, encodeKeBody, payloadHeader, asU16, length_append,
      length_u16Bytes, length_cons, length_nil]
    have : initSaBody.length = 52 := rfl
    omega
  rw [encoded, Message.encode, hbody] at henc
  cases henc
  have htotal : (UInt32.ofNat (ikeHeaderLen + body.length)).toNat = ikeHeaderLen + body.length :=
    UInt32.toNat_ofNat_of_lt' (by rw [ikeHeaderLen, UInt32.size]; omega)
  rw [messageDecode_append checks _ _ (by dsimp only; rw [htotal])]
  dsimp only
  rw [htotal, Nat.add_sub_cancel_left, take_length, decodeChain,
    if_pos ⟨by rintro ⟨⟩, cons_ne_nil _ _⟩,
    decodeOne_append (by decide) (by decide) (by decide)]
  change ((Payload.sa <$> decodeSaBody _ >>= _) >>= _) >>= _ = _
  rw [decodeSaBody_init]
  rfl

theorem messageDecode_sk {sk : EncryptedPayload}
    (henc : encoded checks ⟨header, [.sk sk]⟩ = .ok bytes) :
    Message.decode checks bytes = .error (.error (.badPayloadLength 0)) := by
  have hbody : encodePayloads checks [.sk sk] = some [0, 0, 0, 0] := rfl
  rw [encoded, Message.encode, hbody] at henc
  cases henc
  rw [messageDecode_append checks _ _ (show (32 : UInt32).toNat ≤ _ by decide)]
  dsimp only
  rfl

/-! ## The methods that build messages -/

open Exec IkeInitiator IkeResponder

def IkeParty.initiatorPart (s : IkeParty) : SaParams × AuthConfig × Dh × FixedBytes 8 × Bytes :=
  (s.params, s.auth, s.dh, s.spiI, s.ni)

def IkeParty.responderPart (s : IkeParty) : SaParams × AuthConfig × Dh × FixedBytes 8 × Bytes :=
  (s.params, s.auth, s.dh, s.spiR, s.nr)

variable {part : SaParams × AuthConfig × Dh × FixedBytes 8 × Bytes} {b : Bool}

def InitiatorWith (part : SaParams × AuthConfig × Dh × FixedBytes 8 × Bytes) (b : Bool)
    (s : IkeParty) : Prop :=
  s.initiatorPart = part ∧ s.established = b

def ResponderWith (part : SaParams × AuthConfig × Dh × FixedBytes 8 × Bytes) (b : Bool)
    (s : IkeParty) : Prop :=
  s.responderPart = part ∧ s.established = b

variable {s i r : IkeParty} {random : SealRandom} {resp req : Message} {params : SaParams}

theorem stops_of_triple {α : Type} {P : IkeParty → Prop} {x : Method α}
    (h : Triple P x (fun _ _ => False) P) (hs : P s) :
    P (x s).2 ∧ ∃ e, (x s).1 = .error e := by
  rcases hx : x s with ⟨r, s'⟩
  cases r with
  | ok a => exact absurd (h.ok hs hx) id
  | error e => exact ⟨h.error hs hx, e, rfl⟩

theorem triple_ikeSaInitRequest (hni : part.2.2.2.2.length ≤ 512) :
    Triple (InitiatorWith part b) (ikeSaInitRequest checks) (fun _ _ => False)
      (InitiatorWith part b) := by
  refine .get_bind fun s hs => .call_bind (fun _ => id) fun bytes hbytes =>
    .call_bind (fun _ => id) fun real _ => .modify_bind (fun _ => id) <| ?_
  refine .call (fun m s' hm => ?_) fun _ => id
  have hs' : s.ni.length ≤ 512 := by rw [← hs.1] at hni; exact hni
  rw [messageDecode_init (by simpa using keyLen_le _) hs' hbytes] at hm
  cases hm

theorem triple_initiatorAfterKeys {P : IkeParty → Prop}
    (hreal : ∀ s real, P s → P { s with realInitResponse := real })
    (hid : ∀ s, P s → P { s with messageId := 1 }) :
    Triple P (IkeInitiator.afterKeys checks c random resp) (fun _ _ => False) P := by
  refine .call_bind (fun _ => id) fun sake _ => .call_bind (fun _ => id) fun real _ =>
    .modify_bind (fun s => hreal s real) <| .modify_bind hid <| .get_bind fun s _ =>
    .call_bind (fun _ => id) fun inner _ => .call_bind (fun _ => id) fun auth _ =>
    .call_bind (fun _ => id) fun sk _ => .call (fun m s' hm => ?_) fun _ => id
  obtain ⟨bytes, hbytes, hm⟩ := bind_eq_ok_iff.mp hm
  rw [messageDecode_sk hbytes] at hm
  cases hm

theorem triple_onInitResponse :
    Triple (InitiatorWith part b) (onInitResponse checks c random resp) (fun _ _ => False)
      (InitiatorWith part b) := by
  refine .get_bind fun s hs => ?_
  split
  · exact .fail _ fun _ => id
  · exact .modify_bind (fun _ => id) <| .call_bind (fun _ => id) fun nr _ =>
      .modify_bind (fun _ => id) <| .call_bind (fun _ => id) fun peer _ =>
      .modify_bind (fun _ => id) <| .call_bind (fun _ => id) fun gir _ =>
      .modify_bind (fun _ => id) <| triple_initiatorAfterKeys (fun _ _ => id) fun _ => id

theorem triple_responderAfterKeys {P : IkeParty → Prop}
    (hreq : ∀ s real, P s → P { s with realInitRequest := real })
    (hresp : ∀ s real, P s → P { s with realInitResponse := real })
    (hnr : ∀ s, P s → s.nr.length ≤ 512) :
    Triple P (IkeResponder.afterKeys checks req) (fun _ _ => False) P := by
  refine .call_bind (fun _ => id) fun sake _ => .call_bind (fun _ => id) fun real _ =>
    .modify_bind (fun s => hreq s real) <| .get_bind fun s hs =>
    .call_bind (fun _ => id) fun bytes hbytes => .call_bind (fun _ => id) fun real' _ =>
    .modify_bind (fun s => hresp s real') <| .call (fun m s' hm => ?_) fun _ => id
  rw [messageDecode_init (by simpa using keyLen_le _) (hnr s hs) hbytes] at hm
  cases hm

theorem triple_onInitRequest (hnr : part.2.2.2.2.length ≤ 512) :
    Triple (ResponderWith part b) (onInitRequest checks c req) (fun _ _ => False)
      (ResponderWith part b) := by
  refine .modify_bind (fun _ => id) <| .call_bind (fun _ => id) fun ni _ =>
    .modify_bind (fun _ => id) <| .call_bind (fun _ => id) fun peer _ =>
    .modify_bind (fun _ => id) <| .get_bind fun s hs =>
    .call_bind (fun _ => id) fun gir _ => .modify_bind (fun _ => id) <|
    triple_responderAfterKeys (fun _ _ => id) (fun _ _ => id) fun s hs => ?_
  rw [← hs.1] at hnr
  exact hnr

theorem triple_onAuthRequest :
    Triple (fun s => s.responderPart = part) (onAuthRequest checks c random req) (fun _ _ => False)
      (fun s => s.responderPart = part) := by
  refine .get_bind fun s _ => .call_bind (fun _ => id) fun idiBytes _ =>
    .call_bind (fun _ => id) fun data _ => .modify_bind (fun _ => id) <| .get_bind fun s _ =>
    .call_bind (fun _ => id) fun inner _ => .call_bind (fun _ => id) fun auth _ =>
    .call_bind (fun _ => id) fun sk _ => .call_bind (fun _ => id) fun bytes hbytes =>
    .modify_bind (fun _ => id) <| .call_bind (fun _ => id) fun msg hmsg => ?_
  rw [messageDecode_sk hbytes] at hmsg
  cases hmsg

theorem keeps_onAuthResponse :
    Keeps (fun s => s.initiatorPart = part) (onAuthResponse checks c resp) := by
  unfold onAuthResponse
  split
  · exact .fail _ fun _ => id
  · exact .call_bind (fun _ => id) fun sake _ => .call_bind (fun _ => id) fun real _ =>
      .modify_bind (fun _ => id) <| .get_bind fun s _ => .call_bind (fun _ => id) fun idBytes _ =>
      .modify_bind (fun _ => id) <| .get_bind fun s _ => .pure _ fun _ => id

/-! ## Authentication -/

def Opens (checks : Bool) (c : Crypto) (s : IkeParty) (msg : Message) (inner : List Payload) :
    Prop :=
  ∃ sk key salt, .sk sk ∈ msg.payloads ∧ splitSalt s.params.encr s.keys.skEi = .ok (key, salt) ∧
    sk.decrypt c checks s.params.encr s.params.integ msg.header key s.keys.skAi salt = .ok inner

def AuthVerified (checks : Bool) (c : Crypto) (s : IkeParty) (msg : Message) : Prop :=
  ∃ inner a, Opens checks c s msg inner ∧ .auth a ∈ inner ∧
    match s.auth with
    | .psk key => a.data = (c.prf s.params.prf key (s.ni ++ s.nr)).val
    | .ed25519 _ peerPublic => ∃ isInitiator idBytes data,
        s.signedData checks c isInitiator idBytes = .ok data ∧
          c.verify peerPublic data a.data = .ok ()

theorem okOr_eq_ok {α : Type} {o : Option α} {e : Error} {a : α} (h : okOr o e = .ok a) :
    o = some a := by
  cases o with
  | none => cases h
  | some a =>
    cases h
    rfl

theorem authVerified_of_openAuth {msg : Message} {which : PayloadType} {isInitiator : Bool}
    {idBytes : Bytes} (h : s.openAuth checks c msg which isInitiator = .ok idBytes) :
    AuthVerified checks c s msg := by
  simp only [IkeParty.openAuth, bind_eq_ok_iff] at h
  obtain ⟨sk, hsk, ⟨key, salt⟩, hkey, inner, hinner, id, -, expected, hexpected, a, ha, _, hverify,
    -⟩ := h
  have hmemSk : .sk sk ∈ msg.payloads := by
    obtain ⟨p, hp, heq⟩ := exists_of_findSome?_eq_some (okOr_eq_ok hsk)
    cases p <;> cases heq
    exact hp
  have hmemAuth : .auth a ∈ inner := by
    obtain ⟨p, hp, heq⟩ := exists_of_findSome?_eq_some (okOr_eq_ok ha)
    cases p <;> cases heq
    exact hp
  refine ⟨inner, a, ⟨sk, key, salt, hmemSk, hkey, hinner⟩, hmemAuth, ?_⟩
  unfold IkeParty.computeAuthPeer at hexpected
  unfold verifyAuth at hverify
  cases hauth : s.auth with
  | psk psk =>
    rw [hauth] at hexpected hverify
    cases hexpected
    dsimp only at hverify ⊢
    split at hverify
    · rename_i heq
      exact heq.symm
    · cases hverify
  | ed25519 own peer =>
    rw [hauth] at hexpected hverify
    exact ⟨isInitiator, id, expected, hexpected, hverify⟩

theorem onAuthRequest_established (hs : s.established = false)
    (h : (onAuthRequest checks c random req s).2.established = true) :
    AuthVerified checks c s req := by
  cases hopen : s.openAuth checks c req .idi true with
  | ok idBytes => exact authVerified_of_openAuth hopen
  | error e =>
    have hstop : onAuthRequest checks c random req s = (.error e, s) := by
      rw [onAuthRequest, get_bind, hopen]
      rfl
    rw [hstop, hs] at h
    cases h

theorem onAuthResponse_established (hs : s.established = false)
    (h : (onAuthResponse checks c resp s).2.established = true) :
    ∃ real, AuthVerified checks c { s with realInitResponse := real } resp := by
  -- until the payload is verified, only `realInitResponse` changes
  let Before (t : IkeParty) := ∃ real, t = { s with realInitResponse := real }
  let After (t : IkeParty) :=
    t.established = true → ∃ real, AuthVerified checks c { s with realInitResponse := real } resp
  have hquiet (t : IkeParty) : Before t → After t := by
    rintro ⟨real, rfl⟩ h
    rw [hs] at h
    cases h
  have hrun : Triple Before (onAuthResponse checks c resp) (fun _ => After) After := by
    unfold onAuthResponse
    split
    · exact .fail _ hquiet
    · refine .call_bind hquiet fun sake _ => .call_bind hquiet fun real _ =>
        .modify_bind ?_ <| .get_bind fun t ht => .call_bind hquiet fun idBytes hopen => ?_
      · rintro t ⟨_, rfl⟩
        exact ⟨real, rfl⟩
      · obtain ⟨real', rfl⟩ := ht
        exact .of_moves fun _ _ _ _ _ _ => ⟨real', authVerified_of_openAuth hopen⟩
  exact hrun.moves ⟨s.realInitResponse, rfl⟩ rfl h

/-! ## Runs -/

inductive InitiatorCall where
  | ikeSaInitRequest
  | onInitResponse (random : SealRandom) (resp : Message)
  | onAuthResponse (resp : Message)

def InitiatorCall.apply (checks : Bool) (c : Crypto) (s : IkeParty) : InitiatorCall → IkeParty
  | ikeSaInitRequest => (IkeInitiator.ikeSaInitRequest checks s).2
  | onInitResponse random resp => (IkeInitiator.onInitResponse checks c random resp s).2
  | onAuthResponse resp => (IkeInitiator.onAuthResponse checks c resp s).2

inductive ResponderCall where
  | onInitRequest (req : Message)
  | onAuthRequest (random : SealRandom) (req : Message)

def ResponderCall.apply (checks : Bool) (c : Crypto) (s : IkeParty) : ResponderCall → IkeParty
  | onInitRequest req => (IkeResponder.onInitRequest checks c req s).2
  | onAuthRequest random req => (IkeResponder.onAuthRequest checks c random req s).2

theorem exists_call_of_foldl {σ κ : Type} {step : σ → κ → σ} {E : σ → Prop} {calls : List κ}
    {s : σ} (hs : ¬ E s) (h : E (calls.foldl step s)) :
    ∃ before call after, calls = before ++ call :: after ∧ ¬ E (before.foldl step s) ∧
      E (step (before.foldl step s) call) := by
  induction calls generalizing s with
  | nil => exact absurd h hs
  | cons call calls ih =>
    by_cases hcall : E (step s call)
    · exact ⟨[], call, calls, rfl, hs, hcall⟩
    · obtain ⟨before, call', after, rfl, hbefore, hafter⟩ := ih hcall h
      exact ⟨call :: before, call', after, rfl, hbefore, hafter⟩

variable (checks c)

theorem initiatorPart_apply (hni : s.ni.length ≤ 512) (call : InitiatorCall) :
    (call.apply checks c s).initiatorPart = s.initiatorPart := by
  cases call with
  | ikeSaInitRequest => exact (stops_of_triple (triple_ikeSaInitRequest hni) ⟨rfl, rfl⟩).1.1
  | onInitResponse random resp => exact (stops_of_triple triple_onInitResponse ⟨rfl, rfl⟩).1.1
  | onAuthResponse resp => exact keeps_onAuthResponse.moves rfl rfl

theorem responderPart_apply (hnr : s.nr.length ≤ 512) (call : ResponderCall) :
    (call.apply checks c s).responderPart = s.responderPart := by
  cases call with
  | onInitRequest req => exact (stops_of_triple (triple_onInitRequest hnr) ⟨rfl, rfl⟩).1.1
  | onAuthRequest random req => exact (stops_of_triple triple_onAuthRequest rfl).1

theorem foldl_part {κ π : Type} {step : IkeParty → κ → IkeParty} {part : IkeParty → π}
    {P : π → Prop} (hstep : ∀ s call, P (part s) → part (step s call) = part s) (calls : List κ)
    (hs : P (part s)) : part (calls.foldl step s) = part s := by
  induction calls generalizing s with
  | nil => rfl
  | cons call calls ih =>
    have hcall := hstep s call hs
    rw [foldl_cons, ih (hcall ▸ hs), hcall]

theorem initiator_verified_of_apply (hs : s.established = false)
    (hni : s.ni.length ≤ 512) {call : InitiatorCall}
    (h : (call.apply checks c s).established = true) : ∃ resp real, call = .onAuthResponse resp ∧
      AuthVerified checks c { s with realInitResponse := real } resp := by
  cases call with
  | ikeSaInitRequest =>
    have hkept : InitiatorWith s.initiatorPart s.established (ikeSaInitRequest checks s).2 :=
      (stops_of_triple (triple_ikeSaInitRequest hni) ⟨rfl, rfl⟩).1
    exact absurd (h.symm.trans (hkept.2.trans hs)) nofun
  | onInitResponse random resp =>
    have hkept : InitiatorWith s.initiatorPart s.established
        (onInitResponse checks c random resp s).2 :=
      (stops_of_triple triple_onInitResponse ⟨rfl, rfl⟩).1
    exact absurd (h.symm.trans (hkept.2.trans hs)) nofun
  | onAuthResponse resp =>
    obtain ⟨real, hverified⟩ := onAuthResponse_established hs h
    exact ⟨resp, real, rfl, hverified⟩

theorem responder_verified_of_apply (hs : s.established = false) (hnr : s.nr.length ≤ 512)
    {call : ResponderCall} (h : (call.apply checks c s).established = true) :
    ∃ random req, call = .onAuthRequest random req ∧ AuthVerified checks c s req := by
  cases call with
  | onInitRequest req =>
    have hkept : ResponderWith s.responderPart s.established (onInitRequest checks c req s).2 :=
      (stops_of_triple (triple_onInitRequest hnr) ⟨rfl, rfl⟩).1
    exact absurd (h.symm.trans (hkept.2.trans hs)) nofun
  | onAuthRequest random req =>
    exact ⟨random, req, rfl, onAuthRequest_established hs h⟩

theorem exists_establishing {κ π : Type} {step : IkeParty → κ → IkeParty} {part : IkeParty → π}
    {P : π → Prop} (hstep : ∀ s call, P (part s) → part (step s call) = part s) {calls : List κ}
    (hs : s.established = false) (hP : P (part s)) (h : (calls.foldl step s).established = true) :
    ∃ before call after, calls = before ++ call :: after ∧
      part (before.foldl step s) = part s ∧ P (part (before.foldl step s)) ∧
      (before.foldl step s).established = false ∧
      (step (before.foldl step s) call).established = true := by
  obtain ⟨before, call, after, rfl, hbefore, hafter⟩ := exists_call_of_foldl
    (E := fun t : IkeParty => t.established = true) (by rw [hs]; exact nofun) h
  have hpart := foldl_part hstep before hP
  exact ⟨before, call, after, rfl, hpart, hpart ▸ hP, Bool.eq_false_iff.mpr hbefore, hafter⟩

theorem initiator_verified (hs : s.established = false) (hni : s.ni.length ≤ 512)
    {calls : List InitiatorCall}
    (h : (calls.foldl (InitiatorCall.apply checks c) s).established = true) :
    ∃ before resp after real, calls = before ++ .onAuthResponse resp :: after ∧
      let t := before.foldl (InitiatorCall.apply checks c) s
      t.initiatorPart = s.initiatorPart ∧
        AuthVerified checks c { t with realInitResponse := real } resp := by
  obtain ⟨before, call, after, rfl, hpart, hni', hquiet, hcall⟩ :=
    exists_establishing (P := fun part => part.2.2.2.2.length ≤ 512)
      (fun _ call hni => initiatorPart_apply checks c hni call) hs hni h
  obtain ⟨resp, real, rfl, hverified⟩ := initiator_verified_of_apply checks c hquiet hni' hcall
  exact ⟨before, resp, after, real, rfl, hpart, hverified⟩

theorem responder_verified (hs : s.established = false) (hnr : s.nr.length ≤ 512)
    {calls : List ResponderCall}
    (h : (calls.foldl (ResponderCall.apply checks c) s).established = true) :
    ∃ before random req after, calls = before ++ .onAuthRequest random req :: after ∧
      let t := before.foldl (ResponderCall.apply checks c) s
      t.responderPart = s.responderPart ∧ AuthVerified checks c t req := by
  obtain ⟨before, call, after, rfl, hpart, hnr', hquiet, hcall⟩ :=
    exists_establishing (P := fun part => part.2.2.2.2.length ≤ 512)
      (fun _ call hnr => responderPart_apply checks c hnr call) hs hnr h
  obtain ⟨random, req, rfl, hverified⟩ := responder_verified_of_apply checks c hquiet hnr' hcall
  exact ⟨before, random, req, after, rfl, hpart, hverified⟩

/-! ## The honest handshake -/

def onInitiator {α : Type} (x : Method α) : Exec (IkeParty × IkeParty) Error α := fun s =>
  ((x s.1).1, ((x s.1).2, s.2))

def onResponder {α : Type} (x : Method α) : Exec (IkeParty × IkeParty) Error α := fun s =>
  ((x s.2).1, (s.1, (x s.2).2))

def handshake (initiatorRandom responderRandom : SealRandom) :
    Exec (IkeParty × IkeParty) Error (IkeSa × IkeSa) := do
  let initRequest ← onInitiator (ikeSaInitRequest checks)
  let initResponse ← onResponder (onInitRequest checks c initRequest)
  let authRequest ← onInitiator (onInitResponse checks c initiatorRandom initResponse)
  let (authResponse, responderSa) ← onResponder (onAuthRequest checks c responderRandom authRequest)
  let initiatorSa ← onInitiator (onAuthResponse checks c authResponse)
  pure (initiatorSa, responderSa)

def Agrees (out : Decoded (IkeSa × IkeSa) × (IkeParty × IkeParty)) : Prop :=
  ∃ initiatorSa responderSa, out.1 = .ok (initiatorSa, responderSa) ∧
    out.2.1.established = true ∧ out.2.2.established = true ∧
    initiatorSa.keys.skD = responderSa.keys.skD ∧
    initiatorSa.childKeymat = responderSa.childKeymat

theorem handshake_fails (initiatorRandom responderRandom : SealRandom)
    (hi : i.established = false) (hni : i.ni.length ≤ 512) :
    ∃ e i', handshake checks c initiatorRandom responderRandom (i, r) = (.error e, (i', r)) ∧
      i'.established = false := by
  have htriple : Triple (InitiatorWith i.initiatorPart false) (ikeSaInitRequest checks) _ _ :=
    triple_ikeSaInitRequest hni
  obtain ⟨hkept, e, he⟩ := stops_of_triple htriple ⟨rfl, hi⟩
  refine ⟨e, (ikeSaInitRequest checks i).2, ?_, hkept.2⟩
  have hfirst : onInitiator (ikeSaInitRequest checks) (i, r) =
      (.error e, ((ikeSaInitRequest checks i).2, r)) := by
    rw [onInitiator, he]
  rw [handshake, bind_of_error hfirst]

/-! ## Agreement on keys -/

/-- The two shared secrets of an exchange agree.  The group `modp1536` is left out: the constant
of the source has 2432 bits and public values are cut to 192 bytes, so its secrets differ. -/
structure Crypto.Lawful (c : Crypto) : Prop where
  shared_comm : ∀ {group random random' a b}, group ≠ .modp1536 →
    c.generate group random = .ok a → c.generate group random' = .ok b →
    ∃ gir, c.shared a b.publicKey.val = .ok gir ∧ c.shared b a.publicKey.val = .ok gir

theorem initiator_new_eq_ok
    {random : PartyRandom} (h : IkeInitiator.new c params auth idI random = .ok i) :
    i.params = params ∧ c.generate params.dh random.dh = .ok i.dh ∧ i.ni.length ≤ 512 ∧
      i.established = false := by
  obtain ⟨dh, hdh, h⟩ := bind_eq_ok_iff.mp h
  cases h
  refine ⟨rfl, hdh, ?_, rfl⟩
  rw [random.nonce.length_val]
  decide

theorem responder_new_eq_ok
    {random : PartyRandom} (h : IkeResponder.new c params auth idR random = .ok r) :
    r.params = params ∧ c.generate params.dh random.dh = .ok r.dh ∧ r.nr.length ≤ 512 ∧
      r.established = false := by
  obtain ⟨dh, hdh, h⟩ := bind_eq_ok_iff.mp h
  cases h
  refine ⟨rfl, hdh, ?_, rfl⟩
  rw [random.nonce.length_val]
  decide

/-- What the child SA of a party is computed from. -/
def IkeParty.material (s : IkeParty) : SaParams × Bytes × Bytes × IkeSaKeys :=
  (s.params, s.ni, s.nr, s.keys)

theorem material_onInitRequest {ni : Bytes}
    (hni : extractNonce req.payloads = .ok ni) (hke : extractKe req.payloads = .ok peer)
    (hgir : c.shared s.dh peer = .ok gir) (hnr : s.nr.length ≤ 512) :
    (onInitRequest checks c req s).2.material =
      (s.params, ni, s.nr, deriveKeys c s.params ni s.nr req.header.spiI s.spiR gir) := by
  simp only [onInitRequest, hni, hke]
  change IkeParty.material ((Exec.call (c.shared s.dh peer) >>= fun gir => _) _).2 = _
  rw [hgir]
  refine (stops_of_triple (P := (IkeParty.material · = _))
    (triple_responderAfterKeys (fun _ _ => id) (fun _ _ => id) fun t ht => ?_) rfl).1
  rwa [show t.nr = s.nr from congrArg (·.2.2.1) ht]

theorem material_onInitResponse (random : SealRandom) {nr : Bytes}
    (hspi : resp.header.spiI = s.spiI)
    (hnr : extractNonce resp.payloads = .ok nr) (hke : extractKe resp.payloads = .ok peer)
    (hgir : c.shared s.dh peer = .ok gir) :
    (onInitResponse checks c random resp s).2.material =
      (s.params, s.ni, nr, deriveKeys c s.params s.ni nr s.spiI resp.header.spiR gir) := by
  simp only [onInitResponse, hnr, hke, get_bind, ne_eq, hspi, not_true_eq_false, if_false]
  change IkeParty.material ((Exec.call (c.shared s.dh peer) >>= fun gir => _) _).2 = _
  rw [hgir]
  exact (stops_of_triple (P := (IkeParty.material · = _))
    (triple_initiatorAfterKeys (fun _ _ => id) fun _ => id) rfl).1

structure Carries (msg : Message) (spiI : FixedBytes 8) (nonce publicKey : Bytes) : Prop where
  spi : msg.header.spiI = spiI
  nonce : extractNonce msg.payloads = .ok nonce
  ke : extractKe msg.payloads = .ok publicKey

/-- **Both parties derive the same keys** from messages that carry the SPIs, nonces and public
values of the other. -/
theorem keys_agree (hc : c.Lawful) (hgroup : params.dh ≠ .modp1536) {authI authR : AuthConfig}
    {randomI randomR : PartyRandom}
    (hi : IkeInitiator.new c params authI idI randomI = .ok i)
    (hr : IkeResponder.new c params authR idR randomR = .ok r)
    (hreq : Carries req i.spiI i.ni i.dh.publicKey.val)
    (hresp : Carries resp i.spiI r.nr r.dh.publicKey.val) (hspi : resp.header.spiR = r.spiR)
    (random : SealRandom) :
    let saI := (onInitResponse checks c random resp i).2.toEstablished c true
    let saR := (onInitRequest checks c req r).2.toEstablished c false
    saI.keys = saR.keys ∧ saI.childKeymat = saR.childKeymat := by
  obtain ⟨hpi, hdhI, -, -⟩ := initiator_new_eq_ok c hi
  obtain ⟨hpr, hdhR, hnr, -⟩ := responder_new_eq_ok c hr
  obtain ⟨gir, hgirI, hgirR⟩ := hc.shared_comm hgroup hdhI hdhR
  have hI := material_onInitResponse checks c random hresp.spi hresp.nonce hresp.ke hgirI
  have hR := material_onInitRequest checks c hreq.nonce hreq.ke hgirR hnr
  rw [hspi, hpi] at hI
  rw [hreq.spi, hpr] at hR
  simp only [IkeParty.material, Prod.mk.injEq] at hI hR
  simp only [IkeParty.toEstablished, hI, hR, and_self]

/-- A handshake between honest parties does not lead to agreement: it fails, with neither party
established. -/
theorem handshake_never_agrees (params : SaParams) (authI authR : AuthConfig)
    (idI idR : IdPayload) (randomI randomR : PartyRandom) (i r : IkeParty)
    (hi : IkeInitiator.new c params authI idI randomI = .ok i)
    (hr : IkeResponder.new c params authR idR randomR = .ok r) :
    (∀ initiatorRandom responderRandom,
      let out := handshake checks c initiatorRandom responderRandom (i, r)
      ¬ Agrees out ∧ out.2.1.established = false ∧ out.2.2.established = false) ∧
    (∀ calls, (calls.foldl (InitiatorCall.apply checks c) i).established = true →
      ∃ before resp after real, calls = before ++ .onAuthResponse resp :: after ∧
        let t := before.foldl (InitiatorCall.apply checks c) i
        t.initiatorPart = i.initiatorPart ∧
          AuthVerified checks c { t with realInitResponse := real } resp) ∧
    (∀ calls, (calls.foldl (ResponderCall.apply checks c) r).established = true →
      ∃ before random req after, calls = before ++ .onAuthRequest random req :: after ∧
        let t := before.foldl (ResponderCall.apply checks c) r
        t.responderPart = r.responderPart ∧ AuthVerified checks c t req) := by
  obtain ⟨-, -, hni, hquietI⟩ := initiator_new_eq_ok c hi
  obtain ⟨-, -, hnr, hquietR⟩ := responder_new_eq_ok c hr
  refine ⟨fun initiatorRandom responderRandom => ?_, fun calls h => ?_, fun calls h => ?_⟩
  · obtain ⟨e, i', hout, hi'⟩ :=
      handshake_fails checks c initiatorRandom responderRandom (r := r) hquietI hni
    dsimp only
    rw [hout]
    refine ⟨?_, hi', hquietR⟩
    rintro ⟨_, _, h, -⟩
    cases h
  · exact initiator_verified checks c hquietI hni h
  · exact responder_verified checks c hquietR hnr h

/-! ## A handshake -/

/-- Primitives that depend on all they are given: a secret is a product of two sums of bytes. -/
def Crypto.plain : Crypto where
  prf id key data := padTo id.outputLen (data ++ key)
  mac id key data := padTo id.keyLen (data ++ key)
  cbcEncrypt _ _ iv plaintext := .ok (iv ++ plaintext)
  cbcDecrypt _ _ iv ciphertext := .ok (ciphertext.drop iv.length)
  aeadEncrypt _ key _ plaintext _ := .ok (plaintext, key)
  aeadDecrypt _ _ _ ciphertext _ _ := .ok ciphertext
  generate group random := .ok ⟨group, random, padTo group.keyLen [random.sum]⟩
  shared dh peerPublic := .ok [dh.privateKey.sum * peerPublic.headD 0]
  sign ownSecret data := .ok (ownSecret.val ++ data)
  verify _ _ _ := .ok ()

theorem Crypto.plain_lawful : Crypto.plain.Lawful where
  shared_comm := by
    rintro group random random' a b - ha hb
    cases ha
    cases hb
    have hhead : ∀ byte, (padTo group.keyLen [byte]).val.headD 0 = byte := by
      cases group <;> exact fun _ => rfl
    refine ⟨[random.sum * random'.sum], ?_, ?_⟩ <;> simp only [Crypto.plain, hhead, mul_comm]

def plainParams : SaParams := ⟨.hmacSha256, .aesCbc128, some .hmacSha256With128, .curve25519⟩

def plainRandom (dh : UInt8) : PartyRandom := ⟨.replicate 8 1, .replicate 32 2, [dh]⟩

def plainSeal : SealRandom := ⟨.replicate 4 3, ⟨.replicate 8 4, .replicate 16 5⟩⟩

def plainInitiator : IkeParty where
  params := plainParams
  auth := .psk [7]
  spiI := .replicate 8 1
  spiR := .replicate 8 0
  ni := List.replicate 32 2
  nr := []
  dh := ⟨.curve25519, [3], padTo 32 [3]⟩
  peerDhPub := []
  keys := zeroKeys
  idI := ⟨.fqdn, [97]⟩
  idR := ⟨.keyId, []⟩
  realInitRequest := []
  realInitResponse := []
  established := false
  messageId := 0

def plainResponder : IkeParty :=
  { plainInitiator with
    spiI := .replicate 8 0
    spiR := .replicate 8 1
    ni := []
    nr := List.replicate 32 2
    dh := ⟨.curve25519, [5], padTo 32 [5]⟩
    idI := ⟨.keyId, []⟩
    idR := ⟨.fqdn, [98]⟩ }

theorem plainInitiator_new :
    IkeInitiator.new .plain plainParams (.psk [7]) ⟨.fqdn, [97]⟩ (plainRandom 3) =
      .ok plainInitiator := rfl

theorem plainResponder_new :
    IkeResponder.new .plain plainParams (.psk [7]) ⟨.fqdn, [98]⟩ (plainRandom 5) =
      .ok plainResponder := rfl

def plainMessage (publicKey : UInt8) : Message where
  header := ⟨.replicate 8 1, .replicate 8 1, .none, 0, .ikeSaInit, 0, 0, 0⟩
  payloads := [.nonce ⟨List.replicate 32 2⟩, .ke ⟨.curve25519, (padTo 32 [publicKey]).val⟩]

theorem keys_agree_plain :
    ((onInitResponse true .plain plainSeal (plainMessage 5) plainInitiator).2.toEstablished
      .plain true).keys =
    ((onInitRequest true .plain (plainMessage 3) plainResponder).2.toEstablished
      .plain false).keys :=
  (keys_agree true .plain Crypto.plain_lawful (by decide) plainInitiator_new plainResponder_new
    ⟨rfl, rfl, rfl⟩ ⟨rfl, rfl, rfl⟩ rfl plainSeal).1

theorem handshake_never_agrees_plain :
    ¬ Agrees (handshake true .plain plainSeal plainSeal (plainInitiator, plainResponder)) :=
  ((handshake_never_agrees true .plain plainParams (.psk [7]) (.psk [7]) ⟨.fqdn, [97]⟩
    ⟨.fqdn, [98]⟩ (plainRandom 3) (plainRandom 5) plainInitiator plainResponder plainInitiator_new
    plainResponder_new).1 plainSeal plainSeal).1

/-- The handshake of these parties ends with the first message. -/
theorem plain_handshake_fails : Crypto.plain.Lawful ∧
    IkeInitiator.new .plain plainParams (.psk [7]) ⟨.fqdn, [97]⟩ (plainRandom 3) =
      .ok plainInitiator ∧
    IkeResponder.new .plain plainParams (.psk [7]) ⟨.fqdn, [98]⟩ (plainRandom 5) =
      .ok plainResponder ∧
    (handshake true .plain plainSeal plainSeal (plainInitiator, plainResponder)).1 =
      .error (.error (.truncated 52 48)) :=
  ⟨Crypto.plain_lawful, plainInitiator_new, plainResponder_new, by decide +kernel⟩

end TptRfc.Ipsec
