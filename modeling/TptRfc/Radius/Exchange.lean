import TptRfc.Radius.Codec

/-!
# RADIUS: a PAP exchange

`server.rs` and `Client::verify_response`: what the backend is asked, whether the client accepts
what the server returns, and whether a request with a wrong Message-Authenticator is kept from the
backend.
-/

namespace TptRfc.Radius

open Lib List

/-! ## The server -/

structure AuthRequest where
  packet : Packet
  username : Option (List Char)
  password : Option Bytes
  state : Option Bytes
  attributes : List Attribute

inductive AuthDecision where
  | accept (attributes : List Attribute)
  | reject (message : Option (List Char))
  | challenge (state : Bytes) (replyMessage : Option (List Char)) (attributes : List Attribute)

inductive BackendCall where
  | authenticate (request : AuthRequest)
  | account (request : Packet)

structure Processed (α : Type) where
  calls : List BackendCall
  result : Except (Fault RadiusError) (Option α)

def replyMessage : Option (List Char) → List Attribute
  | some msg => [⟨replyMessageType, Text.encode msg⟩]
  | none => []

def AuthDecision.code : AuthDecision → PacketCode
  | .accept _ => .accessAccept
  | .reject _ => .accessReject
  | .challenge _ _ _ => .accessChallenge

def AuthDecision.attributes : AuthDecision → List Attribute
  | .accept attributes => attributes
  | .reject message => replyMessage message
  | .challenge state reply attributes =>
    attributes ++ ((if state = [] then [] else [⟨stateType, state⟩]) ++ replyMessage reply)

def Packet.proxyState (p : Packet) : List Attribute :=
  p.attributes.filter fun a => a.type = proxyStateType

def signed (checks : Bool) (d : Digests) (secret : Bytes) (request : Packet) (code : PacketCode)
    (attributes : List Attribute) : Except (Fault RadiusError) (Option Packet) :=
  let reply : Packet := ⟨code, request.identifier, request.authenticator, attributes⟩
  match reply.responseAuthenticator checks d request.authenticator secret with
  | none => .error .panic
  | some authenticator => .ok (some { reply with authenticator := authenticator })

def authenticateRequest (checks : Bool) (d : Digests) (authenticate : AuthRequest → AuthDecision)
    (secret : Bytes) (request : Packet) : Processed Packet :=
  let password : Except RadiusError (Option Bytes) :=
    if (request.attribute userPasswordType).isSome then (request.userPassword d secret).map some
    else .ok none
  match password with
  | .error e => ⟨[], .error (.error e)⟩
  | .ok password =>
    let authRequest : AuthRequest :=
      { packet := request
        username := (request.attribute userNameType).bind fun a => Text.decode a.value
        password := password
        state := (request.attribute stateType).map Attribute.value
        attributes := request.attributes }
    let decision := authenticate authRequest
    ⟨[.authenticate authRequest],
      signed checks d secret request decision.code (decision.attributes ++ request.proxyState)⟩

def processAccessRequest (checks : Bool) (d : Digests)
    (authenticate : AuthRequest → AuthDecision) (secret : Bytes) (request : Packet) :
    Processed Packet :=
  if (request.attribute eapMessageType).isSome then
    match request.verifyMessageAuthenticator checks d secret with
    | none => ⟨[], .error .panic⟩
    | some false => ⟨[], .ok none⟩
    | some true => authenticateRequest checks d authenticate secret request
  else authenticateRequest checks d authenticate secret request

def processAccounting (checks : Bool) (d : Digests) (secret : Bytes) (request : Packet) :
    Processed Packet :=
  match request.responseAuthenticator checks d (.replicate 16 0) secret with
  | none => ⟨[], .error .panic⟩
  | some computed =>
    if computed ≠ request.authenticator then ⟨[], .ok none⟩
    else ⟨[.account request], signed checks d secret request .accountingResponse request.proxyState⟩

def process (checks : Bool) (d : Digests) (authenticate : AuthRequest → AuthDecision)
    (secret : Bytes) (request : Packet) : Processed Packet :=
  match request.code with
  | .accessRequest => processAccessRequest checks d authenticate secret request
  | .accountingRequest => processAccounting checks d secret request
  | _ => ⟨[], .ok none⟩

def processBytes (checks : Bool) (d : Digests) (authenticate : AuthRequest → AuthDecision)
    (secret buf : Bytes) : Processed Bytes :=
  match Packet.decode buf with
  | .error e => ⟨[], .error (.error (.decode e))⟩
  | .ok request =>
    let processed := process checks d authenticate secret request
    ⟨processed.calls,
      match processed.result with
      | .error fault => .error fault
      | .ok none => .ok none
      | .ok (some reply) =>
        match reply.encode checks with
        | none => .error .panic
        | some bytes => .ok (some bytes)⟩

def verifyResponse (checks : Bool) (d : Digests) (secret : Bytes) (request response : Packet) :
    Option Bool :=
  if response.code = .accessAccept ∨ response.code = .accessReject ∨
      response.code = .accessChallenge then
    if request.code = .accessRequest then
      (response.responseAuthenticator checks d request.authenticator secret).map fun computed =>
        decide (computed = response.authenticator)
    else some false
  else some false

/-! ## The three parts of the exchange -/

def Delivers (checks : Bool) (d : Digests) (authenticate : AuthRequest → AuthDecision)
    (secret : Bytes) (identifier : UInt8) (authenticator : FixedBytes 16)
    (userName password : List Char) : Prop :=
  ∀ p, Packet.accessRequest d identifier authenticator secret userName password = .ok p →
    ∃ bytes r, p.encode checks = some bytes ∧
      (processBytes checks d authenticate secret bytes).calls = [.authenticate r] ∧
      r.username = some userName ∧ r.password = some (Text.encode password)

/-- Part two: what the server returns is read by the client as a packet with the identifier of the
request, the attributes of the decision and then those of proxies, and is accepted. -/
def Answers (checks : Bool) (d : Digests) (authenticate : AuthRequest → AuthDecision)
    (secret buf : Bytes) (request : Packet) (decision : AuthDecision) : Prop :=
  ∃ out reply, (processBytes checks d authenticate secret buf).result = .ok (some out) ∧
    Packet.decode out = .ok reply ∧ reply.identifier = request.identifier ∧
    reply.attributes = decision.attributes ++ request.proxyState ∧
    verifyResponse checks d secret request reply = some true

def KeptOut (checks : Bool) (d : Digests) (authenticate : AuthRequest → AuthDecision)
    (secret buf : Bytes) : Prop :=
  (processBytes checks d authenticate secret buf).calls = []

/-- What keeps a request from the backend apart from its Message-Authenticator: an access request
whose password cannot be read, and an accounting request with a wrong authenticator. -/
def Stopped (checks : Bool) (d : Digests) (secret : Bytes) (request : Packet) : Prop :=
  match request.code with
  | .accessRequest =>
    (request.attribute eapMessageType).isSome ∨
      ((request.attribute userPasswordType).isSome ∧ ∃ e, request.userPassword d secret = .error e)
  | .accountingRequest =>
    request.responseAuthenticator checks d (.replicate 16 0) secret ≠ some request.authenticator
  | _ => True

variable {checks : Bool} {d : Digests} {authenticate : AuthRequest → AuthDecision} {secret : Bytes}

/-! ## What the server does -/

variable {r : AuthRequest} {request : Packet}

theorem authenticateRequest_calls (h : BackendCall.authenticate r ∈
      (authenticateRequest checks d authenticate secret request).calls) :
    authenticateRequest checks d authenticate secret request =
      ⟨[.authenticate r], signed checks d secret request (authenticate r).code
        ((authenticate r).attributes ++ request.proxyState)⟩ ∧
    r.username = (request.attribute userNameType).bind (fun a => Text.decode a.value) ∧
    (∀ pw, r.password = some pw → request.userPassword d secret = .ok pw) := by
  unfold authenticateRequest at h ⊢
  dsimp only at h ⊢
  split_ifs at h ⊢ with hattr
  · cases hpassword : request.userPassword d secret with
    | error e =>
      rw [hpassword] at h
      cases h
    | ok pw =>
      rw [hpassword] at h
      obtain heq := mem_singleton.mp h
      cases heq
      exact ⟨rfl, rfl, fun pw' hpw' => by cases hpw'; rfl⟩
  · obtain heq := mem_singleton.mp h
    cases heq
    exact ⟨rfl, rfl, nofun⟩

theorem process_of_accessRequest (hcode : request.code = .accessRequest) :
    process checks d authenticate secret request =
      processAccessRequest checks d authenticate secret request := by
  unfold process
  rw [hcode]

theorem processAccessRequest_of_calls (h : BackendCall.authenticate r ∈
      (processAccessRequest checks d authenticate secret request).calls) :
    processAccessRequest checks d authenticate secret request =
      authenticateRequest checks d authenticate secret request := by
  unfold processAccessRequest at h ⊢
  split_ifs at h ⊢
  · cases hverify : request.verifyMessageAuthenticator checks d secret with
    | none => rw [hverify] at h; cases h
    | some verified =>
      cases verified with
      | false => rw [hverify] at h; cases h
      | true => rfl
  · rfl

theorem accessRequest_of_calls
    (h : BackendCall.authenticate r ∈ (process checks d authenticate secret request).calls) :
    request.code = .accessRequest := by
  unfold process at h
  split at h
  · assumption
  · unfold processAccounting at h
    split at h
    · cases h
    · split_ifs at h
      · cases h
      · cases mem_singleton.mp h
  · cases h

/-! ## Part one -/

theorem accessRequest_eq (hsecret : secret ≠ []) (identifier : UInt8)
    (authenticator : FixedBytes 16) (userName password : List Char) :
    Packet.accessRequest d identifier authenticator secret userName password =
      .ok ⟨.accessRequest, identifier, authenticator, [⟨userNameType, Text.encode userName⟩,
        ⟨userPasswordType, hideBlocks d secret authenticator.val
          (padPassword (Text.encode password))⟩]⟩ := by
  unfold Packet.accessRequest Packet.hideUserPassword
  rw [if_neg hsecret, if_neg (not_not.mpr rfl)]
  rfl

theorem length_hidden (d : Digests) (secret prev password : Bytes) :
    (hideBlocks d secret prev (padPassword password)).length =
      16 * ((password.length + 15) / 16) := by
  rw [(revealBlocks_hideBlocks d secret prev (length_padPassword password)).2, length_padPassword]

theorem fits_request_iff (d : Digests) (secret prev name password : Bytes) :
    Fits [⟨userNameType, name⟩,
        ⟨userPasswordType, hideBlocks d secret prev (padPassword password)⟩] ↔
      name.length ≤ 253 ∧ password.length ≤ 240 := by
  have hhidden := length_hidden d secret prev password
  unfold Fits
  simp only [forall_mem_cons, not_mem_nil, IsEmpty.forall_iff, implies_true, and_true,
    encodeAttributes, flatMap_cons, flatMap_nil, append_nil, length_append,
    length_encode, hhidden]
  omega

theorem length_of_userPassword {p : Packet} (hfits : Fits p.attributes) {pw : Bytes}
    (h : p.userPassword d secret = .ok pw) : pw.length ≤ 240 := by
  unfold Packet.userPassword at h
  split_ifs at h
  split at h
  · cases h
  · rename_i attr hattr
    split_ifs at h with hlength
    obtain ⟨-, hblocks⟩ := not_or.mp hlength
    cases h
    have hvalue := hfits.1 attr (mem_of_find?_eq_some hattr)
    have hreveal := length_revealBlocks_le d secret p.authenticator.val attr.value
    have hdrop := (List.rdropWhile_prefix (fun b : UInt8 => decide (b = 0))
      (revealBlocks d secret p.authenticator.val attr.value)).length_le
    omega

variable {authenticator : FixedBytes 16} {identifier : UInt8} {name buf : Bytes}

theorem userPassword_request (hsecret : secret ≠ []) {password : Bytes} (hne : password ≠ [])
    (hnul : password.getLast? ≠ some 0) :
    (⟨.accessRequest, identifier, authenticator, [⟨userNameType, name⟩, ⟨userPasswordType,
      hideBlocks d secret authenticator.val (padPassword password)⟩]⟩ : Packet).userPassword d
        secret = .ok password := by
  have hpos := length_pos_iff.mpr hne
  have hhidden := length_hidden d secret authenticator.val password
  have hreveal := (revealBlocks_hideBlocks d secret authenticator.val
    (length_padPassword password)).1
  unfold Packet.userPassword
  rw [if_neg hsecret]
  change (if hideBlocks d secret authenticator.val (padPassword password) = [] ∨ _
    then _ else _) = _
  rw [if_neg, hreveal, rdropWhile_padPassword hnul]
  rintro (hnil | hblocks)
  · rw [hnil] at hhidden
    simp only [length_nil] at hhidden
    omega
  · exact hblocks (by rw [hhidden]; omega)

theorem userPassword_request_nil (hsecret : secret ≠ []) :
    (⟨.accessRequest, identifier, authenticator, [⟨userNameType, name⟩, ⟨userPasswordType,
      hideBlocks d secret authenticator.val (padPassword [])⟩]⟩ : Packet).userPassword d
        secret = .error (.passwordLength 0) := by
  have hnil : hideBlocks d secret authenticator.val (padPassword []) = [] :=
    eq_nil_of_length_eq_zero (length_hidden d secret authenticator.val [])
  unfold Packet.userPassword
  rw [if_neg hsecret, hnil]
  rfl

theorem delivers_iff (hsecret : secret ≠ []) (identifier : UInt8) (authenticator : FixedBytes 16)
    {userName password : List Char} (hnul : (Text.encode password).getLast? ≠ some 0) :
    Delivers checks d authenticate secret identifier authenticator userName password ↔
      Text.encode password ≠ [] ∧ (Text.encode password).length ≤ 240 ∧
        (Text.encode userName).length ≤ 253 := by
  have hrequest := accessRequest_eq (d := d) hsecret identifier authenticator userName password
  have hfits := fits_request_iff d secret authenticator.val (Text.encode userName)
    (Text.encode password)
  constructor
  · intro hdelivers
    obtain ⟨bytes, r, hencode, hcalls, huser, hpassword⟩ := hdelivers _ hrequest
    obtain rfl := Packet.octets_of_encode hencode
    unfold processBytes at hcalls
    cases hdecode : Packet.decode (Packet.octets _) with
    | error e =>
      rw [hdecode] at hcalls
      cases hcalls
    | ok request =>
      rw [hdecode] at hcalls
      have hmem : BackendCall.authenticate r ∈
          (process checks d authenticate secret request).calls := by
        dsimp only at hcalls
        rw [hcalls]
        exact mem_singleton_self _
      rw [process_of_accessRequest (accessRequest_of_calls hmem)] at hmem
      rw [processAccessRequest_of_calls hmem] at hmem
      obtain ⟨-, hname, hpw⟩ := authenticateRequest_calls hmem
      have hroom := fits_of_decode hdecode
      have hread := hpw _ hpassword
      have hlong := length_of_userPassword hroom hread
      have hshort : (Text.encode userName).length ≤ 253 := by
        rw [huser] at hname
        obtain ⟨attr, hattr, htext⟩ := Option.bind_eq_some_iff.mp hname.symm
        rw [Text.encode_of_decode htext]
        exact hroom.1 attr (mem_of_find?_eq_some hattr)
      refine ⟨fun hempty => ?_, hlong, hshort⟩
      -- there is room for the request, so that the server has the same packet
      have hsame := Packet.decode_octets (p := ⟨.accessRequest, identifier, authenticator, _⟩)
        nofun (hfits.mpr ⟨hshort, hlong⟩)
      rw [hsame] at hdecode
      cases hdecode
      rw [hempty, userPassword_request_nil hsecret] at hread
      cases hread
  · rintro ⟨hne, hlong, hshort⟩ p hp
    have hp' := Except.ok.inj (hrequest.symm.trans hp)
    have hroom : Fits p.attributes := hp' ▸ hfits.mpr ⟨hshort, hlong⟩
    have hcode : p.code = .accessRequest := hp' ▸ rfl
    have hpassword : p.userPassword d secret = .ok (Text.encode password) :=
      hp' ▸ userPassword_request hsecret hne hnul
    have hname : p.attribute userNameType = some ⟨userNameType, Text.encode userName⟩ := hp' ▸ rfl
    have hhidden : (p.attribute userPasswordType).isSome = true := hp' ▸ rfl
    have heap : p.attribute eapMessageType = none := hp' ▸ rfl
    refine ⟨_, ⟨p, some userName, some (Text.encode password),
      (p.attribute stateType).map Attribute.value, p.attributes⟩,
      Packet.encode_of_fits checks hroom, ?_, rfl, rfl⟩
    unfold processBytes
    rw [Packet.decode_octets (by rw [hcode]; exact nofun) hroom]
    dsimp only
    rw [process_of_accessRequest hcode]
    unfold processAccessRequest
    rw [heap, if_neg nofun]
    unfold authenticateRequest
    rw [if_pos hhidden, hpassword, hname, Option.bind_some, Text.decode_encode]
    rfl

/-! ## Part two -/

theorem take_drop_octets (p : Packet) (authenticator : FixedBytes 16) :
    p.octets.take 4 ++ (authenticator.val ++ p.octets.drop 20) =
      ({ p with authenticator := authenticator } : Packet).octets := by
  have htake : p.octets.take 4 = p.code.toU8 :: p.identifier ::
      beBytes 2 (20 + (encodeAttributes p.attributes).length) := by
    rw [p.octets_eq]
    exact take_left' (by simp)
  rw [htake, p.drop_octets]
  simp [Packet.octets]

theorem signed_of_fits (request : Packet) (code : PacketCode) {attributes : List Attribute}
    (h : Fits attributes) : ∃ authenticator, signed checks d secret request code attributes =
        .ok (some ⟨code, request.identifier, authenticator, attributes⟩) ∧
      (⟨code, request.identifier, authenticator, attributes⟩ : Packet).responseAuthenticator checks
        d request.authenticator secret = some authenticator := by
  have hencode : ∀ authenticator, (⟨code, request.identifier, authenticator, attributes⟩ :
      Packet).encode checks = some (Packet.octets _) := fun authenticator =>
    Packet.encode_of_fits checks h
  refine ⟨d.md5 ((⟨code, request.identifier, request.authenticator, attributes⟩ :
    Packet).octets ++ secret), ?_, ?_⟩
  · unfold signed Packet.responseAuthenticator
    dsimp only
    rw [hencode]
    dsimp only [Option.map]
    rw [take_drop_octets]
  · unfold Packet.responseAuthenticator
    rw [hencode]
    dsimp only [Option.map]
    rw [take_drop_octets]

theorem AuthDecision.code_cases (decision : AuthDecision) :
    (decision.code = .accessAccept ∨ decision.code = .accessReject ∨
      decision.code = .accessChallenge) ∧ ∀ v, decision.code ≠ .other v := by
  cases decision with
  | accept _ => exact ⟨.inl rfl, nofun⟩
  | reject _ => exact ⟨.inr (.inl rfl), nofun⟩
  | challenge _ _ _ => exact ⟨.inr (.inr rfl), nofun⟩

theorem answers_iff (hdecode : Packet.decode buf = .ok request)
    (hcalls : BackendCall.authenticate r ∈ (processBytes checks d authenticate secret buf).calls) :
    Answers checks d authenticate secret buf request (authenticate r) ↔
      Fits ((authenticate r).attributes ++ request.proxyState) := by
  constructor
  · rintro ⟨out, reply, -, hreply, -, hattributes, -⟩
    rw [← hattributes]
    exact fits_of_decode hreply
  · intro hfits
    unfold processBytes at hcalls
    rw [hdecode] at hcalls
    have hmem : BackendCall.authenticate r ∈
        (process checks d authenticate secret request).calls := hcalls
    have hcode := accessRequest_of_calls hmem
    have hprocess : process checks d authenticate secret request = _ :=
      process_of_accessRequest hcode
    rw [hprocess] at hmem
    have hauth := processAccessRequest_of_calls hmem
    rw [hauth] at hmem
    obtain ⟨hresult, -, -⟩ := authenticateRequest_calls hmem
    obtain ⟨authenticator, hsigned, hverify⟩ : ∃ authenticator,
        signed checks d secret request (authenticate r).code _ = _ ∧ _ = some authenticator :=
      signed_of_fits request (authenticate r).code hfits
    obtain ⟨hcodes, hknown⟩ := (authenticate r).code_cases
    refine ⟨_, ⟨(authenticate r).code, request.identifier, authenticator, _⟩, ?_,
      Packet.decode_octets hknown hfits, rfl, rfl, ?_⟩
    · unfold processBytes
      rw [hdecode]
      dsimp only
      rw [hprocess, hauth, hresult]
      dsimp only
      rw [hsigned]
      dsimp only
      rw [Packet.encode_of_fits checks hfits]
    · unfold verifyResponse
      rw [if_pos hcodes, if_pos hcode, hverify]
      simp

/-! ## Part three -/

theorem processAccessRequest_calls_eq_nil_iff
    (hfalse : request.verifyMessageAuthenticator checks d secret = some false) :
    (processAccessRequest checks d authenticate secret request).calls = [] ↔
      (request.attribute eapMessageType).isSome ∨
        ((request.attribute userPasswordType).isSome ∧
          ∃ e, request.userPassword d secret = .error e) := by
  unfold processAccessRequest
  rw [hfalse]
  by_cases heap : (request.attribute eapMessageType).isSome
  · rw [if_pos heap]
    exact iff_of_true rfl (.inl heap)
  · rw [if_neg heap]
    unfold authenticateRequest
    dsimp only
    by_cases hattr : (request.attribute userPasswordType).isSome
    · rw [if_pos hattr]
      cases hread : request.userPassword d secret with
      | error e => exact iff_of_true rfl (.inr ⟨hattr, e, rfl⟩)
      | ok pw =>
        refine iff_of_false (cons_ne_nil _ _) ?_
        rintro (h | ⟨-, e, he⟩)
        · exact heap h
        · cases he
    · rw [if_neg hattr]
      refine iff_of_false (cons_ne_nil _ _) ?_
      rintro (h | ⟨h, -⟩)
      · exact heap h
      · exact hattr h

theorem processAccounting_calls_eq_nil_iff :
    (processAccounting checks d secret request).calls = [] ↔
      request.responseAuthenticator checks d (.replicate 16 0) secret ≠
        some request.authenticator := by
  unfold processAccounting
  cases request.responseAuthenticator checks d (.replicate 16 0) secret with
  | none => exact iff_of_true rfl nofun
  | some computed =>
    dsimp only
    by_cases hsame : computed = request.authenticator
    · rw [if_neg (not_not.mpr hsame)]
      exact iff_of_false (cons_ne_nil _ _) fun hne => hne (congrArg some hsame)
    · rw [if_pos hsame]
      exact iff_of_true rfl fun heq => hsame (Option.some.inj heq)

theorem keptOut_iff (hdecode : Packet.decode buf = .ok request)
    (hfalse : request.verifyMessageAuthenticator checks d secret = some false) :
    KeptOut checks d authenticate secret buf ↔ Stopped checks d secret request := by
  unfold KeptOut processBytes Stopped process
  rw [hdecode]
  dsimp only
  cases request.code with
  | accessRequest => exact processAccessRequest_calls_eq_nil_iff hfalse
  | accountingRequest => exact processAccounting_calls_eq_nil_iff
  | _ => exact iff_of_true rfl trivial

/-! ## The exchange -/

/-- The three parts of an exchange under a secret, for a password that does not end in a zero, and
exactly when each of them holds. -/
theorem exchange_iff (checks : Bool) (d : Digests) (authenticate : AuthRequest → AuthDecision)
    (hsecret : secret ≠ []) (identifier : UInt8) (authenticator : FixedBytes 16)
    {userName password : List Char} (hnul : (Text.encode password).getLast? ≠ some 0) :
    (Delivers checks d authenticate secret identifier authenticator userName password ↔
      Text.encode password ≠ [] ∧ (Text.encode password).length ≤ 240 ∧
        (Text.encode userName).length ≤ 253) ∧ (∀ buf request r, Packet.decode buf = .ok request →
      BackendCall.authenticate r ∈ (processBytes checks d authenticate secret buf).calls →
        (Answers checks d authenticate secret buf request (authenticate r) ↔
          Fits ((authenticate r).attributes ++ request.proxyState))) ∧
    (∀ buf request, Packet.decode buf = .ok request →
      (request.attribute messageAuthenticatorType).isSome →
        request.verifyMessageAuthenticator checks d secret = some false →
          (KeptOut checks d authenticate secret buf ↔ Stopped checks d secret request)) :=
  ⟨delivers_iff hsecret identifier authenticator hnul,
    fun _ _ _ hdecode hcalls => answers_iff hdecode hcalls,
    fun _ _ hdecode _ hfalse => keptOut_iff hdecode hfalse⟩

def zeroDigests : Digests := ⟨fun _ => .replicate 16 0, fun _ _ => .replicate 16 0⟩

def acceptLong : AuthRequest → AuthDecision := fun _ => .accept [⟨25, List.replicate 254 0⟩]

/-- The user `u` with the password `p`. -/
theorem exchange_short_texts :
    Delivers true zeroDigests acceptLong [1] 7 (.replicate 16 9) ['u'] ['p'] :=
  (exchange_iff true zeroDigests acceptLong (cons_ne_nil 1 []) 7 (.replicate 16 9)
    (by decide)).1.mpr ⟨by decide, by decide, by decide⟩

def wrongAuthenticator : Packet :=
  ⟨.accessRequest, 7, .replicate 16 9,
    [⟨userNameType, [0x75]⟩, ⟨messageAuthenticatorType, List.replicate 16 1⟩]⟩

/-- The empty password is not delivered, an attribute of 254 octets is not answered, and a wrong
Message-Authenticator without an `EAP-Message` does not keep a request from the backend. -/
theorem exchange_fails : ¬ Delivers true zeroDigests acceptLong [1] 7 (.replicate 16 9) ['u'] [] ∧
      Packet.decode wrongAuthenticator.octets = .ok wrongAuthenticator ∧
      wrongAuthenticator.verifyMessageAuthenticator true zeroDigests [1] = some false ∧
      ¬ KeptOut true zeroDigests acceptLong [1] wrongAuthenticator.octets ∧
      ∀ r, ¬ Answers true zeroDigests acceptLong [1] wrongAuthenticator.octets
        wrongAuthenticator (acceptLong r) := by
  have hdecode : Packet.decode wrongAuthenticator.octets = .ok wrongAuthenticator :=
    Packet.decode_octets nofun ⟨by decide, by decide⟩
  have hfalse : wrongAuthenticator.verifyMessageAuthenticator true zeroDigests [1] =
      some false := by decide +kernel
  refine ⟨fun hdelivers => ?_, hdecode, hfalse, fun hkept => ?_, ?_⟩
  · have hall := (delivers_iff (cons_ne_nil 1 []) 7 (.replicate 16 9)
      (by decide)).mp hdelivers
    exact hall.1 rfl
  · rcases (keptOut_iff hdecode hfalse).mp hkept with heap | ⟨hpassword, -⟩
    · exact absurd heap (by decide)
    · exact absurd hpassword (by decide)
  · rintro r ⟨out, reply, -, hreply, -, hattributes, -⟩
    have hfits := fits_of_decode hreply
    rw [hattributes] at hfits
    have hlong := hfits.1 ⟨25, List.replicate 254 0⟩
      (mem_append_left _ (mem_singleton_self _))
    rw [length_replicate] at hlong
    omega

end TptRfc.Radius
