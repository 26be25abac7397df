import TptRfc.Lib.Access

/-!
# Privacy Pass: issuance of tokens

A client blinds the hash of its token input, the issuer multiplies it by its key and proves with a
DLEQ proof that it did, and the client takes the blind off again.
-/

namespace TptRfc.PrivacyPass

open Lib List Access

structure Suite (F G : Type) where
  nh : ℕ
  ne : ℕ
  ns : ℕ
  generator : G
  contextString : UInt8 → Bytes
  hash : Bytes → Bytes
  sha256 : Bytes → FixedBytes 32
  hashToScalar : Bytes → Bytes → F
  hashToGroup : Bytes → Bytes → G
  serializeElement : G → Bytes
  deserializeElement : Bytes → Option G
  serializeScalar : F → Bytes
  deserializeScalar : Bytes → Option F

inductive OprfError
  | invalidElement
  | invalidScalar
  | proofVerification

inductive TokenError
  | malformed
  | verification
  | oprf (e : OprfError)

abbrev Result (α : Type) := Except (Fault TokenError) α

def okOr {α : Type} (x : Option α) (e : OprfError) : Result α :=
  x.elim (.error (.error (.oprf e))) .ok

def ascii (text : String) : Bytes := text.toList.map fun c => UInt8.ofNat c.toNat

def lenPrefixed (x : Bytes) : Bytes := beBytes 2 x.length ++ x

/-! ## Messages -/

structure TokenRequest where
  tokenType : UInt16
  truncatedKeyId : UInt8
  blindedMsg : Bytes

structure TokenResponse where
  evaluateMsg : Bytes
  evaluateProof : Bytes

structure TokenFields where
  tokenType : UInt16
  nonce : FixedBytes 32
  challengeDigest : FixedBytes 32
  tokenKeyId : FixedBytes 32

structure Token extends TokenFields where
  authenticator : Bytes

structure Proof (F : Type) where
  c : F
  s : F

structure VoprfState (F G : Type) extends TokenFields where
  blind : F
  blindedElement : G

structure PoprfState (F G : Type) extends VoprfState F G where
  metadata : Bytes
  tweakedKey : G

def TokenRequest.toBytes (req : TokenRequest) : Bytes :=
  u16Bytes req.tokenType ++ req.truncatedKeyId :: req.blindedMsg

def TokenFields.tokenInput (t : TokenFields) : Bytes :=
  u16Bytes t.tokenType ++ t.nonce.val ++ t.challengeDigest.val ++ t.tokenKeyId.val

namespace Suite

variable {F G : Type} (C : Suite F G)

def tokenRequestFromBytes (b : Bytes) : Result TokenRequest :=
  if b.length < 3 + C.ne then .error (.error .malformed)
  else .ok ⟨UInt16.ofNat (beNat (b.take 2)), b.getD 2 0, b.drop 3⟩

def dstGroup (mode : UInt8) : Bytes := ascii "HashToGroup-" ++ C.contextString mode

def dstScalar (mode : UInt8) : Bytes := ascii "HashToScalar-" ++ C.contextString mode

def finalizeHash (input unblinded : Bytes) (info : Option Bytes) (mode : UInt8) : Bytes :=
  C.hash (lenPrefixed input ++ (if mode = 2 then lenPrefixed (info.getD []) else []) ++
    lenPrefixed unblinded ++ ascii "Finalize")

def serializeProof (p : Proof F) : Bytes := C.serializeScalar p.c ++ C.serializeScalar p.s

def deserializeProof (b : Bytes) : Result (Proof F) :=
  if b.length ≠ 2 * C.ns then .error (.error (.oprf .invalidScalar)) else do
    let c ← okOr (C.deserializeScalar (b.take C.ns)) .invalidScalar
    let s ← okOr (C.deserializeScalar (b.drop C.ns)) .invalidScalar
    pure ⟨c, s⟩

def seedFor (b : G) (mode : UInt8) : Bytes :=
  C.hash (lenPrefixed (C.serializeElement b) ++
    lenPrefixed (ascii "Seed-" ++ C.contextString mode))

def weight (seed : Bytes) (mode : UInt8) (i : ℕ) (c d : G) : F :=
  C.hashToScalar (lenPrefixed seed ++ beBytes 2 i ++ lenPrefixed (C.serializeElement c) ++
    lenPrefixed (C.serializeElement d) ++ ascii "Composite") (C.dstScalar mode)

def challenge (b m z t2 t3 : G) (mode : UInt8) : F :=
  C.hashToScalar ([b, m, z, t2, t3].flatMap (lenPrefixed ∘ C.serializeElement) ++
    ascii "Challenge") (C.dstScalar mode)

def infoScalar (info : Bytes) : F :=
  C.hashToScalar (ascii "Info" ++ lenPrefixed info) (C.dstScalar 2)

def respond (evaluated : G × Proof F) : TokenResponse :=
  ⟨C.serializeElement evaluated.1, C.serializeProof evaluated.2⟩

def finalizeWith (state : VoprfState F G) (resp : TokenResponse)
    (finalize : Bytes → G → Proof F → Result Bytes) : Result Token := do
  let evaluated ← okOr (C.deserializeElement resp.evaluateMsg) .invalidElement
  let proof ← C.deserializeProof resp.evaluateProof
  let authenticator ← finalize state.tokenInput evaluated proof
  pure ⟨state.toTokenFields, authenticator⟩

def verifyWith (token : Token) (evaluate : Bytes → Result Bytes) : Result Unit :=
  if token.authenticator.length ≠ C.nh then .error (.error .malformed) else do
    let expected ← evaluate token.tokenInput
    if expected = token.authenticator then pure () else .error (.error .verification)

variable {C} in
theorem verifyWith_of_eq {token : Token} {evaluate : Bytes → Result Bytes}
    (h : evaluate token.tokenInput = .ok token.authenticator)
    (hlength : token.authenticator.length = C.nh) : C.verifyWith token evaluate = .ok () := by
  rw [verifyWith, if_neg (not_not.mpr hlength), h, ok_bind, if_pos rfl]
  rfl

/-! ## Faithful encodings -/

variable [AddCommGroup G]

structure Lawful (C : Suite F G) : Prop where
  generator_ne_zero : C.generator ≠ 0
  hashToGroup_ne_zero (input dst : Bytes) : C.hashToGroup input dst ≠ 0
  length_hash (input : Bytes) : (C.hash input).length = C.nh
  length_element {g : G} (h : g ≠ 0) : (C.serializeElement g).length = C.ne
  element {g : G} (h : g ≠ 0) : C.deserializeElement (C.serializeElement g) = some g
  length_scalar (x : F) : (C.serializeScalar x).length = C.ns
  scalar (x : F) : C.deserializeScalar (C.serializeScalar x) = some x

section

variable {C}

theorem Lawful.tokenRequestFromBytes_toBytes (hC : C.Lawful) {g : G} (hg : g ≠ 0)
    (tokenType : UInt16) (keyId : UInt8) :
    C.tokenRequestFromBytes (TokenRequest.toBytes ⟨tokenType, keyId, C.serializeElement g⟩) =
      .ok ⟨tokenType, keyId, C.serializeElement g⟩ := by
  have hlength := hC.length_element hg
  rw [tokenRequestFromBytes, if_neg (by simp [TokenRequest.toBytes, hlength]; omega)]
  show Except.ok (TokenRequest.mk (UInt16.ofNat (beNat (u16Bytes tokenType))) _ _) = _
  rw [ofNat_beNat_u16Bytes]
  rfl

theorem Lawful.deserializeProof_serializeProof (hC : C.Lawful) (p : Proof F) :
    C.deserializeProof (C.serializeProof p) = .ok p := by
  have hc := hC.length_scalar p.c
  have hs := hC.length_scalar p.s
  rw [deserializeProof, serializeProof, if_neg (by rw [length_append, hc, hs]; omega),
    take_left' hc, drop_left' hc, hC.scalar, hC.scalar]
  rfl

theorem Lawful.finalizeWith_respond (hC : C.Lawful) {e : G × Proof F} (he : e.1 ≠ 0)
    (state : VoprfState F G) (finalize : Bytes → G → Proof F → Result Bytes) {authenticator : Bytes}
    (hfinalize : finalize state.tokenInput e.1 e.2 = .ok authenticator) :
    C.finalizeWith state (C.respond e) finalize = .ok ⟨state.toTokenFields, authenticator⟩ := by
  simp only [finalizeWith, respond, hC.element he, hC.deserializeProof_serializeProof, okOr,
    Option.elim_some, ok_bind, hfinalize]
  rfl

end

/-! ## Proofs -/

variable [Field F] [Module F G]

theorem foldl_composites (k : F) (w : ℕ → G → G → F) (l : List ((G × G) × ℕ))
    (hl : ∀ p ∈ l, p.1.2 = k • p.1.1) (m : G) :
    l.foldl (fun mz p => (mz.1 + w p.2 p.1.1 p.1.2 • p.1.1, mz.2 + w p.2 p.1.1 p.1.2 • p.1.2))
        (m, k • m) =
      (l.foldl (fun m p => m + w p.2 p.1.1 p.1.2 • p.1.1) m,
        k • l.foldl (fun m p => m + w p.2 p.1.1 p.1.2 • p.1.1) m) := by
  induction l generalizing m with
  | nil => rfl
  | cons p l ih =>
    rw [foldl_cons, foldl_cons, ← ih (fun q hq => hl q (mem_cons_of_mem _ hq))]
    simp only [hl p mem_cons_self, smul_add, smul_comm k]

-- The code reads `d[i]` for each `i` below `c.len()`; its callers pass lists of one length.
def computeCompositesFast (k : F) (b : G) (c d : List G) (mode : UInt8) : G × G :=
  let m := (c.zip d).zipIdx.foldl
    (fun m p => m + C.weight (C.seedFor b mode) mode p.2 p.1.1 p.1.2 • p.1.1) 0
  (m, k • m)

def computeComposites (b : G) (c d : List G) (mode : UInt8) : G × G :=
  (c.zip d).zipIdx.foldl (fun mz p =>
    let w := C.weight (C.seedFor b mode) mode p.2 p.1.1 p.1.2
    (mz.1 + w • p.1.1, mz.2 + w • p.1.2)) (0, 0)

variable {C} in
theorem computeComposites_smul (k : F) (b : G) (c : List G) (mode : UInt8) :
    C.computeComposites b c (c.map (k • ·)) mode =
      C.computeCompositesFast k b c (c.map (k • ·)) mode := by
  have hpairs : ∀ p ∈ (c.zip (c.map (k • ·))).zipIdx, p.1.2 = k • p.1.1 := by
    intro p hp
    have hmem := fst_mem_of_mem_zipIdx hp
    rw [← map_prod_left_eq_zip] at hmem
    obtain ⟨x, -, hx⟩ := mem_map.mp hmem
    rw [← hx]
  have hsums := foldl_composites k (C.weight (C.seedFor b mode) mode) _ hpairs 0
  rwa [smul_zero] at hsums

def generateProofRng (k : F) (a b : G) (c d : List G) (mode : UInt8) (r : F) : Proof F :=
  let (m, z) := C.computeCompositesFast k b c d mode
  let chal := C.challenge b m z (r • a) (r • m) mode
  ⟨chal, r - chal * k⟩

variable [DecidableEq F]

def verifyProof (a b : G) (c d : List G) (proof : Proof F) (mode : UInt8) : Bool :=
  let (m, z) := C.computeComposites b c d mode
  C.challenge b m z (proof.s • a + proof.c • b) (proof.s • m + proof.c • z) mode = proof.c

theorem verifyProof_generateProofRng (k : F) (a : G) (c : List G) (mode : UInt8) (r : F) :
    C.verifyProof a (k • a) c (c.map (k • ·))
      (C.generateProofRng k a (k • a) c (c.map (k • ·)) mode r) mode = true := by
  rw [verifyProof, computeComposites_smul, generateProofRng, computeCompositesFast]
  have hresponse : ∀ (x : F) (g : G), (r - x * k) • g + x • k • g = r • g := by
    intro x g
    rw [sub_smul, mul_smul, sub_add_cancel]
  simp only [hresponse, decide_true]

/-! ## Evaluation -/

def invert (x : F) : Result F := if x = 0 then .error .panic else .ok x⁻¹

theorem invert_of_ne_zero {x : F} (h : x ≠ 0) : invert x = .ok x⁻¹ := if_neg h

def blind (input : Bytes) (blind : F) (mode : UInt8) : G :=
  blind • C.hashToGroup input (C.dstGroup mode)

def evaluate (sk : F) (input : Bytes) (mode : UInt8) : Bytes :=
  C.finalizeHash input (C.serializeElement (sk • C.hashToGroup input (C.dstGroup mode))) none mode

def blindEvaluateVoprf (sk : F) (pk blinded : G) (r : F) : G × Proof F :=
  (sk • blinded, C.generateProofRng sk C.generator pk [blinded] [sk • blinded] 1 r)

def finalizeChecked (accepted : Bool) (input : Bytes) (blind : F) (evaluated : G)
    (info : Option Bytes) (mode : UInt8) : Result Bytes :=
  if !accepted then .error (.error (.oprf .proofVerification)) else do
    let inv ← invert blind
    pure (C.finalizeHash input (C.serializeElement (inv • evaluated)) info mode)

variable {C} in
theorem finalizeChecked_blind {blind : F} (hblind : blind ≠ 0) (input : Bytes) (k : F) (h : G)
    (info : Option Bytes) (mode : UInt8) :
    C.finalizeChecked true input blind (k • blind • h) info mode =
      .ok (C.finalizeHash input (C.serializeElement (k • h)) info mode) := by
  rw [finalizeChecked, invert_of_ne_zero hblind, ok_bind, smul_comm k, inv_smul_smul₀ hblind]
  rfl

def finalizeVoprf (input : Bytes) (blind : F) (evaluated blinded pk : G) (proof : Proof F) :
    Result Bytes :=
  C.finalizeChecked (C.verifyProof C.generator pk [blinded] [evaluated] proof 1) input blind
    evaluated none 1

variable [DecidableEq G]

def blindPoprf (input info : Bytes) (pk : G) (blind : F) : Result (G × G) :=
  let tweaked := C.infoScalar info • C.generator + pk
  if tweaked = 0 then .error .panic
  else .ok (blind • C.hashToGroup input (C.dstGroup 2), tweaked)

def blindEvaluatePoprf (sk : F) (blinded : G) (info : Bytes) (r : F) : Result (G × Proof F) := do
  let t := sk + C.infoScalar info
  let tInv ← invert t
  pure (tInv • blinded,
    C.generateProofRng t C.generator (t • C.generator) [tInv • blinded] [blinded] 2 r)

def finalizePoprf (input : Bytes) (blind : F) (evaluated blinded : G) (proof : Proof F)
    (info : Bytes) (tweaked : G) : Result Bytes :=
  C.finalizeChecked (C.verifyProof C.generator tweaked [evaluated] [blinded] proof 2) input blind
    evaluated (some info) 2

def evaluatePoprf (sk : F) (input info : Bytes) : Result Bytes := do
  let tInv ← invert (sk + C.infoScalar info)
  pure (C.finalizeHash input
    (C.serializeElement (tInv • C.hashToGroup input (C.dstGroup 2))) (some info) 2)

/-! ## Tokens -/

variable (sk : F) (tokenType : UInt16) (challenge : Bytes) (nonce tokenKeyId : FixedBytes 32)
  (blind r : F)

def fields : TokenFields := ⟨tokenType, nonce, C.sha256 challenge, tokenKeyId⟩

def createTokenRequest : TokenRequest × VoprfState F G :=
  let fields := C.fields tokenType challenge nonce tokenKeyId
  let blindedElement := C.blind fields.tokenInput blind 1
  (⟨tokenType, tokenKeyId.val.getD 31 0, C.serializeElement blindedElement⟩,
    ⟨fields, blind, blindedElement⟩)

def createTokenRequestPoprf (pk : G) (metadata : Bytes) :
    Result (TokenRequest × PoprfState F G) := do
  let fields := C.fields tokenType challenge nonce tokenKeyId
  let (blindedElement, tweakedKey) ← C.blindPoprf fields.tokenInput metadata pk blind
  pure (⟨tokenType, tokenKeyId.val.getD 31 0, C.serializeElement blindedElement⟩,
    ⟨⟨fields, blind, blindedElement⟩, metadata, tweakedKey⟩)

def issuerRespond (pk : G) (req : TokenRequest) : Result TokenResponse := do
  let blinded ← okOr (C.deserializeElement req.blindedMsg) .invalidElement
  pure (C.respond (C.blindEvaluateVoprf sk pk blinded r))

def issuerRespondPoprf (req : TokenRequest) (metadata : Bytes) : Result TokenResponse := do
  let blinded ← okOr (C.deserializeElement req.blindedMsg) .invalidElement
  pure (C.respond (← C.blindEvaluatePoprf sk blinded metadata r))

def finalizeToken (state : VoprfState F G) (resp : TokenResponse) (pk : G) : Result Token :=
  C.finalizeWith state resp fun ti evaluated proof =>
    C.finalizeVoprf ti state.blind evaluated state.blindedElement pk proof

def finalizeTokenPoprf (state : PoprfState F G) (resp : TokenResponse) : Result Token :=
  C.finalizeWith state.toVoprfState resp fun ti evaluated proof =>
    C.finalizePoprf ti state.blind evaluated state.blindedElement proof state.metadata
      state.tweakedKey

def verifyToken (token : Token) : Result Unit :=
  C.verifyWith token fun ti => .ok (C.evaluate sk ti 1)

def verifyTokenPoprf (token : Token) (metadata : Bytes) : Result Unit :=
  C.verifyWith token fun ti => C.evaluatePoprf sk ti metadata

/-! ## Honest runs -/

def issueToken : Result Token := do
  let (req, state) := C.createTokenRequest tokenType challenge nonce tokenKeyId blind
  let req ← C.tokenRequestFromBytes req.toBytes
  let resp ← C.issuerRespond sk r (sk • C.generator) req
  C.finalizeToken state resp (sk • C.generator)

def issueTokenPoprf (metadata : Bytes) : Result Token := do
  let (req, state) ← C.createTokenRequestPoprf tokenType challenge nonce tokenKeyId blind
    (sk • C.generator) metadata
  let req ← C.tokenRequestFromBytes req.toBytes
  let resp ← C.issuerRespondPoprf sk r req metadata
  C.finalizeTokenPoprf state resp

variable {C} {sk blind}

omit [DecidableEq G] in
theorem Lawful.issueToken_eq (hC : C.Lawful) (hsk : sk ≠ 0) (hblind : blind ≠ 0) :
    C.issueToken sk tokenType challenge nonce tokenKeyId blind r =
      .ok ⟨C.fields tokenType challenge nonce tokenKeyId,
        C.evaluate sk (C.fields tokenType challenge nonce tokenKeyId).tokenInput 1⟩ := by
  set ti := (C.fields tokenType challenge nonce tokenKeyId).tokenInput with hti
  have hblinded : blind • C.hashToGroup ti (C.dstGroup 1) ≠ 0 :=
    smul_ne_zero hblind (hC.hashToGroup_ne_zero _ _)
  simp only [issueToken, createTokenRequest, Suite.blind, ← hti,
    hC.tokenRequestFromBytes_toBytes hblinded, ok_bind, issuerRespond, hC.element hblinded, okOr,
    Option.elim_some, pure, Except.pure, blindEvaluateVoprf]
  have hproof := verifyProof_generateProofRng C sk C.generator
    [blind • C.hashToGroup ti (C.dstGroup 1)] 1 r
  refine hC.finalizeWith_respond (smul_ne_zero hsk hblinded) _ _ ?_
  exact (congrArg (C.finalizeChecked · ..) hproof).trans (finalizeChecked_blind hblind ..)

theorem Lawful.issueTokenPoprf_eq (hC : C.Lawful) {metadata : Bytes}
    (ht : sk + C.infoScalar metadata ≠ 0) (hblind : blind ≠ 0) :
    C.issueTokenPoprf sk tokenType challenge nonce tokenKeyId blind r metadata =
      .ok ⟨C.fields tokenType challenge nonce tokenKeyId,
        C.finalizeHash (C.fields tokenType challenge nonce tokenKeyId).tokenInput
          (C.serializeElement ((sk + C.infoScalar metadata)⁻¹ • C.hashToGroup
            (C.fields tokenType challenge nonce tokenKeyId).tokenInput (C.dstGroup 2)))
          (some metadata) 2⟩ := by
  set ti := (C.fields tokenType challenge nonce tokenKeyId).tokenInput with hti
  set t := sk + C.infoScalar metadata with ht'
  have hblinded : blind • C.hashToGroup ti (C.dstGroup 2) ≠ 0 :=
    smul_ne_zero hblind (hC.hashToGroup_ne_zero _ _)
  have htweaked : C.infoScalar metadata • C.generator + sk • C.generator = t • C.generator := by
    rw [← add_smul, add_comm]
  simp only [issueTokenPoprf, createTokenRequestPoprf, blindPoprf, htweaked, ← hti,
    if_neg (smul_ne_zero ht hC.generator_ne_zero), hC.tokenRequestFromBytes_toBytes hblinded,
    ok_bind, issuerRespondPoprf, hC.element hblinded, okOr, Option.elim_some, pure, Except.pure,
    blindEvaluatePoprf, ← ht', invert_of_ne_zero ht]
  have hproof := verifyProof_generateProofRng C t C.generator
    [t⁻¹ • blind • C.hashToGroup ti (C.dstGroup 2)] 2 r
  rw [map_singleton, smul_inv_smul₀ ht] at hproof
  refine hC.finalizeWith_respond (smul_ne_zero (inv_ne_zero ht) hblinded) _ _ ?_
  exact (congrArg (C.finalizeChecked · ..) hproof).trans (finalizeChecked_blind hblind ..)

/-- **Honest issuance succeeds**, with and without metadata, and the token verifies; its
authenticator is the evaluation of the token input, whatever the blind. -/
theorem issuance_complete (hC : C.Lawful) (hsk : sk ≠ 0) (hblind : blind ≠ 0) :
    (∃ token, C.issueToken sk tokenType challenge nonce tokenKeyId blind r = .ok token ∧
      C.verifyToken sk token = .ok () ∧
      token.authenticator =
        C.evaluate sk (C.fields tokenType challenge nonce tokenKeyId).tokenInput 1) ∧
    (∀ metadata, sk + C.infoScalar metadata ≠ 0 →
      ∃ token, C.issueTokenPoprf sk tokenType challenge nonce tokenKeyId blind r metadata =
          .ok token ∧
        C.verifyTokenPoprf sk token metadata = .ok () ∧
        C.evaluatePoprf sk (C.fields tokenType challenge nonce tokenKeyId).tokenInput metadata =
          .ok token.authenticator) ∧ ∀ (k : F) (a : G) (c : List G) (mode : UInt8),
      C.verifyProof a (k • a) c (c.map (k • ·))
        (C.generateProofRng k a (k • a) c (c.map (k • ·)) mode r) mode = true := by
  refine ⟨⟨_, hC.issueToken_eq _ _ _ _ _ hsk hblind, verifyWith_of_eq rfl (hC.length_hash _), rfl⟩,
    fun metadata ht => ?_, fun k a c mode => verifyProof_generateProofRng C k a c mode r⟩
  have hevaluate : ∀ input, C.evaluatePoprf sk input metadata = .ok (C.finalizeHash input
      (C.serializeElement ((sk + C.infoScalar metadata)⁻¹ • C.hashToGroup input (C.dstGroup 2)))
      (some metadata) 2) := by
    intro input
    rw [evaluatePoprf, invert_of_ne_zero ht]
    rfl
  exact ⟨_, hC.issueTokenPoprf_eq _ _ _ _ _ ht hblind,
    verifyWith_of_eq (hevaluate _) (hC.length_hash _), hevaluate _⟩

/-- A group of order three with hashes that depend on the data. -/
def triple : Suite (ZMod 3) (ZMod 3) where
  nh := 1
  ne := 1
  ns := 1
  generator := 1
  contextString mode := [mode]
  hash data := [data.sum]
  sha256 data := padTo 32 data
  hashToScalar data _ := data.sum.toNat
  hashToGroup data _ := if data.sum.toNat % 2 = 0 then 1 else 2
  serializeElement g := [UInt8.ofNat g.val]
  deserializeElement b := some b.sum.toNat
  serializeScalar x := [UInt8.ofNat x.val]
  deserializeScalar b := some b.sum.toNat

theorem lawful_triple : triple.Lawful := by
  refine ⟨by decide, fun _ _ => ?_, fun _ => rfl, fun _ => rfl, fun {g} _ => ?_, fun _ => rfl,
    fun x => ?_⟩
  · change (if _ then (1 : ZMod 3) else 2) ≠ 0
    split <;> decide
  · revert g
    decide
  · revert x
    decide

theorem issuance_complete_triple :
    let nonce := FixedBytes.replicate 32 7
    (∃ token, triple.issueToken 2 1 [5] nonce nonce 2 1 = .ok token ∧
      triple.verifyToken 2 token = .ok ()) ∧
    2 + triple.infoScalar [6] ≠ 0 ∧ ∃ token,
      triple.issueTokenPoprf 2 1 [5] nonce nonce 2 1 [6] = .ok token ∧
        triple.verifyTokenPoprf 2 token [6] = .ok () := by
  intro nonce
  have hinfo : 2 + triple.infoScalar [6] ≠ 0 := by decide +kernel
  obtain ⟨⟨token, hissue, hverify, -⟩, hpoprf, -⟩ :=
    issuance_complete 1 [5] nonce nonce 1 lawful_triple (show (2 : ZMod 3) ≠ 0 by decide)
      (show (2 : ZMod 3) ≠ 0 by decide)
  obtain ⟨token', hissue', hverify', -⟩ := hpoprf [6] hinfo
  exact ⟨⟨token, hissue, hverify⟩, hinfo, token', hissue', hverify'⟩

end Suite

end TptRfc.PrivacyPass
