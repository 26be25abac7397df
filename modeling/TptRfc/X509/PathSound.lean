import TptRfc.X509.Validate

/-!
# X.509: what an accepted path guarantees

A search from the end entity upwards finds a path and a pass from the anchor downwards checks it;
each of the two gives a part of what is wanted.
-/

namespace TptRfc.X509

open Lib Access List Option

variable (b : Backend) (cfg : ValidationConfig)

/-! ## What is guaranteed -/

def Issued (issuer cert : Certificate) : Prop :=
  (∃ name, subjectDer b issuer = some name ∧ issuerDer b cert = some name) ∧
    b.verifySignature cert issuer.subjectPublicKeyInfo = .ok ()

def MayIssue (cert : Certificate) : Prop := cert.assertsCa ∧ cert.keyUsage ≠ some false

structure PathSound (ee : Certificate) (path : List Certificate) : Prop where
  ends : path.getLast? = some ee
  starts : ∃ anchor ∈ cfg.trustAnchors, ∃ root, anchor.cert = some root ∧ path.head? = some root
  issued : path.IsChain (Issued b)
  current : ∀ cert ∈ path, cert.notBefore ≤ cfg.time ∧ cfg.time ≤ cert.notAfter
  mayIssue : ∀ cert ∈ path.dropLast, MayIssue cert
  endEntity : ee.assertsCa = false
  distinct : (path.tail.map (subjectDer b)).Nodup

/-! ## The search -/

variable {b cfg}

theorem eq_ok_of_isOk {ε : Type} {x : Except ε Unit} (h : x.isOk) : x = .ok () := by
  cases x with
  | error e => cases h
  | ok u => rfl

variable {cert ee last : Certificate} {chain path : List Certificate}

theorem issued_of_isIssuerOf {issuer : Certificate} (h : isIssuerOf b issuer cert) :
    Issued b issuer cert := by
  unfold isIssuerOf at h
  split at h
  · rename_i s i hs hi
    simp only [Bool.and_eq_true, decide_eq_true_eq] at h
    obtain ⟨⟨rfl, -⟩, hok⟩ := h
    exact ⟨⟨s, hs, hi⟩, eq_ok_of_isOk hok⟩
  · cases h

variable {ai depth fuel k : ℕ} {found : List Certificate × ℕ} {anchor : TrustAnchor}
  {s s' : ChainState} {spki : Spki}

theorem anchor_of_anchorFrom {issuer : Bytes} {anchors : List TrustAnchor}
    {i : ℕ} (h : anchorFrom b cert issuer i anchors = some ai) :
    ∃ j a, ai = i + j ∧ anchors[j]? = some a ∧ b.toDer a.name = some issuer ∧
      b.verifySignature cert a.spki = .ok () := by
  induction anchors generalizing i with
  | nil => cases h
  | cons a anchors ih =>
    unfold anchorFrom at h
    split at h
    · cases h
    · rename_i name hname
      split at h
      · rename_i hmatch
        cases h
        exact ⟨0, a, rfl, rfl, hmatch.1 ▸ hname, eq_ok_of_isOk hmatch.2⟩
      · obtain ⟨j, a', rfl, hget, hrest⟩ := ih h
        exact ⟨j + 1, a', by omega, hget, hrest⟩

def FromCerts (anchors : List TrustAnchor) : Prop := ∀ a ∈ anchors, ∃ cert, a = .fromCert cert

theorem root_of_matchesAnchor (hanchors : FromCerts cfg.trustAnchors)
    (h : matchesAnchor b cfg cert = some ai) :
    ∃ root, cfg.trustAnchors[ai]? = some (.fromCert root) ∧ Issued b root cert := by
  unfold matchesAnchor at h
  split at h
  · cases h
  · rename_i issuer hissuer
    obtain ⟨j, a, rfl, hget, hname, hok⟩ := anchor_of_anchorFrom h
    obtain ⟨root, rfl⟩ := hanchors a (mem_of_getElem? hget)
    rw [Nat.zero_add]
    exact ⟨root, hget, ⟨issuer, hname, hissuer⟩, hok⟩

structure Climb (b : Backend) (ee last : Certificate) (chain : List Certificate) : Prop where
  top : chain.reverse.head? = some last
  ends : chain.reverse.getLast? = some ee
  issued : chain.reverse.IsChain (Issued b)
  distinct : (chain.reverse.map (subjectDer b)).Nodup

theorem climb_ee (ee : Certificate) : Climb b ee ee [ee] :=
  ⟨rfl, rfl, isChain_singleton _, nodup_singleton _⟩

theorem Climb.push {cand : Certificate} (h : Climb b ee last chain)
    (hissuer : isIssuerOf b cand last)
    (hnew : ∀ c ∈ chain, subjectDer b c ≠ subjectDer b cand) :
    Climb b ee cand (chain ++ [cand]) := by
  obtain ⟨rest, hrest⟩ : ∃ rest, chain.reverse = last :: rest := by
    cases hrev : chain.reverse with
    | nil => have := h.top; rw [hrev] at this; cases this
    | cons c rest => have := h.top; rw [hrev] at this; cases this; exact ⟨rest, rfl⟩
  have hrev : (chain ++ [cand]).reverse = cand :: last :: rest := by
    rw [reverse_append, hrest]
    rfl
  refine ⟨by rw [hrev]; rfl, ?_, ?_, ?_⟩
  · rw [hrev, getLast?_cons_cons, ← hrest]
    exact h.ends
  · rw [hrev, isChain_cons_cons, ← hrest]
    exact ⟨issued_of_isIssuerOf hissuer, h.issued⟩
  · rw [hrev, map_cons, ← hrest, nodup_cons]
    refine ⟨fun hmem => ?_, h.distinct⟩
    obtain ⟨c, hc, heq⟩ := mem_map.mp hmem
    exact hnew c (mem_reverse.mp hc) heq

structure Candidate (b : Backend) (cfg : ValidationConfig) (ee : Certificate)
    (found : List Certificate × ℕ) : Prop where
  ends : found.1.getLast? = some ee
  starts : ∃ root rest, cfg.trustAnchors[found.2]? = some (.fromCert root) ∧ found.1 = root :: rest
  issued : found.1.IsChain (Issued b)
  distinct : (found.1.tail.map (subjectDer b)).Nodup

theorem Climb.candidate (hanchors : FromCerts cfg.trustAnchors) (h : Climb b ee last chain)
    (hfound : found ∈ anchored b cfg last chain) : Candidate b cfg ee found := by
  unfold anchored at hfound
  split at hfound
  · cases hfound
  · rename_i ai hai
    obtain ⟨root, hget, hissued⟩ := root_of_matchesAnchor hanchors hai
    rw [hget] at hfound
    rw [mem_singleton.mp hfound]
    have htop := h.top
    cases hrev : chain.reverse with
    | nil => rw [hrev] at htop; cases htop
    | cons c rest =>
      rw [hrev] at htop
      cases htop
      refine ⟨?_, ⟨root, _, hget, rfl⟩, ?_, hrev ▸ h.distinct⟩
      · rw [getLast?_cons_cons, ← hrev]
        exact h.ends
      · rw [isChain_cons_cons, ← hrev]
        exact ⟨hissued, h.issued⟩

theorem mem_collect {α β : Type} {search : α → Option (List β)} {as : List α} {out : List β}
    (h : collect search as = some out) {x : β} (hx : x ∈ out) :
    ∃ a ∈ as, ∃ found, search a = some found ∧ x ∈ found := by
  induction as generalizing out with
  | nil =>
    cases h
    cases hx
  | cons a as ih =>
    simp only [collect, bind_eq_bind, bind_eq_some_iff] at h
    obtain ⟨found, hfound, rest, hrest, hout⟩ := h
    cases hout
    rcases mem_append.mp hx with hx | hx
    · exact ⟨a, mem_cons_self, found, hfound, hx⟩
    · obtain ⟨a', ha', hrest⟩ := ih hrest hx
      exact ⟨a', mem_cons_of_mem a ha', hrest⟩

theorem collect_returns {α β : Type} (search : α → Option (List β)) (as : List α)
    (h : ∀ a ∈ as, ∃ found, search a = some found) : ∃ out, collect search as = some out := by
  induction as with
  | nil => exact ⟨[], rfl⟩
  | cons a as ih =>
    obtain ⟨found, hfound⟩ := h a mem_cons_self
    obtain ⟨rest, hrest⟩ := ih fun a' ha' => h a' (mem_cons_of_mem a ha')
    exact ⟨found ++ rest, by simp only [collect, hfound, hrest]; rfl⟩

theorem candidate_of_recurse (hanchors : FromCerts cfg.trustAnchors)
    {out : List (List Certificate × ℕ)} (h : recurse b cfg fuel last chain depth = some out)
    (hclimb : Climb b ee last chain) : ∀ found ∈ out, Candidate b cfg ee found := by
  induction fuel generalizing last chain depth out with
  | zero => cases h
  | succ fuel ih =>
    intro found hfound
    unfold recurse at h
    split at h
    · cases h
      cases hfound
    · simp only [bind_eq_bind, bind_eq_some_iff] at h
      obtain ⟨above, habove, hout⟩ := h
      cases hout
      rcases mem_append.mp hfound with hfound | hfound
      · obtain ⟨cand, -, found', hsearch, hmem⟩ := mem_collect habove hfound
        split at hsearch
        · cases hsearch
          cases hmem
        · rename_i hnew
          split at hsearch
          · rename_i hissuer
            refine ih hsearch (hclimb.push hissuer fun c hc heq => hnew ?_) found hmem
            exact any_eq_true.mpr ⟨c, hc, decide_eq_true heq⟩
          · cases hsearch
            cases hmem
      · exact hclimb.candidate hanchors hfound

theorem recurse_returns (h : 17 < fuel + depth) (last : Certificate)
    (chain : List Certificate) : ∃ out, recurse b cfg (fuel + 1) last chain depth = some out := by
  induction fuel generalizing last chain depth with
  | zero => exact ⟨[], by rw [recurse, if_pos (by omega)]⟩
  | succ fuel ih =>
    unfold recurse
    split
    · exact ⟨[], rfl⟩
    · obtain ⟨above, habove⟩ := collect_returns
        (fun cand =>
          if chain.any fun c => subjectDer b c = subjectDer b cand then some []
          else if isIssuerOf b cand last then
            recurse b cfg (fuel + 1) cand (chain ++ [cand]) (depth + 1)
          else some [])
        cfg.intermediates
        (by
          intro cand _
          split
          · exact ⟨[], rfl⟩
          · split
            · exact ih (by omega) cand (chain ++ [cand])
            · exact ⟨[], rfl⟩)
      exact ⟨above ++ anchored b cfg last chain, by rw [habove]; rfl⟩

/-! ## The pass -/

structure Passed (cfg : ValidationConfig) (isEe : Prop) (cert : Certificate) : Prop where
  current : validityCovers cert cfg.time
  mayIssue : ¬ isEe → MayIssue cert
  endEntity : isEe → cert.assertsCa = false

theorem assertsCa_of_checkBasicConstraints {isEe : Bool} {m m' : Option ℕ}
    (h : checkBasicConstraints b cert isEe m = .ok m') : cert.assertsCa = !isEe := by
  unfold checkBasicConstraints at h
  cases isEe <;> cases hca : cert.assertsCa <;> simp [hca] at h ⊢

theorem passed_of_checkCert (h : checkCert b cfg path anchor k cert spki s = .ok s') :
    Passed cfg (k = path.length - 1) cert := by
  simp only [checkCert, bind_eq_ok_iff] at h
  obtain ⟨_, _, _, hvalid, m, _, m', hbasic, _, husage, _⟩ := h
  have hca := assertsCa_of_checkBasicConstraints hbasic
  refine ⟨?_, fun hk => ⟨by simpa [hk] using hca, ?_⟩, fun hk => by simpa [hk] using hca⟩
  · unfold checkValidity at hvalid
    split at hvalid
    · assumption
    · cases hvalid
  · intro hnone
    simp [checkKeyUsage, hk, hnone] at husage

theorem passed_of_checkCerts {certs : List Certificate}
    (h : checkCerts b cfg path anchor k certs spki s = .ok s')
    (hk : k + certs.length = path.length) :
    (∀ cert ∈ certs, validityCovers cert cfg.time) ∧ (∀ cert ∈ certs.dropLast, MayIssue cert) ∧
      ∀ cert, certs.getLast? = some cert → cert.assertsCa = false := by
  induction certs generalizing k spki s with
  | nil =>
    refine ⟨fun c hc => absurd hc not_mem_nil, fun c hc => absurd hc not_mem_nil, fun c hc => ?_⟩
    rw [getLast?_nil] at hc
    cases hc
  | cons cert certs ih =>
    obtain ⟨s₁, hcert, hcerts⟩ := bind_eq_ok_iff.mp h
    have hpassed := passed_of_checkCert hcert
    rw [length_cons] at hk
    obtain ⟨hcurrent, hissue, hlast⟩ := ih hcerts (by omega)
    have hcurrent' : ∀ c ∈ cert :: certs, validityCovers c cfg.time := by
      intro c hc
      rcases mem_cons.mp hc with rfl | hc
      · exact hpassed.current
      · exact hcurrent c hc
    clear h hcert hcerts ih
    cases certs with
    | nil =>
      refine ⟨hcurrent', fun c hc => absurd hc not_mem_nil, fun c hc => ?_⟩
      rw [getLast?_singleton, some.injEq] at hc
      subst hc
      exact hpassed.endEntity (by simp only [length_nil] at hk; omega)
    | cons cert' certs =>
      refine ⟨hcurrent', fun c hc => ?_, by rwa [getLast?_cons_cons]⟩
      rw [dropLast_cons_cons] at hc
      rcases mem_cons.mp hc with rfl | hc
      · exact hpassed.mayIssue (by simp only [length_cons] at hk; omega)
      · exact hissue c hc

theorem sound_of_validateChain (hfound : Candidate b cfg ee found)
    (h : validateChain b cfg found.1 found.2 = .ok path) : PathSound b cfg ee path := by
  obtain ⟨root, rest, hget, hpath⟩ := hfound.starts
  simp only [validateChain, hget, bind_eq_ok_iff] at h
  obtain ⟨s, hcerts, -, -, -, -, heq⟩ := h
  cases heq
  obtain ⟨hcurrent, hissue, hlast⟩ := passed_of_checkCerts hcerts (Nat.zero_add _)
  refine ⟨hfound.ends, ⟨_, mem_of_getElem? hget, root, rfl, by rw [hpath]; rfl⟩,
    hfound.issued, fun cert hcert => ?_, hissue, hlast ee hfound.ends, hfound.distinct⟩
  simpa [validityCovers] using hcurrent cert hcert

theorem exists_candidate_of_validateFrom {chains : List (List Certificate × ℕ)}
    {e : ValidationError} (h : validateFrom b cfg chains e = .ok path) :
    ∃ found ∈ chains, validateChain b cfg found.1 found.2 = .ok path := by
  induction chains generalizing e with
  | nil => cases h
  | cons found chains ih =>
    unfold validateFrom at h
    split at h
    · rename_i validated hvalidated
      cases h
      exact ⟨found, mem_cons_self, hvalidated⟩
    · obtain ⟨found', hmem, hvalid⟩ := ih h
      exact ⟨found', mem_cons_of_mem found hmem, hvalid⟩
    · cases h

/-! ## Accepted paths -/

/-- **An accepted path is sound**, if the anchors are made from certificates, and the search for
candidate paths ends on every pool. -/
theorem validate_sound (b : Backend) (cfg : ValidationConfig) (ee : Certificate)
    (hanchors : FromCerts cfg.trustAnchors) :
    (∀ fuel, 18 < fuel → ∃ chains, buildChains b cfg fuel ee = some chains) ∧
      ∀ fuel path, validate b cfg fuel ee = some (.ok path) → PathSound b cfg ee path := by
  constructor
  · intro fuel hfuel
    obtain ⟨fuel, rfl⟩ : ∃ n, fuel = n + 1 := ⟨fuel - 1, by omega⟩
    exact recurse_returns (by omega) ee [ee]
  · intro fuel path h
    unfold validate at h
    split at h
    · cases h
    · obtain ⟨chains, hchains, hvalid⟩ := map_eq_some_iff.mp h
      obtain ⟨found, hmem, hfound⟩ := exists_candidate_of_validateFrom hvalid
      exact sound_of_validateChain
        (candidate_of_recurse hanchors hchains (climb_ee ee) found hmem) hfound

def exampleCert (subject issuer key issuerKey : Bytes) (ca : Bool) : Certificate where
  subject := ⟨[subject]⟩
  issuer := ⟨[issuer]⟩
  subjectPublicKeyInfo := ⟨key⟩
  notBefore := 0
  notAfter := 10
  serialNumber := key
  basicConstraints := some ⟨ca, none⟩
  keyUsage := some ca
  extendedKeyUsage := none
  nameConstraints := none
  subjectAltName := none
  certificatePolicies := none
  signature := issuerKey

def exampleBackend : Backend where
  toDer name := some name.rdns.flatten
  fromDer der := some ⟨[der]⟩
  verifySignature cert spki :=
    if cert.signature = spki.der then .ok () else .error (.signature none [])
  verifySignatureRaw _ _ _ _ := .ok ()

def exampleConfig : ValidationConfig where
  trustAnchors := [.fromCert (exampleCert [1] [1] [11] [11] true)]
  intermediates := [exampleCert [2] [3] [12] [13] true, exampleCert [3] [2] [13] [12] true,
    exampleCert [3] [1] [13] [11] true]
  time := 5
  requiredEku := none
  initialPolicies := [anyPolicy]
  checkRevocation := false
  crls := []

theorem validate_sound_cross_certified :
    validate exampleBackend exampleConfig 19 (exampleCert [4] [2] [14] [12] false) =
        some (.ok [exampleCert [1] [1] [11] [11] true, exampleCert [3] [1] [13] [11] true,
          exampleCert [2] [3] [12] [13] true, exampleCert [4] [2] [14] [12] false]) ∧
      PathSound exampleBackend exampleConfig (exampleCert [4] [2] [14] [12] false)
        [exampleCert [1] [1] [11] [11] true, exampleCert [3] [1] [13] [11] true,
          exampleCert [2] [3] [12] [13] true, exampleCert [4] [2] [14] [12] false] := by
  have hvalid : validate exampleBackend exampleConfig 19 (exampleCert [4] [2] [14] [12] false) =
      some (.ok [exampleCert [1] [1] [11] [11] true, exampleCert [3] [1] [13] [11] true,
        exampleCert [2] [3] [12] [13] true, exampleCert [4] [2] [14] [12] false]) := by
    rfl
  refine ⟨hvalid, (validate_sound _ _ _ fun a ha => ?_).2 19 _ hvalid⟩
  exact ⟨_, mem_singleton.mp ha⟩

end TptRfc.X509
