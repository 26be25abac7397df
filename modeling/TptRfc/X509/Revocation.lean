import TptRfc.X509.PathSound

/-!
# X.509: revocation

`check_revocation` goes through the revocation lists in the order in which they are configured.
-/

namespace TptRfc.X509

open Lib Access List

variable (b : Backend)

/-! ## What revokes a certificate -/

def HasKey (path : List Certificate) (anchor : TrustAnchor) (name : Bytes) (key : Spki) : Prop :=
  (∃ c ∈ path, subjectDer b c = some name ∧ c.subjectPublicKeyInfo = key) ∨
    (b.toDer anchor.name = some name ∧ anchor.spki = key)

def ListedUnder (cert : Certificate) (crl : CertificateList) (key : Spki) : Prop :=
  (∃ signed, crl.tbsDer = some signed ∧
    b.verifySignatureRaw signed crl.signature key crl.signatureAlgorithm = .ok ()) ∧
    cert.serialNumber ∈ crl.revokedCertificates.getD []

def Revokes (path : List Certificate) (anchor : TrustAnchor) (cert : Certificate)
    (crl : CertificateList) : Prop :=
  ∃ name key, issuerDer b cert = some name ∧ b.toDer crl.issuer = some name ∧
    HasKey b path anchor name key ∧ ListedUnder b cert crl key

def Lists (path : List Certificate) (anchor : TrustAnchor) (cert : Certificate)
    (crl : CertificateList) : Prop :=
  ∃ name key, b.toDer crl.issuer = some name ∧ crlKey b path anchor name = some key ∧
    ListedUnder b cert crl key

def Stranger (path : List Certificate) (anchor : TrustAnchor) (crl : CertificateList) : Prop :=
  ∃ name, b.toDer crl.issuer = some name ∧ crlKey b path anchor name = none

/-! ## One certificate -/

section Check

variable {b} {path : List Certificate} {anchor : TrustAnchor} {cert : Certificate}

theorem checkRevocation_cons (crl : CertificateList) (crls : List CertificateList) :
    (b.toDer crl.issuer = none ∧
      checkRevocation b cert path anchor (crl :: crls) = checkRevocation b cert path anchor crls) ∨
    (Stranger b path anchor crl ∧ checkRevocation b cert path anchor (crl :: crls) = none) ∨
    (∃ e, (∀ s, e ≠ .revoked s) ∧ ¬ Lists b path anchor cert crl ∧
      checkRevocation b cert path anchor (crl :: crls) = some e) ∨ (Lists b path anchor cert crl ∧
      checkRevocation b cert path anchor (crl :: crls) = some (.revoked cert.serialNumber)) ∨
    (cert.serialNumber ∉ crl.revokedCertificates.getD [] ∧
      checkRevocation b cert path anchor (crl :: crls) =
        checkRevocation b cert path anchor crls) := by
  rw [checkRevocation]
  cases hname : b.toDer crl.issuer with
  | none => exact .inl ⟨rfl, rfl⟩
  | some name =>
    refine .inr ?_
    dsimp only
    cases hkey : crlKey b path anchor name with
    | none => exact .inl ⟨⟨name, hname, hkey⟩, rfl⟩
    | some key =>
      refine .inr ?_
      dsimp only
      have hlists : Lists b path anchor cert crl ↔ ListedUnder b cert crl key := by
        constructor
        · rintro ⟨name', key', hname', hkey', h⟩
          rw [hname] at hname'
          cases hname'
          rw [hkey] at hkey'
          cases hkey'
          exact h
        · exact fun h => ⟨name, key, hname, hkey, h⟩
      cases htbs : crl.tbsDer with
      | none =>
        refine .inl ⟨.encoding, nofun, ?_, rfl⟩
        rw [hlists]
        rintro ⟨⟨signed, hsigned, -⟩, -⟩
        rw [htbs] at hsigned
        cases hsigned
      | some signed =>
        dsimp only
        cases hsig : b.verifySignatureRaw signed crl.signature key crl.signatureAlgorithm with
        | error reason =>
          refine .inl ⟨.crlSignature name reason, nofun, ?_, rfl⟩
          rw [hlists]
          rintro ⟨⟨signed', hsigned, hok⟩, -⟩
          rw [htbs] at hsigned
          cases hsigned
          rw [hsig] at hok
          cases hok
        | ok u =>
          by_cases hserial : cert.serialNumber ∈ crl.revokedCertificates.getD []
          · exact .inr (.inl ⟨hlists.mpr ⟨⟨signed, htbs, hsig⟩, hserial⟩, if_pos hserial⟩)
          · exact .inr (.inr ⟨hserial, if_neg hserial⟩)

variable {crl : CertificateList} {crls : List CertificateList}

theorem checkRevocation_of_stranger (h : Stranger b path anchor crl)
    (crls : List CertificateList) : checkRevocation b cert path anchor (crl :: crls) = none := by
  obtain ⟨name, hname, hkey⟩ := h
  simp only [checkRevocation, hname, hkey]

theorem checkRevocation_of_lists (h : Lists b path anchor cert crl) (crls : List CertificateList) :
    checkRevocation b cert path anchor (crl :: crls) = some (.revoked cert.serialNumber) := by
  obtain ⟨name, key, hname, hkey, ⟨signed, hsigned, hsig⟩, hserial⟩ := h
  simp only [checkRevocation, hname, hkey, hsigned, hsig, if_pos hserial]

theorem checkRevocation_ne_none (hstrangers : ∀ crl ∈ crls, ¬ Stranger b path anchor crl)
    (hrevokes : ∃ crl ∈ crls, Revokes b path anchor cert crl) :
    checkRevocation b cert path anchor crls ≠ none := by
  induction crls with
  | nil =>
    obtain ⟨crl, hcrl, -⟩ := hrevokes
    cases hcrl
  | cons crl crls ih =>
    have hrest : ¬ Revokes b path anchor cert crl →
        checkRevocation b cert path anchor crls ≠ none := by
      intro hnot
      refine ih (fun c hc => hstrangers c (mem_cons_of_mem crl hc)) ?_
      obtain ⟨c, hc, h⟩ := hrevokes
      rcases mem_cons.mp hc with rfl | hc
      · exact absurd h hnot
      · exact ⟨c, hc, h⟩
    rcases @checkRevocation_cons b path anchor cert crl crls
      with ⟨hname, h⟩ | ⟨hs, -⟩ | ⟨e, -, -, h⟩ | ⟨-, h⟩ | ⟨hserial, h⟩
    · rw [h]
      refine hrest ?_
      rintro ⟨name, key, -, hname', -⟩
      rw [hname] at hname'
      cases hname'
    · exact absurd hs (hstrangers crl mem_cons_self)
    · rw [h]
      nofun
    · rw [h]
      nofun
    · rw [h]
      refine hrest ?_
      rintro ⟨name, key, -, -, -, -, hserial'⟩
      exact hserial hserial'

theorem lists_of_checkRevocation {s : Bytes}
    (h : checkRevocation b cert path anchor crls = some (.revoked s)) :
    s = cert.serialNumber ∧ ∃ crl ∈ crls, Lists b path anchor cert crl := by
  induction crls with
  | nil => cases h
  | cons crl crls ih =>
    have hlater : checkRevocation b cert path anchor crls = some (.revoked s) →
        s = cert.serialNumber ∧ ∃ c ∈ crl :: crls, Lists b path anchor cert c := by
      intro hrest
      obtain ⟨hs, c, hc, hlists⟩ := ih hrest
      exact ⟨hs, c, mem_cons_of_mem crl hc, hlists⟩
    rcases @checkRevocation_cons b path anchor cert crl crls
      with ⟨-, heq⟩ | ⟨-, heq⟩ | ⟨e, he, -, heq⟩ | ⟨hlists, heq⟩ | ⟨-, heq⟩
    · exact hlater (heq ▸ h)
    · rw [heq] at h
      cases h
    · rw [heq] at h
      exact absurd (Option.some.inj h) (he s)
    · rw [heq] at h
      cases h
      exact ⟨rfl, crl, mem_cons_self, hlists⟩
    · exact hlater (heq ▸ h)

end Check

/-! ## A path -/

def ValidationConfig.withCrls (cfg : ValidationConfig) (crls : List CertificateList) :
    ValidationConfig :=
  { cfg with checkRevocation := true, crls }

def ValidationConfig.withoutCrls (cfg : ValidationConfig) : ValidationConfig :=
  { cfg with checkRevocation := false }

section Chain

variable {b} {cfg : ValidationConfig} {path : List Certificate} {anchor : TrustAnchor}
  {crls : List CertificateList}

variable {cert : Certificate} {k ai : ℕ} {s s' : ChainState} {spki : Spki}

theorem checkCert_ok_iff : checkCert b (cfg.withCrls crls) path anchor k cert spki s = .ok s' ↔
      checkCert b cfg.withoutCrls path anchor k cert spki s = .ok s' ∧
        checkRevocation b cert path anchor crls = none := by
  have hon : checkRevoked b (cfg.withCrls crls) cert path anchor = .ok () ↔
      checkRevocation b cert path anchor crls = none := by
    simp only [checkRevoked, ValidationConfig.withCrls, if_true]
    cases checkRevocation b cert path anchor crls <;> simp
  have hoff : checkRevoked b cfg.withoutCrls cert path anchor = .ok () := rfl
  simp only [checkCert, bind_eq_ok_iff]
  constructor
  · rintro ⟨_, hsig, _, hvalid, m, hlen, m', hbasic, _, husage, _, hnames, _, hrevoked, hs⟩
    exact ⟨⟨_, hsig, _, hvalid, m, hlen, m', hbasic, _, husage, _, hnames, _, hoff, hs⟩,
      hon.mp hrevoked⟩
  · rintro ⟨⟨_, hsig, _, hvalid, m, hlen, m', hbasic, _, husage, _, hnames, _, -, hs⟩, hnone⟩
    exact ⟨_, hsig, _, hvalid, m, hlen, m', hbasic, _, husage, _, hnames, _, hon.mpr hnone, hs⟩

theorem checkCerts_ok_iff {certs : List Certificate} :
    checkCerts b (cfg.withCrls crls) path anchor k certs spki s = .ok s' ↔
      checkCerts b cfg.withoutCrls path anchor k certs spki s = .ok s' ∧
        ∀ cert ∈ certs, checkRevocation b cert path anchor crls = none := by
  induction certs generalizing k spki s with
  | nil => simp [checkCerts]
  | cons cert certs ih =>
    simp only [checkCerts, bind_eq_ok_iff, checkCert_ok_iff, ih, forall_mem_cons]
    constructor
    · rintro ⟨s₁, ⟨hcert, hnone⟩, hcerts, hall⟩
      exact ⟨⟨s₁, hcert, hcerts⟩, hnone, hall⟩
    · rintro ⟨⟨s₁, hcert, hcerts⟩, hnone, hall⟩
      exact ⟨s₁, ⟨hcert, hnone⟩, hcerts, hall⟩

theorem validateChain_ok_iff (hanchor : cfg.trustAnchors[ai]? = some anchor)
    {out : List Certificate} : validateChain b (cfg.withCrls crls) path ai = .ok out ↔
      validateChain b cfg.withoutCrls path ai = .ok out ∧
        ∀ cert ∈ path, checkRevocation b cert path anchor crls = none := by
  have hon : (cfg.withCrls crls).trustAnchors[ai]? = some anchor := hanchor
  have hoff : cfg.withoutCrls.trustAnchors[ai]? = some anchor := hanchor
  simp only [validateChain, hon, hoff, bind_eq_ok_iff, checkCerts_ok_iff]
  constructor
  · rintro ⟨s, ⟨hcerts, hnone⟩, hrest⟩
    exact ⟨⟨s, hcerts, hrest⟩, hnone⟩
  · rintro ⟨⟨s, hcerts, hrest⟩, hnone⟩
    exact ⟨s, ⟨hcerts, hnone⟩, hrest⟩

/-! ### Where `Revoked` comes from -/

def RevokedOnly (P : Bytes → Prop) {α : Type} (x : Except (Fault ValidationError) α) : Prop :=
  ∀ s, x = .error (.error (.revoked s)) → P s

variable {P : Bytes → Prop}

theorem RevokedOnly.bind {α β : Type} {x : Except (Fault ValidationError) α}
    {f : α → Except (Fault ValidationError) β} (hx : RevokedOnly P x)
    (hf : ∀ a, RevokedOnly P (f a)) : RevokedOnly P (x >>= f) := by
  intro s h
  cases x with
  | error e => exact hx s (congrArg Except.error (Except.error.inj h))
  | ok a => exact hf a s h

theorem revokedOnly_anyMatches (name : GeneralNameLike) (subtrees : List GeneralSubtreeLike) :
    RevokedOnly P (anyMatches b name subtrees) := by
  induction subtrees with
  | nil => nofun
  | cons t subtrees ih =>
    refine RevokedOnly.bind (fun s h => ?_) fun found => ?_
    · unfold nameMatches dnWithin at h
      split at h <;> try cases h
      split at h <;> try cases h
      split at h <;> cases h
    · cases found
      · exact ih
      · nofun

theorem revokedOnly_checkConstraints (cert : Certificate)
    (permitted excluded : List GeneralSubtreeLike) :
    RevokedOnly P (checkConstraints b cert permitted excluded) := by
  unfold checkConstraints
  induction candidateNames b cert with
  | nil => nofun
  | cons name names ih =>
    refine RevokedOnly.bind ?_ fun _ => ih
    refine RevokedOnly.bind (revokedOnly_anyMatches name excluded) fun found => ?_
    split
    · nofun
    · split
      · refine RevokedOnly.bind (revokedOnly_anyMatches name permitted) fun found => ?_
        split <;> nofun
      · nofun

def Backend.Plain (b : Backend) : Prop :=
  ∀ cert spki s, b.verifySignature cert spki ≠ .error (.revoked s)

theorem revokedOnly_checkCert (hb : b.Plain) {st : ChainState}
    (hP : ∀ s, checkRevocation b cert path anchor crls = some (.revoked s) → P s) :
    RevokedOnly P (checkCert b (cfg.withCrls crls) path anchor k cert spki st) := by
  refine RevokedOnly.bind ?_ fun _ => RevokedOnly.bind ?_ fun _ => RevokedOnly.bind ?_ fun _ =>
    RevokedOnly.bind ?_ fun _ => RevokedOnly.bind ?_ fun _ =>
    RevokedOnly.bind (revokedOnly_checkConstraints _ _ _) fun _ => RevokedOnly.bind ?_ fun _ => ?_
  · intro s h
    unfold checkSignature at h
    split at h
    · cases h
    · cases h
    · rename_i e herror
      cases h
      exact absurd herror (hb cert spki s)
  · intro s h
    unfold checkValidity at h
    split at h <;> cases h
  · intro s h
    unfold decrementPathLen at h
    split at h
    · cases h
    · split at h <;> cases h
  · intro s h
    unfold checkBasicConstraints at h
    split at h
    · split at h <;> cases h
    · split at h
      · split at h <;> cases h
      · cases h
  · intro s h
    unfold checkKeyUsage at h
    split at h <;> cases h
  · intro s h
    simp only [checkRevoked, ValidationConfig.withCrls, if_true] at h
    cases hcheck : checkRevocation b cert path anchor crls with
    | none => rw [hcheck] at h; cases h
    | some e =>
      rw [hcheck] at h
      cases h
      exact hP s hcheck
  · nofun

theorem revokedOnly_validateChain (hb : b.Plain) (hanchor : cfg.trustAnchors[ai]? = some anchor)
    (hP : ∀ cert ∈ path, ∀ s, checkRevocation b cert path anchor crls = some (.revoked s) → P s) :
    RevokedOnly P (validateChain b (cfg.withCrls crls) path ai) := by
  have hcerts : ∀ certs : List Certificate, (∀ cert ∈ certs, cert ∈ path) → ∀ k spki st,
      RevokedOnly P (checkCerts b (cfg.withCrls crls) path anchor k certs spki st) := by
    intro certs
    induction certs with
    | nil =>
      intro _ k spki st s h
      cases h
    | cons cert certs ih =>
      intro hmem k spki st
      refine RevokedOnly.bind ?_ fun _ =>
        ih (fun c hc => hmem c (mem_cons_of_mem _ hc)) _ _ _
      exact revokedOnly_checkCert hb (hP cert (hmem cert mem_cons_self))
  have hon : (cfg.withCrls crls).trustAnchors[ai]? = some anchor := hanchor
  simp only [validateChain, hon]
  refine RevokedOnly.bind (hcerts path (fun _ h => h) _ _ _) fun st =>
    RevokedOnly.bind ?_ fun _ => RevokedOnly.bind ?_ fun _ => ?_
  · intro s h
    unfold checkEku at h
    split at h
    · cases h
    · dsimp only at h
      split at h
      · cases h
      · split at h
        · cases h
        · split at h
          · split at h <;> cases h
          · cases h
  · intro s h
    unfold checkPolicy at h
    split at h
    · cases h
    · split at h
      · cases h
      · split at h <;> cases h
  · intro s h
    cases h

end Chain

/-! ## Over all orders of the lists -/

/-- **Exact revocation.**  Whatever the order of the lists is, a path with a revoked certificate
is not accepted, and a certificate is taken for revoked, and a path rejected for it, only if a
list revokes it. -/
def RevocationExact (cfg : ValidationConfig) (path : List Certificate) (anchor : TrustAnchor)
    (ai : ℕ) (crls : List CertificateList) : Prop :=
  ∀ order : List CertificateList, order.Perm crls →
    ((∃ cert ∈ path, ∃ crl ∈ crls, Revokes b path anchor cert crl) →
      ∀ out, validateChain b (cfg.withCrls order) path ai ≠ .ok out) ∧
    (∀ cert ∈ path, ∀ s, checkRevocation b cert path anchor order = some (.revoked s) →
      ∃ crl ∈ crls, Revokes b path anchor cert crl) ∧
    ∀ s, validateChain b (cfg.withCrls order) path ai = .error (.error (.revoked s)) →
      ∃ cert ∈ path, s = cert.serialNumber ∧ ∃ crl ∈ crls, Revokes b path anchor cert crl

/-- **Revocation.**  It is exact if and only if no list is by a stranger where one revokes a
certificate of a path that is in order otherwise, and no list has the serial number of a
certificate that is not revoked. -/
theorem revocation_exact_iff {b : Backend} (hb : b.Plain) {cfg : ValidationConfig}
    {path : List Certificate} {anchor : TrustAnchor} {ai : ℕ}
    (hanchor : cfg.trustAnchors[ai]? = some anchor) (crls : List CertificateList) :
    RevocationExact b cfg path anchor ai crls ↔
      ((∃ cert ∈ path, ∃ crl ∈ crls, Revokes b path anchor cert crl) →
        (∀ crl ∈ crls, ¬ Stranger b path anchor crl) ∨
          ∀ out, validateChain b cfg.withoutCrls path ai ≠ .ok out) ∧
      ∀ cert ∈ path, ∀ crl ∈ crls, Lists b path anchor cert crl →
        ∃ crl' ∈ crls, Revokes b path anchor cert crl' := by
  constructor
  · intro hexact
    refine ⟨fun hrevoked => ?_, fun cert hcert crl hcrl hlists => ?_⟩
    · by_contra hno
      push Not at hno
      obtain ⟨⟨crl, hcrl, hstranger⟩, out, hout⟩ := hno
      -- with the stranger in front, no certificate is looked up
      have horder : (crl :: crls.erase crl).Perm crls := (perm_cons_erase hcrl).symm
      refine (hexact _ horder).1 hrevoked out ((validateChain_ok_iff hanchor).mpr ⟨hout, ?_⟩)
      exact fun cert _ => checkRevocation_of_stranger hstranger _
    · have horder : (crl :: crls.erase crl).Perm crls := (perm_cons_erase hcrl).symm
      exact (hexact _ horder).2.1 cert hcert _ (checkRevocation_of_lists hlists _)
  · rintro ⟨hheard, hissuer⟩ order horder
    have hcheck : ∀ cert ∈ path, ∀ s,
        checkRevocation b cert path anchor order = some (.revoked s) →
          s = cert.serialNumber ∧ ∃ crl ∈ crls, Revokes b path anchor cert crl := by
      intro cert hcert s hs
      obtain ⟨heq, crl, hcrl, hlists⟩ := lists_of_checkRevocation hs
      exact ⟨heq, hissuer cert hcert crl (horder.mem_iff.mp hcrl) hlists⟩
    refine ⟨fun hrevoked out hout => ?_, fun cert hcert s hs => (hcheck cert hcert s hs).2, ?_⟩
    · obtain ⟨hoff, hnone⟩ := (validateChain_ok_iff hanchor).mp hout
      rcases hheard hrevoked with hstrangers | hrejected
      · obtain ⟨cert, hcert, crl, hcrl, hrevokes⟩ := hrevoked
        refine checkRevocation_ne_none (fun c hc => hstrangers c (horder.mem_iff.mp hc))
          ⟨crl, horder.mem_iff.mpr hcrl, hrevokes⟩ (hnone cert hcert)
      · exact hrejected out hoff
    · refine revokedOnly_validateChain hb hanchor fun cert hcert s hs => ?_
      exact ⟨cert, hcert, hcheck cert hcert s hs⟩

def exampleCrl (issuer : Bytes) (serials : List Bytes) : CertificateList :=
  ⟨⟨[issuer]⟩, some [], [], [], some serials⟩

theorem plain_exampleBackend : exampleBackend.Plain := by
  intro cert spki s h
  simp only [exampleBackend] at h
  split at h <;> cases h

/-- Two lists by the root, of which one revokes the end entity. -/
theorem revocation_exact_two_lists : RevocationExact exampleBackend exampleConfig
      [exampleCert [1] [1] [11] [11] true, exampleCert [4] [1] [14] [11] false]
      (.fromCert (exampleCert [1] [1] [11] [11] true)) 0
      [exampleCrl [1] [[99]], exampleCrl [1] [[14]]] := by
  refine (revocation_exact_iff plain_exampleBackend rfl _).mpr ⟨fun _ => .inl ?_, ?_⟩
  · rintro crl hcrl ⟨name, hname, hkey⟩
    fin_cases hcrl <;> cases hname <;> cases hkey
  · rintro cert hcert crl hcrl ⟨name, key, hname, hkey, hlisted⟩
    have hroot : name = [1] ∧ key = ⟨[11]⟩ := by
      fin_cases hcrl <;> cases hname <;> cases hkey <;> exact ⟨rfl, rfl⟩
    obtain ⟨rfl, rfl⟩ := hroot
    refine ⟨crl, hcrl, [1], ⟨[11]⟩, ?_, hname, .inr ⟨rfl, rfl⟩, hlisted⟩
    fin_cases hcert <;> rfl

/-- A list by a stranger hides the one that revokes the end entity, unless it stands behind it;
and an end entity is taken for revoked because the root has revoked that serial number. -/
theorem stranger_and_serial_collision : validate exampleBackend
        (exampleConfig.withCrls [exampleCrl [9] [], exampleCrl [1] [[14]]]) 19
        (exampleCert [4] [1] [14] [11] false) =
      some (.ok [exampleCert [1] [1] [11] [11] true, exampleCert [4] [1] [14] [11] false]) ∧
    validate exampleBackend
        (exampleConfig.withCrls [exampleCrl [1] [[14]], exampleCrl [9] []]) 19
        (exampleCert [4] [1] [14] [11] false) = some (.error (.error (.revoked [14]))) ∧
    validate exampleBackend (exampleConfig.withCrls [exampleCrl [1] [[14]]]) 19
        (exampleCert [4] [3] [14] [13] false) = some (.error (.error (.revoked [14]))) ∧
    ¬ RevocationExact exampleBackend exampleConfig
      [exampleCert [1] [1] [11] [11] true, exampleCert [4] [1] [14] [11] false]
      (.fromCert (exampleCert [1] [1] [11] [11] true)) 0
      [exampleCrl [9] [], exampleCrl [1] [[14]]] ∧
    ¬ RevocationExact exampleBackend exampleConfig
      [exampleCert [1] [1] [11] [11] true, exampleCert [3] [1] [13] [11] true,
        exampleCert [4] [3] [14] [13] false]
      (.fromCert (exampleCert [1] [1] [11] [11] true)) 0 [exampleCrl [1] [[14]]] := by
  refine ⟨rfl, rfl, rfl, fun h => ?_, fun h => ?_⟩
  · exact (h _ (.refl _)).1 ⟨_, mem_cons_of_mem _ mem_cons_self, _,
      mem_cons_of_mem _ mem_cons_self, [1], ⟨[11]⟩, rfl, rfl, .inr ⟨rfl, rfl⟩, ⟨_, rfl, rfl⟩,
      mem_cons_self⟩ _ rfl
  · obtain ⟨cert, hcert, hserial, crl, hcrl, name, key, hname, hissuer, -⟩ :=
      (h _ (.refl _)).2.2 [14] rfl
    cases mem_singleton.mp hcrl
    cases hissuer
    fin_cases hcert <;> cases hserial
    cases hname

end TptRfc.X509
