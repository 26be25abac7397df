import TptRfc.X509.PathSound

/-!
# X.509: the length of a path

`validate_chain` keeps one limit: at first that of the anchor, lowered by every certificate that is
not self-issued and cut down by the constraint of every CA.
-/

namespace TptRfc.X509

open Lib Access List

variable (b : Backend)

/-! ## What a constraint allows -/

def Exceeded (limit : Option ℕ) (n : ℕ) : Prop := ∃ l, limit = some l ∧ l < n

def Certificate.pathLen (cert : Certificate) : Option ℕ :=
  cert.basicConstraints.bind (·.pathLenConstraint)

def countIssued (certs : List Certificate) : ℕ := certs.countP fun c => !isSelfIssued b c

def ExceedsCa (count : List Certificate → ℕ) (path : List Certificate) : Prop :=
  ∃ ca rest, ca :: rest <:+ path ∧ rest ≠ [] ∧ Exceeded ca.pathLen (count rest)

/-- **RFC 5280.** The intermediate certificates exceed a constraint, of a CA on the path or of the
anchor. -/
def IntermediatesExceed (anchor : TrustAnchor) (path : List Certificate) : Prop :=
  Exceeded anchor.pathLen
      (countIssued b (path.drop anchor.cert.toList.length).dropLast) ∨
    ExceedsCa (fun rest => countIssued b rest.dropLast) path

def CertificatesExceed (anchor : TrustAnchor) (path : List Certificate) : Prop :=
  Exceeded anchor.pathLen (countIssued b path) ∨ ExceedsCa (countIssued b) path

variable {limit : Option ℕ} {n k : ℕ} {s s' : ChainState} {spki : Spki}

theorem Exceeded.mono {m : ℕ} (h : Exceeded limit m) (hle : m ≤ n) : Exceeded limit n := by
  obtain ⟨l, hl, hlt⟩ := h
  exact ⟨l, hl, hlt.trans_le hle⟩

variable {certs : List Certificate} {cert : Certificate}

theorem countIssued_le_of_sublist {certs' : List Certificate} (h : certs.Sublist certs') :
    countIssued b certs ≤ countIssued b certs' :=
  h.countP_le

theorem IntermediatesExceed.certificates {anchor : TrustAnchor} {path : List Certificate}
    (h : IntermediatesExceed b anchor path) : CertificatesExceed b anchor path := by
  rcases h with h | ⟨ca, rest, hsuffix, hrest, h⟩
  · refine .inl (h.mono (countIssued_le_of_sublist b ?_))
    exact (dropLast_sublist _).trans (drop_sublist _ _)
  · exact .inr ⟨ca, rest, hsuffix, hrest, h.mono (countIssued_le_of_sublist b (dropLast_sublist _))⟩

def checkCertsUnlimited (cfg : ValidationConfig) (path : List Certificate) (anchor : TrustAnchor) :
    ℕ → List Certificate → Spki → ChainState → Except (Fault ValidationError) ChainState
  | _, [], _, s => .ok s
  | k, cert :: certs, workingSpki, s => do
    let s ← checkCert b cfg path anchor k cert workingSpki { s with maxPathLen := none }
    checkCertsUnlimited cfg path anchor (k + 1) certs cert.subjectPublicKeyInfo s

def PassesOtherChecks (cfg : ValidationConfig) (path : List Certificate)
    (anchor : TrustAnchor) : Prop :=
  ∃ s, checkCertsUnlimited b cfg path anchor 0 path anchor.spki
      ⟨none, anchor.permittedSubtrees, anchor.excludedSubtrees.getD [], none⟩ = .ok s ∧
    checkEku cfg path s.ekuAllowed = .ok () ∧ checkPolicy cfg path = .ok ()

/-! ## The running limit -/

def tighter : Option ℕ → Option ℕ → Option ℕ
  | some l, some l' => some (min l l')
  | some l, none => some l
  | none, l => l

theorem exceeded_tighter_iff {l l' : Option ℕ} :
    Exceeded (tighter l l') n ↔ Exceeded l n ∨ Exceeded l' n := by
  cases l <;> cases l' <;> simp [tighter, Exceeded]

def limitBehind (cert : Certificate) (isEe : Bool) (limit : Option ℕ) : Option ℕ :=
  let limit := if isSelfIssued b cert then limit else limit.map (· - 1)
  if isEe then limit else tighter cert.pathLen limit

variable {b} {cfg : ValidationConfig} {path : List Certificate} {anchor : TrustAnchor}

theorem checkCert_limited
    (h : checkCert b cfg path anchor k cert spki { s with maxPathLen := none } = .ok s')
    (limit : Option ℕ) :
    checkCert b cfg path anchor k cert spki { s with maxPathLen := limit } =
      if isSelfIssued b cert = false ∧ limit = some 0 then .error (.error (.pathLen k 0))
      else .ok { s' with maxPathLen := limitBehind b cert (k = path.length - 1) limit } := by
  simp only [checkCert, bind_eq_ok_iff] at h
  obtain ⟨_, hsig, _, hvalid, m, hlen, m', hbasic, _, husage, _, hnames, _, hrevoked, hs⟩ := h
  have hca := assertsCa_of_checkBasicConstraints hbasic
  have hbasic' : ∀ m, checkBasicConstraints b cert (k = path.length - 1) m =
      .ok (if k = path.length - 1 then m else tighter cert.pathLen m) := by
    intro m
    unfold checkBasicConstraints
    by_cases hee : k = path.length - 1
    · simp only [hee, decide_true, if_true] at hca ⊢
      rw [hca]
      rfl
    · simp only [hee, decide_false, Bool.not_false, if_false] at hca ⊢
      rw [hca, if_pos rfl, ← Certificate.pathLen]
      cases cert.pathLen <;> cases m <;> simp [tighter, min_comm]
  cases hs
  simp only [checkCert, hsig, hvalid, ok_bind]
  unfold decrementPathLen limitBehind
  cases hself : isSelfIssued b cert with
  | true =>
    simp only [if_true, ok_bind, hbasic', husage, hnames, hrevoked]
    simp [pure, Except.pure]
  | false =>
    rcases limit with - | - | l
    · simp [ok_bind, hbasic', husage, hnames, hrevoked, pure, Except.pure]
    · rfl
    · simp [ok_bind, hbasic', husage, hnames, hrevoked, pure, Except.pure]

def ExceedsFrom (b : Backend) (limit : Option ℕ) (certs : List Certificate) : Prop :=
  Exceeded limit (countIssued b certs) ∨ ExceedsCa (countIssued b) certs

theorem not_exceedsFrom_nil (limit : Option ℕ) : ¬ ExceedsFrom b limit [] := by
  rintro (⟨l, -, hl⟩ | ⟨ca, rest, hsuffix, -, -⟩)
  · exact absurd hl (Nat.not_lt_zero l)
  · exact absurd (suffix_nil.mp hsuffix) (cons_ne_nil ca rest)

theorem exceedsCa_cons_iff {count : List Certificate → ℕ} : ExceedsCa count (cert :: certs) ↔
      (certs ≠ [] ∧ Exceeded cert.pathLen (count certs)) ∨ ExceedsCa count certs := by
  constructor
  · rintro ⟨ca, rest, hsuffix, hrest, h⟩
    rcases suffix_cons_iff.mp hsuffix with heq | hsuffix
    · obtain ⟨rfl, rfl⟩ := List.cons.inj heq
      exact .inl ⟨hrest, h⟩
    · exact .inr ⟨ca, rest, hsuffix, hrest, h⟩
  · rintro (⟨hne, h⟩ | ⟨ca, rest, hsuffix, hrest, h⟩)
    · exact ⟨cert, certs, suffix_refl _, hne, h⟩
    · exact ⟨ca, rest, hsuffix.trans (suffix_cons _ _), hrest, h⟩

theorem exceedsFrom_cons_iff : ExceedsFrom b limit (cert :: certs) ↔
      (isSelfIssued b cert = false ∧ limit = some 0) ∨
        ExceedsFrom b (limitBehind b cert (certs = []) limit) certs := by
  have hcount : countIssued b (cert :: certs) =
      countIssued b certs + if isSelfIssued b cert then 0 else 1 := by
    rw [countIssued, countP_cons]
    cases isSelfIssued b cert <;> rfl
  have hfirst : Exceeded limit (countIssued b (cert :: certs)) ↔
      (isSelfIssued b cert = false ∧ limit = some 0) ∨
        Exceeded (if isSelfIssued b cert then limit else limit.map (· - 1))
          (countIssued b certs) := by
    rw [hcount]
    cases hself : isSelfIssued b cert with
    | true => simp
    | false =>
      rcases limit with - | - | l
      · simp [Exceeded]
      · simp [Exceeded]
      · simp [Exceeded]
  unfold ExceedsFrom limitBehind
  rw [hfirst, exceedsCa_cons_iff]
  by_cases hnil : certs = []
  · simp [hnil, or_assoc]
  · simp only [hnil, decide_false, Bool.false_eq_true, if_false, ne_eq, not_false_eq_true,
      true_and, exceeded_tighter_iff]
    tauto

/-- **The run.**  Certificates that pass the other checks are rejected for their number exactly if
they exceed what is left or a constraint among them, and pass otherwise. -/
theorem checkCerts_limited (h : checkCertsUnlimited b cfg path anchor k certs spki s = .ok s')
    (hk : k + certs.length = path.length) (limit : Option ℕ) : (ExceedsFrom b limit certs →
      ∃ i, checkCerts b cfg path anchor k certs spki { s with maxPathLen := limit } =
        .error (.error (.pathLen i 0))) ∧ (¬ ExceedsFrom b limit certs →
      ∃ limit', checkCerts b cfg path anchor k certs spki { s with maxPathLen := limit } =
        .ok { s' with maxPathLen := limit' }) := by
  induction certs generalizing k spki s limit with
  | nil =>
    cases h
    exact ⟨fun h => absurd h (not_exceedsFrom_nil limit), fun _ => ⟨limit, rfl⟩⟩
  | cons cert certs ih =>
    obtain ⟨s₁, hcert, hcerts⟩ := bind_eq_ok_iff.mp h
    rw [length_cons] at hk
    have hee : (k = path.length - 1) = (certs = []) := by
      rw [← length_eq_zero_iff, eq_iff_iff]
      omega
    have hstep := checkCert_limited hcert limit
    rw [exceedsFrom_cons_iff, checkCerts, hstep]
    by_cases hfull : isSelfIssued b cert = false ∧ limit = some 0
    · rw [if_pos hfull]
      exact ⟨fun _ => ⟨k, rfl⟩, fun hno => absurd (.inl hfull) hno⟩
    · rw [if_neg hfull, ok_bind]
      obtain ⟨hover, hroom⟩ := ih hcerts (by omega) (limitBehind b cert (k = path.length - 1) limit)
      simp only [hee] at hover hroom ⊢
      refine ⟨fun hyes => hover (hyes.resolve_left hfull), fun hno => hroom ?_⟩
      exact fun hyes => hno (.inr hyes)

theorem validateChain_limited {ai : ℕ} (hanchor : cfg.trustAnchors[ai]? = some anchor)
    (hpass : PassesOtherChecks b cfg path anchor) : (CertificatesExceed b anchor path →
      ∃ k, validateChain b cfg path ai = .error (.error (.pathLen k 0))) ∧
    (¬ CertificatesExceed b anchor path → validateChain b cfg path ai = .ok path) := by
  obtain ⟨s, hcerts, heku, hpolicy⟩ := hpass
  obtain ⟨hover, hroom⟩ := checkCerts_limited hcerts (Nat.zero_add _) anchor.pathLen
  simp only [validateChain, hanchor]
  refine ⟨fun h => ?_, fun h => ?_⟩
  · obtain ⟨k, hk⟩ := hover h
    exact ⟨k, by rw [hk]; rfl⟩
  · obtain ⟨limit, hlimit⟩ := hroom h
    rw [hlimit, ok_bind]
    dsimp only
    rw [heku, ok_bind, hpolicy]
    rfl

/-! ## The end entity is counted -/

/-- **Path length.**  A path that passes the other checks is rejected for its length exactly if
RFC 5280 says so, if and only if its intermediate certificates exceed a constraint or the end
entity does not exceed one either. -/
theorem pathLen_rejected_iff {ai : ℕ} (hanchor : cfg.trustAnchors[ai]? = some anchor)
    (hpass : PassesOtherChecks b cfg path anchor) :
    ((∃ k limit, validateChain b cfg path ai = .error (.error (.pathLen k limit))) ↔
        IntermediatesExceed b anchor path) ↔
      (IntermediatesExceed b anchor path ∨ ¬ CertificatesExceed b anchor path) := by
  obtain ⟨hover, hroom⟩ := validateChain_limited hanchor hpass
  have hrejected : (∃ k limit, validateChain b cfg path ai = .error (.error (.pathLen k limit))) ↔
      CertificatesExceed b anchor path := by
    constructor
    · rintro ⟨k, limit, hk⟩
      by_contra hno
      rw [hroom hno] at hk
      cases hk
    · intro h
      obtain ⟨k, hk⟩ := hover h
      exact ⟨k, 0, hk⟩
  have hmono : IntermediatesExceed b anchor path → CertificatesExceed b anchor path :=
    IntermediatesExceed.certificates b
  rw [hrejected]
  by_cases hcerts : CertificatesExceed b anchor path
  · simp [hcerts]
  · simp [hcerts, mt hmono hcerts]

def limitedRoot (limit : ℕ) : Certificate :=
  { exampleCert [1] [1] [11] [11] true with basicConstraints := some ⟨true, some limit⟩ }

def limitedConfig (limit : ℕ) : ValidationConfig :=
  { exampleConfig with trustAnchors := [.fromCert (limitedRoot limit)] }

/-- Below a root with the constraint 1, one intermediate too many is rejected. -/
theorem pathLen_rejected_two_intermediates :
    (∃ k limit, validateChain exampleBackend (limitedConfig 1)
        [limitedRoot 1, exampleCert [3] [1] [13] [11] true, exampleCert [2] [3] [12] [13] true,
          exampleCert [4] [2] [14] [12] false] 0 = .error (.error (.pathLen k limit))) ↔
      IntermediatesExceed exampleBackend (.fromCert (limitedRoot 1))
        [limitedRoot 1, exampleCert [3] [1] [13] [11] true, exampleCert [2] [3] [12] [13] true,
          exampleCert [4] [2] [14] [12] false] :=
  (pathLen_rejected_iff rfl ⟨_, rfl, rfl, rfl⟩).mpr (.inl (.inl ⟨1, rfl, by decide⟩))

/-- A CA with the constraint 0 may issue end entities, and the path to one is rejected. -/
theorem constraint_zero_rejects_end_entity :
    validate exampleBackend (limitedConfig 0) 19 (exampleCert [4] [1] [14] [11] false) =
        some (.error (.error (.pathLen 1 0))) ∧
      PassesOtherChecks exampleBackend (limitedConfig 0)
        [limitedRoot 0, exampleCert [4] [1] [14] [11] false] (.fromCert (limitedRoot 0)) ∧
      ¬ IntermediatesExceed exampleBackend (.fromCert (limitedRoot 0))
        [limitedRoot 0, exampleCert [4] [1] [14] [11] false] := by
  refine ⟨rfl, ⟨_, rfl, rfl, rfl⟩, ?_⟩
  rintro (⟨l, -, hl⟩ | hca)
  · exact absurd hl (Nat.not_lt_zero l)
  · rw [exceedsCa_cons_iff, exceedsCa_cons_iff] at hca
    rcases hca with ⟨-, l, -, hl⟩ | ⟨hne, -⟩ | ⟨ca, rest, hsuffix, -⟩
    · exact absurd hl (Nat.not_lt_zero l)
    · exact hne rfl
    · exact absurd (suffix_nil.mp hsuffix) (cons_ne_nil ca rest)

end TptRfc.X509
