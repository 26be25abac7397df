import TptRfc.Lib.Access
import TptRfc.Lib.Text

/-!
# X.509: building and validating paths

`PathValidator`, the extension accessors of `cert.rs`, the name constraints of `constraints.rs` and
the revocation check of `crl.rs`.
-/

namespace TptRfc.X509

open Lib Access

/-! ## Certificates -/

abbrev Oid := List ℕ

def anyPolicy : Oid := [2, 5, 29, 32, 0]

structure Name where
  rdns : List Bytes
  deriving DecidableEq

structure Spki where
  der : Bytes
  deriving DecidableEq

inductive GeneralName where
  | dnsName (text : List Char)
  | ipAddress (octets : Bytes)
  | directoryName (name : Name)
  | rfc822Name (text : List Char)
  | uniformResourceIdentifier (text : List Char)
  | other
  deriving DecidableEq

inductive IpAddr where
  | v4 (octets : Bytes)
  | v6 (octets : Bytes)
  deriving DecidableEq

inductive GeneralNameLike where
  | dns (text : List Char)
  | ip (address : IpAddr)
  | dir (name : Name)
  | other
  deriving DecidableEq

structure GeneralSubtree where
  base : GeneralName
  minimum : ℕ
  maximum : Option ℕ
  deriving DecidableEq

structure GeneralSubtreeLike where
  base : GeneralNameLike
  minimum : ℕ
  maximum : Option ℕ

structure BasicConstraints where
  ca : Bool
  pathLenConstraint : Option ℕ
  deriving DecidableEq

structure NameConstraints where
  permittedSubtrees : Option (List GeneralSubtree)
  excludedSubtrees : Option (List GeneralSubtree)
  deriving DecidableEq

structure Certificate where
  subject : Name
  issuer : Name
  subjectPublicKeyInfo : Spki
  notBefore : ℤ
  notAfter : ℤ
  serialNumber : Bytes
  basicConstraints : Option BasicConstraints
  keyUsage : Option Bool
  extendedKeyUsage : Option (List Oid)
  nameConstraints : Option NameConstraints
  subjectAltName : Option (List GeneralName)
  certificatePolicies : Option (List Oid)
  signature : Bytes
  deriving DecidableEq

structure CertificateList where
  issuer : Name
  tbsDer : Option Bytes
  signature : Bytes
  signatureAlgorithm : Oid
  revokedCertificates : Option (List Bytes)
  deriving DecidableEq

/-- `ValidationError`, of those that the validation returns. -/
inductive ValidationError where
  | encoding
  | signature (issuer : Option Bytes) (reason : List Char)
  | invalidValidity
  | notCa (subject : Option Bytes)
  | pathLen (depth limit : ℕ)
  | missingKeyCertSign (subject : Option Bytes)
  | ekuViolation (oid : Oid)
  | nameExcluded (name : GeneralNameLike)
  | nameNotPermitted (name : GeneralNameLike)
  | crlSignature (issuer : Bytes) (reason : List Char)
  | revoked (serial : Bytes)
  | noPath
  | policy
  | config
  deriving DecidableEq

structure Backend where
  toDer : Name → Option Bytes
  fromDer : Bytes → Option Name
  verifySignature : Certificate → Spki → Except ValidationError Unit
  /-- `verify_signature_raw`, on a revocation list. -/
  verifySignatureRaw : Bytes → Bytes → Spki → Oid → Except (List Char) Unit

variable (b : Backend)

def subjectDer (cert : Certificate) : Option Bytes := b.toDer cert.subject

def issuerDer (cert : Certificate) : Option Bytes := b.toDer cert.issuer

def isSelfIssued (cert : Certificate) : Bool :=
  match subjectDer b cert, issuerDer b cert with
  | some s, some i => s = i
  | _, _ => false

def Certificate.assertsCa (cert : Certificate) : Bool :=
  (cert.basicConstraints.map (·.ca)).getD false

/-! ## Name constraints -/

def octetsToIp (octets : Bytes) : IpAddr :=
  if octets.length = 4 then .v4 octets
  else if octets.length = 16 then .v6 octets
  else .v4 [0, 0, 0, 0]

def GeneralNameLike.ofName : GeneralName → GeneralNameLike
  | .dnsName text => .dns text
  | .ipAddress octets => .ip (octetsToIp octets)
  | .directoryName name => .dir name
  | .rfc822Name _ | .uniformResourceIdentifier _ | .other => .other

def GeneralSubtreeLike.ofSubtree (s : GeneralSubtree) : GeneralSubtreeLike :=
  ⟨.ofName s.base, s.minimum, s.maximum⟩

def candidateNames (cert : Certificate) : List GeneralNameLike :=
  match cert.subjectAltName with
  | some san => san.map .ofName
  | none =>
    match (subjectDer b cert).bind b.fromDer with
    | some name => [.dir name]
    | none => []

def sameKind : GeneralNameLike → GeneralNameLike → Bool
  | .dns _, .dns _ => true
  | .ip _, .ip _ => true
  | .dir _, .dir _ => true
  | _, _ => false

def dnsWithin (name base : List Char) : Bool :=
  let name := Text.lower name
  let base := Text.lower base
  let suffixed := if base.head? = some '.' then base.tail else base
  name = base || ('.' :: suffixed).isSuffixOf name

def ipWithin : IpAddr → IpAddr → Bool
  | .v4 a, .v4 b => a = b
  | .v6 a, .v6 b => a = b
  | _, _ => false

def hasWindow (window : Bytes) : Bytes → Bool
  | [] => false
  | b :: bytes => window.isPrefixOf (b :: bytes) || hasWindow window bytes

def dnWithin (dn base : Name) : Except (Fault ValidationError) Bool :=
  match b.toDer dn, b.toDer base with
  | some dnDer, some baseDer =>
    if baseDer = [] then .error .panic else .ok (hasWindow baseDer dnDer)
  | _, _ => .ok false

def nameMatches : GeneralNameLike → GeneralNameLike → Except (Fault ValidationError) Bool
  | .dns n, .dns base => .ok (dnsWithin n base)
  | .ip ip, .ip base => .ok (ipWithin ip base)
  | .dir dn, .dir base => dnWithin b dn base
  | _, _ => .ok false

def anyMatches (name : GeneralNameLike) :
    List GeneralSubtreeLike → Except (Fault ValidationError) Bool
  | [] => .ok false
  | s :: subtrees => do
    if ← nameMatches b name s.base then pure true else anyMatches name subtrees

def checkName (permitted excluded : List GeneralSubtreeLike) (name : GeneralNameLike) :
    Except (Fault ValidationError) Unit := do
  if ← anyMatches b name excluded then .error (.error (.nameExcluded name))
  else if permitted.any fun s => sameKind s.base name then
    if ← anyMatches b name permitted then pure ()
    else .error (.error (.nameNotPermitted name))
  else pure ()

def checkConstraints (cert : Certificate) (permitted excluded : List GeneralSubtreeLike) :
    Except (Fault ValidationError) Unit :=
  (candidateNames b cert).forM (checkName b permitted excluded)

/-! ## Trust anchors and the configuration -/

structure TrustAnchor where
  name : Name
  spki : Spki
  cert : Option Certificate
  permittedSubtrees : Option (List GeneralSubtreeLike)
  excludedSubtrees : Option (List GeneralSubtreeLike)
  pathLen : Option ℕ

def TrustAnchor.fromCert (cert : Certificate) : TrustAnchor where
  name := cert.subject
  spki := cert.subjectPublicKeyInfo
  cert := some cert
  permittedSubtrees := (cert.nameConstraints.bind (·.permittedSubtrees)).map (·.map .ofSubtree)
  excludedSubtrees := (cert.nameConstraints.bind (·.excludedSubtrees)).map (·.map .ofSubtree)
  pathLen := cert.basicConstraints.bind (·.pathLenConstraint)

structure ValidationConfig where
  trustAnchors : List TrustAnchor
  intermediates : List Certificate
  time : ℤ
  requiredEku : Option Oid
  initialPolicies : List Oid
  checkRevocation : Bool
  crls : List CertificateList

def crlKey (path : List Certificate) (anchor : TrustAnchor) (issuer : Bytes) : Option Spki :=
  match path.find? fun c => subjectDer b c = some issuer with
  | some c => some c.subjectPublicKeyInfo
  | none => if b.toDer anchor.name = some issuer then some anchor.spki else none

def checkRevocation (cert : Certificate) (path : List Certificate) (anchor : TrustAnchor) :
    List CertificateList → Option ValidationError
  | [] => none
  | crl :: crls =>
    match b.toDer crl.issuer with
    | none => checkRevocation cert path anchor crls
    | some issuer =>
      match crlKey b path anchor issuer with
      | none => none
      | some spki =>
        match crl.tbsDer with
        | none => some .encoding
        | some signed =>
          match b.verifySignatureRaw signed crl.signature spki crl.signatureAlgorithm with
          | .error reason => some (.crlSignature issuer reason)
          | .ok () =>
            if cert.serialNumber ∈ crl.revokedCertificates.getD [] then
              some (.revoked cert.serialNumber)
            else checkRevocation cert path anchor crls

/-! ## One candidate path -/

structure ChainState where
  maxPathLen : Option ℕ
  permitted : Option (List GeneralSubtreeLike)
  excluded : List GeneralSubtreeLike
  ekuAllowed : Option (List Oid)

def checkSignature (cert : Certificate) (workingSpki : Spki) :
    Except (Fault ValidationError) Unit :=
  match b.verifySignature cert workingSpki with
  | .ok () => .ok ()
  | .error (.signature _ reason) => .error (.error (.signature (subjectDer b cert) reason))
  | .error e => .error (.error e)

def validityCovers (cert : Certificate) (time : ℤ) : Bool :=
  cert.notBefore ≤ time && time ≤ cert.notAfter

def checkValidity (cert : Certificate) (time : ℤ) : Except (Fault ValidationError) Unit :=
  if validityCovers cert time then .ok () else .error (.error .invalidValidity)

def decrementPathLen (cert : Certificate) (k : ℕ) (maxPathLen : Option ℕ) :
    Except (Fault ValidationError) (Option ℕ) :=
  if isSelfIssued b cert then .ok maxPathLen
  else
    match maxPathLen with
    | none => .ok none
    | some 0 => .error (.error (.pathLen k 0))
    | some (ml + 1) => .ok (some ml)

def checkBasicConstraints (cert : Certificate) (isEe : Bool) (maxPathLen : Option ℕ) :
    Except (Fault ValidationError) (Option ℕ) :=
  if isEe then
    if cert.assertsCa then .error (.error (.notCa (subjectDer b cert))) else .ok maxPathLen
  else if cert.assertsCa then
    match cert.basicConstraints.bind (·.pathLenConstraint), maxPathLen with
    | some pl, some cur => .ok (some (min cur pl))
    | some pl, none => .ok (some pl)
    | none, cur => .ok cur
  else .error (.error (.notCa (subjectDer b cert)))

def checkKeyUsage (cert : Certificate) (isEe : Bool) : Except (Fault ValidationError) Unit :=
  if !isEe && cert.keyUsage = some false then
    .error (.error (.missingKeyCertSign (subjectDer b cert)))
  else .ok ()

def intersectSubtrees (a c : List GeneralSubtreeLike) : List GeneralSubtreeLike :=
  a.filter fun x => c.any fun y => y.base = x.base

def intersectOids (a c : List Oid) : List Oid := a.filter (· ∈ c)

def accumulatePermitted (cert : Certificate) (permitted : Option (List GeneralSubtreeLike)) :
    Option (List GeneralSubtreeLike) :=
  match cert.nameConstraints.bind (·.permittedSubtrees), permitted with
  | some p, some prev => some (intersectSubtrees prev (p.map .ofSubtree))
  | some p, none => some (p.map .ofSubtree)
  | none, prev => prev

def accumulateExcluded (cert : Certificate) (excluded : List GeneralSubtreeLike) :
    List GeneralSubtreeLike :=
  excluded ++ ((cert.nameConstraints.bind (·.excludedSubtrees)).getD []).map .ofSubtree

def accumulateEku (cert : Certificate) (allowed : Option (List Oid)) : Option (List Oid) :=
  match cert.extendedKeyUsage, allowed with
  | some set, some prev => some (intersectOids prev set)
  | some set, none => some set
  | none, prev => prev

def checkRevoked (cfg : ValidationConfig) (cert : Certificate) (path : List Certificate)
    (anchor : TrustAnchor) : Except (Fault ValidationError) Unit :=
  if cfg.checkRevocation then
    match checkRevocation b cert path anchor cfg.crls with
    | some e => .error (.error e)
    | none => .ok ()
  else .ok ()

def checkCert (cfg : ValidationConfig) (path : List Certificate) (anchor : TrustAnchor) (k : ℕ)
    (cert : Certificate) (workingSpki : Spki) (s : ChainState) :
    Except (Fault ValidationError) ChainState := do
  let isEe : Bool := k = path.length - 1
  checkSignature b cert workingSpki
  checkValidity cert cfg.time
  let maxPathLen ← decrementPathLen b cert k s.maxPathLen
  let maxPathLen ← checkBasicConstraints b cert isEe maxPathLen
  checkKeyUsage b cert isEe
  checkConstraints b cert (s.permitted.getD []) s.excluded
  checkRevoked b cfg cert path anchor
  pure
    { maxPathLen
      permitted := if isEe then s.permitted else accumulatePermitted cert s.permitted
      excluded := if isEe then s.excluded else accumulateExcluded cert s.excluded
      ekuAllowed := if isEe then s.ekuAllowed else accumulateEku cert s.ekuAllowed }

def checkCerts (cfg : ValidationConfig) (path : List Certificate) (anchor : TrustAnchor) :
    ℕ → List Certificate → Spki → ChainState → Except (Fault ValidationError) ChainState
  | _, [], _, s => .ok s
  | k, cert :: certs, workingSpki, s => do
    let s ← checkCert b cfg path anchor k cert workingSpki s
    checkCerts cfg path anchor (k + 1) certs cert.subjectPublicKeyInfo s

def unpermittedEku (leaf allowed : List Oid) : Option Oid :=
  leaf.find? fun e => e ≠ anyPolicy && e ∉ allowed

def checkEku (cfg : ValidationConfig) (path : List Certificate) (allowed : Option (List Oid)) :
    Except (Fault ValidationError) Unit :=
  match cfg.requiredEku with
  | none => .ok ()
  | some req =>
    let leaf := path.getLast?.bind (·.extendedKeyUsage)
    if allowed.any fun set => req ∉ set && anyPolicy ∉ set then
      .error (.error (.ekuViolation req))
    else if leaf.any fun set => req ∉ set then .error (.error (.ekuViolation req))
    else
      match allowed, leaf with
      | some set, some leaf =>
        match unpermittedEku leaf set with
        | some e => .error (.error (.ekuViolation e))
        | none => .ok ()
      | _, _ => .ok ()

def policiesAlong : List Certificate → Option (List Oid) → Option (List Oid)
  | [], allowed => allowed
  | cert :: certs, allowed =>
    let policies := cert.certificatePolicies.getD []
    if anyPolicy ∈ policies then policiesAlong certs allowed
    else
      match allowed with
      | none => policiesAlong certs (some policies)
      | some prev => policiesAlong certs (some (intersectOids prev policies))

def checkPolicy (cfg : ValidationConfig) (path : List Certificate) :
    Except (Fault ValidationError) Unit :=
  if anyPolicy ∈ cfg.initialPolicies then .ok ()
  else
    match policiesAlong path none with
    | none => .ok ()
    | some set => if set.any (· ∈ cfg.initialPolicies) then .ok () else .error (.error .policy)

def validateChain (cfg : ValidationConfig) (path : List Certificate) (anchorIdx : ℕ) :
    Except (Fault ValidationError) (List Certificate) :=
  match cfg.trustAnchors[anchorIdx]? with
  | none => .error .panic
  | some anchor => do
    let s ← checkCerts b cfg path anchor 0 path anchor.spki
      ⟨anchor.pathLen, anchor.permittedSubtrees, anchor.excludedSubtrees.getD [], none⟩
    checkEku cfg path s.ekuAllowed
    checkPolicy cfg path
    pure path

/-! ## Candidate paths -/

def isIssuerOf (issuer subject : Certificate) : Bool :=
  match subjectDer b issuer, issuerDer b subject with
  | some s, some i =>
    s = i && issuer.assertsCa &&
      (b.verifySignature subject issuer.subjectPublicKeyInfo).isOk
  | _, _ => false

def anchorFrom (cert : Certificate) (issuer : Bytes) : ℕ → List TrustAnchor → Option ℕ
  | _, [] => none
  | i, a :: anchors =>
    match b.toDer a.name with
    | none => none
    | some name =>
      if issuer = name ∧ (b.verifySignature cert a.spki).isOk then some i
      else anchorFrom cert issuer (i + 1) anchors

def matchesAnchor (cfg : ValidationConfig) (cert : Certificate) : Option ℕ :=
  match issuerDer b cert with
  | none => none
  | some issuer => anchorFrom b cert issuer 0 cfg.trustAnchors

def anchored (cfg : ValidationConfig) (last : Certificate) (chain : List Certificate) :
    List (List Certificate × ℕ) :=
  match matchesAnchor b cfg last with
  | none => []
  | some ai =>
    match (cfg.trustAnchors[ai]?).bind (·.cert) with
    | some root => [(root :: chain.reverse, ai)]
    | none => [(chain.reverse, ai)]

def collect {α β : Type} (search : α → Option (List β)) : List α → Option (List β)
  | [] => some []
  | a :: as => do
    let found ← search a
    let rest ← collect search as
    pure (found ++ rest)

def recurse (cfg : ValidationConfig) : ℕ → Certificate → List Certificate → ℕ →
    Option (List (List Certificate × ℕ))
  | 0, _, _, _ => none
  | fuel + 1, last, chain, depth =>
    if 16 < depth then some []
    else do
      let found ← collect
        (fun cand =>
          if chain.any fun c => subjectDer b c = subjectDer b cand then some []
          else if isIssuerOf b cand last then recurse cfg fuel cand (chain ++ [cand]) (depth + 1)
          else some [])
        cfg.intermediates
      pure (found ++ anchored b cfg last chain)

def buildChains (cfg : ValidationConfig) (fuel : ℕ) (ee : Certificate) :
    Option (List (List Certificate × ℕ)) :=
  recurse b cfg fuel ee [ee] 0

def validateFrom (cfg : ValidationConfig) : List (List Certificate × ℕ) → ValidationError →
      Except (Fault ValidationError) (List Certificate)
  | [], lastErr => .error (.error lastErr)
  | (path, ai) :: chains, _ =>
    match validateChain b cfg path ai with
    | .ok validated => .ok validated
    | .error (.error e) => validateFrom cfg chains e
    | .error .panic => .error .panic

def validate (cfg : ValidationConfig) (fuel : ℕ) (ee : Certificate) :
    Option (Except (Fault ValidationError) (List Certificate)) :=
  if cfg.trustAnchors = [] then some (.error (.error .config))
  else (buildChains b cfg fuel ee).map fun chains => validateFrom b cfg chains .noPath

end TptRfc.X509
