import TptRfc.HttpSig.Fields

/-!
# HTTP message signatures: components, signing and verification

`message.rs`, `components.rs` and `signer.rs`.
-/

namespace TptRfc.HttpSig

open Lib Access

/-! ## Messages -/

inductive MessageKind where
  | request
  | response
  deriving DecidableEq

structure HttpMessage where
  kind : MessageKind
  method : Option (List Char)
  authority : Option (List Char)
  scheme : Option (List Char)
  targetUri : Option (List Char)
  requestTarget : Option (List Char)
  path : Option (List Char)
  query : Option (List Char)
  status : Option ℕ
  headerValues : List Char → List (List Char)

def HttpMessage.header (m : HttpMessage) (name : List Char) : Option (List Char) :=
  if m.headerValues name = [] then none
  else some ([',', ' '].intercalate (m.headerValues name))

structure Message where
  kind : MessageKind
  method : Option (List Char)
  target : Option (List Char)
  scheme : Option (List Char)
  authority : Option (List Char)
  fullUri : Option (List Char)
  status : Option ℕ
  headers : List (List Char × List Char)

def Message.request (method target : List Char) : Message :=
  ⟨.request, some method, some target, none, none, none, none, []⟩

def Message.toHttp (m : Message) : HttpMessage where
  kind := m.kind
  method := m.method
  authority := m.authority.or ((m.headers.find? (·.1 = "host".toList)).map (·.2))
  scheme := m.scheme
  targetUri := m.fullUri
  requestTarget := m.target
  path := m.target.map fun t => t.takeWhile (· ≠ '?')
  query := m.target.bind fun t => if '?' ∈ t then some (t.dropWhile (· ≠ '?')) else none
  status := m.status
  headerValues name := (m.headers.filter (·.1 = Text.lower name)).map (·.2)

inductive HttpSigError where
  | structuredField (e : SfError)
  | invalidComponent (text : List Char)
  | componentNotFound (text : List Char)
  | signatureBase (text : List Char)
  | unsupportedAlgorithm (text : List Char)
  | policy (text : List Char)
  | key (text : List Char)
  deriving DecidableEq

def liftSf {α : Type} (x : Except SfError α) : Except HttpSigError α := x.mapError .structuredField

/-! ## Components -/

def ComponentId.parse (s : List Char) : Except HttpSigError ComponentId := do
  let item ← liftSf (parseItem (skipSp (Text.encode s)))
  if item.1.1 = [] then .error (.invalidComponent "empty name".toList)
  else pure (.ofItem item.1)

def ComponentId.serialize (c : ComponentId) : List Char :=
  '"' :: c.name ++ '"' :: serializeParams c.params

def ComponentId.paramStr (c : ComponentId) (name : String) : Option (List Char) :=
  c.params.findSome? fun p =>
    match p.2 with
    | .str s => if p.1 = name.toList then some s else none
    | _ => none

def ComponentId.paramBool (c : ComponentId) (name : String) : Bool :=
  c.params.any fun p => p.1 = name.toList && p.2 = .bool true

def ComponentId.source (c : ComponentId) (msg : HttpMessage) (req : Option HttpMessage) :
    Option HttpMessage :=
  if c.paramBool "req" then req else some msg

def queryPair (pair : List Char) : List Char × List Char :=
  (pair.takeWhile (· ≠ '='), (pair.dropWhile (· ≠ '=')).tail)

def queryPairs (query : List Char) : List (List Char × List Char) :=
  let q := if query.head? = some '?' then query.tail else query
  ((q.splitOn '&').filter (· ≠ [])).map queryPair

def deriveQueryParam (name : Option (List Char)) (ctx : HttpMessage) :
    Except HttpSigError (List Char) :=
  match name with
  | none => .error (.invalidComponent "@query-param requires a `name` parameter".toList)
  | some pn =>
    match ctx.query with
    | none => .error (.componentNotFound "@query".toList)
    | some query =>
      match (queryPairs query).find? (·.1 = pn) with
      | some pair => .ok pair.2
      | none => .error (.componentNotFound
          ("@query-param name '".toList ++ pn ++ "' not found in query".toList))

def requestComponents : List String :=
  ["@method", "@authority", "@scheme", "@target-uri", "@request-target", "@path", "@query",
    "@query-param"]

def orNotFound (text : String) (value : Option (List Char)) : Except HttpSigError (List Char) :=
  match value with
  | some v => .ok v
  | none => .error (.componentNotFound text.toList)

def derivedValue (name : List Char) (ctx : HttpMessage) : Except HttpSigError (List Char) :=
  if name = "@method".toList then orNotFound "@method" ctx.method
  else if name = "@authority".toList then orNotFound "@authority" ctx.authority
  else if name = "@scheme".toList then orNotFound "@scheme" ctx.scheme
  else if name = "@target-uri".toList then orNotFound "@target-uri" ctx.targetUri
  else if name = "@request-target".toList then orNotFound "@request-target" ctx.requestTarget
  else if name = "@path".toList then orNotFound "@path" ctx.path
  else if name = "@query".toList then orNotFound "@query" ctx.query
  else if name = "@status".toList then
    orNotFound "@status is a response component but target is a request"
      (ctx.status.map (Nat.toDigits 10))
  else .error (.invalidComponent ("unknown derived component ".toList ++ name))

-- the equality of texts by which the names of components are looked up
local instance lawfulText : LawfulBEq (List Char) := inferInstance

def deriveDerived (name : List Char) (ctx : HttpMessage) (reqParam : Bool) :
    Except HttpSigError (List Char) :=
  if name ∈ requestComponents.map (·.toList) ∧ ctx.kind = .response ∧ reqParam = false then
    .error (.componentNotFound
      (name ++ " is a request component but target is a response".toList))
  else derivedValue name ctx

def deriveField (name : List Char) (ctx : HttpMessage) (params : Params) :
    Except HttpSigError (List Char) :=
  if params.any fun p => p.1 = "tr".toList && p.2 = .bool true then
    .error (.invalidComponent
      "the `tr` (trailer) parameter is not supported by this implementation".toList)
  else if params.any fun p => p.1 ∈ ["sf".toList, "key".toList, "bs".toList] then
    .error (.invalidComponent "the `sf`, `key`, and `bs` parameters are not yet supported".toList)
  else
    match ctx.header name with
    | some v => .ok v
    | none => .error (.componentNotFound
        ("header field '".toList ++ name ++ "' not present".toList))

def ComponentId.valueIn (c : ComponentId) (ctx : HttpMessage) : Except HttpSigError (List Char) :=
  if c.name.head? = some '@' then
    if c.name = "@query-param".toList then deriveQueryParam (c.paramStr "name") ctx
    else deriveDerived c.name ctx (c.paramBool "req")
  else deriveField c.name ctx c.params

def ComponentId.value (c : ComponentId) (msg : HttpMessage) (req : Option HttpMessage) :
    Except HttpSigError (List Char) :=
  match c.source msg req with
  | none => .error (.invalidComponent "`req` used but no request context available".toList)
  | some ctx => c.valueIn ctx

/-! ## The signature base -/

def baseLines (msg : HttpMessage) (req : Option HttpMessage) :
    List ComponentId → List (List Char) → Except HttpSigError (List Char)
  | [], _ => .ok []
  | c :: components, seen =>
    if c.serialize ∈ seen then
      .error (.signatureBase ("duplicate covered component: ".toList ++ c.serialize))
    else do
      let value ← c.value msg req
      let rest ← baseLines msg req components (c.serialize :: seen)
      pure (c.serialize ++ ':' :: ' ' :: value ++ '\n' :: rest)

def innerList (components : List ComponentId) (params : Params) : InnerList :=
  ⟨components.map fun c => (c.name, c.params), params⟩

def paramsLine (components : List ComponentId) (params : Params) : List Char :=
  "\"@signature-params\": ".toList ++ serializeInnerList (innerList components params)

def buildSignatureBase (components : List ComponentId) (params : Params) (msg : HttpMessage)
    (req : Option HttpMessage) : Except HttpSigError (List Char) := do
  let lines ← baseLines msg req components []
  pure (lines ++ paramsLine components params)

/-! ## Algorithms and keys -/

inductive Algorithm where
  | hmacSha256
  | hmacSha512
  | rsaPkcs1Sha256
  | rsaPkcs1Sha512
  | rsaPssSha256
  | rsaPssSha512
  | ecdsaP256Sha256
  | ecdsaP384Sha384
  | ecdsaP521Sha512
  | ed25519
  deriving DecidableEq

def Algorithm.name : Algorithm → String
  | .hmacSha256 => "hmac-sha256"
  | .hmacSha512 => "hmac-sha512"
  | .rsaPkcs1Sha256 => "rsa-v1_5-sha256"
  | .rsaPkcs1Sha512 => "rsa-v1_5-sha512"
  | .rsaPssSha256 => "rsa-pss-sha256"
  | .rsaPssSha512 => "rsa-pss-sha512"
  | .ecdsaP256Sha256 => "ecdsa-p256-sha256"
  | .ecdsaP384Sha384 => "ecdsa-p384-sha384"
  | .ecdsaP521Sha512 => "ecdsa-p521-sha512"
  | .ed25519 => "ed25519"

def Algorithm.all : List Algorithm :=
  [.hmacSha256, .hmacSha512, .rsaPkcs1Sha256, .rsaPkcs1Sha512, .rsaPssSha256, .rsaPssSha512,
    .ecdsaP256Sha256, .ecdsaP384Sha384, .ecdsaP521Sha512, .ed25519]

def Algorithm.fromName (s : List Char) : Except HttpSigError Algorithm :=
  match Algorithm.all.find? fun a => a.name.toList = s with
  | some a => .ok a
  | none => .error (.unsupportedAlgorithm s)

structure KeyPair where
  algorithm : Algorithm
  sign : Bytes → Except HttpSigError Bytes
  verify : Bytes → Bytes → Except HttpSigError Unit

def KeyPair.Lawful (k : KeyPair) : Prop :=
  ∀ base signature, k.sign base = .ok signature → k.verify base signature = .ok ()

/-! ## Signing -/

structure Signer where
  alg : Algorithm
  keyid : Option (List Char)
  created : Option ℤ
  expires : Option ℤ
  nonce : Option (List Char)
  tag : Option (List Char)

def Signer.params (s : Signer) (now : ℤ) : Params :=
  [("created".toList, .int (s.created.getD now))] ++
    (s.keyid.map fun k => ("keyid".toList, SfParam.str k)).toList ++
    [("alg".toList, .str s.alg.name.toList)] ++
    (s.expires.map fun e => ("expires".toList, SfParam.int e)).toList ++
    (s.nonce.map fun n => ("nonce".toList, SfParam.str n)).toList ++
    (s.tag.map fun t => ("tag".toList, SfParam.str t)).toList

structure SignatureOutput where
  inputValue : List Char
  signature : Bytes

def Signer.sign (s : Signer) (k : KeyPair) (now : ℤ) (msg : HttpMessage)
    (req : Option HttpMessage) (components : List ComponentId) :
    Except HttpSigError SignatureOutput :=
  if k.algorithm ≠ s.alg then
    .error (.unsupportedAlgorithm ("key algorithm ".toList ++ k.algorithm.name.toList ++
      " does not match requested ".toList ++ s.alg.name.toList))
  else do
    let base ← buildSignatureBase components (s.params now) msg req
    let signature ← k.sign (Text.encode base)
    pure ⟨serializeInnerList (innerList components (s.params now)), signature⟩

/-! ## Verification -/

structure Verifier where
  allowed : List Algorithm
  requireCreated : Bool
  maxAge : Option ℕ
  now : Option ℤ

def Verifier.default : Verifier := ⟨[], false, none, none⟩

def findParam (params : Params) (name : String) : Option SfParam :=
  (params.find? (·.1 = name.toList)).map (·.2)

def findInt (params : Params) (name : String) : Option ℤ :=
  match findParam params name with
  | some (.int n) => some n
  | _ => none

def checkAlg (params : Params) (alg : Algorithm) : Except HttpSigError Unit :=
  match findParam params "alg" with
  | some (.str s) => do
    let declared ← Algorithm.fromName s
    if declared ≠ alg then
      .error (.policy "declared `alg` parameter does not match the key material".toList)
    else pure ()
  | _ => .ok ()

def saturatingSub (a c : ℤ) : ℤ := max (-2 ^ 63) (min (2 ^ 63 - 1) (a - c))

def asI64 (n : ℕ) : ℤ := if n < 2 ^ 63 then n else (n : ℤ) - 2 ^ 64

def Verifier.checkTimes (v : Verifier) (params : Params) (now : ℤ) : Except HttpSigError Unit :=
  if v.requireCreated = true ∧ findInt params "created" = none then
    .error (.policy "`created` parameter is required".toList)
  else if (findInt params "expires").any (· < now) then
    .error (.policy "signature has expired".toList)
  else
    match findInt params "created", v.maxAge with
    | some c, some maxAge =>
      if asI64 maxAge < saturatingSub now c then
        .error (.policy "signature is too old".toList)
      else .ok ()
    | _, _ => .ok ()

def Verifier.verify (v : Verifier) (k : KeyPair) (clock : ℤ) (msg : HttpMessage)
    (req : Option HttpMessage) (inputValue : List Char) (signature : Bytes) :
    Except HttpSigError Unit := do
  let parsed ← liftSf (parseSignatureInputValue inputValue)
  if v.allowed ≠ [] ∧ k.algorithm ∉ v.allowed then
    .error (.policy
      ("algorithm ".toList ++ k.algorithm.name.toList ++ " is not in the allowed set".toList))
  else do
    checkAlg parsed.params k.algorithm
    v.checkTimes parsed.params (v.now.getD clock)
    let base ← buildSignatureBase parsed.components parsed.params msg req
    k.verify (Text.encode base) signature

end TptRfc.HttpSig
