import TptRfc.Lib.Text

/-!
# HTTP caching: the policy of a stored response

`headers.rs`, `time.rs` and the part of `policy.rs` that decides whether a stored response may be
used.
-/

namespace TptRfc.HttpCache

open Lib Text

structure F64 (F : Type) where
  zero : F
  /-- `as f64` of a `u64`. -/
  ofNat : ℕ → F
  /-- `as_secs_f64` of a duration in nanoseconds. -/
  ofDuration : ℕ → F
  /-- `parse::<f64>`. -/
  parse : List Char → Option F
  add : F → F → F
  sub : F → F → F
  mul : F → F → F
  max : F → F → F
  lt : F → F → Bool
  le : F → F → Bool
  round : F → F
  /-- `to_string`. -/
  text : F → List Char

structure F64.Lawful {F : Type} (f : F64 F) : Prop where
  zero_le : f.le f.zero f.zero
  max_nonneg : ∀ a c, f.le f.zero c → f.le f.zero (f.max a c)
  add_nonneg : ∀ a c, f.le f.zero a → f.le f.zero c → f.le f.zero (f.add a c)

/-! ## Texts -/

def trim (text : List Char) : List Char := trimBy isWhitespace text

def splitOnce (sep : Char) (text : List Char) : List Char × Option (List Char) :=
  (text.takeWhile (· ≠ sep), if sep ∈ text then some (text.dropWhile (· ≠ sep)).tail else none)

def parseU64 (text : List Char) : Option ℕ := parseUnsigned (2 ^ 64 - 1) (encode text)

def parseU32 (text : List Char) : Option ℕ := parseUnsigned (2 ^ 32 - 1) (encode text)

def parseI64 (text : List Char) : Option ℤ := parseSigned (2 ^ 63 - 1) (encode text)

def splitWhitespace (text : List Char) : List (List Char) :=
  (text.splitOnP isWhitespace).filter (· ≠ [])

/-! ## Dates -/

def wrap (v : ℤ) : ℤ := (v + 2 ^ 63) % 2 ^ 64 - 2 ^ 63

def daysFromCivil (y : ℤ) (m d : ℕ) : ℤ :=
  let y := if m ≤ 2 then wrap (y - 1) else y
  let era := (if 0 ≤ y then y else wrap (y - 399)).tdiv 400
  let yoe := wrap (y - wrap (era * 400))
  let mp : ℤ := if 2 < m then m - 3 else m + 9
  let doy := (153 * mp + 2).tdiv 5 + d - 1
  let doe := wrap (wrap (wrap (wrap (yoe * 365) + yoe.tdiv 4) - yoe.tdiv 100) + doy)
  wrap (wrap (wrap (era * 146097) + doe) - 719468)

def months : List (List Char) :=
  ["jan".toList, "feb".toList, "mar".toList, "apr".toList, "may".toList, "jun".toList,
    "jul".toList, "aug".toList, "sep".toList, "oct".toList, "nov".toList, "dec".toList]

def monthNumber (name : List Char) : Option ℕ := (months.idxOf? (lower name)).map (· + 1)

def parseTime (t : List Char) : Option (ℕ × ℕ × ℕ) := do
  let h ← parseU32 (splitOnce ':' t).1
  let rest ← (splitOnce ':' t).2
  let m ← parseU32 (splitOnce ':' rest).1
  let s ← (splitOnce ':' rest).2
  let s ← parseU32 s
  if 23 < h ∨ 59 < m ∨ 60 < s then none else some (h, m, s)

def parseYear (token : List Char) : Option ℤ :=
  (parseI64 token).map fun y => if 0 ≤ y ∧ y ≤ 99 then 1900 + y else y

def dateToSecs (y : ℤ) (m d : ℕ) (time : ℕ × ℕ × ℕ) : Option ℤ :=
  if 1 ≤ m ∧ m ≤ 12 ∧ 1 ≤ d ∧ d ≤ 31 then
    let secs := wrap (wrap (wrap (wrap (daysFromCivil y m d * 86400) + time.1 * 3600) +
      time.2.1 * 60) + time.2.2)
    if secs < 0 then none else some secs
  else none

def dateOf (day month year time : List Char) : Option ℤ := do
  let y ← parseYear year
  let mo ← monthNumber month
  let d ← parseU32 day
  let hms ← parseTime time
  let secs ← dateToSecs y mo d hms
  pure (secs * 10 ^ 9)

def gmtDate (tokens : List (List Char)) : Option ℤ :=
  if tokens.length < 2 then none
  else
    let body := if (tokens.headD []).getLast? = some ',' then tokens.tail else tokens
    match body with
    | first :: second :: rest =>
      if '-' ∈ first then
        match splitOnce '-' first with
        | (day, some tail) =>
          match splitOnce '-' tail with
          | (month, some year) => dateOf day month year second
          | _ => none
        | _ => none
      else
        match rest with
        | year :: time :: _ => dateOf first second year time
        | _ => none
    | _ => none

def parseHttpDate (s : List Char) : Option ℤ :=
  let tokens := splitWhitespace (trim s)
  if trim s = [] then none
  else if tokens.getLast?.any (fun t => lower t = "gmt".toList) then gmtDate tokens
  else
    match tokens with
    | _ :: month :: day :: time :: year :: _ => dateOf day month year time
    | _ => gmtDate tokens

def padded (width : ℕ) (n : ℤ) : List Char := (Nat.toDigits 10 n.toNat).leftpad width '0'

def weekdays : List (List Char) :=
  ["Sun".toList, "Mon".toList, "Tue".toList, "Wed".toList, "Thu".toList, "Fri".toList, "Sat".toList]

def monthNames : List (List Char) :=
  ["Jan".toList, "Feb".toList, "Mar".toList, "Apr".toList, "May".toList, "Jun".toList,
    "Jul".toList, "Aug".toList, "Sep".toList, "Oct".toList, "Nov".toList, "Dec".toList]

def formatHttpDate (t : ℤ) : List Char :=
  let secs := (max t 0).tdiv (10 ^ 9)
  let days := secs.tdiv 86400
  let rem := secs - days * 86400
  let z := days + 719468
  let era := z.tdiv 146097
  let doe := z - era * 146097
  let yoe := (doe - doe.tdiv 1460 + doe.tdiv 36524).tdiv 365
  let y := yoe + era * 400
  let doy := doe - (365 * yoe + yoe.tdiv 4 - yoe.tdiv 100)
  let mp := (5 * doy + 2).tdiv 153
  let d := doy - (153 * mp + 2).tdiv 5 + 1
  let m := if mp < 10 then mp + 3 else mp - 9
  let y := if m ≤ 2 then y + 1 else y
  let weekday := (((daysFromCivil y m.toNat d.toNat + 4).tmod 7 + 7) % 7).toNat
  weekdays.getD weekday [] ++ ", ".toList ++ padded 2 d ++ ' ' ::
    monthNames.getD (m - 1).toNat [] ++ ' ' :: padded 4 y ++ ' ' ::
    padded 2 (rem.tdiv 3600) ++ ':' :: padded 2 ((rem.tmod 3600).tdiv 60) ++ ':' ::
    padded 2 (rem.tmod 60) ++ " GMT".toList

/-! ## Header maps -/

/-- `HeaderMap` of the `http` crate: its lines, those of one name in their order. -/
abbrev HeaderMap := List (List Char × Bytes)

def toStr (value : Bytes) : Option (List Char) :=
  if value.all fun b => b = 0x09 || (0x20 ≤ b && b < 0x7f) then some (latin1 value) else none

def getAll (headers : HeaderMap) (name : List Char) : List Bytes :=
  (headers.filter (·.1 = name)).map (·.2)

def combined (headers : HeaderMap) (name : List Char) : Option (List Char) :=
  let texts := (getAll headers name).filterMap toStr
  if texts = [] then none else some ([','].intercalate texts)

def first (headers : HeaderMap) (name : String) : Option (List Char) :=
  (getAll headers name.toList).head?.bind toStr

def remove (headers : HeaderMap) (name : String) : HeaderMap := headers.filter (·.1 ≠ name.toList)

def setHeader (headers : HeaderMap) (name : String) (text : List Char) : HeaderMap :=
  if (toStr (encode text)).isSome then
    remove headers name ++ [(name.toList, encode text)]
  else headers

def hopByHop : List (List Char) :=
  ["date".toList, "connection".toList, "keep-alive".toList, "proxy-authenticate".toList,
    "proxy-authorization".toList, "te".toList, "trailer".toList, "transfer-encoding".toList,
    "upgrade".toList]

def removeConnection (headers out : HeaderMap) : HeaderMap :=
  match combined headers "connection".toList with
  | none => out
  | some conn =>
    out.filter fun h => h.1 ∉ (conn.splitOn ',').map fun token => lower (trim token)

def removeWarnings (out : HeaderMap) : HeaderMap :=
  match combined out "warning".toList with
  | none => out
  | some warning =>
    let kept := (warning.splitOn ',').filter fun w =>
      (w.dropWhile isWhitespace).head? ≠ some '1'
    if kept = [] then remove out "warning" else setHeader out "warning" ([','].intercalate kept)

def copyWithoutHopByHop (headers : HeaderMap) : HeaderMap :=
  removeWarnings (removeConnection headers (headers.filter (·.1 ∉ hopByHop)))

/-! ## `Cache-Control` -/

abbrev CacheControl := List (List Char × Option (List Char))

def ccGet (cc : CacheControl) (name : String) : Option (Option (List Char)) :=
  (cc.find? (·.1 = name.toList)).map (·.2)

def ccHas (cc : CacheControl) (name : String) : Bool := (ccGet cc name).isSome

def ccDelta (cc : CacheControl) (name : String) : ℕ :=
  (((ccGet cc name).bind id).bind parseU64).getD 0

def directive (part : List Char) : Option (List Char × Option (List Char)) :=
  let key := lower (trim (splitOnce '=' part).1)
  if key = [] then none
  else some (key, (splitOnce '=' part).2.map fun v => trimBy (· = '"') (trim v))

def orInsert (cc : CacheControl) (d : List Char × Option (List Char)) : CacheControl :=
  if cc.any (·.1 = d.1) then cc else cc ++ [d]

def parseCacheControl (header : List Char) : CacheControl :=
  ((header.splitOn ',').filterMap directive).foldl orInsert []

def ccRemove (cc : CacheControl) (name : String) : CacheControl := cc.filter (·.1 ≠ name.toList)

def formatCacheControl (cc : CacheControl) : Option (List Char) :=
  if cc = [] then none
  else
    some ([',', ' '].intercalate (cc.map fun d =>
      match d.2 with
      | some v => d.1 ++ '=' :: v
      | none => d.1))

/-! ## Requests and responses -/

inductive Method where
  | get
  | head
  | post
  | other (name : List Char)
  deriving DecidableEq

structure RequestInfo where
  method : Method
  url : Option (List Char)
  headers : HeaderMap

structure ResponseInfo where
  status : ℕ
  headers : HeaderMap

structure Options (F : Type) where
  shared : Bool
  cacheHeuristic : F
  immutableMinTtl : ℕ
  ignoreCargoCult : Bool
  now : Option ℤ

structure CachePolicy (F : Type) where
  responseTime : ℤ
  clock : Option ℤ
  isShared : Bool
  cacheHeuristic : F
  immutableMinTtl : ℕ
  status : ℕ
  responseHeaders : HeaderMap
  responseCc : CacheControl
  method : Method
  url : Option (List Char)
  host : Option (List Char)
  noAuthorization : Bool
  requestHeaders : Option HeaderMap
  requestCc : CacheControl

def cacheControl (headers : HeaderMap) : CacheControl :=
  parseCacheControl ((combined headers "cache-control".toList).getD [])

def containsNoCache (text : List Char) : Bool := text.tails.any ("no-cache".toList.isPrefixOf ·)

def cargoCult : List String :=
  ["pre-check", "post-check", "no-cache", "no-store", "must-revalidate"]

def storedResponse (ignoreCargoCult : Bool) (headers : HeaderMap) : CacheControl × HeaderMap :=
  let cc := cacheControl headers
  if ignoreCargoCult && ccHas cc "pre-check" && ccHas cc "post-check" then
    let cc := cargoCult.foldl ccRemove cc
    let headers := remove (remove (remove headers "expires") "pragma") "cache-control"
    match formatCacheControl cc with
    | some text => (cc, headers ++ [("cache-control".toList,
        if (toStr (encode text)).isSome then encode text else [])])
    | none => (cc, headers)
  else (cc, headers)

def withPragma (cc : CacheControl) (headers : HeaderMap) : CacheControl :=
  if !ccHas cc "no-cache" && !ccHas cc "no-store" && (first headers "cache-control").isNone &&
      (first headers "pragma").any containsNoCache then
    cc ++ [("no-cache".toList, none)]
  else cc

def CachePolicy.newWithOptions {F : Type} (request : RequestInfo) (response : ResponseInfo)
    (options : Options F) (now : ℤ) : CachePolicy F :=
  let stored := storedResponse options.ignoreCargoCult response.headers
  { responseTime := options.now.getD now
    clock := options.now
    isShared := options.shared
    cacheHeuristic := options.cacheHeuristic
    immutableMinTtl := options.immutableMinTtl
    status := response.status
    responseHeaders := stored.2
    responseCc := withPragma stored.1 stored.2
    method := request.method
    url := request.url
    host := combined request.headers "host".toList
    noAuthorization := (first request.headers "authorization").isNone
    requestHeaders := if (first stored.2 "vary").isSome then some request.headers else none
    requestCc := cacheControl request.headers }

namespace CachePolicy

variable {F : Type} (f : F64 F) (p : CachePolicy F)

def has (name : String) : Bool := ccHas p.responseCc name

def header (name : String) : Option (List Char) := first p.responseHeaders name

/-! ## Storability -/

def understoodStatuses : List ℕ :=
  [200, 203, 204, 300, 301, 302, 303, 307, 308, 404, 405, 410, 414, 501]

def cacheableByDefault : List ℕ := [200, 203, 204, 206, 300, 301, 308, 404, 405, 410, 414, 501]

def hasExplicitExpiration : Bool :=
  (p.isShared && p.has "s-maxage") || p.has "max-age" || (p.header "expires").isSome

def isStorable : Bool :=
  let methodOk := p.method = .get || p.method = .head ||
    (p.method = .post && p.hasExplicitExpiration)
  let allowsAuthenticated := p.has "must-revalidate" || p.has "public" || p.has "s-maxage"
  !ccHas p.requestCc "no-store" && methodOk && p.status ∈ understoodStatuses &&
    !p.has "no-store" && (!p.isShared || !p.has "private") &&
    (!p.isShared || p.noAuthorization || allowsAuthenticated) &&
    ((p.header "expires").isSome || p.has "max-age" || (p.isShared && p.has "s-maxage") ||
      p.has "public" || p.status ∈ cacheableByDefault)

/-! ## Age and lifetime -/

def now (wall : ℤ) : ℤ := p.clock.getD wall

def responseDate : ℤ := ((p.header "date").bind parseHttpDate).getD p.responseTime

def durationSince (t t' : ℤ) : ℕ := (t - t').toNat

def ageValue : F := ((p.header "age").bind f.parse).getD f.zero

def age (wall : ℤ) : F :=
  let apparentAge := f.max (f.ofDuration (durationSince (p.now wall) p.responseDate)) f.zero
  let correctedAgeValue := f.max (p.ageValue f) apparentAge
  let residentTime := f.max (f.ofDuration (durationSince (p.now wall) p.responseTime)) f.zero
  f.add correctedAgeValue residentTime

def defaultMinTtl : F := if p.has "immutable" then f.ofDuration p.immutableMinTtl else f.zero

def expiresAge (expires : List Char) : F :=
  match parseHttpDate expires with
  | some t =>
    if p.responseDate ≤ t then
      f.max (f.ofDuration (durationSince t p.responseDate)) (p.defaultMinTtl f)
    else f.zero
  | none => f.zero

def heuristicAge : F :=
  match (p.header "last-modified").bind parseHttpDate with
  | some t =>
    if t < p.responseDate then
      f.max (f.mul (f.ofDuration (durationSince p.responseDate t)) p.cacheHeuristic)
        (p.defaultMinTtl f)
    else p.defaultMinTtl f
  | none => p.defaultMinTtl f

def maxAge : F :=
  if !p.isStorable || p.has "no-cache" then f.zero
  else if p.isShared && (p.header "set-cookie").isSome && !p.has "public" &&
      !p.has "immutable" then f.zero
  else if p.header "vary" = some ['*'] then f.zero
  else if p.isShared && p.has "proxy-revalidate" then f.zero
  else if p.isShared && p.has "s-maxage" then f.ofNat (ccDelta p.responseCc "s-maxage")
  else if p.has "max-age" then f.ofNat (ccDelta p.responseCc "max-age")
  else
    match p.header "expires" with
    | some expires => p.expiresAge f expires
    | none => p.heuristicAge f

def stale (wall : ℤ) : Bool := f.le (p.maxAge f) (p.age f wall)

def useStaleWhileRevalidate (wall : ℤ) : Bool :=
  let swr := f.ofNat (ccDelta p.responseCc "stale-while-revalidate")
  f.lt f.zero swr && f.lt (p.age f wall) (f.add (p.maxAge f) swr)

/-! ## Matching of requests -/

def varyFields (vary : List Char) : List (List Char) :=
  ((vary.splitOn ',').map fun field => lower (trim field)).filter (· ≠ [])

def varyMatches (req : RequestInfo) : Bool :=
  match p.header "vary" with
  | none => true
  | some vary =>
    if trim vary = ['*'] then false
    else
      match p.requestHeaders with
      | none => true
      | some original =>
        (varyFields vary).all fun field =>
          (combined req.headers field).getD [] = (combined original field).getD []

def requestMatches (req : RequestInfo) (allowHead : Bool) : Bool :=
  let urlOk := p.url.all fun u => u = req.url.getD []
  let hostOk := p.host.all fun h => h = (combined req.headers "host".toList).getD []
  let methodOk := p.method = req.method || (allowHead && req.method = .head)
  urlOk && hostOk && methodOk && p.varyMatches req

/-! ## The decision -/

structure Revalidation where
  headers : HeaderMap
  synchronous : Bool

structure CacheDecision where
  response : Option HeaderMap
  revalidation : Option Revalidation

def withWarning (wall : ℤ) (headers : HeaderMap) : HeaderMap :=
  if f.lt (f.ofNat 86400) (p.age f wall) && !p.hasExplicitExpiration &&
      f.lt (f.ofNat 86400) (p.maxAge f) then
    let extra := "113 - \"rfc7234 5.5.4\"".toList
    match combined headers "warning".toList with
    | some existing => setHeader headers "warning" (existing ++ ", ".toList ++ extra)
    | none => setHeader headers "warning" extra
  else headers

def servedHeaders (wall : ℤ) : HeaderMap :=
  let headers := p.withWarning f wall (copyWithoutHopByHop p.responseHeaders)
  let headers := setHeader headers "age" (f.text (f.round (p.age f wall)))
  setHeader headers "date" (formatHttpDate (p.now wall))

def withEtag (headers : HeaderMap) : HeaderMap :=
  match p.header "etag" with
  | none => headers
  | some etag =>
    match combined headers "if-none-match".toList with
    | some existing => setHeader headers "if-none-match" (existing ++ ", ".toList ++ etag)
    | none => setHeader headers "if-none-match" etag

def forbidsWeak (headers : HeaderMap) : Bool :=
  (combined headers "accept-ranges".toList).isSome || (combined headers "if-match".toList).isSome ||
    (combined headers "if-unmodified-since".toList).isSome || p.method ≠ .get

def strongTags (headers : HeaderMap) : HeaderMap :=
  match combined headers "if-none-match".toList with
  | none => headers
  | some inm =>
    let strong := ((inm.splitOn ',').map trim).filter fun e => !"W/".toList.isPrefixOf e
    if strong = [] then remove headers "if-none-match"
    else setHeader headers "if-none-match" ([','].intercalate strong)

def revalidationHeaders (req : RequestInfo) : HeaderMap :=
  let headers := remove (copyWithoutHopByHop req.headers) "if-range"
  if !p.requestMatches req true || !p.isStorable then
    remove (remove headers "if-none-match") "if-modified-since"
  else
    let headers := p.withEtag headers
    if p.forbidsWeak headers then strongTags (remove headers "if-modified-since")
    else
      match p.header "last-modified", combined headers "if-modified-since".toList with
      | some lm, none => setHeader headers "if-modified-since" lm
      | _, _ => headers

def hit (wall : ℤ) : CacheDecision := ⟨some (p.servedHeaders f wall), none⟩

def hitWithRevalidation (wall : ℤ) (req : RequestInfo) (synchronous : Bool) : CacheDecision :=
  ⟨some (p.servedHeaders f wall), some ⟨p.revalidationHeaders req, synchronous⟩⟩

def miss (req : RequestInfo) : CacheDecision := ⟨none, some ⟨p.revalidationHeaders req, true⟩⟩

def allowsStale (wall : ℤ) (reqCc : CacheControl) : Bool :=
  match ccGet reqCc "max-stale" with
  | none => false
  | some none => true
  | some (some v) => f.lt (f.sub (p.age f wall) (p.maxAge f)) ((f.parse v).getD f.zero)

def asksRevalidation (req : RequestInfo) : Bool :=
  ccHas (cacheControl req.headers) "no-cache" ||
    (first req.headers "pragma").any containsNoCache

def tooOld (wall : ℤ) (req : RequestInfo) : Bool :=
  ccHas (cacheControl req.headers) "max-age" &&
    f.lt (f.ofNat (ccDelta (cacheControl req.headers) "max-age")) (p.age f wall)

def notFreshEnough (wall : ℤ) (req : RequestInfo) : Bool :=
  ccHas (cacheControl req.headers) "min-fresh" &&
    f.lt (f.sub (p.maxAge f) (p.age f wall))
      (f.ofNat (ccDelta (cacheControl req.headers) "min-fresh"))

def evaluateRequest (wall : ℤ) (req : RequestInfo) : CacheDecision :=
  if p.has "must-revalidate" then p.miss req
  else if !p.requestMatches req false then p.miss req
  else if asksRevalidation req then p.miss req
  else if p.tooOld f wall req then p.miss req
  else if p.notFreshEnough f wall req then p.miss req
  else if p.stale f wall then
    if p.allowsStale f wall (cacheControl req.headers) then p.hit f wall
    else if p.useStaleWhileRevalidate f wall then p.hitWithRevalidation f wall req false
    else p.miss req
  else p.hit f wall

end CachePolicy

end TptRfc.HttpCache
