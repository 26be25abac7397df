import TptRfc.Doh.Dns

/-!
# DNS over HTTPS: the response cache

`Cache::store`, `Cache::get` and the freshness of a response, and what a run of such
calls returns.
-/

namespace TptRfc.Doh

open Lib Access List Function
open Text (lower)

inductive Method where
  | get
  | post
  deriving DecidableEq

def Method.asStr : Method → List Char
  | .get => "GET".toList
  | .post => "POST".toList

structure HttpResponse where
  headers : List (List Char × List Char)
  body : Bytes

def HttpResponse.header (r : HttpResponse) (name : String) : Option (List Char) :=
  (r.headers.find? fun h => lower h.1 = name.toList).map (·.2)

abbrev Checked (α : Type) := Except (Fault Empty) α

/-! ## Dates -/

def trim (text : List Char) : List Char := Text.trimBy Text.isWhitespace text

def parseU64 (text : List Char) : Option ℕ := Text.parseUnsigned (2 ^ 64 - 1) (Text.encode text)

def months : List (List Char) :=
  ["jan".toList, "feb".toList, "mar".toList, "apr".toList, "may".toList, "jun".toList,
    "jul".toList, "aug".toList, "sep".toList, "oct".toList, "nov".toList, "dec".toList]

structure DateFields where
  day : ℕ
  month : ℕ
  year : ℕ
  hh : ℕ
  mm : ℕ
  ss : ℕ

def dateFields (s : List Char) : Option DateFields :=
  match (trim s).splitOn ' ' with
  | [_, day, month, year, time, zone] => do
    if zone ≠ "GMT".toList then none
    else
      let day ← parseU64 day
      let month ← months.idxOf? (lower month)
      let year ← parseU64 year
      match time.splitOn ':' with
      | [hh, mm, ss] => do
        let hh ← parseU64 hh
        let mm ← parseU64 mm
        let ss ← parseU64 ss
        pure ⟨day, month + 1, year, hh, mm, ss⟩
      | _ => none
  | _ => none

def i64 (checks : Bool) (v : ℤ) : Checked ℤ :=
  if -2 ^ 63 ≤ v ∧ v < 2 ^ 63 then .ok v
  else if checks then .error .panic
  else .ok ((v + 2 ^ 63) % 2 ^ 64 - 2 ^ 63)

def asI64 (n : ℕ) : ℤ := if n < 2 ^ 63 then n else (n : ℤ) - 2 ^ 64

def shiftedYear (checks : Bool) (f : DateFields) : Checked ℤ :=
  if f.month ≤ 2 then i64 checks (asI64 f.year - 1) else .ok (asI64 f.year)

def shiftedMonth (f : DateFields) : ℤ := if f.month ≤ 2 then f.month + 12 else f.month

def dateDays (checks : Bool) (f : DateFields) : Checked ℤ := do
  let y ← shiftedYear checks f
  let m := shiftedMonth f
  let days ← i64 checks (365 * y)
  let days ← i64 checks (days + y.tdiv 4)
  let days ← i64 checks (days - y.tdiv 100)
  let days ← i64 checks (days + y.tdiv 400)
  let days ← i64 checks (days + (367 * m - 362).tdiv 12)
  let days ← i64 checks (days + if m ≤ 14 then 0 else -1)
  let days ← i64 checks (days + asI64 f.day)
  i64 checks (days - 719163)

def dateSeconds (checks : Bool) (f : DateFields) : Checked ℤ := do
  let days ← dateDays checks f
  let secs ← i64 checks (days * 86400)
  let hours ← i64 checks (asI64 f.hh * 3600)
  let secs ← i64 checks (secs + hours)
  let minutes ← i64 checks (asI64 f.mm * 60)
  let secs ← i64 checks (secs + minutes)
  i64 checks (secs + asI64 f.ss)

def seconds (n : ℤ) : ℤ := n * 10 ^ 9

def checkedAdd (t : ℤ) (secs : ℕ) : Option ℤ :=
  if t + seconds secs < seconds (2 ^ 63) then some (t + seconds secs) else none

def parseHttpDate (checks : Bool) (s : List Char) : Checked (Option ℤ) :=
  match dateFields s with
  | none => .ok none
  | some f => do
    let secs ← dateSeconds checks f
    pure (checkedAdd 0 (secs % 2 ^ 64).toNat)

/-! ## Freshness -/

def maxAge (directive : List Char) : Option ℕ :=
  if "max-age".toList.isPrefixOf directive then
    parseU64 (trim ((directive.drop 7).dropWhile (· = '=')))
  else none

def forbids (directive : List Char) : Bool :=
  directive = "no-store".toList || directive = "no-cache".toList

def directives (line : List Char) : List (List Char) := ((lower line).splitOn ',').map trim

def expiresAt (checks : Bool) (r : HttpResponse) (now : ℤ) : Checked (Option ℤ) :=
  match r.header "expires" with
  | none => .ok none
  | some expires => do
    let t ← parseHttpDate checks expires
    pure (t.filter (now < ·))

def baseTime (checks : Bool) (r : HttpResponse) (now : ℤ) : Checked ℤ :=
  match r.header "date" with
  | none => .ok now
  | some date => do
    let t ← parseHttpDate checks date
    pure (t.getD now)

def freshFrom (checks : Bool) (r : HttpResponse) (now : ℤ) : List (List Char) → Checked (Option ℤ)
  | [] => expiresAt checks r now
  | directive :: rest =>
    if forbids directive then .ok none
    else
      match maxAge directive with
      | some secs => do
        let base ← baseTime checks r now
        match checkedAdd base secs with
        | some t => .ok (some t)
        | none => .error .panic
      | none => freshFrom checks r now rest

def freshnessLifetime (checks : Bool) (r : HttpResponse) (now : ℤ) : Checked (Option ℤ) :=
  freshFrom checks r now (directives ((r.header "cache-control").getD []))

/-! ## The cache -/

def fingerprint (body : Bytes) : UInt64 :=
  body.foldl (fun h b => (h ^^^ b.toUInt64) * 0x100000001b3) 0xcbf29ce484222325

def hexShort (body : Bytes) : List Char := (Nat.toDigits 16 (fingerprint body).toNat).leftpad 16 '0'

structure Request where
  method : Method
  url : List Char
  body : Option Bytes
  deriving DecidableEq

def Request.key (r : Request) : List Char :=
  match r.body with
  | some body => r.method.asStr ++ ' ' :: r.url ++ ' ' :: hexShort body
  | none => r.method.asStr ++ ' ' :: r.url

structure Entry where
  body : Bytes
  expiresAt : ℤ

abbrev Cache := List Char → Option Entry

def Cache.get (c : Cache) (key : List Char) (now : ℤ) : Option Bytes :=
  match c key with
  | some e => if now < e.expiresAt then some e.body else none
  | none => none

def Cache.store (checks : Bool) (c : Cache) (key : List Char) (r : HttpResponse) (now : ℤ) :
    Checked Cache := do
  match ← freshnessLifetime checks r now with
  | none => pure c
  | some t => if t ≤ now then pure c else pure (update c key (some ⟨r.body, t⟩))

inductive CacheCall where
  | store (request : Request) (response : HttpResponse) (now : ℤ)
  | get (request : Request) (now : ℤ)

def CacheCall.exec (checks : Bool) (c : Cache) : CacheCall → Checked Cache
  | .store request response now => c.store checks request.key response now
  | .get _ _ => .ok c

def runCache (checks : Bool) : Cache → List CacheCall → Checked Cache
  | c, [] => .ok c
  | c, call :: calls => do
    let c ← call.exec checks c
    runCache checks c calls

/-! ## What the cache is for -/

def daysBeforeMonth (month : ℕ) : ℕ :=
  [0, 31, 59, 90, 120, 151, 181, 212, 243, 273, 304, 334].getD (month - 1) 0

def IsLeap (year : ℕ) : Prop := year % 4 = 0 ∧ (year % 100 ≠ 0 ∨ year % 400 = 0)

instance : DecidablePred IsLeap := fun _ => inferInstanceAs (Decidable (_ ∧ _))

def civilDays (f : DateFields) : ℤ :=
  let y : ℤ := f.year - 1
  365 * y + y / 4 - y / 100 + y / 400 + daysBeforeMonth f.month +
    (if 2 < f.month ∧ IsLeap f.year then 1 else 0) + f.day - 719163

def civilSeconds (f : DateFields) : ℤ := civilDays f * 86400 + f.hh * 3600 + f.mm * 60 + f.ss

def httpDate (s : List Char) : Option ℤ := (dateFields s).map fun f => seconds (civilSeconds f)

def HttpResponse.forbidden (r : HttpResponse) : Bool :=
  r.headers.any fun h => lower h.1 = "cache-control".toList && (directives h.2).any forbids

def HttpResponse.cacheControl (r : HttpResponse) : List (List Char) :=
  directives ((r.header "cache-control").getD [])

def HttpResponse.freshAt (r : HttpResponse) (received now : ℤ) : Bool :=
  ((r.cacheControl.findSome? maxAge).any fun secs : ℕ =>
    now < ((r.header "date").bind httpDate).getD received + seconds secs) ||
  ((r.header "expires").bind httpDate).any (now < ·)

/-! ## Dates are late -/

variable {checks : Bool} {f : DateFields} {now : ℤ} {r : HttpResponse} {calls : List CacheCall}

theorem i64_of_bounds {v : ℤ} (h : -2 ^ 63 ≤ v) (h' : v < 2 ^ 63) :
    i64 checks v = .ok v := if_pos ⟨h, h'⟩

theorem asI64_of_lt {n : ℕ} (h : n < 2 ^ 63) : asI64 n = n := if_pos h

theorem dateDays_of_small {y : ℤ} (hy : 0 ≤ y ∧ y ≤ 9999)
    (hyear : shiftedYear checks f = .ok y) (hm : 3 ≤ shiftedMonth f ∧ shiftedMonth f ≤ 14)
    (hday : f.day ≤ 99) : dateDays checks f = .ok (365 * y + y / 4 - y / 100 + y / 400 +
      (367 * shiftedMonth f - 362) / 12 + f.day - 719163) := by
  unfold dateDays
  rw [hyear, ok_bind, asI64_of_lt (by omega), Int.tdiv_eq_ediv_of_nonneg hy.1,
    Int.tdiv_eq_ediv_of_nonneg hy.1, Int.tdiv_eq_ediv_of_nonneg hy.1]
  dsimp only
  rw [Int.tdiv_eq_ediv_of_nonneg (by omega), if_pos hm.2, i64_of_bounds (by omega) (by omega),
    ok_bind, i64_of_bounds (by omega) (by omega), ok_bind, i64_of_bounds (by omega) (by omega),
    ok_bind, i64_of_bounds (by omega) (by omega), ok_bind, i64_of_bounds (by omega) (by omega),
    ok_bind, add_zero, i64_of_bounds (by omega) (by omega), ok_bind,
    i64_of_bounds (by omega) (by omega), ok_bind, i64_of_bounds (by omega) (by omega)]

theorem leapDays_succ (y : ℤ) (year : ℕ) (h : (year : ℤ) = y + 1) :
    (year : ℤ) / 4 - (year : ℤ) / 100 + (year : ℤ) / 400 =
      y / 4 - y / 100 + y / 400 + if IsLeap year then 1 else 0 := by
  by_cases hleap : IsLeap year
  · rw [if_pos hleap]
    obtain ⟨h4, h100⟩ := hleap
    omega
  · rw [if_neg hleap]
    have : year % 4 ≠ 0 ∨ (year % 100 = 0 ∧ year % 400 ≠ 0) := by
      by_contra hn
      exact hleap ⟨by omega, by omega⟩
    omega

theorem shiftedMonth_eq (h : 1 ≤ f.month ∧ f.month ≤ 12) :
    (367 * shiftedMonth f - 362) / 12 =
      daysBeforeMonth f.month + if f.month ≤ 2 then 367 else 2 := by
  have hall : ∀ m : Fin 13, 1 ≤ m.val → (367 * (if m.val ≤ 2 then (m.val : ℤ) + 12 else m.val) -
      362) / 12 = daysBeforeMonth m.val + if m.val ≤ 2 then 367 else 2 := by decide
  exact hall ⟨f.month, by omega⟩ h.1

theorem dateDays_eq (hyear : 1 ≤ f.year ∧ f.year ≤ 9999)
    (hmonth : 1 ≤ f.month ∧ f.month ≤ 12) (hday : f.day ≤ 99) :
    dateDays checks f = .ok (civilDays f + 367) := by
  have hshift : shiftedMonth f = if f.month ≤ 2 then (f.month : ℤ) + 12 else f.month := rfl
  have hleap := leapDays_succ (f.year - 1) f.year (by omega)
  by_cases hm : f.month ≤ 2
  · have hy : shiftedYear checks f = .ok ((f.year : ℤ) - 1) := by
      rw [shiftedYear, if_pos hm, asI64_of_lt (by omega), i64_of_bounds (by omega) (by omega)]
    rw [if_pos hm] at hshift
    rw [dateDays_of_small (by omega) hy (by omega) hday, shiftedMonth_eq hmonth, if_pos hm]
    refine congrArg Except.ok ?_
    unfold civilDays
    rw [if_neg (by omega)]
    ring
  · have hy : shiftedYear checks f = .ok (f.year : ℤ) := by
      rw [shiftedYear, if_neg hm, asI64_of_lt (by omega)]
    rw [if_neg hm] at hshift
    rw [dateDays_of_small (by omega) hy (by omega) hday, shiftedMonth_eq hmonth, if_neg hm]
    refine congrArg Except.ok ?_
    unfold civilDays
    simp only [show 2 < f.month by omega, true_and]
    linarith [hleap]

def DateFields.Small (f : DateFields) : Prop :=
  (1 ≤ f.year ∧ f.year ≤ 9999) ∧ (1 ≤ f.month ∧ f.month ≤ 12) ∧ f.day ≤ 99 ∧ f.hh ≤ 99 ∧
    f.mm ≤ 99 ∧ f.ss ≤ 99

theorem DateFields.Small.bounds (h : f.Small) : -800000 ≤ civilDays f ∧ civilDays f ≤ 4000000 := by
  obtain ⟨hyear, hmonth, hday, -⟩ := h
  have hbefore : daysBeforeMonth f.month ≤ 334 := by
    have hall : ∀ m : Fin 13, daysBeforeMonth m.val ≤ 334 := by decide
    exact hall ⟨f.month, by omega⟩
  unfold civilDays
  dsimp only
  split <;> omega

theorem dateSeconds_eq (h : f.Small) :
    dateSeconds checks f = .ok (civilSeconds f + 367 * 86400) := by
  have hdays := h.bounds
  obtain ⟨hyear, hmonth, hday, hhh, hmm, hss⟩ := h
  rw [dateSeconds, dateDays_eq hyear hmonth hday, ok_bind, asI64_of_lt (by omega),
    asI64_of_lt (by omega), asI64_of_lt (by omega), i64_of_bounds (by omega) (by omega), ok_bind,
    i64_of_bounds (by omega) (by omega), ok_bind, i64_of_bounds (by omega) (by omega), ok_bind,
    i64_of_bounds (by omega) (by omega), ok_bind, i64_of_bounds (by omega) (by omega), ok_bind,
    i64_of_bounds (by omega) (by omega), civilSeconds]
  refine congrArg Except.ok ?_
  ring

/-- Every date is read 367 days late, whatever string it is read from. -/
theorem parseHttpDate_late {s : List Char}
    (hf : dateFields s = some f) (h : f.Small) (hpos : 0 ≤ civilSeconds f) :
    parseHttpDate checks s = .ok ((httpDate s).map (· + seconds (367 * 86400))) := by
  have hdays := h.bounds
  have hlt : civilSeconds f + 367 * 86400 < 2 ^ 62 := by
    obtain ⟨-, -, -, hhh, hmm, hss⟩ := h
    unfold civilSeconds
    omega
  rw [parseHttpDate, hf, httpDate, hf]
  dsimp only
  rw [dateSeconds_eq h, ok_bind, Int.emod_eq_of_lt (by omega) (by omega), checkedAdd,
    Int.toNat_of_nonneg (by omega), if_pos (by unfold seconds; omega), Option.map_some,
    Option.map_some, zero_add]
  refine congrArg (fun t => Except.ok (some t)) ?_
  unfold seconds
  ring

/-! ## Runs -/

def decides (directive : List Char) : Bool := forbids directive || (maxAge directive).isSome

def HttpResponse.NoDate (r : HttpResponse) (name : String) : Prop :=
  ∀ value, r.header name = some value → dateFields value = none

/-- The freshness of the response is what it says: the first directive that decides forbids to
store it; or it is a `max-age`, nothing forbids, and there is no date to count from; or none
decides and there is no date of expiry. -/
def StoreOk (r : HttpResponse) : Prop :=
  match r.cacheControl.find? decides with
  | none => r.NoDate "expires"
  | some d => forbids d ∨ (¬ r.forbidden ∧ r.NoDate "date")

theorem baseTime_of_noDate (h : r.NoDate "date") : baseTime checks r now = .ok now := by
  unfold baseTime
  split
  · rfl
  · rename_i date hdate
    rw [parseHttpDate, h date hdate]
    rfl

theorem expiresAt_of_noDate (h : r.NoDate "expires") : expiresAt checks r now = .ok none := by
  unfold expiresAt
  split
  · rfl
  · rename_i expires hexpires
    rw [parseHttpDate, h expires hexpires]
    rfl

theorem freshFrom_eq (ds : List (List Char)) :
    freshFrom checks r now ds =
      match ds.find? decides with
      | none => expiresAt checks r now
      | some d => freshFrom checks r now [d] := by
  induction ds with
  | nil => rfl
  | cons d ds ih =>
    by_cases hd : decides d
    · rw [find?_cons_of_pos hd]
      dsimp only
      rw [freshFrom, freshFrom]
      by_cases hforbids : forbids d
      · rw [if_pos hforbids, if_pos hforbids]
      · obtain ⟨secs, hsecs⟩ := Option.isSome_iff_exists.mp
          ((Bool.or_eq_true _ _).mp hd |>.resolve_left hforbids)
        rw [if_neg hforbids, if_neg hforbids, hsecs]
    · rw [find?_cons_of_neg hd, ← ih]
      simp only [decides, Bool.or_eq_true, not_or, Bool.not_eq_true, Option.isSome_eq_false_iff,
        Option.isNone_iff_eq_none] at hd
      rw [freshFrom, hd.1, hd.2]
      rfl

theorem findSome?_maxAge {ds : List (List Char)} {d : List Char}
    (h : ds.find? decides = some d) (hd : forbids d = false) : ds.findSome? maxAge = maxAge d := by
  induction ds with
  | nil => cases h
  | cons e ds ih =>
    by_cases he : decides e
    · rw [find?_cons_of_pos he, Option.some.injEq] at h
      subst h
      obtain ⟨secs, hsecs⟩ := Option.isSome_iff_exists.mp
        ((Bool.or_eq_true _ _).mp he |>.resolve_left (by rw [hd]; decide))
      rw [findSome?_cons, hsecs]
    · rw [find?_cons_of_neg he] at h
      simp only [decides, Bool.or_eq_true, not_or, Bool.not_eq_true, Option.isSome_eq_false_iff,
        Option.isNone_iff_eq_none] at he
      rw [findSome?_cons, he.2]
      exact ih h

theorem freshnessLifetime_of_storeOk {t : ℤ}
    (hok : StoreOk r) (h : freshnessLifetime checks r now = .ok (some t)) :
    ¬ r.forbidden ∧ ∀ later, later < t → r.freshAt now later := by
  rw [freshnessLifetime, ← HttpResponse.cacheControl, freshFrom_eq] at h
  unfold StoreOk at hok
  cases hfind : r.cacheControl.find? decides with
  | none =>
    rw [hfind] at h hok
    rw [expiresAt_of_noDate hok] at h
    cases h
  | some d =>
    rw [hfind] at h hok
    dsimp only at h hok
    rw [freshFrom] at h
    split at h
    · cases h
    rename_i hforbids
    obtain ⟨hno, hdate⟩ := hok.resolve_left hforbids
    have hmax := findSome?_maxAge hfind (Bool.not_eq_true _ |>.mp hforbids)
    have hdecides := find?_some hfind
    obtain ⟨secs, hsecs⟩ := Option.isSome_iff_exists.mp
      ((Bool.or_eq_true _ _).mp hdecides |>.resolve_left hforbids)
    rw [hsecs] at h
    dsimp only at h
    rw [baseTime_of_noDate hdate, ok_bind, checkedAdd] at h
    split at h
    · rename_i t' ht'
      cases h
      split at ht'
      · cases ht'
        refine ⟨hno, fun later hlater => ?_⟩
        have hnone : (r.header "date").bind httpDate = none := by
          cases hd : r.header "date" with
          | none => rfl
          | some date =>
            rw [Option.bind_some, httpDate, hdate date hd]
            rfl
        rw [HttpResponse.freshAt, hmax, hsecs, hnone, Option.any_some, Option.getD_none,
          decide_eq_true hlater, Bool.true_or]
      · cases ht'
    · cases h

def KeysDiffer (requests : List Request) : Prop :=
  ∀ a ∈ requests, ∀ b ∈ requests, a.key = b.key → a = b

def FromCall (calls : List CacheCall) (key : List Char) (e : Entry) : Prop :=
  ∃ request response now, CacheCall.store request response now ∈ calls ∧ request.key = key ∧
    response.body = e.body ∧ ¬ response.forbidden ∧
    ∀ later, later < e.expiresAt → response.freshAt now later

def Tracked (calls : List CacheCall) (c : Cache) : Prop :=
  ∀ key e, c key = some e → FromCall calls key e

theorem FromCall.mono {calls' : List CacheCall} {key : List Char} {e : Entry}
    (h : FromCall calls key e) (hsub : calls ⊆ calls') : FromCall calls' key e := by
  obtain ⟨request, response, now, hmem, h⟩ := h
  exact ⟨request, response, now, hsub hmem, h⟩

def CacheCall.Ok : CacheCall → Prop
  | .store _ response _ => StoreOk response
  | .get _ _ => True

theorem tracked_exec {c c' : Cache} {call : CacheCall}
    (h : Tracked calls c) (hok : call.Ok) (hexec : call.exec checks c = .ok c') :
    Tracked (calls ++ [call]) c' := by
  have hkept : Tracked (calls ++ [call]) c := fun key e he =>
    (h key e he).mono (subset_append_left _ _)
  cases call with
  | get request now =>
    cases hexec
    exact hkept
  | store request response now =>
    obtain ⟨fresh, hfresh, hexec⟩ := bind_eq_ok_iff.mp hexec
    cases fresh with
    | none =>
      cases hexec
      exact hkept
    | some t =>
      dsimp only at hexec
      split at hexec
      · cases hexec
        exact hkept
      · cases hexec
        obtain ⟨hno, hlater⟩ := freshnessLifetime_of_storeOk hok hfresh
        intro key e he
        by_cases hkey : key = request.key
        · subst hkey
          rw [update_self, Option.some.injEq] at he
          subst he
          exact ⟨request, response, now, by simp, rfl, rfl, hno, hlater⟩
        · rw [update_of_ne hkey] at he
          exact hkept key e he

theorem tracked_run {before : List CacheCall} {c c' : Cache}
    (h : Tracked before c) (hok : ∀ call ∈ calls, call.Ok)
    (hrun : runCache checks c calls = .ok c') : Tracked (before ++ calls) c' := by
  induction calls generalizing before c with
  | nil =>
    cases hrun
    rwa [append_nil]
  | cons call calls ih =>
    obtain ⟨c₁, hexec, hrun⟩ := bind_eq_ok_iff.mp hrun
    have hfirst := tracked_exec h (hok call mem_cons_self) hexec
    have hrest := ih hfirst (fun d hd => hok d (mem_cons_of_mem _ hd)) hrun
    rwa [append_assoc, singleton_append] at hrest

def CacheCall.request : CacheCall → Request
  | .store request _ _ => request
  | .get request _ => request

/-- In a run in which the freshness of every stored response is what it says, and different
requests have different keys, a body that is returned was stored for the same request, by a
response that does not forbid it and that is still fresh. -/
theorem get_sound (checks : Bool) (calls : List CacheCall) (c : Cache) (request : Request) (now : ℤ)
    (body : Bytes) (hrun : runCache checks (fun _ => none) calls = .ok c)
    (hok : ∀ call ∈ calls, call.Ok) (hkeys : KeysDiffer (request :: calls.map CacheCall.request))
    (hget : c.get request.key now = some body) :
    ∃ response stored, CacheCall.store request response stored ∈ calls ∧ response.body = body ∧
      ¬ response.forbidden ∧ response.freshAt stored now := by
  have htracked : Tracked ([] ++ calls) c := tracked_run (fun _ _ h => by cases h) hok hrun
  rw [nil_append] at htracked
  unfold Cache.get at hget
  cases hentry : c request.key with
  | none =>
    rw [hentry] at hget
    cases hget
  | some e =>
    rw [hentry] at hget
    dsimp only at hget
    split at hget
    · rename_i hnow
      cases hget
      obtain ⟨req, response, stored, hmem, hkey, hbody, hno, hfresh⟩ := htracked _ _ hentry
      have hsame : req = request :=
        hkeys req (mem_cons_of_mem _ (mem_map.mpr ⟨_, hmem, rfl⟩)) request
          mem_cons_self hkey
      subst hsame
      exact ⟨response, stored, hmem, hbody, hno, hfresh now hnow⟩
    · cases hget

def plainRequest : Request := ⟨.get, "https://x/dns-query?dns=AAAA".toList, none⟩

def responseWith (headers : List (String × String)) : HttpResponse :=
  ⟨headers.map fun h => (h.1.toList, h.2.toList), [1, 2, 3]⟩

/-- A response that may be used for a minute is returned in that minute. -/
theorem get_sound_minute : ∃ response stored, CacheCall.store plainRequest response stored ∈
        [CacheCall.store plainRequest (responseWith [("Cache-Control", "max-age=60")]) 0] ∧
      response.body = [1, 2, 3] ∧ ¬ response.forbidden ∧ response.freshAt stored (seconds 59) := by
  refine get_sound true _ (update (fun _ => none) plainRequest.key
      (some ⟨[1, 2, 3], seconds 60⟩)) plainRequest (seconds 59) [1, 2, 3] ?_ ?_ ?_ ?_
  · have hfresh : freshnessLifetime true (responseWith [("Cache-Control", "max-age=60")]) 0 =
        .ok (some (seconds 60)) := by decide +kernel
    rw [runCache, CacheCall.exec, Cache.store, hfresh]
    rfl
  · intro call hcall
    rw [mem_singleton.mp hcall]
    have hfind : (responseWith [("Cache-Control", "max-age=60")]).cacheControl.find? decides =
        some "max-age=60".toList := by decide +kernel
    rw [CacheCall.Ok, StoreOk, hfind]
    refine .inr ⟨by decide +kernel, fun value hvalue => ?_⟩
    have hnone : (responseWith [("Cache-Control", "max-age=60")]).header "date" = none := by
      decide +kernel
    rw [hnone] at hvalue
    cases hvalue
  · intro a ha b hb _
    simp only [map_cons, map_nil, CacheCall.request, mem_cons, not_mem_nil,
      or_false, or_self] at ha hb
    rw [ha, hb]
  · rw [Cache.get, update_self]
    rfl

/-- `no-store` behind `max-age`, a date, and two bodies with the same fingerprint. -/
theorem get_unsound :
    (let r := responseWith [("Cache-Control", "max-age=60, no-store")];
      (runCache true (fun _ => none) [.store plainRequest r 0]).map
          (·.get plainRequest.key (seconds 1)) = .ok (some [1, 2, 3]) ∧ r.forbidden = true) ∧
    (let r := responseWith [("Cache-Control", "max-age=1"),
        ("Date", "Thu, 01 Jan 1970 00:00:00 GMT")];
      (runCache true (fun _ => none) [.store plainRequest r 0]).map
          (·.get plainRequest.key (seconds 100)) = .ok (some [1, 2, 3]) ∧
        r.freshAt 0 (seconds 100) = false) ∧
    (let body := [0xd5, 0x6b, 0xb9, 0x53, 0x42, 0x87, 0x08, 0x36]
      let stored : Request := ⟨.post, "https://x/dns-query".toList, some body⟩
      let other : Request := ⟨.post, "https://x/dns-query".toList, some (body ++ [0])⟩;
      (runCache true (fun _ => none)
          [.store stored (responseWith [("Cache-Control", "max-age=60")]) 0]).map
          (·.get other.key (seconds 1)) = .ok (some [1, 2, 3]) ∧ stored ≠ other) := by
  decide +kernel

end TptRfc.Doh
