import TptRfc.HttpCache.Policy

/-!
# HTTP caching: what must be revalidated

A response that may not be stored, that has `no-cache`, or whose `Vary` fields do not match the
request, must not be served without asking the origin first.
-/

namespace TptRfc.HttpCache

open Lib

namespace CachePolicy

variable {F : Type} {f : F64 F} {p : CachePolicy F} {wall : ℤ} {req : RequestInfo}

/-! ## What must not be served -/

def allVaryFields (p : CachePolicy F) : List (List Char) :=
  ((getAll p.responseHeaders "vary".toList).filterMap toStr).flatMap varyFields

def MustRevalidate (p : CachePolicy F) (stored : HeaderMap) (req : RequestInfo) : Prop :=
  p.isStorable = false ∨ ccGet p.responseCc "no-cache" = some none ∨
    ∃ field ∈ p.allVaryFields, field = ['*'] ∨ combined req.headers field ≠ combined stored field

def Withheld (decision : CacheDecision) : Prop :=
  decision.response = none ∧ ∃ r, decision.revalidation = some r ∧ r.synchronous = true

/-- The request has another target, or the first `Vary` line is `*` or lists a field in which it
differs, where an absent field counts as an empty one. -/
def Mismatched (p : CachePolicy F) (stored : HeaderMap) (req : RequestInfo) : Prop :=
  (∃ url, p.url = some url ∧ url ≠ req.url.getD []) ∨
    (∃ host, p.host = some host ∧ host ≠ (combined req.headers "host".toList).getD []) ∨
    p.method ≠ req.method ∨
    ∃ vary, p.header "vary" = some vary ∧ (trim vary = ['*'] ∨ ∃ field ∈ varyFields vary,
      (combined req.headers field).getD [] ≠ (combined stored field).getD [])

def Guarded (f : F64 F) (p : CachePolicy F) (stored : HeaderMap) (wall : ℤ) (req : RequestInfo) :
    Prop :=
  p.has "must-revalidate" ∨ p.Mismatched stored req ∨ asksRevalidation req ∨
    p.tooOld f wall req ∨ p.notFreshEnough f wall req ∨
    ((p.isStorable = false ∨ p.has "no-cache" ∨ p.stale f wall) ∧
      p.allowsStale f wall (cacheControl req.headers) = false ∧
      p.useStaleWhileRevalidate f wall = false)

/-! ## A lifetime of zero -/

theorem age_nonneg (hf : f.Lawful) : f.le f.zero (p.age f wall) := by
  refine hf.add_nonneg _ _ (hf.max_nonneg _ _ ?_) ?_
  · exact hf.max_nonneg _ _ hf.zero_le
  · exact hf.max_nonneg _ _ hf.zero_le

theorem stale_of_lapsed (hf : f.Lawful) (h : p.isStorable = false ∨ p.has "no-cache") :
    p.stale f wall := by
  have hmax : p.maxAge f = f.zero := by
    unfold maxAge
    rw [if_pos]
    rcases h with h | h <;> simp [h]
  rw [stale, hmax]
  exact age_nonneg hf

theorem withheld_miss : Withheld (p.miss req) := ⟨rfl, _, rfl, rfl⟩

theorem not_withheld_hit : ¬ Withheld (p.hit f wall) := fun h => nomatch h.1

theorem not_withheld_hitWithRevalidation {synchronous : Bool} :
    ¬ Withheld (p.hitWithRevalidation f wall req synchronous) := fun h => nomatch h.1

theorem requestMatches_eq_false_iff {stored : HeaderMap}
    (hstored : ∀ vary, p.header "vary" = some vary → p.requestHeaders = some stored) :
    p.requestMatches req false = false ↔ p.Mismatched stored req := by
  have hvary : p.varyMatches req = false ↔ ∃ vary, p.header "vary" = some vary ∧
      (trim vary = ['*'] ∨ ∃ field ∈ varyFields vary,
        (combined req.headers field).getD [] ≠ (combined stored field).getD []) := by
    unfold varyMatches
    cases h : p.header "vary" with
    | none => simp
    | some vary =>
      rw [hstored vary h]
      simp [or_iff_not_imp_left]
  simp only [requestMatches, Mismatched, ← hvary, Bool.and_eq_false_iff]
  cases p.url <;> cases p.host <;> simp [or_assoc]

theorem withheld_iff_guarded (hf : f.Lawful) {stored : HeaderMap}
    (hstored : ∀ vary, p.header "vary" = some vary → p.requestHeaders = some stored) :
    Withheld (p.evaluateRequest f wall req) ↔ Guarded f p stored wall req := by
  -- what must not be served at all is only stale for the code
  have hlapsed : p.isStorable = false ∨ p.has "no-cache" ∨ p.stale f wall ↔ p.stale f wall := by
    refine ⟨?_, fun h => .inr (.inr h)⟩
    rintro (h | h | h)
    · exact stale_of_lapsed hf (.inl h)
    · exact stale_of_lapsed hf (.inr h)
    · exact h
  rw [Guarded, hlapsed, ← requestMatches_eq_false_iff hstored]
  unfold evaluateRequest
  split_ifs <;> simp_all [withheld_miss, not_withheld_hit, not_withheld_hitWithRevalidation]

/-- **What must be revalidated is withheld** exactly if the response is guarded: it has
`must-revalidate`, the request does not match by the first `Vary` line or asks for something
fresher, or the response is stale (as it is if it is not storable or has `no-cache`) and neither
`max-stale` nor `stale-while-revalidate` applies. -/
theorem evaluateRequest_iff (hf : f.Lawful) (request : RequestInfo) (response : ResponseInfo)
    (options : Options F) (now wall : ℤ) (req : RequestInfo) :
    ((newWithOptions request response options now).MustRevalidate request.headers req →
        Withheld ((newWithOptions request response options now).evaluateRequest f wall req)) ↔
      ((newWithOptions request response options now).MustRevalidate request.headers req →
        Guarded f (newWithOptions request response options now) request.headers wall req) :=
  imp_congr_right fun _ => withheld_iff_guarded hf fun _ hvary =>
    if_pos (Option.isSome_of_mem hvary)

/-! ## Examples -/

def nanoseconds : F64 ℤ where
  zero := 0
  ofNat n := n * 10 ^ 9
  ofDuration n := n
  parse text := (parseU64 text).map fun n : ℕ => (n * 10 ^ 9 : ℤ)
  add a c := a + c
  sub a c := a - c
  mul a c := a * c
  max a c := max a c
  lt a c := a < c
  le a c := a ≤ c
  round a := a
  text a := Text.latin1 (Text.decimalInt a)

theorem lawful_nanoseconds : nanoseconds.Lawful := by
  refine ⟨rfl, fun a c h => ?_, fun a c ha hc => ?_⟩
  · exact decide_eq_true (le_max_of_le_right (of_decide_eq_true h))
  · exact decide_eq_true (add_nonneg (of_decide_eq_true ha) (of_decide_eq_true hc))

def getWith (headers : List (String × String)) : RequestInfo :=
  ⟨.get, none, headers.map fun h => (h.1.toList, Text.encode h.2.toList)⟩

def okWith (headers : List (String × String)) : ResponseInfo :=
  ⟨200, headers.map fun h => (h.1.toList, Text.encode h.2.toList)⟩

def frozen : Options ℤ := ⟨true, 0, 86400 * 10 ^ 9, false, some 0⟩

theorem no_cache_withheld_from_plain_request :
    Withheld ((newWithOptions (getWith []) (okWith [("cache-control", "no-cache")]) frozen
      0).evaluateRequest nanoseconds 0 (getWith [])) := by
  have hmust : (newWithOptions (getWith []) (okWith [("cache-control", "no-cache")]) frozen
      0).MustRevalidate (getWith []).headers (getWith []) := .inr (.inl (by decide +kernel))
  refine (evaluateRequest_iff lawful_nanoseconds _ _ _ _ _ _).mpr (fun _ => ?_) hmust
  exact .inr (.inr (.inr (.inr (.inr
    ⟨.inr (.inl (by decide +kernel)), by decide +kernel, by decide +kernel⟩))))

/-- A response with `no-cache` is served for a request with `max-stale`, and one that varies by
two lines is served for a request that differs in a field of the second. -/
theorem serves_no_cache_and_second_vary :
    (newWithOptions (getWith []) (okWith [("cache-control", "no-cache")]) frozen
        0).MustRevalidate [] (getWith [("cache-control", "max-stale")]) ∧
      ((newWithOptions (getWith []) (okWith [("cache-control", "no-cache")]) frozen
        0).evaluateRequest nanoseconds 0 (getWith [("cache-control", "max-stale")])).response ≠
          none ∧
      (newWithOptions (getWith [])
        (okWith [("cache-control", "max-age=60"), ("vary", "accept"), ("vary", "cookie")]) frozen
        0).MustRevalidate [] (getWith [("cookie", "a")]) ∧
      ((newWithOptions (getWith [])
        (okWith [("cache-control", "max-age=60"), ("vary", "accept"), ("vary", "cookie")]) frozen
        0).evaluateRequest nanoseconds 0 (getWith [("cookie", "a")])).response ≠ none := by
  refine ⟨.inr (.inl (by decide +kernel)), by decide +kernel,
    .inr (.inr ⟨"cookie".toList, by decide +kernel, .inr (by decide +kernel)⟩), by decide +kernel⟩

end CachePolicy

end TptRfc.HttpCache
