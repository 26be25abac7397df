import TptRfc.HttpSig.SignVerify

/-!
# The policy of the verifier

What an accepted signature says about its parameters (`signer.rs`): the verifier reads the first
parameter of each name, and only if it has the expected type, so the policy of an accepted
signature is decided by what the verifier passes over: parameters of another type and repetitions.
-/

namespace TptRfc.HttpSig

open List Lib Access Text

/-- The rules a signature accepted at `now` is to meet, over all of its parameters. -/
structure Verifier.Policy (v : Verifier) (alg : Algorithm) (now : ℤ) (params : Params) : Prop where
  allowed : v.allowed = [] ∨ alg ∈ v.allowed
  names : ∀ x, ("alg".toList, x) ∈ params → x = .str alg.name.toList
  fresh : ∀ e, ("expires".toList, .int e) ∈ params → now ≤ e
  young : ∀ m ∈ v.maxAge, ∃ c, ("created".toList, .int c) ∈ params ∧ c ≤ now ∧ now - c ≤ m

/-- The values of a parameter behind its first one. -/
def repeats (params : Params) (name : String) : List SfParam :=
  ((params.filter (·.1 = name.toList)).map (·.2)).tail

theorem findParam_eq_head? (params : Params) (name : String) :
    findParam params name = ((params.filter (·.1 = name.toList)).map (·.2)).head? := by
  rw [findParam, head?_map, head?_filter]

theorem mem_params_iff {params : Params} {name : String} {x : SfParam} :
    (name.toList, x) ∈ params ↔ findParam params name = some x ∨ x ∈ repeats params name := by
  have hmem : (name.toList, x) ∈ params ↔
      x ∈ (params.filter (·.1 = name.toList)).map (·.2) := by
    simp
  rw [hmem, findParam_eq_head?, repeats]
  cases (params.filter (·.1 = name.toList)).map (·.2) with
  | nil => simp
  | cons y ys => simp [eq_comm]

theorem findInt_eq_some_iff {params : Params} {name : String} {n : ℤ} :
    findInt params name = some n ↔ findParam params name = some (.int n) := by
  rw [findInt]
  split <;> simp_all

theorem fromName_eq_ok_iff {s : List Char} {alg : Algorithm} :
    Algorithm.fromName s = .ok alg ↔ s = alg.name.toList := by
  constructor
  · intro h
    unfold Algorithm.fromName at h
    split at h
    · rename_i ha
      cases h
      simpa [eq_comm] using find?_some ha
    · cases h
  · rintro rfl
    cases alg <;> rfl

theorem checkAlg_eq_ok_iff {params : Params} {alg : Algorithm} : checkAlg params alg = .ok () ↔
    ∀ s, findParam params "alg" = some (.str s) → s = alg.name.toList := by
  unfold checkAlg
  split
  · rename_i s hs
    simp only [hs, Option.some.injEq, SfParam.str.injEq, forall_eq', bind_eq_ok_iff,
      fromName_eq_ok_iff]
    constructor
    · rintro ⟨declared, rfl, h⟩
      split at h
      · cases h
      · rename_i heq
        rw [not_not.mp heq]
    · rintro rfl
      exact ⟨alg, rfl, by simp [pure, Except.pure]⟩
  · rename_i hno
    exact iff_of_true rfl fun s hs => absurd hs (hno s)

theorem checkTimes_eq_ok_iff {v : Verifier} {params : Params} {now : ℤ} :
    v.checkTimes params now = .ok () ↔
      (v.requireCreated = true → findInt params "created" ≠ none) ∧
      (∀ e ∈ findInt params "expires", now ≤ e) ∧
      ∀ c ∈ findInt params "created", ∀ m ∈ v.maxAge, saturatingSub now c ≤ asI64 m := by
  unfold Verifier.checkTimes
  generalize findInt params "created" = created, findInt params "expires" = expires
  rcases v with ⟨_, require, maxAge, _⟩
  cases created <;> cases expires <;> cases maxAge <;> cases require <;>
    simp [-String.reduceToList]
  all_goals split_ifs <;> simp <;> omega

/-- **The policy of an accepted signature.**  It is met exactly if the first `alg` is a string
where it is given, the repetitions of `alg` and `expires` meet it too, and under a maximal age
the first `created` is an integer that lies in the past and not `2 ^ 63` seconds back, or a
repetition of it is young enough. -/
theorem policy_iff_of_verify {v : Verifier} {k : KeyPair} {clock : ℤ} {msg : HttpMessage}
    {req : Option HttpMessage} {inputValue : List Char} {signature : Bytes} {input : SignatureInput}
    (hverify : v.verify k clock msg req inputValue signature = .ok ())
    (hparse : parseSignatureInputValue inputValue = .ok input)
    (hage : ∀ m ∈ v.maxAge, m < 2 ^ 64) :
    v.Policy k.algorithm (v.now.getD clock) input.params ↔
      (∀ x, findParam input.params "alg" = some x → ∃ s, x = .str s) ∧
      (∀ x ∈ repeats input.params "alg", x = .str k.algorithm.name.toList) ∧
      (∀ e, .int e ∈ repeats input.params "expires" → v.now.getD clock ≤ e) ∧
      ∀ m ∈ v.maxAge,
        (∃ c, findInt input.params "created" = some c ∧ c ≤ v.now.getD clock ∧
          v.now.getD clock - c < 2 ^ 63) ∨
        ∃ c, .int c ∈ repeats input.params "created" ∧ c ≤ v.now.getD clock ∧
          v.now.getD clock - c ≤ m := by
  obtain ⟨input', hinput, hverify⟩ := bind_eq_ok_iff.mp hverify
  rw [hparse] at hinput
  cases hinput
  split at hverify
  · cases hverify
  rename_i hallowed
  obtain ⟨_, halg, hverify⟩ := bind_eq_ok_iff.mp hverify
  obtain ⟨_, htimes, -⟩ := bind_eq_ok_iff.mp hverify
  obtain ⟨-, hfresh, hyoung⟩ := checkTimes_eq_ok_iff.mp htimes
  have halg := checkAlg_eq_ok_iff.mp halg
  constructor
  · intro h
    refine ⟨fun x hx => ⟨_, h.names x (mem_params_iff.mpr (.inl hx))⟩,
      fun x hx => h.names x (mem_params_iff.mpr (.inr hx)),
      fun e he => h.fresh e (mem_params_iff.mpr (.inr he)), fun m hm => ?_⟩
    obtain ⟨c, hc, hpast, hle⟩ := h.young m hm
    rcases mem_params_iff.mp hc with hfirst | hlater
    · have hfirst := findInt_eq_some_iff.mpr hfirst
      refine .inl ⟨c, hfirst, hpast, ?_⟩
      have := hyoung c hfirst m hm
      have := hage m hm
      unfold saturatingSub asI64 at *
      split at * <;> omega
    · exact .inr ⟨c, hlater, hpast, hle⟩
  · rintro ⟨hstr, hnames, hlater, hcreated⟩
    refine ⟨by tauto, fun x hx => ?_, fun e he => ?_, fun m hm => ?_⟩
    · rcases mem_params_iff.mp hx with hfirst | hx
      · obtain ⟨s, rfl⟩ := hstr x hfirst
        rw [halg s hfirst]
      · exact hnames x hx
    · rcases mem_params_iff.mp he with hfirst | he
      · exact hfresh e (findInt_eq_some_iff.mpr hfirst)
      · exact hlater e he
    · rcases hcreated m hm with ⟨c, hc, hpast, hnear⟩ | ⟨c, hc, hpast, hle⟩
      · refine ⟨c, mem_params_iff.mpr (.inl (findInt_eq_some_iff.mp hc)), hpast, ?_⟩
        have := hyoung c hc m hm
        unfold saturatingSub asI64 at this
        split at this <;> omega
      · exact ⟨c, mem_params_iff.mpr (.inr hc), hpast, hle⟩

def agedVerifier : Verifier := ⟨[], false, some 10, none⟩

def paramsBase (inputValue : String) : Bytes :=
  encode ("\"@signature-params\": ".toList ++ inputValue.toList)

theorem policy_of_created_at_three :
    agedVerifier.Policy .ed25519 5 [("created".toList, .int 3)] :=
  (@policy_iff_of_verify agedVerifier (plainKeys .ed25519) 5 (getRequest "/") none
    "();created=3".toList (paramsBase "();created=3") ⟨[], [("created".toList, .int 3)]⟩
    (by decide +kernel) (by decide +kernel) (by decide)).mpr
      ⟨by simp [findParam], by simp [repeats], by simp [repeats],
        by simp [agedVerifier, findInt, findParam]⟩

/-- A signature is accepted after the time that its second `expires` gives. -/
theorem accepts_expired :
    agedVerifier.verify (plainKeys .ed25519) 1000 (getRequest "/") none
      "();created=995;expires=2000;expires=10".toList
      (paramsBase "();created=995;expires=2000;expires=10") = .ok () ∧
    parseSignatureInputValue "();created=995;expires=2000;expires=10".toList =
      .ok ⟨[], [("created".toList, .int 995), ("expires".toList, .int 2000),
        ("expires".toList, .int 10)]⟩ ∧
    ¬ agedVerifier.Policy .ed25519 1000 [("created".toList, .int 995),
      ("expires".toList, .int 2000), ("expires".toList, .int 10)] := by
  refine ⟨by decide +kernel, by decide +kernel, fun h => ?_⟩
  have := h.fresh 10 (by simp)
  omega

end TptRfc.HttpSig
