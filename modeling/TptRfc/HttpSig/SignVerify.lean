import TptRfc.HttpSig.Base

/-!
# HTTP message signatures: what was signed is verified

The verifier builds the base again from the text of `input_value`.
-/

namespace TptRfc.HttpSig

open Lib Access List Text

/-! ## What the parser of components returns -/

theorem isControl_of_isPlain :
    ∀ b : UInt8, ¬ (b < 0x20 ∨ b = 0x7f) → isControl (Char.ofNat b.toNat) = false := by
  decide +kernel

theorem toNat_of_isParamNameChar : ∀ b, isParamNameChar b → b.toNat < 128 := by decide +kernel

variable {bytes : Bytes} {r : List Char × Bytes} {c : ComponentId} {params : Params}
  {components : List ComponentId} {now : ℤ} {s : Signer}

theorem isControl_of_parseStringBody
    (h : parseStringBody bytes = .ok r) : ∀ c ∈ r.1, isControl c = false := by
  have push : ∀ {b : UInt8} {rest : Bytes} {r : List Char × Bytes},
      isControl (Char.ofNat b.toNat) = false →
      (∀ {r}, parseStringBody rest = .ok r → ∀ c ∈ r.1, isControl c = false) →
      (parseStringBody rest).map (pushChar b) = .ok r → ∀ c ∈ r.1, isControl c = false := by
    intro b rest r hb ih h c hc
    obtain ⟨r', hrest, rfl⟩ := map_eq_ok h
    rcases mem_cons.mp hc with rfl | hc
    · exact hb
    · exact ih hrest c hc
  fun_induction parseStringBody bytes generalizing r with
  | case1 => cases h
  | case2 rest =>
    cases h
    exact fun c hc => absurd hc not_mem_nil
  | case3 => cases h
  | case4 e rest he _ ih =>
    refine push ?_ (fun h => ih h) h
    rcases he with rfl | rfl <;> decide
  | case5 => cases h
  | case6 => cases h
  | case7 b rest hquote hslash hcontrol ih =>
    exact push (isControl_of_isPlain b hcontrol) (fun h => ih h) h

theorem isControl_of_parseString
    (h : parseString bytes = .ok r) : ∀ c ∈ r.1, isControl c = false := by
  obtain ⟨body, -, hbody⟩ := bind_eq_ok_iff.mp h
  exact isControl_of_parseStringBody hbody

theorem paramName_of_parseParamName (h : parseParamName bytes = .ok r) : ParamName r.1 := by
  unfold parseParamName at h
  split at h
  · cases h
  · rename_i hne
    cases h
    refine ⟨fun hnil => hne (map_eq_nil_iff.mp hnil), fun c hc => ?_⟩
    obtain ⟨b, hb, rfl⟩ := mem_map.mp hc
    have hb := mem_takeWhile_imp hb
    rw [toNat_latin1Char, UInt8.ofNat_toNat]
    exact ⟨toNat_of_isParamNameChar b hb, hb⟩

theorem bounds_of_parseInteger {r : ℤ × Bytes} (h : parseInteger bytes = .ok r) :
    -2 ^ 63 ≤ r.1 ∧ r.1 < 2 ^ 63 := by
  unfold parseInteger at h
  generalize (if bytes.head? = some 0x2d then [0x2d] else [] : Bytes) = sign at h
  dsimp only at h
  split at h
  · cases h
  split at h
  · rename_i n hn
    cases h
    have := bounds_of_parseSigned hn
    norm_num at this ⊢
    omega
  · cases h

theorem ok_of_parseParamValue {r : SfParam × Bytes} (h : parseParamValue bytes = .ok r) :
    r.1.Ok := by
  unfold parseParamValue at h
  split at h
  · cases h
  · split at h
    · obtain ⟨s, hs, rfl⟩ := map_eq_ok h
      exact isControl_of_parseString hs
    split at h
    · obtain ⟨n, hn, rfl⟩ := map_eq_ok h
      exact bounds_of_parseInteger hn
    split at h
    · split at h
      · cases h
      · split at h
        · cases h
          trivial
        split at h
        · cases h
          trivial
        · cases h
    · cases h

theorem ok_of_parseParam {r : (List Char × SfParam) × Bytes}
    (h : parseParam bytes = .ok r) : ParamName r.1.1 ∧ r.1.2.Ok := by
  obtain ⟨name, hname, hrest⟩ := bind_eq_ok_iff.mp h
  have hparamName := paramName_of_parseParamName hname
  unfold parseParamRest at hrest
  dsimp only at hrest
  split at hrest
  · obtain ⟨v, hvalue, rfl⟩ := map_eq_ok hrest
    exact ⟨hparamName, ok_of_parseParamValue hvalue⟩
  · cases hrest
    exact ⟨hparamName, trivial⟩

theorem paramsOk_of_parseParametersFrom {fuel : ℕ} {r : Params × Bytes}
    (h : parseParametersFrom fuel bytes = .ok r) : ParamsOk r.1 := by
  induction fuel generalizing bytes r with
  | zero =>
    cases h
    exact fun p hp => absurd hp not_mem_nil
  | succ fuel ih =>
    unfold parseParametersFrom at h
    dsimp only at h
    split at h
    · obtain ⟨param, hparam, h⟩ := bind_eq_ok_iff.mp h
      obtain ⟨params, hparams, h⟩ := bind_eq_ok_iff.mp h
      cases h
      intro p hp
      rcases mem_cons.mp hp with rfl | hp
      · exact ok_of_parseParam hparam
      · exact ih hparams p hp
    · cases h
      exact fun p hp => absurd hp not_mem_nil

theorem isControl_lowerChar {c : Char} (h : isControl c = false) :
    isControl (lowerChar c) = false := by
  by_cases hlower : lowerChar c = c
  · rwa [hlower]
  · have := toNat_lowerChar hlower
    simp only [isControl, Bool.or_eq_false_iff, decide_eq_false_iff_not]
    omega

theorem isControl_effectiveName {name : List Char} (h : ∀ c ∈ name, isControl c = false) :
    ∀ c ∈ effectiveName name, isControl c = false := by
  unfold effectiveName
  split
  · exact h
  · intro c hc
    obtain ⟨d, hd, rfl⟩ := mem_map.mp hc
    exact isControl_lowerChar (h d hd)

theorem effectiveName_effectiveName (name : List Char) :
    effectiveName (effectiveName name) = effectiveName name := by
  unfold effectiveName
  split
  · rfl
  · split
    · rfl
    · exact lower_lower name

theorem length_effectiveName (name : List Char) : (effectiveName name).length = name.length := by
  unfold effectiveName
  split
  · rfl
  · exact length_map _

structure ComponentId.Parsed (c : ComponentId) : Prop where
  ok : ItemOk (c.name, c.params)
  name : effectiveName c.name = c.name

theorem parsed_of_parse {s : List Char} (h : ComponentId.parse s = .ok c) : c.Parsed := by
  unfold ComponentId.parse at h
  obtain ⟨item, hitem, h⟩ := bind_eq_ok_iff.mp h
  split at h
  · cases h
  · cases h
    cases hparse : parseItem (skipSp (encode s)) with
    | error e => rw [hparse] at hitem; cases hitem
    | ok r =>
      rw [hparse] at hitem
      cases hitem
      obtain ⟨name, hname, hrest⟩ := bind_eq_ok_iff.mp hparse
      obtain ⟨params, hparams, hr⟩ := bind_eq_ok_iff.mp hrest
      cases hr
      exact ⟨⟨isControl_effectiveName (isControl_of_parseString hname),
        paramsOk_of_parseParametersFrom hparams⟩, effectiveName_effectiveName _⟩

/-! ## Strings that come back -/

theorem isControl_latin {s : List Char} (h : ∀ c ∈ s, isControl c = false) :
    ∀ c ∈ latin s, isControl c = false := by
  intro c hc
  obtain ⟨b, hb, rfl⟩ := mem_map.mp hc
  by_cases hascii : b.toNat < 128
  · exact h _ (mem_of_mem_encode hascii hb)
  · simp only [isControl, toNat_latin1Char, Bool.or_eq_false_iff, decide_eq_false_iff_not]
    omega

theorem paramsOk_latin (h : ParamsOk params) : ParamsOk (latinParams params) := by
  intro p hp
  obtain ⟨q, hq, rfl⟩ := mem_map.mp hp
  obtain ⟨hname, hv⟩ := h q hq
  refine ⟨hname, ?_⟩
  dsimp only
  cases hvalue : q.2 with
  | int n => rw [hvalue] at hv; exact hv
  | str s => rw [hvalue] at hv; exact isControl_latin hv
  | bool v => trivial

def Ascii (s : List Char) : Prop := ∀ c ∈ s, c.toNat < 128

def AsciiParams (params : Params) : Prop := ∀ p ∈ params, ∀ s, p.2 = .str s → Ascii s

theorem latinParams_eq_iff : latinParams params = params ↔ AsciiParams params := by
  constructor
  · intro h p hp s hs
    have hp' : (p.1, p.2.latin) = p := by
      obtain ⟨i, hi, rfl⟩ := mem_iff_getElem.mp hp
      have := congrArg (·[i]?) h
      simpa [latinParams, hi] using this
    have hlatin := congrArg Prod.snd hp'
    dsimp only at hlatin
    rw [hs] at hlatin
    exact latin1_encode_eq_iff.mp (SfParam.str.inj hlatin)
  · intro h
    refine (map_congr_left fun p hp => ?_).trans (map_id params)
    refine Prod.ext rfl ?_
    dsimp only [id]
    cases hvalue : p.2 with
    | int n => rfl
    | str s => exact congrArg SfParam.str (latin1_encode_of_ascii (h p hp s hvalue))
    | bool v => rfl

def ComponentId.returned (c : ComponentId) : ComponentId :=
  ⟨effectiveName (latin c.name), latinParams c.params⟩

theorem ComponentId.Parsed.returned (h : c.Parsed) : c.returned.Parsed :=
  ⟨⟨isControl_effectiveName (isControl_latin h.ok.1), paramsOk_latin h.ok.2⟩,
    effectiveName_effectiveName _⟩

theorem ascii_of_returned (h : c.returned = c) : Ascii c.name ∧ AsciiParams c.params := by
  have hname := congrArg (fun c => c.name.length) h
  have hparams := congrArg ComponentId.params h
  refine ⟨ascii_of_length_encode ?_, latinParams_eq_iff.mp hparams⟩
  simpa [ComponentId.returned, length_effectiveName, latin, latin1] using hname

theorem returned_of_ascii (h : c.Parsed) (hname : Ascii c.name)
    (hparams : AsciiParams c.params) : c.returned = c := by
  have hlatin : latin c.name = c.name := latin1_encode_of_ascii hname
  rw [ComponentId.returned, hlatin, h.name, latinParams_eq_iff.mpr hparams]

theorem parseSignatureInputValue_serialize (h : (innerList components params).Ok) :
    parseSignatureInputValue (serializeInnerList (innerList components params)) =
      .ok ⟨components.map .returned, latinParams params⟩ := by
  have hparse := parseInnerList_serialize h stops_nil
  rw [append_nil] at hparse
  rw [parseSignatureInputValue, hparse, ok_bind]
  simp only [SignatureInput.ofInnerList, InnerList.latin, innerList, map_map]
  rfl

/-! ## The parameters of the signer -/

def IsI64 (n : ℤ) : Prop := -2 ^ 63 ≤ n ∧ n < 2 ^ 63

instance : DecidablePred IsI64 := fun _ => inferInstanceAs (Decidable (_ ∧ _))

def Signer.texts (s : Signer) : List (List Char) := s.keyid.toList ++ s.nonce.toList ++ s.tag.toList

theorem mem_params {p : List Char × SfParam} (h : p ∈ s.params now) :
    ParamName p.1 ∧ (p.2 = .int (s.created.getD now) ∨ (∃ e ∈ s.expires, p.2 = .int e) ∨
      p.2 = .str s.alg.name.toList ∨ ∃ text ∈ s.texts, p.2 = .str text) := by
  simp only [Signer.params, mem_append, mem_singleton, Option.mem_toList,
    Option.map_eq_some_iff] at h
  simp only [Signer.texts, mem_append, Option.mem_toList, Option.mem_def]
  rcases h with ((((rfl | ⟨k, hk, rfl⟩) | rfl) | ⟨e, he, rfl⟩) | ⟨n, hn, rfl⟩) | ⟨t, ht, rfl⟩
  · exact ⟨(by decide +kernel : ParamName "created".toList), .inl rfl⟩
  · exact ⟨(by decide +kernel : ParamName "keyid".toList),
      .inr (.inr (.inr ⟨k, .inl (.inl hk), rfl⟩))⟩
  · exact ⟨(by decide +kernel : ParamName "alg".toList), .inr (.inr (.inl rfl))⟩
  · exact ⟨(by decide +kernel : ParamName "expires".toList), .inr (.inl ⟨e, he, rfl⟩)⟩
  · exact ⟨(by decide +kernel : ParamName "nonce".toList),
      .inr (.inr (.inr ⟨n, .inl (.inr hn), rfl⟩))⟩
  · exact ⟨(by decide +kernel : ParamName "tag".toList), .inr (.inr (.inr ⟨t, .inr ht, rfl⟩))⟩

theorem exists_mem_params {s : Signer} {now : ℤ} {text : List Char} (h : text ∈ s.texts) :
    ∃ p ∈ s.params now, p.2 = .str text := by
  simp only [Signer.texts, mem_append, Option.mem_toList] at h
  simp only [Signer.params, mem_append, mem_singleton, Option.mem_toList, Option.map_eq_some_iff]
  rcases h with (h | h) | h
  · exact ⟨_, .inl (.inl (.inl (.inl (.inr ⟨text, h, rfl⟩)))), rfl⟩
  · exact ⟨_, .inl (.inr ⟨text, h, rfl⟩), rfl⟩
  · exact ⟨_, .inr ⟨text, h, rfl⟩, rfl⟩

theorem printable_of_all {text : List Char}
    (h : text.all fun c => !isControl c && decide (c.toNat < 128)) :
    ∀ c ∈ text, isControl c = false ∧ c.toNat < 128 :=
  fun c hc => by simpa using all_eq_true.mp h c hc

theorem algorithm_name_ascii (a : Algorithm) :
    ∀ c ∈ a.name.toList, isControl c = false ∧ c.toNat < 128 :=
  printable_of_all (by cases a <;> decide +kernel)

theorem fromName_name (a : Algorithm) : Algorithm.fromName a.name.toList = .ok a := by
  cases a <;> decide +kernel

theorem paramsOk_params (hcreated : IsI64 (s.created.getD now))
    (hexpires : ∀ e ∈ s.expires, IsI64 e)
    (htexts : ∀ text ∈ s.texts, ∀ c ∈ text, isControl c = false) : ParamsOk (s.params now) := by
  intro p hp
  obtain ⟨hname, hv⟩ := mem_params hp
  refine ⟨hname, ?_⟩
  rcases hv with hv | ⟨e, he, hv⟩ | hv | ⟨text, htext, hv⟩ <;> rw [hv]
  · exact hcreated
  · exact hexpires e he
  · exact fun c hc => (algorithm_name_ascii s.alg c hc).1
  · exact htexts text htext

theorem findParam_alg (s : Signer) (now : ℤ) :
    findParam (s.params now) "alg" = some (.str s.alg.name.toList) := by
  obtain ⟨alg, keyid, created, expires, nonce, tag⟩ := s
  cases keyid <;> rfl

theorem findParam_expires (s : Signer) (now : ℤ) :
    findParam (s.params now) "expires" = s.expires.map .int := by
  obtain ⟨alg, keyid, created, expires, nonce, tag⟩ := s
  cases keyid <;> cases expires <;> cases nonce <;> cases tag <;> rfl

theorem parseParametersFrom_control (h : ∀ p ∈ params, ParamName p.1 ∧ (p.2.Ok ∨ ∃ s, p.2 = .str s))
    {rest : Bytes} (hrest : Stops rest) (hbad : ¬ ParamsOk params) {fuel : ℕ}
    (hfuel : params.length ≤ fuel) (r : Params × Bytes) :
    parseParametersFrom fuel (encode (serializeParams params) ++ rest) ≠ .ok r := by
  intro hr
  refine parseParametersFrom_bad (Q := fun _ => False)
    (fun p hp hnot _ more param _ hparam _ => ?_) hbad hrest hfuel hr
  obtain ⟨hname, hv⟩ := h p hp
  have hok : ¬ p.2.Ok := fun hok => hnot ⟨hname, hok⟩
  obtain ⟨s, hs⟩ := hv.resolve_left hok
  rw [hs] at hok hparam
  obtain ⟨c, hc, hcontrol⟩ : ∃ c ∈ s, isControl c = true := by
    by_contra hnone
    exact hok fun c hc => Bool.eq_false_iff.mpr fun hcontrol => hnone ⟨c, hc, hcontrol⟩
  rw [parseParam_value hname (by simp), serializeParamValue, encode_escapeString] at hparam
  unfold parseParamValue at hparam
  dsimp only at hparam
  rw [if_pos rfl] at hparam
  cases hstring : parseString (0x22 :: (encode (s.flatMap escapeChar) ++ 0x22 :: more)) with
  | error e => rw [hstring] at hparam; cases hparam
  | ok r' => exact parseStringBody_control hc hcontrol _ r' hstring

theorem isControl_of_parse
    (hparsed : ∀ c ∈ components, c.Parsed) (hcreated : IsI64 (s.created.getD now))
    (hexpires : ∀ e ∈ s.expires, IsI64 e) {input : SignatureInput}
    (h : parseSignatureInputValue (serializeInnerList (innerList components (s.params now))) =
      .ok input) : ∀ text ∈ s.texts, ∀ c ∈ text, isControl c = false := by
  by_contra hbad
  have hparams : ∀ p ∈ s.params now, ParamName p.1 ∧ (p.2.Ok ∨ ∃ s, p.2 = .str s) := by
    intro p hp
    obtain ⟨hname, hv⟩ := mem_params hp
    refine ⟨hname, ?_⟩
    rcases hv with hv | ⟨e, he, hv⟩ | hv | ⟨text, -, hv⟩ <;> rw [hv]
    · exact .inl hcreated
    · exact .inl (hexpires e he)
    · exact .inr ⟨_, rfl⟩
    · exact .inr ⟨_, rfl⟩
  have hnot : ¬ ParamsOk (s.params now) := by
    intro hok
    refine hbad fun text htext => ?_
    obtain ⟨p, hp, hv⟩ := @exists_mem_params s now text htext
    have := (hok p hp).2
    rw [hv] at this
    exact this
  have hitems : ∀ item ∈ (innerList components (s.params now)).items, ItemOk item := by
    intro item hitem
    obtain ⟨c, hc, rfl⟩ := mem_map.mp hitem
    exact (hparsed c hc).ok
  obtain ⟨inner, hinner, -⟩ := bind_eq_ok_iff.mp h
  rw [← append_nil (encode _), serializeInnerList, encode_bracketed, parseInnerList, expect_cons,
    ok_bind] at hinner
  dsimp only at hinner
  rw [skipSp_items, parseItems_serialize hitems _ (by
    rw [length_append]
    exact (length_le_intercalate _).trans (Nat.le_add_right _ _)), ok_bind] at hinner
  obtain ⟨params', hparams', -⟩ := bind_eq_ok_iff.mp hinner
  simp only [skipParen, head?_cons, if_pos, tail_cons] at hparams'
  obtain ⟨p, ps, hps⟩ : ∃ p ps, s.params now = p :: ps := ⟨_, _, rfl⟩
  have hskip : ∀ rest, skipSp (encode (serializeParams (s.params now)) ++ rest) =
      encode (serializeParams (s.params now)) ++ rest := by
    intro rest
    rw [hps, encode_serializeParams_cons]
    exact skipSp_cons (by decide) _
  have hinnerParams : (innerList components (s.params now)).params = s.params now := rfl
  rw [hinnerParams, hskip] at hparams'
  refine parseParametersFrom_control hparams stops_nil hnot ?_ params' hparams'
  rw [length_append]
  exact (length_le_serializeParams _).trans (Nat.le_add_right _ _)

/-! ## Signing and verifying -/

def VerifiesAfterSigning (s : Signer) (now : ℤ) (msg : HttpMessage) (req : Option HttpMessage)
    (components : List ComponentId) : Prop :=
  ∀ k : KeyPair, k.Lawful → ∀ out, s.sign k now msg req components = .ok out →
    ∀ t, (∀ e ∈ s.expires, t ≤ e) →
      Verifier.default.verify k t msg req out.inputValue out.signature = .ok ()

structure Writable (s : Signer) (components : List ComponentId) : Prop where
  texts : ∀ text ∈ s.texts, ∀ c ∈ text, isControl c = false ∧ c.toNat < 128
  names : ∀ c ∈ components, Ascii c.name
  params : ∀ c ∈ components, AsciiParams c.params

theorem asciiParams_params
    (h : ∀ text ∈ s.texts, ∀ c ∈ text, c.toNat < 128) : AsciiParams (s.params now) := by
  intro p hp text htext
  obtain ⟨-, hv⟩ := mem_params hp
  rcases hv with hv | ⟨e, -, hv⟩ | hv | ⟨text', htext', hv⟩
  · cases htext.symm.trans hv
  · cases htext.symm.trans hv
  · obtain rfl := SfParam.str.inj (htext.symm.trans hv)
    exact fun c hc => (algorithm_name_ascii s.alg c hc).2
  · obtain rfl := SfParam.str.inj (htext.symm.trans hv)
    exact h text htext'

theorem checks_params {s : Signer} {now t : ℤ} (ht : ∀ e ∈ s.expires, t ≤ e) :
    checkAlg (s.params now) s.alg = .ok () ∧
      Verifier.default.checkTimes (s.params now) t = .ok () := by
  constructor
  · rw [checkAlg, findParam_alg]
    dsimp only
    rw [fromName_name, ok_bind, if_neg (by simp)]
    rfl
  · have hexpires : (findInt (s.params now) "expires").any (· < t) = false := by
      rw [findInt, findParam_expires]
      cases he : s.expires with
      | none => rfl
      | some e => simpa using ht e he
    unfold Verifier.checkTimes
    rw [if_neg (by simp [Verifier.default]), hexpires, if_neg (by simp)]
    split
    · rename_i maxAge _ hmax
      cases hmax
    · rfl

def plainKeys (alg : Algorithm) : KeyPair where
  algorithm := alg
  sign base := .ok base
  verify base signature := if signature = base then .ok () else .error (.key [])

theorem lawful_plainKeys (alg : Algorithm) : (plainKeys alg).Lawful := by
  intro base signature h
  cases h
  exact if_pos rfl

section Honest

variable {msg : HttpMessage} {req : Option HttpMessage} (hparsed : ∀ c ∈ components, c.Parsed)
  (hcreated : IsI64 (s.created.getD now)) (hexpires : ∀ e ∈ s.expires, IsI64 e)

include hparsed hcreated hexpires

theorem innerList_ok (htexts : ∀ text ∈ s.texts, ∀ c ∈ text, isControl c = false) :
    (innerList components (s.params now)).Ok := by
  refine ⟨fun item hitem => ?_, paramsOk_params hcreated hexpires htexts⟩
  obtain ⟨c, hc, rfl⟩ := mem_map.mp hitem
  exact (hparsed c hc).ok

theorem verify_of_writable (h : Writable s components) :
    VerifiesAfterSigning s now msg req components := by
  intro k hk out hsign t ht
  unfold Signer.sign at hsign
  split at hsign
  · cases hsign
  rename_i halg
  obtain ⟨base, hbase, hsign⟩ := bind_eq_ok_iff.mp hsign
  obtain ⟨signature, hsignature, hout⟩ := bind_eq_ok_iff.mp hsign
  cases hout
  have hok := innerList_ok hparsed hcreated hexpires fun text htext c hc =>
    (h.texts text htext c hc).1
  have hreturned : components.map ComponentId.returned = components :=
    (map_congr_left fun c hc => returned_of_ascii (hparsed c hc) (h.names c hc)
      (h.params c hc)).trans (map_id _)
  have hparams : latinParams (s.params now) = s.params now :=
    latinParams_eq_iff.mpr (asciiParams_params fun text htext c hc => (h.texts text htext c hc).2)
  obtain ⟨halgCheck, htimes⟩ := @checks_params s now t ht
  have hinput : liftSf (parseSignatureInputValue
      (serializeInnerList (innerList components (s.params now)))) =
        .ok ⟨components, s.params now⟩ := by
    rw [parseSignatureInputValue_serialize hok, hreturned, hparams]
    rfl
  have htimes : Verifier.default.checkTimes (s.params now) (Verifier.default.now.getD t) =
      .ok () := htimes
  rw [Verifier.verify, hinput, ok_bind, if_neg (by simp [Verifier.default]), not_not.mp halg]
  dsimp only
  rw [halgCheck, ok_bind, htimes, ok_bind, hbase, ok_bind]
  exact hk _ _ hsignature

theorem writable_of_verifies {base : List Char}
    (hbase : buildSignatureBase components (s.params now) msg req = .ok base)
    (h : VerifiesAfterSigning s now msg req components) : Writable s components := by
  have hsign : s.sign (plainKeys s.alg) now msg req components =
      .ok ⟨serializeInnerList (innerList components (s.params now)), encode base⟩ := by
    rw [Signer.sign, if_neg (by simp [plainKeys]), hbase]
    rfl
  have hverify := h (plainKeys s.alg) (lawful_plainKeys s.alg) _ hsign (s.expires.getD 0) (by
    intro e he
    rw [Option.mem_def.mp he]
    exact le_rfl)
  obtain ⟨input, hinput, hverify⟩ := bind_eq_ok_iff.mp hverify
  cases hparse : parseSignatureInputValue
      (serializeInnerList (innerList components (s.params now))) with
  | error e => rw [hparse] at hinput; cases hinput
  | ok input' =>
    have htexts := isControl_of_parse hparsed hcreated hexpires hparse
    have hok := innerList_ok hparsed hcreated hexpires htexts
    rw [parseSignatureInputValue_serialize hok] at hinput
    cases hinput
    rw [if_neg (by simp [Verifier.default])] at hverify
    obtain ⟨_, _, hverify⟩ := bind_eq_ok_iff.mp hverify
    obtain ⟨_, _, hverify⟩ := bind_eq_ok_iff.mp hverify
    obtain ⟨base', hbase', hverify⟩ := bind_eq_ok_iff.mp hverify
    have heq : base = base' := by
      simp only [plainKeys] at hverify
      split at hverify
      · rename_i hencode
        exact encode_injective hencode
      · cases hverify
    subst heq
    have hok' : (innerList (components.map .returned) (latinParams (s.params now))).Ok := by
      refine ⟨fun item hitem => ?_, paramsOk_latin hok.2⟩
      obtain ⟨c, hc, rfl⟩ := mem_map.mp hitem
      obtain ⟨d, hd, rfl⟩ := mem_map.mp hc
      exact (hparsed d hd).returned.ok
    obtain ⟨hcomponents, hparams, -⟩ := lines_of_base hok hok' hbase hbase'
    have hascii := latinParams_eq_iff.mp hparams.symm
    have hreturned : ∀ c ∈ components, c.returned = c := by
      intro c hc
      obtain ⟨i, hi, rfl⟩ := mem_iff_getElem.mp hc
      have := congrArg (·[i]?) hcomponents
      simpa [hi, eq_comm] using this
    refine ⟨fun text htext c hc => ⟨htexts text htext c hc, ?_⟩,
      fun c hc => (ascii_of_returned (hreturned c hc)).1,
      fun c hc => (ascii_of_returned (hreturned c hc)).2⟩
    obtain ⟨p, hp, hv⟩ := @exists_mem_params s now text htext
    exact hascii p hp text hv c hc

end Honest

/-- **What was signed is verified** exactly if the texts of the signer are printable ASCII and
the strings of the components are ASCII, or the base cannot be built at all. -/
theorem verifies_iff (s : Signer) (now : ℤ) (msg : HttpMessage) (req : Option HttpMessage)
    (components : List ComponentId)
    (hparsed : ∀ c ∈ components, ∃ text, ComponentId.parse text = .ok c)
    (hcreated : IsI64 (s.created.getD now)) (hexpires : ∀ e ∈ s.expires, IsI64 e) :
    VerifiesAfterSigning s now msg req components ↔
      Writable s components ∨
        ∀ base, buildSignatureBase components (s.params now) msg req ≠ .ok base := by
  have hparsed : ∀ c ∈ components, c.Parsed := by
    intro c hc
    obtain ⟨text, htext⟩ := hparsed c hc
    exact parsed_of_parse htext
  constructor
  · intro h
    by_cases hbase : ∃ base, buildSignatureBase components (s.params now) msg req = .ok base
    · obtain ⟨base, hbase⟩ := hbase
      exact .inl (writable_of_verifies hparsed hcreated hexpires hbase h)
    · exact .inr fun base heq => hbase ⟨base, heq⟩
  · rintro (h | h)
    · exact verify_of_writable hparsed hcreated hexpires h
    · intro k _ out hsign
      unfold Signer.sign at hsign
      split at hsign
      · cases hsign
      · obtain ⟨base, hbase, -⟩ := bind_eq_ok_iff.mp hsign
        exact absurd hbase (h base)

def signerWith (keyid : List Char) : Signer := ⟨.ed25519, some keyid, some 0, none, none, none⟩

/-- A signature over the method, with a key id. -/
theorem verifies_iff_ascii_keyid : VerifiesAfterSigning (signerWith "key".toList) 0
    (getRequest "/") none [⟨"@method".toList, []⟩] := by
  have hparse : ComponentId.parse "\"@method\"".toList = .ok ⟨"@method".toList, []⟩ := by
    decide +kernel
  refine (verifies_iff (signerWith "key".toList) 0 (getRequest "/") none
    [⟨"@method".toList, []⟩] (fun c hc => ?_) (by decide) nofun).mpr
    (.inl ⟨fun text htext => ?_, fun c hc => ?_, fun c hc => ?_⟩)
  · rw [mem_singleton.mp hc]
    exact ⟨_, hparse⟩
  · rw [mem_singleton.mp htext]
    exact printable_of_all (by decide +kernel)
  · rw [mem_singleton.mp hc]
    exact fun c hc => (printable_of_all (by decide +kernel) c hc).2
  · rw [mem_singleton.mp hc]
    exact fun p hp => absurd hp not_mem_nil

/-- A `keyid` beyond ASCII comes back as other characters, and the signature is rejected. -/
theorem rejects_keyid_beyond_ascii :
    ∃ out, (signerWith ['é']).sign (plainKeys .ed25519) 0 (getRequest "/") none [] = .ok out ∧
      Verifier.default.verify (plainKeys .ed25519) 0 (getRequest "/") none out.inputValue
        out.signature = .error (.key []) := by
  refine ⟨⟨_, _⟩, rfl, ?_⟩
  decide +kernel

end TptRfc.HttpSig
