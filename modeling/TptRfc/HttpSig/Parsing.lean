import TptRfc.HttpSig.Fields

/-!
# HTTP message signatures: reading what was written

`parseInnerList_serialize`: an inner list is read back from its text, up to its strings.
-/

namespace TptRfc.HttpSig

open Lib Access List Text Function

/-! ## Bytes -/

theorem skipSp_skipSp (bytes : Bytes) : skipSp (skipSp bytes) = skipSp bytes :=
  dropWhile_idempotent _ _

variable {b : UInt8} {rest : Bytes} {c : Char} {s name : List Char} {v : SfParam} {params : Params}

theorem skipSp_cons (h : b ≠ 0x20) (bytes : Bytes) : skipSp (b :: bytes) = b :: bytes := by
  rw [skipSp, dropWhile_cons_of_neg (by simpa using h)]

theorem expect_cons (b : UInt8) (bytes : Bytes) : expect b (b :: bytes) = .ok bytes := by
  rw [expect, head?_cons, if_pos rfl, tail_cons]

structure Stops (rest : Bytes) : Prop where
  name : ∀ b ∈ rest.head?, isParamNameChar b = false
  value : (skipSp rest).head? ≠ some 0x3d
  param : (skipSp rest).head? ≠ some 0x3b

theorem stops_nil : Stops [] := ⟨nofun, nofun, nofun⟩

theorem stops_cons (hname : isParamNameChar b = false) (hsp : b ≠ 0x20)
    (hvalue : b ≠ 0x3d) (hparam : b ≠ 0x3b) (rest : Bytes) : Stops (b :: rest) := by
  refine ⟨?_, ?_, ?_⟩
  · intro c hc
    cases hc
    exact hname
  · rw [skipSp_cons hsp]
    exact fun h => hvalue (Option.some.inj h)
  · rw [skipSp_cons hsp]
    exact fun h => hparam (Option.some.inj h)

theorem word_append {p : UInt8 → Bool} {word : List Char}
    (hchars : ∀ c ∈ word, c.toNat < 128 ∧ p (UInt8.ofNat c.toNat)) (hne : word ≠ [])
    (hrest : ∀ b ∈ rest.head?, p b = false) : (encode word ++ rest).takeWhile p ≠ [] ∧
      latin1 ((encode word ++ rest).takeWhile p) = word ∧
      (encode word ++ rest).dropWhile p = rest := by
  have hascii := fun c hc => (hchars c hc).1
  have hp : ∀ b ∈ encode word, p b := by
    rw [encode_of_ascii hascii]
    intro b hb
    obtain ⟨c, hc, rfl⟩ := mem_map.mp hb
    exact (hchars c hc).2
  obtain ⟨htake, hdrop⟩ := takeWhile_append_of_stop hp hrest
  rw [htake, hdrop, latin1_encode_of_ascii hascii]
  refine ⟨?_, rfl, rfl⟩
  rw [encode_of_ascii hascii, Ne, map_eq_nil_iff]
  exact hne

/-! ## Strings -/

def isControl (c : Char) : Bool := c.toNat < 0x20 || c.toNat = 0x7f

def latin (s : List Char) : List Char := latin1 (encode s)

theorem latin_cons (c : Char) (s : List Char) :
    latin (c :: s) = latin1 (String.utf8EncodeChar c) ++ latin s := by
  rw [latin, encode_cons, latin1, map_append]
  rfl

theorem latin_injective : Injective latin := latin1_injective.comp encode_injective

def isPlain (b : UInt8) : Bool := b ≠ 0x22 && b ≠ 0x5c && 0x20 ≤ b && b ≠ 0x7f

theorem parseStringBody_plain {bytes : Bytes} (h : ∀ b ∈ bytes, isPlain b) (rest : Bytes) :
    parseStringBody (bytes ++ rest) =
      (parseStringBody rest).map fun r => (latin1 bytes ++ r.1, r.2) := by
  induction bytes with
  | nil =>
    rw [nil_append]
    cases parseStringBody rest <;> rfl
  | cons b bytes ih =>
    have hb := h b mem_cons_self
    simp only [isPlain, Bool.and_eq_true, decide_eq_true_eq, ne_eq] at hb
    obtain ⟨⟨⟨hquote, hslash⟩, hlow⟩, hdel⟩ := hb
    rw [cons_append, parseStringBody.eq_def]
    dsimp only
    rw [if_neg hquote, if_neg hslash, if_neg (by simpa [hdel] using hlow),
      ih fun c hc => h c (mem_cons_of_mem b hc)]
    cases parseStringBody rest <;> rfl

theorem isPlain_of_mem (hquote : c ≠ '"') (hslash : c ≠ '\\')
    (hcontrol : isControl c = false) : ∀ b ∈ String.utf8EncodeChar c, isPlain b := by
  intro b hb
  simp only [isControl, Bool.or_eq_false_iff, decide_eq_false_iff_not] at hcontrol
  have hne : ∀ n : ℕ, n < 128 → c.toNat ≠ n → b.toNat ≠ n := by
    intro n hn hc heq
    exact hc (by rw [← toNat_of_mem_utf8EncodeChar (by omega) hb, heq])
  have h34 := hne 34 (by decide) fun h => hquote (Char.toNat_inj.mp h)
  have h92 := hne 92 (by decide) fun h => hslash (Char.toNat_inj.mp h)
  have h127 := hne 127 (by decide) hcontrol.2
  have hlow : ¬ b.toNat < 32 := fun h =>
    hcontrol.1 (by rw [← toNat_of_mem_utf8EncodeChar (by omega) hb]; exact h)
  simp only [isPlain, Bool.and_eq_true, decide_eq_true_eq, ne_eq, ← UInt8.toNat_inj,
    UInt8.le_iff_toNat_le]
  exact ⟨⟨⟨h34, h92⟩, Nat.not_lt.mp hlow⟩, h127⟩

theorem parseStringBody_escapeChar (h : isControl c = false) (rest : Bytes) :
    parseStringBody (encode (escapeChar c) ++ rest) =
      (parseStringBody rest).map fun r =>
        (latin1 (String.utf8EncodeChar c) ++ r.1, r.2) := by
  by_cases hquote : c = '"'
  · subst hquote
    change parseStringBody (0x5c :: 0x22 :: rest) = _
    rw [parseStringBody.eq_def]
    dsimp only
    rw [if_neg (by decide), if_pos rfl, if_pos (.inr rfl)]
    rfl
  by_cases hslash : c = '\\'
  · subst hslash
    change parseStringBody (0x5c :: 0x5c :: rest) = _
    rw [parseStringBody.eq_def]
    dsimp only
    rw [if_neg (by decide), if_pos rfl, if_pos (.inl rfl)]
    rfl
  rw [escapeChar, if_neg hquote, if_neg hslash]
  change parseStringBody ((String.utf8EncodeChar c ++ []) ++ rest) = _
  rw [append_nil, parseStringBody_plain (isPlain_of_mem hquote hslash h)]

theorem parseStringBody_escape (h : ∀ c ∈ s, isControl c = false) (rest : Bytes) :
    parseStringBody (encode (s.flatMap escapeChar) ++ 0x22 :: rest) = .ok (latin s, rest) := by
  induction s with
  | nil =>
    change parseStringBody (0x22 :: rest) = _
    rw [parseStringBody.eq_def]
    rfl
  | cons c s ih =>
    rw [flatMap_cons, encode_append, append_assoc, latin_cons,
      parseStringBody_escapeChar (h c mem_cons_self),
      ih fun d hd => h d (mem_cons_of_mem c hd)]
    rfl

theorem parseStringBody_control (hc : c ∈ s) (hcontrol : isControl c)
    (rest : Bytes) (r : List Char × Bytes) :
    parseStringBody (encode (s.flatMap escapeChar) ++ rest) ≠ .ok r := by
  induction s generalizing r with
  | nil => cases hc
  | cons d s ih =>
    rw [flatMap_cons, encode_append, append_assoc]
    cases hd : isControl d with
    | true =>
      simp only [isControl, Bool.or_eq_true, decide_eq_true_eq] at hd
      have hquote : d ≠ '"' := by
        rintro rfl
        exact absurd hd (by decide)
      have hslash : d ≠ '\\' := by
        rintro rfl
        exact absurd hd (by decide)
      have hval : (UInt8.ofNat d.toNat).toNat = d.toNat := by
        rw [UInt8.toNat_ofNat', Nat.mod_eq_of_lt (by omega)]
      have h20 : UInt8.toNat 0x20 = 32 := rfl
      have h7f : UInt8.toNat 0x7f = 127 := rfl
      have h22 : UInt8.toNat 0x22 = 34 := rfl
      have h5c : UInt8.toNat 0x5c = 92 := rfl
      rw [escapeChar, if_neg hquote, if_neg hslash, encode_of_ascii (by simp; omega)]
      intro h
      rw [map_singleton, singleton_append, parseStringBody.eq_def] at h
      dsimp only at h
      rw [if_neg, if_neg, if_pos] at h
      · cases h
      · rw [UInt8.lt_iff_toNat_lt, ← UInt8.toNat_inj]
        omega
      · rw [← UInt8.toNat_inj]
        omega
      · rw [← UInt8.toNat_inj]
        omega
    | false =>
      have hc : c ∈ s := by
        rcases mem_cons.mp hc with rfl | hc
        · rw [hd] at hcontrol
          cases hcontrol
        · exact hc
      rw [parseStringBody_escapeChar hd]
      cases hrest : parseStringBody (encode (s.flatMap escapeChar) ++ rest) with
      | error e => exact nofun
      | ok r' => exact absurd hrest (ih hc r')

theorem encode_escapeString (s : List Char) (rest : Bytes) : encode (escapeString s) ++ rest =
      0x22 :: (encode (s.flatMap escapeChar) ++ 0x22 :: rest) := by
  rw [escapeString, encode_append, encode_cons, append_assoc, append_assoc]
  rfl

theorem parseString_escape (h : ∀ c ∈ s, isControl c = false) (rest : Bytes) :
    parseString (encode (escapeString s) ++ rest) = .ok (latin s, rest) := by
  rw [encode_escapeString]
  exact parseStringBody_escape h rest

/-! ## Parameters -/

def ParamName (name : List Char) : Prop :=
  name ≠ [] ∧ ∀ c ∈ name, c.toNat < 128 ∧ isParamNameChar (UInt8.ofNat c.toNat)

instance : DecidablePred ParamName := fun name =>
  decidable_of_iff
    (name ≠ [] ∧ name.all fun c => c.toNat < 128 && isParamNameChar (UInt8.ofNat c.toNat))
    (by simp [ParamName])

def SfParam.Ok : SfParam → Prop
  | .int n => -2 ^ 63 ≤ n ∧ n < 2 ^ 63
  | .str s => ∀ c ∈ s, isControl c = false
  | .bool _ => True

instance : DecidablePred SfParam.Ok := fun v =>
  match v with
  | .int _ => inferInstanceAs (Decidable (_ ∧ _))
  | .str s => decidable_of_iff (s.all fun c => !isControl c) (by simp [SfParam.Ok])
  | .bool _ => isTrue trivial

def ParamsOk (params : Params) : Prop := ∀ p ∈ params, ParamName p.1 ∧ p.2.Ok

instance : DecidablePred ParamsOk := fun params =>
  inferInstanceAs (Decidable (∀ p ∈ params, _ ∧ _))

def SfParam.latin : SfParam → SfParam
  | .str s => .str (HttpSig.latin s)
  | v => v

def latinParams (params : Params) : Params := params.map fun p => (p.1, p.2.latin)

theorem parseParamName_append (h : ParamName name)
    (hrest : ∀ b ∈ rest.head?, isParamNameChar b = false) :
    parseParamName (encode name ++ rest) = .ok (name, rest) := by
  obtain ⟨hne, hword, hdrop⟩ := word_append h.2 h.1 hrest
  rw [parseParamName, if_neg hne, hword, hdrop]

theorem isDigit_iff : isDigit b ↔ 0x30 ≤ b ∧ b ≤ 0x39 := by
  simp [isDigit]

theorem parseInteger_append {n : ℤ} (hlow : -2 ^ 63 ≤ n) (hhigh : n < 2 ^ 63)
    (hrest : ∀ b ∈ rest.head?, isDigit b = false) :
    parseInteger (decimalInt n ++ rest) = .ok (n, rest) := by
  have hparse := @parseSigned_decimalInt (2 ^ 63 - 1) n (by norm_num; omega) (by norm_num; omega)
  have hdigits : ∀ b ∈ decimal n.natAbs, isDigit b :=
    fun b hb => isDigit_iff.mpr (digit_of_mem_decimal hb)
  obtain ⟨htake, hdrop⟩ := takeWhile_append_of_stop hdigits hrest
  obtain ⟨d, ds, hds⟩ := exists_cons_of_ne_nil (decimal_ne_nil n.natAbs)
  have hminus : d ≠ 0x2d := by
    rintro rfl
    exact absurd (hdigits 0x2d (hds ▸ mem_cons_self)) (by decide)
  unfold decimalInt at hparse ⊢
  split at hparse
  · rename_i hneg
    rw [if_pos hneg]
    simp only [parseInteger, cons_append, head?_cons, if_pos, length_cons,
      length_nil, drop_succ_cons, drop_zero]
    rw [htake, hdrop, if_neg (decimal_ne_nil _), nil_append, hparse]
  · rename_i hneg
    rw [if_neg hneg]
    have hhead : (decimal n.natAbs ++ rest).head? ≠ some 0x2d := by
      rw [hds]
      exact fun h => hminus (Option.some.inj h)
    simp only [parseInteger, if_neg hhead, length_nil, drop_zero, nil_append]
    rw [htake, hdrop, if_neg (decimal_ne_nil _), hparse]

theorem encode_intText (n : ℤ) : encode (intText n) = decimalInt n := by
  refine encode_latin1 fun b hb => ?_
  have hdigit : ∀ b ∈ decimal n.natAbs, b.toNat < 128 := by
    intro b hb
    have := UInt8.le_iff_toNat_le.mp (digit_of_mem_decimal hb).2
    exact lt_of_le_of_lt this (by decide)
  unfold decimalInt at hb
  split at hb
  · rcases mem_cons.mp hb with rfl | hb
    · decide
    · exact hdigit b hb
  · exact hdigit b hb

theorem parseParamValue_serialize (h : v.Ok) (hrest : ∀ b ∈ rest.head?, isParamNameChar b = false) :
    parseParamValue (encode (serializeParamValue v) ++ rest) = .ok (v.latin, rest) := by
  cases v with
  | int n =>
    have hdigit : ∀ b ∈ rest.head?, isDigit b = false := by
      intro b hb
      have := hrest b hb
      simp only [isParamNameChar, Bool.or_eq_false_iff] at this
      exact this.1.1.2
    have hparse := parseInteger_append h.1 h.2 hdigit
    rw [serializeParamValue, encode_intText]
    obtain ⟨b, bytes, hbytes, hb⟩ :
        ∃ b bytes, decimalInt n ++ rest = b :: bytes ∧ (b = 0x2d ∨ isDigit b) := by
      obtain ⟨d, ds, hds⟩ := exists_cons_of_ne_nil (decimal_ne_nil n.natAbs)
      unfold decimalInt
      split
      · exact ⟨_, _, rfl, .inl rfl⟩
      · rw [hds]
        exact ⟨_, _, rfl, .inr (isDigit_iff.mpr
          (digit_of_mem_decimal (hds ▸ mem_cons_self)))⟩
    have hquote : b ≠ 0x22 := by
      rintro rfl
      exact absurd hb (by decide)
    rw [hbytes] at hparse ⊢
    unfold parseParamValue
    dsimp only
    rw [if_neg hquote, if_pos hb, hparse]
    rfl
  | str s =>
    have hparse := parseString_escape h rest
    rw [serializeParamValue]
    rw [encode_escapeString] at hparse ⊢
    unfold parseParamValue
    dsimp only
    rw [if_pos rfl, hparse]
    rfl
  | bool v => cases v <;> rfl

theorem skipSp_serializeParamValue (v : SfParam) (rest : Bytes) :
    skipSp (encode (serializeParamValue v) ++ rest) =
      encode (serializeParamValue v) ++ rest := by
  cases v with
  | int n =>
    rw [serializeParamValue, encode_intText]
    obtain ⟨d, ds, hds⟩ := exists_cons_of_ne_nil (decimal_ne_nil n.natAbs)
    unfold decimalInt
    split
    · exact skipSp_cons (by decide) _
    · have hd := digit_of_mem_decimal (hds ▸ mem_cons_self : d ∈ decimal n.natAbs)
      rw [hds]
      refine skipSp_cons ?_ _
      rintro rfl
      exact absurd hd.1 (by decide)
  | str s =>
    rw [serializeParamValue, encode_escapeString]
    exact skipSp_cons (by decide) _
  | bool v => cases v <;> exact skipSp_cons (by decide) _

theorem skipSp_paramName (h : ParamName name) (rest : Bytes) :
    skipSp (encode name ++ rest) = encode name ++ rest := by
  obtain ⟨c, cs, rfl⟩ := exists_cons_of_ne_nil h.1
  obtain ⟨hc, hc'⟩ := h.2 c mem_cons_self
  rw [encode_cons_ascii hc]
  refine skipSp_cons ?_ _
  intro heq
  rw [heq] at hc'
  exact absurd hc' (by decide)

theorem parseParam_value (hname : ParamName name) (hflag : v ≠ .bool true) (rest : Bytes) :
    parseParam (encode (name ++ serializeParamRest v) ++ rest) =
      (parseParamValue (encode (serializeParamValue v) ++ rest)).map
        fun r => ((name, r.1), r.2) := by
  have htext : encode (serializeParamRest v) ++ rest =
      0x3d :: (encode (serializeParamValue v) ++ rest) := by
    rw [serializeParamRest, if_neg hflag, encode_cons_ascii (by decide)]
    rfl
  have hstop : ∀ b ∈ (0x3d :: (encode (serializeParamValue v) ++ rest)).head?,
      isParamNameChar b = false := by
    intro b hb
    cases hb
    rfl
  rw [encode_append, append_assoc, parseParam, skipSp_paramName hname, htext,
    parseParamName_append hname hstop, ok_bind]
  simp only [parseParamRest, skipSp_cons (show (0x3d : UInt8) ≠ 0x20 by decide),
    head?_cons, if_pos, tail_cons]
  rw [skipSp_serializeParamValue]

theorem parseParam_serialize (hname : ParamName name) (hv : v.Ok)
    (hrest : ∀ b ∈ rest.head?, isParamNameChar b = false)
    (hvalue : (skipSp rest).head? ≠ some 0x3d) :
    ∃ left, parseParam (encode (name ++ serializeParamRest v) ++ rest) =
        .ok ((name, v.latin), left) ∧ skipSp left = skipSp rest := by
  by_cases hflag : v = .bool true
  · subst hflag
    refine ⟨skipSp rest, ?_, skipSp_skipSp rest⟩
    rw [encode_append, append_assoc, parseParam, skipSp_paramName hname,
      show encode (serializeParamRest (.bool true)) = [] from rfl, nil_append,
      parseParamName_append hname hrest, ok_bind, parseParamRest, if_neg hvalue]
    rfl
  · refine ⟨rest, ?_, rfl⟩
    rw [parseParam_value hname hflag, parseParamValue_serialize hv hrest]
    rfl

theorem parseParametersFrom_skipSp (fuel : ℕ) (bytes : Bytes) :
    parseParametersFrom fuel (skipSp bytes) = parseParametersFrom fuel bytes := by
  cases fuel <;> simp only [parseParametersFrom, skipSp_skipSp]

theorem encode_serializeParams_cons (p : List Char × SfParam) (params : Params) (rest : Bytes) :
    encode (serializeParams (p :: params)) ++ rest =
      0x3b :: (encode (p.1 ++ serializeParamRest p.2) ++
        (encode (serializeParams params) ++ rest)) := by
  rw [serializeParams, flatMap_cons, encode_append, cons_append,
    encode_cons_ascii (by decide), append_assoc, cons_append]
  rfl

theorem skipSp_serializeParams (p : List Char × SfParam) (params : Params) (rest : Bytes) :
    skipSp (encode (serializeParams (p :: params)) ++ rest) =
      encode (serializeParams (p :: params)) ++ rest := by
  rw [encode_serializeParams_cons]
  exact skipSp_cons (by decide) _

theorem head_serializeParams (params : Params) (hrest : Stops rest) :
    (∀ b ∈ (encode (serializeParams params) ++ rest).head?, isParamNameChar b = false) ∧
      (skipSp (encode (serializeParams params) ++ rest)).head? ≠ some 0x3d := by
  cases params with
  | nil => exact ⟨hrest.name, hrest.value⟩
  | cons p params =>
    rw [encode_serializeParams_cons, skipSp_cons (by decide)]
    refine ⟨fun b hb => ?_, by simp⟩
    cases hb
    rfl

theorem parseParametersFrom_serialize (h : ParamsOk params)
    (hrest : Stops rest) {fuel : ℕ} (hfuel : params.length ≤ fuel) :
    parseParametersFrom fuel (encode (serializeParams params) ++ rest) =
      .ok (latinParams params, skipSp rest) := by
  induction params generalizing fuel with
  | nil =>
    cases fuel with
    | zero => rfl
    | succ fuel =>
      change parseParametersFrom (fuel + 1) rest = _
      simp only [parseParametersFrom, if_neg hrest.param]
      rfl
  | cons p params ih =>
    obtain ⟨fuel, rfl⟩ : ∃ n, fuel = n + 1 := ⟨fuel - 1, by rw [length_cons] at hfuel; omega⟩
    obtain ⟨hname, hv⟩ := h p mem_cons_self
    obtain ⟨hhead, hvalue⟩ := head_serializeParams params hrest
    obtain ⟨left, hparam, hleft⟩ := parseParam_serialize hname hv hhead hvalue
    have hih := ih (fun q hq => h q (mem_cons_of_mem p hq))
      (Nat.le_of_succ_le_succ hfuel)
    rw [← parseParametersFrom_skipSp, ← hleft, parseParametersFrom_skipSp] at hih
    rw [encode_serializeParams_cons]
    simp only [parseParametersFrom, skipSp_cons (show (0x3b : UInt8) ≠ 0x20 by decide),
      head?_cons, if_pos, tail_cons]
    rw [hparam, ok_bind, hih]
    rfl

theorem length_le_serializeParams (params : Params) :
    params.length ≤ (encode (serializeParams params)).length := by
  induction params with
  | nil => exact Nat.le_refl 0
  | cons p params ih =>
    have := congrArg List.length (encode_serializeParams_cons p params [])
    simp only [append_nil, length_cons, length_append] at this ⊢
    omega

/-- Where one of the parameters is not read back, `Q` holds of what is left if it does of what is
left behind that one. -/
theorem parseParametersFrom_bad {Q : Bytes → Prop} {r : Params × Bytes}
    (h : ∀ p ∈ params, ¬ (ParamName p.1 ∧ p.2.Ok) → ∀ fuel more param left,
      parseParam (encode (p.1 ++ serializeParamRest p.2) ++ more) = .ok param →
      parseParametersFrom fuel param.2 = .ok left → Q left.2)
    (hbad : ¬ ParamsOk params) (hrest : Stops rest) (hfuel : params.length ≤ fuel)
    (hr : parseParametersFrom fuel (encode (serializeParams params) ++ rest) = .ok r) : Q r.2 := by
  induction params generalizing fuel r with
  | nil => exact absurd (fun p hp => absurd hp not_mem_nil) hbad
  | cons p params ih =>
    obtain ⟨fuel, rfl⟩ : ∃ n, fuel = n + 1 := ⟨fuel - 1, by rw [length_cons] at hfuel; omega⟩
    rw [encode_serializeParams_cons] at hr
    simp only [parseParametersFrom, skipSp_cons (show (0x3b : UInt8) ≠ 0x20 by decide),
      head?_cons, if_pos, tail_cons, bind_eq_ok_iff] at hr
    obtain ⟨param, hparam, left, hleft, hr⟩ := hr
    cases hr
    change Q left.2
    by_cases hp : ParamName p.1 ∧ p.2.Ok
    · obtain ⟨hhead, hvalue⟩ := head_serializeParams params hrest
      obtain ⟨behind, hbehind, hskip⟩ := parseParam_serialize hp.1 hp.2 hhead hvalue
      rw [hbehind] at hparam
      cases hparam
      refine ih (fun q hq => h q (mem_cons_of_mem p hq))
        (fun hall => hbad (forall_mem_cons.mpr ⟨hp, hall⟩)) (Nat.le_of_succ_le_succ hfuel) ?_
      rw [← parseParametersFrom_skipSp, ← hskip, parseParametersFrom_skipSp]
      exact hleft
    · exact h p mem_cons_self hp _ _ _ _ hparam hleft

theorem parseParameters_serialize (h : ParamsOk params) (hrest : Stops rest) :
    parseParameters (encode (serializeParams params) ++ rest) =
      .ok (latinParams params, skipSp rest) := by
  refine parseParametersFrom_serialize h hrest ?_
  rw [length_append]
  exact (length_le_serializeParams params).trans (Nat.le_add_right _ _)

/-! ## Items -/

def ItemOk (item : Item) : Prop := (∀ c ∈ item.1, isControl c = false) ∧ ParamsOk item.2

instance : DecidablePred ItemOk := fun item =>
  decidable_of_iff ((item.1.all fun c => !isControl c) ∧ ParamsOk item.2) (by simp [ItemOk])

def latinItem (item : Item) : Item := (latin item.1, latinParams item.2)

theorem encode_serializeItem (item : Item) (rest : Bytes) : encode (serializeItem item) ++ rest =
      encode (escapeString item.1) ++ (encode (serializeParams item.2) ++ rest) := by
  rw [serializeItem, encode_append, append_assoc]

theorem parseParameters_skipSp (h : ParamsOk params) (hrest : Stops rest) :
    parseParameters (skipSp (encode (serializeParams params) ++ rest)) =
      .ok (latinParams params, skipSp rest) := by
  cases params with
  | nil =>
    change parseParameters (skipSp rest) = _
    have hstop : (skipSp (skipSp rest)).head? ≠ some 0x3b := by
      rw [skipSp_skipSp]
      exact hrest.param
    rw [parseParameters]
    cases (skipSp rest).length with
    | zero => rw [parseParametersFrom, skipSp_skipSp]; rfl
    | succ n => rw [parseParametersFrom, if_neg hstop, skipSp_skipSp]; rfl
  | cons p params =>
    rw [skipSp_serializeParams]
    exact parseParameters_serialize h hrest

theorem parseItem_serialize {item : Item} (h : ItemOk item) (hrest : Stops rest) :
    parseItem (encode (serializeItem item) ++ rest) = .ok (latinItem item, skipSp rest) := by
  rw [encode_serializeItem, parseItem, parseString_escape h.1, ok_bind,
    parseParameters_skipSp h.2 hrest]
  rfl

theorem serializeItem_eq_cons (item : Item) (rest : Bytes) :
    ∃ tail, encode (serializeItem item) ++ rest = 0x22 :: tail := by
  rw [encode_serializeItem, encode_escapeString]
  exact ⟨_, rfl⟩

theorem stops_comma (rest : Bytes) : Stops (0x2c :: rest) :=
  stops_cons (by decide) (by decide) (by decide) (by decide) rest

theorem stops_paren (rest : Bytes) : Stops (0x29 :: rest) :=
  stops_cons (by decide) (by decide) (by decide) (by decide) rest

theorem parseItems_succ {item : Item} (h : ItemOk item) (hrest : Stops rest) (fuel : ℕ) :
    parseItems (fuel + 1) (encode (serializeItem item) ++ rest) =
      if (skipSp rest).head? = some 0x2c then do
        let items ← parseItems fuel (skipSp rest).tail
        pure (latinItem item :: items.1, items.2)
      else if (skipSp rest).head? = some 0x29 ∨ (skipSp rest).head? = some 0x3b then
        pure ([latinItem item], skipSp rest)
      else .error .expectedCommaOrParen := by
  have hparse := parseItem_serialize h hrest
  obtain ⟨tail, htail⟩ := serializeItem_eq_cons item rest
  rw [htail] at hparse ⊢
  simp only [parseItems, skipSp_cons (show (0x22 : UInt8) ≠ 0x20 by decide)]
  rw [if_neg (by simp), hparse, ok_bind]
  simp only [skipSp_skipSp]

theorem parseItems_space (fuel : ℕ) (item : Item) (rest : Bytes) :
    parseItems (fuel + 1) (0x20 :: (encode (serializeItem item) ++ rest)) =
      parseItems (fuel + 1) (encode (serializeItem item) ++ rest) := by
  obtain ⟨tail, htail⟩ := serializeItem_eq_cons item rest
  have hskip : skipSp (0x20 :: 0x22 :: tail) = skipSp (0x22 :: tail) := rfl
  rw [htail]
  simp only [parseItems, hskip, reduceCtorEq, false_or]

theorem parseItems_serialize {items : List Item} (h : ∀ item ∈ items, ItemOk item)
    (rest : Bytes) {fuel : ℕ} (hfuel : items.length ≤ fuel) : parseItems fuel
        (encode ([',', ' '].intercalate (items.map serializeItem)) ++ 0x29 :: rest) =
      .ok (items.map latinItem, 0x29 :: rest) := by
  induction items generalizing fuel with
  | nil =>
    cases fuel with
    | zero => rfl
    | succ fuel => rfl
  | cons item items ih =>
    obtain ⟨fuel, rfl⟩ : ∃ n, fuel = n + 1 := ⟨fuel - 1, by rw [length_cons] at hfuel; omega⟩
    have hitem := h item mem_cons_self
    have ih := @ih (fun i hi => h i (mem_cons_of_mem item hi)) fuel
      (Nat.le_of_succ_le_succ hfuel)
    cases items with
    | nil =>
      rw [map_singleton, intercalate_singleton,
        parseItems_succ hitem (stops_paren rest), skipSp_cons (by decide), if_neg (by simp),
        if_pos (by simp)]
      rfl
    | cons item' items =>
      have htext : encode ([',', ' '].intercalate
            ((item :: item' :: items).map serializeItem)) ++ 0x29 :: rest =
          encode (serializeItem item) ++ 0x2c :: 0x20 ::
            (encode ([',', ' '].intercalate ((item' :: items).map serializeItem)) ++
              0x29 :: rest) := by
        rw [map_cons, map_cons, intercalate_cons_cons, ← map_cons,
          encode_append, encode_append, append_assoc, append_assoc]
        rfl
      obtain ⟨fuel, rfl⟩ : ∃ n, fuel = n + 1 :=
        ⟨fuel - 1, by simp only [length_cons] at hfuel; omega⟩
      obtain ⟨tail, htail⟩ : ∃ tail, encode ([',', ' '].intercalate
            ((item' :: items).map serializeItem)) ++ 0x29 :: rest =
          encode (serializeItem item') ++ tail := by
        rw [map_cons]
        cases items with
        | nil => exact ⟨0x29 :: rest, by rw [map_nil, intercalate_singleton]⟩
        | cons i is =>
          rw [map_cons, intercalate_cons_cons, encode_append,
            encode_append, append_assoc, append_assoc]
          exact ⟨_, rfl⟩
      rw [htext, parseItems_succ hitem (stops_comma _), skipSp_cons (by decide),
        if_pos (by simp), tail_cons, htail, parseItems_space, ← htail, ih]
      rfl

/-! ## Inner lists -/

def InnerList.Ok (inner : InnerList) : Prop :=
  (∀ item ∈ inner.items, ItemOk item) ∧ ParamsOk inner.params

instance : DecidablePred InnerList.Ok := fun _ => inferInstanceAs (Decidable (_ ∧ _))

def InnerList.latin (inner : InnerList) : InnerList :=
  ⟨inner.items.map latinItem, latinParams inner.params⟩

theorem encode_bracketed (items : List Char) (params : Params) (rest : Bytes) :
    encode ('(' :: items ++ ')' :: serializeParams params) ++ rest =
      0x28 :: (encode items ++ 0x29 :: (encode (serializeParams params) ++ rest)) := by
  rw [encode_append, append_assoc, encode_cons_ascii (show ')'.toNat < 128 by decide),
    encode_cons_ascii (show '('.toNat < 128 by decide)]
  rfl

theorem intercalate_items_eq_cons (sep : List Char) (item : Item) (items : List Item) :
    ∃ tail, sep.intercalate ((item :: items).map serializeItem) = '"' :: tail := by
  cases items with
  | nil => exact ⟨_, by rw [map_singleton, intercalate_singleton]; rfl⟩
  | cons i is =>
    rw [map_cons, map_cons, intercalate_cons_cons]
    exact ⟨_, rfl⟩

theorem skipSp_items (items : List Item) (rest : Bytes) :
    skipSp (encode ([',', ' '].intercalate (items.map serializeItem)) ++ 0x29 :: rest) =
      encode ([',', ' '].intercalate (items.map serializeItem)) ++ 0x29 :: rest := by
  cases items with
  | nil => exact skipSp_cons (by decide) _
  | cons item items =>
    obtain ⟨tail, htail⟩ := intercalate_items_eq_cons [',', ' '] item items
    rw [htail, encode_cons_ascii (by decide)]
    exact skipSp_cons (by decide) _

theorem length_le_intercalate (items : List Item) :
    items.length ≤ (encode ([',', ' '].intercalate (items.map serializeItem))).length := by
  induction items with
  | nil => exact Nat.zero_le _
  | cons item items ih =>
    have hitem : 1 ≤ (encode (serializeItem item)).length := by
      obtain ⟨tail, htail⟩ := serializeItem_eq_cons item []
      rw [append_nil] at htail
      rw [htail, length_cons]
      omega
    cases items with
    | nil => rw [map_singleton, intercalate_singleton]; exact hitem
    | cons i is =>
      rw [map_cons, map_cons, intercalate_cons_cons, ← map_cons,
        encode_append, encode_append, length_append, length_append,
        length_cons]
      omega

theorem parseInnerList_serialize {inner : InnerList} (h : inner.Ok) (hrest : Stops rest) :
    parseInnerList (encode (serializeInnerList inner) ++ rest) =
      .ok (inner.latin, skipSp rest) := by
  have hfuel : inner.items.length ≤
      (encode ([',', ' '].intercalate (inner.items.map serializeItem)) ++
        0x29 :: (encode (serializeParams inner.params) ++ rest)).length := by
    rw [length_append]
    exact (length_le_intercalate inner.items).trans (Nat.le_add_right _ _)
  rw [serializeInnerList, encode_bracketed, parseInnerList, expect_cons, ok_bind]
  dsimp only
  rw [skipSp_items, parseItems_serialize h.1 _ hfuel, ok_bind]
  simp only [skipParen, head?_cons, if_pos, tail_cons]
  rw [parseParameters_skipSp h.2 hrest]
  rfl

theorem serializeInnerList_injective {inner inner' : InnerList} (h : inner.Ok) (h' : inner'.Ok)
    (heq : serializeInnerList inner = serializeInnerList inner') : inner = inner' := by
  have hparse := parseInnerList_serialize h stops_nil
  rw [heq, parseInnerList_serialize h' stops_nil] at hparse
  have hlatin : inner'.latin = inner.latin := (Prod.mk.inj (Except.ok.inj hparse)).1
  obtain ⟨items, params⟩ := inner
  obtain ⟨items', params'⟩ := inner'
  have hvalue : Injective SfParam.latin := by
    intro v v' hv
    cases v <;> cases v' <;> simp_all [SfParam.latin, latin_injective.eq_iff]
  have hparams : Injective latinParams :=
    map_injective_iff.mpr fun p p' hp => by
      obtain ⟨hname, hv⟩ := Prod.mk.inj hp
      exact Prod.ext hname (hvalue hv)
  have hitem : Injective latinItem := fun i i' hi => by
    obtain ⟨hname, hps⟩ := Prod.mk.inj hi
    exact Prod.ext (latin_injective hname) (hparams hps)
  obtain ⟨hitems, hps⟩ := InnerList.mk.inj hlatin
  obtain rfl : items' = items := map_injective_iff.mpr hitem hitems
  obtain rfl : params' = params := hparams hps
  rfl

end TptRfc.HttpSig
