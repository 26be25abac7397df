import TptRfc.Cbor.RoundTrip

/-!
# CBOR: what canonical decoding accepts

Canonical decoding checks that the head of an integer is shortest, that no length is indefinite and
that the keys of a map increase.
-/

namespace TptRfc.Cbor

open Lib Parser Value List Option

/-! ## The order of encodings -/

theorem keyCmp_eq_compareLex :
    keyCmp = compareLex (compareOn List.length) (compare : Bytes → Bytes → Ordering) := by
  funext a b
  unfold keyCmp compareLex compareOn
  cases compare a.length b.length <;> rfl

instance : Std.TransCmp keyCmp := by
  rw [keyCmp_eq_compareLex]
  infer_instance

theorem eq_of_keyCmp_eq {a b : Bytes} (h : keyCmp a b = .eq) : a = b := by
  unfold keyCmp at h
  cases hlen : compare a.length b.length with
  | eq =>
    rw [hlen] at h
    exact Std.LawfulEqCmp.eq_of_compare h
  | lt => rw [hlen] at h; cases h
  | gt => rw [hlen] at h; cases h

theorem canonicalKeyCmp_trans {a b c : Value} (hab : canonicalKeyCmp a b = .lt)
    (hbc : canonicalKeyCmp b c = .lt) : canonicalKeyCmp a c = .lt :=
  @Std.TransCmp.lt_trans _ keyCmp _ _ _ _ hab hbc

variable {v : Value}

theorem eq_encoding_of_encodeValue {checks canonical : Bool} {bytes : Bytes}
    (h : encodeValue checks canonical v = some bytes) : bytes = v.encoding canonical := by
  have hmin : checks = true → v.Everywhere NotMin := by
    intro hc w hw he
    have hnone : encodeValue checks canonical v = none := encodeValue_eq_none_iff.mpr ⟨hc, he ▸ hw⟩
    rw [h] at hnone
    cases hnone
  rw [encodeValue_eq hmin] at h
  exact (some.inj h).symm

theorem canonicalKeyCmp_of_canonicalKeyLt {checks : Bool} {a b : Value}
    (h : canonicalKeyLt checks a b = some true) : canonicalKeyCmp a b = .lt := by
  have hsome : ∀ v, (encodeValue checks false v = none ∨
      ∃ bytes, encodeValue checks false v = some bytes) := fun v => by
    cases encodeValue checks false v <;> simp
  unfold canonicalKeyLt at h
  rcases hsome a with ha | ⟨ea, ha⟩
  · rw [ha] at h
    cases h
  rcases hsome b with hb | ⟨eb, hb⟩
  · rw [ha, hb] at h
    cases h
  rw [ha, hb] at h
  obtain rfl := eq_encoding_of_encodeValue ha
  obtain rfl := eq_encoding_of_encodeValue hb
  simp only [bind_eq_bind, bind_some] at h
  rw [canonicalKeyCmp, keyCmp]
  cases hlen : compare (a.encoding false).length (b.encoding false).length with
  | eq =>
    rw [hlen] at h
    exact (compare_eq_lt_iff _ _).mpr (of_decide_eq_true (some.inj h))
  | lt => rfl
  | gt =>
    rw [hlen] at h
    cases h

/-! ## What a successful call returns -/

section Result

variable (t : Target) (opts : DecodeOptions)

def LimitOk (limit : Option ℕ) : Prop :=
  (∀ n ∈ limit, n < 2 ^ 64) ∧ (limit = none → opts.rejectIndefinite = false)

inductive Result (bytes : Bytes) : Value → Bytes → Prop
  | integer (i rest) : Result bytes (.integer i) rest
  | float (f rest) : Result bytes (.float f) rest
  | bool (b rest) : Result bytes (.bool b) rest
  | null (rest) : Result bytes .null rest
  | undefined (rest) : Result bytes .undefined rest
  | simple (s rest) (hs : s ≤ 19 ∨ 32 ≤ s) : Result bytes (.simple s) rest
  | bytes (b rest) (hb : opts.rejectIndefinite → b.length < 2 ^ 64) : Result bytes (.bytes b) rest
  | text (s rest) (hs : opts.rejectIndefinite → (utf8 s).length < 2 ^ 64) :
      Result bytes (.text s) rest
  | array {limit mid items rest} (hlimit : LimitOk opts limit) (hmid : mid.length < bytes.length)
      (hrun : Collects 0xff (fun _ => decode t opts) limit [] mid items rest) :
      Result bytes (.array items) rest
  | map {limit mid pairs rest} (hlimit : LimitOk opts limit) (hmid : mid.length < bytes.length)
      (hrun : Collects 0xff (decodePair t opts (decode t opts)) limit [] mid pairs rest) :
      Result bytes (.map pairs) rest
  | tag {number inner mid rest} (hmid : mid.length < bytes.length)
      (hinner : decode t opts mid = .ok (inner, rest))
      (hbig : number = 2 ∨ number = 3 → ∀ b ∈ inner.asBytes, 16 < b.length) :
      Result bytes (.tag number inner) rest

end Result

section Inversion

variable {t : Target} {opts : DecodeOptions}

variable {bytes start rest : Bytes} {v : Value} {ai : UInt8}

theorem fail_ne_ok {α : Type} {e : CborError} {a : α} :
    (fail e : Decode α) bytes ≠ .ok (a, rest) := nofun

theorem okOr_eq_ok {α : Type} {e : CborError} {o : Option α} {a : α}
    (h : okOr e o bytes = .ok (a, rest)) : o = some a ∧ bytes = rest := by
  cases o with
  | none => exact absurd h fail_ne_ok
  | some b =>
    cases h
    exact ⟨rfl, rfl⟩

theorem utf8_of_fromUTF8 {s : String}
    (h : String.fromUTF8? ⟨bytes.toArray⟩ = some s) : utf8 s = bytes := by
  unfold String.fromUTF8? at h
  split at h
  · cases h
    rfl
  · cases h

theorem materializeString_eq_ok {str rest : Bytes} {isText : Bool}
    (h : materializeString str isText bytes = .ok (v, rest)) :
    bytes = rest ∧ ((isText = false ∧ v = .bytes str) ∨
      ∃ s, isText = true ∧ v = .text s ∧ utf8 s = str) := by
  unfold materializeString at h
  cases isText with
  | true =>
    rw [if_pos rfl] at h
    cases hs : String.fromUTF8? ⟨str.toArray⟩ with
    | none =>
      rw [hs] at h
      exact absurd h fail_ne_ok
    | some s =>
      rw [hs] at h
      cases h
      exact ⟨rfl, .inr ⟨s, rfl, rfl, utf8_of_fromUTF8 hs⟩⟩
  | false =>
    cases h
    exact ⟨rfl, .inl ⟨rfl, rfl⟩⟩

theorem decodeBytes_result {isText : Bool}
    (h : decodeBytes opts ai isText bytes = .ok (v, rest)) : Result t opts start v rest := by
  have hdone : ∀ {str bytes' : Bytes}, (opts.rejectIndefinite → str.length < 2 ^ 64) →
      materializeString str isText bytes' = .ok (v, rest) → Result t opts start v rest := by
    intro str bytes' hstr hmat
    obtain ⟨-, ⟨-, rfl⟩ | ⟨s, -, rfl, hs⟩⟩ := materializeString_eq_ok hmat
    · exact .bytes str rest hstr
    · exact .text s rest (by rwa [hs])
  obtain ⟨len, mid, -, hlen⟩ := bind_eq_ok h
  cases len with
  | some head =>
    obtain ⟨str, mid', hread, hmat⟩ := bind_eq_ok hlen
    rw [readExact_eq] at hread
    obtain ⟨-, hstr⟩ := takeBytes_eq_ok hread
    exact hdone (fun _ => hstr ▸ head.1.toNat_lt) hmat
  | none =>
    dsimp only at hlen
    split at hlen
    · exact absurd hlen fail_ne_ok
    · rename_i hindef
      obtain ⟨chunks, mid', -, hmat⟩ := bind_eq_ok hlen
      exact hdone (fun hr => absurd hr hindef) hmat

theorem Starts.limitOk {major : UInt8} {tail mid : Bytes} {limit : Option ℕ}
    (h : Starts opts major ai tail limit mid) : LimitOk opts limit := by
  cases h with
  | @definite head _ _ => exact ⟨fun n hn => by cases hn; exact head.1.toNat_lt, nofun⟩
  | indefinite _ hindef => exact ⟨nofun, fun _ => hindef⟩

theorem decodeArray_result (hstart : bytes.length < start.length)
    (h : decodeArray t opts (decode t opts) ai bytes = .ok (v, rest)) :
    Result t opts start v rest := by
  obtain ⟨limit, mid, hlimit, h⟩ := (decodeArray_iff (x := .ok (v, rest)) nofun).mp h
  obtain ⟨_, mid', hres, h⟩ := bind_eq_ok h
  obtain ⟨-, rfl⟩ := reserveFor_eq_ok hres
  obtain ⟨items, rest', hitems, hpure⟩ := bind_eq_ok h
  cases hpure
  exact .array hlimit.limitOk (hlimit.length_le.trans_lt hstart)
    ((loop_eq_ok_iff fun _ => reads_decode t opts).mp hitems)

theorem decodeMap_result (hstart : bytes.length < start.length)
    (h : decodeMap t opts (decode t opts) ai bytes = .ok (v, rest)) :
    Result t opts start v rest := by
  obtain ⟨limit, mid, hlimit, h⟩ := (decodeMap_iff (x := .ok (v, rest)) nofun).mp h
  obtain ⟨pairs, rest', hpairs, hpure⟩ := bind_eq_ok h
  cases hpure
  exact .map hlimit.limitOk (hlimit.length_le.trans_lt hstart)
    ((loop_eq_ok_iff (reads_decodePair (reads_decode t opts))).mp hpairs)

theorem bignumToI128_eq_ok_none {tag : UInt64} {str rest : Bytes}
    (h : bignumToI128 t tag str bytes = .ok (none, rest)) : bytes = rest ∧ 16 < str.length := by
  by_cases hlen : 16 < str.length
  · rw [bignumToI128, if_pos hlen] at h
    cases h
    exact ⟨rfl, hlen⟩
  · rw [bignumToI128_eq t tag (Nat.not_lt.mp hlen)] at h
    split at h
    · cases h
    · obtain ⟨v, mid, -, hpure⟩ := bind_eq_ok h
      cases hpure

theorem decodeTag_result (hstart : bytes.length < start.length)
    (h : decodeTag t (decode t opts) ai bytes = .ok (v, rest)) : Result t opts start v rest := by
  obtain ⟨len, mid, hread, hlen⟩ := bind_eq_ok h
  have hmid := (safe_readLen 6 ai).bounded _ _ _ hread
  obtain ⟨head, mid', hhead, htag⟩ := bind_eq_ok hlen
  obtain ⟨-, rfl⟩ := okOr_eq_ok hhead
  obtain ⟨inner, rest', hinner, hvalue⟩ := bind_eq_ok htag
  have hless : mid.length < start.length := by omega
  cases inner with
  | bytes str =>
    dsimp only at hvalue
    split at hvalue
    · obtain ⟨o, rest'', hbig, hpure⟩ := bind_eq_ok hvalue
      cases o with
      | some i =>
        cases hpure
        exact .integer i _
      | none =>
        obtain ⟨rfl, hlong⟩ := bignumToI128_eq_ok_none hbig
        cases hpure
        refine .tag hless hinner fun _ b hb => ?_
        cases hb
        exact hlong
    · rename_i hnot
      cases hvalue
      exact .tag hless hinner fun hbig => absurd hbig hnot
  | _ =>
    cases hvalue
    exact .tag hless hinner fun _ b hb => by cases hb

theorem decodeSimple_result
    (h : decodeSimple ai bytes = .ok (v, rest)) : Result t opts start v rest := by
  revert h
  refine decodeSimple_elim (P := fun p => p bytes = .ok (v, rest) → _) ai ?_ ?_ ?_ ?_ ?_ ?_ ?_
  · rintro h19 ⟨⟩
    exact .simple _ _ (.inl h19)
  · rintro b ⟨⟩
    exact .bool _ _
  · rintro ⟨⟩
    exact .null _
  · rintro ⟨⟩
    exact .undefined _
  · intro h
    obtain ⟨s, mid, -, hs⟩ := bind_eq_ok h
    split at hs
    · exact absurd hs fail_ne_ok
    · rename_i hnot
      cases hs
      exact .simple _ _ (.inr (UInt8.not_le.mp hnot))
  · intro n f h
    obtain ⟨str, mid, -, hs⟩ := bind_eq_ok h
    cases hs
    exact .float _ _
  · exact fun e h => absurd h fail_ne_ok

theorem decodeInteger_result {b major : UInt8}
    (h : decodeInteger t opts b major ai bytes = .ok (v, rest)) : Result t opts start v rest := by
  obtain ⟨len, _, -, h⟩ := bind_eq_ok h
  obtain ⟨head, _, -, h⟩ := bind_eq_ok h
  obtain ⟨_, _, -, h⟩ := bind_eq_ok h
  split at h
  · cases h
    exact .integer _ _
  · obtain ⟨i, _, -, h⟩ := bind_eq_ok h
    cases h
    exact .integer _ _

theorem decode_result (h : decode t opts bytes = .ok (v, rest)) : Result t opts bytes v rest := by
  cases bytes with
  | nil =>
    rw [(reads_decode t opts).nil] at h
    cases h
  | cons b bytes =>
    rw [decode_cons] at h
    have hlt : bytes.length < (b :: bytes).length := by simp
    unfold decodeBody at h
    split_ifs at h
    · exact decodeInteger_result h
    · exact decodeBytes_result h
    · exact decodeBytes_result h
    · exact decodeArray_result hlt h
    · exact decodeMap_result hlt h
    · exact decodeTag_result hlt h
    · exact decodeSimple_result h
    · exact absurd h fail_ne_ok

end Inversion

/-! ## Values decoded in canonical mode -/

namespace Value

def Sound : Value → Prop
  | .simple s => s ≤ 19 ∨ 32 ≤ s
  | .bytes b => b.length < 2 ^ 64
  | .text s => (utf8 s).length < 2 ^ 64
  | .array items => items.length < 2 ^ 64
  | .map pairs => pairs.length < 2 ^ 64 ∧ pairs.Pairwise fun a b => canonicalKeyCmp a.1 b.1 = .lt
  | .tag number inner => number = 2 ∨ number = 3 → ∀ b ∈ inner.asBytes, 16 < b.length
  | .integer _ | .float _ | .bool _ | .null | .undefined => True

def SortedKeys : Value → Prop
  | .map pairs => pairs.Pairwise fun a b => canonicalKeyCmp a.1 b.1 = .lt
  | _ => True

theorem Sound.sortedKeys {v : Value} (h : v.Sound) : v.SortedKeys := by
  cases v with
  | map pairs => exact h.2
  | _ => trivial

end Value

section Sound

variable {t : Target} {opts : DecodeOptions}

variable {bytes rest : Bytes} {pairs : List (Value × Value)}

theorem orPanic_eq_ok {α : Type} {o : Option α} {a : α}
    (h : orPanic o bytes = .ok (a, rest)) : o = some a ∧ bytes = rest := by
  cases o with
  | none => cases h
  | some b =>
    cases h
    exact ⟨rfl, rfl⟩

theorem checkKey_rest {key : Value}
    (h : checkKey t opts pairs key bytes = .ok ((), rest)) : bytes = rest := by
  unfold checkKey at h
  split at h
  · exact absurd h fail_ne_ok
  split at h
  · cases hlast : pairs.getLast? with
    | none =>
      rw [hlast] at h
      cases h
      rfl
    | some last =>
      rw [hlast] at h
      obtain ⟨less, mid, hless, hcheck⟩ := bind_eq_ok h
      obtain ⟨-, rfl⟩ := orPanic_eq_ok hless
      split at hcheck
      · cases hcheck
        rfl
      · exact absurd hcheck fail_ne_ok
  · cases h
    rfl

theorem checkKey_eq_ok {key : Value}
    (hcanonical : opts.canonical = true) (h : checkKey t opts pairs key bytes = .ok ((), rest)) :
    ∀ last ∈ pairs.getLast?, canonicalKeyCmp last.1 key = .lt := by
  intro last hlast
  unfold checkKey at h
  split at h
  · exact absurd h fail_ne_ok
  · rw [show pairs.getLast? = some last from hlast] at h
    obtain ⟨less, mid, hless, hcheck⟩ := bind_eq_ok h
    cases hlt : canonicalKeyLt t.checks last.1 key with
    | none =>
      rw [hlt] at hless
      cases hless
    | some less' =>
      rw [hlt] at hless
      cases hless
      cases less with
      | true => exact canonicalKeyCmp_of_canonicalKeyLt hlt
      | false => exact absurd hcheck fail_ne_ok

theorem pairwise_concat {e : Value × Value}
    (h : pairs.Pairwise fun a b => canonicalKeyCmp a.1 b.1 = .lt)
    (hlast : ∀ last ∈ pairs.getLast?, canonicalKeyCmp last.1 e.1 = .lt) :
    (pairs ++ [e]).Pairwise fun a b => canonicalKeyCmp a.1 b.1 = .lt := by
  refine pairwise_append.mpr ⟨h, pairwise_singleton _ _, fun a ha b hb => ?_⟩
  obtain rfl := mem_singleton.mp hb
  rcases eq_nil_or_concat' pairs with rfl | ⟨init, last, rfl⟩
  · cases ha
  have hlt := hlast last (by simp)
  rcases mem_append.mp ha with ha | ha
  · exact canonicalKeyCmp_trans
      ((pairwise_append.mp h).2.2 a ha last (mem_singleton_self last)) hlt
  · obtain rfl := mem_singleton.mp ha
    exact hlt

theorem decodePair_eq_ok {p : Decode Value} {e : Value × Value}
    {mid : Bytes} (h : decodePair t opts p pairs bytes = .ok (e, mid)) :
    ∃ mid₁ mid₂, p bytes = .ok (e.1, mid₁) ∧ p mid₁ = .ok (e.2, mid₂) ∧
      checkKey t opts pairs e.1 mid₂ = .ok ((), mid) := by
  obtain ⟨key, mid₁, hkey, h⟩ := bind_eq_ok h
  obtain ⟨val, mid₂, hval, h⟩ := bind_eq_ok h
  obtain ⟨⟨⟩, mid₃, hcheck, hpure⟩ := bind_eq_ok h
  cases hpure
  exact ⟨mid₁, mid₂, hkey, hval, hcheck⟩

theorem everywhere_of_decode {P : Value → Prop}
    (hP : ∀ {bytes rest v}, decode t opts bytes = .ok (v, rest) → P v) {v : Value}
    (h : decode t opts bytes = .ok (v, rest)) : v.Everywhere P := by
  -- the items inside are decoded from shorter strings
  induction hn : bytes.length using Nat.strong_induction_on generalizing bytes rest v with
  | h n ih =>
    have hself := hP h
    cases decode_result h with
    | integer i => exact (everywhere_integer i).mpr hself
    | float f => exact (everywhere_float f).mpr hself
    | bool b => exact (everywhere_bool b).mpr hself
    | null => exact everywhere_null.mpr hself
    | undefined => exact everywhere_undefined.mpr hself
    | simple s => exact (everywhere_simple s).mpr hself
    | bytes b => exact (everywhere_bytes b).mpr hself
    | text s => exact (everywhere_text s).mpr hself
    | array _ hmid hrun =>
      refine (everywhere_array _).mpr ⟨hself, ?_⟩
      refine hrun.invariant (I := fun items => ∀ v ∈ items, v.Everywhere P)
        (fun _ => reads_decode t opts) nofun fun acc b a mid' hacc hle hitem => ?_
      exact forall_mem_append.mpr ⟨hacc, forall_mem_singleton.mpr
        (ih b.length (by omega) hitem rfl)⟩
    | map _ hmid hrun =>
      refine (everywhere_map _).mpr ⟨hself, ?_⟩
      refine hrun.invariant (I := fun pairs => ∀ e ∈ pairs, e.1.Everywhere P ∧ e.2.Everywhere P)
        (reads_decodePair (reads_decode t opts)) nofun fun acc b e mid' hacc hle hitem => ?_
      obtain ⟨mid₁, mid₂, hkey, hval, -⟩ := decodePair_eq_ok hitem
      have hshort := (reads_decode t opts).shrinks _ _ _ hkey
      exact forall_mem_append.mpr ⟨hacc, forall_mem_singleton.mpr
        ⟨ih b.length (by omega) hkey rfl, ih mid₁.length (by omega) hval rfl⟩⟩
    | @tag _ _ mid _ hmid hinner _ =>
      exact (everywhere_tag _ _).mpr ⟨hself, ih mid.length (by omega) hinner rfl⟩

theorem sound_self (hindef : opts.rejectIndefinite = true) (hcanonical : opts.canonical = true)
    {v : Value} (h : decode t opts bytes = .ok (v, rest)) : v.Sound := by
  have hlimit : ∀ {limit : Option ℕ}, LimitOk opts limit →
      ∃ n, limit = some n ∧ n < 2 ^ 64 := by
    rintro (_ | n) hok
    · rw [hok.2 rfl] at hindef
      cases hindef
    · exact ⟨n, rfl, hok.1 n rfl⟩
  cases decode_result h with
  | simple s _ hs => exact hs
  | bytes b _ hb => exact hb hindef
  | text s _ hs => exact hs hindef
  | array hok _ hrun =>
    obtain ⟨k, rfl, hk⟩ := hlimit hok
    simpa [Sound, hrun.length_eq rfl] using hk
  | map hok _ hrun =>
    obtain ⟨k, rfl, hk⟩ := hlimit hok
    refine ⟨by simpa [hrun.length_eq rfl] using hk, ?_⟩
    refine hrun.invariant (reads_decodePair (reads_decode t opts)) Pairwise.nil
      fun acc b e mid' hacc _ hitem => ?_
    obtain ⟨_, _, -, -, hcheck⟩ := decodePair_eq_ok hitem
    exact pairwise_concat hacc (checkKey_eq_ok hcanonical hcheck)
  | tag _ _ hbig => exact hbig
  | _ => trivial

theorem sound_of_decode (hindef : opts.rejectIndefinite = true) (hcanonical : opts.canonical = true)
    {v : Value} (h : decode t opts bytes = .ok (v, rest)) : v.Everywhere Sound :=
  everywhere_of_decode (sound_self hindef hcanonical) h

end Sound

theorem decodeValue_canonical_eq_ok {t : Target} {data : Bytes}
    (h : decodeValue t data .canonicalMode = .ok v) :
    decode t .canonicalMode data = .ok (v, []) := by
  unfold decodeValue at h
  cases hdec : decode t .canonicalMode data with
  | error e =>
    rw [hdec] at h
    cases h
  | ok r =>
    rw [hdec] at h
    by_cases hrest : r.2 = []
    · have hv : Except.ok r.1 = Except.ok (ε := Fault CborError) v := by
        simpa [hrest, Bind.bind, Except.bind] using h
      cases hv
      rw [← hrest]
    · exact absurd h (by simp [hrest, DecodeOptions.canonicalMode, Bind.bind, Except.bind])

theorem encoding_eq_of_sorted (h : v.Everywhere SortedKeys) :
    v.encoding true = v.encoding false := by
  induction v with
  | integer i => rw [encoding_integer, encoding_integer]
  | float f =>
    obtain ⟨bytes, hbytes⟩ := encodeFloat_eq f
    have hfloat : ∀ c, (Value.float f).encoding c = bytes := fun c =>
      encoding_of_eq_some (by rw [encodeValue, hbytes])
    rw [hfloat, hfloat]
  | bool b => rw [encoding_bool, encoding_bool]
  | null => rw [encoding_null, encoding_null]
  | undefined => rw [encoding_undefined, encoding_undefined]
  | simple s => rw [encoding_simple, encoding_simple]
  | bytes b => rw [encoding_bytes, encoding_bytes]
  | text s => rw [encoding_text, encoding_text]
  | array items ih =>
    rw [everywhere_array] at h
    rw [encoding_array, encoding_array, flatMap_congr fun v hv => ih v hv (h.2 v hv)]
  | map pairs ih =>
    rw [everywhere_map] at h
    have hsorted : pairs.insertionSort PairLe = pairs :=
      List.Pairwise.insertionSort_eq (h.1.imp fun hlt => by rw [PairLe, hlt]; rfl)
    have hpair : ∀ e ∈ pairs, pairEncoding true e = pairEncoding false e := fun e he => by
      rw [pairEncoding, pairEncoding, (ih e he).1 (h.2 e he).1, (ih e he).2 (h.2 e he).2]
    rw [encoding_map_canonical, encoding_map_default, hsorted, flatMap_congr hpair]
  | tag number inner ih =>
    rw [everywhere_tag] at h
    rw [encoding_tag, encoding_tag, ih h.2]

end TptRfc.Cbor
