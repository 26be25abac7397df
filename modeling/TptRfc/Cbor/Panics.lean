import TptRfc.Cbor.Decoder

/-!
# CBOR: panics

Where encoding and decoding can panic.
-/

namespace TptRfc.Cbor

open Lib Parser Value

/-! ## Calls and faults -/

section Calls

variable (t : Target) (opts : DecodeOptions)

inductive Calls : Bytes → Bytes → Prop
  | item {b : UInt8} {tail limit mid acc bytes} (hmajor : b >>> 5 = 4)
      (hstart : Starts opts 4 (b &&& 0x1f) tail limit mid)
      (hfits : ∀ n ∈ limit, n * t.valueSize ≤ isizeMax)
      (hvisit : Visits 0xff (fun _ => decode t opts) limit [] mid acc bytes) :
      Calls (b :: tail) bytes
  | key {b : UInt8} {tail limit mid pairs bytes} (hmajor : b >>> 5 = 5)
      (hstart : Starts opts 5 (b &&& 0x1f) tail limit mid)
      (hvisit : Visits 0xff (decodePair t opts (decode t opts)) limit [] mid pairs bytes) :
      Calls (b :: tail) bytes
  | val {b : UInt8} {tail limit mid pairs bytes key bytes'} (hmajor : b >>> 5 = 5)
      (hstart : Starts opts 5 (b &&& 0x1f) tail limit mid)
      (hvisit : Visits 0xff (decodePair t opts (decode t opts)) limit [] mid pairs bytes)
      (hkey : decode t opts bytes = .ok (key, bytes')) : Calls (b :: tail) bytes'
  | inner {b : UInt8} {tail head mid} (hmajor : b >>> 5 = 6)
      (hread : readLen 6 (b &&& 0x1f) tail = .ok (some head, mid)) : Calls (b :: tail) mid

inductive Faulty : Bytes → Prop
  | reserve {b : UInt8} {tail head mid} (hmajor : b >>> 5 = 4)
      (hread : readLen 4 (b &&& 0x1f) tail = .ok (some head, mid))
      (hbig : isizeMax < head.1.toNat * t.valueSize) : Faulty (b :: tail)
  | keys {b : UInt8} {tail limit mid pairs bytes key bytes' val rest last} (hmajor : b >>> 5 = 5)
      (hstart : Starts opts 5 (b &&& 0x1f) tail limit mid)
      (hvisit : Visits 0xff (decodePair t opts (decode t opts)) limit [] mid pairs bytes)
      (hkey : decode t opts bytes = .ok (key, bytes'))
      (hval : decode t opts bytes' = .ok (val, rest))
      (hcanonical : opts.canonical = true) (hchecks : t.checks = true)
      (hnew : (pairs.any fun e => e.1.beq key) = false) (hlast : pairs.getLast? = some last)
      (hmin : Occurs (.integer I128.min) last.1 ∨ Occurs (.integer I128.min) key) :
      Faulty (b :: tail)

end Calls

section Panics

variable {t : Target} {opts : DecodeOptions}

theorem canonicalKeyLt_eq_none_iff {checks : Bool} {a b : Value} :
    canonicalKeyLt checks a b = none ↔
      checks = true ∧ (Occurs (.integer I128.min) a ∨ Occurs (.integer I128.min) b) := by
  rw [and_or_left, ← @encodeValue_eq_none_iff checks false a,
    ← @encodeValue_eq_none_iff checks false b]
  unfold canonicalKeyLt
  cases encodeValue checks false a with
  | none => simp
  | some ea =>
    cases encodeValue checks false b with
    | none => simp
    | some eb =>
      simp only [Option.bind_eq_bind, Option.bind_some, reduceCtorEq, or_self, iff_false]
      split <;> exact nofun

theorem checkKey_eq_panic_iff {pairs : List (Value × Value)} {key : Value} {bytes : Bytes} :
    checkKey t opts pairs key bytes = .error .panic ↔
      opts.canonical = true ∧ t.checks = true ∧ (pairs.any fun e => e.1.beq key) = false ∧
        ∃ last, pairs.getLast? = some last ∧
          (Occurs (.integer I128.min) last.1 ∨ Occurs (.integer I128.min) key) := by
  unfold checkKey
  cases hcanonical : opts.canonical with
  | false =>
    rw [Bool.or_false]
    split <;> simp [fail, lift, Except.map, Pure.pure, StateT.pure, Except.pure]
  | true =>
    rw [Bool.or_true, Bool.true_and]
    cases hany : pairs.any fun e => e.1.beq key with
    | true => simp [fail, lift, Except.map]
    | false =>
      cases hlast : pairs.getLast? with
      | none => simp [Pure.pure, StateT.pure, Except.pure]
      | some last =>
        rw [if_neg Bool.false_ne_true, if_pos rfl]
        dsimp only
        cases hlt : canonicalKeyLt t.checks last.1 key with
        | none =>
          have hmin := canonicalKeyLt_eq_none_iff.mp hlt
          exact iff_of_true rfl ⟨rfl, hmin.1, rfl, last, rfl, hmin.2⟩
        | some less =>
          have hnot : ¬ (t.checks = true ∧ (Occurs (.integer I128.min) last.1 ∨
              Occurs (.integer I128.min) key)) := by
            rw [← canonicalKeyLt_eq_none_iff, hlt]
            exact Option.some_ne_none less
          have hok : Safe (do
              let less ← orPanic (some less)
              if less then pure () else fail .duplicateKey : Decode Unit) := by
            refine (safe_orPanic (Option.some_ne_none less)).bind fun less => ?_
            split
            · exact Safe.pure _
            · exact Safe.fail _
          refine iff_of_false (hok.noPanic bytes) ?_
          rintro ⟨-, hchecks, -, last', hlast', hmin⟩
          cases hlast'
          exact hnot ⟨hchecks, hmin⟩

theorem decodePair_eq_panic_iff {p : Decode Value} {pairs : List (Value × Value)} {bytes : Bytes} :
    decodePair t opts p pairs bytes = .error .panic ↔
      p bytes = .error .panic ∨ ∃ key bytes', p bytes = .ok (key, bytes') ∧
        (p bytes' = .error .panic ∨ ∃ val rest, p bytes' = .ok (val, rest) ∧
          checkKey t opts pairs key rest = .error .panic) := by
  unfold decodePair
  rw [bind_eq_error_iff]
  refine or_congr Iff.rfl (exists₂_congr fun key bytes' => and_congr Iff.rfl ?_)
  rw [bind_eq_error_iff]
  refine or_congr Iff.rfl (exists₂_congr fun val rest => and_congr Iff.rfl ?_)
  rw [bind_eq_error_iff]
  exact or_iff_left (by rintro ⟨_, _, -, h⟩; cases h)

variable {b : UInt8}

theorem loop_bind_eq_panic_iff {α β : Type} {item : List α → Decode α}
    (h : ∀ acc, Reads eof (item acc)) {f : List α → β} {limit : Option ℕ} {mid : Bytes} :
    (do
      let out ← loop eof 0xff item limit []
      pure (f out) : Decode β) mid = .error .panic ↔
      ∃ acc bytes, Visits 0xff item limit [] mid acc bytes ∧ item acc bytes = .error .panic := by
  rw [bind_eq_error_iff, ← loop_eq_error_iff h]
  exact or_iff_left (by rintro ⟨_, _, -, h⟩; cases h)

/-- The call gets to a fault itself, or makes a call that panics. -/
def Breaks (t : Target) (opts : DecodeOptions) (bytes : Bytes) : Prop :=
  Faulty t opts bytes ∨ ∃ bytes', Calls t opts bytes bytes' ∧ decode t opts bytes' = .error .panic

theorem decodeArray_eq_panic_iff {tail : Bytes} (hmajor : b >>> 5 = 4) :
    decodeArray t opts (decode t opts) (b &&& 0x1f) tail = .error .panic ↔
      Breaks t opts (b :: tail) := by
  have hreads := fun _ : List Value => reads_decode t opts
  rw [decodeArray_iff (x := .error .panic) nofun]
  constructor
  · rintro ⟨limit, mid, hstart, h⟩
    by_cases hfits : ∀ n ∈ limit, n * t.valueSize ≤ isizeMax
    · rw [reserveFor_of_fits hfits, bind_of_ok rfl] at h
      obtain ⟨acc, bytes, hvisit, hpanic⟩ := (loop_bind_eq_panic_iff hreads).mp h
      exact .inr ⟨bytes, .item hmajor hstart hfits hvisit, hpanic⟩
    · cases hstart with
      | definite hread => exact .inl (.reserve hmajor hread (by simpa using hfits))
      | indefinite _ _ => exact absurd nofun hfits
  · rintro (h | ⟨bytes, hcall, hpanic⟩)
    · cases h with
      | reserve _ hread hbig =>
        exact ⟨_, _, .definite hread, bind_of_error (by rw [reserveFor, reserve, if_pos hbig]; rfl)⟩
      | keys h _ _ _ _ _ _ _ _ _ => simp [hmajor] at h
    · cases hcall with
      | item _ hstart hfits hvisit =>
        refine ⟨_, _, hstart, ?_⟩
        rw [reserveFor_of_fits hfits, bind_of_ok rfl]
        exact (loop_bind_eq_panic_iff hreads).mpr ⟨_, bytes, hvisit, hpanic⟩
      | key h _ _ | val h _ _ _ | inner h _ => simp [hmajor] at h

theorem decodeMap_eq_panic_iff {tail : Bytes} (hmajor : b >>> 5 = 5) :
    decodeMap t opts (decode t opts) (b &&& 0x1f) tail = .error .panic ↔
      Breaks t opts (b :: tail) := by
  have hbody : ∀ limit mid, decodeMapBody t opts (decode t opts) limit mid = .error .panic ↔
      ∃ pairs bytes, Visits 0xff (decodePair t opts (decode t opts)) limit [] mid pairs bytes ∧
        decodePair t opts (decode t opts) pairs bytes = .error .panic :=
    fun _ _ => loop_bind_eq_panic_iff (reads_decodePair (reads_decode t opts))
  simp only [decodeMap_iff (x := .error .panic) nofun, hbody]
  constructor
  · rintro ⟨limit, mid, hstart, pairs, bytes, hvisit, hpanic⟩
    rcases decodePair_eq_panic_iff.mp hpanic with hpanic | ⟨key, bytes', hkey, hpanic⟩
    · exact .inr ⟨bytes, .key hmajor hstart hvisit, hpanic⟩
    · rcases hpanic with hpanic | ⟨val, rest, hval, hpanic⟩
      · exact .inr ⟨bytes', .val hmajor hstart hvisit hkey, hpanic⟩
      · obtain ⟨hcanonical, hchecks, hnew, last, hlast, hmin⟩ := checkKey_eq_panic_iff.mp hpanic
        exact .inl (.keys hmajor hstart hvisit hkey hval hcanonical hchecks hnew hlast hmin)
  · rintro (h | ⟨bytes', hcall, hpanic⟩)
    · cases h with
      | reserve h _ _ => simp [hmajor] at h
      | keys _ hstart hvisit hkey hval hcanonical hchecks hnew hlast hmin =>
        exact ⟨_, _, hstart, _, _, hvisit, decodePair_eq_panic_iff.mpr (.inr ⟨_, _, hkey, .inr
          ⟨_, _, hval, checkKey_eq_panic_iff.mpr ⟨hcanonical, hchecks, hnew, _, hlast, hmin⟩⟩⟩)⟩
    · cases hcall with
      | key _ hstart hvisit =>
        exact ⟨_, _, hstart, _, _, hvisit, decodePair_eq_panic_iff.mpr (.inl hpanic)⟩
      | val _ hstart hvisit hkey =>
        exact ⟨_, _, hstart, _, _, hvisit,
          decodePair_eq_panic_iff.mpr (.inr ⟨_, _, hkey, .inl hpanic⟩)⟩
      | item h _ _ _ | inner h _ => simp [hmajor] at h

theorem decodeTag_eq_panic_iff {tail : Bytes} (hmajor : b >>> 5 = 6) :
    decodeTag t (decode t opts) (b &&& 0x1f) tail = .error .panic ↔
      Breaks t opts (b :: tail) := by
  unfold decodeTag
  rw [bind_eq_error_iff]
  constructor
  · rintro (h | ⟨len, mid, hread, h⟩)
    · exact absurd h ((safe_readLen 6 _).noPanic tail)
    rcases bind_eq_error_iff.mp h with h | ⟨head, mid', hhead, h⟩
    · exact absurd h ((safe_okOr _ len).noPanic mid)
    cases len with
    | none => cases hhead
    | some head' =>
      cases hhead
      rcases bind_eq_error_iff.mp h with h | ⟨inner, rest, -, h⟩
      · exact .inr ⟨_, .inner hmajor hread, h⟩
      · cases inner with
        | bytes b =>
          dsimp only at h
          split at h
          · rcases bind_eq_error_iff.mp h with h | ⟨v, rest', -, h⟩
            · exact absurd h ((safe_bignumToI128 t _ _).noPanic _)
            · cases v <;> cases h
          · cases h
        | _ => cases h
  · rintro (h | ⟨bytes', hcall, hpanic⟩)
    · cases h with
      | reserve h _ _ | keys h _ _ _ _ _ _ _ _ _ => simp [hmajor] at h
    · cases hcall with
      | @inner _ _ head _ _ hread =>
        refine .inr ⟨some head, _, hread, bind_eq_error_iff.mpr (.inr ⟨head, _, rfl, ?_⟩)⟩
        exact bind_of_error hpanic
      | item h _ _ _ | key h _ _ | val h _ _ _ => simp [hmajor] at h

theorem decode_eq_panic_iff {bytes : Bytes} :
    decode t opts bytes = .error .panic ↔ Breaks t opts bytes := by
  cases bytes with
  | nil =>
    rw [(reads_decode t opts).nil]
    refine iff_of_false nofun ?_
    rintro (h | ⟨_, h, -⟩) <;> cases h
  | cons b tail =>
    rw [decode_cons]
    unfold decodeBody
    split_ifs with h01 h2 h3 h4 h5 h6 h7
    · refine iff_of_false ((safe_decodeInteger t opts b _ _).noPanic tail) ?_
      rintro (h | ⟨_, h, -⟩) <;> cases h <;> simp_all
    · refine iff_of_false ((safe_decodeBytes opts _ _).noPanic tail) ?_
      rintro (h | ⟨_, h, -⟩) <;> cases h <;> simp_all
    · refine iff_of_false ((safe_decodeBytes opts _ _).noPanic tail) ?_
      rintro (h | ⟨_, h, -⟩) <;> cases h <;> simp_all
    · exact decodeArray_eq_panic_iff h4
    · exact decodeMap_eq_panic_iff h5
    · exact decodeTag_eq_panic_iff h6
    · refine iff_of_false ((safe_decodeSimple _).noPanic tail) ?_
      rintro (h | ⟨_, h, -⟩) <;> cases h <;> simp_all
    · refine iff_of_false nofun ?_
      rintro (h | ⟨_, h, -⟩) <;> cases h <;> simp_all

theorem Calls.length_lt {bytes bytes' : Bytes} (h : Calls t opts bytes bytes') :
    bytes'.length < bytes.length := by
  have hitems := fun _ : List Value => reads_decode t opts
  have hpairs : ∀ pairs, Reads eof (decodePair t opts (decode t opts) pairs) :=
    reads_decodePair (reads_decode t opts)
  cases h with
  | item _ hstart _ hvisit =>
    exact Nat.lt_succ_of_le ((hvisit.length_le hitems).trans hstart.length_le)
  | key _ hstart hvisit =>
    exact Nat.lt_succ_of_le ((hvisit.length_le hpairs).trans hstart.length_le)
  | val _ hstart hvisit hkey =>
    have hshort := (reads_decode t opts).shrinks _ _ _ hkey
    exact Nat.lt_succ_of_le
      (hshort.le.trans ((hvisit.length_le hpairs).trans hstart.length_le))
  | inner _ hread => exact Nat.lt_succ_of_le ((safe_readLen _ _).bounded _ _ _ hread)

theorem decode_eq_panic_iff_reaches {bytes : Bytes} : decode t opts bytes = .error .panic ↔
      ∃ bytes', Relation.ReflTransGen (Calls t opts) bytes bytes' ∧ Faulty t opts bytes' := by
  constructor
  · intro h
    -- by strong induction on the length, which every call makes smaller
    induction hn : bytes.length using Nat.strong_induction_on generalizing bytes with
    | _ n ih =>
      rcases decode_eq_panic_iff.mp h with hfault | ⟨mid, hcall, hpanic⟩
      · exact ⟨bytes, .refl, hfault⟩
      · obtain ⟨bytes', hreach, hfault⟩ := ih mid.length (hn ▸ hcall.length_lt) hpanic rfl
        exact ⟨bytes', .head hcall hreach, hfault⟩
  · rintro ⟨bytes', hreach, hfault⟩
    induction hreach using Relation.ReflTransGen.head_induction_on with
    | refl => exact decode_eq_panic_iff.mpr (.inl hfault)
    | head hcall _ ih => exact decode_eq_panic_iff.mpr (.inr ⟨_, hcall, ih⟩)

theorem decodeValue_eq_panic_iff {data : Bytes} :
    decodeValue t data opts = .error .panic ↔ decode t opts data = .error .panic := by
  unfold decodeValue
  cases decode t opts data with
  | error e =>
    change (Except.error e : Except (Fault CborError) Value) = .error .panic ↔ _
    simp
  | ok r =>
    change (if r.2 ≠ [] ∧ opts.canonical then _ else _) = _ ↔ _
    split <;> simp

end Panics

/-- The operations panic in three places only: the reservation for an array whose items would
not fit in memory, and the negation of `i128::MIN` in a build with overflow checks, in the
encoder and in the comparison of map keys of canonical decoding. -/
theorem panics_iff (t : Target) (data : Bytes) (opts : DecodeOptions) (checks canonical : Bool)
    (v : Value) : (decodeValue t data opts = .error .panic ↔
      ∃ bytes, Relation.ReflTransGen (Calls t opts) data bytes ∧ Faulty t opts bytes) ∧
    (encodeValue checks canonical v = none ↔ checks = true ∧ Occurs (.integer I128.min) v) :=
  ⟨decodeValue_eq_panic_iff.trans decode_eq_panic_iff_reaches, encodeValue_eq_none_iff⟩

/-- An array of `2 ^ 64 - 1` items is announced in nine bytes. -/
theorem huge_array_and_min_panic :
    (∀ t opts, decodeValue t (0x9b :: List.replicate 8 0xff) opts = .error .panic) ∧
      ∀ canonical, encodeValue true canonical (.integer I128.min) = none := by
  refine ⟨fun t opts => ?_, fun canonical => ?_⟩
  · have hbig : isizeMax < (UInt64.ofNat (beNat (List.replicate 8 0xff))).toNat * t.valueSize := by
      have hlen : isizeMax < (UInt64.ofNat (beNat (List.replicate 8 0xff))).toNat := by
        decide +kernel
      exact hlen.trans_le (Nat.le_mul_of_pos_right _ t.valueSize_pos)
    have hread : readLen 4 (0x9b &&& 0x1f) (List.replicate 8 0xff) =
        .ok (some (UInt64.ofNat (beNat (List.replicate 8 0xff)), 8), []) := by
      decide +kernel
    rw [decodeValue_eq_panic_iff]
    exact decode_eq_panic_iff.mpr (.inl (.reserve (by decide) hread hbig))
  · exact encodeValue_eq_none_iff.mpr ⟨rfl, .here⟩

end TptRfc.Cbor
