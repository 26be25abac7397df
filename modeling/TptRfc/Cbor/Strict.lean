import TptRfc.Cbor.Modes
import TptRfc.Cbor.Panics

/-!
# CBOR: what the strict mode accepts

Strict decoding refuses items of indefinite length and maps with equal keys, and nothing else.
-/

namespace TptRfc.Cbor

open Lib Parser Value List

def DistinctKeys : Value → Prop
  | .map pairs => pairs.Pairwise fun a b => a.1.beq b.1 = false
  | _ => True

/-- A string, an array or a map. -/
def HasLength (major : UInt8) : Prop := major = 2 ∨ major = 3 ∨ major = 4 ∨ major = 5

/-- An item of indefinite length is in front. -/
def Indefinite : Bytes → Prop
  | [] => False
  | b :: _ => HasLength (b >>> 5) ∧ b &&& 0x1f = 31

section Strict

variable {t : Target} {bytes tail mid rest : Bytes} {b major ai : UInt8} {v : Value}
  {pairs : List (Value × Value)}

theorem checkKey_strict {key : Value} :
    checkKey t .strict pairs key =
      if pairs.any fun e => e.1.beq key then fail .duplicateKey else pure () := rfl

theorem any_beq_eq_false {key val : Value} (h : DistinctKeys (.map (pairs ++ [(key, val)]))) :
    (pairs.any fun e => e.1.beq key) = false := by
  rw [any_eq_false]
  intro e he
  exact Bool.eq_false_iff.mp ((pairwise_append.mp h).2.2 e he _ (mem_singleton_self _))

theorem distinctKeys_of_strict (h : decode t .strict bytes = .ok (v, rest)) : DistinctKeys v := by
  cases decode_result h with
  | map _ _ hrun =>
    refine hrun.invariant (reads_decodePair (reads_decode t _)) Pairwise.nil
      fun acc b e mid' hacc _ hitem => ?_
    obtain ⟨_, _, -, -, hcheck⟩ := decodePair_eq_ok hitem
    rw [checkKey_strict] at hcheck
    split at hcheck
    · exact absurd hcheck fail_ne_ok
    · rename_i hnew
      refine pairwise_append.mpr ⟨hacc, pairwise_singleton _ _, fun a ha b hb => ?_⟩
      cases mem_singleton.mp hb
      exact Bool.eq_false_iff.mpr fun hbeq => hnew (any_eq_true.mpr ⟨a, ha, hbeq⟩)
  | _ => trivial

theorem eq_31_of_readLen (h : readLen major ai tail = .ok (none, mid)) : ai = 31 := by
  by_contra hne
  have hwide : ∀ n, (do
      let b ← readExact n
      pure (some (UInt64.ofNat (beNat b), n)) : Decode (Option (UInt64 × ℕ))) tail ≠
        .ok (none, mid) := by
    intro n h
    obtain ⟨_, _, -, h⟩ := bind_eq_ok h
    cases h
  unfold readLen at h
  dsimp only at h
  split_ifs at h
  · cases h
  · obtain ⟨_, _, -, h⟩ := bind_eq_ok h
    cases h
  · exact hwide _ h
  · exact hwide _ h
  · exact hwide _ h
  · exact absurd h fail_ne_ok

theorem Starts.strict {limit : Option ℕ} (hdef : ¬ Indefinite (b :: tail))
    (hmajor : HasLength (b >>> 5)) (h : Starts {} major (b &&& 0x1f) tail limit mid) :
    Starts .strict major (b &&& 0x1f) tail limit mid := by
  cases h with
  | definite hread => exact .definite hread
  | indefinite hread _ => exact absurd ⟨hmajor, eq_31_of_readLen hread⟩ hdef

theorem not_indefinite_of_strict (h : decode t .strict bytes = .ok (v, rest)) :
    ¬ Indefinite bytes := by
  cases bytes with
  | nil => exact id
  | cons b tail =>
    rintro ⟨hmajor, hai⟩
    rw [decode_cons, decodeBody, hai] at h
    obtain hmajor | hmajor | hmajor | hmajor := hmajor <;> rw [hmajor] at h <;> cases h

section Converse

variable (hroot : ¬ Indefinite (b :: tail)) (hv : v.Everywhere DistinctKeys)
  (hcall : ∀ {bytes' rest' w}, Calls t {} (b :: tail) bytes' → w.Everywhere DistinctKeys →
    decode t {} bytes' = .ok (w, rest') → decode t .strict bytes' = .ok (w, rest'))

include hroot in
theorem strict_decodeBytes {isText : Bool} (hmajor : HasLength (b >>> 5))
    (h : decodeBytes {} (b &&& 0x1f) isText tail = .ok (v, rest)) :
    decodeBytes .strict (b &&& 0x1f) isText tail = .ok (v, rest) := by
  obtain ⟨len, mid, hread, h⟩ := bind_eq_ok h
  cases len with
  | none => exact absurd ⟨hmajor, eq_31_of_readLen hread⟩ hroot
  | some head =>
    rw [decodeBytes, bind_of_ok hread]
    exact h

include hv hcall

include hroot in
theorem strict_decodeArray (hmajor : b >>> 5 = 4)
    (h : decodeArray t {} (decode t {}) (b &&& 0x1f) tail = .ok (v, rest)) :
    decodeArray t .strict (decode t .strict) (b &&& 0x1f) tail = .ok (v, rest) := by
  obtain ⟨limit, mid, hstart, h⟩ := (decodeArray_iff (x := .ok (v, rest)) nofun).mp h
  obtain ⟨⟨⟩, mid', hres, h⟩ := bind_eq_ok h
  obtain ⟨hfits, rfl⟩ := reserveFor_eq_ok hres
  obtain ⟨items, rest', hloop, hpure⟩ := bind_eq_ok h
  cases hpure
  have hrun : Collects 0xff (fun _ => decode t .strict) limit [] mid items rest :=
    ((loop_eq_ok_iff fun _ => reads_decode t {}).mp hloop).mono
      fun acc bytes' a mid hvisit hpre => hcall (.item hmajor hstart hfits hvisit)
        (((everywhere_array items).mp hv).2 a (hpre.subset (by simp)))
  refine (decodeArray_iff (x := .ok (.array items, rest)) nofun).mpr
    ⟨limit, mid, hstart.strict hroot (.inr (.inr (.inl hmajor))), ?_⟩
  rw [bind_of_ok hres, bind_of_ok ((loop_eq_ok_iff fun _ => reads_decode t _).mpr hrun)]
  rfl

include hroot in
theorem strict_decodeMap (hmajor : b >>> 5 = 5)
    (h : decodeMap t {} (decode t {}) (b &&& 0x1f) tail = .ok (v, rest)) :
    decodeMap t .strict (decode t .strict) (b &&& 0x1f) tail = .ok (v, rest) := by
  obtain ⟨limit, mid, hstart, h⟩ := (decodeMap_iff (x := .ok (v, rest)) nofun).mp h
  obtain ⟨pairs, rest', hloop, hpure⟩ := bind_eq_ok h
  cases hpure
  obtain ⟨hkeys, hpairs⟩ := (everywhere_map pairs).mp hv
  have hrun : Collects 0xff (decodePair t .strict (decode t .strict)) limit [] mid pairs rest := by
    refine ((loop_eq_ok_iff (reads_decodePair (reads_decode t {}))).mp hloop).mono
      fun acc bytes' e mid hvisit hpre hpair => ?_
    obtain ⟨mid₁, mid₂, hkey, hval, hcheck⟩ := decodePair_eq_ok hpair
    obtain ⟨hkey', hval'⟩ := hpairs e (hpre.subset (by simp))
    rw [decodePair, bind_of_ok (hcall (.key hmajor hstart hvisit) hkey' hkey),
      bind_of_ok (hcall (.val hmajor hstart hvisit hkey) hval' hval),
      checkKey_strict, any_beq_eq_false (hkeys.sublist hpre.sublist)]
    cases hcheck
    rfl
  refine (decodeMap_iff (x := .ok (.map pairs, rest)) nofun).mpr
    ⟨limit, mid, hstart.strict hroot (.inr (.inr (.inr hmajor))), ?_⟩
  rw [decodeMapBody, bind_of_ok ((loop_eq_ok_iff (reads_decodePair (reads_decode t _))).mpr hrun)]
  rfl

theorem strict_decodeTag (hmajor : b >>> 5 = 6)
    (h : decodeTag t (decode t {}) (b &&& 0x1f) tail = .ok (v, rest)) :
    decodeTag t (decode t .strict) (b &&& 0x1f) tail = .ok (v, rest) := by
  obtain ⟨len, mid, hread, h⟩ := bind_eq_ok h
  obtain ⟨head, mid', hhead, h⟩ := bind_eq_ok h
  obtain ⟨rfl, rfl⟩ := okOr_eq_ok hhead
  obtain ⟨inner, rest', hinner, h⟩ := bind_eq_ok h
  -- a bignum is not in the value, but there is no map in it
  have hin : inner.Everywhere DistinctKeys := by
    cases inner with
    | bytes c => exact (everywhere_bytes c).mpr trivial
    | _ =>
      cases h
      exact ((everywhere_tag _ _).mp hv).2
  rw [decodeTag, bind_of_ok hread, bind_of_ok hhead,
    bind_of_ok (hcall (.inner hmajor hread) hin hinner)]
  exact h

end Converse

theorem strict_of_default (h : decode t {} bytes = .ok (v, rest)) (hv : v.Everywhere DistinctKeys)
    (hdef : ∀ b, Relation.ReflTransGen (Calls t {}) bytes b → ¬ Indefinite b) :
    decode t .strict bytes = .ok (v, rest) := by
  induction hn : bytes.length using Nat.strong_induction_on generalizing bytes rest v with
  | h n ih =>
    cases bytes with
    | nil =>
      rw [(reads_decode t {}).nil] at h
      cases h
    | cons b tail =>
      have hroot := hdef _ .refl
      have hcall : ∀ {bytes' rest' w}, Calls t {} (b :: tail) bytes' →
          w.Everywhere DistinctKeys → decode t {} bytes' = .ok (w, rest') →
          decode t .strict bytes' = .ok (w, rest') := fun hc hw hr =>
        ih _ (hn ▸ hc.length_lt) hr hw (fun b hb => hdef b (.head hc hb)) rfl
      rw [decode_cons] at h ⊢
      unfold decodeBody at h ⊢
      split_ifs at h ⊢ with h01 h2 h3 h4 h5 h6 h7
      · exact h
      · exact strict_decodeBytes hroot (.inl h2) h
      · exact strict_decodeBytes hroot (.inr (.inl h3)) h
      · exact strict_decodeArray hroot hv hcall h4 h
      · exact strict_decodeMap hroot hv hcall h5 h
      · exact strict_decodeTag hv hcall h6 h
      · exact h
      · exact h

theorem Starts.of_strict {limit : Option ℕ} {f : Option (UInt64 × ℕ) → Decode Value}
    (hstart : Starts {} major ai tail limit mid) (hnone : f none = fail .indefiniteNotAllowed)
    (h : (readLen major ai >>= f) tail = .ok (v, rest)) :
    ∃ head : UInt64 × ℕ, limit = some head.1.toNat ∧ f (some head) mid = .ok (v, rest) := by
  cases hstart with
  | @definite head _ hread =>
    rw [bind_of_ok hread] at h
    exact ⟨head, rfl, h⟩
  | indefinite hread _ =>
    rw [bind_of_ok hread, hnone] at h
    exact absurd h fail_ne_ok

theorem strict_of_visits {limit : Option ℕ} {bytes' : Bytes}
    (hvisit : Visits 0xff (decodePair t {} (decode t {})) limit [] mid pairs bytes')
    (h : decodeMapBody t .strict (decode t .strict) limit mid = .ok (v, rest)) :
    ∃ (e : Value × Value) (mid₁ mid₂ : Bytes), decode t .strict bytes' = .ok (e.1, mid₁) ∧
      decode t .strict mid₁ = .ok (e.2, mid₂) := by
  obtain ⟨out, _, hloop, -⟩ := bind_eq_ok h
  obtain ⟨⟨e, _⟩, he⟩ := hvisit.exists_ok
    ((loop_eq_ok_iff (reads_decodePair (reads_decode t _))).mp hloop)
    fun pairs bytes => (relates_filters t .strict).decodePair (reads_decode t {})
      (fun b _ => filters_decode b) pairs
  obtain ⟨mid₁, mid₂, hkey, hval, -⟩ := decodePair_eq_ok he
  exact ⟨e, mid₁, mid₂, hkey, hval⟩

theorem strict_of_calls {bytes' : Bytes} (hcall : Calls t {} bytes bytes')
    (h : decode t .strict bytes = .ok (v, rest)) :
    ∃ w rest', decode t .strict bytes' = .ok (w, rest') := by
  cases hcall with
  | item hmajor hstart _ hvisit =>
    rw [decode_cons, decodeBody, hmajor] at h
    obtain ⟨head, rfl, h⟩ := hstart.of_strict rfl h
    obtain ⟨_, _, hres, h⟩ := bind_eq_ok h
    obtain ⟨-, rfl⟩ := @reserveFor_eq_ok t _ (some _) _ hres
    obtain ⟨items, _, hloop, -⟩ := bind_eq_ok h
    obtain ⟨⟨w, rest'⟩, hw⟩ := hvisit.exists_ok
      ((loop_eq_ok_iff fun _ => reads_decode t _).mp hloop) fun _ => filters_decode
    exact ⟨w, rest', hw⟩
  | key hmajor hstart hvisit =>
    rw [decode_cons, decodeBody, hmajor] at h
    obtain ⟨head, rfl, h⟩ := hstart.of_strict rfl h
    obtain ⟨e, mid₁, mid₂, hkey, -⟩ := strict_of_visits hvisit h
    exact ⟨_, _, hkey⟩
  | val hmajor hstart hvisit hkey =>
    rw [decode_cons, decodeBody, hmajor] at h
    obtain ⟨head, rfl, h⟩ := hstart.of_strict rfl h
    obtain ⟨e, mid₁, mid₂, hkey', hval⟩ := strict_of_visits hvisit h
    cases hkey.symm.trans (filters_decode _ _ hkey')
    exact ⟨_, _, hval⟩
  | inner hmajor hread =>
    rw [decode_cons, decodeBody, hmajor] at h
    change decodeTag t (decode t .strict) _ _ = _ at h
    rw [decodeTag, bind_of_ok hread] at h
    obtain ⟨_, _, hhead, h⟩ := bind_eq_ok h
    obtain ⟨-, rfl⟩ := okOr_eq_ok hhead
    obtain ⟨inner, rest', hinner, -⟩ := bind_eq_ok h
    exact ⟨inner, rest', hinner⟩

/-- **What the strict mode accepts.** A call under any options that succeeds gives what it gives
with the default ones. -/
theorem decode_strict_iff (t : Target) (bytes rest : Bytes) (v : Value) :
    (∀ opts, decode t opts bytes = .ok (v, rest) → decode t {} bytes = .ok (v, rest)) ∧
    (decode t .strict bytes = .ok (v, rest) ↔
      decode t {} bytes = .ok (v, rest) ∧ v.Everywhere DistinctKeys ∧
        ∀ b, Relation.ReflTransGen (Calls t {}) bytes b → ¬ Indefinite b) := by
  refine ⟨fun opts => filters_decode bytes _, fun h => ⟨filters_decode bytes _ h,
    everywhere_of_decode distinctKeys_of_strict h, fun b hreach => ?_⟩,
    fun h => strict_of_default h.1 h.2.1 h.2.2⟩
  have hok : ∃ w rest', decode t .strict b = .ok (w, rest') := by
    induction hreach with
    | refl => exact ⟨v, rest, h⟩
    | tail _ hcall ih =>
      obtain ⟨w, rest', hw⟩ := ih
      exact strict_of_calls hcall hw
  obtain ⟨w, rest', hw⟩ := hok
  exact not_indefinite_of_strict hw

end Strict

end TptRfc.Cbor
