import TptRfc.Cbor.Modes

/-!
# CBOR: what canonical encoding writes

Canonical encoding orders the pairs of a map by the default encodings of their keys, and then writes
the keys in canonical form.
-/

namespace TptRfc.Cbor

open Lib Parser List

namespace Value

/-! ## The two sorted forms -/

abbrev SortKeyLe (a b : Bytes × (Value × Value)) : Prop := (keyCmp a.1 b.1).isLE

mutual

def written : Value → Value
  | .array items => .array (writtenItems items)
  | .map pairs => .map (((writtenPairs pairs).insertionSort SortKeyLe).map Prod.snd)
  | .tag number inner => .tag number (written inner)
  | v => v

def writtenItems : List Value → List Value
  | [] => []
  | v :: items => written v :: writtenItems items

def writtenPairs : List (Value × Value) → List (Bytes × (Value × Value))
  | [] => []
  | (k, v) :: pairs => (k.encoding false, (written k, written v)) :: writtenPairs pairs

end

mutual

def normalize : Value → Value
  | .array items => .array (normalizeItems items)
  | .map pairs => .map ((normalizePairs pairs).insertionSort PairLe)
  | .tag number inner => .tag number (normalize inner)
  | v => v

def normalizeItems : List Value → List Value
  | [] => []
  | v :: items => normalize v :: normalizeItems items

def normalizePairs : List (Value × Value) → List (Value × Value)
  | [] => []
  | (k, v) :: pairs => (normalize k, normalize v) :: normalizePairs pairs

end

def writtenPair (e : Value × Value) : Value × Value := (e.1.written, e.2.written)

theorem writtenItems_eq (items : List Value) : writtenItems items = items.map written := by
  induction items with
  | nil => rfl
  | cons v items ih => rw [writtenItems, ih, map_cons]

theorem writtenPairs_eq (pairs : List (Value × Value)) :
    writtenPairs pairs = pairs.map fun e => (e.1.encoding false, writtenPair e) := by
  induction pairs with
  | nil => rfl
  | cons e pairs ih => rw [writtenPairs, ih, map_cons, writtenPair]

theorem normalizeItems_eq (items : List Value) : normalizeItems items = items.map normalize := by
  induction items with
  | nil => rfl
  | cons v items ih => rw [normalizeItems, ih, map_cons]

theorem normalizePairs_eq (pairs : List (Value × Value)) :
    normalizePairs pairs = pairs.map fun e => (e.1.normalize, e.2.normalize) := by
  induction pairs with
  | nil => rfl
  | cons e pairs ih => rw [normalizePairs, ih, map_cons]

theorem written_array (items : List Value) :
    (Value.array items).written = .array (items.map written) := by
  rw [written, writtenItems_eq]

theorem written_map (pairs : List (Value × Value)) :
    (Value.map pairs).written = .map ((pairs.insertionSort PairLe).map writtenPair) := by
  rw [written, writtenPairs_eq, ← map_insertionSort (r := PairLe) (s := SortKeyLe)
    (fun e : Value × Value => (e.1.encoding false, writtenPair e)) pairs
    (fun a _ b _ => Iff.rfl), map_map]
  rfl

theorem normalize_array (items : List Value) :
    (Value.array items).normalize = .array (items.map normalize) := by
  rw [normalize, normalizeItems_eq]

theorem normalize_map (pairs : List (Value × Value)) :
    (Value.map pairs).normalize =
      .map ((pairs.map fun e => (e.1.normalize, e.2.normalize)).insertionSort PairLe) := by
  rw [normalize, normalizePairs_eq]

theorem encoding_written (v : Value) : v.written.encoding false = v.encoding true := by
  induction v with
  | array items ih =>
    rw [written_array, encoding_array, encoding_array, length_map, flatMap_map, flatMap_congr ih]
  | map pairs ih =>
    have hpair : ∀ e ∈ pairs.insertionSort PairLe,
        pairEncoding false (writtenPair e) = pairEncoding true e := by
      intro e he
      have he := (mem_insertionSort PairLe).mp he
      rw [pairEncoding, pairEncoding, writtenPair, (ih e he).1, (ih e he).2]
    rw [written_map, encoding_map_default, encoding_map_canonical, length_map,
      length_insertionSort, flatMap_map, flatMap_congr hpair]
  | tag number inner ih => rw [written, encoding_tag, encoding_tag, ih]
  -- the other values are written as they are
  | integer i => exact (encoding_eq_of_sorted ((everywhere_integer i).mpr trivial)).symm
  | float f => exact (encoding_eq_of_sorted ((everywhere_float f).mpr trivial)).symm
  | bool b => exact (encoding_eq_of_sorted ((everywhere_bool b).mpr trivial)).symm
  | null => exact (encoding_eq_of_sorted (everywhere_null.mpr trivial)).symm
  | undefined => exact (encoding_eq_of_sorted (everywhere_undefined.mpr trivial)).symm
  | simple s => exact (encoding_eq_of_sorted ((everywhere_simple s).mpr trivial)).symm
  | bytes b => exact (encoding_eq_of_sorted ((everywhere_bytes b).mpr trivial)).symm
  | text s => exact (encoding_eq_of_sorted ((everywhere_text s).mpr trivial)).symm

theorem asBytes_written (v : Value) : v.written.asBytes = v.asBytes := by
  cases v <;> simp [written, asBytes]

variable {v w : Value} {i : I128} {pairs : List (Value × Value)}

theorem plain_written {t : Target} (h : v.Everywhere (Plain t)) :
    v.written.Everywhere (Plain t) := by
  induction v with
  | array items ih =>
    rw [everywhere_array] at h
    rw [written_array, everywhere_array]
    refine ⟨by simpa [Plain] using h.1, fun w hw => ?_⟩
    obtain ⟨v, hv, rfl⟩ := mem_map.mp hw
    exact ih v hv (h.2 v hv)
  | map pairs ih =>
    rw [everywhere_map] at h
    rw [written_map, everywhere_map]
    refine ⟨by simpa [Plain] using h.1, fun w hw => ?_⟩
    obtain ⟨e, he, rfl⟩ := mem_map.mp hw
    have he := (mem_insertionSort PairLe).mp he
    exact ⟨(ih e he).1 (h.2 e he).1, (ih e he).2 (h.2 e he).2⟩
  | tag number inner ih =>
    rw [everywhere_tag] at h
    rw [written, everywhere_tag]
    exact ⟨by simpa [Plain, asBytes_written] using h.1, ih h.2⟩
  | _ => exact h

/-! ## Keys up to the order of pairs -/

inductive Reorder : Value → Value → Prop
  | refl (v : Value) : Reorder v v
  | array {xs ys : List Value} (hlen : xs.length = ys.length)
      (h : ∀ e ∈ xs.zip ys, Reorder e.1 e.2) : Reorder (.array xs) (.array ys)
  | map {ps qs rs : List (Value × Value)} (hlen : ps.length = qs.length)
      (hkeys : ∀ e ∈ ps.zip qs, Reorder e.1.1 e.2.1)
      (hvals : ∀ e ∈ ps.zip qs, Reorder e.1.2 e.2.2) (hperm : qs.Perm rs) :
      Reorder (.map ps) (.map rs)
  | tag {number : UInt64} {v w : Value} (h : Reorder v w) : Reorder (.tag number v) (.tag number w)

def DistinctKeys : Value → Prop
  | .map pairs => pairs.Pairwise fun a b => ¬ Reorder a.1 b.1
  | _ => True

def OrderAgrees : Value → Prop
  | .map pairs => ∀ a ∈ pairs, ∀ b ∈ pairs, canonicalKeyCmp a.1 b.1 = .lt →
      keyCmp (a.1.encoding true) (b.1.encoding true) = .lt
  | _ => True

theorem Reorder.not_integer (h : Reorder v w)
    (hw : w.Everywhere (· ≠ .integer i)) : v.Everywhere (· ≠ .integer i) := by
  induction h with
  | refl v => exact hw
  | @array xs ys hlen _ ih =>
    rw [everywhere_array] at hw ⊢
    refine ⟨nofun, fun v hv => ?_⟩
    obtain ⟨n, hn, rfl⟩ := getElem_of_mem hv
    have hmem : (xs[n], ys[n]) ∈ xs.zip ys := mem_iff_getElem.mpr
      ⟨n, by simp; omega, by simp⟩
    exact ih _ hmem (hw.2 _ (getElem_mem _))
  | @map ps qs rs hlen _ _ hperm ihkeys ihvals =>
    rw [everywhere_map] at hw ⊢
    refine ⟨nofun, fun e he => ?_⟩
    obtain ⟨n, hn, rfl⟩ := getElem_of_mem he
    have hmem : (ps[n], qs[n]) ∈ ps.zip qs := mem_iff_getElem.mpr
      ⟨n, by simp; omega, by simp⟩
    have hqs := hw.2 _ (hperm.mem_iff.mp (getElem_mem (l := qs) (by omega : n < qs.length)))
    exact ⟨ihkeys _ hmem hqs.1, ihvals _ hmem hqs.2⟩
  | tag _ ih =>
    rw [everywhere_tag] at hw ⊢
    exact ⟨nofun, ih hw.2⟩

/-! ## When the orders agree -/

theorem canonicalKeyCmp_swap (a b : Value) : canonicalKeyCmp a b = (canonicalKeyCmp b a).swap :=
  @Std.OrientedCmp.eq_swap _ keyCmp _ _ _

instance : Std.Total PairLe := ⟨fun a b => by
  rw [PairLe, PairLe, canonicalKeyCmp_swap a.1 b.1]
  cases canonicalKeyCmp b.1 a.1 <;> simp⟩

instance : IsTrans (Value × Value) PairLe := ⟨fun _ _ _ hab hbc =>
  @Std.TransCmp.isLE_trans _ keyCmp _ _ _ _ hab hbc⟩

variable {t : Target}

theorem encoding_injective (hv : v.Everywhere (Plain t)) (hw : w.Everywhere (Plain t))
    (h : v.encoding false = w.encoding false) : v = w := by
  have hdec := decodes_encoding hv (fun u _ => ordered_default u) []
  rw [h, decodes_encoding hw (fun u _ => ordered_default u) []] at hdec
  cases hdec
  rfl

theorem pairwise_lt_insertionSort
    (hplain : ∀ e ∈ pairs, e.1.Everywhere (Plain t)) (hdistinct : (Value.map pairs).DistinctKeys) :
    (pairs.insertionSort PairLe).Pairwise fun a b => canonicalKeyCmp a.1 b.1 = .lt := by
  have hkeys : pairs.Pairwise fun a b => ¬ Reorder a.1 b.1 := hdistinct
  have hne : pairs.Pairwise fun a b => a.1 ≠ b.1 := by
    refine hkeys.imp ?_
    intro a b h heq
    exact h (heq ▸ .refl a.1)
  have hne' := ((perm_insertionSort PairLe pairs).pairwise_iff Ne.symm).mpr hne
  refine List.Pairwise.imp_of_mem ?_
    ((pairwise_insertionSort PairLe pairs).and hne')
  rintro a b ha hb ⟨hle, hab⟩
  have hpa := hplain a ((mem_insertionSort PairLe).mp ha)
  have hpb := hplain b ((mem_insertionSort PairLe).mp hb)
  rcases Ordering.isLE_iff_eq_lt_or_eq_eq.mp hle with hlt | heq
  · exact hlt
  · exact absurd (encoding_injective hpa hpb (eq_of_keyCmp_eq heq)) hab

theorem rel_or_rel_of_pairwise {α : Type} {R : α → α → Prop} {l : List α} (h : l.Pairwise R)
    {a b : α} (ha : a ∈ l) (hb : b ∈ l) (hne : a ≠ b) : R a b ∨ R b a := by
  have hsymm : Std.Symm fun x y : α => R x y ∨ R y x := ⟨fun _ _ => Or.symm⟩
  have hor : l.Pairwise fun x y => R x y ∨ R y x := h.imp Or.inl
  exact hor.forall ha hb hne

theorem not_pairLe_of_lt {a b : Value × Value} (h : canonicalKeyCmp a.1 b.1 = .lt) :
    ¬ PairLe b a := by
  rw [PairLe, canonicalKeyCmp_swap, h]
  decide

theorem lt_of_pairwise {R : Value × Value → Value × Value → Prop}
    (h : pairs.Pairwise fun a b => PairLe a b ∧ R a b) {a b : Value × Value} (ha : a ∈ pairs)
    (hb : b ∈ pairs) (hlt : canonicalKeyCmp a.1 b.1 = .lt) : R a b := by
  have hne : a ≠ b := by
    rintro rfl
    exact not_pairLe_of_lt hlt (by rw [PairLe, hlt]; rfl)
  rcases rel_or_rel_of_pairwise h ha hb hne with hab | hba
  · exact hab.2
  · exact absurd hba.1 (not_pairLe_of_lt hlt)

theorem sorted_written_iff (hplain : v.Everywhere (Plain t))
    (hdistinct : v.Everywhere DistinctKeys) :
    v.written.Everywhere SortedKeys ↔ v.Everywhere OrderAgrees := by
  induction v with
  | array items ih =>
    rw [everywhere_array] at hplain hdistinct
    rw [written_array, everywhere_array, everywhere_array, forall_mem_map]
    exact and_congr Iff.rfl (forall₂_congr fun v hv => ih v hv (hplain.2 v hv) (hdistinct.2 v hv))
  | map pairs ih =>
    rw [everywhere_map] at hplain hdistinct
    rw [written_map, everywhere_map, everywhere_map, forall_mem_map]
    have hsort := pairwise_lt_insertionSort (fun e he => (hplain.2 e he).1) hdistinct.1
    have hmem : ∀ {e}, e ∈ pairs.insertionSort PairLe ↔ e ∈ pairs := mem_insertionSort PairLe
    refine and_congr ?_ ?_
    · have hcmp : ∀ a b : Value × Value,
          canonicalKeyCmp (writtenPair a).1 (writtenPair b).1 =
            keyCmp (a.1.encoding true) (b.1.encoding true) := fun a b => by
        rw [canonicalKeyCmp, writtenPair, writtenPair, encoding_written, encoding_written]
      rw [SortedKeys, pairwise_map]
      simp only [hcmp]
      constructor
      · intro hsorted a ha b hb hlt
        exact lt_of_pairwise (hsort.imp (fun h => by rw [PairLe, h]; rfl) |>.and hsorted)
          (hmem.mpr ha) (hmem.mpr hb) hlt
      · intro hagree
        exact hsort.imp_of_mem fun ha hb hlt => hagree _ (hmem.mp ha) _ (hmem.mp hb) hlt
    · constructor
      · intro h e he
        have := h e (hmem.mpr he)
        exact ⟨((ih e he).1 (hplain.2 e he).1 (hdistinct.2 e he).1).mp this.1,
          ((ih e he).2 (hplain.2 e he).2 (hdistinct.2 e he).2).mp this.2⟩
      · intro h e he
        have he := hmem.mp he
        exact ⟨((ih e he).1 (hplain.2 e he).1 (hdistinct.2 e he).1).mpr (h e he).1,
          ((ih e he).2 (hplain.2 e he).2 (hdistinct.2 e he).2).mpr (h e he).2⟩
  | tag number inner ih =>
    rw [everywhere_tag] at hplain hdistinct
    rw [written, everywhere_tag, everywhere_tag]
    exact and_congr Iff.rfl (ih hplain.2 hdistinct.2)
  | _ => simp [written, SortedKeys, OrderAgrees]

theorem written_eq_normalize (h : v.written.Everywhere SortedKeys) : v.written = v.normalize := by
  induction v with
  | array items ih =>
    rw [written_array, everywhere_array, forall_mem_map] at h
    rw [written_array, normalize_array, map_congr_left fun v hv => ih v hv (h.2 v hv)]
  | map pairs ih =>
    rw [written_map, everywhere_map, forall_mem_map] at h
    obtain ⟨hsorted, hinner⟩ := h
    have hmem : ∀ {e}, e ∈ pairs.insertionSort PairLe ↔ e ∈ pairs := mem_insertionSort PairLe
    have hmap : pairs.map (fun e => (e.1.normalize, e.2.normalize)) = pairs.map writtenPair :=
      map_congr_left fun e he => by
        have := hinner e (hmem.mpr he)
        rw [writtenPair, (ih e he).1 this.1, (ih e he).2 this.2]
    rw [written_map, normalize_map, hmap]
    -- two sorted lists with the same pairs
    refine congrArg Value.map (Perm.eq_of_pairwise ?_
      (hsorted.imp fun hlt => by rw [PairLe, hlt]; rfl)
      (pairwise_insertionSort PairLe _) ?_)
    · intro a b ha hb hab hba
      have hb := ((perm_insertionSort PairLe pairs).map writtenPair).mem_iff.mpr
        ((mem_insertionSort PairLe).mp hb)
      by_contra hne
      rcases rel_or_rel_of_pairwise hsorted ha hb hne with hlt | hlt
      · exact not_pairLe_of_lt hlt hba
      · exact not_pairLe_of_lt hlt hab
    · exact ((perm_insertionSort PairLe pairs).map writtenPair).trans
        (perm_insertionSort PairLe _).symm
  | tag number inner ih =>
    rw [written, everywhere_tag] at h
    rw [written, normalize, ih h.2]
  | _ => rfl

/-! ## Canonical decoding of a canonical encoding -/

theorem SortedKeys.ordered (h : v.SortedKeys) : v.Ordered .canonicalMode := by
  cases v with
  | map pairs =>
    refine ⟨fun _ => h.imp fun {a b} hlt heq => ?_, fun _ => h⟩
    rw [heq] at hlt
    have hself : canonicalKeyCmp b.1 b.1 = .eq := @Std.ReflCmp.compare_self _ keyCmp _ _
    rw [hself] at hlt
    cases hlt
  | _ => trivial

theorem decode_encoding_canonical_iff (hplain : v.Everywhere (Plain t)) :
    decodeValue t (v.encoding false) .canonicalMode = .ok w ↔
      w = v ∧ v.Everywhere SortedKeys := by
  constructor
  · intro h
    have hdec := decodeValue_canonical_eq_ok h
    have hdefault := filters_decode _ _ hdec
    rw [(decodes_encoding hplain fun u _ => ordered_default u).run_nil] at hdefault
    cases hdefault
    exact ⟨rfl, (sound_of_decode rfl rfl hdec).mono fun _ => Sound.sortedKeys⟩
  · rintro ⟨rfl, hsorted⟩
    have hdec : Decodes (decode t .canonicalMode) (w.encoding false) w :=
      decodes_encoding hplain (hsorted.mono fun _ => SortedKeys.ordered)
    rw [decodeValue, hdec.run_nil]
    rfl

/-- For a value with distinct keys, canonical decoding of its canonical encoding gives back
its normal form exactly if, in every map, the keys as they are and the keys as they are
written have the same order. -/
theorem decode_encode_canonical_iff (t : Target) (v : Value) (hplain : v.Everywhere (Plain t))
    (hdistinct : v.Everywhere DistinctKeys) : ∃ bytes, encodeValue t.checks true v = some bytes ∧
      (decodeValue t bytes .canonicalMode = .ok v.normalize ↔ v.Everywhere OrderAgrees) := by
  refine ⟨v.encoding true, encodeValue_eq (fun _ => hplain.mono fun _ => Plain.notMin) true, ?_⟩
  rw [← encoding_written, decode_encoding_canonical_iff (plain_written hplain),
    ← sorted_written_iff hplain hdistinct]
  exact ⟨And.right, fun h => ⟨(written_eq_normalize h).symm, h⟩⟩

theorem decode_encode_canonical_iff_sample :
    ∃ bytes, encodeValue true true (.map [(.text "b", .null), (.simple 7, .null)]) = some bytes ∧
      (decodeValue ⟨true, 32, by decide⟩ bytes .canonicalMode =
          .ok (Value.map [(.text "b", .null), (.simple 7, .null)]).normalize ↔
        (Value.map [(.text "b", .null), (.simple 7, .null)]).Everywhere OrderAgrees) :=
  decode_encode_canonical_iff ⟨true, 32, by decide⟩ _ (by decide +kernel) (by
    simp only [everywhere_map, forall_mem_cons, everywhere_text, everywhere_null, everywhere_simple]
    refine ⟨pairwise_pair.mpr ?_, ⟨trivial, trivial⟩, ⟨trivial, trivial⟩, by simp⟩
    rintro ⟨⟩)

def swappedKeys : Value :=
  .map [(.map [(.integer ⟨2, by decide⟩, .integer ⟨0, by decide⟩),
      (.integer ⟨1, by decide⟩, .integer ⟨0, by decide⟩)], .null),
    (.map [(.integer ⟨1, by decide⟩, .integer ⟨1, by decide⟩),
      (.integer ⟨3, by decide⟩, .integer ⟨0, by decide⟩)], .null)]

theorem not_reorder_integer {j : I128} (h : i ≠ j) : ¬ Reorder (.integer i) (.integer j) := by
  intro hreorder
  cases hreorder
  exact h rfl

theorem distinctKeys_swappedKeys : swappedKeys.Everywhere DistinctKeys := by
  have houter : ¬ Reorder
      (.map [(.integer ⟨2, by decide⟩, .integer ⟨0, by decide⟩),
        (.integer ⟨1, by decide⟩, .integer ⟨0, by decide⟩)])
      (.map [(.integer ⟨1, by decide⟩, .integer ⟨1, by decide⟩),
        (.integer ⟨3, by decide⟩, .integer ⟨0, by decide⟩)]) := by
    intro h
    have htwo := h.not_integer (i := ⟨2, by decide⟩) (by decide +kernel)
    exact absurd htwo (by decide +kernel)
  simp only [swappedKeys, everywhere_map, forall_mem_cons, everywhere_integer, everywhere_null]
  refine ⟨pairwise_pair.mpr houter, ⟨⟨?_, ?_⟩, trivial⟩, ⟨⟨?_, ?_⟩, trivial⟩, by simp⟩
  · exact pairwise_pair.mpr (not_reorder_integer (by decide))
  · exact ⟨⟨trivial, trivial⟩, ⟨trivial, trivial⟩, by simp⟩
  · exact pairwise_pair.mpr (not_reorder_integer (by decide))
  · exact ⟨⟨trivial, trivial⟩, ⟨trivial, trivial⟩, by simp⟩

/-- The keys are sorted by bytes that are not written, and the decoder rejects the map. -/
theorem canonical_rejects_swappedKeys :
    swappedKeys.Everywhere (Plain ⟨true, 32, by decide⟩) ∧ swappedKeys.Everywhere DistinctKeys ∧
      encodeValue true true swappedKeys = some [0xa2, 0xa2, 0x01, 0x01, 0x03, 0x00, 0xf6,
        0xa2, 0x01, 0x00, 0x02, 0x00, 0xf6] ∧
      decodeValue ⟨true, 32, by decide⟩ [0xa2, 0xa2, 0x01, 0x01, 0x03, 0x00, 0xf6,
        0xa2, 0x01, 0x00, 0x02, 0x00, 0xf6] .canonicalMode = .error (.error .duplicateKey) :=
  ⟨by decide +kernel, distinctKeys_swappedKeys, by decide +kernel, by decide +kernel⟩

end Value

end TptRfc.Cbor
