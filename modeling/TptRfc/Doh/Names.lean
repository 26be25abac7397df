import TptRfc.Doh.Dns

/-!
# DNS over HTTPS: the decoder is total

`Message::from_bytes` does not panic on any input (`fromBytes_ne_panic`).
-/

namespace TptRfc.Doh

open Lib Access List

/-! ## One round of the reader of names -/

section Round

variable {data : Bytes} {start rounds pos : ℕ} {jumped : Bool} {labels : List (List Char)}

theorem readLabels_of_lt (h : pos < data.length) :
    readLabels data start (rounds + 1) pos jumped labels =
      (let len := data.getD pos 0
      if len &&& 0xc0 = 0xc0 then
        if data.length ≤ pos + 1 then truncated
        else readLabels data start rounds
          ((len &&& 0x3f).toNat * 256 + (data.getD (pos + 1) 0).toNat) true labels
      else if len = 0 then do
        let consumed ← if jumped then pure 2 else subUsize true (pos + 1) start
        pure (joinLabels labels, consumed)
      else if data.length < pos + 1 + len.toNat then truncated
      else readLabels data start rounds (pos + 1 + len.toNat) jumped
        (labels ++ [labelText ((data.drop (pos + 1)).take len.toNat)])) := by
  rw [readLabels, if_neg (Nat.not_le.mpr h), byteAt_of_lt h, ok_bind]
  dsimp only
  split
  · split
    · rfl
    · rw [byteAt_of_lt (by omega), ok_bind]
  · split
    · rfl
    · split
      · rfl
      · rw [slice_of_le (by omega) (by omega), ok_bind, Nat.add_sub_cancel_left]

theorem readLabels_of_le (h : data.length ≤ pos) :
    readLabels data start (rounds + 1) pos jumped labels = truncated := by
  rw [readLabels, if_pos h]

variable {b : UInt8} {rest : Bytes}

theorem lt_of_drop (h : data.drop pos = b :: rest) :
    pos < data.length ∧ data.getD pos 0 = b ∧ data.length = pos + 1 + rest.length := by
  have hlen := congrArg List.length h
  rw [length_drop, length_cons] at hlen
  refine ⟨by omega, ?_, by omega⟩
  have := congrArg (List.getD · 0 0) h
  rwa [getD_eq_getElem?_getD, getElem?_drop, Nat.add_zero] at this

theorem and_c0_eq_iff : ∀ b : UInt8, b &&& 0xc0 = 0xc0 ↔ 192 ≤ b.toNat := by decide +kernel

theorem readLabels_root (hdrop : data.drop pos = 0 :: rest)
    (hstart : jumped = false → start ≤ pos) :
    readLabels data start (rounds + 1) pos jumped labels =
      .ok (joinLabels labels, if jumped then 2 else pos + 1 - start) := by
  obtain ⟨hpos, hb, -⟩ := lt_of_drop hdrop
  rw [readLabels_of_lt hpos, hb]
  cases jumped with
  | true => rfl
  | false =>
    have := hstart rfl
    simp only [subUsize, if_pos (show start ≤ pos + 1 by omega)]
    rfl

theorem readLabels_pointer {low : UInt8} (hdrop : data.drop pos = b :: low :: rest)
    (hb : 192 ≤ b.toNat) : readLabels data start (rounds + 1) pos jumped labels =
      readLabels data start rounds ((b.toNat - 192) * 256 + low.toNat) true labels := by
  obtain ⟨hpos, hget, hlen⟩ := lt_of_drop hdrop
  have hdrop' : data.drop (pos + 1) = low :: rest := by
    rw [← tail_drop, hdrop, tail_cons]
  obtain ⟨hpos', hlow, -⟩ := lt_of_drop hdrop'
  have hmask : (b &&& 0x3f).toNat = b.toNat - 192 := by
    have := b.toNat_lt
    rw [UInt8.toNat_and]
    exact (Nat.and_two_pow_sub_one_eq_mod _ 6).trans (by omega)
  rw [readLabels_of_lt hpos, hget, hlow]
  dsimp only
  rw [if_pos ((and_c0_eq_iff b).mpr hb), if_neg (Nat.not_le.mpr hpos'), hmask]

theorem readLabels_label {label : Bytes} (hdrop : data.drop pos = b :: (label ++ rest))
    (hb : b.toNat = label.length) (hpos : label ≠ []) (hlt : label.length < 192) :
    readLabels data start (rounds + 1) pos jumped labels =
      readLabels data start rounds (pos + 1 + label.length) jumped
        (labels ++ [labelText label]) := by
  obtain ⟨hlen, hget, hlength⟩ := lt_of_drop hdrop
  have hdrop' : data.drop (pos + 1) = label ++ rest := by
    rw [← tail_drop, hdrop, tail_cons]
  have hzero : b ≠ 0 := by
    rintro rfl
    exact hpos (length_eq_zero_iff.mp hb.symm)
  rw [length_append] at hlength
  rw [readLabels_of_lt hlen, hget]
  dsimp only
  rw [if_neg (fun h => by have := (and_c0_eq_iff b).mp h; omega), if_neg hzero, hb,
    if_neg (by omega), hdrop', take_left]

end Round

variable {data : Bytes} {i : ℕ}

theorem readLabels_ne_panic {start rounds pos : ℕ} {jumped : Bool}
    {labels : List (List Char)} (h : jumped = false → start ≤ pos) :
    readLabels data start rounds pos jumped labels ≠ .error .panic := by
  induction rounds generalizing pos jumped labels with
  | zero => exact nofun
  | succ rounds ih =>
    by_cases hpos : pos < data.length
    · rw [readLabels_of_lt hpos]
      dsimp only
      split
      · split
        · exact nofun
        · exact ih nofun
      · split
        · cases jumped with
          | true => exact nofun
          | false =>
            rw [if_neg Bool.false_ne_true, subUsize, if_pos (by have := h rfl; omega)]
            exact nofun
        · split
          · exact nofun
          · exact ih fun hj => by have := h hj; omega
    · rw [readLabels_of_le (Nat.not_lt.mp hpos)]
      exact nofun

theorem readName_ne_panic (data : Bytes) (pos : ℕ) : readName data pos ≠ .error .panic :=
  readLabels_ne_panic fun _ => le_rfl

/-! ## The data of a record -/

theorem parseTexts_ne_panic {fuel : ℕ} {txt : List (List Char)}
    (h : data.length < fuel + i) (hfuel : fuel ≠ 0) :
    parseTexts data fuel i txt ≠ .error .panic := by
  induction fuel generalizing i txt with
  | zero => exact absurd rfl hfuel
  | succ fuel ih =>
    rw [parseTexts]
    split
    · rename_i hi
      rw [byteAt_of_lt hi, ok_bind]
      split
      · exact nofun
      · rw [slice_of_le (by omega) (by omega), ok_bind]
        exact ih (by omega) (by omega)
    · exact nofun

theorem parseOptions_ne_panic {fuel : ℕ} {options : Bytes}
    (h : data.length < fuel + i) (hfuel : fuel ≠ 0) :
    parseOptions data fuel i options ≠ .error .panic := by
  induction fuel generalizing i options with
  | zero => exact absurd rfl hfuel
  | succ fuel ih =>
    rw [parseOptions]
    split
    · rw [u16At_of_lt (by omega), ok_bind, u16At_of_lt (by omega), ok_bind]
      split
      · exact nofun
      · rw [slice_of_le (by omega) (by omega), ok_bind]
        exact ih (by omega) (by omega)
    · exact nofun

theorem parseRdata_ne_panic (rtype : UInt16) (data : Bytes) :
    parseRdata rtype data ≠ .error .panic := by
  unfold parseRdata
  split
  · split <;> exact nofun
  split
  · split <;> exact nofun
  split
  · exact bind_ne_error (readName_ne_panic _ _) fun _ _ => nofun
  split
  · split
    · exact nofun
    · rw [u16At_of_lt (by omega), ok_bind]
      exact bind_ne_error (readName_ne_panic _ _) fun _ _ => nofun
  split
  · exact bind_ne_error (parseTexts_ne_panic (by omega) (by omega)) fun _ _ => nofun
  split
  · exact bind_ne_error (parseOptions_ne_panic (by omega) (by omega)) fun _ _ => nofun
  · exact nofun

/-! ## Entries and messages -/

theorem u32At_of_lt (h : i + 3 < data.length) :
    u32At data i = .ok (UInt32.ofNat (beNat [data.getD i 0, data.getD (i + 1) 0,
      data.getD (i + 2) 0, data.getD (i + 3) 0])) := by
  rw [u32At, byteAt_of_lt (by omega), ok_bind, byteAt_of_lt (by omega), ok_bind,
    byteAt_of_lt (by omega), ok_bind, byteAt_of_lt h]
  rfl

theorem readRecord_ne_panic (data : Bytes) (pos : ℕ) : readRecord data pos ≠ .error .panic := by
  refine bind_ne_error (readName_ne_panic _ _) fun ⟨name, consumed⟩ _ => ?_
  dsimp only
  split
  · exact nofun
  rw [u16At_of_lt (by omega), ok_bind, u16At_of_lt (by omega), ok_bind,
    u32At_of_lt (by omega), ok_bind, u16At_of_lt (by omega), ok_bind]
  split
  · exact nofun
  rw [slice_of_le (by omega) (by omega), ok_bind]
  exact bind_ne_error (parseRdata_ne_panic _ _) fun _ _ => nofun

theorem readQuestion_ne_panic (data : Bytes) (pos : ℕ) : readQuestion data pos ≠ .error .panic := by
  refine bind_ne_error (readName_ne_panic _ _) fun ⟨name, consumed⟩ _ => ?_
  dsimp only
  split
  · exact nofun
  rw [u16At_of_lt (by omega), ok_bind, u16At_of_lt (by omega), ok_bind]
  exact nofun

theorem readMany_ne_panic {α : Type} {read : ℕ → Decoded (α × ℕ)}
    (hread : ∀ pos, read pos ≠ .error .panic) (count pos : ℕ) :
    readMany read count pos ≠ .error .panic := by
  induction count generalizing pos with
  | zero => exact nofun
  | succ count ih =>
    exact bind_ne_error (hread pos) fun r _ => bind_ne_error (ih r.2) fun _ _ => nofun

theorem fromBytes_of_le (h : 12 ≤ data.length) :
    Message.fromBytes data = (do
      let (questions, pos) ← readMany (readQuestion data) (getU16 data 4).toNat 12
      let (answers, pos) ← readRecords data (getU16 data 6).toNat pos
      let (authorities, pos) ← readRecords data (getU16 data 8).toNat pos
      let (additionals, _) ← readRecords data (getU16 data 10).toNat pos
      pure ⟨getU16 data 0, .fromU16 (getU16 data 2), questions, answers, authorities,
        additionals⟩) := by
  rw [Message.fromBytes, if_neg (Nat.not_lt.mpr h), u16At_of_lt (by omega), ok_bind,
    u16At_of_lt (by omega), ok_bind, u16At_of_lt (by omega), ok_bind, u16At_of_lt (by omega),
    ok_bind, u16At_of_lt (by omega), ok_bind, u16At_of_lt (by omega), ok_bind]

theorem fromBytes_ne_panic (data : Bytes) : Message.fromBytes data ≠ .error .panic := by
  by_cases hlen : 12 ≤ data.length
  · rw [fromBytes_of_le hlen]
    have hrecords := readMany_ne_panic (readRecord_ne_panic data)
    exact bind_ne_error (readMany_ne_panic (readQuestion_ne_panic data) _ _) fun _ _ =>
      bind_ne_error (hrecords _ _) fun _ _ => bind_ne_error (hrecords _ _) fun _ _ =>
        bind_ne_error (hrecords _ _) fun _ _ => nofun
  · rw [Message.fromBytes, if_pos (Nat.not_le.mp hlen)]
    exact nofun

end TptRfc.Doh
