import TptRfc.Dtls.Basic
import TptRfc.Lib.Bitmap

/-!
# Anti-replay protection for received records

`ReplayWindow` is a sliding bitmap: position `k` of the packed words stands for the sequence number
`base + k`.
-/

namespace TptRfc.Dtls

open Lib List Exec

structure ReplayWindow where
  /-- Number of sequence numbers tracked. -/
  window : ℕ
  /-- Sequence number mapped to bit 0 of the first word. -/
  base : ℕ
  /-- Bitmask of accepted sequence numbers within `[base, base + window)`. -/
  words : List (BitVec 64)
  deriving DecidableEq

def maxSequence : ℕ := 0xFFFFFFFFFFFFFF

namespace ReplayWindow

def new (window : ℕ) : ReplayWindow :=
  let window := (max window 64 + 63) / 64 * 64
  { window := window, base := 0, words := List.replicate (window / 64) 0 }

def writeWord (i : ℕ) (word : BitVec 64) : Exec ReplayWindow DtlsError Unit := fun self =>
  if i < self.words.length then (.ok (), { self with words := self.words.set i word })
  else (.error .panic, self)

def readWord (i : ℕ) : Exec ReplayWindow DtlsError (BitVec 64) := do
  let self ← Exec.get
  index self.words i

def slideWords (wordShift len : ℕ) : Exec ReplayWindow DtlsError Unit :=
  forRange (fun i => do
    let word ← readWord (i + wordShift)
    writeWord i word) (len - wordShift)

def slideBits (wordShift bitShift len : ℕ) : Exec ReplayWindow DtlsError Unit := do
  forRange (fun i => do
    let low ← readWord (i + wordShift)
    let high ← readWord (i + wordShift + 1)
    writeWord i (low >>> bitShift ||| high <<< (64 - bitShift))) (len - wordShift - 1)
  let word ← readWord (len - 1)
  writeWord (len - wordShift - 1) (word >>> bitShift)

def zeroWords (start : ℕ) : Exec ReplayWindow DtlsError Unit :=
  Exec.modify fun self =>
    { self with words := self.words.mapIdx fun i word => if start ≤ i then 0 else word }

def windowSlide (n : ℕ) : Exec ReplayWindow DtlsError Unit :=
  if n = 0 then pure ()
  else do
    let self ← Exec.get
    let wordShift := n / 64
    let bitShift := n % 64
    let len := self.words.length
    if wordShift ≥ len then zeroWords 0
    else do
      (if bitShift = 0 then slideWords wordShift len else slideBits wordShift bitShift len)
      zeroWords (len - wordShift)

def slideTo (seq : ℕ) : Exec ReplayWindow DtlsError Unit := do
  let self ← Exec.get
  if self.base + self.window ≤ seq then do
    let newBase := seq + 1 - self.window
    windowSlide (min (newBase - self.base) self.window)
    Exec.modify fun self => { self with base := newBase }
  else pure ()

def testAndSet (seq : ℕ) : Exec ReplayWindow DtlsError Bool := do
  let self ← Exec.get
  let bit := seq - self.base
  let mask := 1#64 <<< (bit % 64)
  let word ← readWord (bit / 64)
  if word &&& mask ≠ 0 then pure false
  else do
    writeWord (bit / 64) (word ||| mask)
    pure true

/-- Check `seq`: `Ok(true)` if the record is new and accepted (updating state),
`Ok(false)` if it is a replay, or an error past the sequence space. -/
def check (seq : ℕ) : Exec ReplayWindow DtlsError Bool := do
  let self ← Exec.get
  if maxSequence < seq then fail (.sequenceOverflow 0)
  else if seq < self.base then pure false
  else do
    slideTo seq
    testAndSet seq

/-! ## The bitmap invariant -/

structure WellFormed (w : ReplayWindow) : Prop where
  size : w.window = 64 * w.words.length
  pos : 0 < w.words.length

def Marked (w : ReplayWindow) (seq : ℕ) : Prop := w.base ≤ seq ∧ bitAt w.words (seq - w.base) = true

theorem wellFormed_new (window : ℕ) : (new window).WellFormed := by
  constructor
  · simp only [new, length_replicate]
    omega
  · simp only [new, length_replicate]
    omega

theorem not_marked_new (window seq : ℕ) : ¬ (new window).Marked seq := by
  rintro ⟨-, h⟩
  simp [new] at h

variable {seq i : ℕ} {w : ReplayWindow}

theorem Marked.lt (hw : w.WellFormed) (h : w.Marked seq) : seq < w.base + w.window := by
  by_contra hge
  have hbit := h.2
  rw [bitAt_of_le (by have := hw.size; omega)] at hbit
  cases hbit

theorem readWord_of_lt (h : i < w.words.length) : readWord i w = (.ok (w.words.getD i 0), w) := by
  unfold readWord
  rw [get_bind, index_of_some (getElem?_eq_getElem h)]
  simp [getD_eq_getElem?_getD, getElem?_eq_getElem h]

theorem writeWord_of_lt (word : BitVec 64) (h : i < w.words.length) :
    writeWord i word w = (.ok (), { w with words := w.words.set i word }) := by
  simp [writeWord, h]

theorem getD_set (words : List (BitVec 64)) (j : ℕ) (word : BitVec 64) (h : i < words.length) :
    (words.set i word).getD j 0 = if i = j then word else words.getD j 0 := by
  rw [getD_eq_getElem?_getD, getElem?_set, getD_eq_getElem?_getD]
  by_cases hij : i = j
  · rw [if_pos hij, if_pos hij, if_pos h]; rfl
  · rw [if_neg hij, if_neg hij]

/-! ## Sliding -/

/-- What the in-place loops of `window_slide` have done after `i` iterations:
the words below `i` hold `f` of the *original* words, the others are untouched. -/
structure Rewritten (w : ReplayWindow) (f : ℕ → BitVec 64) (i : ℕ)
    (w' : ReplayWindow) : Prop where
  frame : w'.window = w.window ∧ w'.base = w.base ∧ w'.words.length = w.words.length
  below : ∀ j < i, w'.words.getD j 0 = f j
  above : ∀ j, i ≤ j → w'.words.getD j 0 = w.words.getD j 0

theorem Rewritten.refl (w : ReplayWindow) (f : ℕ → BitVec 64) : Rewritten w f 0 w :=
  ⟨⟨rfl, rfl, rfl⟩, fun _ h => absurd h (Nat.not_lt_zero _), fun _ _ => rfl⟩

theorem Rewritten.write {w' : ReplayWindow} {f : ℕ → BitVec 64}
    (h : Rewritten w f i w') (hi : i < w.words.length) :
    ∃ w'', writeWord i (f i) w' = (.ok (), w'') ∧ Rewritten w f (i + 1) w'' := by
  obtain ⟨⟨hwin, hbase, hlen⟩, hbelow, habove⟩ := h
  refine ⟨_, writeWord_of_lt _ (hlen ▸ hi), ⟨⟨hwin, hbase, by simpa using hlen⟩, ?_, ?_⟩⟩
  · intro j hj
    rw [getD_set _ _ _ (hlen ▸ hi)]
    by_cases hij : i = j
    · rw [if_pos hij, hij]
    · rw [if_neg hij, hbelow j (by omega)]
  · intro j hj
    rw [getD_set _ _ _ (hlen ▸ hi), if_neg (by omega), habove j (by omega)]

theorem slideWords_spec (w : ReplayWindow) (wordShift : ℕ) (hshift : wordShift < w.words.length) :
    ∃ w', slideWords wordShift w.words.length w = (.ok (), w') ∧
      Rewritten w (fun j => w.words.getD (j + wordShift) 0)
        (w.words.length - wordShift) w' := by
  apply forRange_ok (I := Rewritten w fun j => w.words.getD (j + wordShift) 0)
    (Rewritten.refl w _)
  intro i hi w' hinv
  obtain ⟨w'', hwrite, hinv'⟩ := hinv.write (by omega)
  refine ⟨w'', ?_, hinv'⟩
  -- the word read at `i + word_shift` has not been overwritten yet
  have hread := readWord_of_lt (w := w') (i := i + wordShift)
    (by rw [hinv.frame.2.2]; omega)
  rw [bind_of_ok hread, hinv.above _ (by omega)]
  exact hwrite

theorem slideBits_spec (w : ReplayWindow) (wordShift bitShift : ℕ)
    (hshift : wordShift < w.words.length) :
    ∃ w', slideBits wordShift bitShift w.words.length w = (.ok (), w') ∧
      Rewritten w (fun j => w.words.getD (j + wordShift) 0 >>> bitShift |||
        w.words.getD (j + wordShift + 1) 0 <<< (64 - bitShift))
        (w.words.length - wordShift) w' := by
  let f : ℕ → BitVec 64 := fun j => w.words.getD (j + wordShift) 0 >>> bitShift |||
    w.words.getD (j + wordShift + 1) 0 <<< (64 - bitShift)
  obtain ⟨w₁, hloop, hinv⟩ := forRange_ok
    (b := fun i => do
      let low ← readWord (i + wordShift)
      let high ← readWord (i + wordShift + 1)
      writeWord i (low >>> bitShift ||| high <<< (64 - bitShift)))
    (I := Rewritten w f) (n := w.words.length - wordShift - 1) (Rewritten.refl w f) (by
      intro i hi w' hinv
      obtain ⟨w'', hwrite, hinv'⟩ := hinv.write (by omega)
      refine ⟨w'', ?_, hinv'⟩
      have hlow := readWord_of_lt (w := w') (i := i + wordShift)
        (by rw [hinv.frame.2.2]; omega)
      have hhigh := readWord_of_lt (w := w') (i := i + wordShift + 1)
        (by rw [hinv.frame.2.2]; omega)
      rw [bind_of_ok hlow, bind_of_ok hhigh, hinv.above _ (by omega), hinv.above _ (by omega)]
      exact hwrite)
  -- the last word has no successor to take bits from
  have hlast : f (w.words.length - wordShift - 1) =
      w₁.words.getD (w.words.length - 1) 0 >>> bitShift := by
    have hidx : w.words.length - wordShift - 1 + wordShift = w.words.length - 1 := by omega
    have hout : w.words.getD (w.words.length - 1 + 1) 0 = 0 := by
      rw [getD_eq_getElem?_getD, getElem?_eq_none (by omega)]; rfl
    simp only [f, hidx, hout, hinv.above (w.words.length - 1) (by omega)]
    simp
  obtain ⟨w₂, hwrite, hinv'⟩ := hinv.write (by omega)
  refine ⟨w₂, ?_, ?_⟩
  · unfold slideBits
    rw [bind_of_ok hloop, bind_of_ok (readWord_of_lt (by
      rw [hinv.frame.2.2]; omega)), ← hlast]
    exact hwrite
  · rwa [show w.words.length - wordShift - 1 + 1 = w.words.length - wordShift by omega]
      at hinv'

theorem zeroWords_apply (start : ℕ) (w : ReplayWindow) :
    zeroWords start w = (.ok (), { w with
      words := w.words.mapIdx fun i word => if start ≤ i then 0 else word }) := rfl

theorem getD_zeroWords (words : List (BitVec 64)) (start j : ℕ) :
    (words.mapIdx fun i word => if start ≤ i then 0 else word).getD j 0 =
      if start ≤ j then 0 else words.getD j 0 := by
  rw [getD_eq_getElem?_getD, getElem?_mapIdx, getD_eq_getElem?_getD]
  cases words[j]? with
  | none => simp
  | some word => simp

theorem windowSlide_spec (w : ReplayWindow) (n : ℕ) :
    ∃ w', windowSlide n w = (.ok (), w') ∧ w'.window = w.window ∧ w'.base = w.base ∧
      w'.words.length = w.words.length ∧
      ∀ k, bitAt w'.words k = bitAt w.words (k + n) := by
  unfold windowSlide
  by_cases hn : n = 0
  · subst hn
    exact ⟨w, by simp⟩
  rw [if_neg hn, get_bind]
  by_cases hall : n / 64 ≥ w.words.length
  · -- the jump is past the whole window
    rw [if_pos hall, zeroWords_apply]
    refine ⟨_, rfl, rfl, rfl, by simp, ?_⟩
    intro k
    rw [bitAt_of_le (k := k + n) (by omega), bitAt, getD_zeroWords]
    simp
  rw [if_neg hall]
  -- both in-place loops compute the same function of the original words
  have hmove : ∃ w₁, (if n % 64 = 0 then slideWords (n / 64) w.words.length
        else slideBits (n / 64) (n % 64) w.words.length) w = (.ok (), w₁) ∧
      Rewritten w (fun j => w.words.getD (j + n / 64) 0 >>> (n % 64) |||
        w.words.getD (j + n / 64 + 1) 0 <<< (64 - n % 64))
        (w.words.length - n / 64) w₁ := by
    by_cases hbits : n % 64 = 0
    · obtain ⟨w₁, hrun, hinv⟩ := slideWords_spec w (n / 64) (by omega)
      refine ⟨w₁, by rw [if_pos hbits]; exact hrun, hinv.frame, ?_, hinv.above⟩
      intro j hj
      rw [hinv.below j hj, hbits]
      simp
    · obtain ⟨w₁, hrun, hinv⟩ := slideBits_spec w (n / 64) (n % 64) (by omega)
      exact ⟨w₁, by rw [if_neg hbits]; exact hrun, hinv⟩
  obtain ⟨w₁, hrun, ⟨hwin, hbase, hlen⟩, hbelow, -⟩ := hmove
  rw [bind_of_ok hrun, zeroWords_apply]
  refine ⟨_, rfl, hwin, hbase, by simpa using hlen, ?_⟩
  apply bitAt_shift
  intro i
  rw [getD_zeroWords]
  by_cases hi : w.words.length - n / 64 ≤ i
  · have h₁ : w.words.getD (i + n / 64) 0 = 0 := by
      rw [getD_eq_getElem?_getD, getElem?_eq_none (by omega)]; rfl
    have h₂ : w.words.getD (i + n / 64 + 1) 0 = 0 := by
      rw [getD_eq_getElem?_getD, getElem?_eq_none (by omega)]; rfl
    rw [if_pos hi, h₁, h₂]
    simp
  · rw [if_neg hi, hbelow i (by omega)]

/-! ## One check -/

/-- What one call `check(seq)` does, by the numbers the window remembers: the
base moves up as far as `seq` requires, `seq` is remembered from now on, and the
answer is whether it was inside the window and not remembered before. -/
structure Checked (w : ReplayWindow) (seq : ℕ) (r : Except (Fault DtlsError) Bool)
    (w' : ReplayWindow) : Prop where
  wellFormed : w'.WellFormed
  window : w'.window = w.window
  base : w'.base = max w.base (seq + 1 - w.window)
  marked : ∀ s, w'.Marked s ↔ w'.base ≤ s ∧ (w.Marked s ∨ s = seq)
  result : ∃ fresh, r = .ok fresh ∧ (fresh = true ↔ w.base ≤ seq ∧ ¬ w.Marked seq)
  refused : r = .ok false → w' = w

theorem slideTo_of_lt (h : seq < w.base + w.window) : slideTo seq w = (.ok (), w) := by
  unfold slideTo
  rw [get_bind, if_neg (by omega), pure_apply]

theorem slideTo_spec (hw : w.WellFormed) (seq : ℕ) :
    ∃ w', slideTo seq w = (.ok (), w') ∧ w'.WellFormed ∧ w'.window = w.window ∧
      w'.base = max w.base (seq + 1 - w.window) ∧
      ∀ s, w'.Marked s ↔ w'.base ≤ s ∧ w.Marked s := by
  unfold slideTo
  rw [get_bind]
  by_cases htop : w.base + w.window ≤ seq
  · rw [if_pos htop]
    obtain ⟨w₁, hrun, hwin, hbase, hlen, hbits⟩ := windowSlide_spec w
      (min (seq + 1 - w.window - w.base) w.window)
    have hsize := hw.size
    have hpos := hw.pos
    rw [bind_of_ok hrun]
    refine ⟨_, rfl, ⟨by rw [hwin, hsize, hlen], by rw [hlen]; exact hpos⟩, hwin,
      by simp only; omega, ?_⟩
    intro s
    refine ⟨fun h => ⟨h.1, ?_⟩, fun h => ⟨h.1, ?_⟩⟩
    · have hbit := h.2
      have hle : seq + 1 - w.window ≤ s := h.1
      simp only [hbits] at hbit
      by_cases hcap : seq + 1 - w.window - w.base ≤ w.window
      · rw [min_eq_left hcap] at hbit
        refine ⟨by omega, ?_⟩
        rwa [show s - (seq + 1 - w.window) + (seq + 1 - w.window - w.base) = s - w.base
          by omega] at hbit
      · -- a capped slide leaves nothing marked
        rw [min_eq_right (by omega), bitAt_of_le (by omega)] at hbit
        cases hbit
    · have hlt := h.2.lt hw
      have hle : seq + 1 - w.window ≤ s := h.1
      simp only [hbits]
      rw [min_eq_left (by omega),
        show s - (seq + 1 - w.window) + (seq + 1 - w.window - w.base) = s - w.base by omega]
      exact h.2.2
  · rw [if_neg htop]
    exact ⟨w, rfl, hw, rfl, by omega, fun s => ⟨fun h => ⟨h.1, h⟩, fun h => h.2⟩⟩

theorem testAndSet_spec (hw : w.WellFormed) (seq : ℕ)
    (hbase : w.base ≤ seq) (htop : seq < w.base + w.window) :
    ∃ fresh w', testAndSet seq w = (.ok fresh, w') ∧ w'.WellFormed ∧
      w'.window = w.window ∧ w'.base = w.base ∧
      (∀ s, w'.Marked s ↔ w.Marked s ∨ s = seq) ∧ (fresh = true ↔ ¬ w.Marked seq) ∧
      (fresh = false → w' = w) := by
  have hword : (seq - w.base) / 64 < w.words.length := by have := hw.size; omega
  have hget : w.words[(seq - w.base) / 64]? =
      some (w.words.getD ((seq - w.base) / 64) 0) := by
    simp [getD_eq_getElem?_getD, getElem?_eq_getElem hword]
  have hmask := and_mask_ne_zero_iff (w.words.getD ((seq - w.base) / 64) 0)
    ((seq - w.base) % 64) (Nat.mod_lt _ (by decide))
  have hmarked : w.Marked seq ↔
      w.words.getD ((seq - w.base) / 64) 0 &&& 1#64 <<< ((seq - w.base) % 64) ≠ 0 := by
    rw [hmask, ← bitAt_of_getElem? hget]
    exact ⟨fun h => h.2, fun h => ⟨hbase, h⟩⟩
  unfold testAndSet
  rw [get_bind, bind_of_ok (readWord_of_lt hword)]
  by_cases hseen : w.words.getD ((seq - w.base) / 64) 0 &&&
      1#64 <<< ((seq - w.base) % 64) ≠ 0
  · rw [if_pos hseen]
    have hm := hmarked.mpr hseen
    refine ⟨false, w, rfl, hw, rfl, rfl, fun s => ⟨Or.inl, ?_⟩, by simp [hm], fun _ => rfl⟩
    rintro (h | rfl)
    · exact h
    · exact hm
  · rw [if_neg hseen, bind_of_ok (writeWord_of_lt _ hword)]
    refine ⟨true, _, rfl, ⟨by simpa using hw.size, by simpa using hw.pos⟩, rfl, rfl, ?_,
      by simp [mt hmarked.mp hseen], fun h => by cases h⟩
    intro s
    constructor
    · rintro ⟨hs, hbit⟩
      have hs : w.base ≤ s := hs
      rw [bitAt_set_or _ _ _ hget, Bool.or_eq_true, decide_eq_true_eq] at hbit
      rcases hbit with hbit | hbit
      · exact Or.inl ⟨hs, hbit⟩
      · simp only at hbit
        exact Or.inr (by omega)
    · rintro (⟨hs, hbit⟩ | rfl)
      · exact ⟨hs, by rw [bitAt_set_or _ _ _ hget]; simp [hbit]⟩
      · exact ⟨hbase, by rw [bitAt_set_or _ _ _ hget]; simp⟩

theorem check_spec (hw : w.WellFormed) (hseq : seq ≤ maxSequence) :
    Checked w seq (check seq w).1 (check seq w).2 := by
  unfold check
  rw [get_bind, if_neg (by omega)]
  by_cases hold : seq < w.base
  · rw [if_pos hold]
    refine ⟨hw, rfl, by simp only [pure_apply]; omega, ?_, ⟨false, rfl, by simp; omega⟩,
      fun _ => rfl⟩
    intro s
    refine ⟨fun h => ⟨h.1, Or.inl h⟩, ?_⟩
    rintro ⟨hs, h | rfl⟩
    · exact h
    · exact absurd hold (by simpa using hs)
  · rw [if_neg hold]
    obtain ⟨w₁, hslide, hw₁, hwin₁, hbase₁, hmark₁⟩ := slideTo_spec hw seq
    have hpos : 0 < w.window := by have := hw.size; have := hw.pos; omega
    obtain ⟨fresh, w₂, hset, hw₂, hwin₂, hbase₂, hmark₂, hfresh, hsame⟩ :=
      testAndSet_spec hw₁ seq (by omega) (by omega)
    rw [bind_of_ok hslide, hset]
    refine ⟨hw₂, hwin₂.trans hwin₁, hbase₂.trans hbase₁, ?_, ⟨fresh, rfl, ?_⟩, ?_⟩
    · intro s
      simp only [hmark₂, hmark₁, hbase₂]
      constructor
      · rintro (h | rfl)
        · exact ⟨h.1, Or.inl h.2⟩
        · exact ⟨by omega, Or.inr rfl⟩
      · rintro ⟨hs, h | rfl⟩
        · exact Or.inl ⟨hs, h⟩
        · exact Or.inr rfl
    · rw [hfresh, hmark₁]
      constructor
      · exact fun h => ⟨by omega, fun hm => h ⟨by omega, hm⟩⟩
      · exact fun h hm => h.2 hm.2
    · -- a remembered number lies inside the window, which then did not slide
      rintro ⟨⟩
      have hm : w₁.Marked seq := by
        by_contra hno
        cases hfresh.mpr hno
      rw [slideTo_of_lt (((hmark₁ seq).mp hm).2.lt hw)] at hslide
      cases hslide
      exact hsame rfl

theorem check_of_lt (w : ReplayWindow) (h : maxSequence < seq) :
    check seq w = (.error (.error (.sequenceOverflow 0)), w) := by
  unfold check
  rw [get_bind, if_pos h, fail_apply]

theorem check_wellFormed (hw : w.WellFormed) (seq : ℕ) :
    (check seq w).2.WellFormed ∧ (check seq w).1 ≠ .error .panic := by
  by_cases h : seq ≤ maxSequence
  · have hspec := check_spec hw h
    obtain ⟨fresh, hr, -⟩ := hspec.result
    exact ⟨hspec.wellFormed, by rw [hr]; simp⟩
  · rw [check_of_lt w (by omega)]
    exact ⟨hw, by simp⟩

def Admits (w : ReplayWindow) (seq : ℕ) : Prop := (check seq w).1 = .ok true

theorem admits_iff (hw : w.WellFormed) (seq : ℕ) :
    w.Admits seq ↔ seq ≤ maxSequence ∧ w.base ≤ seq ∧ ¬ w.Marked seq := by
  unfold Admits
  by_cases h : seq ≤ maxSequence
  · obtain ⟨fresh, hr, hfresh⟩ := (check_spec hw h).result
    rw [hr, ← hfresh]
    simp [h]
  · rw [check_of_lt w (by omega)]
    simp [h]

theorem check_of_not_admits (hw : w.WellFormed) (h : ¬ w.Admits seq) : (check seq w).2 = w := by
  by_cases hle : seq ≤ maxSequence
  · have hspec := check_spec hw hle
    obtain ⟨fresh, hr, -⟩ := hspec.result
    refine hspec.refused ?_
    cases fresh with
    | false => exact hr
    | true => exact absurd hr h
  · rw [check_of_lt w (by omega)]

theorem not_admits_check (hw : w.WellFormed) (seq : ℕ) {s : ℕ}
    (h : s = seq ∨ ¬ w.Admits s) : ¬ (check seq w).2.Admits s := by
  by_cases hle : seq ≤ maxSequence
  · have hspec := check_spec hw hle
    rw [admits_iff hw] at h
    rw [admits_iff hspec.wellFormed, hspec.marked, hspec.base]
    rintro ⟨hs, hbase, hnot⟩
    rcases h with rfl | h
    · exact hnot ⟨hbase, Or.inr rfl⟩
    · exact h ⟨hs, by omega, fun hm => hnot ⟨hbase, Or.inl hm⟩⟩
  · rw [check_of_lt w (by omega)]
    rcases h with rfl | h
    · rw [admits_iff hw]
      exact fun hadm => hle hadm.1
    · exact h

/-! ## Runs of checks -/

def run (w : ReplayWindow) (seqs : List ℕ) : ReplayWindow :=
  seqs.foldl (fun w seq => (check seq w).2) w

def Accepted (w : ReplayWindow) (seqs : List ℕ) (seq : ℕ) : Prop :=
  ∃ before after, seqs = before ++ seq :: after ∧ (check seq (w.run before)).1 = .ok true

@[simp] theorem run_concat (w : ReplayWindow) (seqs : List ℕ) (seq : ℕ) :
    w.run (seqs ++ [seq]) = (check seq (w.run seqs)).2 := by
  simp [run]

theorem accepted_concat (w : ReplayWindow) (seqs : List ℕ) (q seq : ℕ) :
    w.Accepted (seqs ++ [q]) seq ↔
      w.Accepted seqs seq ∨ seq = q ∧ (check q (w.run seqs)).1 = .ok true := by
  constructor
  · rintro ⟨before, after, hsplit, hok⟩
    rcases eq_nil_or_concat after with rfl | ⟨after', last, rfl⟩
    · obtain ⟨rfl, h⟩ := append_inj' hsplit rfl
      cases h
      exact Or.inr ⟨rfl, hok⟩
    · rw [concat_eq_append, ← cons_append, ← append_assoc] at hsplit
      obtain ⟨rfl, -⟩ := append_inj' hsplit rfl
      exact Or.inl ⟨before, after', rfl, hok⟩
  · rintro (⟨before, after, rfl, hok⟩ | ⟨rfl, hok⟩)
    · exact ⟨before, after ++ [q], by simp, hok⟩
    · exact ⟨seqs, [], rfl, hok⟩

/-- The invariant of a run: the base is where the largest number checked puts it,
and the window remembers exactly the accepted numbers that are not below it. -/
structure Tracks (w₀ : ReplayWindow) (seqs : List ℕ) (w : ReplayWindow) : Prop where
  wellFormed : w.WellFormed
  window : w.window = w₀.window
  base : ∀ s, w.base ≤ s ↔ ∀ m ∈ seqs, m ≤ maxSequence → m + 1 ≤ s + w₀.window
  marked : ∀ s, w.Marked s ↔ w.base ≤ s ∧ w₀.Accepted seqs s

theorem tracks_nil (window : ℕ) : Tracks (new window) [] (new window) where
  wellFormed := wellFormed_new window
  window := rfl
  base := by simp [new]
  marked := by
    intro s
    refine ⟨fun h => absurd h (not_marked_new window s), ?_⟩
    rintro ⟨-, before, after, h, -⟩
    simp at h

theorem Tracks.check {w₀ : ReplayWindow} {seqs : List ℕ} (h : Tracks w₀ seqs w)
    (hrun : w = w₀.run seqs) (q : ℕ) : Tracks w₀ (seqs ++ [q]) (ReplayWindow.check q w).2 := by
  by_cases hq : q ≤ maxSequence
  · obtain ⟨hw', hwin, hbase, hmark, ⟨fresh, hr, hfresh⟩, -⟩ := check_spec h.wellFormed hq
    have hok : (ReplayWindow.check q (w₀.run seqs)).1 = .ok true ↔
        w.base ≤ q ∧ ¬ w.Marked q := by
      rw [← hrun, hr, ← hfresh]
      simp
    refine ⟨hw', hwin.trans h.window, ?_, ?_⟩
    · intro s
      rw [hbase, max_le_iff, h.base s, h.window]
      simp only [mem_append, mem_singleton]
      constructor
      · rintro ⟨hs, hqs⟩ m (hm | rfl) hle
        · exact hs m hm hle
        · omega
      · intro hs
        exact ⟨fun m hm => hs m (Or.inl hm), by have := hs q (Or.inr rfl) hq; omega⟩
    · intro s
      rw [hmark, accepted_concat, hok]
      have hge : (ReplayWindow.check q w).2.base ≤ s → w.base ≤ s := by
        rw [hbase]; omega
      constructor
      · rintro ⟨hs, hm | rfl⟩
        · exact ⟨hs, Or.inl ((h.marked s).mp hm).2⟩
        · by_cases hm : w.Marked s
          · exact ⟨hs, Or.inl ((h.marked s).mp hm).2⟩
          · exact ⟨hs, Or.inr ⟨rfl, hge hs, hm⟩⟩
      · rintro ⟨hs, hacc | ⟨rfl, -⟩⟩
        · exact ⟨hs, Or.inl ((h.marked s).mpr ⟨hge hs, hacc⟩)⟩
        · exact ⟨hs, Or.inr rfl⟩
  · rw [check_of_lt w (by omega)]
    refine ⟨h.wellFormed, h.window, ?_, ?_⟩
    · intro s
      rw [h.base s]
      simp only [mem_append, mem_singleton]
      refine ⟨?_, fun hs m hm => hs m (Or.inl hm)⟩
      rintro hs m (hm | rfl) hle
      · exact hs m hm hle
      · omega
    · intro s
      rw [h.marked, accepted_concat, check_of_lt _ (show maxSequence < q by omega)]
      simp

theorem tracks_run (window : ℕ) (seqs : List ℕ) :
    Tracks (new window) seqs ((new window).run seqs) := by
  induction seqs using reverseRecOn with
  | nil => exact tracks_nil window
  | append_singleton seqs q ih =>
    rw [run_concat]
    exact ih.check rfl q

/-- **Anti-replay exactness.**  After any sequence of checks of a window of any
size, `check(s)` answers `Ok(true)` exactly when `s` is inside the sequence
space, was never accepted before, and is not more than the window size below the
largest number checked; any other number inside the sequence space gets
`Ok(false)`, and one past it an error, and neither changes anything. -/
theorem check_accepts_iff (window : ℕ) (seqs : List ℕ) (s : ℕ) :
    ((check s ((new window).run seqs)).1 = .ok true ↔
      s ≤ maxSequence ∧ ¬ (new window).Accepted seqs s ∧
        ∀ m ∈ seqs, m ≤ maxSequence → m + 1 ≤ s + (new window).window) ∧
    (s ≤ maxSequence → (check s ((new window).run seqs)).1 ≠ .ok true →
      check s ((new window).run seqs) = (.ok false, (new window).run seqs)) ∧
    (maxSequence < s → check s ((new window).run seqs) =
      (.error (.error (.sequenceOverflow 0)), (new window).run seqs)) := by
  have htracks := tracks_run window seqs
  refine ⟨?_, fun hs hno => ?_, check_of_lt _⟩
  rotate_left
  · obtain ⟨fresh, hr, -⟩ := (check_spec htracks.wellFormed hs).result
    cases fresh with
    | true => exact absurd hr hno
    | false => exact Prod.ext hr (check_of_not_admits htracks.wellFormed hno)
  by_cases hs : s ≤ maxSequence
  · obtain ⟨fresh, hr, hfresh⟩ := (check_spec htracks.wellFormed hs).result
    rw [hr, ← htracks.base s]
    simp only [Except.ok.injEq, hfresh, hs, true_and]
    constructor
    · rintro ⟨hbase, hm⟩
      exact ⟨fun hacc => hm ((htracks.marked s).mpr ⟨hbase, hacc⟩), hbase⟩
    · rintro ⟨hacc, hbase⟩
      exact ⟨hbase, fun hm => hacc ((htracks.marked s).mp hm).2⟩
  · rw [check_of_lt _ (by omega)]
    simp [hs]

/-- On a fresh window of 64, `2^56` was never accepted and nothing larger was
checked, yet the answer is an error. -/
theorem check_refuses_unseen : ¬ ((check (2 ^ 56) ((new 64).run [])).1 = .ok true ↔
      ¬ (new 64).Accepted [] (2 ^ 56) ∧
        ∀ m ∈ ([] : List ℕ), m + 1 ≤ 2 ^ 56 + (new 64).window) := by
  intro h
  have hne : (check (2 ^ 56) ((new 64).run [])).1 ≠ .ok true := by
    rw [check_of_lt _ (by decide)]
    simp
  refine hne (h.mpr ⟨?_, by simp⟩)
  rintro ⟨before, after, hsplit, -⟩
  simp at hsplit

end ReplayWindow

end TptRfc.Dtls
