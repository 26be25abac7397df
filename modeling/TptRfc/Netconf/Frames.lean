import TptRfc.Netconf.Framing

/-!
# NETCONF: frames

The two kinds of frames, as the decoder sees them.

* `IsFrame` and `Faulty` say for bytes, without the decoder, when they are a whole frame and when
  they start with chunks that cannot be one.
* `tryExtract_cases`: the decoder takes a frame off its buffer, fails at a fault or waits.  That
  more bytes change nothing in the first two cases (`stable_tryExtract`) follows from it.
* `deliver_partition_iff`: what depends on the parts in which a stream comes, and what does not.
-/

namespace TptRfc.Netconf

open Lib Access Text List Option

/-! ## The end-of-message sequence -/

variable {needle rest bytes buf line msg d pre p : Bytes} {i pos fuel : ℕ} {cs : List (List Char)}
  {e : Fault NetconfError}

theorem position_cons {b : UInt8} :
    position needle (b :: rest) =
      if needle.isPrefixOf (b :: rest) then some 0 else (position needle rest).map (· + 1) := rfl

/-- What stands before the first occurrence, and that it is the first one there too. -/
theorem exists_of_position (hneedle : needle ≠ []) (h : position needle bytes = some i) :
    ∃ text rest, bytes = (text ++ needle) ++ rest ∧ text.length = i ∧
      position needle (text ++ needle) = some i := by
  induction bytes generalizing i with
  | nil => cases h
  | cons b bytes ih =>
    rw [position_cons] at h
    split at h
    · rename_i hpre
      cases h
      obtain ⟨rest, hrest⟩ := List.isPrefixOf_iff_prefix.mp hpre
      refine ⟨[], rest, hrest.symm, rfl, ?_⟩
      obtain ⟨c, needle, rfl⟩ := exists_cons_of_ne_nil hneedle
      rw [nil_append, position_cons, if_pos (List.isPrefixOf_iff_prefix.mpr (prefix_refl _))]
    · rename_i hpre
      obtain ⟨j, hj, rfl⟩ := map_eq_some_iff.mp h
      obtain ⟨text, rest, rfl, rfl, hpos⟩ := ih hj
      refine ⟨b :: text, rest, rfl, rfl, ?_⟩
      rw [cons_append, position_cons, if_neg, hpos, Option.map_some]
      rw [List.isPrefixOf_iff_prefix] at hpre ⊢
      exact fun h' => hpre (h'.trans (prefix_append (b :: (text ++ needle)) rest))

theorem le_of_position (hneedle : needle ≠ []) (h : position needle bytes = some i) :
    i + needle.length ≤ bytes.length := by
  obtain ⟨text, rest, rfl, rfl, -⟩ := exists_of_position hneedle h
  simp only [length_append]
  omega

theorem position_append (hneedle : needle ≠ []) (more : Bytes)
    (h : position needle bytes = some i) : position needle (bytes ++ more) = some i := by
  induction bytes generalizing i with
  | nil => cases h
  | cons b rest ih =>
    have hfit := le_of_position hneedle h
    rw [position_cons] at h
    rw [cons_append, position_cons]
    split at h
    · rename_i hpre
      have hpre' : needle.isPrefixOf (b :: (rest ++ more)) := isPrefixOf_iff_prefix.mpr
        ((List.isPrefixOf_iff_prefix.mp hpre).trans (prefix_append (b :: rest) more))
      rw [if_pos hpre', h]
    · rename_i hpre
      obtain ⟨j, hj, rfl⟩ := map_eq_some_iff.mp h
      have hlong : needle.length ≤ (b :: rest).length := by omega
      rw [List.isPrefixOf_iff_prefix] at hpre
      rw [if_neg fun h' => hpre ?_, ih hj, Option.map_some]
      exact prefix_of_prefix_length_le (List.isPrefixOf_iff_prefix.mp h')
        (prefix_append (b :: rest) more) hlong

/-- The first end-of-message sequence behind a text without `]]>` is the one behind it: one
that starts in the text would have `]]>` in the text or a bracket in place of the `>`. -/
theorem position_baseEom {text : Bytes} (h : position [0x5d, 0x5d, 0x3e] text = none)
    (rest : Bytes) : position baseEom (text ++ (baseEom ++ rest)) = some text.length := by
  induction text with
  | nil => rfl
  | cons b text ih =>
    rw [position_cons] at h
    split at h
    · cases h
    rename_i hpre
    have hnot : ¬ baseEom.isPrefixOf (b :: (text ++ (baseEom ++ rest))) := by
      rw [List.isPrefixOf_iff_prefix] at hpre ⊢
      rintro ⟨more, hmore⟩
      match text with
      | [] => simp [baseEom] at hmore
      | [c] => simp [baseEom] at hmore
      | c :: d :: text =>
        simp only [baseEom, cons_append, List.cons.injEq] at hmore
        obtain ⟨rfl, rfl, rfl, -⟩ := hmore
        exact hpre ⟨text, rfl⟩
    rw [cons_append, position_cons, if_neg hnot, ih (map_eq_none_iff.mp h)]
    rfl

theorem findSubslice_eq_position {haystack needle : Bytes} (h : needle ≠ []) :
    findSubslice haystack needle = position needle haystack := by
  unfold findSubslice
  split
  · rename_i hshort
    cases hpos : position needle haystack with
    | none => rfl
    | some i =>
      have := le_of_position h hpos
      rcases hshort with hnil | hshort
      · exact absurd hnil h
      · omega
  · rfl

/-! ## Frames with the end-of-message sequence -/

/-- The first byte that is not white space is not the start of a chunk header. -/
def StartsBase (buf : Bytes) : Prop :=
  ∃ b, buf.find? (fun b => !isAsciiWhitespace b) = some b ∧ b ≠ 0x23

theorem StartsBase.append (h : StartsBase buf) (more : Bytes) : StartsBase (buf ++ more) := by
  obtain ⟨b, hb, hne⟩ := h
  exact ⟨b, by rw [find?_append, hb]; rfl, hne⟩

theorem getElem?_of_findIdx? {q : UInt8 → Bool}
    (h : buf.findIdx? q = some i) : buf[i]? = buf.find? q := by
  obtain ⟨-, rfl⟩ := findIdx?_eq_some_iff_findIdx_eq.mp h
  exact find?_eq_getElem?_findIdx.symm

theorem tryExtract_base (h : ∀ b ∈ buf.find? (fun b => !isAsciiWhitespace b), b ≠ 0x23) :
    FrameDecoder.tryExtract buf =
      match position baseEom buf with
      | some eom => (.ok (some (trim (fromUtf8Lossy (buf.take eom)))),
          buf.drop (eom + baseEom.length))
      | none => (.ok none, buf) := by
  unfold FrameDecoder.tryExtract
  cases hidx : buf.findIdx? (fun b => !isAsciiWhitespace b) with
  | none =>
    have hnone : position baseEom buf = none := by
      cases hpos : position baseEom buf with
      | none => rfl
      | some eom =>
        obtain ⟨text, rest, rfl, -, -⟩ := exists_of_position (by decide) hpos
        have hblank := findIdx?_eq_none_iff.mp hidx 0x5d (by simp [baseEom])
        exact absurd hblank (by decide)
    rw [hnone]
  | some i =>
    have hget := getElem?_of_findIdx? hidx
    have hne : buf[i]? ≠ some 0x23 := fun he => h 0x23 (hget ▸ he) rfl
    dsimp only
    have hfind := @findSubslice_eq_position buf baseEom (by decide)
    rw [if_neg hne]
    cases hpos : position baseEom buf with
    | none => rw [hfind.trans hpos]
    | some eom => rw [hfind.trans hpos]

/-! ## Frames of chunks -/

def chunkFrame (cs : List (List Char)) : Bytes := cs.flatMap chunk ++ [0x23, 0x23, 0x0a]

theorem findByteFrom_append (pre part : Bytes) : findByteFrom (pre ++ part) 0x0a pre.length =
    .ok ((part.findIdx? (· == 0x0a)).map (pre.length + ·)) := by
  have hslice := @slice_mid NetconfError pre part []
  rw [append_nil, ← length_append] at hslice
  rw [findByteFrom, hslice]
  rfl

theorem findIdx?_of_notMem {part : Bytes} (h : 0x0a ∉ part) : part.findIdx? (· == 0x0a) = none := by
  rw [findIdx?_eq_none_iff]
  exact fun b hb => beq_false_of_ne (ne_of_mem_of_not_mem hb h)

theorem findByteFrom_line (pre : Bytes) (h : 0x0a ∉ line) (rest : Bytes) :
    findByteFrom (pre ++ (line ++ 0x0a :: rest)) 0x0a pre.length =
      .ok (some (pre.length + line.length)) := by
  rw [findByteFrom_append, findIdx?_append, findIdx?_of_notMem h]
  simp [findIdx?_cons]

theorem findByteFrom_none (pre : Bytes) {part : Bytes} (h : 0x0a ∉ part) :
    findByteFrom (pre ++ part) 0x0a pre.length = .ok none := by
  rw [findByteFrom_append, findIdx?_of_notMem h]
  rfl

theorem newline_notMem_chunkEnd : 0x0a ∉ chunkEnd := by decide

theorem notMem_decimal {b : UInt8} (hb : b.toNat < 48) (n : ℕ) : b ∉ decimal n := by
  intro h
  obtain ⟨c, hc, rfl⟩ := mem_map.mp h
  have := digit_of_mem_toDigits hc
  rw [UInt8.toNat_ofNat', Nat.mod_eq_of_lt (by omega)] at hb
  omega

def headerLine (data : Bytes) : Bytes := 0x23 :: decimal data.length

theorem newline_notMem_headerLine (data : Bytes) : 0x0a ∉ headerLine data := by
  intro h
  rcases mem_cons.mp h with h | h
  · exact absurd h (by decide)
  · exact notMem_decimal (by decide) _ h

theorem chunk_eq (text : List Char) :
    chunk text = headerLine (encode text) ++ 0x0a :: encode text := rfl

/-- One round of the loop, on a line that is complete. -/
theorem chunkLoop_line (hline : 0x0a ∉ line) :
    chunkLoop (pre ++ (line ++ 0x0a :: d)) (fuel + 1) pre.length msg =
      if line = chunkEnd then .ok (some (fromUtf8Lossy msg, pre.length + line.length + 1))
      else if line.head? ≠ some 0x23 then
        .error (.error (.malformedHeader (fromUtf8Lossy line)))
      else (do
        let len ← parseSize line.tail
        let stop ← addUsize (pre.length + line.length + 1) len
        if d.length < len then pure none
        else chunkLoop (pre ++ (line ++ 0x0a :: d)) fuel stop (msg ++ d.take len)) := by
  have hslice := @slice_mid NetconfError pre line (0x0a :: d)
  simp only [chunkLoop, findByteFrom_line pre hline, hslice, ok_bind]
  split_ifs with hend hhead
  · rfl
  · rfl
  · refine bind_congr fun len => ?_
    by_cases hfit : pre.length + line.length + 1 + len ≤ usizeMax
    · rw [addUsize, if_pos hfit, ok_bind, ok_bind]
      have hlen : (pre ++ (line ++ 0x0a :: d)).length =
          pre.length + line.length + 1 + d.length := by
        simp only [length_append, length_cons]
        omega
      by_cases hshort : d.length < len
      · rw [if_pos hshort, if_pos (by omega)]
      · rw [if_neg hshort, if_neg (by omega), @slice_eq _ _ (d.drop len) _ (d.take len) _
          (pre ++ (line ++ [0x0a])) (by simp) (by simp; omega) (by simp; omega)]
        rfl
    · rw [addUsize, if_neg hfit]
      rfl

theorem chunkLoop_wait (h : 0x0a ∉ p) :
    chunkLoop (pre ++ p) (fuel + 1) pre.length msg = .ok none := by
  simp only [chunkLoop, findByteFrom_none pre h, bind, Except.bind]
  rfl

/-- A line that announces a chunk of so many bytes. -/
structure Announces (line : Bytes) (len : ℕ) : Prop where
  newline : 0x0a ∉ line
  hash : line.head? = some 0x23
  size : parseUnsigned usizeMax line.tail = some len

/-- The chunks of a message with the end line, from a position of the buffer on. -/
inductive ChunkFrame : ℕ → Bytes → Bytes → Prop
  | done (pos : ℕ) : ChunkFrame pos (chunkEnd ++ [0x0a]) []
  | chunk {pos : ℕ} {line data frame msg : Bytes} (hline : Announces line data.length)
      (hfit : pos + line.length + 1 + data.length ≤ usizeMax)
      (hframe : ChunkFrame (pos + line.length + 1 + data.length) frame msg) :
      ChunkFrame pos (line ++ 0x0a :: (data ++ frame)) (data ++ msg)

/-- Behind some chunks there is a line that is no header, or one with a size that is no number or
that overflows when it is added to the position. -/
inductive Fails : ℕ → Bytes → Fault NetconfError → Prop
  | header (pos : ℕ) {line : Bytes} (more : Bytes) (hline : 0x0a ∉ line)
      (hhash : line.head? ≠ some 0x23) :
      Fails pos (line ++ 0x0a :: more) (.error (.malformedHeader (fromUtf8Lossy line)))
  | size (pos : ℕ) {line : Bytes} (more : Bytes) (hline : 0x0a ∉ line)
      (hhash : line.head? = some 0x23) (hend : line ≠ chunkEnd)
      (hsize : parseUnsigned usizeMax line.tail = none) :
      Fails pos (line ++ 0x0a :: more) (.error (.invalidSize (fromUtf8Lossy line.tail)))
  | overflow {pos len : ℕ} {line : Bytes} (more : Bytes) (hline : Announces line len)
      (hfit : usizeMax < pos + line.length + 1 + len) : Fails pos (line ++ 0x0a :: more) .panic
  | chunk {pos : ℕ} {line data rest : Bytes} {e : Fault NetconfError}
      (hline : Announces line data.length)
      (hfit : pos + line.length + 1 + data.length ≤ usizeMax)
      (hrest : Fails (pos + line.length + 1 + data.length) rest e) :
      Fails pos (line ++ 0x0a :: (data ++ rest)) e

theorem Announces.ne_chunkEnd {len : ℕ} (h : Announces line len) : line ≠ chunkEnd := by
  rintro rfl
  cases h.size

theorem Fails.append (h : Fails pos d e) (more : Bytes) :
    Fails pos (d ++ more) e := by
  induction h with
  | header pos _ hline hhash =>
    rw [append_assoc]
    exact .header pos _ hline hhash
  | size pos _ hline hhash hend hsize =>
    rw [append_assoc]
    exact .size pos _ hline hhash hend hsize
  | overflow _ hline hfit =>
    rw [append_assoc]
    exact .overflow _ hline hfit
  | chunk hline hfit _ ih =>
    rw [append_assoc, cons_append, append_assoc]
    exact .chunk hline hfit ih

theorem chunkLoop_announced {len : ℕ} (h : Announces line len) :
    chunkLoop (pre ++ (line ++ 0x0a :: d)) (fuel + 1) pre.length msg =
      if usizeMax < pre.length + line.length + 1 + len then .error .panic
      else if d.length < len then .ok none
      else chunkLoop (pre ++ (line ++ 0x0a :: d)) fuel (pre.length + line.length + 1 + len)
        (msg ++ d.take len) := by
  have hsize : parseSize line.tail = .ok len := by rw [parseSize, h.size]
  rw [chunkLoop_line h.newline, if_neg h.ne_chunkEnd, if_neg fun hh => hh h.hash, hsize, ok_bind,
    addUsize]
  by_cases hfit : pre.length + line.length + 1 + len ≤ usizeMax
  · rw [if_pos hfit, if_neg (by omega), ok_bind]
    rfl
  · rw [if_neg hfit, if_pos (by omega)]
    rfl

theorem chunkLoop_chunk {data : Bytes} (h : Announces line data.length)
    (hfit : pre.length + line.length + 1 + data.length ≤ usizeMax) :
    chunkLoop (pre ++ (line ++ 0x0a :: (data ++ d))) (fuel + 1) pre.length msg =
      chunkLoop ((pre ++ (line ++ 0x0a :: data)) ++ d) fuel
        (pre ++ (line ++ 0x0a :: data)).length (msg ++ data) := by
  rw [chunkLoop_announced h, if_neg (by omega), if_neg (by rw [length_append]; omega), take_left]
  simp only [append_assoc, cons_append, length_append, length_cons]
  congr 1
  omega

theorem length_chunk (line data : Bytes) :
    (pre ++ (line ++ 0x0a :: data)).length = pre.length + line.length + 1 + data.length := by
  simp only [length_append, length_cons]
  omega

theorem chunkLoop_frame {frame data : Bytes} (h : ChunkFrame pos frame data)
    (hpos : pre.length = pos) (hfuel : frame.length < fuel) :
    chunkLoop (pre ++ (frame ++ rest)) fuel pre.length msg =
      .ok (some (fromUtf8Lossy (msg ++ data), pre.length + frame.length)) := by
  obtain ⟨fuel, rfl⟩ := Nat.exists_eq_succ_of_ne_zero (Nat.ne_zero_of_lt hfuel)
  induction h generalizing pre msg fuel with
  | done pos =>
    rw [append_nil, append_assoc]
    exact (chunkLoop_line newline_notMem_chunkEnd).trans (if_pos rfl)
  | @chunk pos line data frame more hline hfit hframe ih =>
    subst hpos
    simp only [length_append, length_cons] at hfuel
    obtain ⟨fuel, rfl⟩ := Nat.exists_eq_succ_of_ne_zero (by omega : fuel ≠ 0)
    rw [append_assoc, cons_append, append_assoc, chunkLoop_chunk hline hfit,
      ih (length_chunk line data) fuel (by omega), append_assoc, length_chunk]
    simp only [length_append, length_cons]
    congr 3
    omega

theorem chunkLoop_fails (h : Fails pos d e)
    (hpos : pre.length = pos) (hfuel : d.length < fuel) :
    chunkLoop (pre ++ d) fuel pre.length msg = .error e := by
  obtain ⟨fuel, rfl⟩ := Nat.exists_eq_succ_of_ne_zero (Nat.ne_zero_of_lt hfuel)
  induction h generalizing pre msg fuel with
  | header pos more hline hhash =>
    rw [chunkLoop_line hline, if_neg (by rintro rfl; exact hhash rfl), if_pos hhash]
  | size pos more hline hhash hend hsize =>
    rw [chunkLoop_line hline, if_neg hend, if_neg fun h => h hhash, parseSize, hsize]
    rfl
  | overflow more hline hfit =>
    rw [chunkLoop_announced hline, if_pos (hpos ▸ hfit)]
  | @chunk pos line data rest e hline hfit hrest ih =>
    subst hpos
    simp only [length_append, length_cons] at hfuel
    obtain ⟨fuel, rfl⟩ := Nat.exists_eq_succ_of_ne_zero (by omega : fuel ≠ 0)
    rw [chunkLoop_chunk hline hfit, ih (length_chunk line data) fuel (by omega)]

/-- The loop waits for more, or it reads chunks to their end, or it fails. -/
theorem chunkLoop_cases (hfuel : d.length < fuel) :
    chunkLoop (pre ++ d) fuel pre.length msg = .ok none ∨
      (∃ frame rest data, d = frame ++ rest ∧ ChunkFrame pre.length frame data) ∨
        ∃ e, Fails pre.length d e := by
  induction fuel generalizing pre d msg with
  | zero => omega
  | succ fuel ih =>
    by_cases hmem : 0x0a ∈ d
    swap
    · exact .inl (chunkLoop_wait hmem)
    obtain ⟨line, d, rfl, hline⟩ := eq_append_cons_of_mem hmem
    by_cases hend : line = chunkEnd
    · subst hend
      exact .inr (.inl ⟨_, d, [], by simp, .done _⟩)
    by_cases hhash : line.head? = some 0x23
    swap
    · exact .inr (.inr ⟨_, .header _ _ hline hhash⟩)
    cases hsize : parseUnsigned usizeMax line.tail with
    | none => exact .inr (.inr ⟨_, .size _ _ hline hhash hend hsize⟩)
    | some len =>
      have hannounces : Announces line len := ⟨hline, hhash, hsize⟩
      by_cases hfit : pre.length + line.length + 1 + len ≤ usizeMax
      swap
      · exact .inr (.inr ⟨_, .overflow _ hannounces (by omega)⟩)
      by_cases hshort : d.length < len
      · rw [chunkLoop_announced hannounces, if_neg (by omega), if_pos hshort]
        exact .inl rfl
      obtain ⟨data, d, rfl, rfl⟩ : ∃ data d', d = data ++ d' ∧ data.length = len :=
        ⟨d.take len, d.drop len, (take_append_drop len d).symm, length_take_of_le (by omega)⟩
      rw [chunkLoop_chunk hannounces hfit]
      simp only [length_append, length_cons] at hfuel
      rcases @ih (msg ++ data) d (pre ++ (line ++ 0x0a :: data)) (by omega)
        with hwait | ⟨frame, rest, more, rfl, hframe⟩ | ⟨e, he⟩
      · exact .inl hwait
      · rw [length_chunk] at hframe
        exact .inr (.inl ⟨_, rest, _, by simp, .chunk hannounces hfit hframe⟩)
      · rw [length_chunk] at he
        exact .inr (.inr ⟨e, .chunk hannounces hfit he⟩)

/-! ## What the decoder takes off its buffer -/

/-- A whole frame and its message. -/
inductive IsFrame : Bytes → String → Prop
  | base (text : Bytes)
      (hstart : ∀ b ∈ (text ++ baseEom).find? (fun b => !isAsciiWhitespace b), b ≠ 0x23)
      (hfirst : position baseEom (text ++ baseEom) = some text.length) :
      IsFrame (text ++ baseEom) (trim (fromUtf8Lossy text))
  | chunked {space frame msg : Bytes} (hspace : ∀ b ∈ space, isAsciiWhitespace b)
      (hhash : frame.head? = some 0x23) (hframe : ChunkFrame space.length frame msg) :
      IsFrame (space ++ frame) (fromUtf8Lossy msg)

/-- The first frame of the bytes cannot be read. -/
def Faulty (buf : Bytes) (e : Fault NetconfError) : Prop :=
  ∃ space d, buf = space ++ d ∧ (∀ b ∈ space, isAsciiWhitespace b) ∧ d.head? = some 0x23 ∧
    Fails space.length d e

theorem tryExtract_chunked {space : Bytes} (hspace : ∀ b ∈ space, isAsciiWhitespace b)
    (hhash : d.head? = some 0x23) : FrameDecoder.tryExtract (space ++ d) =
      match chunkLoop (space ++ d) ((space ++ d).length + 1) space.length [] with
      | .ok (some (msg, consumed)) => (.ok (some msg), (space ++ d).drop consumed)
      | .ok none => (.ok none, space ++ d)
      | .error e => (.error e, space ++ d) := by
  obtain ⟨d, rfl⟩ := head?_eq_some_iff.mp hhash
  have hidx : (space ++ 0x23 :: d).findIdx? (fun b => !isAsciiWhitespace b) =
      some space.length := by
    have hnone : space.findIdx? (fun b => !isAsciiWhitespace b) = none :=
      findIdx?_eq_none_iff.mpr fun b hb => by simp [hspace b hb]
    rw [findIdx?_append, hnone, findIdx?_cons, if_pos (by decide)]
    simp
  simp only [FrameDecoder.tryExtract, hidx]
  rw [if_pos (by simp)]
  rfl

theorem tryExtract_frame {frame : Bytes} {m : String} (h : IsFrame frame m) (more : Bytes) :
    FrameDecoder.tryExtract (frame ++ more) = (.ok (some m), more) := by
  cases h with
  | base text hstart hfirst =>
    have hfind : ((text ++ baseEom) ++ more).find? (fun b => !isAsciiWhitespace b) =
        (text ++ baseEom).find? (fun b => !isAsciiWhitespace b) := by
      rw [find?_append, Option.or_of_isSome]
      rw [find?_isSome]
      exact ⟨0x5d, by simp [baseEom], by decide⟩
    rw [tryExtract_base (by rwa [hfind]), position_append (by decide) more hfirst]
    dsimp only
    rw [append_assoc, take_left, ← append_assoc, ← length_append, drop_left]
  | @chunked space frame msg hspace hhash hframe =>
    rw [append_assoc, tryExtract_chunked hspace (by rw [head?_append, hhash]; rfl),
      chunkLoop_frame hframe rfl (by simp only [length_append]; omega)]
    dsimp only
    rw [← append_assoc, ← length_append, drop_left, nil_append]

theorem tryExtract_faulty (h : Faulty buf e) :
    FrameDecoder.tryExtract buf = (.error e, buf) := by
  obtain ⟨space, d, rfl, hspace, hhash, hfails⟩ := h
  rw [tryExtract_chunked hspace hhash,
    chunkLoop_fails hfails rfl (by rw [length_append]; omega)]

theorem Faulty.append (h : Faulty buf e) (more : Bytes) :
    Faulty (buf ++ more) e := by
  obtain ⟨space, d, rfl, hspace, hhash, hfails⟩ := h
  exact ⟨space, d ++ more, append_assoc .., hspace, by rw [head?_append, hhash]; rfl,
    hfails.append more⟩

/-- The decoder waits, or there is a frame on its buffer, or a fault. -/
theorem tryExtract_cases (buf : Bytes) : FrameDecoder.tryExtract buf = (.ok none, buf) ∨
    (∃ frame rest m, buf = frame ++ rest ∧ IsFrame frame m) ∨ ∃ e, Faulty buf e := by
  by_cases hbase : ∀ b ∈ buf.find? (fun b => !isAsciiWhitespace b), b ≠ 0x23
  · rw [tryExtract_base hbase]
    cases hpos : position baseEom buf with
    | none => exact .inl rfl
    | some eom =>
      obtain ⟨text, rest, rfl, rfl, hfirst⟩ := exists_of_position (by decide) hpos
      refine .inr (.inl ⟨_, rest, _, rfl, .base text (fun b hb => hbase b ?_) hfirst⟩)
      rw [find?_append, Option.mem_def.mp hb]
      rfl
  · push Not at hbase
    obtain ⟨b, hb, rfl⟩ := hbase
    obtain ⟨-, space, d, rfl, hspace⟩ := find?_eq_some_iff_append.mp hb
    have hspace' : ∀ b ∈ space, isAsciiWhitespace b := fun b hb => by simpa using hspace b hb
    rcases @chunkLoop_cases [] (0x23 :: d) space ((space ++ 0x23 :: d).length + 1)
      (by rw [length_append]; omega) with hwait | ⟨frame, rest, msg, heq, hframe⟩ | ⟨e, he⟩
    · rw [tryExtract_chunked hspace' rfl, hwait]
      exact .inl rfl
    · have hhash : frame.head? = some 0x23 := by
        cases hframe with
        | done => rfl
        | chunk hline => rw [head?_append, hline.hash]; rfl
      exact .inr (.inl ⟨space ++ frame, rest, _, by rw [heq, append_assoc],
        .chunked hspace' hhash hframe⟩)
    · exact .inr (.inr ⟨e, space, _, rfl, hspace', rfl, he⟩)

theorem IsFrame.ne_nil {m : String} (h : IsFrame buf m) : buf ≠ [] := by
  cases h with
  | base text => simp [baseEom]
  | @chunked space frame msg _ hhash _ =>
    rintro hnil
    rw [(append_eq_nil_iff.mp hnil).2] at hhash
    cases hhash

theorem isFrame_of_tryExtract {m : String}
    (h : FrameDecoder.tryExtract buf = (.ok (some m), rest)) :
    ∃ frame, buf = frame ++ rest ∧ IsFrame frame m := by
  obtain hwait | ⟨frame, rest', m', rfl, hframe⟩ | ⟨e, he⟩ := tryExtract_cases buf
  · cases h.symm.trans hwait
  · cases h.symm.trans (tryExtract_frame hframe rest')
    exact ⟨frame, rfl, hframe⟩
  · cases h.symm.trans (tryExtract_faulty he)

theorem faulty_of_tryExtract (h : FrameDecoder.tryExtract buf = (.error e, rest)) :
    Faulty buf e := by
  obtain hwait | ⟨frame, rest', m', rfl, hframe⟩ | ⟨e', he⟩ := tryExtract_cases buf
  · cases h.symm.trans hwait
  · cases h.symm.trans (tryExtract_frame hframe rest')
  · cases h.symm.trans (tryExtract_faulty he)
    exact he

theorem stable_tryExtract : Framing.Stable FrameDecoder.tryExtract where
  wait buf rest h := by
    obtain hwait | ⟨frame, rest', m', rfl, hframe⟩ | ⟨e', he⟩ := tryExtract_cases buf
    · exact (Prod.ext_iff.mp (h.symm.trans hwait)).2
    · cases h.symm.trans (tryExtract_frame hframe rest')
    · cases h.symm.trans (tryExtract_faulty he)
  more buf r rest h hne data := by
    match r with
    | .ok none => exact absurd rfl hne
    | .ok (some m) =>
      obtain ⟨frame, rfl, hframe⟩ := isFrame_of_tryExtract h
      rw [append_assoc, tryExtract_frame hframe]
    | .error e =>
      have hfaulty := faulty_of_tryExtract h
      cases h.symm.trans (tryExtract_faulty hfaulty)
      exact tryExtract_faulty (hfaulty.append data)
  shrinks buf m rest h := by
    obtain ⟨frame, rfl, hframe⟩ := isFrame_of_tryExtract h
    have := length_pos_iff.mpr hframe.ne_nil
    rw [length_append]
    omega

/-! ## The frames that are sent -/

theorem tryExtract_text {text : List Char} (hstart : StartsBase (encode text))
    (hplain : position [0x5d, 0x5d, 0x3e] (encode text) = none) :
    FrameDecoder.tryExtract (encode text ++ baseEom) =
      (.ok (some (trim (String.ofList text))), []) := by
  obtain ⟨b, hb, hne⟩ := hstart.append baseEom
  have hpos := position_baseEom hplain []
  rw [append_nil] at hpos
  have hframe := tryExtract_frame (.base (encode text) (fun c hc => ?_) hpos) []
  · rwa [append_nil, fromUtf8Lossy, lossy_encode] at hframe
  · rw [hb] at hc
    cases hc
    exact hne

theorem announces_headerLine {data : Bytes} (h : data.length ≤ usizeMax) :
    Announces (headerLine data) data.length :=
  ⟨newline_notMem_headerLine data, rfl, parseUnsigned_decimal h⟩

theorem chunkFrame_chunks (cs : List (List Char)) {pos : ℕ}
    (hfit : pos + (chunkFrame cs).length ≤ usizeMax) :
    ChunkFrame pos (chunkFrame cs) (encode cs.flatten) := by
  induction cs generalizing pos with
  | nil => exact .done pos
  | cons c cs ih =>
    have heq : chunkFrame (c :: cs) =
        headerLine (encode c) ++ 0x0a :: (encode c ++ chunkFrame cs) := by
      simp only [chunkFrame, flatMap_cons, chunk_eq, append_assoc, cons_append]
    rw [heq] at hfit ⊢
    simp only [length_append, length_cons] at hfit
    rw [flatten_cons, encode_append]
    exact .chunk (announces_headerLine (by omega)) (by omega) (ih (by omega))

theorem tryExtract_chunks (hfit : (chunkFrame cs).length ≤ usizeMax) :
    FrameDecoder.tryExtract (chunkFrame cs) = (.ok (some (String.ofList cs.flatten)), []) := by
  have hhash : (chunkFrame cs).head? = some 0x23 := by
    cases cs <;> rfl
  have hframe := tryExtract_frame (@IsFrame.chunked [] _ _ nofun hhash
    (chunkFrame_chunks cs (by simpa using hfit))) []
  rwa [append_nil, nil_append, fromUtf8Lossy, lossy_encode] at hframe

/-! ## Streams in any parts -/

/-- **A stream in any parts.**  All partitions of a stream end in the same way.  They deliver the
same messages exactly if no faulty frame stands behind a whole one, since the push that meets the
fault drops the messages that it has read before.  None panics exactly if no frame has a chunk
size that overflows. -/
theorem deliver_partition_iff (stream : Bytes) :
    (∀ parts parts' : List Bytes, parts.flatten = stream → parts'.flatten = stream →
      (Framing.deliver FrameDecoder.push parts FrameDecoder.new).2 =
        (Framing.deliver FrameDecoder.push parts' FrameDecoder.new).2) ∧
    ((∀ parts parts' : List Bytes, parts.flatten = stream → parts'.flatten = stream →
        (Framing.deliver FrameDecoder.push parts FrameDecoder.new).1 =
          (Framing.deliver FrameDecoder.push parts' FrameDecoder.new).1) ↔
      ∀ frames rest e, stream = Framing.stream frames ++ rest →
        (∀ f ∈ frames, IsFrame f.1 f.2) → Faulty rest e → frames = []) ∧
    ((∀ parts : List Bytes, parts.flatten = stream →
        (Framing.deliver FrameDecoder.push parts FrameDecoder.new).2 ≠ .error .panic) ↔
      ∀ frames rest, stream = Framing.stream frames ++ rest →
        (∀ f ∈ frames, IsFrame f.1 f.2) → ¬ Faulty rest .panic) := by
  have hpush : FrameDecoder.push = Framing.push FrameDecoder.tryExtract := rfl
  have hnew : FrameDecoder.tryExtract [] = (.ok none, []) := rfl
  have hwhole : ∀ f m, FrameDecoder.tryExtract f = (.ok (some m), []) ↔ IsFrame f m := by
    intro f m
    constructor
    · intro h
      obtain ⟨frame, rfl, hframe⟩ := isFrame_of_tryExtract h
      rwa [append_nil]
    · intro h
      simpa using tryExtract_frame h []
  have hfault : ∀ rest e, (∃ r, FrameDecoder.tryExtract rest = (.error e, r)) ↔ Faulty rest e :=
    fun rest e => ⟨fun ⟨r, h⟩ => faulty_of_tryExtract h, fun h => ⟨_, tryExtract_faulty h⟩⟩
  have hframe : ∀ buf m rest, FrameDecoder.tryExtract buf = (.ok (some m), rest) →
      ∃ f, buf = f ++ rest ∧ FrameDecoder.tryExtract f = (.ok (some m), []) := by
    intro buf m rest h
    obtain ⟨frame, heq, hframe⟩ := isFrame_of_tryExtract h
    exact ⟨frame, heq, (hwhole frame m).mpr hframe⟩
  rw [hpush, FrameDecoder.new]
  refine ⟨fun parts parts' h h' => ?_, ?_, ?_⟩
  · rw [Framing.deliver_snd stable_tryExtract hnew, Framing.deliver_snd stable_tryExtract hnew, h,
      h']
  · rw [Framing.deliver_fst_congr_iff stable_tryExtract hnew hframe]
    simp only [hwhole, ← hfault, forall_exists_index]
    exact ⟨fun h frames rest e heq hf r => h frames rest e r heq hf,
      fun h frames rest e r heq hf => h frames rest e heq hf r⟩
  · simp only [ne_eq, Framing.deliver_fails_iff stable_tryExtract hnew hframe, hwhole, ← hfault]
    constructor
    · rintro h frames rest rfl hf ⟨r, hr⟩
      have hflat := flatten_singleton (l := Framing.stream frames ++ rest)
      exact h _ hflat ⟨frames, rest, r, hflat, hf, hr⟩
    · rintro h parts rfl ⟨frames, rest, r, heq, hf, hr⟩
      exact h frames rest heq hf ⟨r, hr⟩

/-- A message is lost if an error comes in the same push, and a chunk size is a panic. -/
theorem message_lost_and_size_panics :
    (Framing.deliver FrameDecoder.push [encode "a]]>]]>".toList, encode "#x\n".toList] []).1 =
        ["a"] ∧
      (Framing.deliver FrameDecoder.push [encode "a]]>]]>#x\n".toList] []).1 = [] ∧
      (Framing.deliver FrameDecoder.push [encode "#18446744073709551615\n".toList] []).2 =
        .error .panic :=
  ⟨by decide +kernel, by decide +kernel, rfl⟩

end TptRfc.Netconf
