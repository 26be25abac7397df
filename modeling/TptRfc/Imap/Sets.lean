import TptRfc.Lib.Text

/-!
# IMAP: sequence sets and UID sets

`command.rs` reads `*` as the largest 32-bit number.  `resolve_sequence` replaces it by the number
of messages, `in_set`, which `resolve_uid` and the search keys use, does not.
-/

namespace TptRfc.Imap

open Lib Text List

def u32Max : ℕ := 2 ^ 32 - 1

abbrev RangeSet := List (ℕ × ℕ)

section Read

variable {α β : Type} (num : List Char → Option α)

def readRange (part : List Char) : Option (α × α) :=
  if ':' ∈ part then do
    let a ← num (part.takeWhile (· ≠ ':'))
    let b ← num (part.dropWhile (· ≠ ':')).tail
    pure (a, b)
  else do
    let n ← num part
    pure (n, n)

def readSet (s : List Char) : Option (List (α × α)) := do
  let out ← (((s.splitOn ',').map (trimBy isWhitespace)).filter (· ≠ [])).mapM (readRange num)
  if out.isEmpty then none else pure out

end Read

def parseSeqNum (s : List Char) : Option ℕ :=
  if s = ['*'] then some u32Max else parseUnsigned u32Max (encode s)

/-- `parse_seqset` of an atom. -/
def parseSeqset (s : List Char) : Option RangeSet := readSet parseSeqNum s

def resolveSequence (set : RangeSet) (count : ℕ) : List ℕ :=
  ((set.flatMap fun (a, b) =>
    let start := if a = u32Max then count else a
    let stop := if b = u32Max then count else b
    if start = 0 ∨ stop = 0 ∨ count = 0 then []
    else range' (min start stop) (min (max start stop) count + 1 - min start stop)).mergeSort
      (· ≤ ·)).dedup

def inSet (set : RangeSet) (value : ℕ) : Bool :=
  set.any fun (a, b) => min a b ≤ value ∧ value ≤ max a b

def resolveUid (set : RangeSet) (uids : List ℕ) : List ℕ := uids.filter (inSet set)

/-! ## The meaning of a set -/

inductive SeqNum where
  | star
  | num (n : ℕ) (h : n ≤ u32Max)

def SeqNum.read (s : List Char) : Option SeqNum :=
  if s = ['*'] then some .star
  else
    match h : parseUnsigned u32Max (encode s) with
    | some n => some (.num n (le_of_parseUnsigned h))
    | none => none

def SeqNum.code : SeqNum → ℕ
  | .star => u32Max
  | .num n _ => n

/-- The number that is meant, where `last` is the one of the last message. -/
def SeqNum.value (last : ℕ) : SeqNum → ℕ
  | .star => last
  | .num n _ => n

def Within (last : ℕ) (r : SeqNum × SeqNum) (x : ℕ) : Prop :=
  min (r.1.value last) (r.2.value last) ≤ x ∧ x ≤ max (r.1.value last) (r.2.value last)

def HasStar (r : SeqNum × SeqNum) : Prop := r.1 = .star ∨ r.2 = .star

/-- Neither 0 nor the number that `*` is read as. -/
def SeqNum.Plain : SeqNum → Prop
  | .star => True
  | .num n _ => n ≠ 0 ∧ n ≠ u32Max

theorem readSet_map {α β : Type} {num : List Char → Option α} {num' : List Char → Option β}
    {f : α → β} (h : ∀ s, num' s = (num s).map f) (s : List Char) :
    readSet num' s = (readSet num s).map (map (Prod.map f f)) := by
  have hrange : ∀ part, readRange num' part = (readRange num part).map (Prod.map f f) := by
    intro part
    unfold readRange
    split_ifs <;> simp only [h]
    · cases num (part.takeWhile (· ≠ ':')) <;> cases num (part.dropWhile (· ≠ ':')).tail <;> rfl
    · cases num part <;> rfl
  have hmap : ∀ parts : List (List Char), parts.mapM (readRange num') =
      (parts.mapM (readRange num)).map (map (Prod.map f f)) := by
    intro parts
    induction parts with
    | nil => rfl
    | cons part parts ih =>
      rw [mapM_cons, mapM_cons, ih, hrange]
      cases readRange num part <;> cases parts.mapM (readRange num) <;> rfl
  unfold readSet
  rw [hmap]
  cases mapM (readRange num) _ with
  | none => rfl
  | some out => cases out <;> rfl

theorem parseSeqNum_eq (s : List Char) : parseSeqNum s = (SeqNum.read s).map SeqNum.code := by
  unfold parseSeqNum SeqNum.read
  split_ifs
  · rfl
  · split <;> simp_all [SeqNum.code]

theorem within_of_code {last x : ℕ} {r : SeqNum × SeqNum} (hx : x ≤ last) (hlast : last ≤ u32Max)
    (h : min r.1.code r.2.code ≤ x ∧ x ≤ max r.1.code r.2.code) : Within last r x := by
  obtain ⟨_ | ⟨n, hn⟩, _ | ⟨m, hm⟩⟩ := r <;>
    simp only [SeqNum.code, Within, SeqNum.value] at h ⊢ <;> omega

theorem code_of_within {last x : ℕ} {r : SeqNum × SeqNum} (hx : x ≤ last) (hlast : last ≤ u32Max)
    (h : Within last r x) :
    (min r.1.code r.2.code ≤ x ∧ x ≤ max r.1.code r.2.code) ∨ (x = last ∧ HasStar r) := by
  obtain ⟨_ | ⟨n, hn⟩, _ | ⟨m, hm⟩⟩ := r <;>
    simp [SeqNum.code, Within, SeqNum.value, HasStar] at h ⊢ <;> omega

theorem within_last {last : ℕ} {r : SeqNum × SeqNum} (h : HasStar r) : Within last r last := by
  obtain ⟨_ | ⟨n, hn⟩, _ | ⟨m, hm⟩⟩ := r <;> simp [Within, SeqNum.value, HasStar] at h ⊢

def codes (ranges : List (SeqNum × SeqNum)) : RangeSet :=
  ranges.map (Prod.map SeqNum.code SeqNum.code)

theorem inSet_iff {set : RangeSet} {x : ℕ} :
    inSet set x = true ↔ ∃ r ∈ set, min r.1 r.2 ≤ x ∧ x ≤ max r.1 r.2 := by
  simp only [inSet, any_eq_true, decide_eq_true_eq]

theorem inSet_codes {ranges : List (SeqNum × SeqNum)} {x : ℕ} : inSet (codes ranges) x = true ↔
    ∃ r ∈ ranges, min r.1.code r.2.code ≤ x ∧ x ≤ max r.1.code r.2.code := by
  simp only [inSet_iff, codes, mem_map, exists_exists_and_eq_and, Prod.map_fst, Prod.map_snd]

/-- Of `numbers`, those in the ranges are selected. -/
def Selects (ranges : List (SeqNum × SeqNum)) (last : ℕ) (numbers selected : List ℕ) : Prop :=
  ∀ x, x ∈ selected ↔ x ∈ numbers ∧ ∃ r ∈ ranges, Within last r x

/-- Only at the last message can the two readings of `*` differ. -/
theorem resolveUid_iff {ranges : List (SeqNum × SeqNum)} {uids : List ℕ} {last : ℕ}
    (hsorted : uids.Pairwise (· < ·)) (hmem : last ∈ uids.getLast?) (hlast : last ≤ u32Max) :
    Selects ranges last uids (resolveUid (codes ranges) uids) ↔
      (∀ r ∈ ranges, ¬ HasStar r) ∨ inSet (codes ranges) last = true := by
  have hle : ∀ x ∈ uids, x ≤ last := by
    obtain ⟨init, rfl⟩ := getLast?_eq_some_iff.mp hmem
    intro x hx
    rcases mem_append.mp hx with hx | hx
    · exact ((pairwise_append.mp hsorted).2.2 x hx last (by simp)).le
    · exact (mem_singleton.mp hx).le
  simp only [Selects, resolveUid, mem_filter, inSet_codes, and_congr_right_iff]
  constructor
  · intro h
    by_cases hstar : ∀ r ∈ ranges, ¬ HasStar r
    · exact .inl hstar
    · push Not at hstar
      obtain ⟨r, hr, hstar⟩ := hstar
      exact .inr ((h last (mem_of_getLast? hmem)).mpr ⟨r, hr, within_last hstar⟩)
  · rintro h x hx
    refine ⟨fun ⟨r, hr, hcode⟩ => ⟨r, hr, within_of_code (hle x hx) hlast hcode⟩, ?_⟩
    rintro ⟨r, hr, hwithin⟩
    rcases code_of_within (hle x hx) hlast hwithin with hcode | ⟨rfl, hstar⟩
    · exact ⟨r, hr, hcode⟩
    · exact h.resolve_left fun hno => hno r hr hstar

theorem selects_resolveSequence {ranges : List (SeqNum × SeqNum)} {n : ℕ} (hn : 0 < n)
    (hplain : ∀ r ∈ ranges, r.1.Plain ∧ r.2.Plain) :
    Selects ranges n (range' 1 n) (resolveSequence (codes ranges) n) := by
  intro x
  have hrange : ∀ a : SeqNum, a.Plain → (if a.code = u32Max then n else a.code) = a.value n ∧
      a.value n ≠ 0 := by
    rintro (_ | ⟨m, hm⟩) ha
    · exact ⟨if_pos rfl, hn.ne'⟩
    · exact ⟨if_neg ha.2, ha.1⟩
  simp only [resolveSequence, mem_dedup, mem_mergeSort, mem_flatMap, codes, mem_map,
    exists_exists_and_eq_and, Prod.map_fst, Prod.map_snd]
  rw [← exists_and_left]
  refine exists_congr fun r => ?_
  rw [and_left_comm]
  refine and_congr_right fun hr => ?_
  obtain ⟨h₁, h₁'⟩ := hrange r.1 (hplain r hr).1
  obtain ⟨h₂, h₂'⟩ := hrange r.2 (hplain r hr).2
  rw [h₁, h₂, if_neg (by omega), mem_range'_1, mem_range'_1, Within]
  omega

/-- **Sets of numbers.** A UID set, or a sequence set of a search, selects the right messages
exactly if it has no `*` or the last message is in it as it stands; a sequence set does where it
names neither 0 nor 4294967295. -/
theorem resolve_iff {s : List Char} {set : RangeSet} (h : parseSeqset s = some set) :
    ∃ ranges, readSet SeqNum.read s = some ranges ∧
      (∀ uids last, uids.Pairwise (· < ·) → last ∈ uids.getLast? → last ≤ u32Max →
        (Selects ranges last uids (resolveUid set uids) ↔
          (∀ r ∈ ranges, ¬ HasStar r) ∨ ∃ r ∈ set, min r.1 r.2 ≤ last ∧ last ≤ max r.1 r.2)) ∧
      ∀ n, 0 < n → (∀ r ∈ ranges, r.1.Plain ∧ r.2.Plain) →
        Selects ranges n (range' 1 n) (resolveSequence set n) := by
  rw [parseSeqset, readSet_map parseSeqNum_eq] at h
  obtain ⟨ranges, hranges, rfl⟩ := Option.map_eq_some_iff.mp h
  exact ⟨ranges, hranges,
    fun _ _ hsorted hmem hlast => (resolveUid_iff hsorted hmem hlast).trans
      (or_congr_right inSet_iff),
    fun _ hn hplain => selects_resolveSequence hn hplain⟩

theorem resolve_whole_mailbox : ∃ ranges, readSet SeqNum.read "1:*".toList = some ranges ∧
    Selects ranges 9 [3, 9] (resolveUid [(1, u32Max)] [3, 9]) := by
  obtain ⟨ranges, hranges, huid, -⟩ := @resolve_iff "1:*".toList [(1, u32Max)] (by decide +kernel)
  exact ⟨ranges, hranges, (huid [3, 9] 9 (by decide) rfl (by decide)).mpr (.inr (by decide))⟩

/-- `*` selects no UID and `10:*` is empty where the last UID is 9; 4294967295 selects the last
message, and `0:2` nothing. -/
theorem star_selects_nothing :
    (parseSeqset "*".toList).map (resolveUid · [3, 9]) = some [] ∧
    (parseSeqset "10:*".toList).map (resolveUid · [3, 9]) = some [] ∧
    (parseSeqset "4294967295".toList).map (resolveSequence · 2) = some [2] ∧
    (parseSeqset "0:2".toList).map (resolveSequence · 2) = some [] ∧
    ∀ r : SeqNum × SeqNum, r.1 = .star → Within 9 r 9 := by
  refine ⟨by decide +kernel, by decide +kernel, by decide +kernel, by decide +kernel, ?_⟩
  exact fun r hr => within_last (.inl hr)

theorem resolveSequence_sublist (set : RangeSet) (count : ℕ) :
    resolveSequence set count <+ range' 1 count := by
  have hsub : resolveSequence set count ⊆ range' 1 count := by
    simp only [resolveSequence, subset_def, mem_dedup, mem_mergeSort, mem_flatMap, mem_range'_1]
    rintro x ⟨r, -, hx⟩
    split_ifs at hx <;> simp only [not_mem_nil, mem_range'_1] at hx
    all_goals omega
  refine sublist_of_subperm_of_pairwise (r := (· ≤ ·)) ((nodup_dedup _).subperm hsub) ?_
    (pairwise_le_range' 1)
  exact (pairwise_mergeSort' _ _).sublist (dedup_sublist _)

end TptRfc.Imap
