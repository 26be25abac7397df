import TptRfc.Lib.Bytes

/-!
# Texts

UTF-8 text: encoding, decoding of bytes that may be ill-formed, white space, decimal numbers.
-/

namespace TptRfc.Lib.Text

open List

/-! ## UTF-8 -/

def encode (text : List Char) : Bytes := text.flatMap String.utf8EncodeChar

@[simp] theorem encode_nil : encode [] = [] := rfl

theorem encode_cons (c : Char) (text : List Char) :
    encode (c :: text) = String.utf8EncodeChar c ++ encode text := rfl

@[simp] theorem encode_append (a b : List Char) : encode (a ++ b) = encode a ++ encode b :=
  flatMap_append

def isContinuation (b : UInt8) : Bool := 0x80 ≤ b && b ≤ 0xbf

def badLength : Bytes → ℕ
  | [] => 0
  | b₀ :: rest =>
    let b₁ := rest[0]?.getD 0
    let b₂ := rest[1]?.getD 0
    if (b₀ = 0xe0 ∧ 0xa0 ≤ b₁ ∧ b₁ ≤ 0xbf) ∨ (0xe1 ≤ b₀ ∧ b₀ ≤ 0xec ∧ isContinuation b₁) ∨
        (b₀ = 0xed ∧ 0x80 ≤ b₁ ∧ b₁ ≤ 0x9f) ∨ (0xee ≤ b₀ ∧ b₀ ≤ 0xef ∧ isContinuation b₁) then 2
    else if (b₀ = 0xf0 ∧ 0x90 ≤ b₁ ∧ b₁ ≤ 0xbf) ∨
        (0xf1 ≤ b₀ ∧ b₀ ≤ 0xf3 ∧ isContinuation b₁) ∨
        (b₀ = 0xf4 ∧ 0x80 ≤ b₁ ∧ b₁ ≤ 0x8f) then
      if isContinuation b₂ then 3 else 2
    else 1

def firstChar (bytes : Bytes) : Option Char := ByteArray.utf8DecodeChar? ⟨bytes.toArray⟩ 0

def lossyAux : ℕ → Bytes → List Char
  | 0, _ => []
  | _ + 1, [] => []
  | fuel + 1, b :: rest =>
    match firstChar (b :: rest) with
    | some c => c :: lossyAux fuel ((b :: rest).drop c.utf8Size)
    | none => '�' :: lossyAux fuel ((b :: rest).drop (badLength (b :: rest)))

def lossy (bytes : Bytes) : List Char := lossyAux bytes.length bytes

def decodeAux : ℕ → Bytes → Option (List Char)
  | _, [] => some []
  | 0, _ :: _ => none
  | fuel + 1, b :: rest =>
    match firstChar (b :: rest) with
    | some c => (decodeAux fuel ((b :: rest).drop c.utf8Size)).map (c :: ·)
    | none => none

def decode (bytes : Bytes) : Option (List Char) := decodeAux bytes.length bytes

theorem firstChar_encode (c : Char) (rest : Bytes) :
    firstChar (String.utf8EncodeChar c ++ rest) = some c := by
  have h := @ByteArray.utf8DecodeChar?_utf8EncodeChar_append ⟨rest.toArray⟩ c
  rw [firstChar, ← h]
  congr 1
  apply ByteArray.ext
  apply Array.ext'
  simp [ByteArray.data_append, data_toByteArray]

variable {fuel max n : ℕ} {text : List Char} {bytes : Bytes} {c : Char} {b : UInt8}

theorem utf8EncodeChar_append (c : Char) (tail : Bytes) :
    ∃ b rest, String.utf8EncodeChar c ++ tail = b :: rest ∧ firstChar (b :: rest) = some c ∧
      (b :: rest).drop c.utf8Size = tail := by
  have hlen : (String.utf8EncodeChar c).length = c.utf8Size := String.length_utf8EncodeChar c
  obtain ⟨b, rest, hb⟩ := exists_cons_of_length_pos (hlen ▸ c.utf8Size_pos)
  have hfirst := firstChar_encode c tail
  have hdrop : (String.utf8EncodeChar c ++ tail).drop c.utf8Size = tail := drop_left' hlen
  rw [hb] at hfirst hdrop ⊢
  exact ⟨b, rest ++ tail, rfl, hfirst, hdrop⟩

theorem decodeAux_encode (h : (encode text).length ≤ fuel) :
    decodeAux fuel (encode text) = some text := by
  induction text generalizing fuel with
  | nil => cases fuel <;> rfl
  | cons c text ih =>
    have hc := c.utf8Size_pos
    rw [encode_cons, length_append, String.length_utf8EncodeChar] at h
    obtain ⟨fuel, rfl⟩ := Nat.exists_eq_succ_of_ne_zero (by omega : fuel ≠ 0)
    obtain ⟨b, rest, hb, hfirst, hdrop⟩ := utf8EncodeChar_append c (encode text)
    rw [encode_cons, hb, decodeAux, hfirst]
    dsimp only
    rw [hdrop, ih (by omega)]
    rfl

theorem decode_encode (text : List Char) : decode (encode text) = some text :=
  decodeAux_encode le_rfl

theorem length_encode_le (text : List Char) : (encode text).length ≤ 4 * text.length := by
  induction text with
  | nil => exact le_rfl
  | cons c text ih =>
    have := c.utf8Size_le_four
    rw [encode_cons, length_append, String.length_utf8EncodeChar, length_cons]
    omega

theorem badLength_pos (b : UInt8) (rest : Bytes) : 0 < badLength (b :: rest) := by
  unfold badLength
  dsimp only
  split_ifs <;> omega

theorem lossyAux_congr {fuel' : ℕ} (h : bytes.length ≤ fuel)
    (h' : bytes.length ≤ fuel') : lossyAux fuel bytes = lossyAux fuel' bytes := by
  induction fuel generalizing fuel' bytes with
  | zero =>
    obtain rfl := length_eq_zero_iff.mp (Nat.le_zero.mp h)
    cases fuel' <;> rfl
  | succ fuel ih =>
    cases bytes with
    | nil => cases fuel' <;> rfl
    | cons b rest =>
      rw [length_cons] at h h'
      obtain ⟨fuel', rfl⟩ := Nat.exists_eq_succ_of_ne_zero (by omega : fuel' ≠ 0)
      rw [lossyAux, lossyAux]
      have hdrop : ∀ n, 0 < n → lossyAux fuel ((b :: rest).drop n) =
          lossyAux fuel' ((b :: rest).drop n) := by
        intro n hn
        apply ih <;> rw [length_drop, length_cons] <;> omega
      split
      · rename_i c _
        rw [hdrop _ c.utf8Size_pos]
      · rw [hdrop _ (badLength_pos b rest)]

theorem lossy_append (text : List Char) (tail : Bytes) :
    lossy (encode text ++ tail) = text ++ lossy tail := by
  induction text with
  | nil => rfl
  | cons c text ih =>
    have hc := c.utf8Size_pos
    obtain ⟨b, rest, hb, hfirst, hdrop⟩ := utf8EncodeChar_append c (encode text ++ tail)
    rw [encode_cons, append_assoc, lossy, hb, length_cons, lossyAux, hfirst]
    dsimp only
    rw [lossyAux_congr _ le_rfl, hdrop]
    · exact congrArg (c :: ·) ih
    · rw [length_drop, length_cons]
      omega

theorem lossy_encode (text : List Char) : lossy (encode text) = text := by
  have h := lossy_append text []
  rwa [append_nil, show lossy [] = [] from rfl, append_nil] at h

theorem length_lossyAux_le (fuel : ℕ) (bytes : Bytes) :
    (lossyAux fuel bytes).length ≤ bytes.length := by
  induction fuel generalizing bytes with
  | zero => exact Nat.zero_le _
  | succ fuel ih =>
    cases bytes with
    | nil => exact le_rfl
    | cons b rest =>
      have hdrop : ∀ n, 0 < n →
          (lossyAux fuel ((b :: rest).drop n)).length + 1 ≤ (b :: rest).length := by
        intro n hn
        have := ih ((b :: rest).drop n)
        rw [length_drop, length_cons] at this
        rw [length_cons]
        omega
      rw [lossyAux]
      split
      · exact hdrop _ (Char.utf8Size_pos _)
      · exact hdrop _ (badLength_pos b rest)

theorem length_lossy_le (bytes : Bytes) : (lossy bytes).length ≤ bytes.length :=
  length_lossyAux_le _ _

theorem take_encode (text : List Char) (n : ℕ) :
    ∃ j tail, (encode text).take n = encode (text.take j) ++ tail ∧ tail.length < 4 := by
  induction text generalizing n with
  | nil => exact ⟨0, [], by simp, by simp⟩
  | cons c text ih =>
    have hlen : (String.utf8EncodeChar c).length = c.utf8Size := String.length_utf8EncodeChar c
    have hfour := c.utf8Size_le_four
    by_cases hn : n < c.utf8Size
    · refine ⟨0, (String.utf8EncodeChar c).take n, ?_, ?_⟩
      · rw [encode_cons, take_append_of_le_length (by omega)]
        rfl
      · rw [length_take]
        omega
    · obtain ⟨j, tail, hj, htail⟩ := ih (n - c.utf8Size)
      refine ⟨j + 1, tail, ?_, htail⟩
      rw [encode_cons, take_append, hlen, hj, take_of_length_le (by omega),
        take_succ_cons, encode_cons, append_assoc]

theorem length_lossy_take_lt (h : n + 12 < (encode text).length) :
    (lossy ((encode text).take n)).length < text.length := by
  obtain ⟨j, tail, htake, htail⟩ := take_encode text n
  have hlossy := length_lossy_le tail
  have hlen := congrArg List.length htake
  have hdrop := length_encode_le (text.drop j)
  have hsplit : (encode text).length = (encode (text.take j)).length +
      (encode (text.drop j)).length := by
    rw [← length_append, ← encode_append, take_append_drop]
  rw [length_take, length_append] at hlen
  rw [length_drop] at hdrop
  rw [htake, lossy_append, length_append, length_take]
  omega

/-! ## Bytes below 128 -/

theorem utf8EncodeChar_of_ascii (h : c.toNat < 128) :
    String.utf8EncodeChar c = [UInt8.ofNat c.toNat] := by
  unfold String.utf8EncodeChar
  exact if_pos (Nat.le_of_lt_succ h)

theorem encode_cons_ascii (h : c.toNat < 128) (text : List Char) :
    encode (c :: text) = UInt8.ofNat c.toNat :: encode text := by
  rw [encode_cons, utf8EncodeChar_of_ascii h]
  rfl

theorem encode_of_ascii (h : ∀ c ∈ text, c.toNat < 128) :
    encode text = text.map fun c => UInt8.ofNat c.toNat := by
  induction text with
  | nil => rfl
  | cons c text ih =>
    rw [encode_cons, utf8EncodeChar_of_ascii (h c mem_cons_self),
      ih fun d hd => h d (mem_cons_of_mem c hd)]
    rfl

theorem toNat_of_mem_utf8EncodeChar (hb : b.toNat < 128)
    (h : b ∈ String.utf8EncodeChar c) : b.toNat = c.toNat := by
  have high : ∀ n m, 128 ≤ m → n + m < 256 → (UInt8.ofNat (n + m)).toNat ≥ 128 := by
    intro n m hm hlt
    rw [UInt8.toNat_ofNat', Nat.mod_eq_of_lt hlt]
    omega
  unfold String.utf8EncodeChar at h
  dsimp only at h
  split at h
  · rename_i hc
    rw [mem_singleton.mp h, UInt8.toNat_ofNat', Nat.mod_eq_of_lt (by omega)]
    rfl
  · exfalso
    split at h
    · rcases mem_pair.mp h with rfl | rfl <;>
        exact absurd hb (Nat.not_lt.mpr (high _ _ (by omega) (by omega)))
    · split at h <;> simp only [mem_cons, not_mem_nil, or_false] at h
      · rcases h with rfl | rfl | rfl <;>
          exact absurd hb (Nat.not_lt.mpr (high _ _ (by omega) (by omega)))
      · rcases h with rfl | rfl | rfl | rfl <;>
          exact absurd hb (Nat.not_lt.mpr (high _ _ (by omega) (by omega)))

theorem mem_of_mem_encode (hb : b.toNat < 128) (h : b ∈ encode text) :
    Char.ofNat b.toNat ∈ text := by
  obtain ⟨c, hc, h⟩ := mem_flatMap.mp h
  rw [toNat_of_mem_utf8EncodeChar hb h, Char.ofNat_toNat]
  exact hc

theorem eq_append_of_firstChar (h : firstChar bytes = some c) :
    ∃ rest, bytes = String.utf8EncodeChar c ++ rest := by
  obtain ⟨rest, hrest⟩ := ByteArray.exists_of_utf8DecodeChar?_eq_some h
  refine ⟨rest.data.toList, ?_⟩
  have := congrArg (fun b => b.data.toList) hrest
  simpa [ByteArray.data_append, data_toByteArray] using this

theorem encode_of_decodeAux (h : decodeAux fuel bytes = some text) : encode text = bytes := by
  induction fuel generalizing bytes text with
  | zero =>
    cases bytes with
    | nil => cases h; rfl
    | cons b rest => cases h
  | succ fuel ih =>
    cases bytes with
    | nil => cases h; rfl
    | cons b rest =>
      rw [decodeAux] at h
      cases hfirst : firstChar (b :: rest) with
      | none => rw [hfirst] at h; cases h
      | some c =>
        rw [hfirst] at h
        obtain ⟨tail, htail, rfl⟩ := Option.map_eq_some_iff.mp h
        obtain ⟨rest', hrest'⟩ := eq_append_of_firstChar hfirst
        rw [encode_cons, ih htail, hrest', drop_left' (String.length_utf8EncodeChar c)]

theorem encode_of_decode (h : decode bytes = some text) : encode text = bytes :=
  encode_of_decodeAux h

theorem mem_of_mem_lossyAux (hc : c.toNat < 128)
    (h : c ∈ lossyAux fuel bytes) : UInt8.ofNat c.toNat ∈ bytes := by
  induction fuel generalizing bytes with
  | zero => cases h
  | succ fuel ih =>
    cases bytes with
    | nil => cases h
    | cons b rest =>
      rw [lossyAux] at h
      split at h
      · rename_i d hd
        rcases mem_cons.mp h with rfl | h
        · obtain ⟨tail, htail⟩ := eq_append_of_firstChar hd
          rw [htail, utf8EncodeChar_of_ascii hc]
          exact mem_cons_self
        · exact mem_of_mem_drop (ih h)
      · rcases mem_cons.mp h with rfl | h
        · exact absurd hc (by decide)
        · exact mem_of_mem_drop (ih h)

theorem mem_of_mem_lossy (hc : c.toNat < 128) (h : c ∈ lossy bytes) :
    UInt8.ofNat c.toNat ∈ bytes := mem_of_mem_lossyAux hc h

theorem lossy_ne_nil (h : bytes ≠ []) : lossy bytes ≠ [] := by
  cases bytes with
  | nil => exact absurd rfl h
  | cons b rest =>
    rw [lossy, length_cons, lossyAux]
    split <;> exact cons_ne_nil _ _

/-! ## Parts between separators -/

theorem splitOn_parts {α : Type} [BEq α] [LawfulBEq α] (sep : α) (text : List α) :
    ∀ part ∈ text.splitOn sep, sep ∉ part ∧ ∀ a ∈ part, a ∈ text := by
  induction text with
  | nil =>
    rw [splitOn_nil, forall_mem_singleton]
    exact ⟨not_mem_nil, nofun⟩
  | cons c text ih =>
    have hih := fun part hpart => (ih part hpart).imp_right fun h a ha => mem_cons_of_mem c (h a ha)
    rw [splitOn_cons_eq_if_modifyHead]
    split
    · exact forall_mem_cons.mpr ⟨⟨not_mem_nil, nofun⟩, hih⟩
    · rename_i hc
      obtain ⟨first, parts, hparts⟩ := exists_cons_of_ne_nil (splitOn_ne_nil sep text)
      rw [hparts] at hih ⊢
      obtain ⟨⟨hfirst, hmem⟩, hrest⟩ := forall_mem_cons.mp hih
      refine forall_mem_cons.mpr ⟨⟨?_, forall_mem_cons.mpr ⟨mem_cons_self, hmem⟩⟩, hrest⟩
      rw [mem_cons, not_or]
      exact ⟨fun he => hc (by rw [he]; exact BEq.rfl), hfirst⟩

theorem takeWhile_append_of_stop {α : Type} {p : α → Bool} {word rest : List α}
    (hword : ∀ b ∈ word, p b) (hrest : ∀ b ∈ rest.head?, p b = false) :
    (word ++ rest).takeWhile p = word ∧ (word ++ rest).dropWhile p = rest := by
  rw [takeWhile_append_of_pos hword, dropWhile_append_of_pos hword]
  cases rest with
  | nil => exact ⟨append_nil _, rfl⟩
  | cons b rest =>
    have hb := hrest b rfl
    rw [takeWhile_cons_of_neg (by simp [hb]), dropWhile_cons_of_neg (by simp [hb])]
    exact ⟨append_nil _, rfl⟩

theorem mem_intercalate {α : Type} {sep : List α} {texts : List (List α)} {c : α}
    (h : c ∈ sep.intercalate texts) : c ∈ sep ∨ ∃ text ∈ texts, c ∈ text := by
  induction texts with
  | nil => cases h
  | cons text texts ih =>
    cases texts with
    | nil =>
      rw [intercalate_singleton] at h
      exact .inr ⟨text, mem_cons_self, h⟩
    | cons text' texts =>
      rw [intercalate_cons_cons, mem_append, mem_append] at h
      rcases h with (h | h) | h
      · exact .inr ⟨text, mem_cons_self, h⟩
      · exact .inl h
      · rcases ih h with h | ⟨t, ht, h⟩
        · exact .inl h
        · exact .inr ⟨t, mem_cons_of_mem text ht, h⟩

/-! ## Bytes as characters -/

def latin1 (bytes : Bytes) : List Char := bytes.map fun b => Char.ofNat b.toNat

theorem toNat_latin1Char (b : UInt8) : (Char.ofNat b.toNat).toNat = b.toNat := by
  rw [Char.toNat_ofNat, if_pos]
  exact .inl (b.toNat_lt.trans (by decide))

theorem latin1_injective : Function.Injective latin1 :=
  map_injective_iff.mpr fun b b' h => by
    have := congrArg Char.toNat h
    rw [toNat_latin1Char, toNat_latin1Char] at this
    exact UInt8.toNat_inj.mp this

theorem encode_injective : Function.Injective encode := fun s t h => by
  rw [← lossy_encode s, h, lossy_encode]

theorem latin1_encode_of_ascii (h : ∀ c ∈ text, c.toNat < 128) : latin1 (encode text) = text := by
  induction text with
  | nil => rfl
  | cons c text ih =>
    have hc := h c mem_cons_self
    rw [encode_cons, utf8EncodeChar_of_ascii hc]
    change Char.ofNat _ :: latin1 (encode text) = _
    rw [ih fun d hd => h d (mem_cons_of_mem c hd), UInt8.toNat_ofNat',
      Nat.mod_eq_of_lt (by omega), Char.ofNat_toNat]

theorem encode_latin1 (h : ∀ b ∈ bytes, b.toNat < 128) : encode (latin1 bytes) = bytes := by
  rw [encode_of_ascii, latin1, map_map]
  · refine (map_congr_left fun b _ => ?_).trans (map_id bytes)
    simp only [Function.comp_apply, toNat_latin1Char, UInt8.ofNat_toNat, id]
  · intro c hc
    obtain ⟨b, hb, rfl⟩ := mem_map.mp hc
    rw [toNat_latin1Char]
    exact h b hb

theorem length_le_encode (text : List Char) : text.length ≤ (encode text).length := by
  induction text with
  | nil => exact Nat.le_refl 0
  | cons c text ih =>
    have := Char.utf8Size_pos c
    rw [encode_cons, length_append, String.length_utf8EncodeChar, length_cons]
    omega

theorem ascii_of_length_encode (h : (encode text).length = text.length) :
    ∀ c ∈ text, c.toNat < 128 := by
  induction text with
  | nil => exact fun c hc => nomatch hc
  | cons d text ih =>
    have hle := length_le_encode text
    have := Char.utf8Size_pos d
    rw [encode_cons, length_append, String.length_utf8EncodeChar, length_cons] at h
    intro c hc
    rcases mem_cons.mp hc with rfl | hc
    · have hsize : c.utf8Size = 1 := by omega
      have := Char.utf8Size_eq_one_iff.mp hsize
      have := UInt32.le_iff_toNat_le.mp this
      exact Nat.lt_succ_of_le this
    · exact ih (by omega) c hc

theorem latin1_encode_eq_iff : latin1 (encode text) = text ↔ ∀ c ∈ text, c.toNat < 128 :=
  ⟨fun h => ascii_of_length_encode (by simpa [latin1] using congrArg List.length h),
    latin1_encode_of_ascii⟩

/-! ## Lower case -/

def lowerChar (c : Char) : Char :=
  if 'A'.toNat ≤ c.toNat ∧ c.toNat ≤ 'Z'.toNat then Char.ofNat (c.toNat + 32) else c

def lower (text : List Char) : List Char := text.map lowerChar

theorem toNat_lowerChar {c : Char} (h : lowerChar c ≠ c) :
    65 ≤ c.toNat ∧ c.toNat ≤ 90 ∧ (lowerChar c).toNat = c.toNat + 32 := by
  unfold lowerChar at h ⊢
  split_ifs at h ⊢ with hupper
  · exact ⟨hupper.1, hupper.2, by rw [Char.toNat_ofNat, if_pos (.inl (by grind))]⟩
  · exact absurd rfl h

theorem lowerChar_lowerChar (c : Char) : lowerChar (lowerChar c) = lowerChar c := by
  by_contra h
  have hagain := toNat_lowerChar h
  have hfirst := toNat_lowerChar fun hc => h (congrArg lowerChar hc)
  omega

theorem lower_lower (text : List Char) : lower (lower text) = lower text := by
  rw [lower, lower, map_map]
  exact map_congr_left fun c _ => lowerChar_lowerChar c

/-! ## White space -/

def whitespace : List Char :=
  ['\t', '\n', '\x0b', '\x0c', '\r', ' ', '\u0085', '\u00a0', '\u1680', '\u2000', '\u2001',
    '\u2002', '\u2003', '\u2004', '\u2005', '\u2006', '\u2007', '\u2008', '\u2009', '\u200a',
    '\u2028', '\u2029', '\u202f', '\u205f', '\u3000']

def isWhitespace (c : Char) : Bool := c ∈ whitespace

section Trim

variable {α : Type} (p : α → Bool)

def trimBy (l : List α) : List α := (l.dropWhile p).rdropWhile p

variable {p}

theorem trimBy_cases (l : List α) : (trimBy p l = [] ∧ ∀ a ∈ l, p a) ∨
      ∃ pre post, l = pre ++ trimBy p l ++ post ∧ (∀ a ∈ pre, p a) ∧ (∀ a ∈ post, p a) ∧
        (∀ a ∈ (trimBy p l).head?, ¬ p a) ∧ (∀ a ∈ (trimBy p l).getLast?, ¬ p a) ∧
        trimBy p l ≠ [] := by
  by_cases hnil : trimBy p l = []
  · refine .inl ⟨hnil, fun a ha => ?_⟩
    have hmem := rdropWhile_eq_nil_iff.mp hnil
    rw [← takeWhile_append_dropWhile (p := p) (l := l), mem_append] at ha
    rcases ha with ha | ha
    · exact mem_takeWhile_imp ha
    · exact hmem a ha
  · refine .inr ⟨l.takeWhile p, (l.dropWhile p).rtakeWhile p, ?_, ?_, ?_, ?_, ?_, hnil⟩
    · rw [append_assoc, trimBy, rdropWhile_append_rtakeWhile, takeWhile_append_dropWhile]
    · exact fun a ha => mem_takeWhile_imp ha
    · exact fun a ha => mem_rtakeWhile_imp ha
    · intro a ha
      obtain ⟨post, hpost⟩ := rdropWhile_prefix p (l.dropWhile p)
      rw [Option.mem_def, trimBy] at ha
      have hhead : (l.dropWhile p).head? = some a := by
        rw [← hpost, head?_append, ha]
        rfl
      have := head?_dropWhile_not p l
      rw [hhead] at this
      simpa using this
    · intro a ha
      have hlast := rdropWhile_last_not p (l.dropWhile p) hnil
      rw [getLast?_eq_some_getLast hnil] at ha
      cases ha
      exact hlast

theorem trimBy_trimBy (l : List α) : trimBy p (trimBy p l) = trimBy p l := by
  rcases trimBy_cases (p := p) l with ⟨hnil, -⟩ | ⟨_, _, -, -, -, hhead, hlast, hne⟩
  · rw [hnil]
    rfl
  · have hdrop : (trimBy p l).dropWhile p = trimBy p l := by
      cases hl : trimBy p l with
      | nil => rfl
      | cons a rest => exact dropWhile_cons_of_neg (hhead a (by rw [hl]; rfl))
    rw [trimBy, hdrop, rdropWhile_eq_self_iff]
    exact fun hne => hlast _ (by rw [getLast?_eq_some_getLast hne]; rfl)

variable {l : List α}

theorem trimBy_append_of_forall {tail : List α} (h : ∀ a ∈ tail, p a) :
    trimBy p (l ++ tail) = trimBy p l := by
  have htail : ∀ a ∈ tail.reverse, p a := fun a ha => h a (mem_reverse.mp ha)
  rw [trimBy, dropWhile_append]
  split
  · rename_i hnil
    rw [List.isEmpty_iff] at hnil
    rw [trimBy, hnil, dropWhile_eq_nil_iff.mpr h]
  · rw [rdropWhile, reverse_append, dropWhile_append_of_pos htail]
    rfl

theorem trimBy_map {β : Type} (f : β → α) (l : List β) :
    trimBy p (l.map f) = (trimBy (p ∘ f) l).map f := by
  simp only [trimBy, rdropWhile, dropWhile_map, ← map_reverse]

theorem dropWhile_filter_of_imp {q : α → Bool} (h : ∀ a ∈ l, q a = false → p a) :
    (l.filter q).dropWhile p = (l.dropWhile p).filter q := by
  induction l with
  | nil => rfl
  | cons a l ih =>
    have ih := ih fun b hb => h b (mem_cons_of_mem a hb)
    cases hp : p a with
    | true =>
      cases hq : q a <;> simp [hp, hq, ih]
    | false =>
      cases hq : q a with
      | true => simp [hp, hq]
      | false => simp [h a mem_cons_self hq] at hp

theorem trimBy_filter {q : α → Bool} (h : ∀ a ∈ l, q a = false → p a) :
    trimBy p (l.filter q) = (trimBy p l).filter q := by
  have hdrop : ∀ a ∈ (l.dropWhile p).reverse, q a = false → p a := fun a ha =>
    h a ((dropWhile_suffix p).mem (mem_reverse.mp ha))
  rw [trimBy, dropWhile_filter_of_imp h, rdropWhile, ← filter_reverse,
    dropWhile_filter_of_imp hdrop, ← filter_reverse]
  rfl

theorem mem_trimBy {pre post : List α} {a : α} (hpre : ∃ b ∈ pre, ¬ p b)
    (hpost : ∃ b ∈ post, ¬ p b) : a ∈ trimBy p (pre ++ a :: post) := by
  have hleft : (pre.dropWhile p).isEmpty = false := by
    rw [Bool.eq_false_iff, Ne, List.isEmpty_iff, dropWhile_eq_nil_iff]
    exact fun h => hpre.elim fun b hb => hb.2 (h b hb.1)
  have hright : (post.reverse.dropWhile p).isEmpty = false := by
    rw [Bool.eq_false_iff, Ne, List.isEmpty_iff, dropWhile_eq_nil_iff]
    exact fun h => hpost.elim fun b hb => hb.2 (h b (mem_reverse.mpr hb.1))
  rw [trimBy, dropWhile_append, hleft, if_neg Bool.false_ne_true, rdropWhile,
    reverse_append, reverse_cons, append_assoc, dropWhile_append, hright,
    if_neg Bool.false_ne_true]
  simp

theorem trimBy_filter_eq_iff {q : α → Bool} (h : ∀ a ∈ l, q a = false → p a) :
    trimBy p (l.filter q) = trimBy p l ↔
      ∀ pre a post, l = pre ++ a :: post → q a = false → (∀ b ∈ pre, p b) ∨ ∀ b ∈ post, p b := by
  rw [trimBy_filter h, filter_eq_self]
  constructor
  · intro hkept pre a post hl ha
    by_contra! hboth
    subst hl
    have hmem := hkept a (mem_trimBy hboth.1 hboth.2)
    rw [ha] at hmem
    exact Bool.false_ne_true hmem
  · intro hends a ha
    by_contra hq
    rcases trimBy_cases (p := p) l with ⟨hnil, -⟩ | ⟨lead, trail, hl, -, -, hhead, hlast, -⟩
    · rw [hnil] at ha
      exact not_mem_nil ha
    obtain ⟨pre, post, hmid⟩ := append_of_mem ha
    have hl' : l = (lead ++ pre) ++ a :: (post ++ trail) := by
      rw [hl, hmid]
      simp only [append_assoc, cons_append]
    have hpa : p a := h a (hl' ▸ by simp) (Bool.eq_false_iff.mpr hq)
    rcases hends _ _ _ hl' (Bool.eq_false_iff.mpr hq) with hall | hall
    · rw [hmid] at hhead
      cases pre with
      | nil => exact hhead a rfl hpa
      | cons b pre => exact hhead b rfl (hall b (by simp))
    · rw [hmid, getLast?_append, getLast?_cons] at hlast
      cases hpost : post.getLast? with
      | none => exact hlast a (by simp [hpost]) hpa
      | some b =>
        refine hlast b ?_ (hall b (mem_append_left _ (mem_of_mem_getLast? hpost)))
        simp [hpost]

end Trim

/-! ## Decimal numbers -/

def decimal (n : ℕ) : Bytes := (Nat.toDigits 10 n).map fun c => UInt8.ofNat c.toNat

def parseDigits (max : ℕ) : ℕ → Bytes → Option ℕ
  | acc, [] => some acc
  | acc, b :: rest =>
    if 0x30 ≤ b ∧ b ≤ 0x39 then
      if acc * 10 + (b.toNat - 0x30) ≤ max then parseDigits max (acc * 10 + (b.toNat - 0x30)) rest
      else none
    else none

def parseUnsigned (max : ℕ) : Bytes → Option ℕ
  | [] => none
  | [0x2b] => none
  | 0x2b :: digits => parseDigits max 0 digits
  | digits => parseDigits max 0 digits

theorem digit_of_mem_toDigits (h : c ∈ Nat.toDigits 10 n) : 0x30 ≤ c.toNat ∧ c.toNat ≤ 0x39 := by
  have := Nat.isDigit_of_mem_toDigits (by decide) (by decide) h
  rw [Char.isDigit_iff_toNat] at this
  exact this

theorem le_of_parseDigits {acc : ℕ} (hacc : acc ≤ max)
    (h : parseDigits max acc bytes = some n) : n ≤ max := by
  induction bytes generalizing acc with
  | nil =>
    cases h
    exact hacc
  | cons b bytes ih =>
    unfold parseDigits at h
    split at h
    · split at h
      · rename_i hle
        exact ih hle h
      · cases h
    · cases h

theorem le_of_parseUnsigned (h : parseUnsigned max bytes = some n) : n ≤ max := by
  unfold parseUnsigned at h
  split at h
  · cases h
  · cases h
  · exact le_of_parseDigits (Nat.zero_le _) h
  · exact le_of_parseDigits (Nat.zero_le _) h

theorem parseDigits_map {digits : List Char} {acc : ℕ}
    (hdigits : ∀ c ∈ digits, 0x30 ≤ c.toNat ∧ c.toNat ≤ 0x39)
    (hmax : Nat.ofDigitChars 10 digits acc ≤ max) :
    parseDigits max acc (digits.map fun c => UInt8.ofNat c.toNat) =
      some (Nat.ofDigitChars 10 digits acc) := by
  induction digits generalizing acc with
  | nil => rfl
  | cons c digits ih =>
    obtain ⟨hlow, hhigh⟩ := hdigits c mem_cons_self
    have hb : (UInt8.ofNat c.toNat).toNat = c.toNat := by
      rw [UInt8.toNat_ofNat']
      exact Nat.mod_eq_of_lt (by omega)
    have hdigit : (0x30 : UInt8) ≤ UInt8.ofNat c.toNat ∧ UInt8.ofNat c.toNat ≤ 0x39 := by
      rw [UInt8.le_iff_toNat_le, UInt8.le_iff_toNat_le, hb]
      exact ⟨hlow, hhigh⟩
    rw [Nat.ofDigitChars_cons] at hmax ⊢
    have hacc : 10 * acc + (c.toNat - 0x30) ≤ max := by
      rw [Nat.ofDigitChars_eq_ofDigitChars_zero] at hmax
      have := Nat.le_mul_of_pos_left (10 * acc + (c.toNat - 0x30))
        (Nat.pow_pos (n := digits.length) (show 0 < 10 by decide))
      exact this.trans ((Nat.le_add_right _ _).trans hmax)
    rw [map_cons, parseDigits, if_pos hdigit, hb, Nat.mul_comm acc 10, if_pos hacc]
    exact ih (fun d hd => hdigits d (mem_cons_of_mem c hd)) hmax

theorem parseDigits_decimal (h : n ≤ max) : parseDigits max 0 (decimal n) = some n := by
  have hparse := @parseDigits_map max (Nat.toDigits 10 n) 0 (fun c hc => digit_of_mem_toDigits hc)
    (by rwa [Nat.ofDigitChars_ten_toDigits])
  rwa [Nat.ofDigitChars_ten_toDigits] at hparse

theorem decimal_ne_nil (n : ℕ) : decimal n ≠ [] := by
  rw [decimal, Ne, map_eq_nil_iff]
  exact Nat.toDigits_ne_nil

theorem digit_of_mem_decimal (h : b ∈ decimal n) : 0x30 ≤ b ∧ b ≤ 0x39 := by
  obtain ⟨c, hc, rfl⟩ := mem_map.mp h
  obtain ⟨hlow, hhigh⟩ := digit_of_mem_toDigits hc
  rw [UInt8.le_iff_toNat_le, UInt8.le_iff_toNat_le, UInt8.toNat_ofNat', Nat.mod_eq_of_lt (by omega)]
  exact ⟨hlow, hhigh⟩

def decimalInt (n : ℤ) : Bytes := if n < 0 then 0x2d :: decimal n.natAbs else decimal n.natAbs

def parseSigned (max : ℕ) : Bytes → Option ℤ
  | [0x2d] => none
  | 0x2d :: digits => (parseDigits (max + 1) 0 digits).map fun n : ℕ => -(n : ℤ)
  | text => (parseUnsigned max text).map fun n : ℕ => (n : ℤ)

/-- Both readers read a text that starts with no sign as digits. -/
theorem parse_of_no_sign {bytes : Bytes} (h : 0x30 ≤ b) :
    parseUnsigned max (b :: bytes) = parseDigits max 0 (b :: bytes) ∧
      parseSigned max (b :: bytes) =
        (parseDigits max 0 (b :: bytes)).map fun n : ℕ => (n : ℤ) := by
  have hsign (s : UInt8) (hs : ¬ 0x30 ≤ s) : b ≠ s := fun heq => hs (heq ▸ h)
  have hunsigned : parseUnsigned max (b :: bytes) = parseDigits max 0 (b :: bytes) := by
    unfold parseUnsigned
    split
    · rename_i heq; cases heq
    · rename_i heq; exact absurd (List.cons.inj heq).1 (hsign _ (by decide))
    · rename_i heq; exact absurd (List.cons.inj heq).1 (hsign _ (by decide))
    · rfl
  refine ⟨hunsigned, ?_⟩
  unfold parseSigned
  split
  · rename_i heq; exact absurd (List.cons.inj heq).1 (hsign _ (by decide))
  · rename_i heq; exact absurd (List.cons.inj heq).1 (hsign _ (by decide))
  · rw [hunsigned]

theorem parseUnsigned_decimal (h : n ≤ max) : parseUnsigned max (decimal n) = some n := by
  have hparse := parseDigits_decimal h
  obtain ⟨b, bs, hbs⟩ := exists_cons_of_ne_nil (decimal_ne_nil n)
  rw [hbs] at hparse ⊢
  exact (parse_of_no_sign (digit_of_mem_decimal (hbs ▸ mem_cons_self)).1).1.trans hparse

theorem bounds_of_parseSigned {n : ℤ}
    (h : parseSigned max bytes = some n) : -(max + 1 : ℤ) ≤ n ∧ n ≤ max := by
  unfold parseSigned at h
  split at h
  · cases h
  · obtain ⟨m, hm, rfl⟩ := Option.map_eq_some_iff.mp h
    have := le_of_parseDigits (Nat.zero_le _) hm
    omega
  · obtain ⟨m, hm, rfl⟩ := Option.map_eq_some_iff.mp h
    have := le_of_parseUnsigned hm
    omega

theorem parseSigned_decimalInt {n : ℤ} (hlow : -(max + 1 : ℤ) ≤ n) (hhigh : n ≤ max) :
    parseSigned max (decimalInt n) = some n := by
  obtain ⟨b, bs, hbs⟩ := exists_cons_of_ne_nil (decimal_ne_nil n.natAbs)
  by_cases hneg : n < 0
  · have hparse := @parseDigits_decimal (max + 1) n.natAbs (by omega)
    rw [decimalInt, if_pos hneg]
    rw [hbs] at hparse ⊢
    change (parseDigits (max + 1) 0 (b :: bs)).map _ = _
    rw [hparse, Option.map_some, Option.some.injEq]
    omega
  · have hparse := @parseDigits_decimal max n.natAbs (by omega)
    rw [decimalInt, if_neg hneg]
    rw [hbs] at hparse ⊢
    rw [(parse_of_no_sign (digit_of_mem_decimal (hbs ▸ mem_cons_self)).1).2, hparse,
      Option.map_some, Option.some.injEq]
    omega

/-- A text that starts and ends with something else is not trimmed. -/
theorem trimBy_eq_self {α : Type} {p : α → Bool} {l : List α} (hhead : ∀ a ∈ l.head?, ¬ p a)
    (hlast : ∀ a ∈ l.getLast?, ¬ p a) : trimBy p l = l := by
  have hdrop : l.dropWhile p = l := by
    cases l with
    | nil => rfl
    | cons a rest => exact dropWhile_cons_of_neg (hhead a rfl)
  rw [trimBy, hdrop, rdropWhile_eq_self_iff]
  exact fun hne => hlast _ (by rw [getLast?_eq_some_getLast hne]; rfl)

theorem splitOnP_intercalate {α : Type} {p : α → Bool} {sep : α} (hsep : p sep)
    {words : List (List α)} (hwords : ∀ w ∈ words, ∀ a ∈ w, p a = false) (hne : words ≠ []) :
    ([sep].intercalate words).splitOnP p = words := by
  induction words with
  | nil => exact absurd rfl hne
  | cons w words ih =>
    obtain ⟨hw, hrest⟩ := forall_mem_cons.mp hwords
    cases words with
    | nil => simpa using splitOnP_eq_singleton hw
    | cons w' words =>
      rw [intercalate_cons_cons, append_assoc, singleton_append,
        splitOnP_append_cons_of_forall_mem hw _ hsep, ih hrest (cons_ne_nil _ _)]

theorem parseUnsigned_digits {max : ℕ} {digits : List Char} (hne : digits ≠ [])
    (hdigits : ∀ c ∈ digits, 0x30 ≤ c.toNat ∧ c.toNat ≤ 0x39)
    (hmax : Nat.ofDigitChars 10 digits 0 ≤ max) :
    parseUnsigned max (encode digits) = some (Nat.ofDigitChars 10 digits 0) ∧
      parseSigned max (encode digits) = some (Nat.ofDigitChars 10 digits 0 : ℤ) := by
  have hencode : encode digits = _ := encode_of_ascii fun c hc => by
    have := hdigits c hc
    omega
  have hparse := parseDigits_map hdigits hmax
  rw [hencode]
  obtain ⟨c, rest, rfl⟩ := exists_cons_of_ne_nil hne
  obtain ⟨hlow, hhigh⟩ := hdigits c mem_cons_self
  have hb : 0x30 ≤ UInt8.ofNat c.toNat := by
    rw [UInt8.le_iff_toNat_le, UInt8.toNat_ofNat', Nat.mod_eq_of_lt (by omega)]
    exact hlow
  rw [map_cons] at hparse ⊢
  rw [(parse_of_no_sign hb).1, (parse_of_no_sign hb).2, hparse]
  exact ⟨rfl, rfl⟩

end TptRfc.Lib.Text
