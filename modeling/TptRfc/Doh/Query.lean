import TptRfc.Doh.Names

/-!
# DNS over HTTPS: queries are read back

Whether `Message::from_bytes` gives back the question of a query that `Message::to_bytes` has
written.
-/

namespace TptRfc.Doh

open Lib Access List Text

def IsLower (text : List Char) : Prop := ∀ c ∈ text, lowerChar c = c

theorem isLower_queryName (name : List Char) : IsLower (queryName name) := by
  intro c hc
  obtain ⟨d, -, rfl⟩ := mem_map.mp hc
  exact lowerChar_lowerChar d

variable {text : List Char} {c : Char} {acc more : List (List Char)} {rounds start n : ℕ}

theorem lower_of_isLower (h : IsLower text) : lower text = text :=
  (map_congr_left h).trans (map_id _)

/-! ## Labels -/

variable {label name : List Char} {labels : List (List Char)} {data : Bytes} {pos : ℕ}

theorem joinLabels_cons (h : labels ≠ []) :
    joinLabels (label :: labels) = label ++ '.' :: joinLabels labels := by
  obtain ⟨next, labels, rfl⟩ := exists_cons_of_ne_nil h
  rw [joinLabels, intercalate_cons_cons, append_assoc]
  rfl

theorem nameLabels_nil : nameLabels [] = [] := by
  rw [nameLabels, splitOn_nil]
  rfl

theorem nameLabels_joinLabels (rest : List (List Char)) (h : ∀ l ∈ labels, l ≠ [] ∧ '.' ∉ l) :
    nameLabels (joinLabels (labels ++ rest)) = labels ++ nameLabels (joinLabels rest) := by
  induction labels with
  | nil => rfl
  | cons label labels ih =>
    obtain ⟨hne, hdot⟩ := h label mem_cons_self
    have ih := ih fun l hl => h l (mem_cons_of_mem _ hl)
    by_cases hrest : labels ++ rest = []
    · rw [append_eq_nil_iff] at hrest
      obtain ⟨rfl, rfl⟩ := hrest
      rw [append_nil, joinLabels, intercalate_singleton, nameLabels, splitOn_eq_singleton hdot]
      simp [joinLabels, nameLabels_nil, hne]
    · rw [cons_append, joinLabels_cons hrest, nameLabels,
        splitOn_append_cons_self_of_not_mem hdot,
        filter_cons_of_pos (by simpa using hne)]
      exact congrArg (label :: ·) ih

theorem mem_nameLabels (h : label ∈ nameLabels name) : label ≠ [] ∧ '.' ∉ label := by
  obtain ⟨hmem, hne⟩ := mem_filter.mp h
  exact ⟨of_decide_eq_true hne, (splitOn_parts _ _ _ hmem).1⟩

theorem mem_of_mem_nameLabels (h : label ∈ nameLabels name) (hc : c ∈ label) : c ∈ name :=
  (splitOn_parts _ _ _ (mem_filter.mp h).1).2 c hc

def Writable (name : List Char) : Prop :=
  name = [] ∨ ((∀ l ∈ name.splitOn '.', l ≠ [] ∧ (encode l).length < 192) ∧
    (name.splitOn '.').length ≤ 255)

/-! ## Runs of the reader -/

def ShortLabel (label : List Char) : Prop := label ≠ [] ∧ (encode label).length < 192

theorem encode_ne_nil (h : text ≠ []) : encode text ≠ [] := by
  obtain ⟨c, text, rfl⟩ := exists_cons_of_ne_nil h
  rw [encode_cons]
  exact append_ne_nil_of_left_ne_nil String.utf8EncodeChar_ne_nil _

theorem labelText_encode (h : IsLower label) : labelText (encode label) = label := by
  rw [labelText, lossy_encode, lower_of_isLower h]

def writeLabels (labels : List (List Char)) : Bytes :=
  labels.flatMap fun label => writeLabel (encode label)

theorem readLabels_short (start rounds : ℕ) (acc : List (List Char))
    {rest : Bytes} (hdrop : data.drop pos = writeLabels labels ++ rest)
    (hlabels : ∀ l ∈ labels, ShortLabel l ∧ IsLower l) :
    readLabels data start (rounds + labels.length) pos false acc =
        readLabels data start rounds (pos + (writeLabels labels).length) false (acc ++ labels) ∧
      data.drop (pos + (writeLabels labels).length) = rest := by
  induction labels generalizing pos acc with
  | nil => exact ⟨by rw [append_nil]; rfl, hdrop⟩
  | cons label labels ih =>
    obtain ⟨⟨hne, hlt⟩, hlower⟩ := hlabels label mem_cons_self
    have hbytes := encode_ne_nil hne
    have hdrop' : data.drop pos = UInt8.ofNat (encode label).length ::
        (encode label ++ (writeLabels labels ++ rest)) := by
      rw [hdrop, writeLabels, flatMap_cons, append_assoc]
      rfl
    have hstep := @readLabels_label data start (rounds + labels.length) pos false acc _ _ _
      hdrop' (by rw [UInt8.toNat_ofNat', Nat.mod_eq_of_lt (by omega)]) hbytes hlt
    have hnext : data.drop (pos + 1 + (encode label).length) =
        writeLabels labels ++ rest := by
      rw [← drop_drop, ← drop_drop, hdrop', drop_one, tail_cons, drop_left]
    obtain ⟨hrun, hrest⟩ := ih (acc ++ [label]) hnext
      fun l hl => hlabels l (mem_cons_of_mem _ hl)
    have hpos : pos + (writeLabels (label :: labels)).length =
        pos + 1 + (encode label).length + (writeLabels labels).length := by
      rw [writeLabels, flatMap_cons, length_append, writeLabel, length_cons, writeLabels]
      omega
    rw [labelText_encode hlower] at hstep
    rw [hpos]
    refine ⟨?_, hrest⟩
    rw [length_cons, ← Nat.add_assoc, hstep, hrun, append_assoc]
    rfl

theorem of_readLabels {c : ℕ} {jumped : Bool}
    (h : readLabels data start rounds pos jumped acc = .ok (name, c)) :
    (∃ rest, name = joinLabels (acc ++ rest)) ∧ (jumped = true → c = 2) := by
  induction rounds generalizing pos jumped acc with
  | zero => cases h
  | succ rounds ih =>
    by_cases hpos : pos < data.length
    · rw [readLabels_of_lt hpos] at h
      dsimp only at h
      split at h
      · split at h
        · cases h
        · exact ⟨(ih h).1, fun _ => (ih h).2 rfl⟩
      · split at h
        · refine ⟨⟨[], ?_⟩, ?_⟩
          · rw [append_nil]
            split at h <;> obtain ⟨consumed, -, h⟩ := bind_eq_ok_iff.mp h <;> cases h <;> rfl
          · rintro rfl
            cases h
            rfl
        · split at h
          · cases h
          · obtain ⟨⟨rest, hrest⟩, hc⟩ := ih h
            exact ⟨⟨_ :: rest, by rw [hrest, append_assoc]; rfl⟩, hc⟩
    · rw [readLabels_of_le (Nat.not_lt.mp hpos)] at h
      cases h

theorem eq_dot_of_lowerChar (h : lowerChar c = '.') : c = '.' := by
  unfold lowerChar at h
  split at h
  · rename_i hc
    have hA : 'A'.toNat = 65 := rfl
    have hZ : 'Z'.toNat = 90 := rfl
    have hval := congrArg Char.toNat h
    rw [Char.toNat_ofNat, if_pos (.inl (by omega)), show '.'.toNat = 46 from rfl] at hval
    omega
  · exact h

theorem dot_notMem_labelText_take (h : '.' ∉ label) : '.' ∉ labelText ((encode label).take n) := by
  intro hmem
  obtain ⟨c, hc, hdot⟩ := mem_map.mp hmem
  rw [eq_dot_of_lowerChar hdot] at hc
  have hbyte := mem_of_mem_take (mem_of_mem_lossy (by decide) hc)
  exact h (mem_of_mem_encode (by decide) hbyte)

theorem not_cut {long : List Char} {rest : List (List Char)}
    (hparts : ∀ l ∈ labels, l ≠ [] ∧ '.' ∉ l) (hdot : '.' ∉ long)
    (hcut : (encode long).take n ≠ []) (hn : n + 12 < (encode long).length)
    (hsplit : nameLabels name = labels ++ long :: more)
    (hname : name = joinLabels (labels ++ (labelText ((encode long).take n) :: rest))) : False := by
  have hsame := nameLabels_joinLabels (labelText ((encode long).take n) :: rest) hparts
  have hfirst := @nameLabels_joinLabels [labelText ((encode long).take n)] rest
    (fun l hl => by
      rw [mem_singleton.mp hl]
      exact ⟨fun hnil => lossy_ne_nil hcut (map_eq_nil_iff.mp hnil),
        dot_notMem_labelText_take hdot⟩)
  rw [singleton_append, singleton_append] at hfirst
  rw [← hname, hsplit, append_cancel_left_eq, hfirst] at hsame
  have hlength := congrArg List.length (List.cons.inj hsame).1
  have hlt := length_lossy_take_lt hn
  rw [labelText, lower, length_map] at hlength
  omega

theorem short_and_lower (hlower : IsLower name) (hsplit : nameLabels name = labels ++ more)
    (hshort : ∀ l ∈ labels, ShortLabel l) : ∀ l ∈ labels, ShortLabel l ∧ IsLower l :=
  fun l hl => ⟨hshort l hl, fun c hc => hlower c
    (mem_of_mem_nameLabels (by rw [hsplit]; exact mem_append_left _ hl) hc)⟩

section Read

variable {data rest : Bytes} {pos : ℕ} {name : List Char} (hlower : IsLower name)
  (hdrop : data.drop pos = writeLabels (nameLabels name) ++ 0 :: rest)
include hlower hdrop

theorem readName_short (hshort : ∀ l ∈ nameLabels name, ShortLabel l)
    (hcount : (nameLabels name).length ≤ 255) : readName data pos =
      .ok (joinLabels (nameLabels name), (writeLabels (nameLabels name)).length + 1) := by
  obtain ⟨hrun, hroot⟩ := readLabels_short pos (256 - (nameLabels name).length) [] hdrop
    (short_and_lower hlower (append_nil _).symm hshort)
  rw [Nat.sub_add_cancel (by omega)] at hrun
  rw [readName, hrun, show 256 - (nameLabels name).length = 255 - (nameLabels name).length + 1 by
    omega, readLabels_root hroot fun _ => Nat.le_add_right _ _, nil_append]
  simp only [Bool.false_eq_true, if_false, Except.ok.injEq, Prod.mk.injEq, true_and]
  omega

variable {c : ℕ} {more : List (List Char)}

theorem length_le_of_readName {labels : List (List Char)} {name' : List Char}
    (hsplit : nameLabels name = labels ++ more) (hshort : ∀ l ∈ labels, ShortLabel l)
    (h : readName data pos = .ok (name', c)) : labels.length ≤ 255 := by
  by_contra hlong
  have hsplit' : nameLabels name = labels.take 256 ++ (labels.drop 256 ++ more) := by
    rw [hsplit, ← append_assoc, take_append_drop]
  have hlen : (labels.take 256).length = 256 := by
    rw [length_take]
    omega
  rw [hsplit', writeLabels, flatMap_append, append_assoc] at hdrop
  obtain ⟨hrun, -⟩ := readLabels_short pos 0 [] hdrop
    (short_and_lower hlower hsplit' fun l hl => hshort l (mem_of_mem_take hl))
  rw [hlen] at hrun
  rw [readName, hrun] at h
  cases h

theorem pointer_of_readName {labels : List (List Char)} {long : List Char}
    (hsplit : nameLabels name = labels ++ long :: more) (hshort : ∀ l ∈ labels, ShortLabel l)
    (hlong : 192 ≤ (encode long).length) (h : readName data pos = .ok (name, c)) :
    192 ≤ (encode long).length % 256 ∧ c = 2 := by
  have hcount := length_le_of_readName hlower hdrop hsplit hshort h
  have hlabels := short_and_lower hlower hsplit hshort
  have hparts : ∀ l ∈ labels, l ≠ [] ∧ '.' ∉ l := fun l hl =>
    mem_nameLabels (by rw [hsplit]; exact mem_append_left _ hl)
  have hmem : long ∈ nameLabels name := by
    rw [hsplit]
    exact mem_append_right _ mem_cons_self
  have hdots := (mem_nameLabels hmem).2
  rw [hsplit, writeLabels, flatMap_append, append_assoc] at hdrop
  obtain ⟨hrun, hnext⟩ := readLabels_short pos (256 - labels.length) [] hdrop hlabels
  rw [Nat.sub_add_cancel (by omega), nil_append] at hrun
  rw [readName, hrun, show 256 - labels.length = 255 - labels.length + 1 by omega] at h
  rw [flatMap_cons, append_assoc, writeLabel, cons_append] at hnext
  have hbyte : (UInt8.ofNat (encode long).length).toNat =
      (encode long).length % 256 := UInt8.toNat_ofNat'
  rcases Nat.lt_or_ge ((encode long).length % 256) 192 with hlt | hge
  · exfalso
    rcases Nat.eq_zero_or_pos ((encode long).length % 256) with hzero | hpos
    · -- the length is read as the root
      have hb : UInt8.ofNat (encode long).length = 0 := UInt8.toNat_inj.mp (hbyte.trans hzero)
      rw [hb] at hnext
      rw [readLabels_root hnext fun _ => Nat.le_add_right _ _] at h
      simp only [Except.ok.injEq, Prod.mk.injEq] at h
      have hsame := nameLabels_joinLabels [] hparts
      rw [append_nil, h.1, hsplit] at hsame
      simpa [joinLabels, nameLabels_nil] using congrArg List.length hsame
    · -- the label is cut off
      rw [← take_append_drop ((encode long).length % 256) (encode long),
        append_assoc, take_append_drop] at hnext
      have hlen : ((encode long).take ((encode long).length % 256)).length =
          (encode long).length % 256 := by
        rw [length_take]
        exact Nat.min_eq_left (Nat.mod_le _ _)
      have hcut : (encode long).take ((encode long).length % 256) ≠ [] :=
        ne_nil_of_length_pos (by omega)
      rw [readLabels_label hnext (hbyte.trans hlen.symm) hcut (by omega)] at h
      obtain ⟨rest', hname⟩ := (of_readLabels h).1
      exact not_cut hparts hdots hcut (by omega) hsplit (hname.trans
        (congrArg joinLabels (append_assoc _ _ _)))
  · refine ⟨hge, ?_⟩
    obtain ⟨low, tail, htail⟩ := exists_cons_of_length_pos
      (show 0 < (encode long).length by omega)
    rw [readLabels_pointer (hnext.trans (by rw [htail, cons_append]))
      (by rw [← htail, hbyte]; exact hge)] at h
    exact (of_readLabels h).2 rfl

end Read

/-! ## Queries -/

theorem getU16_u16Bytes (v : UInt16) (rest : Bytes) : getU16 (u16Bytes v ++ rest) 0 = v :=
  ofNat_beNat_u16Bytes v

theorem getU16_add_two (v : UInt16) (rest : Bytes) (i : ℕ) :
    getU16 (u16Bytes v ++ rest) (i + 2) = getU16 rest i := rfl

theorem writeName_eq (name : List Char) :
    writeName name = writeLabels (nameLabels name) ++ [0] := by
  unfold writeName
  split
  · rename_i h
    rw [h, nameLabels_nil]
    rfl
  · rfl

def queryWithId (id : UInt16) (name : List Char) (qtype : UInt16) : Message :=
  { Message.query name qtype with id := id }

section Query

variable {id : UInt16} {name : List Char} {qtype : UInt16}

theorem toBytes_query : (queryWithId id name qtype).toBytes =
    u16Bytes id ++ (u16Bytes (Message.query name qtype).flags.toU16 ++ (u16Bytes 1 ++
      (u16Bytes 0 ++ (u16Bytes 0 ++ (u16Bytes 0 ++ (writeLabels (nameLabels (queryName name)) ++
        0 :: (u16Bytes qtype ++ u16Bytes classIn))))))) := by
  simp only [Message.toBytes, queryWithId, Message.query, flatMap_cons, flatMap_nil,
    append_nil, Question.toBytes, writeName_eq, append_assoc, singleton_append]
  rfl

theorem drop_toBytes_query : (queryWithId id name qtype).toBytes.drop 12 =
    writeLabels (nameLabels (queryName name)) ++ 0 :: (u16Bytes qtype ++ u16Bytes classIn) := by
  rw [toBytes_query]
  rfl

theorem header_query : getU16 (queryWithId id name qtype).toBytes 0 = id ∧
      getU16 (queryWithId id name qtype).toBytes 2 = (Message.query name qtype).flags.toU16 ∧
      getU16 (queryWithId id name qtype).toBytes 4 = 1 ∧
      getU16 (queryWithId id name qtype).toBytes 6 = 0 ∧
      getU16 (queryWithId id name qtype).toBytes 8 = 0 ∧
      getU16 (queryWithId id name qtype).toBytes 10 = 0 := by
  rw [toBytes_query]
  simp only [getU16_add_two, getU16_u16Bytes, true_and]

theorem fromBytes_toBytes_query : Message.fromBytes (queryWithId id name qtype).toBytes = (do
    let (question, _) ← readQuestion (queryWithId id name qtype).toBytes 12
    pure ⟨id, .fromU16 (Message.query name qtype).flags.toU16, [question], [], [], []⟩) := by
  have hlen : 12 ≤ (queryWithId id name qtype).toBytes.length := by
    rw [toBytes_query]
    simp only [length_append, length_u16Bytes]
    omega
  obtain ⟨h0, h2, h4, h6, h8, h10⟩ := @header_query id name qtype
  rw [fromBytes_of_le hlen, h0, h2, h4, h6, h8, h10]
  change (readMany (readQuestion (queryWithId id name qtype).toBytes) (0 + 1) 12 >>= _) = _
  rw [readMany]
  cases readQuestion (queryWithId id name qtype).toBytes 12 <;> rfl

def ReadsBack (id : UInt16) (name : List Char) (qtype : UInt16) : Prop :=
  ∃ m, Message.fromBytes (queryWithId id name qtype).toBytes = .ok m ∧ m.id = id ∧
    m.questions = (queryWithId id name qtype).questions

theorem readsBack_iff : ReadsBack id name qtype ↔
    ∃ pos, readQuestion (queryWithId id name qtype).toBytes 12 =
      .ok (⟨queryName name, qtype, classIn⟩, pos) := by
  unfold ReadsBack
  rw [fromBytes_toBytes_query]
  cases readQuestion (queryWithId id name qtype).toBytes 12 with
  | error e => exact iff_of_false (by rintro ⟨m, h, -⟩; cases h) (by rintro ⟨pos, h⟩; cases h)
  | ok r =>
    constructor
    · rintro ⟨m, hm, -, hq⟩
      cases hm
      exact ⟨r.2, congrArg Except.ok (Prod.ext (singleton_inj.mp hq) rfl)⟩
    · rintro ⟨pos, h⟩
      cases h
      exact ⟨_, rfl, rfl, rfl⟩

variable {data : Bytes} {labels : List (List Char)}

theorem getU16_eq_of_drop {rest : Bytes} {pos : ℕ} (h : data.drop pos = rest) (i : ℕ) :
    getU16 data (pos + i) = getU16 rest i := by
  subst h
  simp [getU16, getD_eq_getElem?_getD, Nat.add_assoc]

theorem readQuestion_eq_ok_iff {pos : ℕ} {q : Question} :
    (∃ next, readQuestion data pos = .ok (q, next)) ↔
      ∃ c, readName data pos = .ok (q.name, c) ∧ pos + c + 4 ≤ data.length ∧
        getU16 data (pos + c) = q.qtype ∧ getU16 data (pos + c + 2) = q.qclass := by
  constructor
  · rintro ⟨next, h⟩
    obtain ⟨⟨name, c⟩, hname, h⟩ := bind_eq_ok_iff.mp h
    dsimp only at h
    split at h
    · cases h
    rw [u16At_of_lt (by omega), ok_bind, u16At_of_lt (by omega), ok_bind] at h
    cases h
    exact ⟨c, hname, by omega, rfl, rfl⟩
  · rintro ⟨c, hname, hlen, htype, hclass⟩
    refine ⟨pos + c + 4, ?_⟩
    rw [readQuestion, hname, ok_bind]
    dsimp only
    rw [if_neg (by omega), u16At_of_lt (by omega), ok_bind, u16At_of_lt (by omega), ok_bind,
      htype, hclass]
    rfl

theorem readsBack_of_writable (h : Writable (queryName name)) : ReadsBack id name qtype := by
  rw [readsBack_iff, readQuestion_eq_ok_iff]
  have hlabels : (∀ l ∈ nameLabels (queryName name), ShortLabel l) ∧
      (nameLabels (queryName name)).length ≤ 255 ∧
      joinLabels (nameLabels (queryName name)) = queryName name := by
    rcases h with h | ⟨hall, hcount⟩
    · rw [h, nameLabels_nil]
      exact ⟨nofun, by simp, rfl⟩
    · have hsame : nameLabels (queryName name) = (queryName name).splitOn '.' :=
        filter_eq_self.mpr fun l hl => decide_eq_true (hall l hl).1
      rw [hsame]
      exact ⟨hall, hcount, intercalate_splitOn '.'⟩
  obtain ⟨hshort, hcount, hjoin⟩ := hlabels
  have hname := readName_short (isLower_queryName name) (@drop_toBytes_query id name qtype)
    hshort hcount
  rw [hjoin] at hname
  refine ⟨_, hname, ?_⟩
  have hdrop : (queryWithId id name qtype).toBytes.drop
      (12 + ((writeLabels (nameLabels (queryName name))).length + 1)) =
        u16Bytes qtype ++ u16Bytes classIn := by
    rw [← drop_drop, drop_toBytes_query, ← drop_drop, drop_left, drop_one, tail_cons]
  have hlen := congrArg List.length hdrop
  rw [length_drop, length_append, length_u16Bytes, length_u16Bytes] at hlen
  refine ⟨by omega, ?_, ?_⟩
  · exact (getU16_eq_of_drop hdrop 0).trans (getU16_u16Bytes qtype _)
  · rw [getU16_eq_of_drop hdrop 2, ← append_nil (u16Bytes classIn), getU16_add_two, getU16_u16Bytes]

/-! ## Other names -/

theorem exists_first_long (hne : ∀ l ∈ labels, l ≠ []) (h : ¬ ∀ l ∈ labels, ShortLabel l) :
    ∃ short long more, labels = short ++ long :: more ∧ (∀ l ∈ short, ShortLabel l) ∧
      192 ≤ (encode long).length := by
  induction labels with
  | nil => exact absurd (fun _ h => nomatch h) h
  | cons label labels ih =>
    have hlabel := hne label mem_cons_self
    by_cases hshort : ShortLabel label
    · have hrest : ¬ ∀ l ∈ labels, ShortLabel l := fun hall =>
        h (forall_mem_cons.mpr ⟨hshort, hall⟩)
      obtain ⟨short, long, more, rfl, hall, hlong⟩ :=
        ih (fun l hl => hne l (mem_cons_of_mem _ hl)) hrest
      exact ⟨label :: short, long, more, rfl, forall_mem_cons.mpr ⟨hshort, hall⟩, hlong⟩
    · exact ⟨[], label, labels, rfl, nofun, Nat.not_lt.mp fun hlt => hshort ⟨hlabel, hlt⟩⟩

variable {i : ℕ}

theorem eq_zero_of_getU16 (h : getU16 data i = 1) : data.getD i 0 = 0 := by
  have hlt : beNat [data.getD i 0, data.getD (i + 1) 0] < 2 ^ 16 :=
    (beNat_lt _).trans_eq (by norm_num)
  have hval : beNat [data.getD i 0, data.getD (i + 1) 0] = 1 := by
    have := congrArg UInt16.toNat h
    rwa [getU16, UInt16.toNat_ofNat', Nat.mod_eq_of_lt hlt] at this
  apply UInt8.toNat_inj.mp
  simp only [beNat, length_cons, length_nil] at hval
  change (data.getD i 0).toNat = 0
  omega

theorem ne_zero_of_mem_writeLabels (h : ∀ l ∈ labels, (encode l).length % 256 ≠ 0 ∧ '\x00' ∉ l) :
    ∀ b ∈ writeLabels labels, b ≠ 0 := by
  rintro b hb rfl
  obtain ⟨l, hl, hb⟩ := mem_flatMap.mp hb
  obtain ⟨hlen, hnul⟩ := h l hl
  rcases mem_cons.mp hb with hb | hb
  · have := congrArg UInt8.toNat hb
    rw [UInt8.toNat_ofNat'] at this
    exact hlen this.symm
  · exact hnul (mem_of_mem_encode (by decide) hb)

def PointerLabels (name : List Char) (labels : List (List Char)) : Prop :=
  (∃ more, nameLabels name = labels ++ more) ∧ 4 < (writeLabels labels).length ∧
    ∀ l ∈ labels, (encode l).length % 256 ≠ 0

theorem PointerLabels.getD (h : PointerLabels (queryName name) labels) (hi : i ≤ 4) :
    (queryWithId id name qtype).toBytes.getD (12 + i) 0 = (writeLabels labels).getD i 0 := by
  obtain ⟨⟨more, hsplit⟩, hlen, -⟩ := h
  have hdrop := @drop_toBytes_query id name qtype
  rw [hsplit, writeLabels, flatMap_append, append_assoc] at hdrop
  have hget := congrArg (List.getD · i 0) hdrop
  rw [← writeLabels] at hget
  simp only [getD_eq_getElem?_getD, getElem?_drop,
    getElem?_append_left (show i < (writeLabels labels).length by omega)] at hget ⊢
  exact hget

theorem writable_or_pointer (h : ReadsBack id name qtype) :
    Writable (queryName name) ∨ ∃ labels, PointerLabels (queryName name) labels ∧
      getU16 (queryWithId id name qtype).toBytes 14 = qtype ∧
      getU16 (queryWithId id name qtype).toBytes 16 = classIn := by
  rw [readsBack_iff, readQuestion_eq_ok_iff] at h
  obtain ⟨c, hname, -, htype, hclass⟩ := h
  have hlower := isLower_queryName name
  have hdrop := @drop_toBytes_query id name qtype
  by_cases hshort : ∀ l ∈ nameLabels (queryName name), ShortLabel l
  · have hcount := length_le_of_readName hlower hdrop (append_nil _).symm hshort hname
    rw [readName_short hlower hdrop hshort hcount] at hname
    simp only [Except.ok.injEq, Prod.mk.injEq] at hname
    by_cases hnil : nameLabels (queryName name) = []
    · refine .inl (.inl ?_)
      rw [← hname.1, hnil]
      rfl
    · refine .inl (.inr ?_)
      have hsplit : (joinLabels (nameLabels (queryName name))).splitOn '.' =
          nameLabels (queryName name) :=
        splitOn_intercalate '.' (fun l hl => (mem_nameLabels hl).2) hnil
      rw [hname.1] at hsplit
      rw [hsplit]
      exact ⟨hshort, hcount⟩
  · -- the first label that is not short is read as a pointer
    obtain ⟨labels, long, more, hsplit, hlabels, hlong⟩ := exists_first_long
      (fun l hl => (mem_nameLabels hl).1) hshort
    obtain ⟨hmod, rfl⟩ := pointer_of_readName hlower hdrop hsplit hlabels hlong hname
    refine .inr ⟨labels ++ [long], ⟨⟨more, by rw [hsplit, append_assoc]; rfl⟩, ?_, ?_⟩,
      htype, hclass⟩
    · rw [writeLabels, flatMap_append, length_append, flatMap_singleton, writeLabel,
        length_cons]
      omega
    · intro l hl
      rcases mem_append.mp hl with hl | hl
      · have hpos := length_pos_of_ne_nil (encode_ne_nil (hlabels l hl).1)
        have hlt := (hlabels l hl).2
        omega
      · rw [mem_singleton.mp hl]
        omega

theorem writable_of_readsBack (hnul : '\x00' ∉ queryName name) (h : ReadsBack id name qtype) :
    Writable (queryName name) := by
  refine (writable_or_pointer h).resolve_right ?_
  rintro ⟨labels, hlabels, -, hclass⟩
  have hzero := eq_zero_of_getU16 hclass
  rw [show 16 = 12 + 4 from rfl, hlabels.getD le_rfl] at hzero
  obtain ⟨⟨more, hsplit⟩, hlen, hbytes⟩ := hlabels
  refine ne_zero_of_mem_writeLabels (fun l hl => ⟨hbytes l hl, fun hc => hnul ?_⟩) _ ?_ hzero
  · exact mem_of_mem_nameLabels (by rw [hsplit]; exact mem_append_left _ hl) hc
  · rw [getD_eq_getElem _ _ hlen]
    exact getElem_mem hlen

end Query

theorem writable_of_forall_readsBack
    (h : ∀ id qtype, ReadsBack id name qtype) : Writable (queryName name) := by
  rcases writable_or_pointer (h 0 0) with hw | ⟨labels, hlabels, htype, -⟩
  · exact hw
  rcases writable_or_pointer (h 0 1) with hw | ⟨labels', hlabels', htype', -⟩
  · exact hw
  have hsame : getU16 (queryWithId 0 name 0).toBytes 14 =
      getU16 (queryWithId 0 name 1).toBytes 14 := by
    rw [getU16, getU16, show 14 = 12 + 2 from rfl, show 12 + 2 + 1 = 12 + 3 from rfl,
      hlabels.getD (by omega), hlabels.getD (by omega), hlabels.getD (by omega),
      hlabels.getD (by omega)]
  rw [htype, htype'] at hsame
  exact absurd hsame (by decide)

/-- The decoder does not panic, and it gives back the identifier and the question of the
queries with a name exactly if the name is writable; without NUL in the name, of each query by
itself. -/
theorem fromBytes_total_and_query_iff (data : Bytes) (name : List Char) :
    Message.fromBytes data ≠ .error .panic ∧
      ((∀ id qtype, ReadsBack id name qtype) ↔ Writable (queryName name)) ∧
      ('\x00' ∉ queryName name → ∀ id qtype,
        (ReadsBack id name qtype ↔ Writable (queryName name))) :=
  ⟨fromBytes_ne_panic data,
    ⟨writable_of_forall_readsBack, fun h _ _ => readsBack_of_writable h⟩,
    fun hnul _ _ => ⟨writable_of_readsBack hnul, readsBack_of_writable⟩⟩

/-- A query whose name fits. -/
theorem example_query_reads_back : ReadsBack 7 "Example.com.".toList 1 := by
  refine ((fromBytes_total_and_query_iff [] "Example.com.".toList).2.2 (by decide +kernel) 7 1).mpr
    (.inr ⟨?_, by decide +kernel⟩)
  have hsplit : (queryName "Example.com.".toList).splitOn '.' =
      ["example".toList, "com".toList] := by decide +kernel
  rw [hsplit]
  decide +kernel

/-- A label of 200 bytes is read as a pointer behind the end, and an empty label is left
out. -/
theorem long_and_empty_labels_lost :
    Message.fromBytes (queryWithId 0 (List.replicate 200 'a') 1).toBytes =
        .error (.error .truncated) ∧
      (Message.fromBytes (queryWithId 0 "a..b".toList 1).toBytes).map (·.questions) =
        .ok [⟨"a.b".toList, 1, 1⟩] ∧
      (queryWithId 0 "a..b".toList 1).questions = [⟨"a..b".toList, 1, 1⟩] := by
  decide +kernel

end TptRfc.Doh
