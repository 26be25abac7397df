import TptRfc.Lib.Access
import TptRfc.Ospf.RoundTrip

/-!
# OSPF: version 3 headers and LSAs

`LsaHeader::encode` writes a version 3 type in two bytes and then the options, so a version 3 header
has 21 bytes.
-/

namespace TptRfc.Ospf

open Lib List Parser

/-! ## Reads of repeated bytes -/

variable {data : Bytes} {i : ℕ}

theorem byteAt_append_left {rest : Bytes} (h : i < data.length) :
    byteAt (data ++ rest) i = byteAt data i := by
  simp only [byteAt, getD_eq_getElem?_getD, getElem?_append_left h]

theorem byteAt_append_right {rest : Bytes} (h : data.length ≤ i) :
    byteAt (data ++ rest) i = byteAt rest (i - data.length) := by
  simp only [byteAt, getD_eq_getElem?_getD, getElem?_append_right h]

theorem byteAt_take {n : ℕ} (h : i < n) : byteAt (data.take n) i = byteAt data i := by
  simp only [byteAt, getD_eq_getElem?_getD, getElem?_take_of_lt h]

theorem byteAt_replicate {n : ℕ} {o : UInt8} (h : i < n) : byteAt (List.replicate n o) i = o := by
  simp [byteAt, getD_eq_getElem?_getD, h]

def word16 (o : UInt8) : UInt16 := UInt16.ofNat (beNat [o, o])

def word32 (o : UInt8) : UInt32 := UInt32.ofNat (beNat [o, o, o, o])

def Ip4.constant (o : UInt8) : Ip4 := ⟨o, o, o, o⟩

theorem u16Bytes_ofNat_beNat (a b : UInt8) : u16Bytes (UInt16.ofNat (beNat [a, b])) = [a, b] := by
  have hlt : beNat [a, b] < 2 ^ 16 := by simpa using beNat_lt [a, b]
  rw [u16Bytes, UInt16.toNat_ofNat', Nat.mod_eq_of_lt hlt]
  exact beBytes_beNat [a, b]

theorem u32Bytes_ofNat_beNat (a b c d : UInt8) :
    u32Bytes (UInt32.ofNat (beNat [a, b, c, d])) = [a, b, c, d] := by
  have hlt : beNat [a, b, c, d] < 2 ^ 32 := by simpa using beNat_lt [a, b, c, d]
  rw [u32Bytes, UInt32.toNat_ofNat', Nat.mod_eq_of_lt hlt]
  exact beBytes_beNat [a, b, c, d]

/-! ## Headers -/

namespace LsaHeader

variable {h : LsaHeader} {data : Bytes}

theorem length_encode_v3 (hv : h.version = .v3) : h.encode.length = 21 := by
  simp [encode, hv]

theorem decode_v3_eq_ok_iff : decode .v3 data = .ok h ↔ lsaHeaderLen ≤ data.length ∧ h =
      { version := .v3, age := u16At data 0, options := byteAt data 4,
        lsaType := u16At data 2, linkStateId := ipAt data 4, advertisingRouter := ipAt data 8,
        sequenceNumber := u32At data 12, checksum := u16At data 16, length := u16At data 18 } := by
  unfold decode
  split_ifs with hlen
  · exact iff_of_false nofun fun h => absurd h.1 (by omega)
  · rw [and_iff_right (by omega), Except.ok.injEq, eq_comm]

theorem decode_v3_append (hdec : decode .v3 data = .ok h)
    (rest : Bytes) : decode .v3 (data ++ rest) = .ok h := by
  obtain ⟨hlen, rfl⟩ := decode_v3_eq_ok_iff.mp hdec
  have hbyte : ∀ i < 20, byteAt (data ++ rest) i = byteAt data i := fun i hi =>
    byteAt_append_left (lt_of_lt_of_le hi hlen)
  rw [decode_v3_eq_ok_iff.mpr ⟨by rw [length_append]; omega, rfl⟩]
  simp only [u16At, u32At, ipAt]
  simp (disch := omega) only [hbyte]

theorem encode_of_decode_v3 (hdec : decode .v3 data = .ok h) {i : ℕ} (hi : i < 21) :
    byteAt h.encode i = byteAt data (if i ≤ 4 then i else i - 1) := by
  obtain ⟨-, rfl⟩ := decode_v3_eq_ok_iff.mp hdec
  simp only [encode, u16At, u32At, ipAt, Ip4.bytes, u16Bytes_ofNat_beNat, u32Bytes_ofNat_beNat]
  interval_cases i <;> rfl

def constant (age lsaType : UInt16) (o : UInt8) : LsaHeader :=
  { version := .v3
    age := age
    options := o
    lsaType := lsaType
    linkStateId := .constant o
    advertisingRouter := .constant o
    sequenceNumber := word32 o
    checksum := word16 o
    length := word16 o }

theorem encode_constant (age lsaType : UInt16) (o : UInt8) : (constant age lsaType o).encode =
      u16Bytes age ++ u16Bytes lsaType ++ List.replicate 17 o := by
  simp [encode, constant, Ip4.constant, Ip4.bytes, word16, word32, u16Bytes_ofNat_beNat,
    u32Bytes_ofNat_beNat, append_assoc, List.replicate]

theorem encode_constant_word (o : UInt8) :
    (constant (word16 o) (word16 o) o).encode = List.replicate 21 o := by
  rw [encode_constant, word16, u16Bytes_ofNat_beNat]
  rfl

theorem decode_constant {o : UInt8} (hlen : lsaHeaderLen ≤ data.length)
    (h : ∀ i, 4 ≤ i → i < 20 → byteAt data i = o) :
    decode .v3 data = .ok (constant (u16At data 0) (u16At data 2) o) := by
  have hword : ∀ i, 4 ≤ i → i < 19 → u16At data i = word16 o := by
    intro i hi hi'
    rw [u16At, h i hi (by omega), h (i + 1) (by omega) (by omega), word16]
  rw [decode_v3_eq_ok_iff.mpr ⟨hlen, rfl⟩, constant]
  simp (disch := omega) only [u32At, ipAt, hword, h, Ip4.constant, word32]

theorem decode_constant_append (age lsaType : UInt16) (o : UInt8) (rest : Bytes) :
    decode .v3 (u16Bytes age ++ u16Bytes lsaType ++ List.replicate 16 o ++ rest) =
      .ok (constant age lsaType o) := by
  rw [decode_constant (o := o) (by simp [lsaHeaderLen]; omega) ?_]
  · congr 2
    · exact ofNat_beNat_u16Bytes age
    · exact ofNat_beNat_u16Bytes lsaType
  · intro i hi hi'
    rw [byteAt_append_left (by simp; omega), byteAt_append_right (by simpa using hi),
      byteAt_replicate (by simp; omega)]

/-- A header that is read back from its own encoding, whatever stands behind its
first `n` bytes, has the same byte from its options to the byte before the `n`-th. -/
theorem bytes_of_self_decode (hdec : decode .v3 data = .ok h)
    {n : ℕ} (hn : n ≤ 20) (hself : ∀ i < n, byteAt data i = byteAt h.encode i) :
    ∀ i, 4 ≤ i → i < n → byteAt data i = byteAt data 4 := by
  intro i
  induction i with
  | zero => omega
  | succ i ih =>
    intro hge hlt
    by_cases h4 : i + 1 = 4
    · rw [h4]
    · rw [hself _ hlt, encode_of_decode_v3 hdec (by omega), if_neg (by omega),
        Nat.add_sub_cancel]
      exact ih (by omega) (by omega)

theorem bytes_of_late_decode {o : UInt8} {j : ℕ} (hj : 1 ≤ j)
    (hdec : decode .v3 data = .ok h) (hpre : ∀ i < 20, i < j → byteAt data i = o)
    (hlate : ∀ i < 20, j ≤ i → byteAt data i = byteAt h.encode (i - j)) :
    ∀ i < 20, byteAt data i = o := by
  intro i
  induction i using Nat.strong_induction_on with
  | _ i ih =>
    intro hi
    by_cases hlt : i < j
    · exact hpre i hi hlt
    · rw [hlate i hi (by omega), encode_of_decode_v3 hdec (by omega)]
      split
      · exact ih _ (by omega) (by omega)
      · exact ih _ (by omega) (by omega)

end LsaHeader

/-! ## Lists of headers -/

namespace Reader

variable {h : LsaHeader} {mid : Bytes}

theorem header_eq_ok_iff {version : OspfVersion} {b : Bytes} : header version b = .ok (h, mid) ↔
      LsaHeader.decode version (b.take lsaHeaderLen) = .ok h ∧ mid = b.drop lsaHeaderLen := by
  unfold header
  cases LsaHeader.decode version (b.take lsaHeaderLen) with
  | error e => simp [Except.map]
  | ok h' => simp [Except.map, eq_comm]

theorem shrinks_header (version : OspfVersion) : Shrinks (header version) := by
  intro b h rest hok
  obtain ⟨hdec, rfl⟩ := header_eq_ok_iff.mp hok
  unfold LsaHeader.decode at hdec
  split at hdec
  · cases hdec
  · rename_i hlen
    simp only [length_take, lsaHeaderLen, length_drop] at hlen ⊢
    omega

theorem header_late_iff (hv : h.version = .v3) {o : UInt8} {j : ℕ} (hj : 1 ≤ j) {rest : Bytes} :
    header .v3 (List.replicate j o ++ (h.encode ++ rest)) = .ok (h, mid) ↔
      h = .constant (word16 o) (word16 o) o ∧ mid = List.replicate (j + 1) o ++ rest := by
  rw [header_eq_ok_iff]
  have hlen := LsaHeader.length_encode_v3 hv
  set data := (List.replicate j o ++ (h.encode ++ rest)).take lsaHeaderLen with hdata
  have hlong : lsaHeaderLen ≤ data.length := by
    simp only [hdata, length_take, length_append, length_replicate, hlen, lsaHeaderLen]
    omega
  have hpre : ∀ i < 20, i < j → byteAt data i = o := by
    intro i hi hij
    rw [hdata, byteAt_take (n := lsaHeaderLen) hi, byteAt_append_left (by simpa using hij),
      byteAt_replicate hij]
  have hlate : ∀ i < 20, j ≤ i → byteAt data i = byteAt h.encode (i - j) := by
    intro i hi hij
    rw [hdata, byteAt_take (n := lsaHeaderLen) hi, byteAt_append_right (by simpa using hij),
      length_replicate, byteAt_append_left (by omega)]
  -- behind a header of `o` only, the reader is one more `o` late
  have hdrop : h = .constant (word16 o) (word16 o) o →
      (List.replicate j o ++ (h.encode ++ rest)).drop lsaHeaderLen =
        List.replicate (j + 1) o ++ rest := by
    intro hconst
    rw [hconst, LsaHeader.encode_constant_word, ← append_assoc,
      replicate_append_replicate,
      drop_append_of_le_length (by simp [lsaHeaderLen]), drop_replicate]
    rfl
  have hread : (∀ i < 20, byteAt data i = o) →
      LsaHeader.decode .v3 data = .ok (.constant (word16 o) (word16 o) o) := by
    intro hall
    rw [LsaHeader.decode_constant hlong fun i _ hi => hall i hi, u16At, u16At,
      hall 0 (by omega), hall 1 (by omega), hall 2 (by omega), hall 3 (by omega)]
    rfl
  constructor
  · rintro ⟨hdec, rfl⟩
    have hall := LsaHeader.bytes_of_late_decode hj hdec hpre hlate
    rw [hread hall] at hdec
    have hconst := (Except.ok.inj hdec).symm
    exact ⟨hconst, hdrop hconst⟩
  · rintro ⟨hconst, rfl⟩
    refine ⟨?_, (hdrop hconst).symm⟩
    rw [hread, hconst]
    intro i hi
    by_cases hij : i < j
    · exact hpre i hi hij
    · rw [hlate i hi (by omega), hconst, LsaHeader.encode_constant_word,
        byteAt_replicate (by omega)]

theorem header_in_time_iff (hv : h.version = .v3) {rest : Bytes} :
    header .v3 (h.encode ++ rest) = .ok (h, mid) ↔
      ∃ age lsaType o, h = .constant age lsaType o ∧ mid = o :: rest := by
  rw [header_eq_ok_iff]
  have hlen := LsaHeader.length_encode_v3 hv
  have hself : ∀ i < 20, byteAt ((h.encode ++ rest).take lsaHeaderLen) i = byteAt h.encode i := by
    intro i hi
    rw [byteAt_take (n := lsaHeaderLen) hi, byteAt_append_left (by omega)]
  have hlong : lsaHeaderLen ≤ ((h.encode ++ rest).take lsaHeaderLen).length := by
    simp only [length_take, length_append, hlen, lsaHeaderLen]
    omega
  have hdrop : ∀ age lsaType o, h = .constant age lsaType o →
      (h.encode ++ rest).drop lsaHeaderLen = o :: rest := by
    intro age lsaType o hconst
    rw [hconst, LsaHeader.encode_constant]
    rfl
  constructor
  · rintro ⟨hdec, rfl⟩
    have hsame := LsaHeader.bytes_of_self_decode hdec le_rfl hself
    rw [LsaHeader.decode_constant hlong hsame] at hdec
    have hconst := (Except.ok.inj hdec).symm
    exact ⟨_, _, _, hconst, hdrop _ _ _ hconst⟩
  · rintro ⟨age, lsaType, o, hconst, rfl⟩
    refine ⟨?_, (hdrop _ _ _ hconst).symm⟩
    have hread := LsaHeader.decode_constant_append age lsaType o []
    rw [append_nil] at hread
    rw [hconst, LsaHeader.encode_constant, ← hread]
    rfl

end Reader

/-- The lists of headers that the version 3 codec returns: everything behind the
first type is one byte repeated, and fewer than 20 headers, so that the bytes the
reader is behind by do not make another header. -/
def Repetitive : List LsaHeader → Prop
  | [] => True
  | h :: hs => ∃ age lsaType o, h = .constant age lsaType o ∧
      (∀ h' ∈ hs, h' = .constant (word16 o) (word16 o) o) ∧ hs.length + 1 < lsaHeaderLen

theorem lsaHeaderLen_pos : 0 < lsaHeaderLen := by decide

theorem headers_late_iff (o : UInt8) : ∀ (hs : List LsaHeader) (j : ℕ), 1 ≤ j →
    (∀ h ∈ hs, h.version = .v3) → ((∃ rest, whileRemaining lsaHeaderLen (Reader.header .v3)
        (List.replicate j o ++ hs.flatMap LsaHeader.encode) = .ok (hs, rest)) ↔
      (∀ h ∈ hs, h = .constant (word16 o) (word16 o) o) ∧ j + hs.length < lsaHeaderLen) := by
  intro hs
  induction hs with
  | nil =>
    intro j _ _
    simp only [whileRemaining_eq_ok_nil_iff lsaHeaderLen_pos (Reader.shrinks_header .v3),
      flatMap_nil, append_nil, length_replicate, length_nil]
    simp
  | cons h hs ih =>
    intro j hj hv
    have hrec := ih (j + 1) (by omega) fun h' hh' => hv h' (mem_cons_of_mem _ hh')
    have hfirst := hv h mem_cons_self
    simp only [whileRemaining_eq_ok_cons_iff lsaHeaderLen_pos (Reader.shrinks_header .v3),
      flatMap_cons, Reader.header_late_iff hfirst hj]
    have hlong : lsaHeaderLen ≤
        (List.replicate j o ++ (h.encode ++ hs.flatMap LsaHeader.encode)).length := by
      simp only [length_append, LsaHeader.length_encode_v3 hfirst, lsaHeaderLen]
      omega
    constructor
    · rintro ⟨rest, -, mid, ⟨hconst, rfl⟩, hloop⟩
      obtain ⟨hall, hcount⟩ := hrec.mp ⟨rest, hloop⟩
      refine ⟨?_, by rw [length_cons]; omega⟩
      intro h' hh'
      rcases mem_cons.mp hh' with rfl | hh'
      · exact hconst
      · exact hall h' hh'
    · rintro ⟨hall, hcount⟩
      rw [length_cons] at hcount
      obtain ⟨rest, hloop⟩ := hrec.mpr
        ⟨fun h' hh' => hall h' (mem_cons_of_mem _ hh'), by omega⟩
      exact ⟨rest, hlong, _, ⟨hall h mem_cons_self, rfl⟩, hloop⟩

theorem headers_survive_iff {hs : List LsaHeader} (hv : ∀ h ∈ hs, h.version = .v3) :
    (∃ rest, whileRemaining lsaHeaderLen (Reader.header .v3)
        (hs.flatMap LsaHeader.encode) = .ok (hs, rest)) ↔ Repetitive hs := by
  cases hs with
  | nil =>
    simp only [whileRemaining_eq_ok_nil_iff lsaHeaderLen_pos (Reader.shrinks_header .v3),
      flatMap_nil, length_nil, Repetitive]
    exact ⟨fun _ => trivial, fun _ => ⟨[], by decide, rfl⟩⟩
  | cons h hs =>
    have hfirst := hv h mem_cons_self
    have hlate := fun o => headers_late_iff o hs 1 le_rfl
      fun h' hh' => hv h' (mem_cons_of_mem _ hh')
    simp only [whileRemaining_eq_ok_cons_iff lsaHeaderLen_pos (Reader.shrinks_header .v3),
      flatMap_cons, Reader.header_in_time_iff hfirst, Repetitive]
    have hlong : lsaHeaderLen ≤ (h.encode ++ hs.flatMap LsaHeader.encode).length := by
      simp only [length_append, LsaHeader.length_encode_v3 hfirst, lsaHeaderLen]
      omega
    constructor
    · rintro ⟨rest, -, mid, ⟨age, lsaType, o, hconst, rfl⟩, hloop⟩
      obtain ⟨hall, hcount⟩ := (hlate o).mp ⟨rest, hloop⟩
      exact ⟨age, lsaType, o, hconst, hall, by omega⟩
    · rintro ⟨age, lsaType, o, hconst, hall, hcount⟩
      obtain ⟨rest, hloop⟩ := (hlate o).mpr ⟨hall, by omega⟩
      exact ⟨rest, hlong, _, ⟨age, lsaType, o, hconst, rfl⟩, hloop⟩

/-! ## LSAs -/

namespace LsaHeader

theorem encode_v3_split {h : LsaHeader} (hv : h.version = .v3) : ∃ pre : Bytes, pre.length = 19 ∧
      ∀ len, ({ h with length := len } : LsaHeader).encode = pre ++ u16Bytes len := by
  refine ⟨u16Bytes h.age ++ (u16Bytes h.lsaType ++ [h.options]) ++ h.linkStateId.bytes ++
    h.advertisingRouter.bytes ++ u32Bytes h.sequenceNumber ++ u16Bytes h.checksum, ?_, ?_⟩
  · simp
  · intro len
    simp only [encode, hv]

end LsaHeader

theorem RouterLsa.decode_v3_eq_ok {r : RouterLsa} (h : RouterLsa.decode .v3 data = .ok r) :
    LsaHeader.decode .v3 data = .ok r.header ∧
      r.links.length = (byteAt (data.drop lsaHeaderLen) 1).toNat := by
  obtain ⟨header, hheader, h⟩ := Access.bind_eq_ok_iff.mp h
  dsimp only at h
  split at h
  · cases h
  · obtain ⟨links, hlinks, h⟩ := Access.bind_eq_ok_iff.mp h
    cases h
    exact ⟨hheader, length_of_times hlinks⟩

theorem NetworkLsa.decode_v3_eq_ok_iff {n : NetworkLsa} : NetworkLsa.decode .v3 data = .ok n ↔
      LsaHeader.decode .v3 data = .ok n.header ∧ 4 ≤ (data.drop lsaHeaderLen).length ∧
        n.networkMask = ipAt (data.drop lsaHeaderLen) 0 ∧
        ∃ rest, whileRemaining 4 ipParser ((data.drop lsaHeaderLen).drop 4) =
          .ok (n.attachedRouters, rest) := by
  unfold NetworkLsa.decode
  cases LsaHeader.decode .v3 data with
  | error e => simp [bind, Except.bind]
  | ok header =>
    simp only [bind, Except.bind]
    split
    · rename_i hshort
      exact iff_of_false nofun fun h => absurd h.2.1 (by omega)
    · rename_i hlong
      cases whileRemaining 4 ipParser ((data.drop lsaHeaderLen).drop 4) with
      | error e => simp
      | ok attached =>
        constructor
        · rintro ⟨⟩
          exact ⟨rfl, by omega, rfl, attached.2, rfl⟩
        · rintro ⟨hheader, -, hmask, rest, hattached⟩
          cases hheader
          cases hattached
          rw [← hmask]
          rfl

namespace Lsa

structure FitsV3 (l : Lsa) : Prop where
  version : l.header.version = .v3
  lsaType : match l with
    | router r => r.header.lsaType = 0x2001
    | network n => n.header.lsaType = 0x2002
    | raw r => r.header.lsaType ≠ 0x2001 ∧ r.header.lsaType ≠ 0x2002
  links : ∀ r, l = router r → r.links.length ≤ 255
  length : l.header.length.toNat = l.encode.length

variable {l : Lsa}

theorem decode_v3_eq_ok {data : Bytes} (h : decode .v3 data = .ok l) :
    LsaHeader.decode .v3 data = .ok l.header ∧
      match l with
      | router r => RouterLsa.decode .v3 data = .ok r
      | network n => NetworkLsa.decode .v3 data = .ok n
      | raw r => r.body = data.drop lsaHeaderLen := by
  obtain ⟨header, hheader, h⟩ := Access.bind_eq_ok_iff.mp h
  dsimp only at h
  split at h
  · obtain ⟨r, hdec, rfl⟩ := Access.map_eq_ok h
    exact ⟨(RouterLsa.decode_v3_eq_ok hdec).1, hdec⟩
  · split at h
    · obtain ⟨n, hdec, rfl⟩ := Access.map_eq_ok h
      exact ⟨(NetworkLsa.decode_v3_eq_ok_iff.mp hdec).1, hdec⟩
    · rw [RawLsa.decode, hheader] at h
      cases h
      exact ⟨hheader, rfl⟩

theorem encode_v3 (hv : l.header.version = .v3) :
    ∃ pre : Bytes, pre.length = 19 ∧ l.header.encode = pre ++ u16Bytes l.header.length ∧
      l.encode = pre ++ (UInt8.ofNat ((20 + l.body.length) / 256) ::
        UInt8.ofNat (20 + l.body.length) :: l.body) := by
  obtain ⟨pre, hpre, henc⟩ := LsaHeader.encode_v3_split hv
  refine ⟨pre, hpre, henc l.header.length, ?_⟩
  have hlen : u16Bytes (UInt16.ofNat (lsaHeaderLen + l.body.length)) =
      [UInt8.ofNat ((20 + l.body.length) / 256), UInt8.ofNat (20 + l.body.length)] := by
    rw [u16Bytes, UInt16.toNat_ofNat', show (2 : ℕ) ^ 16 = 256 ^ 2 from rfl,
      beBytes_mod 2 _ 2 le_rfl]
    simp [beBytes, lsaHeaderLen]
  rw [encode_eq, LsaHeader.encodeWithBody, henc, hlen]
  simp

theorem length_encode_v3 (hv : l.header.version = .v3) : l.encode.length = 21 + l.body.length := by
  obtain ⟨pre, hpre, -, henc⟩ := encode_v3 hv
  rw [henc]
  simp only [length_append, length_cons, hpre]
  omega

theorem drop_encode_v3 (hv : l.header.version = .v3) :
    l.encode.drop lsaHeaderLen = UInt8.ofNat (20 + l.body.length) :: l.body := by
  obtain ⟨pre, hpre, -, henc⟩ := encode_v3 hv
  rw [henc, show lsaHeaderLen = pre.length + 1 by rw [hpre]; rfl, ← drop_drop, drop_left]
  rfl

theorem length_of_self_decode (hfits : l.FitsV3)
    (hdec : LsaHeader.decode .v3 l.encode = .ok l.header) :
    ∃ o : UInt8, (∀ i, 4 ≤ i → i < 19 → byteAt l.encode i = o) ∧
      byteAt l.encode 19 = UInt8.ofNat ((20 + l.body.length) / 256) ∧
      256 * o.toNat + (20 + l.body.length) / 256 = 21 + l.body.length := by
  obtain ⟨pre, hpre, hheader, henc⟩ := encode_v3 hfits.version
  have hself : ∀ i < 19, byteAt l.encode i = byteAt l.header.encode i := by
    intro i hi
    rw [henc, hheader, byteAt_append_left (by omega), byteAt_append_left (by omega)]
  have hsame := LsaHeader.bytes_of_self_decode hdec (by omega) hself
  have h19 : byteAt l.encode 19 = UInt8.ofNat ((20 + l.body.length) / 256) := by
    rw [henc, byteAt_append_right (by omega), hpre]
    rfl
  refine ⟨byteAt l.encode 4, hsame, h19, ?_⟩
  have hlength : l.header.length = u16At l.encode 18 :=
    congrArg LsaHeader.length (LsaHeader.decode_v3_eq_ok_iff.mp hdec).2
  have hnat := hfits.length
  have hsize := l.header.length.toNat_lt
  rw [length_encode_v3 hfits.version] at hnat
  have hval : (u16At l.encode 18).toNat =
      256 * (byteAt l.encode 4).toNat + (20 + l.body.length) / 256 := by
    have hlt := beNat_lt [byteAt l.encode 4, UInt8.ofNat ((20 + l.body.length) / 256)]
    rw [u16At, hsame 18 (by omega) (by omega), h19, UInt16.toNat_ofNat',
      Nat.mod_eq_of_lt (by simpa using hlt)]
    simp only [beNat, length_cons, length_nil, UInt8.toNat_ofNat']
    omega
  rw [← hval, ← hlength, hnat]

def constantNetwork (age : UInt16) (o : UInt8) : NetworkLsa :=
  { header := .constant age 0x2002 o
    networkMask := .constant (o - 1)
    attachedRouters := List.replicate ((257 * o.toNat - 25) / 4) (.constant (o - 1)) }

def SurvivesV3 (l : Lsa) : Prop := ∃ age o, o.toNat % 4 = 1 ∧ l = network (constantNetwork age o)

end Lsa

theorem shrinks_ipParser : Shrinks ipParser := by
  intro bytes ip rest h
  unfold ipParser at h
  split at h
  · cases h
  · cases h
    simp only [length_drop]
    omega

theorem Ip4.eq_constant_of_late {x : UInt8} {ip : Ip4} (h : (⟨x, ip.a, ip.b, ip.c⟩ : Ip4) = ip) :
    ip = .constant x := by
  obtain ⟨a, b, c, d⟩ := ip
  simp only [Ip4.mk.injEq] at h
  obtain ⟨rfl, rfl, rfl, rfl⟩ := h
  rfl

theorem routers_late_iff (x : UInt8) (ips : List Ip4) :
    (∃ rest, whileRemaining 4 ipParser (x :: ips.flatMap Ip4.bytes) = .ok (ips, rest)) ↔
      ∀ ip ∈ ips, ip = .constant x := by
  induction ips with
  | nil =>
    simp only [whileRemaining_eq_ok_nil_iff (k := 4) (by decide) shrinks_ipParser, flatMap_nil]
    simp
  | cons ip ips ih =>
    have hread : ipParser (x :: (ip :: ips).flatMap Ip4.bytes) =
        .ok (⟨x, ip.a, ip.b, ip.c⟩, ip.d :: ips.flatMap Ip4.bytes) := by
      rw [ipParser, if_neg (by simp [Ip4.bytes])]
      rfl
    simp only [whileRemaining_eq_ok_cons_iff (k := 4) (by decide) shrinks_ipParser, hread]
    constructor
    · rintro ⟨rest, -, mid, hfirst, hloop⟩
      simp only [Except.ok.injEq, Prod.mk.injEq] at hfirst
      obtain ⟨hip, rfl⟩ := hfirst
      obtain rfl := Ip4.eq_constant_of_late hip
      intro ip' hip'
      rcases mem_cons.mp hip' with rfl | hip'
      · rfl
      · exact ih.mp ⟨rest, hloop⟩ ip' hip'
    · intro hall
      obtain ⟨rest, hloop⟩ := ih.mpr fun ip' hip' => hall ip' (mem_cons_of_mem _ hip')
      obtain rfl := hall ip mem_cons_self
      exact ⟨rest, by simp [Ip4.bytes], _, rfl, hloop⟩

namespace Lsa

theorem length_routerBody (r : RouterLsa) : r.body.length = 2 + 12 * r.links.length := by
  have hlinks : (r.links.flatMap RouterLink.encode).length = 12 * r.links.length := by
    simp [length_flatMap, RouterLink.length_encode, mul_comm]
  simp only [RouterLsa.body, length_append, hlinks, length_cons, length_nil]

theorem length_networkBody (n : NetworkLsa) : n.body.length = 4 + 4 * n.attachedRouters.length := by
  have hrouters : (n.attachedRouters.flatMap Ip4.bytes).length = 4 * n.attachedRouters.length := by
    simp [length_flatMap, mul_comm]
  simp only [NetworkLsa.body, length_append, hrouters, length_ip4Bytes]

theorem flagBits_le (bit0 bit1 bit2 : Bool) : (flagBits bit0 bit1 bit2).toNat ≤ 7 := by
  revert bit0 bit1 bit2
  decide

theorem router_not_survives {r : RouterLsa} (hfits : (router r).FitsV3) :
    decode .v3 (router r).encode ≠ .ok (router r) := by
  intro h
  obtain ⟨hheader, hbody⟩ := decode_v3_eq_ok h
  obtain ⟨o, -, -, harith⟩ := length_of_self_decode hfits hheader
  have hlinks := (RouterLsa.decode_v3_eq_ok hbody).2
  rw [drop_encode_v3 hfits.version] at hlinks
  have hflags : byteAt (UInt8.ofNat (20 + (router r).body.length) :: (router r).body) 1 =
      flagBits r.v r.e r.b := rfl
  have hle := flagBits_le r.v r.e r.b
  have hlength : (router r).body.length = 2 + 12 * r.links.length := length_routerBody r
  rw [hflags] at hlinks
  have hsmall : (20 + (router r).body.length) / 256 = 0 := by omega
  omega

theorem raw_not_survives {r : RawLsa} (hfits : (raw r).FitsV3) :
    decode .v3 (raw r).encode ≠ .ok (raw r) := by
  intro h
  have hbody : r.body = (raw r).encode.drop lsaHeaderLen := (decode_v3_eq_ok h).2
  rw [drop_encode_v3 hfits.version] at hbody
  have hlength := congrArg List.length hbody
  rw [length_cons] at hlength
  have hsame : (raw r).body.length = r.body.length := rfl
  omega

theorem toNat_sub_one {o : UInt8} (ho : 1 ≤ o.toNat) : (o - 1).toNat = o.toNat - 1 := by
  rw [UInt8.toNat_sub_of_le _ _ (UInt8.le_iff_toNat_le.mpr (by simpa using ho))]
  rfl

theorem network_of_survives {n : NetworkLsa} (hfits : (network n).FitsV3)
    (h : decode .v3 (network n).encode = .ok (network n)) : (network n).SurvivesV3 := by
  obtain ⟨hheader, hbody⟩ := decode_v3_eq_ok h
  obtain ⟨o, hsame, h19, harith⟩ := length_of_self_decode hfits hheader
  obtain ⟨-, -, hmask, hrouters⟩ := NetworkLsa.decode_v3_eq_ok_iff.mp hbody
  have hlength : (network n).body.length = 4 + 4 * n.attachedRouters.length := length_networkBody n
  have hsize := o.toNat_lt
  have hcount : 257 * o.toNat = 25 + 4 * n.attachedRouters.length := by omega
  have hlow : UInt8.ofNat (20 + (network n).body.length) = o - 1 := by
    apply UInt8.toNat_inj.mp
    rw [UInt8.toNat_ofNat', toNat_sub_one (by omega)]
    omega
  have hhigh : UInt8.ofNat ((20 + (network n).body.length) / 256) = o := by
    apply UInt8.toNat_inj.mp
    rw [UInt8.toNat_ofNat']
    omega
  have hconst : n.header = .constant n.header.age 0x2002 o := by
    have hall : ∀ i, 4 ≤ i → i < 20 → byteAt (network n).encode i = o := by
      intro i hi hi'
      by_cases hlast : i = 19
      · rw [hlast, h19, hhigh]
      · exact hsame i hi (by omega)
    have hlong := (LsaHeader.decode_v3_eq_ok_iff.mp hheader).1
    rw [LsaHeader.decode_constant hlong hall] at hheader
    have heq : n.header = _ := (Except.ok.inj hheader).symm
    have htype : n.header.lsaType = 0x2002 := hfits.lsaType
    rw [heq] at htype ⊢
    simp only [LsaHeader.constant] at htype ⊢
    rw [htype]
  rw [drop_encode_v3 hfits.version, hlow] at hmask hrouters
  have hmask' : n.networkMask = .constant (o - 1) := Ip4.eq_constant_of_late hmask.symm
  have hrouters' : n.attachedRouters =
      List.replicate ((257 * o.toNat - 25) / 4) (.constant (o - 1)) := by
    have hdrop : ((o - 1) :: (network n).body).drop 4 =
        n.networkMask.d :: n.attachedRouters.flatMap Ip4.bytes := rfl
    rw [hdrop, hmask'] at hrouters
    exact eq_replicate_iff.mpr ⟨by omega, (routers_late_iff _ _).mp hrouters⟩
  refine ⟨n.header.age, o, by omega, ?_⟩
  obtain ⟨header, mask, routers⟩ := n
  simp only at hconst hmask' hrouters'
  rw [constantNetwork, ← hrouters', ← hmask', ← hconst]

theorem survives_of_constantNetwork (age : UInt16) {o : UInt8} (ho : o.toNat % 4 = 1) :
    decode .v3 (network (constantNetwork age o)).encode =
      .ok (network (constantNetwork age o)) := by
  have hsize := o.toNat_lt
  set l := network (constantNetwork age o) with hl
  have hbody : l.body.length = 4 + 4 * ((257 * o.toNat - 25) / 4) := by
    rw [hl, show (network (constantNetwork age o)).body = (constantNetwork age o).body from rfl,
      length_networkBody, constantNetwork, length_replicate]
  have htotal : 20 + l.body.length = 257 * o.toNat - 1 := by omega
  have hlow : UInt8.ofNat (20 + l.body.length) = o - 1 := by
    apply UInt8.toNat_inj.mp
    rw [htotal, UInt8.toNat_ofNat', toNat_sub_one (by omega)]
    omega
  have hhigh : UInt8.ofNat ((20 + l.body.length) / 256) = o := by
    have hdiv : (20 + l.body.length) / 256 = o.toNat := by omega
    rw [hdiv, UInt8.ofNat_toNat]
  have hencode : l.encode =
      u16Bytes age ++ u16Bytes 0x2002 ++ List.replicate 16 o ++ ((o - 1) :: l.body) := by
    obtain ⟨pre, hpre, hheader, henc⟩ := encode_v3 (l := l) rfl
    have hsplit : pre ++ u16Bytes l.header.length =
        (u16Bytes age ++ u16Bytes 0x2002 ++ List.replicate 15 o) ++ [o, o] := by
      rw [← hheader, show l.header = .constant age 0x2002 o from rfl, LsaHeader.encode_constant,
        append_assoc]
      rfl
    obtain ⟨rfl, -⟩ := append_inj hsplit (by simp [hpre])
    rw [henc, hlow, hhigh]
    simp [append_assoc, List.replicate]
  have hheader : LsaHeader.decode .v3 l.encode = .ok (.constant age 0x2002 o) := by
    rw [hencode, LsaHeader.decode_constant_append]
  have hdec : NetworkLsa.decode .v3 l.encode = .ok (constantNetwork age o) := by
    refine NetworkLsa.decode_v3_eq_ok_iff.mpr ⟨hheader, ?_, ?_, ?_⟩
    · rw [drop_encode_v3 rfl, length_cons]
      omega
    · rw [drop_encode_v3 rfl, hlow]
      rfl
    · rw [drop_encode_v3 rfl, hlow]
      exact (routers_late_iff (o - 1) _).mpr fun ip hip => eq_of_mem_replicate hip
  rw [decode, hheader]
  simp only [bind, Except.bind, LsaHeader.constant, hdec]
  rfl

theorem decode_encode_v3_iff {l : Lsa} (hfits : l.FitsV3) :
    decode .v3 l.encode = .ok l ↔ l.SurvivesV3 := by
  constructor
  · intro h
    cases l with
    | router r => exact absurd h (router_not_survives hfits)
    | network n => exact network_of_survives hfits h
    | raw r => exact absurd h (raw_not_survives hfits)
  · rintro ⟨age, o, ho, rfl⟩
    exact survives_of_constantNetwork age ho

end Lsa

end TptRfc.Ospf
