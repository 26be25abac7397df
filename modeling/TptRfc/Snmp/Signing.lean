import TptRfc.Snmp.RoundTrip
import TptRfc.Snmp.Agent

/-!
# SNMP: signed messages of version 3

`encode_signed` (`v3.rs`) encodes a message with twelve zero bytes as authentication parameters,
computes the code over that encoding and writes it over the zeros.  The place is searched for:
`find_auth_offset` takes the first `04 0c <12 bytes> 04 08` of the encoding (`MarkAt`), and
`verify_auth` searches again in the signed bytes.

The fields in front of the place are chosen by others: an engine identifier or a user name can hold
such a mark.  The code goes into its field exactly if no mark stands before it (`Unmarked`).
-/

namespace TptRfc.Snmp

open Lib List

variable {checks : Bool} {m : V3Message} {bytes data : Bytes}

/-! ## The search -/

/-- The four bytes that `find_auth_offset` compares stand at `i`. -/
def MarkAt (bytes : Bytes) (i : ℕ) : Prop :=
  bytes[i]? = some 0x04 ∧ bytes[i + 1]? = some 0x0c ∧ bytes[i + 14]? = some 0x04 ∧
    bytes[i + 15]? = some 0x08

instance (bytes : Bytes) (i : ℕ) : Decidable (MarkAt bytes i) :=
  inferInstanceAs (Decidable (_ ∧ _))

/-- No mark stands before the one in front of `off`. -/
def Unmarked (bytes : Bytes) (off : ℕ) : Prop := ∀ i < off - 2, ¬ MarkAt bytes i

instance (bytes : Bytes) (off : ℕ) : Decidable (Unmarked bytes off) :=
  inferInstanceAs (Decidable (∀ i < off - 2, _))

theorem markAt_zero_cons (b : UInt8) (bytes : Bytes) : MarkAt (b :: bytes) 0 ↔
    16 ≤ (b :: bytes).length ∧ b = 0x04 ∧ bytes[0]? = some 0x0c ∧ bytes[13]? = some 0x04 ∧
      bytes[14]? = some 0x08 := by
  simp only [MarkAt, getElem?_cons_zero, getElem?_cons_succ, Option.some.injEq, length_cons]
  refine ⟨fun h => ⟨?_, h⟩, And.right⟩
  obtain ⟨hlt, -⟩ := List.getElem?_eq_some_iff.mp h.2.2.2
  omega

/-- The search finds a mark that stands at `i` and no mark before it. -/
theorem findAuthOffsetFrom_of_first {i : ℕ} (k : ℕ) (hmark : MarkAt bytes i)
    (hfirst : ∀ j < i, ¬ MarkAt bytes j) : findAuthOffsetFrom k bytes = some (k + i + 2) := by
  induction bytes generalizing i k with
  | nil => cases hmark.1
  | cons b bytes ih =>
    cases i with
    | zero => rw [findAuthOffsetFrom, if_pos ((markAt_zero_cons b bytes).mp hmark), Nat.add_zero]
    | succ i =>
      have hrest := ih (k + 1) hmark fun j hj => hfirst (j + 1) (by omega)
      have hhead := (markAt_zero_cons b bytes).not.mp (hfirst 0 (by omega))
      rw [findAuthOffsetFrom, if_neg hhead, hrest]
      congr 2
      omega

theorem findAuthOffset_of_unmarked {off : ℕ} (hoff : 2 ≤ off) (hmark : MarkAt bytes (off - 2))
    (h : Unmarked bytes off) : findAuthOffset bytes = some off := by
  rw [findAuthOffset, findAuthOffsetFrom_of_first 0 hmark h]
  congr 1
  omega

theorem findAuthOffset_of_marked {off : ℕ} (h : ¬ Unmarked bytes off) :
    ∃ i < off - 2, MarkAt bytes i ∧ findAuthOffset bytes = some (i + 2) := by
  simp only [Unmarked, not_forall, not_not] at h
  obtain ⟨i, hlt, hmark⟩ := h
  have hex : ∃ i, MarkAt bytes i := ⟨i, hmark⟩
  refine ⟨Nat.find hex, (Nat.find_min' hex hmark).trans_lt hlt, Nat.find_spec hex, ?_⟩
  rw [findAuthOffset, findAuthOffsetFrom_of_first 0 (Nat.find_spec hex) fun j => Nat.find_min hex]
  simp only [Nat.zero_add]

/-! ## The encoding around the field -/

def V3Message.withAuth (m : V3Message) (a : FixedBytes 12) : V3Message :=
  { m with securityParameters := { m.securityParameters with authParameters := a } }

theorem writeTlv_around (tag : UInt8) (x y : Bytes) : ∃ head, ∀ a : FixedBytes 12,
    writeTlv tag (x ++ (a.val ++ y)) = head ++ (x ++ (a.val ++ y)) := by
  refine ⟨tag :: lengthOctets (x.length + (12 + y.length)), fun a => ?_⟩
  rw [writeTlv, length_append, length_append, a.2, cons_append]

/-- The message around the authentication field does not depend on the field, and the field
stands in a mark. -/
theorem encode_withAuth (h : m.data.encode checks = some data) :
    ∃ pre, ∀ a, (m.withAuth a).encode checks = some (pre ++ ([0x04, 0x0c] ++ (a.val ++
      ([0x04, 0x08] ++ (m.securityParameters.privParameters.val ++ data))))) := by
  obtain ⟨header, ⟨eid, boots, time, user, _, priv⟩, d⟩ := m
  have hpriv : writeOctetString priv.val = [0x04, 0x08] ++ priv.val := by
    rw [writeOctetString, writeTlv, priv.2]
    rfl
  have hfield : ∀ a : FixedBytes 12, writeOctetString a.val = [0x04, 0x0c] ++ a.val := by
    intro a
    rw [writeOctetString, writeTlv, a.2]
    rfl
  obtain ⟨head₁, h₁⟩ := writeTlv_around tagSequence (writeOctetString eid ++
    (writeInteger boots.toNat ++ (writeInteger time.toNat ++ (writeOctetString user ++
      [0x04, 0x0c])))) (writeOctetString priv.val)
  obtain ⟨head₂, h₂⟩ := writeTlv_around tagOctetString (head₁ ++ (writeOctetString eid ++
    (writeInteger boots.toNat ++ (writeInteger time.toNat ++ (writeOctetString user ++
      [0x04, 0x0c]))))) (writeOctetString priv.val)
  obtain ⟨head₃, h₃⟩ := writeTlv_around tagSequence (writeInteger 3 ++
    (writeSequence header.fields ++ (head₂ ++ (head₁ ++ (writeOctetString eid ++
    (writeInteger boots.toNat ++ (writeInteger time.toNat ++ (writeOctetString user ++
      [0x04, 0x0c])))))))) (writeOctetString priv.val ++ data)
  refine ⟨head₃ ++ (writeInteger 3 ++ (writeSequence header.fields ++ (head₂ ++ (head₁ ++
    (writeOctetString eid ++ (writeInteger boots.toNat ++ (writeInteger time.toNat ++
      writeOctetString user))))))), fun a => ?_⟩
  have h₁ := h₁ a
  have h₂ := h₂ a
  have h₃ := h₃ a
  simp only [append_assoc] at h₁ h₂ h₃
  simp only [V3Message.encode, V3Message.withAuth, encodeUsm, writeSequence, writeOctetString,
    append_assoc] at h h₁ h₂ h₃ hfield hpriv ⊢
  rw [h]
  simp only [hfield, hpriv, append_assoc] at h₁ h₂ h₃ ⊢
  rw [h₁, h₂]
  exact congrArg some (by simpa only [append_assoc] using h₃)

/-- The place of the authentication field in an encoding with these data. -/
def authOffset (bytes data : Bytes) : ℕ := bytes.length - data.length - 22

/-- An encoding that has the bytes `a` in its authentication field. -/
def framed (pre : Bytes) (a : FixedBytes 12) (post : Bytes) : Bytes :=
  pre ++ ([0x04, 0x0c] ++ (a.val ++ ([0x04, 0x08] ++ post)))

section Framed

variable (pre post : Bytes) (a b : FixedBytes 12)

theorem markAt_framed : MarkAt (framed pre a post) pre.length := by
  obtain ⟨a, ha⟩ := a
  have hfour : (pre ++ ([0x04, 0x0c] ++ a)).length = pre.length + 14 := by
    simp [ha]
  have hflat : framed pre ⟨a, ha⟩ post =
      (pre ++ ([0x04, 0x0c] ++ a)) ++ (0x04 :: 0x08 :: post) := by
    simp [framed]
  refine ⟨by simp [framed], by simp [framed], ?_, ?_⟩
  · rw [hflat, ← hfour, getElem?_append_right le_rfl, Nat.sub_self]
    rfl
  · rw [hflat, getElem?_append_right (by omega), hfour, Nat.add_sub_add_left]
    rfl

theorem field_framed : ((framed pre a post).drop (pre.length + 2)).take 12 = a.val := by
  rw [framed, ← drop_drop, drop_left]
  exact take_left' a.2

theorem embed_framed : embed (framed pre a post) (pre.length + 2) b = framed pre b post := by
  have hfront : framed pre a post = (pre ++ [0x04, 0x0c]) ++ (a.val ++ ([0x04, 0x08] ++ post)) := by
    simp [framed]
  have hlen : (pre ++ [(0x04 : UInt8), 0x0c]).length = pre.length + 2 := by simp
  have hend : pre.length + 2 + 12 = (pre ++ [0x04, 0x0c] ++ a.val).length := by
    rw [length_append, hlen, a.2]
  rw [embed, hfront, ← hlen, take_left, hlen, hend, ← append_assoc _ a.val, drop_left]
  simp [framed]

/-- A mark before the field ends before the zeros, and what is written behind it leaves them. -/
theorem field_embed_of_markAt {i : ℕ} (hi : i < pre.length)
    (hmark : MarkAt (framed pre noAuth post) i) :
    ((embed (framed pre noAuth post) (i + 2) b).drop (pre.length + 2)).take 12 = noAuth.val := by
  have hzero : ∀ k < 12, (framed pre noAuth post)[pre.length + 2 + k]? = some 0 := by
    intro k hk
    have hfield := field_framed pre post noAuth
    rw [← getElem?_drop, ← getElem?_take_of_lt hk, hfield]
    exact getElem?_replicate_of_lt hk
  obtain ⟨-, -, hfour, height⟩ := hmark
  have hbefore : i + 16 ≤ pre.length + 2 := by
    by_contra hlate
    by_cases hin : pre.length + 2 ≤ i + 14
    · have h := hzero (i + 14 - (pre.length + 2)) (by omega)
      rw [Nat.add_sub_cancel' hin, hfour] at h
      cases h
    · have h := hzero 0 (by decide)
      rw [show pre.length + 2 + 0 = i + 15 by omega, height] at h
      cases h
  have hlen : i + 2 ≤ (framed pre noAuth post).length := by
    simp only [framed, length_append]
    omega
  obtain ⟨k, hk⟩ : ∃ k, pre.length + 2 = i + 14 + k := ⟨_, (Nat.add_sub_cancel' (by omega)).symm⟩
  have hhead : ((framed pre noAuth post).take (i + 2) ++ b.val).length = i + 14 := by
    rw [length_append, length_take_of_le hlen, b.2]
  have hdrop : (embed (framed pre noAuth post) (i + 2) b).drop (pre.length + 2) =
      (framed pre noAuth post).drop (pre.length + 2) := by
    rw [embed, ← append_assoc, hk, ← hhead, drop_length_add_append, drop_drop, hhead]
  rw [hdrop, field_framed]

end Framed

/-- The code of the message with zeros in its place is written where the search finds them. -/
theorem encodeSigned_of_found (c : Crypto) (key : Bytes) (proto : AuthProtocol)
    (hbytes : (m.withAuth noAuth).encode checks = some bytes) {off : ℕ}
    (hfound : findAuthOffset bytes = some off) : m.encodeSigned checks c (some key) proto =
      some (embed bytes off (c.authMac proto key bytes)) := by
  have hencode := hbytes
  simp only [V3Message.withAuth] at hencode
  simp only [V3Message.encodeSigned, hencode, Option.map_some, hfound]

/-- **Signed messages.**  Unless the code is zero, it is written into its field exactly if no mark
stands before the field.  Then the message is read back with the code in that field, exactly if
the message can be read back at all, and is verified if the code does not make up an earlier
mark. -/
theorem signed_iff_unmarked (c : Crypto) (key : Bytes) (proto : AuthProtocol) (hvalid : m.Valid)
    (hdata : m.data.encode checks = some data)
    (hbytes : (m.withAuth noAuth).encode checks = some bytes) (hlen : bytes.length < 2 ^ 63) :
    let mac := c.authMac proto key bytes
    ∃ signed, (m.withAuth mac).encode checks = some signed ∧
      (mac ≠ noAuth → (m.encodeSigned checks c (some key) proto = some signed ↔
        Unmarked bytes (authOffset bytes data))) ∧
      (Unmarked bytes (authOffset bytes data) →
        m.encodeSigned checks c (some key) proto = some signed ∧
        (V3Message.decode signed = .ok (m.withAuth mac) ↔ m.Exact) ∧
        (Unmarked signed (authOffset bytes data) → verifyAuth c signed key proto = true)) := by
  intro mac
  obtain ⟨pre, hpre⟩ := encode_withAuth hdata
  set post := m.securityParameters.privParameters.val ++ data with hpost
  change ∀ a, (m.withAuth a).encode checks = some (framed pre a post) at hpre
  obtain rfl := Option.some.inj ((hpre noAuth).symm.trans hbytes)
  have hlength : ∀ a, (framed pre a post).length = pre.length + 16 + post.length := by
    intro a
    simp only [framed, length_append, a.2, length_cons, length_nil]
    omega
  have hoff : authOffset (framed pre noAuth post) data = pre.length + 2 := by
    rw [authOffset, hlength, hpost, length_append, m.securityParameters.privParameters.2]
    omega
  have hfind : ∀ a, Unmarked (framed pre a post) (pre.length + 2) →
      findAuthOffset (framed pre a post) = some (pre.length + 2) := fun a =>
    findAuthOffset_of_unmarked (by omega) (markAt_framed pre post a)
  have hright : Unmarked (framed pre noAuth post) (pre.length + 2) →
      m.encodeSigned checks c (some key) proto = some (framed pre mac post) := by
    intro h
    rw [encodeSigned_of_found c key proto hbytes (hfind noAuth h), embed_framed]
  rw [hoff]
  refine ⟨framed pre mac post, hpre mac, fun hmac => ⟨fun h => ?_, hright⟩, fun h =>
    ⟨hright h, V3Message.decode_eq_ok_iff (show (m.withAuth mac).Valid from hvalid) (hpre mac)
      (by rw [hlength] at hlen ⊢; exact hlen), fun h' => ?_⟩⟩
  · -- a code written elsewhere leaves the zeros in the field
    by_contra hmarked
    obtain ⟨i, hi, hmark, hfound⟩ := findAuthOffset_of_marked hmarked
    rw [encodeSigned_of_found c key proto hbytes hfound] at h
    replace h := Option.some.inj h
    have hfield := field_embed_of_markAt pre post mac (by omega) hmark
    rw [h, field_framed] at hfield
    exact hmac (Subtype.ext hfield)
  · simp only [verifyAuth, hfind mac h', embed_framed, field_framed]
    exact decide_eq_true rfl

def constantMac : Crypto :=
  ⟨fun _ _ _ => .replicate 12 1, fun _ _ _ _ _ _ => [], fun _ _ _ _ _ _ => none⟩

def messageOf (engineId : Bytes) : V3Message where
  header := ⟨1, 65507, 5, 3⟩
  securityParameters := ⟨engineId, 1, 100, [0x75], .replicate 12 0, .replicate 8 0⟩
  data := .encrypted [0]

theorem signed_plain_engine : ∃ signed,
    (messageOf [0x65]).encodeSigned true constantMac (some []) .sha1 = some signed ∧
      V3Message.decode signed = .ok ((messageOf [0x65]).withAuth (.replicate 12 1)) ∧
      verifyAuth constantMac signed [] .sha1 = true := by
  obtain ⟨signed, hencode, -, h⟩ := @signed_iff_unmarked true (messageOf [0x65]) _ [4, 1, 0]
    constantMac [] .sha1 trivial rfl rfl (by decide +kernel)
  obtain ⟨hsigned, hdecode, hverify⟩ := h (by decide +kernel)
  refine ⟨signed, hsigned, hdecode.mpr ⟨rfl, trivial⟩, hverify ?_⟩
  cases hencode
  decide +kernel

/-- The identifier `04 0c <12> 04 08` of an engine receives the code, and the field stays zero. -/
theorem code_written_into_engine_id :
    ((messageOf ([4, 12] ++ replicate 12 0 ++ [4, 8])).encodeSigned true constantMac (some [])
      .sha1).map V3Message.decode =
        some (.ok (messageOf ([4, 12] ++ replicate 12 1 ++ [4, 8]))) := by
  decide +kernel

end TptRfc.Snmp
