import TptRfc.Lib.Bytes

/-!
# Kerberos: AES with ciphertext stealing

`encrypt` and `decrypt` (`crypto.rs`) for one enctype and base key, over any block cipher and
any keyed hash.
-/

namespace TptRfc.Kerberos

open Lib List

/-- A permutation of the blocks of 16 bytes. -/
structure BlockCipher where
  encrypt : Bytes → Bytes
  decrypt : Bytes → Bytes
  length_encrypt : ∀ b, b.length = 16 → (encrypt b).length = 16
  decrypt_encrypt : ∀ b, b.length = 16 → decrypt (encrypt b) = b

/-- What an enctype and a base key give for each key usage. -/
structure Suite where
  cksumlen : ℕ
  usageInHmac : Bool
  cipher : UInt32 → BlockCipher
  hmac : UInt32 → Bytes → FixedBytes cksumlen

def xorBytes (a b : Bytes) : Bytes := zipWith (· ^^^ ·) a b

def iv : Bytes := replicate 16 0

section Cts

variable (E : BlockCipher)

/-- The loop of `aes_cts_encrypt`, which writes all blocks but the last two as they come. -/
def ctsFrom (prev pt : Bytes) : Bytes :=
  let c := E.encrypt (xorBytes (pt.take 16) prev)
  if 32 < pt.length then c ++ ctsFrom c (pt.drop 16)
  else
    let last := pt.drop 16
    E.encrypt (xorBytes (last ++ replicate (16 - last.length) 0) c) ++ c.take last.length
termination_by pt.length

def aesCtsEncrypt (pt : Bytes) : Bytes :=
  if pt.length = 0 then []
  else if pt.length ≤ 16 then E.encrypt (xorBytes (pt ++ replicate (16 - pt.length) 0) iv)
  else ctsFrom E iv pt

def unctsFrom (prev ct : Bytes) : Bytes :=
  if 32 < ct.length then
    xorBytes (E.decrypt (ct.take 16)) prev ++ unctsFrom (ct.take 16) (ct.drop 16)
  else
    let y := E.decrypt (ct.take 16)
    let tail := ct.drop 16
    xorBytes (E.decrypt (tail ++ y.drop tail.length)) prev ++ xorBytes (y.take tail.length) tail
termination_by ct.length

/-- `none` where a slice of another length is copied into a block. -/
def aesCtsDecrypt (ct : Bytes) : Option Bytes :=
  if ct.length = 0 then some []
  else if ct.length < 16 then none
  else if ct.length = 16 then some (xorBytes (E.decrypt ct) iv)
  else some (unctsFrom E iv ct)

end Cts

inductive Decrypted where
  | ok (plaintext : Bytes)
  | decryptFailed
  | checksumMismatch
  | panic
  deriving DecidableEq

def Suite.checksum (s : Suite) (usage : UInt32) (c : Bytes) : FixedBytes s.cksumlen :=
  s.hmac usage ([0x00, 0x00] ++ (if s.usageInHmac then u32Bytes usage else []) ++ c)

def Suite.encrypt (s : Suite) (usage : UInt32) (confounder : FixedBytes 16) (plaintext : Bytes) :
    Bytes :=
  let c := aesCtsEncrypt (s.cipher usage) (confounder.val ++ plaintext)
  c ++ (s.checksum usage c).val

def Suite.decrypt (s : Suite) (usage : UInt32) (cipher : Bytes) : Decrypted :=
  if cipher.length < s.cksumlen + 1 then .decryptFailed
  else
    let split := cipher.length - s.cksumlen
    if (s.checksum usage (cipher.take split)).val ≠ cipher.drop split then .checksumMismatch
    else
      match aesCtsDecrypt (s.cipher usage) (cipher.take split) with
      | none => .panic
      | some pt => if pt.length < 16 then .decryptFailed else .ok (pt.drop 16)

/-! ## The round trip -/

variable {E : BlockCipher}

theorem xorBytes_xorBytes {a b : Bytes} (h : a.length ≤ b.length) :
    xorBytes (xorBytes a b) b = a := zipWith_xor_cancel h

theorem length_xorBytes (a b : Bytes) : (xorBytes a b).length = min a.length b.length :=
  length_zipWith

theorem xorBytes_zeros (a : Bytes) : xorBytes (replicate a.length 0) a = a := by
  induction a with
  | nil => rfl
  | cons x a ih => simpa [xorBytes, replicate_succ] using ih

theorem xorBytes_append {a c : Bytes} (b d : Bytes) (h : a.length = c.length) :
    xorBytes (a ++ b) (c ++ d) = xorBytes a c ++ xorBytes b d := zipWith_append h

theorem length_block {prev pt : Bytes} (hprev : prev.length = 16) (hpt : 16 ≤ pt.length) :
    (E.encrypt (xorBytes (pt.take 16) prev)).length = 16 :=
  E.length_encrypt _ (by simp [length_xorBytes, hprev, hpt])

/-- A block of the chain is read back with the block before. -/
theorem xorBytes_decrypt {prev pt : Bytes} (hprev : prev.length = 16) (hpt : 16 ≤ pt.length) :
    xorBytes (E.decrypt (E.encrypt (xorBytes (pt.take 16) prev))) prev = pt.take 16 := by
  rw [E.decrypt_encrypt _ (by simp [length_xorBytes, hprev, hpt])]
  exact xorBytes_xorBytes (by simp [hprev])

/-- The chaining value of a stolen block: its end is where the padding was. -/
theorem stolen {last c : Bytes} (hc : c.length = 16) (hlast : last.length ≤ 16) :
    xorBytes (last ++ replicate (16 - last.length) 0) c =
      xorBytes last (c.take last.length) ++ c.drop last.length := by
  have hdrop := xorBytes_zeros (c.drop last.length)
  rw [length_drop, hc] at hdrop
  conv_lhs => rw [← take_append_drop last.length c]
  rw [xorBytes_append _ _ (by simp [hc, hlast]), hdrop]

theorem length_ctsFrom {prev pt : Bytes} (hprev : prev.length = 16) (hpt : 16 < pt.length) :
    (ctsFrom E prev pt).length = pt.length := by
  fun_induction ctsFrom E prev pt with
  | case1 prev pt c hlong ih =>
    have hc : c.length = 16 := length_block hprev hpt.le
    rw [length_append, ih hc (by rw [length_drop]; omega), hc, length_drop]
    omega
  | case2 prev pt c hshort last =>
    have hc : c.length = 16 := length_block hprev hpt.le
    have hlast : last.length = pt.length - 16 := length_drop
    rw [length_append, E.length_encrypt, length_take, hc, hlast]
    · omega
    · simp only [length_xorBytes, length_append, length_replicate, hc]
      omega

theorem unctsFrom_ctsFrom {prev pt : Bytes} (hprev : prev.length = 16) (hpt : 16 < pt.length) :
    unctsFrom E prev (ctsFrom E prev pt) = pt := by
  fun_induction ctsFrom E prev pt with
  | case1 prev pt c hlong ih =>
    have hc : c.length = 16 := length_block hprev hpt.le
    have hdrop : 16 < (pt.drop 16).length := by rw [length_drop]; omega
    have hlen := @length_ctsFrom E c (pt.drop 16) hc hdrop
    rw [unctsFrom, if_pos (by rw [length_append]; omega), take_left' hc, drop_left' hc, ih hc hdrop,
      xorBytes_decrypt hprev hpt.le, take_append_drop]
  | case2 prev pt c hshort last =>
    have hc : c.length = 16 := length_block hprev hpt.le
    have hlast : last.length = pt.length - 16 := length_drop
    have hx : (xorBytes (last ++ replicate (16 - last.length) 0) c).length = 16 := by
      simp only [length_xorBytes, length_append, length_replicate, hc]
      omega
    have hn := E.length_encrypt _ hx
    have htail : (c.take last.length).length = last.length := by rw [length_take, hc]; omega
    have hy : (xorBytes last (c.take last.length)).length = last.length := by
      rw [length_xorBytes, htail, min_self]
    rw [unctsFrom, if_neg (by rw [length_append, hn, htail]; omega), take_left' hn, drop_left' hn,
      E.decrypt_encrypt _ hx, stolen hc (by omega)]
    dsimp only
    rw [htail, drop_left' hy, take_left' hy, take_append_drop, xorBytes_decrypt hprev hpt.le,
      xorBytes_xorBytes htail.ge, take_append_drop]

theorem aesCtsDecrypt_encrypt {pt : Bytes} (hpt : 16 ≤ pt.length) :
    (aesCtsEncrypt E pt).length = pt.length ∧
      aesCtsDecrypt E (aesCtsEncrypt E pt) = some pt := by
  have hiv : iv.length = 16 := rfl
  rw [aesCtsEncrypt, if_neg (by omega)]
  rcases hpt.eq_or_lt with heq | hlt
  · have hlen := @length_block E iv pt hiv hpt
    have hblock := @xorBytes_decrypt E iv pt hiv hpt
    rw [take_of_length_le heq.ge] at hlen hblock
    rw [if_pos heq.ge, ← heq, Nat.sub_self, replicate_zero, append_nil, aesCtsDecrypt, hlen,
      if_neg (by decide), if_neg (by decide), if_pos rfl, hblock]
    exact ⟨rfl, rfl⟩
  · have hlen := @length_ctsFrom E iv pt hiv hlt
    rw [if_neg hlt.not_ge, aesCtsDecrypt, hlen, if_neg (by omega), if_neg (by omega),
      if_neg (by omega), unctsFrom_ctsFrom hiv hlt]
    exact ⟨rfl, rfl⟩

theorem aesCtsDecrypt_eq_none_iff {ct : Bytes} :
    aesCtsDecrypt E ct = none ↔ 0 < ct.length ∧ ct.length < 16 := by
  unfold aesCtsDecrypt
  split_ifs <;> simp <;> omega

theorem Suite.decrypt_append (s : Suite) (usage : UInt32) {c : Bytes} (hc : 0 < c.length) :
    s.decrypt usage (c ++ (s.checksum usage c).val) =
      match aesCtsDecrypt (s.cipher usage) c with
      | none => .panic
      | some pt => if pt.length < 16 then .decryptFailed else .ok (pt.drop 16) := by
  have hlen : (c ++ (s.checksum usage c).val).length = c.length + s.cksumlen := by
    rw [length_append, (s.checksum usage c).2]
  rw [Suite.decrypt, hlen, if_neg (by omega), Nat.add_sub_cancel]
  dsimp only
  rw [take_left, drop_left, if_neg (not_not.mpr rfl)]

theorem Suite.decrypt_encrypt (s : Suite) (usage : UInt32) (confounder : FixedBytes 16)
    (plaintext : Bytes) :
    s.decrypt usage (s.encrypt usage confounder plaintext) = .ok plaintext ∧
      (s.encrypt usage confounder plaintext).length = 16 + plaintext.length + s.cksumlen := by
  have hconf := confounder.2
  have hlen : (confounder.val ++ plaintext).length = 16 + plaintext.length := by
    rw [length_append, hconf]
  obtain ⟨hc, hpt⟩ := @aesCtsDecrypt_encrypt (s.cipher usage) (confounder.val ++ plaintext)
    (by omega)
  rw [Suite.encrypt, Suite.decrypt_append s usage (by omega), hpt, length_append, hc, hlen,
    (s.checksum usage _).2]
  dsimp only
  rw [if_neg (by omega), drop_left' hconf]
  exact ⟨rfl, rfl⟩

/-- **Encryption is undone by decryption** and adds the confounder and the checksum to the length;
`decrypt` panics exactly on a text of 1 to 15 bytes with its checksum. -/
theorem round_trip_and_panics (s : Suite) (usage : UInt32) :
    (∀ confounder plaintext,
      s.decrypt usage (s.encrypt usage confounder plaintext) = .ok plaintext ∧
      (s.encrypt usage confounder plaintext).length = 16 + plaintext.length + s.cksumlen) ∧
    ∀ cipher, s.decrypt usage cipher = .panic ↔
      ∃ c : Bytes, 0 < c.length ∧ c.length < 16 ∧ cipher = c ++ (s.checksum usage c).val := by
  refine ⟨s.decrypt_encrypt usage, fun cipher => ⟨fun h => ?_, ?_⟩⟩
  · unfold Suite.decrypt at h
    dsimp only at h
    split_ifs at h with hshort hsum
    split at h
    · rename_i hnone
      obtain ⟨hpos, hlt⟩ := aesCtsDecrypt_eq_none_iff.mp hnone
      refine ⟨_, hpos, hlt, ?_⟩
      rw [not_not.mp hsum, take_append_drop]
    · split_ifs at h
  · rintro ⟨c, hpos, hlt, rfl⟩
    rw [Suite.decrypt_append s usage hpos, aesCtsDecrypt_eq_none_iff.mpr ⟨hpos, hlt⟩]

def plainSuite : Suite where
  cksumlen := 12
  usageInHmac := false
  cipher _ := ⟨id, id, fun _ h => h, fun _ _ => rfl⟩
  hmac _ _ := .replicate 12 0

theorem panics_on_one_byte : plainSuite.decrypt 3 (1 :: replicate 12 0) = .panic := by
  decide +kernel

theorem aesCtsEncrypt_decrypt {ct pt : Bytes} (hct : 16 ≤ ct.length)
    (h : aesCtsDecrypt E ct = some pt) : aesCtsEncrypt E pt = ct := by
  have : Finite UInt8 := .of_injective UInt8.toFin fun _ _ => UInt8.toFin_inj.mp
  -- injective on the finitely many texts of one length, so onto
  let texts := {pt : Bytes | pt.length = ct.length}
  have hpt : ∀ pt ∈ texts, _ := fun pt hpt => @aesCtsDecrypt_encrypt E pt (hct.trans_eq hpt.symm)
  have hmaps : texts.MapsTo (aesCtsEncrypt E) texts := fun p hp => (hpt p hp).1.trans hp
  have hinj : texts.InjOn (aesCtsEncrypt E) := by
    intro p hp q hq hpq
    have hdec := (hpt p hp).2
    rw [hpq, (hpt q hq).2] at hdec
    exact (Option.some.inj hdec).symm
  obtain ⟨p, hp, rfl⟩ :=
    (((finite_length_eq UInt8 ct.length).injOn_iff_bijOn_of_mapsTo hmaps).mp hinj).surjOn rfl
  rw [(hpt p hp).2] at h
  rw [Option.some.inj h]

theorem Suite.exists_confounder {s : Suite} {usage : UInt32} {cipher plaintext : Bytes}
    (h : s.decrypt usage cipher = .ok plaintext) :
    ∃ confounder, s.encrypt usage confounder plaintext = cipher := by
  unfold Suite.decrypt at h
  dsimp only at h
  split_ifs at h with hshort hsum
  split at h
  · cases h
  · rename_i pt hdec
    split_ifs at h with hpt
    cases h
    have hct := aesCtsDecrypt_eq_none_iff.not.mp (hdec.trans_ne (Option.some_ne_none pt))
    have henc := aesCtsEncrypt_decrypt (by simp only [length_take] at hct ⊢; omega) hdec
    refine ⟨⟨pt.take 16, by rw [length_take]; omega⟩, ?_⟩
    rw [Suite.encrypt, take_append_drop, henc, not_not.mp hsum, take_append_drop]

/-- **Exactly the encryptions are accepted**: a text opens to `plaintext` if and only if some
confounder encrypts `plaintext` to it. -/
theorem decrypt_eq_ok_iff (s : Suite) (usage : UInt32) (cipher plaintext : Bytes) :
    s.decrypt usage cipher = .ok plaintext ↔
      ∃ confounder, s.encrypt usage confounder plaintext = cipher := by
  constructor
  · exact Suite.exists_confounder
  · rintro ⟨confounder, rfl⟩
    exact (s.decrypt_encrypt usage confounder plaintext).1

end TptRfc.Kerberos
