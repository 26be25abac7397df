import TptRfc.Lib.Bytes

/-!
# RSA signatures with PKCS#1 v1.5

`verify_rsa` (`verify.rs`) from the decoded key on.  `modulus` and `exponent` are the bytes of the
two integers, `modpow` is exact and panics for the modulus 0, and so does an index past the end.
-/

namespace TptRfc.X509.Rsa

open Lib List

inductive Outcome where
  | ok
  | error (message : String)
  | panic
  deriving DecidableEq

inductive Scheme where
  | sha1
  | sha224
  | sha256
  | sha384
  | sha512

/-- The DER of the SHA-2 `DigestInfo` up to the digest: its length, the arc, the digest's length. -/
def sha2Info (total arc size : UInt8) : Bytes :=
  [0x30, total, 0x30, 0x0d, 0x06, 0x09, 0x60, 0x86, 0x48, 0x01, 0x65, 0x03, 0x04, 0x02, arc, 0x05,
    0x00, 0x04, size]

def digestInfo (scheme : Scheme) (digest : Bytes) : Bytes :=
  (match scheme with
  | .sha1 =>
    [0x30, 0x21, 0x30, 0x09, 0x06, 0x05, 0x2b, 0x0e, 0x03, 0x02, 0x1a, 0x05, 0x00, 0x04, 0x14]
  | .sha224 => sha2Info 0x2d 0x04 0x1c
  | .sha256 => sha2Info 0x31 0x01 0x20
  | .sha384 => sha2Info 0x41 0x02 0x30
  | .sha512 => sha2Info 0x51 0x03 0x40) ++ digest

def pkcs1V15Check (em t : Bytes) : Outcome :=
  if em.length < 11 + t.length then .error "RSA block too short"
  else if em.take 2 ≠ [0x00, 0x01] then .error "bad RSA signature leading bytes"
  else if ((em.drop 2).takeWhile (· = 0xff)).length < 8 then .error "bad RSA PS padding"
  else
    match (em.drop 2).dropWhile (· = 0xff) with
    | [] => .panic
    | b :: rest =>
      if b ≠ 0x00 then .error "bad RSA PS padding"
      else if rest ≠ t then .error "RSA digest mismatch"
      else .ok

/-- `to_bytes_be`, which writes 0 as one byte. -/
def toBytesBe (m : ℕ) : Bytes := beBytes (Nat.log 256 m + 1) m

def verifyRsa (modulus exponent : Bytes) (scheme : Scheme) (digest sig : Bytes) : Outcome :=
  if beNat modulus = 0 then .panic
  else
    let m := beNat sig ^ beNat exponent % beNat modulus
    let em := toBytesBe m
    let em := replicate (modulus.length - em.length) 0 ++ em
    pkcs1V15Check em (digestInfo scheme digest)

/-! ## The block -/

/-- The number the signature stands for, in the length of the modulus. -/
def recovered (modulus exponent sig : Bytes) : Bytes :=
  beBytes modulus.length (beNat sig ^ beNat exponent % beNat modulus)

theorem replicate_append_toBytesBe {k m : ℕ} (h : m < 256 ^ k) (hk : k ≠ 0) :
    replicate (k - (toBytesBe m).length) 0 ++ toBytesBe m = beBytes k m := by
  have hlog : Nat.log 256 m + 1 ≤ k := by
    have := Nat.log_lt_of_lt_pow' hk h
    omega
  have hlen : (replicate (k - (toBytesBe m).length) 0 ++ toBytesBe m).length = k := by
    simp only [toBytesBe, length_append, length_replicate, length_beBytes]
    omega
  rw [← beBytes_beNat (replicate _ 0 ++ toBytesBe m), hlen, beNat_replicate_append, toBytesBe,
    beNat_beBytes_of_lt (Nat.lt_pow_succ_log_self (by decide) m)]

theorem verifyRsa_eq {modulus exponent digest sig : Bytes} {scheme : Scheme}
    (h : beNat modulus ≠ 0) : verifyRsa modulus exponent scheme digest sig =
      pkcs1V15Check (recovered modulus exponent sig) (digestInfo scheme digest) := by
  have hk : modulus.length ≠ 0 := by
    rintro hk
    rw [length_eq_zero_iff.mp hk] at h
    exact h rfl
  rw [verifyRsa, if_neg h, recovered, ← replicate_append_toBytesBe _ hk]
  exact (Nat.mod_lt _ (Nat.pos_of_ne_zero h)).trans (beNat_lt modulus)

/-- `00 01 FF..FF`, with what follows the padding. -/
def block (pad : ℕ) (rest : Bytes) : Bytes := 0x00 :: 0x01 :: (replicate pad 0xff ++ rest)

theorem takeWhile_block (pad : ℕ) {rest : Bytes} (h : rest.head? ≠ some 0xff) :
    (replicate pad 0xff ++ rest).takeWhile (· = 0xff) = replicate pad 0xff ∧
      (replicate pad 0xff ++ rest).dropWhile (· = 0xff) = rest := by
  have hpad : ∀ b ∈ replicate pad (0xff : UInt8), decide (b = 0xff) = true := fun b hb =>
    decide_eq_true (eq_of_mem_replicate hb)
  rw [takeWhile_append_of_pos hpad, dropWhile_append_of_pos hpad]
  cases rest <;> simp_all

theorem eq_block {em : Bytes} (h : em.take 2 = [0x00, 0x01]) : em = block
    ((em.drop 2).takeWhile (· = 0xff)).length ((em.drop 2).dropWhile (· = 0xff)) := by
  have hpad : (em.drop 2).takeWhile (· = 0xff) =
      replicate ((em.drop 2).takeWhile (· = 0xff)).length 0xff :=
    eq_replicate_iff.mpr ⟨rfl, fun b hb => by simpa using mem_takeWhile_imp hb⟩
  rw [block, ← hpad, takeWhile_append_dropWhile]
  simpa [h] using (take_append_drop 2 em).symm

/-- The check passes on the one block, and panics on one that is padding to its end. -/
theorem pkcs1V15Check_iff {em t : Bytes} :
    (pkcs1V15Check em t = .ok ↔ ∃ pad ≥ 8, em = block pad (0x00 :: t)) ∧
    (pkcs1V15Check em t = .panic ↔ ∃ pad, em = block pad [] ∧ 11 + t.length ≤ em.length) := by
  refine ⟨⟨fun h => ?_, ?_⟩, ⟨fun h => ?_, ?_⟩⟩
  · unfold pkcs1V15Check at h
    split_ifs at h with hlen hlead hpad
    split at h
    · cases h
    · rename_i b rest hrest
      split_ifs at h with hb ht
      have heq := eq_block (not_not.mp hlead)
      rw [hrest, not_not.mp hb, not_not.mp ht] at heq
      exact ⟨_, not_lt.mp hpad, heq⟩
  · rintro ⟨pad, hpad, rfl⟩
    obtain ⟨htake, hdrop⟩ := takeWhile_block pad (show (0x00 :: t).head? ≠ some 0xff by simp)
    rw [pkcs1V15Check, if_neg (by simp [block]; omega)]
    simp [block, htake, hdrop, hpad]
  · unfold pkcs1V15Check at h
    split_ifs at h with hlen hlead hpad
    split at h
    · rename_i hrest
      have heq := eq_block (not_not.mp hlead)
      rw [hrest] at heq
      exact ⟨_, heq, not_lt.mp hlen⟩
    · split_ifs at h
  · rintro ⟨pad, rfl, hlen⟩
    have hpad : 8 ≤ pad := by
      simp [block] at hlen
      omega
    rw [pkcs1V15Check, if_neg hlen.not_gt]
    simp [block, hpad]

/-- `verify_rsa` returns, and accepts exactly the signatures of RFC 8017. -/
def Exact (modulus exponent : Bytes) (scheme : Scheme) (digest sig : Bytes) : Prop :=
  verifyRsa modulus exponent scheme digest sig ≠ .panic ∧
    (verifyRsa modulus exponent scheme digest sig = .ok ↔
      sig.length = modulus.length ∧ beNat sig < beNat modulus ∧ ∃ pad ≥ 8,
        recovered modulus exponent sig = block pad (0x00 :: digestInfo scheme digest))

/-- **Verification is exact** exactly if the modulus is not 0, the recovered block is not padding
to its end, and a signature whose block is right has the length of the modulus and lies below it. -/
theorem verifyRsa_exact_iff (modulus exponent : Bytes) (scheme : Scheme) (digest sig : Bytes) :
    Exact modulus exponent scheme digest sig ↔ beNat modulus ≠ 0 ∧
      (∀ pad, recovered modulus exponent sig = block pad [] →
        modulus.length < 11 + (digestInfo scheme digest).length) ∧
      ((∃ pad ≥ 8, recovered modulus exponent sig =
          block pad (0x00 :: digestInfo scheme digest)) →
        sig.length = modulus.length ∧ beNat sig < beNat modulus) := by
  by_cases hn : beNat modulus = 0
  · exact iff_of_false (fun h => h.1 (if_pos hn)) fun h => h.1 hn
  · have hlen : (recovered modulus exponent sig).length = modulus.length := length_beBytes _ _
    rw [Exact, verifyRsa_eq hn, pkcs1V15Check_iff.1, Ne, pkcs1V15Check_iff.2, hlen]
    simp only [not_exists, not_and, not_le]
    refine (and_congr_right fun _ => ⟨fun h hright => ?_, fun h => ?_⟩).trans
      (and_iff_right hn).symm
    · exact ⟨(h.mp hright).1, (h.mp hright).2.1⟩
    · exact ⟨fun hright => ⟨(h hright).1, (h hright).2, hright⟩, fun hall => hall.2.2⟩

def sha1Block : Bytes := block 8 (0x00 :: digestInfo .sha1 (replicate 20 0))

/-- A key with the modulus 0, a block of padding under the exponent 1, and a right signature behind
a zero byte. -/
theorem panics_and_accepts_longer :
    verifyRsa [0] [3] .sha1 (replicate 20 0) [1] = .panic ∧
    verifyRsa (replicate 46 0xff) [1] .sha1 (replicate 20 0) (block 44 []) = .panic ∧
    verifyRsa (replicate 46 0xff) [1] .sha1 (replicate 20 0) (0 :: sha1Block) = .ok ∧
    ¬ Exact (replicate 46 0xff) [1] .sha1 (replicate 20 0) (0 :: sha1Block) := by
  have hok : verifyRsa (replicate 46 0xff) [1] .sha1 (replicate 20 0) (0 :: sha1Block) = .ok := by
    decide +kernel
  exact ⟨rfl, by decide +kernel, hok, fun h => absurd (h.2.mp hok).1 (by decide)⟩

end TptRfc.X509.Rsa
