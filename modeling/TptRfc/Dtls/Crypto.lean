import TptRfc.Dtls.Basic

/-!
# DTLS: primitives and the key schedule

Nothing here depends on what the primitives compute.
-/

namespace TptRfc.Dtls

open Lib

structure Crypto where
  digest : HashAlg → Bytes → Bytes
  hmac : (alg : HashAlg) → (key data : Bytes) → FixedBytes alg.outputLen
  aeadSeal : CipherSuite → (key : Bytes) → (nonce : FixedBytes 12) → (aad plaintext : Bytes) →
    Except DtlsError Bytes
  aeadOpen : CipherSuite → (key : Bytes) → (nonce : FixedBytes 12) → (aad ciphertext : Bytes) →
    Except DtlsError Bytes
  ed25519Verify : (publicKey msg signature : Bytes) → Bool

def plainTag (suite : CipherSuite) : Bytes := List.replicate 14 0 ++ u16Bytes suite.code

/-- Primitives that protect nothing: hashes and MACs are zero, a sealed text is the text and a tag
that names the suite, every signature verifies. -/
def Crypto.plain : Crypto where
  digest _ _ := []
  hmac alg _ _ := FixedBytes.replicate alg.outputLen 0
  aeadSeal suite _ _ _ plaintext := .ok (plaintext ++ plainTag suite)
  aeadOpen suite _ _ _ ciphertext :=
    if plainTag suite <:+ ciphertext then .ok (ciphertext.take (ciphertext.length - 16))
    else .error .decryptFailed
  ed25519Verify _ _ _ := true

structure X25519KeyPair where
  /-- The 32-byte public key. -/
  publicBytes : FixedBytes 32
  /-- Diffie-Hellman with the public key of the peer. -/
  agree : Bytes → Except DtlsError (FixedBytes 32)

structure Ed25519KeyPair where
  publicBytes : FixedBytes 32
  sign : Bytes → FixedBytes 64

/-! ## HKDF -/

variable (env : Crypto)

def hkdfExtract (alg : HashAlg) (salt : Option Bytes) (ikm : Bytes) : Bytes :=
  (env.hmac alg (salt.getD (List.replicate alg.outputLen 0)) ikm).val

def hkdfBlock (alg : HashAlg) (prk info : Bytes) (acc : Bytes × Bytes) (i : ℕ) : Bytes × Bytes :=
  let t := (env.hmac alg prk (acc.1 ++ info ++ [UInt8.ofNat i])).val
  (t, acc.2 ++ t)

def hkdfExpand (alg : HashAlg) (prk info : Bytes) (len : ℕ) : Bytes :=
  let blocks := (len + alg.outputLen - 1) / alg.outputLen
  (((List.range' 1 (blocks % 256)).foldl (hkdfBlock env alg prk info) ([], [])).2).take len

theorem length_foldl_hkdfBlock (alg : HashAlg) (prk info : Bytes) (is : List ℕ)
    (acc : Bytes × Bytes) : (is.foldl (hkdfBlock env alg prk info) acc).2.length =
      acc.2.length + is.length * alg.outputLen := by
  induction is generalizing acc with
  | nil => simp
  | cons i is ih =>
    rw [List.foldl_cons, ih]
    simp only [hkdfBlock, List.length_append, FixedBytes.length_val, List.length_cons]
    ring

theorem length_hkdfExpand (alg : HashAlg) (prk info : Bytes) {len : ℕ} (h : len ≤ 255 * 32) :
    (hkdfExpand env alg prk info len).length = len := by
  have hblocks : (len + alg.outputLen - 1) / alg.outputLen < 256 := by
    cases alg <;> simp only [HashAlg.outputLen] <;> omega
  have henough : len ≤ (len + alg.outputLen - 1) / alg.outputLen * alg.outputLen := by
    cases alg <;> simp only [HashAlg.outputLen] <;> omega
  simp only [hkdfExpand, List.length_take, length_foldl_hkdfBlock, List.length_range',
    List.length_nil, Nat.zero_add, Nat.mod_eq_of_lt hblocks]
  omega

/-! ## The key schedule -/

def labelBytes (label : String) : Bytes := label.toList.map fun ch => UInt8.ofNat ch.toNat

structure KeySchedule where
  hash : HashAlg

namespace KeySchedule

variable (ks : KeySchedule)

def extract (salt : Option Bytes) (ikm : Bytes) : Bytes := hkdfExtract env ks.hash salt ikm

def expandLabel (secret : Bytes) (label : String) (context : Bytes) (length : ℕ) : Bytes :=
  hkdfExpand env ks.hash secret
    (u16Bytes (UInt16.ofNat length) ++ labelBytes "tls13 " ++ labelBytes label ++ context) length

def deriveSecret (secret : Bytes) (label : String) (transcriptHash : Bytes) : Bytes :=
  ks.expandLabel env secret label transcriptHash ks.hash.outputLen

def deriveFinishedKey (baseSecret : Bytes) : Bytes :=
  ks.expandLabel env baseSecret "finished" [] ks.hash.outputLen

def finishedVerifyData (finishedKey transcriptHash : Bytes) : Bytes :=
  (env.hmac ks.hash finishedKey transcriptHash).val

end KeySchedule

structure TrafficKeys where
  key : Bytes
  iv : FixedBytes 12
  trafficSecret : Bytes

namespace TrafficKeys

def fromSecret (ks : KeySchedule) (suite : CipherSuite) (trafficSecret : Bytes) : TrafficKeys where
  key := ks.expandLabel env trafficSecret "key" [] suite.keyLen
  iv := ⟨ks.expandLabel env trafficSecret "iv" [] suite.ivLen,
    length_hkdfExpand env _ _ _ (by simp [CipherSuite.ivLen])⟩
  trafficSecret := trafficSecret

def finishedKey (keys : TrafficKeys) (ks : KeySchedule) : Bytes :=
  ks.deriveFinishedKey env keys.trafficSecret

end TrafficKeys

structure CookieMaker where
  secret : FixedBytes 32

def CookieMaker.generate (maker : CookieMaker) (clientAddress clientRandom : Bytes) : Bytes :=
  (env.hmac .sha256 maker.secret.val (clientAddress ++ clientRandom)).val

end TptRfc.Dtls
