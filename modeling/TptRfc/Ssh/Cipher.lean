import TptRfc.Lib.Bytes

/-!
# SSH: packets of `chacha20-poly1305@openssh.com`

The content framing of `transport.rs`, and `cipher.rs`.  The stream of ChaCha20 and Poly1305 are
parameters, `Primitives`.
-/

namespace TptRfc.Ssh

open Lib List

/-! ## Content -/

inductive Error where
  | emptyContent
  | badPadding
  | packetTooShort
  | lengthMismatch
  | macFailed

def paddingFor (contentLen blockSize : ℕ) : ℕ :=
  let pad := (blockSize - contentLen % blockSize) % blockSize
  if pad < 4 then pad + blockSize else pad

def frameContent (message : Bytes) : Bytes :=
  let pad := paddingFor (1 + message.length) 8
  UInt8.ofNat pad :: (message ++ List.replicate pad 0)

def unpackContent (content : Bytes) : Except Error Bytes :=
  match content with
  | [] => .error .emptyContent
  | first :: rest =>
    if content.length < first.toNat + 1 then .error .badPadding
    else .ok (rest.take (content.length - first.toNat - 1))

theorem paddingFor_le (n : ℕ) : paddingFor n 8 ≤ 11 := by
  unfold paddingFor
  dsimp only
  split_ifs <;> omega

theorem length_frameContent_le (message : Bytes) :
    (frameContent message).length ≤ message.length + 12 := by
  have := paddingFor_le (1 + message.length)
  simp only [frameContent, length_cons, length_append, length_replicate]
  omega

theorem unpackContent_frameContent (message : Bytes) :
    unpackContent (frameContent message) = .ok message := by
  have hpad := paddingFor_le (1 + message.length)
  have hbyte : (UInt8.ofNat (paddingFor (1 + message.length) 8)).toNat =
      paddingFor (1 + message.length) 8 := by
    rw [UInt8.toNat_ofNat']
    omega
  have hframe : frameContent message = UInt8.ofNat (paddingFor (1 + message.length) 8) ::
      (message ++ List.replicate (paddingFor (1 + message.length) 8) 0) := rfl
  rw [hframe, unpackContent, hbyte]
  simp only [length_cons, length_append, length_replicate]
  rw [if_neg (by omega)]
  exact congrArg Except.ok (take_left' (by omega))

/-! ## The cipher -/

structure Primitives where
  /-- The octet of the ChaCha20 stream at a position, for a key and a sequence number. -/
  chacha : FixedBytes 32 → UInt32 → ℕ → UInt8
  /-- Poly1305 of a padded message. -/
  poly1305 : FixedBytes 32 → Bytes → FixedBytes 16

structure Cipher where
  kMain : FixedBytes 32
  kHeader : FixedBytes 32

def Cipher.new (key : FixedBytes 64) : Cipher := ⟨.slice key.val 0 32, .slice key.val 32 32⟩

def applyKeystream (stream : ℕ → UInt8) (pos : ℕ) (data : Bytes) : Bytes :=
  data.mapIdx fun i b => b ^^^ stream (pos + i)

variable (prims : Primitives)

def Cipher.tag (c : Cipher) (seq : UInt32) (data : Bytes) : FixedBytes 16 :=
  prims.poly1305 ⟨applyKeystream (prims.chacha c.kMain seq) 0 (List.replicate 32 0),
    by simp [applyKeystream]⟩ data

def Cipher.encryptPacket (c : Cipher) (seq : UInt32) (content : Bytes) : Bytes :=
  let encLen := applyKeystream (prims.chacha c.kHeader seq) 0 (beBytes 4 content.length)
  let encContent := applyKeystream (prims.chacha c.kMain seq) 64 content
  encLen ++ (encContent ++ (c.tag prims seq (encLen ++ encContent)).val)

def Cipher.peekContentLen (c : Cipher) (seq : UInt32) (encLen : Bytes) : ℕ :=
  beNat (applyKeystream (prims.chacha c.kHeader seq) 0 encLen)

def Cipher.decryptPacket (c : Cipher) (seq : UInt32) (packet : Bytes) : Except Error Bytes :=
  if packet.length < 20 then .error .packetTooShort
  else
    let split := packet.length - 16
    let encLen := packet.take 4
    let encContent := (packet.take split).drop 4
    if c.peekContentLen prims seq encLen ≠ encContent.length then .error .lengthMismatch
    else if (c.tag prims seq (encLen ++ encContent)).val ≠ packet.drop split then
      .error .macFailed
    else .ok (applyKeystream (prims.chacha c.kMain seq) 64 encContent)

/-! ## What is written is read back -/

@[simp] theorem length_applyKeystream (stream : ℕ → UInt8) (pos : ℕ) (data : Bytes) :
    (applyKeystream stream pos data).length = data.length := length_mapIdx

theorem applyKeystream_applyKeystream (stream : ℕ → UInt8) (pos : ℕ) (data : Bytes) :
    applyKeystream stream pos (applyKeystream stream pos data) = data := by
  refine ext_getElem (by simp) fun i h₁ h₂ => ?_
  simp only [applyKeystream, getElem_mapIdx]
  rw [UInt8.xor_assoc, UInt8.xor_self, UInt8.xor_zero]

theorem length_encryptPacket (c : Cipher) (seq : UInt32) (content : Bytes) :
    (c.encryptPacket prims seq content).length = 4 + content.length + 16 := by
  simp only [Cipher.encryptPacket, length_append, length_applyKeystream, length_beBytes,
    FixedBytes.length_val]
  omega

theorem take_encryptPacket (c : Cipher) (seq : UInt32) (content : Bytes) :
    (c.encryptPacket prims seq content).take 4 =
      applyKeystream (prims.chacha c.kHeader seq) 0 (beBytes 4 content.length) :=
  take_left' (by simp)

theorem peekContentLen_encryptPacket (c : Cipher) (seq : UInt32) {content : Bytes}
    (h : content.length < 2 ^ 32) :
    c.peekContentLen prims seq ((c.encryptPacket prims seq content).take 4) = content.length := by
  rw [take_encryptPacket, Cipher.peekContentLen, applyKeystream_applyKeystream,
    beNat_beBytes_of_lt (by omega)]

theorem decryptPacket_encryptPacket (c : Cipher) (seq : UInt32) {content : Bytes}
    (h : content.length < 2 ^ 32) :
    c.decryptPacket prims seq (c.encryptPacket prims seq content) = .ok content := by
  have hlen := length_encryptPacket prims c seq content
  have hpeek := peekContentLen_encryptPacket prims c seq h
  have htake := take_encryptPacket prims c seq content
  set encLen := applyKeystream (prims.chacha c.kHeader seq) 0 (beBytes 4 content.length)
    with hencLen
  set encContent := applyKeystream (prims.chacha c.kMain seq) 64 content with hencContent
  have hpacket : c.encryptPacket prims seq content =
      (encLen ++ encContent) ++ (c.tag prims seq (encLen ++ encContent)).val := by
    rw [append_assoc]
    rfl
  have hfront : (encLen ++ encContent).length = 4 + content.length := by
    simp [hencLen, hencContent]
  have hsplit : (c.encryptPacket prims seq content).length - 16 =
      (encLen ++ encContent).length := by omega
  have hbody : ((c.encryptPacket prims seq content).take
      ((c.encryptPacket prims seq content).length - 16)).drop 4 = encContent := by
    rw [hsplit, hpacket, take_left]
    exact drop_left' (by simp [hencLen])
  have htag : (c.encryptPacket prims seq content).drop
      ((c.encryptPacket prims seq content).length - 16) =
        (c.tag prims seq (encLen ++ encContent)).val := by
    rw [hsplit, hpacket, drop_left]
  unfold Cipher.decryptPacket
  dsimp only
  rw [if_neg (by omega), hbody, htag, hpeek, htake,
    if_neg (by simp [hencContent]), if_neg (by simp), hencContent, applyKeystream_applyKeystream]

end TptRfc.Ssh
