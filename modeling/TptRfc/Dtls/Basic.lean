import TptRfc.Lib.Bytes
import TptRfc.Lib.Exec

/-!
# DTLS: shared vocabulary

Handshake message types, hash algorithms, cipher suites and the error type.
-/

namespace TptRfc.Dtls

open Lib

inductive HandshakeType where
  | clientHello
  | serverHello
  | encryptedExtensions
  | certificate
  | certificateVerify
  | finished
  deriving DecidableEq

inductive DtlsError where
  | unexpectedEof
  | recordLengthMismatch (declared actual : ℕ)
  | unknownHandshakeType (code : UInt8)
  | unexpectedHandshake (msgType : HandshakeType)
  | fragmentOutOfRange (offset len total : ℕ)
  | decryptFailed
  | sequenceOverflow (epoch : ℕ)
  | cookieMismatch
  | certificateVerifyFailed
  | finishedMismatch
  | handshakeIncomplete (what : String)
  | wrongRole (what : String)
  deriving DecidableEq

inductive HashAlg where
  | sha256
  | sha384

def HashAlg.outputLen : HashAlg → ℕ
  | .sha256 => 32
  | .sha384 => 48

inductive CipherSuite where
  | tlsAes128GcmSha256
  | tlsAes256GcmSha384
  | tlsChacha20Poly1305Sha256
  deriving DecidableEq

namespace CipherSuite

def code : CipherSuite → UInt16
  | tlsAes128GcmSha256 => 0x1301
  | tlsAes256GcmSha384 => 0x1302
  | tlsChacha20Poly1305Sha256 => 0x1303

def hashAlg : CipherSuite → HashAlg
  | tlsAes128GcmSha256 => .sha256
  | tlsAes256GcmSha384 => .sha384
  | tlsChacha20Poly1305Sha256 => .sha256

def keyLen : CipherSuite → ℕ
  | tlsAes128GcmSha256 => 16
  | tlsAes256GcmSha384 => 32
  | tlsChacha20Poly1305Sha256 => 32

def ivLen (_ : CipherSuite) : ℕ := 12

def tagLen (_ : CipherSuite) : ℕ := 16

end CipherSuite

end TptRfc.Dtls
