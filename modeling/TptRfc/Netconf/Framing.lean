import TptRfc.Lib.Access
import TptRfc.Lib.Framing
import TptRfc.Lib.Text

/-!
# NETCONF: message framing

`encode_message` and `FrameDecoder`.  A message is followed by the end-of-message sequence, or it is
sent in chunks if it has `]]>` in it.
-/

namespace TptRfc.Netconf

open Lib Access Text

inductive NetconfError where
  | malformedHeader (line : String)
  | invalidSize (digits : String)

def isizeMax : ℕ := 2 ^ 63 - 1

def usizeMax : ℕ := 2 ^ 64 - 1

def baseEom : Bytes := [0x5d, 0x5d, 0x3e, 0x5d, 0x5d, 0x3e]

def chunkEnd : Bytes := [0x23, 0x23]

def chunkSize : ℕ := 4096

def position (needle : Bytes) : Bytes → Option ℕ
  | [] => none
  | b :: rest =>
    if needle.isPrefixOf (b :: rest) then some 0 else (position needle rest).map (· + 1)

def findSubslice (haystack needle : Bytes) : Option ℕ :=
  if needle = [] ∨ haystack.length < needle.length then none else position needle haystack

/-! ## Encoding -/

structure ChunkState where
  out : Bytes
  buf : List Char

def closeChunk (buf : List Char) : List Char :=
  if buf.getLast? = some '\n' then buf else buf ++ ['\n']

def chunk (buf : List Char) : Bytes := 0x23 :: decimal (encode buf).length ++ 0x0a :: encode buf

def joinLine (buf line : List Char) : List Char :=
  if buf = [] then line else buf ++ '\n' :: line

def ChunkState.addLine (s : ChunkState) (line : List Char) : ChunkState :=
  if chunkSize ≤ (encode (joinLine s.buf line)).length then
    { out := s.out ++ chunk (closeChunk (joinLine s.buf line)), buf := [] }
  else
    { s with buf := joinLine s.buf line }

def lines (message : String) : List (List Char) := message.toList.splitOn '\n'

def encodeChunked (message : String) : Bytes :=
  let s := (lines message).foldl ChunkState.addLine { out := [], buf := [] }
  (if s.buf = [] then s.out else s.out ++ chunk (closeChunk s.buf)) ++ [0x23, 0x23, 0x0a]

def isChunked (message : String) : Bool :=
  (findSubslice (encode message.toList) [0x5d, 0x5d, 0x3e]).isSome

def encodeMessage (message : String) : Bytes :=
  if isChunked message then encodeChunked message
  else encode message.toList ++ baseEom

/-! ## Decoding -/

abbrev FrameDecoder := Bytes

def fromUtf8Lossy (bytes : Bytes) : String := String.ofList (lossy bytes)

def trim (s : String) : String := String.ofList (trimBy isWhitespace s.toList)

def isAsciiWhitespace (b : UInt8) : Bool :=
  b == 0x20 || b == 0x09 || b == 0x0a || b == 0x0c || b == 0x0d

def findByteFrom (haystack : Bytes) (byte : UInt8) (start : ℕ) :
    Except (Fault NetconfError) (Option ℕ) := do
  let rest ← slice haystack start haystack.length
  pure ((rest.findIdx? (· == byte)).map (start + ·))

def addUsize (a b : ℕ) : Except (Fault NetconfError) ℕ :=
  if a + b ≤ usizeMax then .ok (a + b) else .error .panic

def parseSize (digits : Bytes) : Except (Fault NetconfError) ℕ :=
  match parseUnsigned usizeMax digits with
  | some n => .ok n
  | none => .error (.error (.invalidSize (fromUtf8Lossy digits)))

def chunkLoop (buf : Bytes) : ℕ → ℕ → Bytes → Except (Fault NetconfError) (Option (String × ℕ))
  | 0, _, _ => .error .panic
  | fuel + 1, pos, msg => do
    match ← findByteFrom buf 0x0a pos with
    | none => pure none
    | some nl =>
      let line ← slice buf pos nl
      if line = chunkEnd then
        pure (some (fromUtf8Lossy msg, nl + 1))
      else if line.head? ≠ some 0x23 then
        .error (.error (.malformedHeader (fromUtf8Lossy line)))
      else
        let len ← parseSize line.tail
        let stop ← addUsize (nl + 1) len
        if buf.length < stop then
          pure none
        else
          let data ← slice buf (nl + 1) stop
          chunkLoop buf fuel stop (msg ++ data)

namespace FrameDecoder

def tryChunked (buf : FrameDecoder) (start : ℕ) :
    Except (Fault NetconfError) (Option (String × ℕ)) :=
  chunkLoop buf (buf.length + 1) start []

def tryExtract : Exec FrameDecoder NetconfError (Option String) := fun buf =>
  match buf.findIdx? (fun b => !isAsciiWhitespace b) with
  | none => (.ok none, buf)
  | some start =>
    if buf[start]? = some 0x23 then
      match tryChunked buf start with
      | .ok (some (msg, consumed)) => (.ok (some msg), buf.drop consumed)
      | .ok none => (.ok none, buf)
      | .error e => (.error e, buf)
    else
      match findSubslice buf baseEom with
      | some eom => (.ok (some (trim (fromUtf8Lossy (buf.take eom)))),
          buf.drop (eom + baseEom.length))
      | none => (.ok none, buf)

def new : FrameDecoder := []

def push (data : Bytes) : Exec FrameDecoder NetconfError (List String) :=
  Framing.push tryExtract data

end FrameDecoder

end TptRfc.Netconf
