import TptRfc.Lib.Access
import TptRfc.Lib.Text

/-!
# DNS over HTTPS: the wire codec

`Message::to_bytes`, which writes the header and the questions, and `Message::from_bytes`.
-/

namespace TptRfc.Doh

open Lib Access
open Text (lower lowerChar)

inductive DnsError where
  | truncated
  | nameTooLong
  deriving DecidableEq

abbrev Decoded (α : Type) := Except (Fault DnsError) α

def truncated {α : Type} : Decoded α := .error (.error .truncated)

/-! ## Messages -/

structure Flags where
  qr : Bool
  opcode : UInt8
  authoritative : Bool
  truncated : Bool
  recursionDesired : Bool
  recursionAvailable : Bool
  authenticated : Bool
  checkingDisabled : Bool
  rcode : UInt8
  deriving DecidableEq

def Flags.fromU16 (v : UInt16) : Flags where
  qr := v &&& 0x8000 ≠ 0
  opcode := ((v >>> 11) &&& 0x0f).toUInt8
  authoritative := v &&& 0x0400 ≠ 0
  truncated := v &&& 0x0200 ≠ 0
  recursionDesired := v &&& 0x0100 ≠ 0
  recursionAvailable := v &&& 0x0080 ≠ 0
  authenticated := v &&& 0x0020 ≠ 0
  checkingDisabled := v &&& 0x0010 ≠ 0
  rcode := (v &&& 0x000f).toUInt8

def Flags.toU16 (f : Flags) : UInt16 :=
  (if f.qr then (0x8000 : UInt16) else 0) ||| ((f.opcode &&& 0x0f).toUInt16 <<< 11) |||
    (if f.authoritative then 0x0400 else 0) ||| (if f.truncated then 0x0200 else 0) |||
    (if f.recursionDesired then 0x0100 else 0) ||| (if f.recursionAvailable then 0x0080 else 0) |||
    (if f.authenticated then 0x0020 else 0) ||| (if f.checkingDisabled then 0x0010 else 0) |||
    (f.rcode &&& 0x0f).toUInt16

structure Question where
  name : List Char
  qtype : UInt16
  qclass : UInt16
  deriving DecidableEq

structure Opt where
  requestorPayloadSize : UInt16
  extendedRcode : UInt8
  version : UInt8
  dnssecOk : Bool
  options : Bytes
  deriving DecidableEq

inductive RData where
  | a (addr : FixedBytes 4)
  | aaaa (addr : FixedBytes 16)
  | cname (name : List Char)
  | ns (name : List Char)
  | ptr (name : List Char)
  | mx (preference : UInt16) (exchange : List Char)
  | txt (texts : List (List Char))
  | opt (opt : Opt)
  | other (data : Bytes)
  deriving DecidableEq

structure Record where
  name : List Char
  rtype : UInt16
  rclass : UInt16
  ttl : UInt32
  rdata : RData
  deriving DecidableEq

structure Message where
  id : UInt16
  flags : Flags
  questions : List Question
  answers : List Record
  authorities : List Record
  additionals : List Record
  deriving DecidableEq

def queryName (name : List Char) : List Char := lower (name.rdropWhile (· = '.'))

def classIn : UInt16 := 1

def Message.query (name : List Char) (qtype : UInt16) : Message where
  id := 0
  flags :=
    { qr := false, opcode := 0, authoritative := false, truncated := false,
      recursionDesired := true, recursionAvailable := false, authenticated := false,
      checkingDisabled := false, rcode := 0 }
  questions := [⟨queryName name, qtype, classIn⟩]
  answers := []
  authorities := []
  additionals := []

/-! ## Encoding -/

def writeLabel (label : Bytes) : Bytes := UInt8.ofNat label.length :: label

def nameLabels (name : List Char) : List (List Char) := (name.splitOn '.').filter (· ≠ [])

def writeName (name : List Char) : Bytes :=
  if name = [] then [0]
  else (nameLabels name).flatMap (fun label => writeLabel (Text.encode label)) ++ [0]

def Question.toBytes (q : Question) : Bytes :=
  writeName q.name ++ (u16Bytes q.qtype ++ u16Bytes q.qclass)

def Message.toBytes (m : Message) : Bytes :=
  u16Bytes m.id ++ (u16Bytes m.flags.toU16 ++ (u16Bytes (UInt16.ofNat m.questions.length) ++
    (u16Bytes 0 ++ (u16Bytes 0 ++ (u16Bytes 0 ++ m.questions.flatMap Question.toBytes)))))

/-! ## Decoding -/

def joinLabels (labels : List (List Char)) : List Char := ['.'].intercalate labels

def labelText (label : Bytes) : List Char := lower (Text.lossy label)

def readLabels (data : Bytes) (start : ℕ) :
    ℕ → ℕ → Bool → List (List Char) → Decoded (List Char × ℕ)
  | 0, _, _, _ => .error (.error .nameTooLong)
  | rounds + 1, pos, jumped, labels =>
    if data.length ≤ pos then truncated
    else do
      let len ← byteAt data pos
      if len &&& 0xc0 = 0xc0 then
        if data.length ≤ pos + 1 then truncated
        else do
          let low ← byteAt data (pos + 1)
          readLabels data start rounds ((len &&& 0x3f).toNat * 256 + low.toNat) true labels
      else if len = 0 then do
        -- two bytes as soon as a pointer was followed, whatever stands in front of it
        let consumed ← if jumped then pure 2 else subUsize true (pos + 1) start
        pure (joinLabels labels, consumed)
      else if data.length < pos + 1 + len.toNat then truncated
      else do
        let label ← slice data (pos + 1) (pos + 1 + len.toNat)
        readLabels data start rounds (pos + 1 + len.toNat) jumped (labels ++ [labelText label])

def readName (data : Bytes) (pos : ℕ) : Decoded (List Char × ℕ) :=
  readLabels data pos 256 pos false []

def parseTexts (data : Bytes) : ℕ → ℕ → List (List Char) → Decoded (List (List Char))
  | 0, _, _ => .error .panic
  | fuel + 1, i, txt =>
    if i < data.length then do
      let l ← byteAt data i
      if data.length < i + 1 + l.toNat then truncated
      else do
        let text ← slice data (i + 1) (i + 1 + l.toNat)
        parseTexts data fuel (i + 1 + l.toNat) (txt ++ [Text.lossy text])
    else pure txt

def parseOptions (data : Bytes) : ℕ → ℕ → Bytes → Decoded Bytes
  | 0, _, _ => .error .panic
  | fuel + 1, i, options =>
    if i + 4 ≤ data.length then do
      let _ ← u16At data i
      let optLen ← u16At data (i + 2)
      if data.length < i + 4 + optLen.toNat then truncated
      else do
        let option ← slice data (i + 4) (i + 4 + optLen.toNat)
        parseOptions data fuel (i + 4 + optLen.toNat) (options ++ option)
    else pure options

def parseRdata (rtype : UInt16) (data : Bytes) : Decoded RData :=
  if rtype = 1 then
    if data.length < 4 then truncated else pure (.a (.slice data 0 4))
  else if rtype = 28 then
    if data.length < 16 then truncated else pure (.aaaa (.slice data 0 16))
  else if rtype = 5 ∨ rtype = 2 ∨ rtype = 12 then do
    let (name, _) ← readName data 0
    pure (if rtype = 5 then .cname name else if rtype = 2 then .ns name else .ptr name)
  else if rtype = 15 then
    if data.length < 3 then truncated
    else do
      let preference ← u16At data 0
      let (exchange, _) ← readName data 2
      pure (.mx preference exchange)
  else if rtype = 16 then do
    let txt ← parseTexts data (data.length + 1) 0 []
    pure (.txt txt)
  else if rtype = 41 then do
    let options ← parseOptions data (data.length + 1) 0 []
    pure (.opt ⟨0, 0, 0, false, options⟩)
  else pure (.other data)

def u32At (data : Bytes) (i : ℕ) : Decoded UInt32 := do
  let a ← byteAt data i
  let b ← byteAt data (i + 1)
  let c ← byteAt data (i + 2)
  let d ← byteAt data (i + 3)
  pure (UInt32.ofNat (beNat [a, b, c, d]))

def readRecord (data : Bytes) (pos : ℕ) : Decoded (Record × ℕ) := do
  let (name, consumed) ← readName data pos
  let pos := pos + consumed
  if data.length < pos + 10 then truncated
  else do
    let rtype ← u16At data pos
    let rclass ← u16At data (pos + 2)
    let ttl ← u32At data (pos + 4)
    let rdlen ← u16At data (pos + 8)
    if data.length < pos + 10 + rdlen.toNat then truncated
    else do
      let rdataBytes ← slice data (pos + 10) (pos + 10 + rdlen.toNat)
      let rdata ← parseRdata rtype rdataBytes
      pure (⟨name, rtype, rclass, ttl, rdata⟩, pos + 10 + rdlen.toNat)

def readQuestion (data : Bytes) (pos : ℕ) : Decoded (Question × ℕ) := do
  let (name, consumed) ← readName data pos
  let pos := pos + consumed
  if data.length < pos + 4 then truncated
  else do
    let qtype ← u16At data pos
    let qclass ← u16At data (pos + 2)
    pure (⟨name, qtype, qclass⟩, pos + 4)

def readMany {α : Type} (read : ℕ → Decoded (α × ℕ)) : ℕ → ℕ → Decoded (List α × ℕ)
  | 0, pos => pure ([], pos)
  | count + 1, pos => do
    let (a, pos) ← read pos
    let (as, pos) ← readMany read count pos
    pure (a :: as, pos)

def readRecords (data : Bytes) (count pos : ℕ) : Decoded (List Record × ℕ) :=
  readMany (readRecord data) count pos

def Message.fromBytes (data : Bytes) : Decoded Message :=
  if data.length < 12 then Doh.truncated
  else do
    let id ← u16At data 0
    let flags ← u16At data 2
    let qd ← u16At data 4
    let an ← u16At data 6
    let ns ← u16At data 8
    let ar ← u16At data 10
    let (questions, pos) ← readMany (readQuestion data) qd.toNat 12
    let (answers, pos) ← readRecords data an.toNat pos
    let (authorities, pos) ← readRecords data ns.toNat pos
    let (additionals, _) ← readRecords data ar.toNat pos
    pure ⟨id, .fromU16 flags, questions, answers, authorities, additionals⟩

end TptRfc.Doh
