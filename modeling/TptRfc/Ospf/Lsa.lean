import TptRfc.Lib.Parser

/-!
# OSPF: link-state advertisements

The LSA header and the Router, Network and opaque bodies, with their wire codecs for both
versions.
-/

namespace TptRfc.Ospf

open Lib List Parser

inductive OspfVersion where
  | v2
  | v3
  deriving DecidableEq

inductive DecodeError where
  | truncatedHeader (needed actual : ℕ)
  | unsupportedVersion (version : UInt8)
  | unknownPacketType (packetType : UInt8)
  | lengthMismatch (declared actual : ℕ)
  | truncatedBody
  | fieldRead (size offset len : ℕ)
  | truncatedRouterLink
  deriving DecidableEq

structure Ip4 where
  a : UInt8
  b : UInt8
  c : UInt8
  d : UInt8
  deriving DecidableEq

def Ip4.bytes (ip : Ip4) : Bytes := [ip.a, ip.b, ip.c, ip.d]

/-! ## Reads at an offset -/

def byteAt (data : Bytes) (i : ℕ) : UInt8 := data.getD i 0

def u16At (data : Bytes) (i : ℕ) : UInt16 :=
  UInt16.ofNat (beNat [byteAt data i, byteAt data (i + 1)])

def u32At (data : Bytes) (i : ℕ) : UInt32 :=
  UInt32.ofNat (beNat [byteAt data i, byteAt data (i + 1), byteAt data (i + 2),
    byteAt data (i + 3)])

def ipAt (data : Bytes) (i : ℕ) : Ip4 :=
  ⟨byteAt data i, byteAt data (i + 1), byteAt data (i + 2), byteAt data (i + 3)⟩

@[simp] theorem length_ip4Bytes (ip : Ip4) : ip.bytes.length = 4 := rfl

def flagBits (bit0 bit1 bit2 : Bool) : UInt8 :=
  (if bit0 then 1 else (0 : UInt8)) ||| (if bit1 then (1 : UInt8) <<< 1 else 0) |||
    (if bit2 then (1 : UInt8) <<< 2 else 0)

theorem flagBits_test (bit0 bit1 bit2 : Bool) : (flagBits bit0 bit1 bit2 &&& 1 != 0) = bit0 ∧
      (flagBits bit0 bit1 bit2 &&& ((1 : UInt8) <<< 1) != 0) = bit1 ∧
      (flagBits bit0 bit1 bit2 &&& ((1 : UInt8) <<< 2) != 0) = bit2 := by
  revert bit0 bit1 bit2
  decide

/-! ## LSA headers -/

def lsaHeaderLen : ℕ := 20

def maxAge : UInt16 := 0xFFFF

structure LsaKey where
  lsaType : UInt16
  linkStateId : Ip4
  advertisingRouter : Ip4
  deriving DecidableEq

structure LsaHeader where
  version : OspfVersion
  age : UInt16
  options : UInt8
  lsaType : UInt16
  linkStateId : Ip4
  advertisingRouter : Ip4
  sequenceNumber : UInt32
  checksum : UInt16
  length : UInt16
  deriving DecidableEq

namespace LsaHeader

def key (h : LsaHeader) : LsaKey := ⟨h.lsaType, h.linkStateId, h.advertisingRouter⟩

def encode (h : LsaHeader) : Bytes :=
  u16Bytes h.age ++
    (match h.version with
      | .v2 => [h.options, h.lsaType.toUInt8]
      | .v3 => u16Bytes h.lsaType ++ [h.options]) ++
    h.linkStateId.bytes ++ h.advertisingRouter.bytes ++ u32Bytes h.sequenceNumber ++
    u16Bytes h.checksum ++ u16Bytes h.length

def decode (version : OspfVersion) (data : Bytes) : Except DecodeError LsaHeader :=
  if data.length < lsaHeaderLen then
    .error (.fieldRead lsaHeaderLen 0 data.length)
  else
    let (options, lsaType) : UInt8 × UInt16 :=
      match version with
      | .v2 => (byteAt data 2, (byteAt data 3).toUInt16)
      | .v3 => (byteAt data 4, u16At data 2)
    .ok
      { version := version
        age := u16At data 0
        options := options
        lsaType := lsaType
        linkStateId := ipAt data 4
        advertisingRouter := ipAt data 8
        sequenceNumber := u32At data 12
        checksum := u16At data 16
        length := u16At data 18 }

def encodeWithBody (h : LsaHeader) (body : Bytes) : Bytes :=
  { h with length := UInt16.ofNat (lsaHeaderLen + body.length) }.encode ++ body

end LsaHeader

/-! ## Bodies -/

structure RouterLink where
  /-- 1 = point-to-point, 2 = transit, 3 = stub, 4 = virtual link. -/
  linkType : UInt8
  linkId : Ip4
  linkData : Ip4
  metric : UInt16
  deriving DecidableEq

namespace RouterLink

def encode (l : RouterLink) : Bytes :=
  l.linkId.bytes ++ l.linkData.bytes ++ [l.linkType, 0] ++ u16Bytes l.metric

def decode (data : Bytes) : Except DecodeError RouterLink :=
  if data.length < 12 then .error .truncatedRouterLink
  else .ok
    { linkType := byteAt data 8
      linkId := ipAt data 0
      linkData := ipAt data 4
      metric := u16At data 10 }

def parser : Parser DecodeError RouterLink := fun body =>
  if body.length < 12 then .error .truncatedRouterLink
  else (decode (body.take 12)).map fun link => (link, body.drop 12)

end RouterLink

structure RouterLsa where
  header : LsaHeader
  v : Bool
  e : Bool
  b : Bool
  links : List RouterLink
  deriving DecidableEq

namespace RouterLsa

def body (r : RouterLsa) : Bytes :=
  [flagBits r.v r.e r.b, UInt8.ofNat r.links.length] ++ r.links.flatMap RouterLink.encode

def encode (r : RouterLsa) : Bytes := r.header.encodeWithBody r.body

def decode (version : OspfVersion) (data : Bytes) : Except DecodeError RouterLsa := do
  let header ← LsaHeader.decode version data
  let body := data.drop lsaHeaderLen
  if body.length < 2 then .error .truncatedBody
  else do
    let flags := byteAt body 0
    let n := (byteAt body 1).toNat
    let (links, _) ← times RouterLink.parser n (body.drop 2)
    pure
      { header := header
        v := flags &&& 1 != 0
        e := flags &&& ((1 : UInt8) <<< 1) != 0
        b := flags &&& ((1 : UInt8) <<< 2) != 0
        links := links }

end RouterLsa

structure NetworkLsa where
  header : LsaHeader
  networkMask : Ip4
  attachedRouters : List Ip4
  deriving DecidableEq

def ipParser : Parser DecodeError Ip4 := fun data =>
  if data.length < 4 then .error .truncatedBody else .ok (ipAt data 0, data.drop 4)

namespace NetworkLsa

def body (n : NetworkLsa) : Bytes := n.networkMask.bytes ++ n.attachedRouters.flatMap Ip4.bytes

def encode (n : NetworkLsa) : Bytes := n.header.encodeWithBody n.body

def decode (version : OspfVersion) (data : Bytes) : Except DecodeError NetworkLsa := do
  let header ← LsaHeader.decode version data
  let body := data.drop lsaHeaderLen
  if body.length < 4 then .error .truncatedBody
  else do
    let (attached, _) ← whileRemaining 4 ipParser (body.drop 4)
    pure { header := header, networkMask := ipAt body 0, attachedRouters := attached }

end NetworkLsa

structure RawLsa where
  header : LsaHeader
  body : Bytes
  deriving DecidableEq

namespace RawLsa

def encode (r : RawLsa) : Bytes := r.header.encodeWithBody r.body

def decode (version : OspfVersion) (data : Bytes) : Except DecodeError RawLsa := do
  let header ← LsaHeader.decode version data
  pure { header := header, body := data.drop lsaHeaderLen }

end RawLsa

inductive Lsa where
  | router (r : RouterLsa)
  | network (n : NetworkLsa)
  | raw (r : RawLsa)
  deriving DecidableEq

namespace Lsa

def header : Lsa → LsaHeader
  | router r => r.header
  | network n => n.header
  | raw r => r.header

def key (l : Lsa) : LsaKey := l.header.key

def encode : Lsa → Bytes
  | router r => r.encode
  | network n => n.encode
  | raw r => r.encode

def decode (version : OspfVersion) (data : Bytes) : Except DecodeError Lsa := do
  let hdr ← LsaHeader.decode version data
  match version with
  | .v2 =>
    if hdr.lsaType = 1 then router <$> RouterLsa.decode version data
    else if hdr.lsaType = 2 then network <$> NetworkLsa.decode version data
    else raw <$> RawLsa.decode version data
  | .v3 =>
    if hdr.lsaType = 0x2001 then router <$> RouterLsa.decode version data
    else if hdr.lsaType = 0x2002 then network <$> NetworkLsa.decode version data
    else raw <$> RawLsa.decode version data

end Lsa

/-! ## Round trips (version 2) -/

namespace LsaHeader

def FitsV2 (h : LsaHeader) : Prop := h.version = .v2 ∧ h.lsaType < 256

variable {h : LsaHeader}

theorem length_encode_v2 (hv : h.version = .v2) : h.encode.length = lsaHeaderLen := by
  simp [encode, hv, lsaHeaderLen]

theorem decode_encode_v2 (hfits : h.FitsV2) (rest : Bytes) :
    decode .v2 (h.encode ++ rest) = .ok h := by
  obtain ⟨hv, htype⟩ := hfits
  have hlen : ¬ (h.encode ++ rest).length < lsaHeaderLen := by
    rw [length_append, length_encode_v2 hv]
    omega
  rw [decode, if_neg hlen]
  obtain ⟨version, age, options, lsaType, id, adv, seq, ck, len⟩ := h
  subst hv
  -- every read is at a fixed offset of an explicit list, so only the integers are left
  congr 1
  congr 1
  · exact ofNat_beNat_u16Bytes age
  · apply UInt16.toNat_inj.mp
    have : lsaType.toNat < 256 := htype
    change (lsaType.toUInt8.toUInt16).toNat = lsaType.toNat
    simp [Nat.mod_eq_of_lt this]
  · exact ofNat_beNat_u32Bytes seq
  · exact ofNat_beNat_u16Bytes ck
  · exact ofNat_beNat_u16Bytes len

theorem encodeWithBody_eq {body : Bytes} (hlen : h.length.toNat = lsaHeaderLen + body.length) :
    h.encodeWithBody body = h.encode ++ body := by
  rw [encodeWithBody, ← hlen, UInt16.ofNat_toNat]

theorem length_encodeWithBody_v2 (hv : h.version = .v2) (body : Bytes) :
    (h.encodeWithBody body).length = lsaHeaderLen + body.length := by
  rw [encodeWithBody, length_append, length_encode_v2 (by exact hv)]

theorem drop_encode_v2 (hv : h.version = .v2) (rest : Bytes) :
    (h.encode ++ rest).drop lsaHeaderLen = rest := by
  rw [← length_encode_v2 hv, drop_left]

end LsaHeader

theorem decodes_ipParser (ip : Ip4) : Decodes ipParser ip.bytes ip := by
  intro rest
  have hlen : ¬ (ip.bytes ++ rest).length < 4 := by simp
  rw [ipParser, if_neg hlen]
  rfl

theorem RouterLink.length_encode (l : RouterLink) : l.encode.length = 12 := by
  simp [RouterLink.encode]

theorem RouterLink.parser_decodes (l : RouterLink) : Decodes RouterLink.parser l.encode l := by
  intro rest
  have hlen : ¬ (l.encode ++ rest).length < 12 := by
    rw [length_append, l.length_encode]
    omega
  have hdecode : decode l.encode = .ok l := by
    rw [decode, if_neg (by rw [l.length_encode]; omega)]
    congr 1
    obtain ⟨linkType, linkId, linkData, metric⟩ := l
    congr 1
    exact ofNat_beNat_u16Bytes metric
  rw [parser, if_neg hlen, ← l.length_encode, take_left, drop_left, hdecode]
  rfl

theorem RouterLsa.decode_encode_v2 {r : RouterLsa} (hfits : r.header.FitsV2)
    (hlen : r.header.length.toNat = lsaHeaderLen + r.body.length)
    (hlinks : r.links.length ≤ 255) : RouterLsa.decode .v2 r.encode = .ok r := by
  have hbody : ¬ r.body.length < 2 := by simp [RouterLsa.body]
  have htimes := (decodes_times RouterLink.encode r.links
    fun l _ => l.parser_decodes).run_nil
  have hcount : (byteAt r.body 1).toNat = r.links.length := by
    change (UInt8.ofNat r.links.length).toNat = _
    rw [UInt8.toNat_ofNat', Nat.mod_eq_of_lt (by omega)]
  rw [RouterLsa.encode, LsaHeader.encodeWithBody_eq hlen, RouterLsa.decode,
    LsaHeader.decode_encode_v2 hfits]
  simp only [LsaHeader.drop_encode_v2 hfits.1, if_neg hbody, hcount]
  rw [show r.body.drop 2 = r.links.flatMap RouterLink.encode from rfl, htimes]
  obtain ⟨hv, he, hb⟩ := flagBits_test r.v r.e r.b
  simp only [show byteAt r.body 0 = flagBits r.v r.e r.b from rfl, hv, he, hb]
  rfl

theorem NetworkLsa.decode_encode_v2 {n : NetworkLsa} (hfits : n.header.FitsV2)
    (hlen : n.header.length.toNat = lsaHeaderLen + n.body.length) :
    NetworkLsa.decode .v2 n.encode = .ok n := by
  have hbody : ¬ n.body.length < 4 := by simp [NetworkLsa.body]
  have hwhile := whileRemaining_flatMap (by decide) n.attachedRouters
    (fun ip _ => decodes_ipParser ip) (fun ip _ => (length_ip4Bytes ip).ge)
  rw [NetworkLsa.encode, LsaHeader.encodeWithBody_eq hlen, NetworkLsa.decode,
    LsaHeader.decode_encode_v2 hfits]
  simp only [LsaHeader.drop_encode_v2 hfits.1, if_neg hbody]
  rw [show n.body.drop 4 = n.attachedRouters.flatMap Ip4.bytes from rfl, hwhile]
  rfl

theorem RawLsa.decode_encode_v2 {r : RawLsa} (hfits : r.header.FitsV2)
    (hlen : r.header.length.toNat = lsaHeaderLen + r.body.length) :
    RawLsa.decode .v2 r.encode = .ok r := by
  rw [RawLsa.encode, LsaHeader.encodeWithBody_eq hlen, RawLsa.decode,
    LsaHeader.decode_encode_v2 hfits]
  simp only [LsaHeader.drop_encode_v2 hfits.1]
  rfl

namespace Lsa

def body : Lsa → Bytes
  | router r => r.body
  | network n => n.body
  | raw r => r.body

theorem encode_eq (l : Lsa) : l.encode = l.header.encodeWithBody l.body := by
  cases l <;> rfl

structure FitsV2 (l : Lsa) : Prop where
  header : l.header.FitsV2
  lsaType : match l with
    | router r => r.header.lsaType = 1
    | network n => n.header.lsaType = 2
    | raw r => r.header.lsaType ≠ 1 ∧ r.header.lsaType ≠ 2
  links : ∀ r, l = router r → r.links.length ≤ 255
  length : l.header.length.toNat = l.encode.length

variable {l : Lsa}

theorem FitsV2.length_body (h : l.FitsV2) :
    l.header.length.toNat = lsaHeaderLen + l.body.length := by
  rw [h.length, encode_eq, LsaHeader.length_encodeWithBody_v2 h.header.1]

theorem FitsV2.header_decode (h : l.FitsV2) (rest : Bytes) :
    LsaHeader.decode .v2 (l.encode ++ rest) = .ok l.header := by
  rw [encode_eq, LsaHeader.encodeWithBody_eq h.length_body, append_assoc,
    LsaHeader.decode_encode_v2 h.header]

theorem decode_encode_v2 (h : l.FitsV2) : decode .v2 l.encode = .ok l := by
  have hheader := h.header_decode []
  rw [append_nil] at hheader
  rw [decode, hheader]
  have htype := h.lsaType
  cases l with
  | router r =>
    have hdec := RouterLsa.decode_encode_v2 h.header h.length_body (h.links r rfl)
    simp only [bind, Except.bind, header, encode, if_pos htype, hdec]
    rfl
  | network n =>
    have hdec := NetworkLsa.decode_encode_v2 h.header h.length_body
    have hne : ¬ n.header.lsaType = 1 := by rw [show n.header.lsaType = 2 from htype]; decide
    simp only [bind, Except.bind, header, encode, if_neg hne, if_pos htype, hdec]
    rfl
  | raw r =>
    have hdec := RawLsa.decode_encode_v2 h.header h.length_body
    simp only [bind, Except.bind, header, encode, if_neg htype.1, if_neg htype.2, hdec]
    rfl

end Lsa

end TptRfc.Ospf
