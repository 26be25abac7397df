import TptRfc.Ospf.Wire

/-!
# OSPF: the version 2 round trip

`from_bytes` undoes `to_bytes` on every OSPFv2 packet that the wire can carry,
and a receiver that sums such a packet sees a checksum of zero.
-/

namespace TptRfc.Ospf

open Lib List Parser FixedBytes

/-! ## Readers -/

namespace Reader

theorem decodes_u8 (b : UInt8) : Decodes u8 [b] b := decodes_takeU8 _ b

theorem decodes_u16 (v : UInt16) : Decodes u16 (u16Bytes v) v := decodes_takeU16 _ v

theorem decodes_u32 (v : UInt32) : Decodes u32 (u32Bytes v) v := decodes_takeU32 _ v

theorem decodes_ip (a : Ip4) : Decodes ip a.bytes a := decodes_ipParser a

theorem decodes_header {h : LsaHeader} (hfits : h.FitsV2) : Decodes (header .v2) h.encode h := by
  intro rest
  have hdec := LsaHeader.decode_encode_v2 hfits []
  rw [append_nil] at hdec
  rw [header, ← LsaHeader.length_encode_v2 hfits.1, take_left, drop_left, hdec]
  rfl

theorem decodes_lsa {l : Lsa} (hfits : l.FitsV2) : Decodes (lsa .v2) l.encode l := by
  intro rest
  have hge : lsaHeaderLen ≤ l.encode.length := by
    rw [← hfits.length, hfits.length_body]
    omega
  have hlong : ¬ (l.encode ++ rest).length < lsaHeaderLen := by
    rw [length_append]
    omega
  have hin : ¬ (l.encode.length < lsaHeaderLen ∨
      (l.encode ++ rest).length < l.encode.length) := by
    rw [length_append]
    omega
  rw [lsa, if_neg hlong, hfits.header_decode]
  simp only [bind, Except.bind, hfits.length, if_neg hin]
  rw [take_left, drop_left, Lsa.decode_encode_v2 hfits]
  rfl

theorem headers_encode {hs : List LsaHeader} (hfits : ∀ h ∈ hs, h.FitsV2) :
    whileRemaining lsaHeaderLen (header .v2) (hs.flatMap LsaHeader.encode) = .ok (hs, []) :=
  whileRemaining_flatMap (by decide) hs (fun h hh => decodes_header (hfits h hh))
    (fun h hh => (LsaHeader.length_encode_v2 (hfits h hh).1).ge)

end Reader

/-! ## Bodies -/

def PacketBody.FitsV2 : PacketBody → Prop
  | .hello h => h.interfaceId = 0
  | .dbd d => ∀ h ∈ d.lsas, h.FitsV2
  | .lsr _ => True
  | .lsu l => ∀ x ∈ l.lsas, x.FitsV2
  | .lsAck a => ∀ h ∈ a.lsas, h.FitsV2

def PacketBody.packetType : PacketBody → PacketType
  | .hello _ => .hello
  | .dbd _ => .dbd
  | .lsr _ => .lsr
  | .lsu _ => .lsu
  | .lsAck _ => .lsAck

theorem decodeHello_encode {h : HelloPacket} (hid : h.interfaceId = 0) :
    decodeHello .v2 (encodeHello .v2 h) = .ok (h, []) := by
  have hneighbors := whileRemaining_flatMap (by decide) h.neighbors
    (fun a _ => Reader.decodes_ip a) (fun a _ => (length_ip4Bytes a).ge)
  simp only [decodeHello, encodeHello]
  rw [bind_of_ok (Reader.decodes_ip _ _), bind_of_ok (Reader.decodes_u16 _ _),
    bind_of_ok (Reader.decodes_u8 _ _), bind_of_ok (Reader.decodes_u8 _ _),
    bind_of_ok (Reader.decodes_u32 _ _), bind_of_ok (Reader.decodes_ip _ _),
    bind_of_ok (Reader.decodes_ip _ _), bind_of_ok hneighbors, ← hid]
  rfl

theorem decodeDbd_encode {d : DbdPacket} (hfits : ∀ h ∈ d.lsas, h.FitsV2) :
    decodeDbd .v2 (encodeDbd .v2 d) = .ok (d, []) := by
  simp only [decodeDbd, encodeDbd]
  rw [bind_of_ok (Reader.decodes_u16 _ _), bind_of_ok (Reader.decodes_u8 _ _),
    bind_of_ok (Reader.decodes_u8 _ _), bind_of_ok (Reader.decodes_u32 _ _),
    bind_of_ok (Reader.headers_encode hfits)]
  obtain ⟨hmaster, hmore, hinit⟩ := flagBits_test d.master d.more d.init
  rw [hmaster, hmore, hinit]
  rfl

theorem decodes_request (req : LinkStateRequest) :
    Decodes (decodeRequest .v2) (encodeRequest .v2 req) req := by
  have htype := (Reader.decodes_u32 req.lsaType.toUInt32).bind_pure UInt32.toUInt16
  rw [show req.lsaType.toUInt32.toUInt16 = req.lsaType by simp] at htype
  exact htype.bind ((Reader.decodes_ip req.linkStateId).bind
    ((Reader.decodes_ip req.advertisingRouter).bind_pure _))

theorem decodeLsr_encode (reqs : List LinkStateRequest) :
    decodeLsr .v2 (encodeLsr .v2 reqs) = .ok (reqs, []) :=
  whileRemaining_flatMap (by decide) reqs (fun req _ => decodes_request req)
    (fun req _ => by simp [encodeRequest])

theorem decodeLsu_encode {l : LsuPacket} (hfits : ∀ x ∈ l.lsas, x.FitsV2)
    (hcount : l.lsas.length < 2 ^ 32) : decodeLsu .v2 (encodeLsu l) = .ok (l, []) := by
  have htimes := (decodes_times Lsa.encode l.lsas
    fun x hx => Reader.decodes_lsa (hfits x hx)).run_nil
  simp only [decodeLsu, encodeLsu]
  rw [bind_of_ok (Reader.decodes_u32 _ _), UInt32.toNat_ofNat',
    Nat.mod_eq_of_lt hcount, bind_of_ok htimes]
  rfl

theorem decodeLsack_encode {a : LsAckPacket} (hfits : ∀ h ∈ a.lsas, h.FitsV2) :
    decodeLsack .v2 (encodeLsack a) = .ok (a, []) := by
  simp only [decodeLsack, encodeLsack]
  rw [bind_of_ok (Reader.headers_encode hfits)]
  rfl

theorem length_lsas_le (lsas : List Lsa) : lsas.length ≤ (lsas.flatMap Lsa.encode).length := by
  induction lsas with
  | nil => simp
  | cons l lsas ih =>
    have hpos : 1 ≤ l.encode.length := by
      rw [Lsa.encode_eq, LsaHeader.encodeWithBody, length_append, LsaHeader.encode]
      simp only [length_append, length_u16Bytes]
      omega
    rw [flatMap_cons, length_append, length_cons]
    omega

theorem decodeBody_encode {body : PacketBody} (hfits : body.FitsV2)
    (hsize : (encodeBody .v2 body).length ≤ 65535) :
    decodeBody .v2 body.packetType (encodeBody .v2 body) = .ok (body, []) := by
  cases body with
  | hello h => exact map_of_ok _ (decodeHello_encode hfits)
  | dbd d => exact map_of_ok _ (decodeDbd_encode hfits)
  | lsr reqs => exact map_of_ok _ (decodeLsr_encode reqs)
  | lsu l =>
    have hle := length_lsas_le l.lsas
    simp only [encodeBody, encodeLsu, length_append] at hsize
    exact map_of_ok _ (decodeLsu_encode hfits (by omega))
  | lsAck a => exact map_of_ok _ (decodeLsack_encode hfits)

/-! ## The checksum -/

theorem toNat_internetChecksum {data : Bytes} (hsize : data.length ≤ 65535) :
    (internetChecksum data).toNat = 65535 - foldCarries (wordSum data) := by
  have hsum := wordSum_le data
  have hfold := foldCarries_lt (wordSum data)
  rw [internetChecksum, Nat.mod_eq_of_lt (by omega), UInt16.toNat_not, UInt16.toNat_ofNat',
    Nat.mod_eq_of_lt (by omega)]
  rfl

theorem wordSum_u16Bytes (v : UInt16) (rest : Bytes) :
    wordSum (u16Bytes v ++ rest) = v.toNat + wordSum rest :=
  wordSum_beBytes_two v.toNat_lt rest

theorem internetChecksum_embedded {pre rest : Bytes} (heven : pre.length % 2 = 0)
    (hsize : (pre ++ (u16Bytes 0 ++ rest)).length ≤ 65535) : internetChecksum
      (pre ++ (u16Bytes (internetChecksum (pre ++ (u16Bytes 0 ++ rest))) ++ rest)) = 0 := by
  have hsum : wordSum (pre ++ (u16Bytes 0 ++ rest)) = wordSum pre + wordSum rest := by
    rw [wordSum_append _ heven, wordSum_u16Bytes]
    simp
  apply UInt16.toNat_inj.mp
  rw [toNat_internetChecksum (by simpa using hsize), wordSum_append _ heven, wordSum_u16Bytes,
    toNat_internetChecksum hsize, hsum]
  rw [show ∀ a b c : ℕ, a + (b + c) = a + c + b by intros; omega, foldCarries_add_complement]
  rfl

/-! ## Packets -/

namespace OspfPacket

structure FitsV2 (p : OspfPacket) : Prop where
  version : p.version = .v2
  packetType : p.packetType = p.body.packetType
  instanceId : p.instanceId = 0
  body : p.body.FitsV2
  size : p.toBytes.length ≤ 65535

@[simp] theorem length_commonHeader (p : OspfPacket) (n : ℕ) : (p.commonHeader n).length = 12 := by
  simp [commonHeader]

def tailV2 (p : OspfPacket) : Bytes := u16Bytes p.authType ++ (p.auth.val ++ encodeBody .v2 p.body)

theorem writeAt_append (pre old new rest : Bytes) (h : old.length = new.length) :
    writeAt (pre ++ (old ++ rest)) pre.length new = pre ++ (new ++ rest) := by
  rw [writeAt, take_left, ← drop_drop, drop_left, ← h, drop_left, append_assoc]

theorem internetChecksumSkip_append (pre mid rest : Bytes) :
    internetChecksumSkip (pre ++ (mid ++ rest)) pre.length (pre.length + mid.length) =
      internetChecksum (pre ++ rest) := by
  rw [internetChecksumSkip, take_left, ← drop_drop, drop_left, drop_left]

theorem internetChecksumSkip_auth (p : OspfPacket) (n : ℕ) (word : UInt16) :
    internetChecksumSkip (p.commonHeader n ++ (u16Bytes word ++ p.tailV2)) 16 24 =
      internetChecksum (p.commonHeader n ++ (u16Bytes word ++
        (u16Bytes p.authType ++ encodeBody .v2 p.body))) := by
  have h := internetChecksumSkip_append
    (p.commonHeader n ++ (u16Bytes word ++ u16Bytes p.authType)) p.auth.val
    (encodeBody .v2 p.body)
  simpa [tailV2, append_assoc] using h

theorem toBytes_v2 {p : OspfPacket} (hv : p.version = .v2) :
    p.toBytes = p.commonHeader (encodeBody .v2 p.body).length ++
      (u16Bytes (internetChecksum (p.commonHeader (encodeBody .v2 p.body).length ++
        (u16Bytes 0 ++ (u16Bytes p.authType ++ encodeBody .v2 p.body)))) ++ p.tailV2) := by
  rw [← internetChecksumSkip_auth]
  have h := writeAt_append (p.commonHeader (encodeBody .v2 p.body).length) (u16Bytes 0)
    (u16Bytes (internetChecksumSkip
      (p.commonHeader (encodeBody .v2 p.body).length ++ (u16Bytes 0 ++ p.tailV2)) 16 24))
    p.tailV2 rfl
  rw [length_commonHeader] at h
  rw [← h]
  simp only [toBytes, hv, tailV2]

theorem length_toBytes_v2 {p : OspfPacket} (hv : p.version = .v2) :
    p.toBytes.length = 24 + (encodeBody .v2 p.body).length := by
  rw [toBytes_v2 hv]
  simp only [tailV2, length_append, length_commonHeader, length_u16Bytes, length_val]
  omega

theorem fromBytes_reads {p : OspfPacket} (hv : p.version = .v2) (n : ℕ) (word : UInt16) :
    let data := p.commonHeader n ++ (u16Bytes word ++ p.tailV2)
    data.head? = some 2 ∧ byteAt data 1 = p.packetType.toU8 ∧
      u16At data 2 = UInt16.ofNat (24 + n) ∧ ipAt data 4 = p.routerId ∧
      ipAt data 8 = p.areaId ∧ u16At data 14 = p.authType ∧
      slice data 16 8 = p.auth ∧ data.drop 24 = encodeBody .v2 p.body := by
  obtain ⟨version, packetType, routerId, areaId, authType, auth, instanceId, body⟩ := p
  subst hv
  refine ⟨rfl, rfl, ofNat_beNat_u16Bytes _, rfl, rfl, ofNat_beNat_u16Bytes _, ?_, ?_⟩
  · exact slice_append (commonHeader _ n ++ (u16Bytes word ++ u16Bytes authType))
      (encodeBody .v2 body) auth
  · have h := @drop_left _
      (commonHeader ⟨.v2, packetType, routerId, areaId, authType, auth, instanceId, body⟩ n
        ++ (u16Bytes word ++ (u16Bytes authType ++ auth.val))) (encodeBody .v2 body)
    simpa [tailV2, append_assoc] using h

/-- **Round trip and checksum of OSPFv2 packets.** -/
theorem fromBytes_toBytes_v2 {p : OspfPacket} (h : p.FitsV2) :
    fromBytes p.toBytes = .ok p ∧ internetChecksumSkip p.toBytes 16 24 = 0 := by
  have hlen := length_toBytes_v2 h.version
  have hsize := h.size
  constructor
  · have hreads := fromBytes_reads h.version (encodeBody .v2 p.body).length
      (internetChecksum (p.commonHeader (encodeBody .v2 p.body).length ++
        (u16Bytes 0 ++ (u16Bytes p.authType ++ encodeBody .v2 p.body))))
    rw [← toBytes_v2 h.version] at hreads
    obtain ⟨hhead, htype, htotal, hrouter, harea, hauthType, hauth, hdrop⟩ := hreads
    have hlong : ¬ p.toBytes.length < OspfVersion.v2.headerLen := by
      rw [hlen]
      simp [OspfVersion.headerLen]
    have hdeclared : ¬ (UInt16.ofNat (24 + (encodeBody .v2 p.body).length)).toNat ≠
        p.toBytes.length := by
      rw [UInt16.toNat_ofNat', Nat.mod_eq_of_lt (by omega), hlen]
      simp
    have hbody : decodeBody .v2 p.packetType (p.toBytes.drop OspfVersion.v2.headerLen) =
        .ok (p.body, []) := by
      rw [show OspfVersion.v2.headerLen = 24 from rfl, hdrop, h.packetType]
      exact decodeBody_encode h.body (by omega)
    simp only [fromBytes, hhead, show OspfVersion.fromU8 2 = some .v2 from rfl, if_neg hlong,
      htype, PacketType.fromU8_toU8, htotal, if_neg hdeclared, hauthType, hauth, hrouter, harea,
      hbody]
    obtain ⟨version, packetType, routerId, areaId, authType, auth, instanceId, body⟩ := p
    rw [show version = .v2 from h.version, show instanceId = 0 from h.instanceId]
    rfl
  · rw [toBytes_v2 h.version, internetChecksumSkip_auth]
    apply internetChecksum_embedded (by rw [length_commonHeader])
    simp only [length_append, length_commonHeader, length_u16Bytes]
    omega

def sampleUpdate : OspfPacket :=
  { version := .v2
    packetType := .lsu
    routerId := ⟨1, 1, 1, 1⟩
    areaId := ⟨0, 0, 0, 0⟩
    authType := 1
    auth := ⟨[112, 97, 115, 115, 119, 111, 114, 100], rfl⟩
    instanceId := 0
    body := .lsu
      ⟨[.router
          { header :=
              { version := .v2, age := 3, options := 2, lsaType := 1,
                linkStateId := ⟨1, 1, 1, 1⟩, advertisingRouter := ⟨1, 1, 1, 1⟩,
                sequenceNumber := 0x80000001, checksum := 7, length := 46 }
            v := false
            e := true
            b := true
            links :=
              [⟨1, ⟨2, 2, 2, 2⟩, ⟨10, 0, 0, 1⟩, 10⟩, ⟨3, ⟨10, 1, 0, 0⟩, ⟨255, 255, 0, 0⟩, 1⟩] },
        .raw
          { header :=
              { version := .v2, age := 0xFFFF, options := 2, lsaType := 5,
                linkStateId := ⟨10, 2, 0, 0⟩, advertisingRouter := ⟨1, 1, 1, 1⟩,
                sequenceNumber := 0x80000002, checksum := 9, length := 23 }
            body := [1, 2, 3] }]⟩ }

theorem sampleUpdate_fits : sampleUpdate.FitsV2 where
  version := rfl
  packetType := rfl
  instanceId := rfl
  body := by
    intro l hl
    simp only [mem_cons, not_mem_nil, or_false] at hl
    rcases hl with rfl | rfl
    · exact ⟨⟨rfl, by decide⟩, rfl, by rintro r ⟨⟩; decide, rfl⟩
    · exact ⟨⟨rfl, by decide⟩, by decide, by rintro r ⟨⟩, rfl⟩
  size := by
    rw [length_toBytes_v2 rfl]
    decide

theorem fromBytes_toBytes_sampleUpdate : fromBytes sampleUpdate.toBytes = .ok sampleUpdate ∧
      internetChecksumSkip sampleUpdate.toBytes 16 24 = 0 :=
  fromBytes_toBytes_v2 sampleUpdate_fits

end OspfPacket

end TptRfc.Ospf
