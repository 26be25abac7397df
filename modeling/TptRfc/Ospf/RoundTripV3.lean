import TptRfc.Ospf.LsaV3

/-!
# OSPF: what survives the version 3 codec

The version 3 layouts of `to_bytes` and `from_bytes` do not match.
-/

namespace TptRfc.Ospf

open Lib List Parser

/-! ## Link state updates -/

theorem Reader.lsa_eq_ok_iff {version : OspfVersion} {b mid : Bytes} {l : Lsa} :
    Reader.lsa version b = .ok (l, mid) ↔
      ∃ hdr, LsaHeader.decode version b = .ok hdr ∧ lsaHeaderLen ≤ hdr.length.toNat ∧
        hdr.length.toNat ≤ b.length ∧ Lsa.decode version (b.take hdr.length.toNat) = .ok l ∧
        mid = b.drop hdr.length.toNat := by
  unfold Reader.lsa
  split
  · rename_i hshort
    refine iff_of_false nofun ?_
    rintro ⟨hdr, -, hge, hle, -⟩
    omega
  · cases LsaHeader.decode version b with
    | error e => simp [bind, Except.bind]
    | ok hdr =>
      simp only [bind, Except.bind, Except.ok.injEq, exists_eq_left']
      split
      · rename_i hlen
        refine iff_of_false nofun ?_
        rintro ⟨hge, hle, -⟩
        omega
      · rename_i hlen
        cases Lsa.decode version (b.take hdr.length.toNat) with
        | error e => simp
        | ok l' =>
          simp only [Except.ok.injEq]
          constructor
          · rintro ⟨⟩
            exact ⟨by omega, by omega, rfl, rfl⟩
          · rintro ⟨-, -, rfl, rfl⟩
            rfl

theorem Reader.lsa_survives_iff {l : Lsa} (hfits : l.FitsV3) {rest mid : Bytes} :
    Reader.lsa .v3 (l.encode ++ rest) = .ok (l, mid) ↔ l.SurvivesV3 ∧ mid = rest := by
  rw [Reader.lsa_eq_ok_iff, ← Lsa.decode_encode_v3_iff hfits]
  have hlen := hfits.length
  constructor
  · rintro ⟨hdr, hheader, hge, hle, hdec, rfl⟩
    -- the header that gives the length is the one that is read again with the LSA
    have hsame : hdr = l.header := by
      have hagain := LsaHeader.decode_v3_append (Lsa.decode_v3_eq_ok hdec).1
        ((l.encode ++ rest).drop hdr.length.toNat)
      rw [take_append_drop, hheader] at hagain
      exact Except.ok.inj hagain
    rw [hsame, hlen, take_left] at hdec
    exact ⟨hdec, by rw [hsame, hlen, drop_left]⟩
  · rintro ⟨hdec, rfl⟩
    have hge := Lsa.length_encode_v3 hfits.version
    refine ⟨l.header, LsaHeader.decode_v3_append (Lsa.decode_v3_eq_ok hdec).1 _, ?_, ?_, ?_, ?_⟩
    · rw [hlen, hge, lsaHeaderLen]
      omega
    · rw [hlen, length_append]
      omega
    · rw [hlen, take_left, hdec]
    · rw [hlen, drop_left]

theorem lsas_survive_iff {lsas : List Lsa} (hfits : ∀ x ∈ lsas, x.FitsV3) :
    (∃ rest, times (Reader.lsa .v3) lsas.length (lsas.flatMap Lsa.encode) =
      .ok (lsas, rest)) ↔ ∀ x ∈ lsas, x.SurvivesV3 := by
  induction lsas with
  | nil => exact iff_of_true ⟨[], rfl⟩ nofun
  | cons l lsas ih =>
    have hrec := ih fun x hx => hfits x (mem_cons_of_mem _ hx)
    have hfirst := hfits l mem_cons_self
    simp only [length_cons, times_succ_eq_ok_iff, flatMap_cons,
      List.cons.injEq, forall_mem_cons, ← hrec]
    constructor
    · rintro ⟨rest, a, mid, as, hl, hloop, rfl, rfl⟩
      obtain ⟨hsurvives, rfl⟩ := (Reader.lsa_survives_iff hfirst).mp hl
      exact ⟨hsurvives, rest, hloop⟩
    · rintro ⟨hsurvives, rest, hloop⟩
      exact ⟨rest, l, _, lsas, (Reader.lsa_survives_iff hfirst).mpr ⟨hsurvives, rfl⟩, hloop,
        rfl, rfl⟩

/-! ## Bodies -/

def PacketBody.FitsV3 : PacketBody → Prop
  | .hello h => h.networkMask = ⟨0, 0, 0, 0⟩
  | .dbd d => ∀ h ∈ d.lsas, h.version = .v3
  | .lsr _ => True
  | .lsu l => ∀ x ∈ l.lsas, x.FitsV3
  | .lsAck a => ∀ h ∈ a.lsas, h.version = .v3

def PacketBody.SurvivesV3 : PacketBody → Prop
  | .hello _ => True
  | .dbd d => Repetitive d.lsas
  | .lsr reqs => reqs = []
  | .lsu l => ∀ x ∈ l.lsas, x.SurvivesV3
  | .lsAck a => Repetitive a.lsas

theorem decodeHello_encode_v3 {h : HelloPacket} (hmask : h.networkMask = ⟨0, 0, 0, 0⟩)
    (hcount : h.neighbors.length < 2 ^ 32) : decodeHello .v3 (encodeHello .v3 h) = .ok (h, []) := by
  have hneighbors := (decodes_times Ip4.bytes h.neighbors
    fun a _ => Reader.decodes_ip a).run_nil
  have hoptions : ∀ rest : Bytes, [h.options, 0, 0] ++ rest =
      [h.options] ++ ([0] ++ ([0] ++ rest)) := fun _ => rfl
  simp only [decodeHello, encodeHello, hoptions]
  rw [bind_of_ok (Reader.decodes_u32 _ _), bind_of_ok (Reader.decodes_u8 _ _),
    bind_of_ok (Reader.decodes_u8 _ _), bind_of_ok (Reader.decodes_u8 _ _),
    bind_of_ok (Reader.decodes_u8 _ _), bind_of_ok (Reader.decodes_u16 _ _),
    bind_of_ok (Reader.decodes_u32 _ _), bind_of_ok (Reader.decodes_ip _ _),
    bind_of_ok (Reader.decodes_ip _ _), bind_of_ok (Reader.decodes_u32 _ _),
    UInt32.toNat_ofNat', Nat.mod_eq_of_lt hcount, bind_of_ok hneighbors, ← hmask]
  rfl

theorem bind_pure_survives_iff {ε α β : Type} {p : Parser ε α} {f : α → β} {bytes : Bytes} {a : α}
    (hf : Function.Injective f) :
    (∃ rest, (do pure (f (← p)) : Parser ε β) bytes = .ok (f a, rest)) ↔
      ∃ rest, p bytes = .ok (a, rest) := by
  refine exists_congr fun rest => ?_
  rw [bind_ok_iff]
  constructor
  · rintro ⟨x, mid, hp, h⟩
    obtain ⟨hx, rfl⟩ := Prod.mk.inj (Except.ok.inj h)
    rw [hp, hf hx]
  · exact fun h => ⟨a, rest, h, rfl⟩

theorem decodeDbd_encode_v3_iff {d : DbdPacket} (hv : ∀ h ∈ d.lsas, h.version = .v3) :
    (∃ rest, decodeDbd .v3 (encodeDbd .v3 d) = .ok (d, rest)) ↔ Repetitive d.lsas := by
  have hoptions : Decodes (do
      let o ← Reader.u8
      let _ ← Reader.u8
      let _ ← Reader.u8
      pure o) [d.options, 0, 0] d.options := fun _ => rfl
  obtain ⟨hmaster, hmore, hinit⟩ := flagBits_test d.master d.more d.init
  rw [← headers_survive_iff hv]
  simp only [decodeDbd, encodeDbd]
  rw [bind_of_ok (Reader.decodes_u16 _ _), bind_of_ok (hoptions _),
    bind_of_ok (Reader.decodes_u8 _ _), bind_of_ok (Reader.decodes_u32 _ _),
    hmaster, hmore, hinit]
  exact bind_pure_survives_iff (f := fun lsas => { d with lsas }) fun _ _ h =>
    congrArg DbdPacket.lsas h

theorem decodeLsack_encode_v3_iff {a : LsAckPacket} (hv : ∀ h ∈ a.lsas, h.version = .v3) :
    (∃ rest, decodeLsack .v3 (encodeLsack a) = .ok (a, rest)) ↔ Repetitive a.lsas := by
  rw [← headers_survive_iff hv]
  simp only [decodeLsack, encodeLsack]
  exact bind_pure_survives_iff (f := LsAckPacket.mk) fun _ _ h => by cases h; rfl

theorem decodes_request_v3 (req : LinkStateRequest) :
    Decodes (decodeRequest .v3) (encodeRequest .v3 req) req :=
  ((Reader.decodes_u16 0).bind (Reader.decodes_u16 req.lsaType)).bind
    ((Reader.decodes_ip req.linkStateId).bind
      ((Reader.decodes_ip req.advertisingRouter).bind_pure _))

theorem shrinks_decodeRequest_v3 : Shrinks (decodeRequest .v3) :=
  ((shrinks_takeU16 _).bind fun _ => shrinks_takeU16 _).bind fun _ =>
    shrinks_ipParser.bind fun _ => shrinks_ipParser.bind_pure _

theorem decodeLsr_encode_v3_iff (reqs : List LinkStateRequest) :
    (∃ rest, decodeLsr .v3 (encodeLsr .v3 reqs) = .ok (reqs, rest)) ↔ reqs = [] := by
  induction reqs with
  | nil => exact iff_of_true ⟨[], rfl⟩ rfl
  | cons req reqs ih =>
    refine iff_of_false ?_ nofun
    rintro ⟨rest, h⟩
    obtain ⟨hlong, mid, hfirst, hloop⟩ := (whileRemaining_eq_ok_cons_iff (k := 16)
      (by decide) shrinks_decodeRequest_v3).mp h
    rw [encodeLsr, flatMap_cons] at hlong hfirst
    rw [decodes_request_v3 req] at hfirst
    cases hfirst
    obtain rfl := ih.mp ⟨rest, hloop⟩
    simp [encodeRequest] at hlong

theorem decodeLsu_encode_v3_iff {l : LsuPacket} (hfits : ∀ x ∈ l.lsas, x.FitsV3)
    (hcount : l.lsas.length < 2 ^ 32) :
    (∃ rest, decodeLsu .v3 (encodeLsu l) = .ok (l, rest)) ↔ ∀ x ∈ l.lsas, x.SurvivesV3 := by
  rw [← lsas_survive_iff hfits]
  simp only [decodeLsu, encodeLsu]
  rw [bind_of_ok (Reader.decodes_u32 _ _), UInt32.toNat_ofNat', Nat.mod_eq_of_lt hcount]
  exact bind_pure_survives_iff (f := LsuPacket.mk) fun _ _ h => by cases h; rfl

theorem decodeBody_encode_v3_iff {body : PacketBody} (hfits : body.FitsV3)
    (hsize : (encodeBody .v3 body).length ≤ 65535) :
    (∃ rest, decodeBody .v3 body.packetType (encodeBody .v3 body) = .ok (body, rest)) ↔
      body.SurvivesV3 := by
  cases body <;> simp only [PacketBody.packetType, decodeBody, map_eq_ok_iff, encodeBody,
    PacketBody.hello.injEq, PacketBody.dbd.injEq, PacketBody.lsr.injEq, PacketBody.lsu.injEq,
    PacketBody.lsAck.injEq, exists_eq_right] at hsize ⊢
  case hello h =>
    have hcount : h.neighbors.length < 2 ^ 32 := by
      simp only [encodeHello, length_append, length_flatMap, length_ip4Bytes, map_const',
        sum_replicate, smul_eq_mul] at hsize
      omega
    exact iff_of_true ⟨[], decodeHello_encode_v3 hfits hcount⟩ trivial
  case dbd d => exact decodeDbd_encode_v3_iff hfits
  case lsr reqs => exact decodeLsr_encode_v3_iff reqs
  case lsu l =>
    have hle := length_lsas_le l.lsas
    rw [encodeLsu, length_append] at hsize
    exact decodeLsu_encode_v3_iff hfits (by omega)
  case lsAck a => exact decodeLsack_encode_v3_iff hfits

/-! ## Packets -/

namespace OspfPacket

structure FitsV3 (p : OspfPacket) : Prop where
  version : p.version = .v3
  packetType : p.packetType = p.body.packetType
  authType : p.authType = 0
  auth : p.auth = FixedBytes.replicate 8 0
  body : p.body.FitsV3
  size : p.toBytes.length ≤ 65535

theorem toBytes_v3 {p : OspfPacket} (hv : p.version = .v3) :
    ∃ word : UInt16, p.toBytes = p.commonHeader (encodeBody .v3 p.body).length ++
      ([p.instanceId, 0] ++ (u16Bytes word ++ encodeBody .v3 p.body)) := by
  have h := fun word : UInt16 => writeAt_append
    (p.commonHeader (encodeBody .v3 p.body).length ++ [p.instanceId, 0]) (u16Bytes 0)
    (u16Bytes word) (encodeBody .v3 p.body) rfl
  simp only [append_assoc, length_append, length_commonHeader, length_cons,
    length_nil, Nat.reduceAdd] at h
  refine ⟨internetChecksum (p.commonHeader (encodeBody .v3 p.body).length ++
    ([p.instanceId, 0] ++ (u16Bytes 0 ++ encodeBody .v3 p.body))), ?_⟩
  rw [← h]
  simp only [toBytes, hv]

theorem length_toBytes_v3 {p : OspfPacket} (hv : p.version = .v3) :
    p.toBytes.length = 16 + (encodeBody .v3 p.body).length := by
  obtain ⟨word, h⟩ := toBytes_v3 hv
  rw [h]
  simp only [length_append, length_commonHeader, length_cons, length_nil, length_u16Bytes]
  omega

theorem fromBytes_reads_v3 {p : OspfPacket} (hv : p.version = .v3) :
    p.toBytes.head? = some 3 ∧ byteAt p.toBytes 1 = p.packetType.toU8 ∧
      u16At p.toBytes 2 = UInt16.ofNat (16 + (encodeBody .v3 p.body).length) ∧
      ipAt p.toBytes 4 = p.routerId ∧ ipAt p.toBytes 8 = p.areaId ∧
      byteAt p.toBytes 12 = p.instanceId ∧ p.toBytes.drop 16 = encodeBody .v3 p.body := by
  obtain ⟨word, h⟩ := toBytes_v3 hv
  rw [h]
  obtain ⟨version, packetType, routerId, areaId, authType, auth, instanceId, body⟩ := p
  subst hv
  exact ⟨rfl, rfl, ofNat_beNat_u16Bytes _, rfl, rfl, rfl, rfl⟩

theorem fromBytes_toBytes_v3 {p : OspfPacket} (h : p.FitsV3) :
    fromBytes p.toBytes =
      (decodeBody .v3 p.body.packetType (encodeBody .v3 p.body)).map
        fun r => { p with body := r.1 } := by
  obtain ⟨hhead, htype, htotal, hrouter, harea, hinstance, hdrop⟩ := fromBytes_reads_v3 h.version
  have hlen := length_toBytes_v3 h.version
  have hsize := h.size
  have hlong : ¬ p.toBytes.length < 16 := by omega
  have hdeclared : ¬ (UInt16.ofNat (16 + (encodeBody .v3 p.body).length)).toNat ≠
      p.toBytes.length := by
    rw [UInt16.toNat_ofNat', Nat.mod_eq_of_lt (by omega), hlen]
    simp
  simp only [fromBytes, hhead, show OspfVersion.fromU8 3 = some .v3 from rfl,
    show OspfVersion.v3.headerLen = 16 from rfl, if_neg hlong, htype, PacketType.fromU8_toU8,
    htotal, if_neg hdeclared, hrouter, harea, hinstance, hdrop]
  rw [h.packetType, ← h.auth, ← h.authType, ← h.version]
  cases decodeBody p.version p.body.packetType (encodeBody p.version p.body) with
  | error e => rfl
  | ok r => rw [← h.packetType]; rfl

/-- **What survives the OSPFv3 codec.**  A packet comes back exactly when its body is
a Hello, an empty request, or one of the degenerate bodies whose shifted bytes are
the same. -/
theorem fromBytes_toBytes_v3_iff {p : OspfPacket} (h : p.FitsV3) :
    fromBytes p.toBytes = .ok p ↔ p.body.SurvivesV3 := by
  have hlen := length_toBytes_v3 h.version
  have hsize := h.size
  rw [fromBytes_toBytes_v3 h, ← decodeBody_encode_v3_iff h.body (by omega)]
  cases decodeBody .v3 p.body.packetType (encodeBody .v3 p.body) with
  | error e => simp [Except.map]
  | ok r =>
    simp only [Except.map, Except.ok.injEq]
    constructor
    · intro hp
      exact ⟨r.2, by rw [← congrArg OspfPacket.body hp]⟩
    · rintro ⟨rest, rfl⟩
      rfl

def sampleHelloV3 : OspfPacket :=
  { version := .v3
    packetType := .hello
    routerId := ⟨1, 1, 1, 1⟩
    areaId := ⟨0, 0, 0, 0⟩
    authType := 0
    auth := FixedBytes.replicate 8 0
    instanceId := 7
    body := .hello
      { networkMask := ⟨0, 0, 0, 0⟩, interfaceId := 5, helloInterval := 10, options := 0x13,
        routerPriority := 1, routerDeadInterval := 40, designatedRouter := ⟨1, 1, 1, 1⟩,
        backupDesignatedRouter := ⟨2, 2, 2, 2⟩, neighbors := [⟨2, 2, 2, 2⟩, ⟨3, 3, 3, 3⟩] } }

theorem fromBytes_toBytes_sampleHelloV3 :
    sampleHelloV3.FitsV3 ∧ fromBytes sampleHelloV3.toBytes = .ok sampleHelloV3 := by
  have hfits : sampleHelloV3.FitsV3 :=
    { version := rfl, packetType := rfl, authType := rfl, auth := rfl, body := rfl
      size := by rw [length_toBytes_v3 rfl]; decide }
  exact ⟨hfits, (fromBytes_toBytes_v3_iff hfits).mpr trivial⟩

def sampleRequestV3 : OspfPacket :=
  { sampleHelloV3 with
    packetType := .lsr
    body := .lsr [⟨0x2001, ⟨0, 0, 0, 1⟩, ⟨2, 2, 2, 2⟩⟩] }

def sampleAckV3 : OspfPacket :=
  { sampleHelloV3 with
    packetType := .lsAck
    body := .lsAck ⟨[
      { version := .v3, age := 1, options := 0x13, lsaType := 0x2001,
        linkStateId := ⟨0, 0, 0, 1⟩, advertisingRouter := ⟨2, 2, 2, 2⟩,
        sequenceNumber := 0x80000001, checksum := 0x1234, length := 34 }]⟩ }

/-- The only request is lost, and an acknowledged header comes back as another one. -/
theorem v3_bodies_lost : sampleRequestV3.FitsV3 ∧
      fromBytes sampleRequestV3.toBytes = .ok { sampleRequestV3 with body := .lsr [] } ∧
    sampleAckV3.FitsV3 ∧
      fromBytes sampleAckV3.toBytes = .ok { sampleAckV3 with body := .lsAck ⟨[
        { version := .v3, age := 1, options := 0x13, lsaType := 0x2001,
          linkStateId := ⟨0x13, 0, 0, 0⟩, advertisingRouter := ⟨1, 2, 2, 2⟩,
          sequenceNumber := 0x02800000, checksum := 0x0112, length := 0x3400 }]⟩ } := by
  refine ⟨?_, by decide +kernel, ?_, by decide +kernel⟩
  · exact
      { version := rfl, packetType := rfl, authType := rfl, auth := rfl, body := trivial
        size := by rw [length_toBytes_v3 rfl]; decide }
  · exact
      { version := rfl, packetType := rfl, authType := rfl, auth := rfl
        body := fun h hh => by rw [mem_singleton.mp hh]
        size := by rw [length_toBytes_v3 rfl]; decide }

end OspfPacket

end TptRfc.Ospf
