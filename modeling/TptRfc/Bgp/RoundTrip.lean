import TptRfc.Bgp.Wire

/-!
# BGP: the message round trip

`decode` undoes `encode` on every message that the wire can carry.
-/

namespace TptRfc.Bgp

open Lib List Parser FixedBytes

/-! ## Readers -/

namespace Reader

theorem decodes_u8 (len : ℕ) (b : UInt8) : Decodes (u8 len) [b] b := fun rest =>
  decodes_takeU8 _ b rest

theorem decodes_u16 (len : ℕ) (v : UInt16) : Decodes (u16 len) (u16Bytes v) v :=
  fun rest => decodes_takeU16 _ v rest

theorem decodes_u32 (len : ℕ) (v : UInt32) : Decodes (u32 len) (u32Bytes v) v :=
  fun rest => decodes_takeU32 _ v rest

theorem decodes_take (len : ℕ) {n : ℕ} {bytes : Bytes} (h : bytes.length = n) :
    Decodes (take len n) bytes bytes := by
  subst h
  exact fun rest => decodes_takeBytes _ bytes rest

theorem decodes_takeArray (len : ℕ) {n : ℕ} (bytes : FixedBytes n) :
    Decodes (takeArray len n) bytes.val bytes :=
  fun rest => decodes_takeFixed _ bytes rest

theorem takeRemaining_eq (len : ℕ) (bytes : Bytes) : takeRemaining len bytes = .ok (bytes, []) := by
  simp [takeRemaining, take, takeBytes]

theorem decodes_known (len : ℕ) {α : Type} {o : Option α} {a : α} (h : o = some a) :
    Decodes (known len o) [] a := by
  subst h
  exact fun _ => rfl

end Reader

open Reader (decodes_known decodes_take decodes_takeArray decodes_u16 decodes_u32 decodes_u8)

theorem decodes_known_bind {len : ℕ} {α β : Type} {o : Option α} {a : α} {f : α → Read β}
    {bytes : Bytes} {b : β} (h : o = some a) (hf : Decodes (f a) bytes b) :
    Decodes (Reader.known len o >>= f) bytes b :=
  (decodes_known len h).bind hf

/-! ## Prefixes -/

def Prefix.Fits (n : ℕ) (p : Prefix) : Prop :=
  p.octets.length = n ∧ p.len.toNat ≤ n * 8 ∧ ∀ b ∈ p.octets.drop (prefixBytes p.len), b = 0

instance (n : ℕ) (p : Prefix) : Decidable (p.Fits n) := inferInstanceAs (Decidable (_ ∧ _))

def Prefix.bytes (p : Prefix) : Bytes := [p.len] ++ p.octets.take (prefixBytes p.len)

variable {n : ℕ} {p : Prefix} {as4 : Bool}

theorem prefixBytes_le (h : p.Fits n) : prefixBytes p.len ≤ n := by
  have := h.2.1
  unfold prefixBytes
  omega

theorem encodePrefixBits_of_fits (h : p.Fits n) :
    encodePrefixBits p.octets p.len = some p.bytes := by
  rw [encodePrefixBits, if_pos (h.1 ▸ prefixBytes_le h)]
  rfl

theorem padTo_take {k : ℕ} (addr : FixedBytes n) (hk : k ≤ n)
    (hzero : ∀ b ∈ addr.val.drop k, b = 0) : padTo n (addr.val.take k) = addr := by
  apply Subtype.ext
  have hdrop : addr.val.drop k = List.replicate (n - k) 0 := eq_replicate_iff.mpr ⟨by simp, hzero⟩
  have hlen : (addr.val.take k).length = k := by simp [hk]
  simp only [padTo]
  conv_rhs => rw [← take_append_drop k addr.val, hdrop]
  rw [take_append, hlen, take_replicate, take_of_length_le (by omega), Nat.min_eq_left (by omega)]

theorem decodes_bytes (len : ℕ) (bytes : Bytes) :
    Decodes (times (Reader.u8 len) bytes.length) bytes bytes := by
  have h := decodes_times (p := Reader.u8 len) (fun b => [b]) bytes
    fun b _ => decodes_u8 len b
  rwa [flatMap_singleton'] at h

theorem decodes_pfx (len : ℕ) (hn : n = 4 ∨ n = 16) (h : p.Fits n) :
    Decodes (decodePrefix len n) p.bytes p := by
  have hle := prefixBytes_le h
  obtain ⟨hlen, hbits, hzero⟩ := h
  have htake : (p.octets.take (prefixBytes p.len)).length = prefixBytes p.len := by
    rw [length_take, hlen, Nat.min_eq_left hle]
  have haddr := decodes_bytes len (p.octets.take (prefixBytes p.len))
  rw [htake] at haddr
  have hresult : (if n = 4 then
      Prefix.v4 ⟨padTo 4 (p.octets.take (prefixBytes p.len)), p.len⟩
      else .v6 ⟨padTo 16 (p.octets.take (prefixBytes p.len)), p.len⟩) = p := by
    cases p with
    | v4 p =>
      have h4 : n = 4 := by rw [← hlen]; exact p.addr.property
      subst h4
      rw [if_pos rfl]
      exact congrArg _ (congrArg (Ipv4Prefix.mk · p.len) (padTo_take p.addr hle hzero))
    | v6 p =>
      have h16 : n = 16 := by rw [← hlen]; exact p.addr.property
      subst h16
      rw [if_neg (by decide)]
      exact congrArg _ (congrArg (Ipv6Prefix.mk · p.len) (padTo_take p.addr hle hzero))
  refine (decodes_u8 len p.len).bind (decodes_known_bind (a := ()) ?_ ?_)
  · rw [if_neg (by omega)]
  · have hpure := haddr.bind_pure fun addr =>
      if n = 4 then Prefix.v4 ⟨padTo 4 addr, p.len⟩ else .v6 ⟨padTo 16 addr, p.len⟩
    rwa [hresult] at hpure

theorem mapM_eq_some {α β : Type} {f : α → Option β} {g : α → β} {xs : List α}
    (h : ∀ x ∈ xs, f x = some (g x)) : xs.mapM f = some (xs.map g) := by
  induction xs with
  | nil => rfl
  | cons x xs ih =>
    rw [mapM_cons, h x mem_cons_self, ih fun y hy => h y (mem_cons_of_mem _ hy)]
    rfl

theorem length_le_flatMap {α : Type} (f : α → Bytes) {x : α} {xs : List α} (h : x ∈ xs) :
    (f x).length ≤ (xs.flatMap f).length :=
  (sublist_flatten_of_mem (mem_map_of_mem h)).length_le

theorem encodePrefixes_of_fits {ps : List Prefix} (h : ∀ p ∈ ps, p.Fits n) :
    encodePrefixes ps = some (ps.flatMap Prefix.bytes) := by
  rw [encodePrefixes, mapM_eq_some fun p hp => encodePrefixBits_of_fits (h p hp)]
  rfl

theorem decodePrefixes_encode (len : ℕ) (hn : n = 4 ∨ n = 16) {ps : List Prefix}
    (h : ∀ p ∈ ps, p.Fits n) :
    whileRemaining 1 (decodePrefix len n) (ps.flatMap Prefix.bytes) = .ok (ps, []) :=
  whileRemaining_flatMap (by decide) ps (fun p hp => decodes_pfx len hn (h p hp))
    (fun p _ => by simp [Prefix.bytes])

/-! ## AS paths -/

def Asn.Fits (as4 : Bool) (a : Asn) : Prop := as4 = false → a.val.toNat < 65536

instance (as4 : Bool) : DecidablePred (Asn.Fits as4) := fun _ => inferInstanceAs (Decidable (_ → _))

theorem Asn.toUInt32_to16bit {a : Asn} (h : a.val.toNat < 65536) : a.to16bit.toUInt32 = a.val := by
  apply UInt32.toNat_inj.mp
  simp only [Asn.to16bit, UInt16.toNat_toUInt32, UInt32.toNat_toUInt16]
  omega

theorem Asn.decodes (len : ℕ) {a : Asn} (h : a.Fits as4) :
    Decodes (Asn.decode len as4) (a.encode as4) a := by
  cases as4 with
  | true => exact (decodes_u32 len a.val).map Asn.mk
  | false =>
    have hdec := (decodes_u16 len a.to16bit).map fun v => (⟨v.toUInt32⟩ : Asn)
    rw [Asn.toUInt32_to16bit (h rfl)] at hdec
    exact hdec

def AsPathSegment.Fits (as4 : Bool) (s : AsPathSegment) : Prop :=
  s.asns.length ≤ 255 ∧ ∀ a ∈ s.asns, a.Fits as4

instance (as4 : Bool) : DecidablePred (AsPathSegment.Fits as4) := fun _ =>
  inferInstanceAs (Decidable (_ ∧ _))

theorem AsPathSegment.decodes (len : ℕ) {s : AsPathSegment} (h : s.Fits as4) :
    Decodes (AsPathSegment.decode len as4) (s.encode as4) s := by
  have hcount : (UInt8.ofNat s.asns.length).toNat = s.asns.length := by
    rw [UInt8.toNat_ofNat', Nat.mod_eq_of_lt (by have := h.1; omega)]
  have hasns := decodes_times (fun a : Asn => a.encode as4) s.asns
    fun a ha => Asn.decodes len (h.2 a ha)
  rw [← hcount] at hasns
  exact (decodes_u8 len _).bind (decodes_known_bind (AsPathSegmentType.fromU8_toU8 _)
    ((decodes_u8 len _).bind (hasns.bind_pure _)))

theorem AsPath.decodeValue_encode (len : ℕ) {p : AsPath} (h : ∀ s ∈ p.segments, s.Fits as4) :
    AsPath.decodeValue len as4 (p.encodeValue as4) = .ok (p, []) :=
  map_of_ok _ (whileRemaining_flatMap (by decide) p.segments
    (fun s hs => AsPathSegment.decodes len (h s hs))
    (fun s _ => by simp [AsPathSegment.encode]))

/-! ## Multiprotocol attributes -/

def NextHop.Fits : NextHop → Prop
  | .other v => v.length ≤ 255 ∧ v.length ≠ 4 ∧ v.length ≠ 16 ∧ v.length ≠ 32
  | _ => True

instance : DecidablePred NextHop.Fits
  | .other _ => inferInstanceAs (Decidable (_ ∧ _))
  | .ipv4 _ | .ipv6 _ | .ipv6LinkLocal _ _ => inferInstanceAs (Decidable True)

@[simp] theorem NextHop.length_encode (nh : NextHop) : nh.encode.length = nh.encodedLen := by
  cases nh with
  | ipv4 a => exact a.property
  | ipv6 a => exact a.property
  | ipv6LinkLocal g l => simp [NextHop.encode, NextHop.encodedLen]
  | other v => rfl

theorem NextHop.encodedLen_le {nh : NextHop} (h : nh.Fits) : nh.encodedLen ≤ 255 := by
  cases nh with
  | ipv4 _ | ipv6 _ | ipv6LinkLocal _ _ => simp [NextHop.encodedLen]
  | other v => exact h.1

theorem NextHop.decode_encode {nh : NextHop} (h : nh.Fits) : NextHop.decode nh.encode = nh := by
  cases nh with
  | ipv4 a | ipv6 a =>
    have ha := slice_append [] [] a
    rw [nil_append, append_nil, length_nil] at ha
    simp [NextHop.decode, NextHop.encode, ha]
  | ipv6LinkLocal g l =>
    have hg := slice_append [] l.val g
    have hl := slice_append g.val [] l
    rw [append_nil, length_val] at hl
    rw [nil_append] at hg
    rw [length_nil] at hg
    simp [NextHop.decode, NextHop.encode, hl, hg]
  | other v =>
    obtain ⟨-, h4, h16, h32⟩ := h
    simp [NextHop.decode, NextHop.encode, h4, h16, h32]

theorem addrLen_eq (afi : UInt16) : addrLen afi = 4 ∨ addrLen afi = 16 := by
  unfold addrLen
  split
  · exact .inr rfl
  · exact .inl rfl

def MpReachNlri.Fits (m : MpReachNlri) : Prop :=
  m.nextHop.Fits ∧ ∀ p ∈ m.nlri, p.Fits (addrLen m.afi)

instance : DecidablePred MpReachNlri.Fits := fun _ => inferInstanceAs (Decidable (_ ∧ _))

def MpUnreachNlri.Fits (m : MpUnreachNlri) : Prop := ∀ p ∈ m.withdrawn, p.Fits (addrLen m.afi)

instance : DecidablePred MpUnreachNlri.Fits := fun m =>
  inferInstanceAs (Decidable (∀ p ∈ m.withdrawn, p.Fits (addrLen m.afi)))

theorem decodeMpReach_encode (len : ℕ) {m : MpReachNlri} (h : m.Fits) {value : Bytes}
    (hvalue : encodeMpReach m = some value) : decodeMpReach len value = .ok (m, []) := by
  obtain ⟨hnh, hnlri⟩ := h
  rw [encodeMpReach, encodePrefixes_of_fits hnlri] at hvalue
  obtain rfl := Option.some.inj hvalue
  have hlen : (UInt8.ofNat m.nextHop.encodedLen).toNat = m.nextHop.encodedLen := by
    rw [UInt8.toNat_ofNat', Nat.mod_eq_of_lt (by have := NextHop.encodedLen_le hnh; omega)]
  have htake : Decodes (Reader.take len (UInt8.ofNat m.nextHop.encodedLen).toNat)
      m.nextHop.encode m.nextHop.encode :=
    decodes_take len (by rw [hlen, NextHop.length_encode])
  unfold decodeMpReach
  rw [bind_of_ok (decodes_u16 len m.afi _),
    bind_of_ok (decodes_u8 len m.safi _),
    bind_of_ok (decodes_u8 len _ _), bind_of_ok (htake _),
    bind_of_ok (decodes_u8 len 0 _),
    bind_of_ok (decodePrefixes_encode len (addrLen_eq _) hnlri), NextHop.decode_encode hnh]
  rfl

theorem decodeMpUnreach_encode (len : ℕ) {m : MpUnreachNlri} (h : m.Fits) {value : Bytes}
    (hvalue : encodeMpUnreach m = some value) : decodeMpUnreach len value = .ok (m, []) := by
  rw [encodeMpUnreach, encodePrefixes_of_fits h] at hvalue
  obtain rfl := Option.some.inj hvalue
  unfold decodeMpUnreach
  rw [bind_of_ok (decodes_u16 len m.afi _),
    bind_of_ok (decodes_u8 len m.safi _),
    bind_of_ok (decodePrefixes_encode len (addrLen_eq _) h)]
  rfl

/-! ## Path attributes -/

def assignedTypeCodes : List UInt8 := [1, 2, 3, 4, 5, 6, 7, 8, 9, 10, 14, 15]

namespace PathAttribute

def Fits (as4 : Bool) : PathAttribute → Prop
  | asPath p => ∀ s ∈ p.segments, s.Fits as4
  | aggregator agg => agg.asn.Fits as4
  | mpReachNlri m => m.Fits
  | mpUnreachNlri m => m.Fits
  | unknown typeCode _ _ => typeCode ∉ assignedTypeCodes
  | _ => True

instance (as4 : Bool) : DecidablePred (PathAttribute.Fits as4)
  | asPath p => inferInstanceAs (Decidable (∀ s ∈ p.segments, s.Fits as4))
  | aggregator agg => inferInstanceAs (Decidable (agg.asn.Fits as4))
  | mpReachNlri m | mpUnreachNlri m => inferInstanceAs (Decidable m.Fits)
  | unknown typeCode _ _ => inferInstanceAs (Decidable (typeCode ∉ assignedTypeCodes))
  | origin _ | nextHop _ | multiExitDisc _ | localPref _ | atomicAggregate | community _
  | originatorId _ | clusterList _ => inferInstanceAs (Decidable True)

def value (as4 : Bool) (a : PathAttribute) : Bytes := (a.encodeValue as4).getD []

variable {a : PathAttribute} {as4 : Bool} {value : Bytes}

theorem encodeValue_of_fits (h : a.Fits as4) : a.encodeValue as4 = some (a.value as4) := by
  cases a with
  | mpReachNlri m =>
    rw [value, encodeValue, encodeMpReach, encodePrefixes_of_fits h.2]
    rfl
  | mpUnreachNlri m =>
    rw [value, encodeValue, encodeMpUnreach, encodePrefixes_of_fits h]
    rfl
  | _ => rfl

def headerFlags (a : PathAttribute) (value : Bytes) : UInt8 :=
  if value.length > 255 then a.defaultFlags ||| 0x10 else a.defaultFlags

theorem headerFlags_extended (a : PathAttribute) (value : Bytes) :
    a.headerFlags value &&& 0x10 ≠ 0 ↔ value.length > 255 := by
  have hdefault : a.defaultFlags ∈ [0x40, 0x80, 0x80 ||| 0x40] := by
    cases a with
    | unknown typeCode transitive value => cases transitive <;> simp [defaultFlags]
    | _ => simp [defaultFlags]
  have hflags : ∀ f ∈ ([0x40, 0x80, 0x80 ||| 0x40] : List UInt8),
      f &&& 0x10 = 0 ∧ (f ||| 0x10) &&& 0x10 ≠ 0 := by decide +kernel
  obtain ⟨hplain, hextended⟩ := hflags _ hdefault
  unfold headerFlags
  split
  · rename_i hlen
    simpa [hlen] using hextended
  · rename_i hlen
    simp [hlen, hplain]

theorem headerFlags_transitive (typeCode : UInt8) (transitive : Bool) (value value' : Bytes) :
    decide ((unknown typeCode transitive value).headerFlags value' &&& 0x40 ≠ 0) = transitive := by
  have hbits : ∀ t : Bool, ∀ f ∈ [if t then 0x80 ||| 0x40 else 0x80,
      (if t then 0x80 ||| 0x40 else 0x80) ||| (0x10 : UInt8)],
      decide (f &&& 0x40 ≠ 0) = t := by decide +kernel
  unfold headerFlags
  split
  · exact hbits transitive _ (by simp [defaultFlags])
  · exact hbits transitive _ (by simp [defaultFlags])

theorem decodeValue_unknown {flags typeCode : UInt8} (h : typeCode ∉ assignedTypeCodes) :
    decodeValue as4 flags typeCode value =
      pure (unknown typeCode (flags &&& 0x40 ≠ 0) value) := by
  have hcode : ∀ c ∈ assignedTypeCodes, typeCode.toNat ≠ c.toNat := by
    intro c hc heq
    exact h (UInt8.toNat_inj.mp heq ▸ hc)
  simp only [assignedTypeCodes, forall_mem_cons] at hcode
  obtain ⟨h1, h2, h3, h4, h5, h6, h7, h8, h9, h10, h14, h15, -⟩ := hcode
  unfold decodeValue
  split
  all_goals first | rfl | exact absurd ‹typeCode.toNat = _› (by assumption)

theorem decodeValue_encode (h : a.Fits as4) (hvalue : a.encodeValue as4 = some value) :
    Parser.run (decodeValue as4 (a.headerFlags value) a.typeCode value) value = .ok a := by
  cases a with
  | mpReachNlri m =>
    exact run_of_ok (map_of_ok _ (decodeMpReach_encode _ h hvalue))
  | mpUnreachNlri m =>
    exact run_of_ok (map_of_ok _ (decodeMpUnreach_encode _ h hvalue))
  | unknown typeCode transitive value' =>
    obtain rfl := Option.some.inj hvalue
    have hread : decodeValue as4 ((unknown typeCode transitive value').headerFlags value')
        typeCode value' = _ := decodeValue_unknown h
    rw [headerFlags_transitive] at hread
    exact congrArg (Parser.run · value') hread
  | origin o =>
    obtain rfl := Option.some.inj hvalue
    exact run_of_ok ((decodes_u8 _ _).bind
      ((decodes_known _ o.fromU8_toU8).map origin)).run_nil
  | asPath p =>
    obtain rfl := Option.some.inj hvalue
    exact run_of_ok (map_of_ok _ (AsPath.decodeValue_encode _ h))
  | aggregator agg =>
    obtain rfl := Option.some.inj hvalue
    exact run_of_ok ((Asn.decodes _ h).bind
      ((decodes_takeArray _ agg.addr).bind_pure _)).run_nil
  | nextHop a | originatorId a =>
    obtain rfl := Option.some.inj hvalue
    exact run_of_ok ((decodes_takeArray _ a).map _).run_nil
  | multiExitDisc v | localPref v | community v =>
    obtain rfl := Option.some.inj hvalue
    exact run_of_ok ((decodes_u32 _ v).map _).run_nil
  | atomicAggregate => rfl
  | clusterList list =>
    obtain rfl := Option.some.inj hvalue
    exact run_of_ok (map_of_ok _ (whileRemaining_flatMap (by decide) list
      (fun a _ => decodes_takeArray _ a) (fun a _ => a.property.ge)))

def bytes (as4 : Bool) (a : PathAttribute) : Bytes :=
  [a.headerFlags (a.value as4)] ++ ([a.typeCode] ++
    ((if a.headerFlags (a.value as4) &&& 0x10 ≠ 0 then u16Bytes (UInt16.ofNat (a.value as4).length)
      else [UInt8.ofNat (a.value as4).length]) ++ a.value as4))

theorem encode_of_fits (h : a.Fits as4) : a.encode as4 = some (a.bytes as4) := by
  rw [encode, encodeValue_of_fits h]
  rfl

theorem length_value_lt (as4 : Bool) (a : PathAttribute) :
    (a.value as4).length < (a.bytes as4).length := by
  simp only [bytes, length_append, length_cons, length_nil]
  omega

theorem decodes_length (len : ℕ) (a : PathAttribute) (hlen : value.length < 65536) :
    Decodes (if a.headerFlags value &&& 0x10 ≠ 0 then UInt16.toNat <$> Reader.u16 len
        else UInt8.toNat <$> Reader.u8 len)
      (if a.headerFlags value &&& 0x10 ≠ 0 then u16Bytes (UInt16.ofNat value.length)
        else [UInt8.ofNat value.length]) value.length := by
  by_cases hext : a.headerFlags value &&& 0x10 ≠ 0
  · rw [if_pos hext, if_pos hext]
    have h := (decodes_u16 len (UInt16.ofNat value.length)).map UInt16.toNat
    rwa [UInt16.toNat_ofNat', Nat.mod_eq_of_lt hlen] at h
  · rw [if_neg hext, if_neg hext]
    have hshort : value.length < 256 := by
      have := mt (headerFlags_extended a value).mpr hext
      omega
    have h := (decodes_u8 len (UInt8.ofNat value.length)).map UInt8.toNat
    rwa [UInt8.toNat_ofNat', Nat.mod_eq_of_lt hshort] at h

theorem decodes (len : ℕ) (h : a.Fits as4) (hlen : (a.value as4).length < 65536) :
    Decodes (decode len as4) (a.bytes as4) a :=
  (decodes_u8 len _).bind ((decodes_u8 len _).bind
    ((decodes_length len a hlen).bind ((decodes_take len rfl).bind_lift _
      (decodeValue_encode h (encodeValue_of_fits h)))))

end PathAttribute

/-! ## OPEN -/

def Capability.Fits : Capability → Prop
  | .unknown code _ => code ≠ 1 ∧ code ≠ 65
  | _ => True

def OpenMessage.Fits (as4 : Bool) (o : OpenMessage) : Prop :=
  o.version = 4 ∧ (∀ c ∈ o.capabilities, c.Fits) ∧
    (match o.capabilities.findSome? Capability.asn? with
      | some a => a = o.myAsn
      | none => as4 = false ∧ o.myAsn.val.toNat < 65536) ∧
    (o.capabilities.flatMap encodeCapability).length ≤ 255

theorem decodes_capability_value (len : ℕ) {code : UInt8} (value : Bytes) {c : Capability}
    (hlen : value.length ≤ 255)
    (h : interpretCapability code (UInt8.ofNat value.length) value = .ok c) :
    Decodes (decodeCapability len) ([code] ++ ([UInt8.ofNat value.length] ++ value)) c := by
  have hnat : (UInt8.ofNat value.length).toNat = value.length := by
    rw [UInt8.toNat_ofNat', Nat.mod_eq_of_lt (by omega)]
  exact (decodes_u8 len _).bind ((decodes_u8 len _).bind
    ((decodes_take len hnat.symm).bind_lift _ h))

theorem decodes_capability (len : ℕ) {c : Capability} (h : c.Fits)
    (hlen : (encodeCapability c).length ≤ 255) :
    Decodes (decodeCapability len) (encodeCapability c) c := by
  cases c with
  | multiProtocol afi safi =>
    refine decodes_capability_value len (u16Bytes afi ++ [0, safi]) (by simp) ?_
    exact congrArg (fun v => Except.ok (Capability.multiProtocol v safi))
      (ofNat_beNat_u16Bytes afi)
  | as4 a =>
    refine decodes_capability_value len (u32Bytes a.val) (by simp) ?_
    exact congrArg (fun v => Except.ok (Capability.as4 ⟨v⟩)) (ofNat_beNat_u32Bytes a.val)
  | unknown code value =>
    simp only [encodeCapability, length_append] at hlen
    refine decodes_capability_value len value (by omega) ?_
    rw [interpretCapability, if_neg h.1, if_neg h.2]

theorem decodeCapabilities_encode (len : ℕ) {caps : List Capability} (h : ∀ c ∈ caps, c.Fits)
    (hlen : (caps.flatMap encodeCapability).length ≤ 255) :
    Parser.run (whileRemaining 1 (decodeCapability len)) (caps.flatMap encodeCapability) =
      .ok caps := by
  refine run_of_ok (whileRemaining_flatMap (by decide) caps ?_ ?_)
  · intro c hc
    exact decodes_capability len (h c hc) ((length_le_flatMap encodeCapability hc).trans hlen)
  · intro c _
    cases c <;> simp [encodeCapability]

theorem encodeOpen_of_fits {o : OpenMessage} (h : o.Fits as4) : ∃ twoByteAs : UInt16,
      encodeOpen o as4 = [o.version] ++ (u16Bytes twoByteAs ++ (u16Bytes o.holdTime ++
        (o.bgpId.val ++ ([UInt8.ofNat (o.capabilities.flatMap encodeCapability).length] ++
          o.capabilities.flatMap encodeCapability)))) ∧
      (o.capabilities.findSome? Capability.asn?).getD ⟨twoByteAs.toUInt32⟩ = o.myAsn := by
  obtain ⟨-, -, hasn, -⟩ := h
  cases hfind : o.capabilities.findSome? Capability.asn? with
  | some a =>
    rw [hfind] at hasn
    obtain ⟨c, hc, hca⟩ := exists_of_findSome?_eq_some hfind
    have hany : (o.capabilities.any fun c => c.asn?.isSome) = true :=
      any_eq_true.mpr ⟨c, hc, by rw [hca]; rfl⟩
    refine ⟨asTrans.toUInt16, ?_, hasn⟩
    simp [encodeOpen, encodeCapabilities, wantsAs4, hany]
  | none =>
    rw [hfind] at hasn
    obtain ⟨rfl, hsmall⟩ := hasn
    have hany : (o.capabilities.any fun c => c.asn?.isSome) = false := by
      rw [any_eq_false]
      intro c hc
      simp [findSome?_eq_none_iff.mp hfind c hc]
    have hfits : o.myAsn.fits16bit = true := by
      rw [Asn.fits16bit, decide_eq_true_eq, UInt32.le_iff_toNat_le]
      exact Nat.le_of_lt_succ hsmall
    refine ⟨o.myAsn.to16bit, ?_, ?_⟩
    · simp [encodeOpen, encodeCapabilities, wantsAs4, hany, hfits]
    · exact congrArg Asn.mk (Asn.toUInt32_to16bit hsmall)

theorem decodeOpen_encode {o : OpenMessage} (h : o.Fits as4) :
    decodeOpen (encodeOpen o as4) = .ok o := by
  obtain ⟨twoByteAs, hbytes, hasn⟩ := encodeOpen_of_fits h
  obtain ⟨hversion, hcaps, -, hlen⟩ := h
  have hcapLen : (UInt8.ofNat (o.capabilities.flatMap encodeCapability).length).toNat =
      (o.capabilities.flatMap encodeCapability).length := by
    rw [UInt8.toNat_ofNat', Nat.mod_eq_of_lt (by omega)]
  rw [hbytes]
  refine run_of_ok (Decodes.run_nil ?_)
  refine (decodes_u8 _ _).bind (Decodes.lift_bind (a := ()) ?_
    ((decodes_u16 _ _).bind ((decodes_u16 _ _).bind
      ((decodes_takeArray _ _).bind ((decodes_u8 _ _).bind
        ((decodes_take _ hcapLen.symm).bind_nil ?_))))))
  · rw [if_neg (not_not.mpr hversion)]
  · have hpack := (decodes_lift (decodeCapabilities_encode
      (o.capabilities.flatMap encodeCapability).length hcaps hlen)).bind_pure fun capabilities =>
        (⟨o.version, (capabilities.findSome? Capability.asn?).getD ⟨twoByteAs.toUInt32⟩, o.holdTime,
          o.bgpId, capabilities⟩ : OpenMessage)
    rwa [hasn] at hpack

/-! ## UPDATE -/

def Update.Fits (as4 : Bool) (u : Update) : Prop :=
  (∀ p ∈ u.withdrawnRoutes, (Prefix.v4 p).Fits 4) ∧ (∀ a ∈ u.pathAttributes, a.Fits as4) ∧
    ∀ p ∈ u.nlri, (Prefix.v4 p).Fits 4

def ipv4Bytes (ps : List Ipv4Prefix) : Bytes := ps.flatMap fun p => (Prefix.v4 p).bytes

theorem encodeIpv4Prefixes_of_fits {ps : List Ipv4Prefix} (h : ∀ p ∈ ps, (Prefix.v4 p).Fits 4) :
    encodePrefixes (ps.map .v4) = some (ipv4Bytes ps) := by
  rw [encodePrefixes_of_fits (n := 4) (by simpa using h), flatMap_map]
  rfl

theorem decodeIpv4Prefixes_encode (len : ℕ) {ps : List Ipv4Prefix}
    (h : ∀ p ∈ ps, (Prefix.v4 p).Fits 4) :
    whileRemaining 1 (decodeIpv4Prefix len) (ipv4Bytes ps) = .ok (ps, []) :=
  whileRemaining_flatMap (by decide) ps
    (fun p hp => (decodes_pfx len (.inl rfl) (h p hp)).bind_lift _ rfl)
    (fun p _ => by simp [Prefix.bytes])

theorem encodeAttributes_of_fits {attrs : List PathAttribute} (h : ∀ a ∈ attrs, a.Fits as4) :
    encodeAttributes attrs as4 = some (attrs.flatMap (PathAttribute.bytes as4)) := by
  rw [encodeAttributes, mapM_eq_some fun a ha => PathAttribute.encode_of_fits (h a ha)]
  rfl

theorem decodeAttributes_encode (len : ℕ) {attrs : List PathAttribute} (h : ∀ a ∈ attrs, a.Fits as4)
    (hlen : (attrs.flatMap (PathAttribute.bytes as4)).length < 65536) :
    whileRemaining 1 (PathAttribute.decode len as4)
      (attrs.flatMap (PathAttribute.bytes as4)) = .ok (attrs, []) := by
  refine whileRemaining_flatMap (by decide) attrs ?_ ?_
  · intro a ha
    have hattr := length_le_flatMap (PathAttribute.bytes as4) ha
    have hvalue := a.length_value_lt as4
    exact PathAttribute.decodes len (h a ha) (by omega)
  · intro a _
    exact Nat.one_le_of_lt (a.length_value_lt as4)

def Update.bytes (as4 : Bool) (u : Update) : Bytes :=
  u16Bytes (UInt16.ofNat (ipv4Bytes u.withdrawnRoutes).length) ++ (ipv4Bytes u.withdrawnRoutes ++
    (u16Bytes (UInt16.ofNat (u.pathAttributes.flatMap (PathAttribute.bytes as4)).length) ++
      (u.pathAttributes.flatMap (PathAttribute.bytes as4) ++ ipv4Bytes u.nlri)))

theorem encodeUpdate_of_fits {u : Update} (h : u.Fits as4) :
    encodeUpdate u as4 = some (u.bytes as4) := by
  rw [encodeUpdate, encodeIpv4Prefixes_of_fits h.1, encodeAttributes_of_fits h.2.1,
    encodeIpv4Prefixes_of_fits h.2.2]
  rfl

theorem decodeUpdate_encode {u : Update} (h : u.Fits as4)
    (hlen : (u.bytes as4).length < 65536) : decodeUpdate (u.bytes as4) as4 = .ok u := by
  obtain ⟨hwithdrawn, hattrs, hnlri⟩ := h
  simp only [Update.bytes, length_append] at hlen
  have hwlen : (UInt16.ofNat (ipv4Bytes u.withdrawnRoutes).length).toNat =
      (ipv4Bytes u.withdrawnRoutes).length := by
    rw [UInt16.toNat_ofNat', Nat.mod_eq_of_lt (by omega)]
  have halen :
      (UInt16.ofNat (u.pathAttributes.flatMap (PathAttribute.bytes as4)).length).toNat =
      (u.pathAttributes.flatMap (PathAttribute.bytes as4)).length := by
    rw [UInt16.toNat_ofNat', Nat.mod_eq_of_lt (by omega)]
  have hreadW := fun len =>
    run_of_ok (decodeIpv4Prefixes_encode len hwithdrawn)
  have hreadA := fun len =>
    run_of_ok (decodeAttributes_encode len hattrs (by omega))
  refine run_of_ok (show _ = Except.ok (u, []) from ?_)
  unfold Update.bytes
  rw [bind_of_ok (decodes_u16 _ _ _),
    bind_of_ok (decodes_take _ hwlen.symm _),
    bind_of_ok (lift_of_ok (hreadW _) _),
    bind_of_ok (decodes_u16 _ _ _),
    bind_of_ok (decodes_take _ halen.symm _),
    bind_of_ok (lift_of_ok (hreadA _) _),
    bind_of_ok (decodeIpv4Prefixes_encode _ hnlri)]
  rfl

/-! ## Messages -/

namespace Message

def Fits (opts : CodecOptions) (m : Message) : Prop :=
  (match m with
    | openMessage o => o.Fits opts.as4
    | update u => u.Fits opts.as4
    | notification _ => True
    | keepalive => True) ∧
  ∀ body, m.encodeBody opts = some body → bgpHeaderLen + body.length < 65536

def decodeBody (m : Message) (body : Bytes) (opts : CodecOptions) :
    Except (Fault DecodeError) Message :=
  match m with
  | openMessage _ => openMessage <$> decodeOpen body
  | update _ => update <$> decodeUpdate body opts.as4
  | notification _ => notification <$> decodeNotification body
  | keepalive => .ok keepalive

theorem decode_header (m : Message) (body : Bytes) (opts : CodecOptions)
    (hlen : bgpHeaderLen + body.length < 65536) :
    decode (bgpMarker ++ (u16Bytes (UInt16.ofNat (bgpHeaderLen + body.length)) ++
      ([m.msgType] ++ body))) opts = m.decodeBody body opts := by
  set total := UInt16.ofNat (bgpHeaderLen + body.length) with htotal
  set bytes := bgpMarker ++ (u16Bytes total ++ ([m.msgType] ++ body)) with hbytes
  have hlength : bytes.length = bgpHeaderLen + body.length := by
    simp [hbytes, bgpMarker, bgpHeaderLen]
    omega
  have hdeclared : (UInt16.ofNat (beNat [bytes.getD 16 0, bytes.getD 17 0])).toNat =
      bytes.length := by
    have hread : UInt16.ofNat (beNat [bytes.getD 16 0, bytes.getD 17 0]) = total :=
      ofNat_beNat_u16Bytes total
    rw [hread, hlength, htotal, UInt16.toNat_ofNat', Nat.mod_eq_of_lt hlen]
  have htype : bytes.getD 18 0 = m.msgType := rfl
  have hbody : bytes.drop bgpHeaderLen = body := rfl
  unfold decode
  simp only [hdeclared, htype, hbody]
  rw [if_neg (by omega), if_neg (by omega)]
  cases m <;> rfl

theorem decodeBody_encode {m : Message} {opts : CodecOptions} (h : m.Fits opts) :
    ∃ body, m.encodeBody opts = some body ∧ m.decodeBody body opts = .ok m := by
  obtain ⟨hfits, hlen⟩ := h
  cases m with
  | openMessage o => exact ⟨_, rfl, congrArg (openMessage <$> ·) (decodeOpen_encode hfits)⟩
  | update u =>
    have hbody := encodeUpdate_of_fits hfits
    refine ⟨_, hbody, congrArg (update <$> ·) (decodeUpdate_encode hfits ?_)⟩
    have := hlen _ hbody
    omega
  | notification n =>
    refine ⟨_, rfl, congrArg (notification <$> ·)
      (run_of_ok (show _ = Except.ok (n, []) from ?_))⟩
    rw [bind_of_ok (decodes_u8 _ _ _), bind_of_ok (decodes_u8 _ _ _),
      bind_of_ok (Reader.takeRemaining_eq _ _)]
    rfl
  | keepalive => exact ⟨_, rfl, rfl⟩

/-- Every message that fits is encoded, and its bytes decode to the message. -/
theorem decode_encode_of_fits {m : Message} {opts : CodecOptions} (h : m.Fits opts) :
    ∃ bytes, m.encode opts = some bytes ∧ decode bytes opts = .ok m := by
  obtain ⟨body, hencode, hdecode⟩ := decodeBody_encode h
  refine ⟨_, by rw [encode, hencode]; rfl, ?_⟩
  rw [decode_header m body opts (h.2 body hencode), hdecode]

/-- An UPDATE that withdraws `10.0.0.0/8` and announces `192.0.2.128/25`, with a
four-octet AS number and an IPv6 prefix among its attributes. -/
def sampleUpdate : Message :=
  .update
    { withdrawnRoutes := [⟨⟨[10, 0, 0, 0], rfl⟩, 8⟩]
      pathAttributes :=
        [.origin .igp, .asPath ⟨[⟨.sequence, [⟨65001⟩, ⟨70000⟩]⟩]⟩,
          .mpReachNlri ⟨2, 1, .ipv6 (FixedBytes.replicate 16 1),
            [.v6 ⟨FixedBytes.replicate 16 0, 64⟩]⟩,
          .unknown 99 true [1, 2, 3]]
      nlri := [⟨⟨[192, 0, 2, 128], rfl⟩, 25⟩] }

theorem decode_encode_sampleUpdate : sampleUpdate.Fits ⟨true⟩ ∧ ∃ bytes,
      sampleUpdate.encode ⟨true⟩ = some bytes ∧ decode bytes ⟨true⟩ = .ok sampleUpdate := by
  have hfits : sampleUpdate.Fits ⟨true⟩ := by
    have hlen : ∀ body ∈ sampleUpdate.encodeBody ⟨true⟩, bgpHeaderLen + body.length < 65536 := by
      decide +kernel
    exact ⟨⟨by decide +kernel, by decide +kernel, by decide +kernel⟩, hlen⟩
  exact ⟨hfits, decode_encode_of_fits hfits⟩

/-- What does not come back: an AS number of more than two octets without a capability,
a verbatim capability with the code of an interpreted one, and a verbatim next hop
whose length does not fit its byte. -/
theorem messages_changed :
    ((openMessage ⟨4, ⟨70000⟩, 90, FixedBytes.replicate 4 1, []⟩).encode ⟨false⟩).map
        (decode · ⟨false⟩) =
      some (.ok (openMessage ⟨4, ⟨23456⟩, 90, FixedBytes.replicate 4 1, []⟩)) ∧
    ((openMessage ⟨4, ⟨1⟩, 90, FixedBytes.replicate 4 1, [.unknown 65 [0, 0, 0, 2]]⟩).encode
        ⟨false⟩).map (decode · ⟨false⟩) =
      some (.ok (openMessage ⟨4, ⟨2⟩, 90, FixedBytes.replicate 4 1, [.as4 ⟨2⟩]⟩)) ∧
    ((update ⟨[], [.mpReachNlri ⟨1, 1, .other (List.replicate 260 0), []⟩], []⟩).encode
        ⟨false⟩).map (decode · ⟨false⟩) ≠
      some (.ok (update ⟨[], [.mpReachNlri ⟨1, 1, .other (List.replicate 260 0), []⟩], []⟩)) := by
  decide +kernel

end Message

end TptRfc.Bgp
