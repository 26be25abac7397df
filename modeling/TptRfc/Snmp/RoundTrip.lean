import TptRfc.Snmp.Message

/-!
# SNMP: what is read back from an encoding

A message is encoded and decoded again.
-/

namespace TptRfc.Snmp

open Lib Access List

/-! ## Fields -/

variable {pos : ℕ} {rest bytes : Bytes} {checks : Bool} {vb : VarBind} {list : VarBindList}
  {p : Pdu} {m : Message}

theorem fits_zero {n : ℕ} (h : n < 2 ^ 64) : 0 + n < 2 ^ 64 := by omega

theorem fits_tail {a b : Bytes} (h : pos + (a ++ b).length < 2 ^ 64) :
    pos + a.length + b.length < 2 ^ 64 := by
  rw [length_append] at h
  omega

theorem readTlv_last {tag : UInt8} {content : Bytes}
    (h : pos + (writeTlv tag content).length < 2 ^ 64) : readTlv ⟨pos, writeTlv tag content⟩ =
      .ok ((tag, content), ⟨pos + (writeTlv tag content).length, []⟩) := by
  have hread : pos + (writeTlv tag content ++ []).length < 2 ^ 64 →
      readTlv ⟨pos, writeTlv tag content ++ []⟩ = _ := readTlv_writeTlv
  rw [append_nil] at hread
  exact hread h

theorem length_le_writeTlv (tag : UInt8) (content : Bytes) :
    content.length ≤ (writeTlv tag content).length := by
  rw [length_writeTlv]
  omega

theorem fits_content {tag : UInt8} {content : Bytes}
    (h : (writeTlv tag content).length < 2 ^ 64) : 0 + content.length < 2 ^ 64 := by
  have := length_le_writeTlv tag content
  omega

theorem int32_range (v : Int32) : -2 ^ 63 ≤ v.toInt ∧ v.toInt < 2 ^ 63 := by
  have hlow := v.le_toInt
  have hhigh := v.toInt_lt
  omega

theorem asI32_toInt (v : Int32) : asI32 v.toInt = v := Int32.ofInt_toInt v

theorem readI32_writeInteger (v : Int32)
    (h : pos + (writeInteger v.toInt ++ rest).length < 2 ^ 64) :
    readI32 ⟨pos, writeInteger v.toInt ++ rest⟩ =
      .ok (v, ⟨pos + (writeInteger v.toInt).length, rest⟩) := by
  obtain ⟨hlow, hhigh⟩ := int32_range v
  simp only [readI32, writeInteger, readTlv_writeTlv h, ok_bind,
    decodeSigned_encodeSigned hlow hhigh, asI32_toInt]
  rfl

theorem readI64_writeInteger (v : Int64)
    (h : pos + (writeInteger v.toInt ++ rest).length < 2 ^ 64) :
    readI64 ⟨pos, writeInteger v.toInt ++ rest⟩ =
      .ok (v, ⟨pos + (writeInteger v.toInt).length, rest⟩) := by
  simp only [readI64, writeInteger, readTlv_writeTlv h, ok_bind,
    decodeSigned_encodeSigned v.le_toInt v.toInt_lt, Int64.ofInt_toInt]
  rfl

theorem decodeUnsigned_encodeSigned (v : UInt32) :
    decodeUnsigned (encodeSigned v.toNat) = .ok v.toUInt64 := by
  have hlt := v.toNat_lt
  rw [decodeUnsigned, decodeSigned_encodeSigned (by omega) (by omega), ok_bind,
    if_neg (by omega), asU64]
  refine congrArg Except.ok (UInt64.toNat_inj.mp ?_)
  rw [UInt64.toNat_ofNat', UInt32.toNat_toUInt64]
  omega

theorem readU32_writeInteger (v : UInt32)
    (h : pos + (writeInteger v.toNat ++ rest).length < 2 ^ 64) :
    readU32 ⟨pos, writeInteger v.toNat ++ rest⟩ =
      .ok (v, ⟨pos + (writeInteger v.toNat).length, rest⟩) := by
  simp only [readU32, writeInteger, readTlv_writeTlv h, ok_bind, decodeUnsigned_encodeSigned,
    UInt32.toUInt32_toUInt64]
  rfl

theorem fixed_val {n : ℕ} (e : SnmpError) (a : FixedBytes n) : fixed e n a.val = .ok a :=
  dif_pos a.property

/-! ## Values -/

def readBack (v : UInt64) : UInt64 := asU64 (beInt (encodeUnsigned v))

theorem decodeInt_encodeUnsigned (v : UInt64) :
    decodeInt (encodeUnsigned v) = .ok (readBack v) := by
  rw [decodeInt, decodeSigned_encodeUnsigned]
  refine congrArg Except.ok ?_
  rw [readBack, asU64, asU64]
  have hmod : (beInt (encodeUnsigned v)).bmod (2 ^ 64) % 2 ^ 64 =
      beInt (encodeUnsigned v) % 2 ^ 64 := Int.bmod_emod
  rw [hmod]

theorem toNat_readBack (v : UInt64) :
    ((readBack v).toNat : ℤ) = beInt (encodeUnsigned v) % 2 ^ 64 := by
  rw [readBack, asU64, UInt64.toNat_ofNat']
  omega

theorem readBack_eq_iff (v : UInt64) : readBack v = v ↔ ¬ Misread 8 v.toNat := by
  rw [← emod_beInt_eq_iff le_rfl v.toNat_lt, ← UInt64.toNat_inj, ← toNat_readBack]
  exact Int.natCast_inj.symm

theorem toUInt32_readBack_eq_iff (v : UInt32) :
    (readBack v.toUInt64).toUInt32 = v ↔ ¬ Misread 4 v.toNat := by
  have hlt := v.toNat_lt
  have hiff : beInt (encodeUnsigned v.toUInt64) % 2 ^ (8 * 4) = _ ↔ ¬ Misread 4 _ :=
    emod_beInt_eq_iff (by omega) (by rw [UInt32.toNat_toUInt64]; omega)
  rw [UInt32.toNat_toUInt64] at hiff
  rw [← hiff, ← UInt32.toNat_inj, UInt64.toNat_toUInt32]
  have hread := toNat_readBack v.toUInt64
  omega

def SnmpValue.image : SnmpValue → SnmpValue
  | .objectId oid => .objectId oid.image
  | .counter32 v => .counter32 (readBack v.toUInt64).toUInt32
  | .gauge32 v => .gauge32 (readBack v.toUInt64).toUInt32
  | .timeTicks v => .timeTicks (readBack v.toUInt64).toUInt32
  | .counter64 v => .counter64 (readBack v)
  | v => v

theorem decodeInt_encodeSigned (v : Int32) :
    (decodeInt (encodeSigned v.toInt)).map (fun n => asI32 n.toNat) = .ok v := by
  obtain ⟨hlow, hhigh⟩ := int32_range v
  rw [decodeInt, decodeSigned_encodeSigned hlow hhigh]
  refine congrArg Except.ok (Int32.toInt_inj.mp ?_)
  have hlow := v.le_toInt
  have hhigh := v.toInt_lt
  change (Int32.ofInt (asU64 v.toInt).toNat).toInt = _
  rw [Int32.toInt_ofInt, asU64, UInt64.toNat_ofNat', Int.bmod_def]
  norm_num
  omega

theorem SnmpValue.decode_of_encode {v : SnmpValue} (h : v.encode checks = some bytes) :
    ∃ tag content, bytes = writeTlv tag content ∧ SnmpValue.decode tag content = .ok v.image := by
  cases v with
  | objectId oid =>
    obtain ⟨content, hcontent, rfl⟩ := Option.map_eq_some_iff.mp h
    refine ⟨_, content, rfl, ?_⟩
    change (Oid.decode content).map SnmpValue.objectId = _
    rw [Oid.decode_of_encode hcontent]
    rfl
  | integer v =>
    cases h
    refine ⟨_, _, rfl, ?_⟩
    have hread := congrArg (Except.map SnmpValue.integer) (decodeInt_encodeSigned v)
    cases hint : decodeInt (encodeSigned v.toInt) with
    | error e => rw [hint] at hread; cases hread
    | ok n =>
      rw [hint] at hread
      change (decodeInt _).map _ = _
      rw [hint]
      exact hread
  | ipAddress a =>
    cases h
    refine ⟨_, _, rfl, ?_⟩
    change (fixed _ 4 a.val).map SnmpValue.ipAddress = _
    rw [fixed_val]
    rfl
  | counter32 v | gauge32 v | timeTicks v | counter64 v =>
    cases h
    refine ⟨_, _, rfl, ?_⟩
    change (decodeInt _).map _ = _
    rw [decodeInt_encodeUnsigned]
    rfl
  | _ =>
    cases h
    exact ⟨_, _, rfl, rfl⟩

/-! ## Bindings -/

def VarBind.image (vb : VarBind) : VarBind := ⟨vb.oid.image, vb.value.image⟩

theorem readOid_writeOid {oid : Oid}
    (hoid : writeOid checks oid = some bytes) (h : pos + (bytes ++ rest).length < 2 ^ 64) :
    readOid ⟨pos, bytes ++ rest⟩ = .ok (oid.image, ⟨pos + bytes.length, rest⟩) := by
  obtain ⟨content, hcontent, rfl⟩ := Option.map_eq_some_iff.mp hoid
  simp only [readOid, readTlv_writeTlv h, ok_bind, Oid.decode_of_encode hcontent, ne_eq,
    not_true_eq_false, if_false]
  rfl

theorem VarBind.decode_of_encode (h : vb.encode checks = some bytes)
    (hlen : bytes.length < 2 ^ 64) :
    ∃ content, bytes = writeSequence content ∧
      VarBind.decode tagSequence content = .ok vb.image := by
  simp only [encode, Option.bind_eq_bind, Option.bind_eq_some_iff, Option.pure_def,
    Option.some.injEq] at h
  obtain ⟨oid, hoid, value, hvalue, rfl⟩ := h
  obtain ⟨tag, content, rfl, hdecode⟩ := SnmpValue.decode_of_encode hvalue
  refine ⟨_, rfl, ?_⟩
  have hfits : 0 + (oid ++ writeTlv tag content).length < 2 ^ 64 := fits_content hlen
  simp only [decode, ne_eq, not_true_eq_false, if_false, BerReader.new,
    readOid_writeOid hoid hfits, ok_bind, readTlv_last (fits_tail hfits), hdecode]
  rfl

theorem decodeBinds_encodeBinds {rounds : ℕ} (h : encodeBinds checks list = some bytes)
    (hlen : pos + bytes.length < 2 ^ 64) (hrounds : bytes.length ≤ rounds) :
    decodeBinds rounds ⟨pos, bytes⟩ = .ok (list.map VarBind.image) := by
  induction list generalizing bytes rounds pos with
  | nil =>
    cases h
    cases rounds with
    | zero => rfl
    | succ rounds => rfl
  | cons vb list ih =>
    simp only [encodeBinds, Option.bind_eq_bind, Option.bind_eq_some_iff, Option.pure_def,
      Option.some.injEq] at h
    obtain ⟨first, hfirst, rest, hrest, rfl⟩ := h
    rw [length_append] at hlen hrounds
    obtain ⟨content, rfl, hdecode⟩ := VarBind.decode_of_encode hfirst (by omega)
    have hpos : 0 < (writeSequence content).length := Nat.succ_pos _
    obtain ⟨rounds, rfl⟩ : ∃ k, rounds = k + 1 := ⟨rounds - 1, by omega⟩
    have hread : readTlv ⟨pos, writeSequence content ++ rest⟩ = _ :=
      readTlv_writeTlv (by rw [length_append]; unfold writeSequence at hlen; omega)
    have hne : writeSequence content ++ rest ≠ [] := cons_ne_nil _ _
    have htail : decodeBinds rounds ⟨pos + (writeSequence content).length, rest⟩ = _ :=
      ih hrest (by omega) (by omega)
    simp only [decodeBinds, if_neg hne, hread, ok_bind, hdecode]
    unfold writeSequence at htail
    rw [htail]
    rfl

theorem VarBindList.decode_of_encode
    (h : VarBindList.encode checks list = some bytes) (hlen : bytes.length < 2 ^ 64) :
    ∃ content, bytes = writeSequence content ∧
      VarBindList.decode tagSequence content = .ok (list.map VarBind.image) := by
  obtain ⟨content, hcontent, rfl⟩ := Option.map_eq_some_iff.mp h
  refine ⟨content, rfl, ?_⟩
  rw [decode, if_neg (by simp), BerReader.new]
  exact decodeBinds_encodeBinds hcontent (fits_content hlen) le_rfl

/-! ## PDUs -/

def Pdu.image (p : Pdu) : Pdu := { p with varbinds := p.varbinds.map VarBind.image }

theorem PduType.fromTag_tag (t : PduType) : PduType.fromTag t.tag = .ok t := by
  cases t <;> rfl

theorem PduType.tag_ne_trap (t : PduType) : t.tag ≠ 0xa4 := by
  cases t <;> decide

theorem Pdu.decode_of_encode (h : p.encode checks = some bytes) (hlen : bytes.length < 2 ^ 64) :
    ∃ content, bytes = writeTlv p.pduType.tag content ∧
      Pdu.decode p.pduType.tag content = .ok p.image := by
  simp only [encode, Option.bind_eq_bind, Option.bind_eq_some_iff, Option.pure_def,
    Option.some.injEq] at h
  obtain ⟨list, hlist, rfl⟩ := h
  refine ⟨_, rfl, ?_⟩
  set content := writeInteger p.requestId.toInt ++ (writeInteger p.errorStatus.toInt ++
    (writeInteger p.errorIndex.toInt ++ list)) with hcontent
  have hfits : 0 + content.length < 2 ^ 64 := fits_content hlen
  rw [hcontent] at hfits ⊢
  have hfits₁ := fits_tail hfits
  have hfits₂ := fits_tail hfits₁
  have hfits₃ := fits_tail hfits₂
  obtain ⟨inner, rfl, hdecode⟩ := VarBindList.decode_of_encode hlist (by omega)
  simp only [decode, PduType.fromTag_tag, ok_bind, BerReader.new, readI32_writeInteger _ hfits,
    readI32_writeInteger _ hfits₁, readI32_writeInteger _ hfits₂]
  simp only [writeSequence, readTlv_last hfits₃, ok_bind, hdecode]
  rfl

/-! ## Traps -/

theorem decodeUnsigned_encodeUnsigned (v : UInt32) :
    decodeUnsigned (encodeUnsigned v.toUInt64) =
      if Misread 5 v.toNat then berError .badInteger else .ok v.toUInt64 := by
  have hlt := v.toNat_lt
  have hiff : beInt (encodeUnsigned v.toUInt64) % 2 ^ (8 * 5) = _ ↔ ¬ Misread 5 _ :=
    emod_beInt_eq_iff (by omega) (by rw [UInt32.toNat_toUInt64]; omega)
  obtain ⟨k, hk, -, -, ⟨-, -, hint⟩ | ⟨hlow, hhigh, hint⟩⟩ := beInt_encodeUnsigned v.toUInt64
  · rw [UInt32.toNat_toUInt64] at hint hiff
    have hexact : ¬ Misread 5 v.toNat := hiff.mp (by rw [hint]; omega)
    rw [decodeUnsigned, decodeSigned_encodeUnsigned, ok_bind, hint, if_neg hexact,
      Int.bmod_eq_of_le (by omega) (by omega), if_neg (by omega), asU64]
    refine congrArg Except.ok (UInt64.toNat_inj.mp ?_)
    rw [UInt64.toNat_ofNat', UInt32.toNat_toUInt64]
    omega
  · rw [UInt32.toNat_toUInt64] at hlow hhigh hint
    have hsmall : 8 * k + 7 < 32 :=
      (Nat.pow_lt_pow_iff_right (by omega)).mp (lt_of_le_of_lt hlow hlt)
    have hmisread : Misread 5 v.toNat := ⟨k, by omega, hlow, hhigh⟩
    have hpow : (2 : ℤ) ^ (8 * k + 8) ≤ 2 ^ 32 := pow_le_pow_right₀ (by norm_num) (by omega)
    have hhigh' : (v.toNat : ℤ) < 2 ^ (8 * k + 8) := by exact_mod_cast hhigh
    rw [decodeUnsigned, decodeSigned_encodeUnsigned, ok_bind, hint, if_pos hmisread,
      Int.bmod_eq_of_le (by omega) (by omega), if_pos (by omega)]

def TrapV1.image (t : TrapV1) : TrapV1 :=
  { t with enterprise := t.enterprise.image, varbinds := t.varbinds.map VarBind.image }

theorem TrapV1.decode_of_encode {t : TrapV1}
    (h : t.encode checks = some bytes) (hlen : bytes.length < 2 ^ 64) :
    ∃ content, bytes = writeTlv 0xa4 content ∧ TrapV1.decode 0xa4 content =
      if Misread 5 t.timeStamp.toNat then berError .badInteger else .ok t.image := by
  simp only [encode, Option.bind_eq_bind, Option.bind_eq_some_iff, Option.pure_def,
    Option.some.injEq] at h
  obtain ⟨enterprise, henterprise, list, hlist, rfl⟩ := h
  refine ⟨_, rfl, ?_⟩
  set content := enterprise ++ (writeTlv tagIpAddress t.agentAddress.val ++
    (writeInteger t.genericTrap.toInt ++ (writeInteger t.specificTrap.toInt ++
      (writeUnsigned tagTimeTicks t.timeStamp.toUInt64 ++ list)))) with hcontent
  have hfits : 0 + content.length < 2 ^ 64 := fits_content hlen
  rw [hcontent] at hfits ⊢
  have hfits₁ := fits_tail hfits
  have hfits₂ := fits_tail hfits₁
  have hfits₃ := fits_tail hfits₂
  have hfits₄ := fits_tail hfits₃
  have hfits₅ := fits_tail hfits₄
  obtain ⟨inner, rfl, hdecode⟩ := VarBindList.decode_of_encode hlist (by omega)
  simp only [decode, ne_eq, not_true_eq_false, if_false, BerReader.new,
    readOid_writeOid henterprise hfits, ok_bind, readTlv_writeTlv hfits₁, fixed_val,
    readI32_writeInteger _ hfits₂, readI32_writeInteger _ hfits₃]
  unfold writeUnsigned writeSequence at hfits₄ hfits₅ ⊢
  simp only [readTlv_writeTlv hfits₄, ok_bind, decodeUnsigned_encodeUnsigned]
  split
  · rfl
  · simp only [readTlv_last hfits₅, ok_bind, hdecode, UInt32.toUInt32_toUInt64]
    rfl

/-! ## Community messages -/

def MessageData.image : MessageData → Option MessageData
  | .pdu p => some (.pdu p.image)
  | .trapV1 t => if Misread 5 t.timeStamp.toNat then none else some (.trapV1 t.image)

def orRefused {α : Type} : Option α → Decoded α
  | some a => .ok a
  | none => berError .badInteger

theorem MessageData.decode_of_encode {d : MessageData}
    (h : d.encode checks = some bytes) (hlen : bytes.length < 2 ^ 64) :
    ∃ tag content, bytes = writeTlv tag content ∧
      MessageData.decode tag content = orRefused d.image := by
  cases d with
  | pdu p =>
    obtain ⟨content, rfl, hdecode⟩ := Pdu.decode_of_encode h hlen
    refine ⟨_, content, rfl, ?_⟩
    rw [decode, if_neg p.pduType.tag_ne_trap, hdecode]
    rfl
  | trapV1 t =>
    obtain ⟨content, rfl, hdecode⟩ := TrapV1.decode_of_encode h hlen
    refine ⟨_, content, rfl, ?_⟩
    rw [decode, if_pos rfl, hdecode, image]
    split <;> rfl

theorem SnmpVersion.read (v : SnmpVersion) :
    decodeSigned (encodeSigned v.toInt) = .ok v.toInt ∧ SnmpVersion.fromInt v.toInt = .ok v := by
  cases v <;> exact ⟨decodeSigned_encodeSigned (by decide) (by decide), rfl⟩

theorem Message.decode_of_encode (hversion : m.version ≠ .v3) (h : m.encode checks = some bytes)
    (hlen : bytes.length < 2 ^ 64) :
    Message.decode bytes =
      (orRefused m.data.image).map fun data => { m with data := data } := by
  simp only [encode, Option.bind_eq_bind, Option.bind_eq_some_iff, Option.pure_def,
    Option.some.injEq] at h
  obtain ⟨data, hdata, rfl⟩ := h
  set content := writeInteger m.version.toInt ++ (writeOctetString m.community ++ data)
    with hcontent
  unfold writeSequence at hlen ⊢
  have hfits : 0 + content.length < 2 ^ 64 := fits_content hlen
  simp only [decode, BerReader.new, readTlv_last (fits_zero hlen), ok_bind, ne_eq,
    not_true_eq_false, if_false]
  rw [hcontent] at hfits ⊢
  unfold writeInteger writeOctetString at hfits ⊢
  have hfits₁ := fits_tail hfits
  have hfits₂ := fits_tail hfits₁
  obtain ⟨tag, inner, rfl, hdecode⟩ := MessageData.decode_of_encode hdata (by omega)
  simp only [readTlv_writeTlv hfits, readTlv_writeTlv hfits₁, readTlv_last hfits₂, ok_bind,
    m.version.read, hversion, if_false, hdecode]
  cases m.data.image <;> rfl

/-! ## Version 3 -/

def V3Data.image : V3Data → V3Data
  | .plain s => .plain { s with pdu := s.pdu.image }
  | .encrypted ct => .encrypted ct

theorem V3Data.decode_of_encode {d : V3Data}
    (h : d.encode checks = some bytes) (hlen : bytes.length < 2 ^ 64) :
    ∃ tag content, bytes = writeTlv tag content ∧ V3Data.decode tag content = .ok d.image := by
  cases d with
  | encrypted ct =>
    cases h
    exact ⟨_, _, rfl, rfl⟩
  | plain s =>
    simp only [encode, encodeScoped, Option.bind_eq_bind, Option.bind_eq_some_iff,
      Option.pure_def, Option.some.injEq] at h
    obtain ⟨pdu, hpdu, rfl⟩ := h
    refine ⟨_, _, rfl, ?_⟩
    set content := writeOctetString s.contextEngineId ++ (writeOctetString s.contextName ++ pdu)
      with hcontent
    unfold writeSequence at hlen
    have hfits : 0 + content.length < 2 ^ 64 := fits_content hlen
    simp only [decode, if_true, decodeScoped, BerReader.new, readTlv_last (fits_zero hlen),
      ok_bind, ne_eq, not_true_eq_false, if_false]
    rw [hcontent] at hfits ⊢
    unfold writeOctetString at hfits ⊢
    have hfits₁ := fits_tail hfits
    have hfits₂ := fits_tail hfits₁
    obtain ⟨inner, rfl, hdecode⟩ := Pdu.decode_of_encode hpdu (by omega)
    simp only [readTlv_writeTlv hfits, readTlv_writeTlv hfits₁, readTlv_last hfits₂, ok_bind,
      hdecode]
    rfl

theorem decodeUsm_encodeUsm {usm : UsmSecurityParameters}
    (hlen : (encodeUsm usm).length < 2 ^ 63) : decodeUsm (encodeUsm usm) = .ok usm := by
  unfold encodeUsm writeSequence at *
  set content := writeOctetString usm.authoritativeEngineId ++
    (writeInteger usm.authoritativeEngineBoots.toNat ++
      (writeInteger usm.authoritativeEngineTime.toNat ++ (writeOctetString usm.userName ++
        (writeOctetString usm.authParameters.val ++
          writeOctetString usm.privParameters.val)))) with hcontent
  have hlen := hlen.trans (show 2 ^ 63 < 2 ^ 64 by norm_num)
  have hfits := fits_content hlen
  simp only [decodeUsm, BerReader.new, readTlv_last (fits_zero hlen), ok_bind, ne_eq,
    not_true_eq_false, if_false]
  rw [hcontent] at hfits ⊢
  unfold writeOctetString at hfits ⊢
  have hfits₁ := fits_tail hfits
  have hfits₂ := fits_tail hfits₁
  have hfits₃ := fits_tail hfits₂
  have hfits₄ := fits_tail hfits₃
  simp only [readTlv_writeTlv hfits, readU32_writeInteger _ hfits₁,
    readU32_writeInteger _ hfits₂, readTlv_writeTlv hfits₃, readTlv_writeTlv hfits₄,
    readTlv_last (fits_tail hfits₄), ok_bind, fixed_val]
  rfl

theorem HeaderData.decode_fields {h : HeaderData} (hlen : h.fields.length < 2 ^ 63) :
    HeaderData.decode h.fields = if h.msgSecurityModel = 3 then .ok h
      else .error (.error (.unsupportedSecurityModel h.msgSecurityModel.toInt)) := by
  have hfields : h.fields = writeInteger h.msgId.toInt ++ (writeInteger h.msgMaxSize.toInt ++
      (writeTlv tagOctetString [h.msgFlags] ++
        (writeInteger h.msgSecurityModel.toInt ++ []))) := by
    rw [append_nil]
    rfl
  have hfits : 0 + h.fields.length < 2 ^ 64 := by omega
  rw [hfields] at hfits ⊢
  have hfits₁ := fits_tail hfits
  have hfits₂ := fits_tail hfits₁
  have hfits₃ := fits_tail hfits₂
  have hflags : fixed .malformed 1 [h.msgFlags] = .ok ⟨[h.msgFlags], rfl⟩ := rfl
  simp only [decode, BerReader.new, readI64_writeInteger _ hfits, readI64_writeInteger _ hfits₁,
    readTlv_writeTlv hfits₂, readI64_writeInteger _ hfits₃, ok_bind, hflags]
  by_cases hmodel : h.msgSecurityModel = 3
  · rw [if_neg (not_not.mpr hmodel), if_pos hmodel]
    rfl
  · rw [if_pos hmodel, if_neg hmodel]

theorem V3Message.decode_of_encode {m : V3Message}
    (h : m.encode checks = some bytes) (hlen : bytes.length < 2 ^ 63) :
    V3Message.decode bytes =
      if m.header.msgSecurityModel = 3 then .ok { m with data := m.data.image }
      else .error (.error (.unsupportedSecurityModel m.header.msgSecurityModel.toInt)) := by
  simp only [encode, Option.bind_eq_bind, Option.bind_eq_some_iff, Option.pure_def,
    Option.some.injEq] at h
  obtain ⟨data, hdata, rfl⟩ := h
  unfold writeSequence writeInteger writeOctetString at hlen ⊢
  set content := writeTlv tagInteger (Snmp.encodeSigned 3) ++
    (writeTlv tagSequence m.header.fields ++
      (writeTlv tagOctetString (encodeUsm m.securityParameters) ++ data)) with hcontent
  have hin := length_le_writeTlv tagSequence content
  have hfits : 0 + content.length < 2 ^ 64 := by omega
  have houter : 0 + (writeTlv tagSequence content).length < 2 ^ 64 := by omega
  have hparts : data.length ≤ content.length ∧ m.header.fields.length ≤ content.length ∧
      (encodeUsm m.securityParameters).length ≤ content.length := by
    have hheader := length_le_writeTlv tagSequence m.header.fields
    have husm := length_le_writeTlv tagOctetString (encodeUsm m.securityParameters)
    rw [hcontent]
    simp only [length_append]
    omega
  obtain ⟨hpdata, hpheader, hpusm⟩ := hparts
  obtain ⟨tag, inner, rfl, hdecode⟩ := V3Data.decode_of_encode hdata (by omega)
  have hversion : decodeSigned (Snmp.encodeSigned 3) = .ok 3 :=
    decodeSigned_encodeSigned (by norm_num) (by norm_num)
  have hheader := HeaderData.decode_fields (lt_of_le_of_lt hpheader (by omega))
  have husm := decodeUsm_encodeUsm (lt_of_le_of_lt hpusm (by omega))
  simp only [decode, BerReader.new, readTlv_last houter, ok_bind, ne_eq, not_true_eq_false,
    if_false]
  rw [hcontent] at hfits ⊢
  have hfits₁ := fits_tail hfits
  have hfits₂ := fits_tail hfits₁
  simp only [readTlv_writeTlv hfits, readTlv_writeTlv hfits₁, ok_bind, hversion,
    not_true_eq_false, if_false, hheader]
  by_cases hmodel : m.header.msgSecurityModel = 3
  · simp only [if_pos hmodel, ok_bind, readTlv_writeTlv hfits₂, husm,
      readTlv_last (fits_tail hfits₂), hdecode]
    rfl
  · simp only [if_neg hmodel]
    rfl

/-! ## Exactness -/

def SnmpValue.Valid : SnmpValue → Prop
  | .objectId oid => oid.Valid
  | _ => True

def SnmpValue.Exact : SnmpValue → Prop
  | .objectId oid => oid.Combinable
  | .counter32 v => ¬ Misread 4 v.toNat
  | .gauge32 v => ¬ Misread 4 v.toNat
  | .timeTicks v => ¬ Misread 4 v.toNat
  | .counter64 v => ¬ Misread 8 v.toNat
  | _ => True

theorem SnmpValue.image_eq_iff {v : SnmpValue} (h : v.Valid) : v.image = v ↔ v.Exact := by
  cases v with
  | objectId oid => exact (SnmpValue.objectId.injEq ..).to_iff.trans (Oid.image_eq_iff h)
  | counter32 v => exact (SnmpValue.counter32.injEq ..).to_iff.trans (toUInt32_readBack_eq_iff v)
  | gauge32 v => exact (SnmpValue.gauge32.injEq ..).to_iff.trans (toUInt32_readBack_eq_iff v)
  | timeTicks v => exact (SnmpValue.timeTicks.injEq ..).to_iff.trans (toUInt32_readBack_eq_iff v)
  | counter64 v => exact (SnmpValue.counter64.injEq ..).to_iff.trans (readBack_eq_iff v)
  | _ => exact iff_of_true rfl trivial

def VarBind.Valid (vb : VarBind) : Prop := vb.oid.Valid ∧ vb.value.Valid

def VarBind.Exact (vb : VarBind) : Prop := vb.oid.Combinable ∧ vb.value.Exact

theorem VarBind.image_eq_iff (h : vb.Valid) : vb.image = vb ↔ vb.Exact := by
  obtain ⟨oid, value⟩ := vb
  exact (VarBind.mk.injEq ..).to_iff.trans
    (and_congr (Oid.image_eq_iff h.1) (SnmpValue.image_eq_iff h.2))

theorem map_image_eq_iff (h : ∀ vb ∈ list, vb.Valid) :
    list.map VarBind.image = list ↔ ∀ vb ∈ list, vb.Exact := by
  have hmap : list.map VarBind.image = list.map id ↔ _ := map_inj_left
  rw [map_id] at hmap
  exact hmap.trans (forall₂_congr fun vb hvb => VarBind.image_eq_iff (h vb hvb))

def Pdu.Valid (p : Pdu) : Prop := ∀ vb ∈ p.varbinds, vb.Valid

def Pdu.Exact (p : Pdu) : Prop := ∀ vb ∈ p.varbinds, vb.Exact

theorem Pdu.image_eq_iff (h : p.Valid) : p.image = p ↔ p.Exact := by
  obtain ⟨pduType, requestId, errorStatus, errorIndex, varbinds⟩ := p
  simp only [image, Pdu.mk.injEq, true_and]
  exact map_image_eq_iff h

def Message.Valid (m : Message) : Prop :=
  m.version ≠ .v3 ∧ match m.data with
    | .pdu p => p.Valid
    | .trapV1 t => t.enterprise.Valid ∧ ∀ vb ∈ t.varbinds, vb.Valid

def MessageData.Exact : MessageData → Prop
  | .pdu p => p.Exact
  | .trapV1 t => t.enterprise.Combinable ∧ ¬ Misread 5 t.timeStamp.toNat ∧
      ∀ vb ∈ t.varbinds, vb.Exact

def Message.Exact (m : Message) : Prop := m.data.Exact

theorem Message.image_eq_iff (h : m.Valid) : m.data.image = some m.data ↔ m.Exact := by
  obtain ⟨version, community, data⟩ := m
  cases data with
  | pdu p =>
    rw [MessageData.image, Option.some.injEq, MessageData.pdu.injEq]
    exact Pdu.image_eq_iff h.2
  | trapV1 t =>
    obtain ⟨-, hoid, hlist⟩ := h
    rw [MessageData.image]
    simp only [Exact, MessageData.Exact]
    split
    · rename_i hmisread
      exact iff_of_false nofun fun hexact => hexact.2.1 hmisread
    · rename_i hread
      rw [Option.some.injEq, MessageData.trapV1.injEq, ← Oid.image_eq_iff hoid,
        ← map_image_eq_iff hlist]
      obtain ⟨enterprise, agentAddress, genericTrap, specificTrap, timeStamp, varbinds⟩ := t
      simp only [TrapV1.image, TrapV1.mk.injEq, true_and]
      exact and_congr_right fun _ => ⟨fun hbinds => ⟨hread, hbinds⟩, And.right⟩

def V3Message.Valid (m : V3Message) : Prop :=
  match m.data with
  | .plain s => s.pdu.Valid
  | .encrypted _ => True

def V3Message.Exact (m : V3Message) : Prop :=
  m.header.msgSecurityModel = 3 ∧ match m.data with
    | .plain s => s.pdu.Exact
    | .encrypted _ => True

theorem V3Message.image_eq_iff {m : V3Message} (h : m.Valid)
    (hmodel : m.header.msgSecurityModel = 3) : m.data.image = m.data ↔ m.Exact := by
  obtain ⟨header, usm, data⟩ := m
  cases data with
  | encrypted ct => exact iff_of_true rfl ⟨hmodel, trivial⟩
  | plain s =>
    obtain ⟨contextEngineId, contextName, pdu⟩ := s
    rw [V3Data.image, V3Data.plain.injEq, ScopedPdu.mk.injEq]
    simp only [true_and]
    exact (Pdu.image_eq_iff h).trans ⟨fun hexact => ⟨hmodel, hexact⟩, And.right⟩

/-! ## What can be written -/

theorem writeOid_of_combinable (checks : Bool) {oid : Oid} (h : oid.Combinable) :
    ∃ bytes, writeOid checks oid = some bytes := by
  rcases oid with - | ⟨a, - | ⟨b, rest⟩⟩
  · cases h
  · cases h
  · have hlt : a.toNat * 40 + b.toNat < 2 ^ 32 := h
    exact ⟨_, by rw [writeOid, Oid.encode, combine, if_pos hlt]; rfl⟩

theorem VarBind.encode_of_exact (checks : Bool) (h : vb.Exact) :
    ∃ bytes, vb.encode checks = some bytes := by
  obtain ⟨oid, hoid⟩ := writeOid_of_combinable checks h.1
  obtain ⟨value, hvalue⟩ : ∃ bytes, vb.value.encode checks = some bytes := by
    have hexact := h.2
    cases hv : vb.value with
    | objectId oid =>
      rw [hv] at hexact
      exact writeOid_of_combinable checks hexact
    | _ => exact ⟨_, rfl⟩
  exact ⟨_, by rw [encode, hoid, hvalue]; rfl⟩

theorem VarBindList.encode_of_exact (checks : Bool)
    (h : ∀ vb ∈ list, vb.Exact) : ∃ bytes, VarBindList.encode checks list = some bytes := by
  have hbinds : ∃ bytes, encodeBinds checks list = some bytes := by
    induction list with
    | nil => exact ⟨[], rfl⟩
    | cons vb list ih =>
      obtain ⟨first, hfirst⟩ := VarBind.encode_of_exact checks (h vb mem_cons_self)
      obtain ⟨rest, hrest⟩ := ih fun x hx => h x (mem_cons_of_mem _ hx)
      exact ⟨_, by rw [encodeBinds, hfirst, hrest]; rfl⟩
  obtain ⟨bytes, hbytes⟩ := hbinds
  exact ⟨_, by rw [encode, hbytes]; rfl⟩

theorem Pdu.encode_of_exact (checks : Bool) (h : p.Exact) :
    ∃ bytes, p.encode checks = some bytes := by
  obtain ⟨list, hlist⟩ := VarBindList.encode_of_exact checks h
  exact ⟨_, by rw [encode, hlist]; rfl⟩

theorem Message.encode_of_exact (checks : Bool) (h : m.Exact) :
    ∃ bytes, m.encode checks = some bytes := by
  have hdata : ∃ bytes, m.data.encode checks = some bytes := by
    unfold Exact at h
    cases hd : m.data with
    | pdu p =>
      rw [hd] at h
      exact Pdu.encode_of_exact checks h
    | trapV1 t =>
      rw [hd] at h
      obtain ⟨enterprise, henterprise⟩ := writeOid_of_combinable checks h.1
      obtain ⟨list, hlist⟩ := VarBindList.encode_of_exact checks h.2.2
      exact ⟨_, by rw [MessageData.encode, TrapV1.encode, henterprise, hlist]; rfl⟩
  obtain ⟨data, hdata⟩ := hdata
  exact ⟨_, by rw [encode, hdata]; rfl⟩

theorem V3Message.encode_of_exact (checks : Bool) {m : V3Message} (h : m.Exact) :
    ∃ bytes, m.encode checks = some bytes := by
  have hdata : ∃ bytes, m.data.encode checks = some bytes := by
    have hexact := h.2
    cases hd : m.data with
    | encrypted ct => exact ⟨_, rfl⟩
    | plain s =>
      rw [hd] at hexact
      obtain ⟨pdu, hpdu⟩ := Pdu.encode_of_exact checks hexact
      exact ⟨_, by rw [V3Data.encode, encodeScoped, hpdu]; rfl⟩
  obtain ⟨data, hdata⟩ := hdata
  exact ⟨_, by rw [encode, hdata]; rfl⟩

/-! ## The round trip -/

def Message.RoundTrips (checks : Bool) (m : Message) : Prop :=
  ∃ bytes, m.encode checks = some bytes ∧ Message.decode bytes = .ok m

def V3Message.RoundTrips (checks : Bool) (m : V3Message) : Prop :=
  ∃ bytes, m.encode checks = some bytes ∧ V3Message.decode bytes = .ok m

theorem Message.decode_eq_ok_iff (hvalid : m.Valid)
    (h : m.encode checks = some bytes) (hlen : bytes.length < 2 ^ 63) :
    Message.decode bytes = .ok m ↔ m.Exact := by
  rw [Message.decode_of_encode hvalid.1 h (by omega), ← Message.image_eq_iff hvalid]
  obtain ⟨version, community, data⟩ := m
  cases data.image with
  | none => exact iff_of_false nofun nofun
  | some image =>
    simp only [orRefused, Except.map, Except.ok.injEq, Message.mk.injEq, true_and,
      Option.some.injEq]

theorem V3Message.decode_eq_ok_iff {m : V3Message}
    (hvalid : m.Valid) (h : m.encode checks = some bytes) (hlen : bytes.length < 2 ^ 63) :
    V3Message.decode bytes = .ok m ↔ m.Exact := by
  rw [V3Message.decode_of_encode h hlen]
  by_cases hmodel : m.header.msgSecurityModel = 3
  · rw [if_pos hmodel, ← V3Message.image_eq_iff hvalid hmodel]
    obtain ⟨header, usm, data⟩ := m
    simp only [Except.ok.injEq, V3Message.mk.injEq, true_and]
  · rw [if_neg hmodel]
    exact iff_of_false nofun fun hexact => hmodel hexact.1

/-- Messages of either wrapper, of valid identifiers, are read back from their encoding exactly
where no unsigned number is misread, `40 * X + Y` of no identifier overflows and the security
model is the supported one. -/
theorem roundTrip_iff {checks : Bool} {m : Message} {v3 : V3Message} (hm : m.Valid)
    (hv3 : v3.Valid) (hmlen : ∀ bytes, m.encode checks = some bytes → bytes.length < 2 ^ 63)
    (hv3len : ∀ bytes, v3.encode checks = some bytes → bytes.length < 2 ^ 63) :
    (m.RoundTrips checks ↔ m.Exact) ∧ (v3.RoundTrips checks ↔ v3.Exact) := by
  refine ⟨⟨?_, fun hexact => ?_⟩, ⟨?_, fun hexact => ?_⟩⟩
  · rintro ⟨bytes, hencode, hdecode⟩
    exact (Message.decode_eq_ok_iff hm hencode (hmlen _ hencode)).mp hdecode
  · obtain ⟨bytes, hencode⟩ := Message.encode_of_exact checks hexact
    exact ⟨bytes, hencode, (Message.decode_eq_ok_iff hm hencode (hmlen _ hencode)).mpr hexact⟩
  · rintro ⟨bytes, hencode, hdecode⟩
    exact (V3Message.decode_eq_ok_iff hv3 hencode (hv3len _ hencode)).mp hdecode
  · obtain ⟨bytes, hencode⟩ := V3Message.encode_of_exact checks hexact
    exact ⟨bytes, hencode, (V3Message.decode_eq_ok_iff hv3 hencode (hv3len _ hencode)).mpr hexact⟩

def counterPdu (v : UInt32) : Pdu := ⟨.getResponse, 7, 0, 0, [⟨[1, 3, 6, 1], .counter32 v⟩]⟩

def counterMessage (v : UInt32) : Message := ⟨.v2c, [0x70, 0x75, 0x62], .pdu (counterPdu v)⟩

def counterV3 (v : UInt32) : V3Message where
  header := ⟨1, 65507, 4, 3⟩
  securityParameters := ⟨[0x65], 1, 100, [0x75], .replicate 12 0, .replicate 8 0⟩
  data := .plain ⟨[0x65], [], counterPdu v⟩

theorem counterPdu_valid (v : UInt32) : (counterPdu v).Valid := by
  intro vb hvb
  obtain rfl := mem_singleton.mp hvb
  exact ⟨⟨by decide, fun _ => by decide⟩, trivial⟩

/-- The counter at 127, in both wrappers. -/
theorem roundTrip_counter_127 :
    (counterMessage 127).RoundTrips true ∧ (counterV3 127).RoundTrips true := by
  have hexact : (counterPdu 127).Exact := by
    intro vb hvb
    obtain rfl := mem_singleton.mp hvb
    exact ⟨by decide, show ¬ Misread 4 127 by decide⟩
  have hiff : ((counterMessage 127).RoundTrips true ↔ _) ∧ ((counterV3 127).RoundTrips true ↔ _) :=
    roundTrip_iff ⟨nofun, counterPdu_valid 127⟩ (counterPdu_valid 127)
      (fun bytes h => by cases h; decide +kernel) (fun bytes h => by cases h; decide +kernel)
  exact ⟨hiff.1.mpr hexact, hiff.2.mpr ⟨rfl, hexact⟩⟩

/-- At 128 the counter is written as the octet `80`, and read back as `-128`. -/
theorem counter_128_read_back : (counterMessage 128).Valid ∧ (counterV3 128).Valid ∧
      (((counterMessage 128).encode true).map Message.decode =
        some (.ok (counterMessage 4294967168))) ∧
      (((counterV3 128).encode true).map V3Message.decode = some (.ok (counterV3 4294967168))) :=
  ⟨⟨nofun, counterPdu_valid 128⟩, counterPdu_valid 128, by decide +kernel, by decide +kernel⟩

end TptRfc.Snmp
