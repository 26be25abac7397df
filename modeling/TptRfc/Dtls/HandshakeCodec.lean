import TptRfc.Dtls.Handshake

/-!
# DTLS: handshake bodies round trip, and proper prefixes do not parse

A body whose lengths fit their prefixes is read back by its parser, which stops at its end
(`HandshakeBody.parser_bodyBytes`).
-/

namespace TptRfc.Dtls

open Lib List Parser

/-! ## Vectors -/

variable {v : Bytes} {e : Extension} {exts : List Extension}

theorem decodes_vecU8 (h : v.length < 256) : Decodes Reader.vecU8 (Writer.vecU8 v) v := by
  have hlen : (UInt8.ofNat v.length).toNat = v.length := by
    rw [UInt8.toNat_ofNat', Nat.mod_eq_of_lt h]
  have hbytes := decodes_takeBytes DtlsError.unexpectedEof v
  rw [← hlen] at hbytes
  exact (decodes_takeU8 _ (UInt8.ofNat v.length)).bind hbytes

theorem decodes_vecU16 (h : v.length < 65536) : Decodes Reader.vecU16 (Writer.vecU16 v) v := by
  have hlen : (UInt16.ofNat v.length).toNat = v.length := by
    rw [UInt16.toNat_ofNat', Nat.mod_eq_of_lt h]
  have hbytes := decodes_takeBytes DtlsError.unexpectedEof v
  rw [← hlen] at hbytes
  exact (decodes_takeU16 _ (UInt16.ofNat v.length)).bind hbytes

theorem decodes_vecU24 (h : v.length < 256 ^ 3) : Decodes Reader.vecU24 (Writer.vecU24 v) v :=
  (decodes_takeBe _ h).bind (decodes_takeBytes _ v)

theorem run_vecU16 (h : v.length < 65536) : Parser.run Reader.vecU16 (Writer.vecU16 v) = .ok v :=
  run_of_ok (decodes_vecU16 h).run_nil

@[simp] theorem length_vecU16 (v : Bytes) : (Writer.vecU16 v).length = v.length + 2 := by
  rw [Writer.vecU16, length_append, length_u16Bytes]
  omega

theorem all_flatMap {α : Type} {p : Parser DtlsError α} {enc : α → Bytes} (xs : List α)
    (hdec : ∀ x ∈ xs, Decodes p (enc x) x) (hpos : ∀ x ∈ xs, 1 ≤ (enc x).length) :
    Reader.all p (xs.flatMap enc) = .ok xs :=
  run_of_ok (whileRemaining_flatMap (by decide) xs hdec hpos)

theorem all_u16 (xs : List UInt16) : Reader.all Reader.u16 (xs.flatMap u16Bytes) = .ok xs :=
  all_flatMap xs (fun x _ => decodes_takeU16 _ x) (fun x _ => by simp)

theorem length_le_length_flatMap {α : Type} (enc : α → Bytes) {x : α} {xs : List α}
    (h : x ∈ xs) : (enc x).length ≤ (xs.flatMap enc).length := by
  rw [length_flatMap]
  exact single_le_sum (fun _ _ => Nat.zero_le _) _ (mem_map_of_mem h)

theorem parseU16List_vecU16 {xs : List UInt16} (h : (xs.flatMap u16Bytes).length < 65536) :
    parseU16List (Writer.vecU16 (xs.flatMap u16Bytes)) = .ok xs := by
  rw [parseU16List, run_vecU16 h]
  exact all_u16 xs

/-! ## Extensions -/

theorem length_encodeExtension (e : Extension) : (encodeExtension e).length = e.2.length + 4 := by
  rw [encodeExtension, length_append, length_u16Bytes, length_vecU16]
  omega

theorem decodes_extension (h : e.2.length < 65536) : Decodes readExtension (encodeExtension e) e :=
  (decodes_takeU16 _ e.1).bind ((decodes_vecU16 h).bind_pure fun data => (e.1, data))

theorem length_extension_lt (he : e ∈ exts)
    (h : (exts.flatMap encodeExtension).length < 65536) : e.2.length < 65532 := by
  have := length_le_length_flatMap encodeExtension he
  rw [length_encodeExtension] at this
  omega

theorem decodes_extensions (h : (exts.flatMap encodeExtension).length < 65536) :
    Decodes readExtensions (putExtensions exts) exts := by
  have hall : Reader.all readExtension (exts.flatMap encodeExtension) = .ok exts := by
    refine all_flatMap exts (fun e he => ?_) (fun e _ => ?_)
    · exact decodes_extension ((length_extension_lt he h).trans (by decide))
    · rw [length_encodeExtension]
      omega
  exact (decodes_vecU16 h).bind_lift _ hall

/-! ## Bodies -/

theorem KeyShareEntry.decodes {e : KeyShareEntry} (h : e.keyExchange.length < 65536) :
    Decodes KeyShareEntry.parse e.encode e :=
  (decodes_takeU16 _ e.group).bind ((decodes_vecU16 h).bind_pure fun k =>
    (⟨e.group, k⟩ : KeyShareEntry))

theorem KeyShareEntry.length_encode (e : KeyShareEntry) :
    e.encode.length = e.keyExchange.length + 4 := by
  rw [KeyShareEntry.encode, length_append, length_u16Bytes, length_vecU16]
  omega

namespace ClientHello

structure Fits (c : ClientHello) : Prop where
  sessionId : c.sessionId.length < 256
  cipherSuites : (c.cipherSuites.flatMap u16Bytes).length < 65536
  extensions : (c.extensions.flatMap encodeExtension).length < 65536
  connectionId : ∀ cid, c.connectionId = some cid → cid.length ≤ 255

theorem parseKeyShare_vecU16 {xs : List KeyShareEntry}
    (h : (xs.flatMap KeyShareEntry.encode).length < 65536) :
    parseKeyShare (Writer.vecU16 (xs.flatMap KeyShareEntry.encode)) = .ok xs := by
  rw [parseKeyShare, run_vecU16 h]
  refine all_flatMap xs (fun e he => ?_) (fun e _ => ?_)
  · have := length_le_length_flatMap KeyShareEntry.encode he
    rw [e.length_encode] at this
    exact KeyShareEntry.decodes (by omega)
  · rw [e.length_encode]
    omega

variable {c : ClientHello}

theorem fromExtensions_extensions (h : c.Fits) :
    fromExtensions c.random c.sessionId c.cipherSuites c.extensions = .ok c := by
  have hdata : ∀ e ∈ c.extensions, e.2.length < 65532 :=
    fun e he => length_extension_lt he h.extensions
  have hgroups := hdata (Ext.supportedGroups, Writer.vecU16 (c.groups.flatMap u16Bytes))
    (by simp [extensions])
  have hsig := hdata (Ext.signatureAlgorithms, Writer.vecU16 (c.sigAlgs.flatMap u16Bytes))
    (by simp [extensions])
  have hks := hdata (Ext.keyShare, Writer.vecU16 (c.keyShare.flatMap KeyShareEntry.encode))
    (by simp [extensions])
  simp only [length_vecU16] at hgroups hsig hks
  have hcookie : findExt c.extensions Ext.cookie = c.cookie := by
    cases hck : c.cookie <;> cases hcid : c.connectionId <;>
      simp only [extensions, hck, hcid] <;> rfl
  have hcid : optionalExt c.extensions Ext.connectionId none
      (fun c => some <$> ConnectionId.new c) = .ok c.connectionId := by
    have hfind : findExt c.extensions Ext.connectionId = c.connectionId := by
      cases hck : c.cookie <;> cases hcid : c.connectionId <;>
        simp only [extensions, hck, hcid] <;> rfl
    rw [optionalExt, hfind]
    cases hcid : c.connectionId with
    | none => rfl
    | some cid =>
      have := h.connectionId cid hcid
      simp only [ConnectionId.new, if_neg (by omega : ¬ cid.length > 255)]
      rfl
  have hg : optionalExt c.extensions Ext.supportedGroups [] parseU16List = .ok c.groups :=
    parseU16List_vecU16 (by omega)
  have hs : optionalExt c.extensions Ext.signatureAlgorithms [] parseU16List = .ok c.sigAlgs :=
    parseU16List_vecU16 (by omega)
  have hk : optionalExt c.extensions Ext.keyShare [] parseKeyShare = .ok c.keyShare :=
    parseKeyShare_vecU16 (by omega)
  rw [fromExtensions, hg, hs, hk, hcid, hcookie]
  rfl

theorem decodes (h : c.Fits) : Decodes parse c.encode c := by
  exact (decodes_takeU16 _ legacyVersion).bind
    ((decodes_takeFixed _ c.random).bind ((decodes_vecU8 h.sessionId).bind
      ((decodes_vecU16 h.cipherSuites).bind (Decodes.lift_bind (all_u16 c.cipherSuites)
        ((decodes_vecU8 (v := [0]) (by decide)).bind
          ((decodes_extensions h.extensions).bind_lift _ (fromExtensions_extensions h)))))))

end ClientHello

namespace ServerHello

structure Fits (s : ServerHello) : Prop where
  sessionIdEcho : s.sessionIdEcho.length < 256
  extensions : (s.extensions.flatMap encodeExtension).length < 65536
  connectionId : ∀ cid, s.connectionId = some cid → cid.length ≤ 255

variable {s : ServerHello}

theorem fromExtensions_extensions (h : s.Fits) :
    fromExtensions s.random s.sessionIdEcho s.cipherSuite s.extensions = .ok s := by
  have hcookie : findExt s.extensions Ext.cookie = s.cookie := by
    cases hks : s.keyShare <;> cases hcid : s.connectionId <;> cases hck : s.cookie <;>
      simp only [extensions, hks, hcid, hck] <;> rfl
  have hcid : optionalExt s.extensions Ext.connectionId none
      (fun c => some <$> ConnectionId.new c) = .ok s.connectionId := by
    have hfind : findExt s.extensions Ext.connectionId = s.connectionId := by
      cases hks : s.keyShare <;> cases hcid : s.connectionId <;> cases hck : s.cookie <;>
        simp only [extensions, hks, hcid, hck] <;> rfl
    rw [optionalExt, hfind]
    cases hcid : s.connectionId with
    | none => rfl
    | some cid =>
      have := h.connectionId cid hcid
      simp only [ConnectionId.new, if_neg (by omega : ¬ cid.length > 255)]
      rfl
  have hks : optionalExt s.extensions Ext.keyShare none
      (fun ks => some <$> Parser.run KeyShareEntry.parse ks) = .ok s.keyShare := by
    have hfind : findExt s.extensions Ext.keyShare = s.keyShare.map KeyShareEntry.encode := by
      cases hks : s.keyShare <;> cases hcid : s.connectionId <;> cases hck : s.cookie <;>
        simp only [extensions, hks, hcid, hck] <;> rfl
    rw [optionalExt, hfind]
    cases hks : s.keyShare with
    | none => rfl
    | some ks =>
      have hlt := length_extension_lt (e := (Ext.keyShare, ks.encode))
        (by simp [extensions, hks]) h.extensions
      simp only [ks.length_encode] at hlt
      have hrun := run_of_ok
        (KeyShareEntry.decodes (e := ks) (by omega)).run_nil
      simp only [Option.map_some, hrun]
      rfl
  rw [fromExtensions, hks, hcid, hcookie]
  rfl

theorem decodes (h : s.Fits) : Decodes parse s.encode s := by
  exact (decodes_takeU16 _ legacyVersion).bind
    ((decodes_takeFixed _ s.random).bind ((decodes_vecU8 h.sessionIdEcho).bind
      ((decodes_takeU16 _ s.cipherSuite).bind ((decodes_takeU8 _ 0).bind
        ((decodes_extensions h.extensions).bind_lift _ (fromExtensions_extensions h))))))

end ServerHello

def Certificate.Fits (c : Certificate) : Prop :=
  c.requestContext.length < 256 ∧ c.certData.length + 5 < 256 ^ 3

theorem Certificate.decodes {c : Certificate} (h : c.Fits) :
    Decodes Certificate.parse c.encode c := by
  have hentry : (Writer.vecU24 c.certData ++ Writer.vecU16 []).length < 256 ^ 3 := by
    have := h.2
    simp only [Writer.vecU24, Writer.u24, length_append, length_beBytes, length_vecU16, length_nil]
    omega
  have hdata : Parser.run Reader.vecU24 (Writer.vecU24 c.certData ++ Writer.vecU16 []) =
      .ok c.certData := by
    have := h.2
    exact run_of_ok (decodes_vecU24 (by omega) _)
  have hlist := (decodes_vecU24 hentry).bind
    (f := fun list => lift (Parser.run Reader.vecU24 list) >>= fun certData =>
      pure ({ requestContext := c.requestContext, certData := certData } : Certificate))
    (Decodes.lift_bind hdata (Decodes.pure c))
  rw [append_nil] at hlist
  exact (decodes_vecU8 h.1).bind hlist

theorem CertificateVerify.decodes {c : CertificateVerify} (h : c.signature.length < 65536) :
    Decodes CertificateVerify.parse c.encode c :=
  (decodes_takeU16 _ c.algorithm).bind ((decodes_vecU16 h).bind_pure fun sig =>
    (⟨c.algorithm, sig⟩ : CertificateVerify))

namespace HandshakeBody

def Fits : HandshakeBody → Prop
  | clientHello c => c.Fits
  | serverHello s => s.Fits
  | encryptedExtensions e => (e.extensions.flatMap encodeExtension).length < 65536
  | certificate c => c.Fits
  | certificateVerify c => c.signature.length < 65536
  | finished _ => True

variable {body : HandshakeBody}

theorem parser_bodyBytes (h : body.Fits) : parser body.msgType body.bodyBytes = .ok (body, []) := by
  cases body with
  | clientHello c => exact ((ClientHello.decodes h).map clientHello).run_nil
  | serverHello s => exact ((ServerHello.decodes h).map serverHello).run_nil
  | encryptedExtensions e => exact ((decodes_extensions h).map _).run_nil
  | certificate c => exact ((Certificate.decodes h).map certificate).run_nil
  | certificateVerify c => exact ((CertificateVerify.decodes h).map certificateVerify).run_nil
  | finished verifyData => rfl

theorem parse_bodyBytes (h : body.Fits) : parse body.msgType body.bodyBytes = .ok body :=
  run_of_ok (parser_bodyBytes h)

end HandshakeBody

/-! ## Proper prefixes -/

theorem extends_vecU8 : Extends Reader.vecU8 :=
  (extends_takeU8 _).bind fun _ => extends_takeBytes _ _

theorem extends_vecU16 : Extends Reader.vecU16 :=
  (extends_takeU16 _).bind fun _ => extends_takeBytes _ _

theorem extends_vecU24 : Extends Reader.vecU24 :=
  (extends_takeBe _ _).bind fun _ => extends_takeBytes _ _

theorem extends_readExtensions : Extends readExtensions :=
  extends_vecU16.bind fun _ => Extends.lift _

namespace HandshakeBody

theorem parser_extends {t : HandshakeType} (h : t ≠ .finished) : Extends (parser t) := by
  cases t with
  | clientHello =>
    exact Extends.map _ ((extends_takeU16 _).bind fun _ => (extends_takeFixed _ _).bind
      fun _ => extends_vecU8.bind fun _ => extends_vecU16.bind fun _ =>
        (Extends.lift _).bind fun _ => extends_vecU8.bind fun _ =>
          extends_readExtensions.bind fun _ => Extends.lift _)
  | serverHello =>
    exact Extends.map _ ((extends_takeU16 _).bind fun _ => (extends_takeFixed _ _).bind
      fun _ => extends_vecU8.bind fun _ => (extends_takeU16 _).bind fun _ =>
        (extends_takeU8 _).bind fun _ => extends_readExtensions.bind fun _ => Extends.lift _)
  | encryptedExtensions => exact Extends.map _ extends_readExtensions
  | certificate =>
    exact Extends.map _ (extends_vecU8.bind fun _ => extends_vecU24.bind fun _ =>
      (Extends.lift _).bind fun _ => Extends.pure _)
  | certificateVerify =>
    exact Extends.map _ ((extends_takeU16 _).bind fun _ => extends_vecU16.bind fun _ =>
      Extends.pure _)
  | finished => exact absurd rfl h

theorem parse_ne_of_append {body : HandshakeBody} (h : body.Fits) {bytes more : Bytes}
    (hsplit : bytes ++ more = body.bodyBytes) (hmore : more ≠ []) :
    parse body.msgType bytes ≠ .ok body := by
  by_cases hfin : body.msgType = .finished
  · cases body with
    | finished verifyData =>
      intro hparse
      cases hparse
      have hlen := congrArg List.length hsplit
      simp only [bodyBytes, length_append] at hlen
      exact hmore (length_eq_zero_iff.mp (by omega))
    | _ => cases hfin
  · have hexact := parser_bodyBytes h
    rw [← hsplit] at hexact
    have hno := (parser_extends hfin).not_ok_of_append hexact hmore
    intro hparse
    cases hp : parser body.msgType bytes with
    | error e =>
      rw [parse, Parser.run, hp] at hparse
      cases hparse
    | ok r => exact hno r.1 r.2 hp

end HandshakeBody

end TptRfc.Dtls
