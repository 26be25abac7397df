import TptRfc.Kerberos.Cts
import TptRfc.Lib.Access
import TptRfc.Lib.Text

/-!
# Kerberos: the tickets of the KDC

`MemoryKdc` (`kdc.rs`) keeps its principals in a hash map and answers two requests.

* `asReq` finds the client by name and realm, opens the encrypted timestamp of the request under
  the key it finds, and issues a ticket-granting ticket in the requested name.
* `tgsReq` opens a ticket-granting ticket under the `krbtgt` key and an authenticator under the
  session key of that ticket, and issues a service ticket to the ticket's client.

The map is keyed by the text `name/name@realm`, which does not say where one component ends: two
principals can have one text, and a ticket in the name of one is issued to who holds the key of
the other.  `Principal.Plain` is the condition under which a text is read back.

Encryption is that of `Kerberos.Cts` over any block cipher and keyed hash.  What is opened was
sealed under the same key and usage (`Env.decrypt_eq_ok`), so that the conditions on a request
are stated by what its sender sealed.  The DER codecs, the derivation of keys and the random
source are parameters.
-/

namespace TptRfc.Kerberos

open Lib List Access

/-! ## Messages -/

structure PrincipalName where
  nameType : ℤ
  nameString : List (List Char)
deriving DecidableEq

structure Principal where
  name : PrincipalName
  realm : List Char

structure EncryptionKey where
  keytype : ℕ
  keyvalue : Bytes

structure EncryptedData where
  etype : ℕ
  kvno : Option ℕ
  cipher : Bytes

structure EncTicketPart where
  flags : ℕ
  key : EncryptionKey
  crealm : List Char
  cname : PrincipalName
  authtime : ℕ
  starttime : Option ℕ
  endtime : ℕ
  renewTill : Option ℕ

structure EncKdcRepPart where
  key : EncryptionKey
  nonce : UInt32
  flags : ℕ
  authtime : ℕ
  starttime : Option ℕ
  endtime : ℕ
  renewTill : Option ℕ
  srealm : List Char
  sname : PrincipalName

structure Ticket where
  realm : List Char
  sname : PrincipalName
  encPart : EncryptedData

structure KdcRep where
  msgType : ℕ
  crealm : List Char
  cname : PrincipalName
  ticket : Ticket
  encPart : EncryptedData

structure Checksum where
  cksumtype : ℤ
  checksum : Bytes

structure Authenticator where
  crealm : List Char
  cname : PrincipalName
  checksum : Option Checksum
  ctime : ℕ

structure ApReq where
  ticket : Ticket
  authenticator : EncryptedData

structure PaData where
  padataType : ℤ
  padataValue : Bytes

structure KdcReqBody where
  cname : Option PrincipalName
  realm : List Char
  sname : Option PrincipalName
  till : ℕ
  nonce : UInt32

structure KdcReq where
  pvno : ℤ
  padata : Option (List PaData)
  reqBody : KdcReqBody

inductive Error
  | asn1
  | missingField (field : String)
  | unexpected (what : String)
  | unsupportedEnctype (etype : ℕ)
  | decryptFailed
  | checksumMismatch
  | krbError (code : ℤ) (etext : Option String)
  | preauthRequired
  | principal (text : List Char)
  | constraint (what : String)

abbrev Answer := Except (Fault Error)

structure Env where
  randomSessionKey : ℕ → Answer EncryptionKey
  string2key : ℕ → List Char → List Char → Answer Bytes
  /-- The keys that an enctype derives from a base key. -/
  suite : ℕ → Bytes → Suite
  decodeEncryptedData : Bytes → Option EncryptedData
  decodePaEncTsEnc : Bytes → Answer ℕ
  decodeApReq : Bytes → Answer ApReq
  decodeEncTicketPart : Bytes → Answer EncTicketPart
  decodeAuthenticator : Bytes → Answer Authenticator
  encodeEncTicketPart : EncTicketPart → Bytes
  encodeEncKdcRepPart : EncKdcRepPart → Bytes

def Env.decrypt (env : Env) (etype : ℕ) (key : Bytes) (usage : UInt32) (cipher : Bytes) :
    Answer Bytes :=
  match (env.suite etype key).decrypt usage cipher with
  | .ok plain => .ok plain
  | .decryptFailed => .error (.error .decryptFailed)
  | .checksumMismatch => .error (.error .checksumMismatch)
  | .panic => .error .panic

/-- `cipher` is an encryption of `plain`. -/
def Env.Sealed (env : Env) (etype : ℕ) (key : Bytes) (usage : UInt32) (plain cipher : Bytes) :
    Prop :=
  ∃ confounder, (env.suite etype key).encrypt usage confounder plain = cipher

/-- The confounders of an answer: for the ticket and for the part that the client reads. -/
structure Confounders where
  ticket : FixedBytes 16
  encPart : FixedBytes 16

/-! ## Principals -/

def ntPrincipal : ℤ := 1
def ntSrvInst : ℤ := 2

def Principal.toText (p : Principal) : List Char :=
  ['/'].intercalate p.name.nameString ++ '@' :: p.realm

structure PrincipalEntry where
  principal : Principal
  key : EncryptionKey
  salt : List Char
  etype : ℕ

structure MemoryKdc where
  principals : List (List Char × PrincipalEntry)
  krbtgt : Option PrincipalEntry

def enctypeFromEtype (etype : ℕ) : Answer ℕ :=
  if etype ∈ [17, 18, 19, 20] then .ok etype
  else .error (.error (.unsupportedEnctype etype))

section Kdc

variable (env : Env) (kdc : MemoryKdc)

def register (components : List (List Char)) (nameType : ℤ) (name realm password : List Char)
    (etype : ℕ) : Answer MemoryKdc := do
  let etype ← enctypeFromEtype etype
  let keyvalue ← env.string2key etype password (realm ++ name)
  pure { kdc with
    principals := (name ++ '@' :: realm,
      ⟨⟨⟨nameType, components⟩, realm⟩, ⟨etype, keyvalue⟩, realm ++ name, etype⟩) ::
        kdc.principals }

def addPrincipal (name : List Char) := register env kdc [name] ntPrincipal name

def addService (service : List Char) := register env kdc (service.splitOn '/') ntSrvInst service

def lookup (p : Principal) : Option PrincipalEntry := kdc.principals.lookup p.toText

/-! ## Requests -/

def clockSkew : ℕ := 5 * 60
def defaultLifetime : ℕ := 10 * 3600

def okOr {α : Type} (x : Option α) (e : Error) : Answer α := x.elim (.error (.error e)) .ok

def findPa (padata : Option (List PaData)) (type : ℤ) : Answer Bytes :=
  okOr ((padata.bind (·.find? (·.padataType = type))).map (·.padataValue)) .preauthRequired

def checkSkew (time now : ℕ) : Answer Unit :=
  if now + clockSkew < time ∨ time + clockSkew < now then .error (.error .preauthRequired)
  else .ok ()

def asReq (confounders : Confounders) (now now' : ℕ) (req : KdcReq) : Answer KdcRep := do
  if req.pvno ≠ 5 then .error (.error (.unexpected "bad pvno")) else
  let cname ← okOr req.reqBody.cname (.missingField "AS-REQ cname")
  let crealm := req.reqBody.realm
  let entry ← okOr (lookup kdc ⟨cname, crealm⟩)
    (.principal ("unknown client ".toList ++ Principal.toText ⟨cname, crealm⟩))
  let enct ← enctypeFromEtype entry.etype
  let value ← findPa req.padata 2
  let enc ← okOr (env.decodeEncryptedData value) .preauthRequired
  let plain ← env.decrypt enct entry.key.keyvalue 1 enc.cipher
  let ts ← env.decodePaEncTsEnc plain
  checkSkew ts now
  let session ← env.randomSessionKey entry.etype
  let krbtgt ← okOr kdc.krbtgt (.constraint "no krbtgt key")
  let krbtgtEnct ← enctypeFromEtype krbtgt.etype
  let flags := 2 ^ 22 + 2 ^ 21 + 2 ^ 23
  let sname : PrincipalName := ⟨ntSrvInst, ["krbtgt".toList, crealm]⟩
  let ticketEnc := (env.suite krbtgtEnct krbtgt.key.keyvalue).encrypt 2 confounders.ticket
    (env.encodeEncTicketPart ⟨flags, session, crealm, cname, now', some now',
      now' + defaultLifetime, some (now' + defaultLifetime)⟩)
  let encPart := (env.suite enct entry.key.keyvalue).encrypt 3 confounders.encPart
    (env.encodeEncKdcRepPart ⟨session, req.reqBody.nonce, flags, now', some now',
      now' + defaultLifetime, some (now' + defaultLifetime), crealm, sname⟩)
  .ok ⟨11, crealm, cname, ⟨crealm, sname, ⟨krbtgtEnct, some 1, ticketEnc⟩⟩, ⟨enct, none, encPart⟩⟩

def tgsReq (confounders : Confounders) (now now' : ℕ) (req : KdcReq) : Answer KdcRep := do
  let crealm := req.reqBody.realm
  let sname ← okOr req.reqBody.sname (.missingField "TGS-REQ sname")
  let value ← findPa req.padata 1
  let ap ← env.decodeApReq value
  let krbtgt ← okOr kdc.krbtgt (.constraint "no krbtgt key")
  let krbtgtEnct ← enctypeFromEtype krbtgt.etype
  let tgtPlain ← env.decrypt krbtgtEnct krbtgt.key.keyvalue 2 ap.ticket.encPart.cipher
  let etp ← env.decodeEncTicketPart tgtPlain
  if etp.crealm ≠ crealm then .error (.error (.unexpected "TGT realm mismatch")) else
  if etp.endtime < now then .error (.error (.krbError 41 (some "TGT expired"))) else
  let sessionEnct ← enctypeFromEtype etp.key.keytype
  let authPlain ← env.decrypt sessionEnct etp.key.keyvalue 7 ap.authenticator.cipher
  let auth ← env.decodeAuthenticator authPlain
  checkSkew auth.ctime now
  if auth.cname ≠ etp.cname then .error (.error (.unexpected "authenticator/client mismatch")) else
  let service ← okOr (lookup kdc ⟨sname, crealm⟩)
    (.principal ("unknown service ".toList ++ Principal.toText ⟨sname, crealm⟩))
  let serviceEnct ← enctypeFromEtype service.etype
  let session ← env.randomSessionKey service.etype
  let flags := 2 ^ 30 + 2 ^ 23
  let ticketEnc := (env.suite serviceEnct service.key.keyvalue).encrypt 2 confounders.ticket
    (env.encodeEncTicketPart ⟨flags, session, etp.crealm, etp.cname, etp.authtime, some now',
      etp.endtime, etp.renewTill⟩)
  let encPart := (env.suite sessionEnct etp.key.keyvalue).encrypt 8 confounders.encPart
    (env.encodeEncKdcRepPart ⟨session, req.reqBody.nonce, flags, etp.authtime, some now',
      etp.endtime, etp.renewTill, crealm, sname⟩)
  .ok ⟨13, crealm, etp.cname, ⟨crealm, sname, ⟨serviceEnct, some 1, ticketEnc⟩⟩,
    ⟨sessionEnct, none, encPart⟩⟩

end Kdc

/-! ## The table -/

inductive Registered (env : Env) (krbtgt : Option PrincipalEntry) : MemoryKdc → Prop
  | new : Registered env krbtgt ⟨[], krbtgt⟩
  | add {kdc kdc' : MemoryKdc} (name realm password : List Char) (etype : ℕ)
      (h : Registered env krbtgt kdc)
      (hadd : addPrincipal env kdc name realm password etype = .ok kdc' ∨
        addService env kdc name realm password etype = .ok kdc') : Registered env krbtgt kdc'

variable {env : Env} {kdc kdc' : MemoryKdc} {req : KdcReq} {rep : KdcRep} {now now' : ℕ}
  {confounders : Confounders}

def MemoryKdc.Keyed (kdc : MemoryKdc) : Prop :=
  ∀ key entry, (key, entry) ∈ kdc.principals → key = entry.principal.toText

theorem MemoryKdc.Keyed.register {components : List (List Char)} {nameType : ℤ}
    {name realm password : List Char} {etype : ℕ} (h : kdc.Keyed)
    (hname : ['/'].intercalate components = name)
    (hadd : register env kdc components nameType name realm password etype = .ok kdc') :
    kdc'.Keyed := by
  obtain ⟨_, -, hadd⟩ := bind_eq_ok_iff.mp hadd
  obtain ⟨_, -, hadd⟩ := bind_eq_ok_iff.mp hadd
  cases hadd
  intro key entry hmem
  rcases mem_cons.mp hmem with heq | hmem
  · cases heq
    rw [Principal.toText, hname]
  · exact h key entry hmem

theorem Registered.keyed {krbtgt : Option PrincipalEntry} (h : Registered env krbtgt kdc) :
    kdc.Keyed := by
  induction h with
  | new => exact fun _ _ hmem => absurd hmem not_mem_nil
  | add _ _ _ _ _ hadd ih =>
    rcases hadd with hadd | hadd
    · exact ih.register (intercalate_singleton ..) hadd
    · exact ih.register (intercalate_splitOn '/') hadd

def Principal.Plain (p : Principal) : Prop :=
  p.name.nameString ≠ [] ∧ (∀ c ∈ p.name.nameString, '/' ∉ c ∧ '@' ∉ c) ∧ '@' ∉ p.realm

theorem Principal.Plain.toText_splitOn {p : Principal} (h : p.Plain) :
    p.toText.splitOn '@' = [['/'].intercalate p.name.nameString, p.realm] := by
  have hjoined : '@' ∉ ['/'].intercalate p.name.nameString := fun hmem => by
    rcases Text.mem_intercalate hmem with hslash | ⟨c, hc, hmem⟩
    · exact absurd hslash (by decide)
    · exact (h.2.1 c hc).2 hmem
  rw [← splitOn_intercalate '@' (by simpa using ⟨hjoined, h.2.2⟩) (cons_ne_nil _ _)]
  simp [Principal.toText]

theorem Principal.Plain.inj {p q : Principal} (hp : p.Plain) (hq : q.Plain)
    (h : p.toText = q.toText) : p.name.nameString = q.name.nameString ∧ p.realm = q.realm := by
  have hsplit := congrArg (splitOn '@') h
  rw [hp.toText_splitOn, hq.toText_splitOn] at hsplit
  obtain ⟨hname, hrealm⟩ : _ ∧ _ := by simpa using hsplit
  refine ⟨?_, hrealm⟩
  rw [← splitOn_intercalate '/' (fun c hc => (hp.2.1 c hc).1) hp.1, hname,
    splitOn_intercalate '/' (fun c hc => (hq.2.1 c hc).1) hq.1]

/-! ## Tickets -/

theorem okOr_eq_ok {α : Type} {x : Option α} {e : Error} {a : α} (h : okOr x e = .ok a) :
    x = some a := by
  cases x <;> cases h
  rfl

theorem enctypeFromEtype_eq_ok {etype enct : ℕ} (h : enctypeFromEtype etype = .ok enct) :
    enct = etype := by
  rw [enctypeFromEtype] at h
  split at h <;> cases h
  rfl

theorem checkSkew_eq_ok {time : ℕ} {u : Unit} (h : checkSkew time now = .ok u) :
    time ≤ now + clockSkew ∧ now ≤ time + clockSkew := by
  rw [checkSkew] at h
  split at h
  · cases h
  · omega

theorem Env.decrypt_eq_ok {etype : ℕ} {key cipher plain : Bytes} {usage : UInt32}
    (h : env.decrypt etype key usage cipher = .ok plain) :
    env.Sealed etype key usage plain cipher := by
  unfold Env.decrypt at h
  split at h <;> cases h
  exact Suite.exists_confounder ‹_›

/-- The ticket of the answer holds `etp` under the key of `entry`. -/
def Seals (env : Env) (entry : PrincipalEntry) (rep : KdcRep) (etp : EncTicketPart) : Prop :=
  env.Sealed entry.etype entry.key.keyvalue 2 (env.encodeEncTicketPart etp)
    rep.ticket.encPart.cipher

/-- What an AS answer rests on: the entry found for the requested name, a timestamp within the
skew sealed under its key, and the ticket that is issued. -/
structure AsIssued (env : Env) (kdc : MemoryKdc) (now : ℕ) (req : KdcReq) (rep : KdcRep)
    (entry : PrincipalEntry) (etp : EncTicketPart) : Prop where
  found : req.reqBody.cname = some etp.cname ∧ req.reqBody.realm = etp.crealm ∧
    lookup kdc ⟨etp.cname, etp.crealm⟩ = some entry
  opened : ∃ value enc plain ts, findPa req.padata 2 = .ok value ∧
    env.decodeEncryptedData value = some enc ∧
    env.Sealed entry.etype entry.key.keyvalue 1 plain enc.cipher ∧
    env.decodePaEncTsEnc plain = .ok ts ∧ ts ≤ now + clockSkew ∧ now ≤ ts + clockSkew
  sealed : ∃ krbtgt, kdc.krbtgt = some krbtgt ∧ Seals env krbtgt rep etp

theorem asReq_eq_ok (h : asReq env kdc confounders now now' req = .ok rep) :
    ∃ entry etp, AsIssued env kdc now req rep entry etp := by
  rw [asReq] at h
  split at h
  · cases h
  simp only [bind_eq_ok_iff] at h
  obtain ⟨cname, hcname, entry, hentry, enct, henct, value, hvalue, enc, henc, plain, hplain, ts,
    hts, _, hskew, session, -, krbtgt, hkrbtgt, krbtgtEnct, hkrbtgtEnct, hrep⟩ := h
  cases hrep
  cases enctypeFromEtype_eq_ok henct
  cases enctypeFromEtype_eq_ok hkrbtgtEnct
  exact ⟨entry, _, ⟨okOr_eq_ok hcname, rfl, okOr_eq_ok hentry⟩,
    ⟨value, enc, plain, ts, hvalue, okOr_eq_ok henc, env.decrypt_eq_ok hplain, hts,
      checkSkew_eq_ok hskew⟩, krbtgt, okOr_eq_ok hkrbtgt, confounders.ticket, rfl⟩

/-- What a TGS answer rests on: a ticket sealed under the `krbtgt` key, an authenticator sealed
under the session key of that ticket, and the service ticket that is issued. -/
structure TgsIssued (env : Env) (kdc : MemoryKdc) (now : ℕ) (req : KdcReq) (rep : KdcRep)
    (tgt : EncTicketPart) (auth : Authenticator) (etp : EncTicketPart) : Prop where
  opened : ∃ value ap krbtgt tgtPlain authPlain, findPa req.padata 1 = .ok value ∧
    env.decodeApReq value = .ok ap ∧ kdc.krbtgt = some krbtgt ∧
    env.Sealed krbtgt.etype krbtgt.key.keyvalue 2 tgtPlain ap.ticket.encPart.cipher ∧
    env.decodeEncTicketPart tgtPlain = .ok tgt ∧
    env.Sealed tgt.key.keytype tgt.key.keyvalue 7 authPlain ap.authenticator.cipher ∧
    env.decodeAuthenticator authPlain = .ok auth
  unexpired : now ≤ tgt.endtime
  timely : auth.ctime ≤ now + clockSkew ∧ now ≤ auth.ctime + clockSkew
  client : auth.cname = tgt.cname ∧ req.reqBody.realm = tgt.crealm
  sealed : ∃ service, lookup kdc ⟨rep.ticket.sname, tgt.crealm⟩ = some service ∧
    Seals env service rep etp
  carried : etp.cname = tgt.cname ∧ etp.crealm = tgt.crealm ∧ etp.endtime = tgt.endtime
  service : req.reqBody.sname = some rep.ticket.sname

theorem tgsReq_eq_ok (h : tgsReq env kdc confounders now now' req = .ok rep) :
    ∃ tgt auth etp, TgsIssued env kdc now req rep tgt auth etp := by
  simp only [tgsReq, bind_eq_ok_iff] at h
  obtain ⟨sname, hsname, value, hvalue, ap, hap, krbtgt, hkrbtgt, krbtgtEnct, hkrbtgtEnct,
    tgtPlain, htgtPlain, tgt, htgt, h⟩ := h
  split at h
  · cases h
  split at h
  · cases h
  rename_i hrealm hexpired
  simp only [bind_eq_ok_iff] at h
  obtain ⟨sessionEnct, hsessionEnct, authPlain, hauthPlain, auth, hauth, _, hskew, h⟩ := h
  split at h
  · cases h
  rename_i hcname
  simp only [bind_eq_ok_iff] at h
  obtain ⟨service, hservice, _, hserviceEnct, session, -, hrep⟩ := h
  cases hrep
  cases enctypeFromEtype_eq_ok hkrbtgtEnct
  cases enctypeFromEtype_eq_ok hsessionEnct
  cases enctypeFromEtype_eq_ok hserviceEnct
  have hrealm := not_not.mp hrealm
  exact ⟨tgt, auth, _, ⟨value, ap, krbtgt, tgtPlain, authPlain, hvalue, hap, okOr_eq_ok hkrbtgt,
    env.decrypt_eq_ok htgtPlain, htgt, env.decrypt_eq_ok hauthPlain, hauth⟩, not_lt.mp hexpired,
    checkSkew_eq_ok hskew, ⟨not_not.mp hcname, hrealm.symm⟩,
    ⟨service, by rw [hrealm]; exact okOr_eq_ok hservice, confounders.ticket, rfl⟩, ⟨rfl, rfl, rfl⟩,
    okOr_eq_ok hsname⟩

theorem lookup_registered {krbtgt : Option PrincipalEntry} {p : Principal} {entry : PrincipalEntry}
    (hkdc : Registered env krbtgt kdc) (h : lookup kdc p = some entry)
    (hplain : p.Plain) (hentry : entry.principal.Plain) :
    entry.principal.name.nameString = p.name.nameString ∧ entry.principal.realm = p.realm := by
  obtain ⟨before, after, hprincipals, -⟩ := lookup_eq_some_iff.mp h
  refine hentry.inj hplain (hkdc.keyed p.toText entry ?_).symm
  rw [hprincipals]
  simp

/-- **What issued tickets rest on.**  A ticket-granting ticket is issued on a timestamp sealed under
the key of the entry that is found, and is for the principal that the key was registered for if
the texts of both can be taken apart; a service ticket is issued on a ticket and an authenticator
that were sealed; and the authenticator's realm and checksum and the requested end time are not
read. -/
theorem issued_to_authenticated {krbtgt : Option PrincipalEntry}
    (hkdc : Registered env krbtgt kdc) (confounders : Confounders) (now now' : ℕ) (req : KdcReq) :
    (∀ rep, asReq env kdc confounders now now' req = .ok rep →
      ∃ entry etp, AsIssued env kdc now req rep entry etp ∧
        (Principal.Plain ⟨etp.cname, etp.crealm⟩ → entry.principal.Plain →
          entry.principal.name.nameString = etp.cname.nameString ∧
            entry.principal.realm = etp.crealm)) ∧
    (∀ rep, tgsReq env kdc confounders now now' req = .ok rep →
      ∃ tgt auth etp, TgsIssued env kdc now req rep tgt auth etp) ∧
    ∀ crealm checksum till,
      tgsReq { env with decodeAuthenticator := fun bytes =>
          (fun auth => { auth with crealm, checksum }) <$> env.decodeAuthenticator bytes }
        kdc confounders now now' { req with reqBody := { req.reqBody with till } } =
      tgsReq env kdc confounders now now' req := by
  refine ⟨fun rep h => ?_, fun rep h => tgsReq_eq_ok h, fun crealm checksum till => ?_⟩
  · obtain ⟨entry, etp, hissued⟩ := asReq_eq_ok h
    exact ⟨entry, etp, hissued, lookup_registered hkdc hissued.found.2.2⟩
  · simp only [tgsReq, bind_map_left]
    rfl

/-! ## Tickets of two parties -/

theorem length_id_block : ∀ b : Bytes, b.length = 16 → (id b).length = 16 := fun _ h => h

theorem id_id_block : ∀ b : Bytes, b.length = 16 → id (id b) = b := fun _ _ => rfl

/-- Checksums that show the key and the usage over the identity as block cipher, and codecs that
read times off bytes. -/
def Env.labelled : Env where
  randomSessionKey etype := .ok ⟨etype, [9]⟩
  string2key _ password _ := .ok [UInt8.ofNat password.length]
  suite _ key := ⟨12, false, fun _ => ⟨id, id, length_id_block, id_id_block⟩,
    fun usage data => padTo 12 (key ++ u32Bytes usage ++ data)⟩
  decodeEncryptedData bytes := some ⟨18, none, bytes⟩
  decodePaEncTsEnc bytes := .ok (beNat bytes)
  decodeApReq bytes := .ok ⟨⟨[], ⟨0, []⟩, ⟨18, none, bytes.take 29⟩⟩, ⟨18, none, bytes.drop 29⟩⟩
  decodeEncTicketPart bytes :=
    .ok ⟨0, ⟨18, [9]⟩, "R".toList, ⟨ntPrincipal, ["a".toList]⟩, 0, none, beNat bytes, none⟩
  decodeAuthenticator bytes :=
    .ok ⟨"R".toList, ⟨ntPrincipal, ["a".toList]⟩, none, beNat bytes⟩
  encodeEncTicketPart etp := [UInt8.ofNat etp.endtime]
  encodeEncKdcRepPart part := [UInt8.ofNat part.endtime]

def sealUp (key : Bytes) (usage : UInt32) (plain : Bytes) : Bytes :=
  (Env.labelled.suite 18 key).encrypt usage (.replicate 16 5) plain

def sampleConfounders : Confounders := ⟨.replicate 16 1, .replicate 16 2⟩

/-- The `krbtgt` entry and one user, whose password has three characters. -/
def kdcOf (name : String) : MemoryKdc :=
  let name := name.toList
  let realm := "R".toList
  ⟨[(name ++ '@' :: realm, ⟨⟨⟨ntPrincipal, [name]⟩, realm⟩, ⟨18, [3]⟩, realm ++ name, 18⟩)],
    some ⟨⟨⟨ntSrvInst, ["krbtgt".toList, realm]⟩, realm⟩, ⟨18, [7]⟩, [], 18⟩⟩

theorem registered_kdcOf (name : String) : Registered .labelled (kdcOf name).krbtgt (kdcOf name) :=
  .add name.toList "R".toList "pwd".toList 18 .new (.inl rfl)

def asReqOf (cname : List String) : KdcReq :=
  ⟨5, some [⟨2, sealUp [3] 1 [60]⟩],
    ⟨some ⟨ntPrincipal, cname.map String.toList⟩, "R".toList, none, 0, 0⟩⟩

def tgsReqSample : KdcReq :=
  ⟨5, some [⟨1, sealUp [7] 2 [99] ++ sealUp [9] 7 [60]⟩],
    ⟨none, "R".toList, some ⟨ntPrincipal, ["a".toList]⟩, 0, 0⟩⟩

theorem exists_ok_of_map {α β : Type} {x : Answer α} {f : α → β} {b : β}
    (h : x.toOption.map f = some b) : ∃ a, x = .ok a ∧ f a = b := by
  cases x with
  | error e => cases h
  | ok a => exact ⟨a, rfl, Option.some.inj h⟩

/-- The user `a` gets a ticket-granting ticket in their own name, and with a ticket that expires
at 99 a service ticket. -/
theorem issued_to_sample :
    (∃ rep entry etp, asReq .labelled (kdcOf "a") sampleConfounders 0 0 (asReqOf ["a"]) = .ok rep ∧
      AsIssued .labelled (kdcOf "a") 0 (asReqOf ["a"]) rep entry etp ∧
      entry.principal.name.nameString = etp.cname.nameString) ∧
    ∃ rep tgt auth etp, tgsReq .labelled (kdcOf "a") sampleConfounders 0 0 tgsReqSample = .ok rep ∧
      TgsIssued .labelled (kdcOf "a") 0 tgsReqSample rep tgt auth etp := by
  constructor
  · obtain ⟨rep, hrep, -⟩ := exists_ok_of_map (f := (·.msgType)) (b := 11) (show
      (asReq .labelled (kdcOf "a") sampleConfounders 0 0 (asReqOf ["a"])).toOption.map _ = _ by
        decide +kernel)
    obtain ⟨entry, etp, hissued, hname⟩ := (issued_to_authenticated (registered_kdcOf "a")
      sampleConfounders 0 0 (asReqOf ["a"])).1 rep hrep
    refine ⟨rep, entry, etp, hrep, hissued, (hname ?_ ?_).1⟩
    · obtain ⟨hcname, hcrealm, -⟩ := hissued.found
      rw [← Option.some.inj hcname, ← hcrealm]
      exact ⟨by decide, by decide, by decide⟩
    · obtain ⟨hcname, hcrealm, hfound⟩ := hissued.found
      rw [← Option.some.inj hcname, ← hcrealm] at hfound
      cases hfound
      exact ⟨by decide, by decide, by decide⟩
  · obtain ⟨rep, hrep, -⟩ := exists_ok_of_map (f := (·.msgType)) (b := 13) (show
      (tgsReq .labelled (kdcOf "a") sampleConfounders 0 0 tgsReqSample).toOption.map _ = _ by
        decide +kernel)
    obtain ⟨tgt, auth, etp, hissued⟩ := (issued_to_authenticated (registered_kdcOf "a")
      sampleConfounders 0 0 tgsReqSample).2.1 rep hrep
    exact ⟨rep, tgt, auth, etp, hrep, hissued⟩

/-- A ticket in the name of two components for the key of the user `a/b`. -/
theorem ticket_for_other_name : Registered .labelled (kdcOf "a/b").krbtgt (kdcOf "a/b") ∧
      (asReq .labelled (kdcOf "a/b") sampleConfounders 0 0 (asReqOf ["a", "b"])).toOption.map
          (fun rep => (rep.cname.nameString,
            (lookup (kdcOf "a/b") ⟨rep.cname, rep.crealm⟩).map (·.principal.name.nameString))) =
        some (["a".toList, "b".toList], some ["a/b".toList]) :=
  ⟨registered_kdcOf "a/b", by decide +kernel⟩

end TptRfc.Kerberos
