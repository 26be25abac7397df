import TptRfc.Doh.Names

/-!
# DNS over HTTPS: compressed names

What `Message::from_bytes` makes of the encodings of a message that differ in how names are
compressed.
-/

namespace TptRfc.Doh

open Lib Access List

/-! ## Encodings of names -/

structure Name where
  labels : List Bytes
  short : ∀ l ∈ labels, l ≠ [] ∧ l.length ≤ 63
  fits : (labels.map (·.length + 1)).sum + 1 ≤ 255

def Name.text (name : Name) : List Char := joinLabels (name.labels.map labelText)

/-- Labels are encoded at `pos`, and what follows starts at `stop`. -/
inductive NameAt (data : Bytes) : ℕ → List Bytes → ℕ → ℕ → Bool → Prop
  | root {pos rest} (h : data.drop pos = 0 :: rest) : NameAt data pos [] (pos + 1) 1 false
  | label {pos label labels stop rounds jumps rest} (hne : label ≠ []) (hle : label.length ≤ 63)
      (h : data.drop pos = UInt8.ofNat label.length :: (label ++ rest))
      (hrest : NameAt data (pos + 1 + label.length) labels stop rounds jumps) :
      NameAt data pos (label :: labels) stop (rounds + 1) jumps
  | pointer {pos ptr labels stop rounds jumps rest} (hptr : ptr < pos) (hle : ptr < 2 ^ 14)
      (h : data.drop pos = UInt8.ofNat (192 + ptr / 256) :: UInt8.ofNat (ptr % 256) :: rest)
      (hrest : NameAt data ptr labels stop rounds jumps) :
      NameAt data pos labels (pos + 2) (rounds + 1) true

section NameAt

variable {data : Bytes} {pos stop rounds : ℕ} {labels : List Bytes} {jumps : Bool}

theorem NameAt.lt (h : NameAt data pos labels stop rounds jumps) :
    pos < stop ∧ stop ≤ data.length ∧ 0 < rounds := by
  induction h with
  | @root pos rest h =>
    obtain ⟨hpos, -, hlen⟩ := lt_of_drop h
    omega
  | @label pos label labels stop rounds jumps rest _ _ _ _ ih => omega
  | @pointer pos ptr labels stop rounds jumps rest _ _ h _ _ =>
    obtain ⟨hpos, -, hlen⟩ := lt_of_drop h
    rw [length_cons] at hlen
    omega

theorem NameAt.rounds_eq (h : NameAt data pos labels stop rounds false) :
    rounds = labels.length + 1 := by
  generalize hj : false = j at h
  induction h with
  | root => rfl
  | label _ _ _ _ ih => rw [ih hj, length_cons]
  | pointer => cases hj

theorem readLabels_nameAt {start n : ℕ} {jumped : Bool} {acc : List (List Char)}
    (h : NameAt data pos labels stop rounds jumps) (hstart : jumped = false → start ≤ pos) :
    readLabels data start n pos jumped acc =
      if rounds ≤ n then
        .ok (joinLabels (acc ++ labels.map labelText), if jumped || jumps then 2 else stop - start)
      else .error (.error .nameTooLong) := by
  induction h generalizing n jumped acc with
  | root h =>
    cases n with
    | zero => rfl
    | succ n =>
      rw [readLabels_root h hstart, map_nil, append_nil, Bool.or_false]
      exact (if_pos (Nat.le_add_left 1 n)).symm
  | @label pos label labels stop rounds jumps rest hne hle h _ ih =>
    cases n with
    | zero => rfl
    | succ n =>
      rw [readLabels_label h
        (by rw [UInt8.toNat_ofNat', Nat.mod_eq_of_lt (by omega)]) hne (by omega),
        ih (fun hj => by have := hstart hj; omega), map_cons, append_assoc]
      simp only [Nat.add_le_add_iff_right, singleton_append]
  | @pointer pos ptr labels stop rounds jumps rest hptr hle h _ ih =>
    cases n with
    | zero => rfl
    | succ n =>
      have hhigh : (UInt8.ofNat (192 + ptr / 256)).toNat = 192 + ptr / 256 := by
        rw [UInt8.toNat_ofNat', Nat.mod_eq_of_lt (by omega)]
      have hlow : (UInt8.ofNat (ptr % 256)).toNat = ptr % 256 := by
        rw [UInt8.toNat_ofNat', Nat.mod_eq_of_lt (by omega)]
      rw [readLabels_pointer h (by omega), hhigh, hlow,
        show (192 + ptr / 256 - 192) * 256 + ptr % 256 = ptr by omega, @ih n true acc nofun]
      simp only [Nat.add_le_add_iff_right, Bool.true_or, Bool.or_true, if_true]

theorem readName_nameAt_iff (h : NameAt data pos labels stop rounds jumps) :
    readName data pos = .ok (joinLabels (labels.map labelText), stop - pos) ↔
      rounds ≤ 256 ∧ (jumps = true → stop = pos + 2) := by
  have hlt := h.lt
  rw [readName, readLabels_nameAt h fun _ => le_rfl, nil_append, Bool.false_or]
  split_ifs with hn hjumps
  · simp only [Except.ok.injEq, Prod.mk.injEq, true_and, hn, hjumps, forall_const]
    omega
  · simp [hn, hjumps]
  · exact iff_of_false nofun fun hle => hn hle.1

theorem NameAt.slice {p : ℕ} (h : NameAt data pos labels stop rounds false) (hp : p ≤ pos) :
    NameAt ((data.take stop).drop p) (pos - p) labels (stop - p) rounds false := by
  generalize hj : false = j at h ⊢
  have hdrop : ∀ q, p ≤ q → ((data.take stop).drop p).drop (q - p) =
      (data.drop q).take (stop - q) := by
    intro q hq
    rw [drop_drop, Nat.add_sub_cancel' hq, drop_take]
  induction h with
  | @root pos rest h =>
    have := @NameAt.root ((data.take (pos + 1)).drop p) (pos - p) [] (by
      rw [hdrop pos hp, h, Nat.add_sub_cancel_left]
      rfl)
    rwa [show pos - p + 1 = pos + 1 - p by omega] at this
  | @label pos label labels stop rounds jumps rest hne hle h hrest ih =>
    have hstop := hrest.lt.1
    have ih := ih (by omega) hj hdrop
    rw [show pos + 1 + label.length - p = pos - p + 1 + label.length by omega] at ih
    have hlabel : ((data.take stop).drop p).drop (pos - p) = UInt8.ofNat label.length ::
        (label ++ rest.take (stop - pos - 1 - label.length)) := by
      rw [hdrop pos hp, h, show stop - pos = (stop - pos - 1) + 1 by omega, take_succ_cons,
        take_append, take_of_length_le (by omega), Nat.add_sub_cancel]
    exact .label hne hle hlabel ih
  | pointer => cases hj

end NameAt

abbrev NameForm := ℕ → Name → ℕ → Prop

def Encoded (data : Bytes) : NameForm := fun pos name stop =>
  ∃ rounds jumps, NameAt data pos name.labels stop rounds jumps

def Plain (data : Bytes) : NameForm := fun pos name stop =>
  ∃ rounds, NameAt data pos name.labels stop rounds false

def Readable (data : Bytes) : NameForm := fun pos name stop =>
  ∃ rounds jumps, NameAt data pos name.labels stop rounds jumps ∧ rounds ≤ 256 ∧
    (jumps = true → stop = pos + 2)

theorem Name.length_labels_le (name : Name) : name.labels.length ≤ 254 := by
  have h : ∀ labels : List Bytes, labels.length ≤ (labels.map (·.length + 1)).sum := by
    intro labels
    induction labels with
    | nil => exact le_rfl
    | cons l labels ih =>
      rw [map_cons, sum_cons, length_cons]
      omega
  have := h name.labels
  have := name.fits
  omega

variable {data : Bytes} {name : Name} {m : MessageSpec}

theorem Plain.readable {pos stop : ℕ} (h : Plain data pos name stop) :
    Readable data pos name stop := by
  obtain ⟨rounds, h⟩ := h
  have hrounds := h.rounds_eq
  have hle := name.length_labels_le
  exact ⟨rounds, false, h, by omega, nofun⟩

theorem Readable.readName {pos stop : ℕ} (h : Readable data pos name stop) :
    readName data pos = .ok (name.text, stop - pos) ∧ pos < stop := by
  obtain ⟨rounds, jumps, h, hcond⟩ := h
  exact ⟨(readName_nameAt_iff h).mpr hcond, h.lt.1⟩

/-! ## Encodings of messages -/

inductive RDataSpec where
  | name (name : Name)
  | mx (preference : UInt16) (exchange : Name)
  | raw (data : Bytes)

def RDataSpec.HasType : RDataSpec → UInt16 → Prop
  | .name _, rtype => rtype = 5 ∨ rtype = 2 ∨ rtype = 12
  | .mx _ _, rtype => rtype = 15
  | .raw _, rtype => rtype ≠ 5 ∧ rtype ≠ 2 ∧ rtype ≠ 12 ∧ rtype ≠ 15

structure RecordSpec where
  owner : Name
  rtype : UInt16
  rclass : UInt16
  ttl : UInt32
  rdata : RDataSpec
  hasType : rdata.HasType rtype

structure QuestionSpec where
  name : Name
  qtype : UInt16
  qclass : UInt16

structure MessageSpec where
  id : UInt16
  flags : UInt16
  questions : List QuestionSpec
  answers : List RecordSpec
  authorities : List RecordSpec
  additionals : List RecordSpec
  counts : questions.length < 2 ^ 16 ∧ answers.length < 2 ^ 16 ∧ authorities.length < 2 ^ 16 ∧
    additionals.length < 2 ^ 16

section Forms

variable (top inner : NameForm) (data : Bytes)

def RDataAt (pos : ℕ) (stop : ℕ) : RDataSpec → Prop
  | .name target => inner pos target stop
  | .mx preference exchange => (∃ rest, data.drop pos = u16Bytes preference ++ rest) ∧
      inner (pos + 2) exchange stop
  | .raw bytes => (∃ rest, data.drop pos = bytes ++ rest) ∧ stop = pos + bytes.length

def RecordAt (pos : ℕ) (r : RecordSpec) (stop : ℕ) : Prop :=
  ∃ p rest, top pos r.owner p ∧ p + 10 ≤ stop ∧ stop - (p + 10) < 2 ^ 16 ∧
    data.drop p = u16Bytes r.rtype ++ (u16Bytes r.rclass ++ (u32Bytes r.ttl ++
      (u16Bytes (UInt16.ofNat (stop - (p + 10))) ++ rest))) ∧ stop ≤ data.length ∧
    RDataAt inner data (p + 10) stop r.rdata

def QuestionAt (pos : ℕ) (q : QuestionSpec) (stop : ℕ) : Prop :=
  ∃ p rest, top pos q.name p ∧ stop = p + 4 ∧
    data.drop p = u16Bytes q.qtype ++ (u16Bytes q.qclass ++ rest)

inductive ManyAt {α : Type} (At : ℕ → α → ℕ → Prop) : ℕ → List α → ℕ → Prop
  | nil {pos} : ManyAt At pos [] pos
  | cons {pos p stop a as} (h : At pos a p) (hrest : ManyAt At p as stop) :
      ManyAt At pos (a :: as) stop

def MessageAt (m : MessageSpec) : Prop :=
  (∃ rest, data = u16Bytes m.id ++ (u16Bytes m.flags ++
    (u16Bytes (UInt16.ofNat m.questions.length) ++ (u16Bytes (UInt16.ofNat m.answers.length) ++
      (u16Bytes (UInt16.ofNat m.authorities.length) ++
        (u16Bytes (UInt16.ofNat m.additionals.length) ++ rest)))))) ∧
  ∃ p₁ p₂ p₃ p₄, ManyAt (QuestionAt top data) 12 m.questions p₁ ∧
    ManyAt (RecordAt top inner data) p₁ m.answers p₂ ∧
    ManyAt (RecordAt top inner data) p₂ m.authorities p₃ ∧
    ManyAt (RecordAt top inner data) p₃ m.additionals p₄

end Forms

/-! ## What is read -/

def RDataSpec.view (rtype : UInt16) : RDataSpec → Decoded RData
  | .name target => .ok (if rtype = 5 then .cname target.text else if rtype = 2 then
      .ns target.text else .ptr target.text)
  | .mx preference exchange => .ok (.mx preference exchange.text)
  | .raw data => parseRdata rtype data

def RecordSpec.view (r : RecordSpec) : Decoded Record :=
  (r.rdata.view r.rtype).map fun rdata => ⟨r.owner.text, r.rtype, r.rclass, r.ttl, rdata⟩

def QuestionSpec.view (q : QuestionSpec) : Decoded Question := .ok ⟨q.name.text, q.qtype, q.qclass⟩

def viewMany {α β : Type} (view : α → Decoded β) : List α → Decoded (List β)
  | [] => .ok []
  | a :: as => do
    let b ← view a
    let bs ← viewMany view as
    pure (b :: bs)

def MessageSpec.view (m : MessageSpec) : Decoded Message := do
  let questions ← viewMany QuestionSpec.view m.questions
  let answers ← viewMany RecordSpec.view m.answers
  let authorities ← viewMany RecordSpec.view m.authorities
  let additionals ← viewMany RecordSpec.view m.additionals
  pure ⟨m.id, .fromU16 m.flags, questions, answers, authorities, additionals⟩

theorem readMany_manyAt {α β : Type} {At : ℕ → α → ℕ → Prop} {read : ℕ → Decoded (β × ℕ)}
    {view : α → Decoded β} (hread : ∀ pos a stop, At pos a stop → read pos = (view a).map (·, stop))
    {pos stop : ℕ} {as : List α} (h : ManyAt At pos as stop) :
    readMany read as.length pos = (viewMany view as).map (·, stop) := by
  induction h with
  | nil => rfl
  | @cons pos p stop a as ha _ ih =>
    rw [length_cons, readMany, viewMany, hread pos a p ha]
    cases view a with
    | error e => rfl
    | ok b =>
      change (readMany read as.length p >>= _) = _
      rw [ih]
      cases viewMany view as <;> rfl

section Read

variable {data : Bytes} {pos stop : ℕ}

theorem getD_of_drop {pos : ℕ} {pre rest : Bytes} (h : data.drop pos = pre ++ rest) (j : ℕ) :
    data.getD (pos + pre.length + j) 0 = rest.getD j 0 := by
  have hget : (pre ++ rest).getD (pre.length + j) 0 = _ := getD_append
  rwa [← h, getD_eq_getElem?_getD, getElem?_drop, ← Nat.add_assoc, ← getD_eq_getElem?_getD] at hget

theorem getU16_of_drop {pos : ℕ} {v : UInt16} (pre : Bytes) {rest : Bytes}
    (h : data.drop pos = pre ++ (u16Bytes v ++ rest)) : getU16 data (pos + pre.length) = v := by
  have h0 := getD_of_drop h 0
  rw [Nat.add_zero] at h0
  rw [getU16, h0, getD_of_drop h 1]
  exact ofNat_beNat_u16Bytes v

theorem u32At_of_drop {pos : ℕ} {v : UInt32} (pre : Bytes) {rest : Bytes}
    (h : data.drop pos = pre ++ (u32Bytes v ++ rest)) : u32At data (pos + pre.length) = .ok v := by
  have hlen := congrArg List.length h
  simp only [length_drop, length_append, length_u32Bytes] at hlen
  have h0 := getD_of_drop h 0
  rw [Nat.add_zero] at h0
  rw [u32At_of_lt (by omega), h0, getD_of_drop h 1, getD_of_drop h 2, getD_of_drop h 3]
  exact congrArg Except.ok (ofNat_beNat_u32Bytes v)

theorem readName_slice {p pos stop : ℕ} {name : Name} (h : Plain data pos name stop)
    (hp : p ≤ pos) :
    readName ((data.take stop).drop p) (pos - p) = .ok (name.text, stop - p - (pos - p)) := by
  obtain ⟨rounds, h⟩ := h
  exact (Readable.readName (Plain.readable ⟨rounds, h.slice hp⟩)).1

theorem parseRdata_of_plain {rtype : UInt16} {spec : RDataSpec}
    (htype : spec.HasType rtype) (h : RDataAt (Plain data) data pos stop spec) :
    parseRdata rtype ((data.take stop).drop pos) = spec.view rtype := by
  cases spec with
  | name target =>
    have hname := readName_slice h le_rfl
    rw [Nat.sub_self] at hname
    have h1 : rtype ≠ 1 := by rcases htype with rfl | rfl | rfl <;> decide
    have h28 : rtype ≠ 28 := by rcases htype with rfl | rfl | rfl <;> decide
    rw [parseRdata, if_neg h1, if_neg h28,
      if_pos (show rtype = 5 ∨ rtype = 2 ∨ rtype = 12 from htype), hname]
    rfl
  | mx preference exchange =>
    obtain ⟨⟨rest, hpref⟩, hname⟩ := h
    obtain rfl : rtype = 15 := htype
    have hread := readName_slice hname (Nat.le_add_right pos 2)
    rw [Nat.add_sub_cancel_left] at hread
    have hstop := hname.readable.readName.2
    have hle : stop ≤ data.length := by
      obtain ⟨rounds, hat⟩ := hname
      exact hat.lt.2.1
    have hlen : ((data.take stop).drop pos).length = stop - pos := by
      rw [length_drop, length_take]
      omega
    have hdrop : ((data.take stop).drop pos).drop 0 =
        [] ++ (u16Bytes preference ++ rest.take (stop - pos - 2)) := by
      rw [drop_zero, drop_take, hpref, take_append, take_of_length_le
        (by rw [length_u16Bytes]; omega), length_u16Bytes]
      rfl
    have hvalue := getU16_of_drop [] hdrop
    rw [parseRdata, if_neg (by decide), if_neg (by decide), if_neg (by decide), if_pos rfl,
      if_neg (by omega), u16At_of_lt (by omega), ok_bind, hread, ok_bind]
    exact congrArg (fun v => Except.ok (RData.mx v exchange.text)) hvalue
  | raw bytes =>
    obtain ⟨⟨rest, hrest⟩, rfl⟩ := h
    rw [drop_take, hrest, Nat.add_sub_cancel_left, take_left]
    rfl

theorem readQuestion_of_readable {q : QuestionSpec}
    (h : QuestionAt (Readable data) data pos q stop) :
    readQuestion data pos = q.view.map (·, stop) := by
  obtain ⟨p, rest, hname, rfl, hdrop⟩ := h
  obtain ⟨hread, hlt⟩ := hname.readName
  have hlen := congrArg List.length hdrop
  simp only [length_drop, length_append, length_u16Bytes] at hlen
  have htype : getU16 data p = q.qtype := getU16_of_drop [] hdrop
  have hclass : getU16 data (p + 2) = q.qclass := getU16_of_drop (u16Bytes q.qtype) hdrop
  rw [readQuestion, hread, ok_bind]
  dsimp only
  rw [Nat.add_sub_cancel' hlt.le, if_neg (by omega), u16At_of_lt (by omega), ok_bind,
    u16At_of_lt (by omega), ok_bind, htype, hclass]
  rfl

theorem readRecord_of_readable {r : RecordSpec}
    (h : RecordAt (Readable data) (Plain data) data pos r stop) :
    readRecord data pos = r.view.map (·, stop) := by
  obtain ⟨p, rest, hname, hp, hsize, hdrop, hstop, hrdata⟩ := h
  obtain ⟨hread, hlt⟩ := hname.readName
  have htype : getU16 data p = r.rtype := getU16_of_drop [] hdrop
  have hclass : getU16 data (p + 2) = r.rclass := getU16_of_drop (u16Bytes r.rtype) hdrop
  have httl : u32At data (p + 4) = .ok r.ttl :=
    u32At_of_drop (u16Bytes r.rtype ++ u16Bytes r.rclass)
      (hdrop.trans (append_assoc _ _ _).symm)
  have hrdlen : getU16 data (p + 8) = UInt16.ofNat (stop - (p + 10)) :=
    getU16_of_drop (u16Bytes r.rtype ++ (u16Bytes r.rclass ++ u32Bytes r.ttl))
      (hdrop.trans (by rw [append_assoc, append_assoc]))
  have hvalue : (UInt16.ofNat (stop - (p + 10))).toNat = stop - (p + 10) := by
    rw [UInt16.toNat_ofNat', Nat.mod_eq_of_lt hsize]
  have hslice : (data.drop (p + 10)).take (stop - (p + 10)) = (data.take stop).drop (p + 10) := by
    rw [drop_take]
  rw [readRecord, hread, ok_bind]
  dsimp only
  rw [Nat.add_sub_cancel' hlt.le, if_neg (by omega), u16At_of_lt (by omega), ok_bind,
    u16At_of_lt (by omega), ok_bind, httl, ok_bind, u16At_of_lt (by omega), ok_bind, hrdlen, hvalue,
    Nat.add_sub_cancel' hp, if_neg (by omega), slice_of_le (by omega) hstop, ok_bind, hslice,
    htype, hclass, parseRdata_of_plain r.hasType hrdata, RecordSpec.view]
  cases r.rdata.view r.rtype <;> rfl

end Read

theorem fromBytes_of_readable
    (h : MessageAt (Readable data) (Plain data) data m) : Message.fromBytes data = m.view := by
  obtain ⟨⟨rest, hdata⟩, p₁, p₂, p₃, p₄, hquestions, hanswers, hauthorities, hadditionals⟩ := h
  obtain ⟨hq, ha, hn, hr⟩ := m.counts
  have hlen : 12 ≤ data.length := by
    rw [hdata]
    simp only [length_append, length_u16Bytes]
    omega
  have hheader : getU16 data 0 = m.id ∧ getU16 data 2 = m.flags ∧
      getU16 data 4 = UInt16.ofNat m.questions.length ∧
      getU16 data 6 = UInt16.ofNat m.answers.length ∧
      getU16 data 8 = UInt16.ofNat m.authorities.length ∧
      getU16 data 10 = UInt16.ofNat m.additionals.length := by
    rw [hdata]
    exact ⟨ofNat_beNat_u16Bytes _, ofNat_beNat_u16Bytes _, ofNat_beNat_u16Bytes _,
      ofNat_beNat_u16Bytes _, ofNat_beNat_u16Bytes _, ofNat_beNat_u16Bytes _⟩
  obtain ⟨h0, h2, h4, h6, h8, h10⟩ := hheader
  have hrecord : ∀ pos r stop, RecordAt (Readable data) (Plain data) data pos r stop →
      readRecord data pos = (RecordSpec.view r).map (·, stop) :=
    fun _ _ _ => readRecord_of_readable
  have hquestion : ∀ pos q stop, QuestionAt (Readable data) data pos q stop →
      readQuestion data pos = (QuestionSpec.view q).map (·, stop) :=
    fun _ _ _ => readQuestion_of_readable
  rw [fromBytes_of_le hlen, h0, h2, h4, h6, h8, h10]
  simp only [readRecords, UInt16.toNat_ofNat', Nat.mod_eq_of_lt hq, Nat.mod_eq_of_lt ha,
    Nat.mod_eq_of_lt hn, Nat.mod_eq_of_lt hr, MessageSpec.view,
    readMany_manyAt hquestion hquestions]
  cases viewMany QuestionSpec.view m.questions with
  | error e => rfl
  | ok questions =>
    simp only [Except.map, ok_bind, readMany_manyAt hrecord hanswers]
    cases viewMany RecordSpec.view m.answers with
    | error e => rfl
    | ok answers =>
      simp only [Except.map, ok_bind, readMany_manyAt hrecord hauthorities]
      cases viewMany RecordSpec.view m.authorities with
      | error e => rfl
      | ok authorities =>
        simp only [Except.map, ok_bind, readMany_manyAt hrecord hadditionals]
        cases viewMany RecordSpec.view m.additionals <;> rfl

/-! ## Both encodings -/

section Mono

variable {top top' inner : NameForm} {data : Bytes} (htop : ∀ pos name stop, top pos name stop →
  top' pos name stop)
include htop

theorem QuestionAt.mono {pos stop : ℕ} {q : QuestionSpec} (h : QuestionAt top data pos q stop) :
    QuestionAt top' data pos q stop := by
  obtain ⟨p, rest, hname, h⟩ := h
  exact ⟨p, rest, htop _ _ _ hname, h⟩

theorem RecordAt.mono {pos stop : ℕ} {r : RecordSpec} (h : RecordAt top inner data pos r stop) :
    RecordAt top' inner data pos r stop := by
  obtain ⟨p, rest, hname, h⟩ := h
  exact ⟨p, rest, htop _ _ _ hname, h⟩

end Mono

theorem ManyAt.mono {α : Type} {At At' : ℕ → α → ℕ → Prop}
    (hat : ∀ pos a stop, At pos a stop → At' pos a stop) {pos stop : ℕ} {as : List α}
    (h : ManyAt At pos as stop) : ManyAt At' pos as stop := by
  induction h with
  | nil => exact .nil
  | cons h _ ih => exact .cons (hat _ _ _ h) ih

theorem MessageAt.readable (h : MessageAt (Plain data) (Plain data) data m) :
    MessageAt (Readable data) (Plain data) data m := by
  obtain ⟨hheader, p₁, p₂, p₃, p₄, hquestions, hanswers, hauthorities, hadditionals⟩ := h
  have htop : ∀ pos name stop, Plain data pos name stop → Readable data pos name stop :=
    fun _ _ _ h => h.readable
  exact ⟨hheader, p₁, p₂, p₃, p₄, hquestions.mono fun _ _ _ => QuestionAt.mono htop,
    hanswers.mono fun _ _ _ => RecordAt.mono htop,
    hauthorities.mono fun _ _ _ => RecordAt.mono htop,
    hadditionals.mono fun _ _ _ => RecordAt.mono htop⟩

/-! ## A message with two questions -/

def nameA : Name := ⟨[[0x61]], by decide, by decide⟩

def nameBA : Name := ⟨[[0x62], [0x61]], by decide, by decide⟩

def twoQuestions (name : Name) : MessageSpec :=
  ⟨0, 0, [⟨nameA, 1, 1⟩, ⟨name, 1, 1⟩], [], [], [], by simp⟩

def twoBytes (second : Bytes) : Bytes :=
  [0, 0, 0, 0, 0, 2, 0, 0, 0, 0, 0, 0, 1, 0x61, 0, 0, 1, 0, 1] ++ (second ++ [0, 1, 0, 1])

theorem messageAt_twoBytes {top inner : NameForm} {second : Bytes}
    (hfirst : top 12 nameA 15) (hsecond : top 19 name (19 + second.length)) :
    MessageAt top inner (twoBytes second) (twoQuestions name) := by
  refine ⟨⟨(twoBytes second).drop 12, by simp [twoBytes, twoQuestions, u16Bytes, beBytes]⟩,
    _, _, _, _, .cons ⟨15, _, hfirst, rfl, rfl⟩
    (.cons ⟨19 + second.length, [], hsecond, rfl, ?_⟩ .nil), .nil, .nil, .nil⟩
  rw [← drop_drop]
  change (second ++ [0, 1, 0, 1]).drop second.length = _
  rw [drop_left]
  change [0, 1, 0, 1] = u16Bytes 1 ++ (u16Bytes 1 ++ [])
  decide

theorem plain_nameA (second : Bytes) : Plain (twoBytes second) 12 nameA 15 :=
  ⟨2, .label (by decide) (by decide) rfl (.root rfl)⟩

/-- A message is read like its uncompressed encoding if the names of its questions and the owners of
its records are plain or a pointer, which takes 256 rounds at most to follow, and the names in the
data of its records are plain. -/
theorem fromBytes_compressed (m : MessageSpec) (data plain : Bytes)
    (hplain : MessageAt (Plain plain) (Plain plain) plain m) :
    (MessageAt (Readable data) (Plain data) data m →
      Message.fromBytes data = Message.fromBytes plain) ∧
    ∀ pos name stop rounds jumps, NameAt data pos (Name.labels name) stop rounds jumps →
      (readName data pos = .ok (name.text, stop - pos) ↔
        rounds ≤ 256 ∧ (jumps = true → stop = pos + 2)) := by
  refine ⟨fun h => ?_, fun pos name stop rounds jumps h => readName_nameAt_iff h⟩
  rw [fromBytes_of_readable h, fromBytes_of_readable hplain.readable]

/-- The second name is a pointer to the first. -/
theorem fromBytes_pointer :
    Message.fromBytes (twoBytes [0xc0, 12]) = Message.fromBytes (twoBytes [1, 0x61, 0]) :=
  (fromBytes_compressed (twoQuestions nameA) (twoBytes [0xc0, 12]) (twoBytes [1, 0x61, 0])
    (messageAt_twoBytes (plain_nameA _)
      ⟨2, .label (by decide) (by decide) rfl (.root rfl)⟩)).1
    (messageAt_twoBytes (plain_nameA _).readable
      ⟨3, true, .pointer (show 12 < 19 by decide) (by decide) rfl
        (.label (by decide) (by decide) rfl (.root rfl)), by decide, fun _ => rfl⟩)

/-- The second name is a label and a pointer: the type is then read from the pointer. -/
theorem fromBytes_label_pointer :
    MessageAt (Encoded (twoBytes [1, 0x62, 0xc0, 12])) (Encoded (twoBytes [1, 0x62, 0xc0, 12]))
        (twoBytes [1, 0x62, 0xc0, 12]) (twoQuestions nameBA) ∧
      MessageAt (Plain (twoBytes [1, 0x62, 1, 0x61, 0])) (Plain (twoBytes [1, 0x62, 1, 0x61, 0]))
        (twoBytes [1, 0x62, 1, 0x61, 0]) (twoQuestions nameBA) ∧
      Message.fromBytes (twoBytes [1, 0x62, 0xc0, 12]) ≠
        Message.fromBytes (twoBytes [1, 0x62, 1, 0x61, 0]) := by
  refine ⟨messageAt_twoBytes ⟨2, false, .label (by decide) (by decide) rfl (.root rfl)⟩
      ⟨4, true, .label (by decide) (by decide) rfl (.pointer
        (show 12 < 21 by decide) (by decide) rfl
        (.label (by decide) (by decide) rfl (.root rfl)))⟩,
    messageAt_twoBytes (plain_nameA _) ⟨3, .label (by decide) (by decide) rfl
      (.label (by decide) (by decide) rfl (.root rfl))⟩, ?_⟩
  decide +kernel

end TptRfc.Doh
