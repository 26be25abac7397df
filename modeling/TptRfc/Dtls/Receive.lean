import TptRfc.Dtls.Handlers

/-!
# DTLS: the receive loop

`process_datagram` works on bytes that anybody can send.
-/

namespace TptRfc.Dtls

open Lib Exec

structure Event where
  before : Connection
  msg : HandshakeMessage

def Event.after (env : Crypto) (e : Event) : Connection :=
  (Connection.onHandshakeMessage env e.msg e.before).2

namespace Connection

variable (env : Crypto)

/-! ## One record -/

def setWindow (c : Connection) (epoch : ℕ) (window : ReplayWindow) : Connection :=
  { c with recvReplay := c.recvReplay.set epoch window }

inductive Receives (record : Record) (c : Connection) :
    Except (Fault DtlsError) (ℕ × Option Bytes) → Connection → Prop
  | cleartext (hepoch : record.header.epoch = 0)
      (htype : record.header.contentType = contentHandshake) :
      Receives record c (.ok (record.size, some record.body)) c
  | ignored (hepoch : record.header.epoch = 0)
      (htype : record.header.contentType ≠ contentHandshake) :
      Receives record c (.ok (record.size, none)) c
  | outOfRange (hepoch : 1 ≤ record.header.epoch)
      (hwindow : c.recvReplay[record.header.epoch.toNat]? = none) :
      Receives record c (.error .panic) c
  | failed {window : ReplayWindow} {e : Fault DtlsError} (hepoch : 1 ≤ record.header.epoch)
      (hwindow : c.recvReplay[record.header.epoch.toNat]? = some window)
      (hcheck : (window.check record.header.sequence).1 = .error e) :
      Receives record c (.error e)
        (c.setWindow record.header.epoch.toNat (window.check record.header.sequence).2)
  | refused {window : ReplayWindow} (hepoch : 1 ≤ record.header.epoch)
      (hwindow : c.recvReplay[record.header.epoch.toNat]? = some window)
      (hcheck : (window.check record.header.sequence).1 = .ok false) :
      Receives record c (.ok (record.size + record.size, none))
        (c.setWindow record.header.epoch.toNat (window.check record.header.sequence).2)
  | unopened {window : ReplayWindow} {e : DtlsError} (hepoch : 1 ≤ record.header.epoch)
      (hwindow : c.recvReplay[record.header.epoch.toNat]? = some window)
      (hcheck : window.Admits record.header.sequence) (hopen : c.opened env record = .error e) :
      Receives record c (.error (.error e))
        (c.setWindow record.header.epoch.toNat (window.check record.header.sequence).2)
  | handshake {window : ReplayWindow} {content : Bytes} (hepoch : 1 ≤ record.header.epoch)
      (hwindow : c.recvReplay[record.header.epoch.toNat]? = some window)
      (hcheck : window.Admits record.header.sequence)
      (hopen : c.opened env record = .ok (contentHandshake, content)) :
      Receives record c (.ok (record.size, some content))
        (c.setWindow record.header.epoch.toNat (window.check record.header.sequence).2)
  | data {window : ReplayWindow} {content : Bytes} (hepoch : 1 ≤ record.header.epoch)
      (hwindow : c.recvReplay[record.header.epoch.toNat]? = some window)
      (hcheck : window.Admits record.header.sequence)
      (hopen : c.opened env record = .ok (contentApplicationData, content)) :
      Receives record c (.ok (record.size, none))
        { c.setWindow record.header.epoch.toNat (window.check record.header.sequence).2 with
          appInbox := c.appInbox ++ [content] }
  | other {window : ReplayWindow} {innerType : UInt8} {content : Bytes}
      (hepoch : 1 ≤ record.header.epoch)
      (hwindow : c.recvReplay[record.header.epoch.toNat]? = some window)
      (hcheck : window.Admits record.header.sequence)
      (hopen : c.opened env record = .ok (innerType, content))
      (hhandshake : innerType ≠ contentHandshake) (hdata : innerType ≠ contentApplicationData) :
      Receives record c (.ok (record.size, none))
        (c.setWindow record.header.epoch.toNat (window.check record.header.sequence).2)

variable {c c' : Connection} {r : Except (Fault DtlsError) (ℕ × Option Bytes)} {record : Record}
  {datagram : Bytes} {pos fuel : ℕ}

theorem receives_of_admits {env : Crypto} {window : ReplayWindow} (hepoch : 1 ≤ record.header.epoch)
    (hwindow : c.recvReplay[record.header.epoch.toNat]? = some window)
    (hcheck : window.Admits record.header.sequence)
    (h : (lift (c.opened env record) >>= fun x => passOn record x.1 x.2)
        (c.setWindow record.header.epoch.toNat (window.check record.header.sequence).2) =
      (r, c')) :
    Receives env record c r c' := by
  cases hopen : c.opened env record with
  | error e =>
    rw [hopen] at h
    cases h
    exact .unopened hepoch hwindow hcheck hopen
  | ok x =>
    obtain ⟨innerType, content⟩ := x
    rw [hopen, bind_of_ok (lift_ok _ _), passOn] at h
    split_ifs at h with hhandshake hdata
    · obtain rfl : innerType = contentHandshake := hhandshake
      cases h
      exact .handshake hepoch hwindow hcheck hopen
    · obtain rfl : innerType = contentApplicationData := hdata
      cases h
      exact .data hepoch hwindow hcheck hopen
    · cases h
      exact .other hepoch hwindow hcheck hopen hhandshake hdata

theorem receives {env : Crypto}
    (h : receiveRecord env record c = (r, c')) : Receives env record c r c' := by
  unfold receiveRecord at h
  by_cases hepoch : 1 ≤ record.header.epoch
  · have hzero : ¬ (record.header.epoch = 0 ∧ record.header.contentType = contentHandshake) := by
      rintro ⟨h0, -⟩
      rw [h0] at hepoch
      exact absurd hepoch (by decide)
    rw [if_neg hzero, if_pos hepoch] at h
    cases hwindow : c.recvReplay[record.header.epoch.toNat]? with
    | none =>
      have hreplay : checkReplay record.header.epoch.toNat record.header.sequence c =
          (.error .panic, c) := by
        rw [checkReplay, hwindow]
      rw [bind_of_error hreplay] at h
      cases h
      exact .outOfRange hepoch hwindow
    | some window =>
      have hreplay : checkReplay record.header.epoch.toNat record.header.sequence c =
          ((window.check record.header.sequence).1,
            c.setWindow record.header.epoch.toNat (window.check record.header.sequence).2) := by
        rw [checkReplay, hwindow]
        rfl
      cases hcheck : (window.check record.header.sequence).1 with
      | error e =>
        rw [hcheck] at hreplay
        rw [bind_of_error hreplay] at h
        cases h
        exact .failed hepoch hwindow hcheck
      | ok fresh =>
        rw [hcheck] at hreplay
        rw [bind_of_ok hreplay] at h
        cases fresh with
        | false =>
          cases h
          exact .refused hepoch hwindow hcheck
        | true =>
          rw [if_pos rfl, get_bind] at h
          exact receives_of_admits hepoch hwindow hcheck h
  · have hzero : record.header.epoch = 0 := by
      rw [UInt16.le_iff_toNat_le] at hepoch
      exact UInt16.toNat_inj.mp (by simpa using hepoch)
    by_cases htype : record.header.contentType = contentHandshake
    · rw [if_pos ⟨hzero, htype⟩] at h
      cases h
      exact .cleartext hzero htype
    · rw [if_neg (fun h => htype h.2), if_neg hepoch] at h
      cases h
      exact .ignored hzero htype

def Quiet (c c' : Connection) : Prop :=
  ∃ windows inbox, c' = { c with recvReplay := windows, appInbox := inbox }

instance : IsPreorder Connection Quiet where
  refl c := ⟨c.recvReplay, c.appInbox, rfl⟩
  trans := by
    rintro a b c ⟨windows, inbox, rfl⟩ ⟨windows', inbox', rfl⟩
    exact ⟨windows', inbox', rfl⟩

theorem Receives.quiet {env : Crypto} (h : Receives env record c r c') : Quiet c c' := by
  cases h with
  | cleartext | ignored | outOfRange => exact ⟨c.recvReplay, c.appInbox, rfl⟩
  | data => exact ⟨_, _, rfl⟩
  | _ => exact ⟨_, c.appInbox, rfl⟩

structure WindowsWellFormed (c : Connection) : Prop where
  length : c.recvReplay.length = 3
  wellFormed : ∀ w ∈ c.recvReplay, w.WellFormed

theorem WindowsWellFormed.of_fixed (hc : c.WindowsWellFormed)
    (h : c'.fixed = c.fixed) : c'.WindowsWellFormed := by
  have hsame : c'.recvReplay = c.recvReplay := congrArg Fixed.recvReplay h
  exact ⟨by rw [hsame]; exact hc.length, by rw [hsame]; exact hc.wellFormed⟩

theorem WindowsWellFormed.setWindow (hc : c.WindowsWellFormed) {epoch : ℕ}
    {window : ReplayWindow} (hwindow : c.recvReplay[epoch]? = some window) (sequence : ℕ) :
    (c.setWindow epoch (window.check sequence).2).WindowsWellFormed := by
  have hcheck := (ReplayWindow.check_wellFormed
    (hc.wellFormed _ (List.mem_of_getElem? hwindow)) sequence).1
  refine ⟨(List.length_set ..).trans hc.length, fun w hw => ?_⟩
  rcases List.mem_or_eq_of_mem_set hw with hw | rfl
  · exact hc.wellFormed w hw
  · exact hcheck

theorem WindowsWellFormed.of_receives {env : Crypto} (hc : c.WindowsWellFormed)
    (h : Receives env record c r c') : c'.WindowsWellFormed := by
  cases h with
  | cleartext => exact hc
  | ignored => exact hc
  | outOfRange => exact hc
  | failed _ hwindow | refused _ hwindow | unopened _ hwindow => exact hc.setWindow hwindow _
  | handshake _ hwindow => exact hc.setWindow hwindow _
  | data _ hwindow => exact ⟨(hc.setWindow hwindow _).length, (hc.setWindow hwindow _).wellFormed⟩
  | other _ hwindow => exact hc.setWindow hwindow _

theorem Receives.panic_iff {env : Crypto} (h : Receives env record c r c')
    (hc : c.WindowsWellFormed) : r = .error .panic ↔ 3 ≤ record.header.epoch.toNat := by
  have hsome : ∀ {window}, c.recvReplay[record.header.epoch.toNat]? = some window →
      ¬ 3 ≤ record.header.epoch.toNat := by
    intro window hwindow
    obtain ⟨hlt, -⟩ := List.getElem?_eq_some_iff.mp hwindow
    rw [hc.length] at hlt
    omega
  have hzero : record.header.epoch = 0 → ¬ 3 ≤ record.header.epoch.toNat := by
    intro h0
    rw [h0]
    decide
  cases h with
  | cleartext h0 | ignored h0 => exact iff_of_false nofun (hzero h0)
  | outOfRange _ hwindow =>
    rw [List.getElem?_eq_none_iff, hc.length] at hwindow
    exact ⟨fun _ => hwindow, fun _ => rfl⟩
  | failed _ hwindow hcheck =>
    have hreturns := (ReplayWindow.check_wellFormed
      (hc.wellFormed _ (List.mem_of_getElem? hwindow)) record.header.sequence).2
    rw [hcheck] at hreturns
    exact iff_of_false (fun h => hreturns (by cases h; rfl)) (hsome hwindow)
  | refused _ hwindow | unopened _ hwindow => exact iff_of_false nofun (hsome hwindow)
  | handshake _ hwindow | data _ hwindow => exact iff_of_false nofun (hsome hwindow)
  | other _ hwindow => exact iff_of_false nofun (hsome hwindow)

/-! ## One iteration -/

/-- How one iteration at `pos` can end: the record does not split off; treating it
fails; it carries no handshake bytes; or it carries some, which are treated. -/
theorem receiveAt_cases {env : Crypto}
    {r : Except (Fault DtlsError) ℕ} (h : receiveAt env datagram pos c = (r, c')) :
    (∃ e, splitRecord c.recvCidLen (datagram.drop pos) = .error e ∧ r = .error (.error e) ∧
        c' = c) ∨
      ∃ record, splitRecord c.recvCidLen (datagram.drop pos) = .ok record ∧
        ((∃ e, Receives env record c (.error e) c' ∧ r = .error e) ∨
          (∃ advance, Receives env record c (.ok (advance, none)) c' ∧ r = .ok (pos + advance)) ∨
          ∃ advance bytes r' c₁, Receives env record c (.ok (advance, some bytes)) c₁ ∧
            handleHandshakeBytes env bytes c₁ = (r', c') ∧
            r = r'.map fun _ => pos + advance) := by
  unfold receiveAt at h
  rw [get_bind] at h
  cases hsplit : splitRecord c.recvCidLen (datagram.drop pos) with
  | error e =>
    rw [hsplit] at h
    cases h
    exact .inl ⟨e, rfl, rfl, rfl⟩
  | ok record =>
    refine .inr ⟨record, rfl, ?_⟩
    rw [hsplit, bind_of_ok (lift_ok _ _)] at h
    obtain ⟨⟨advance, handshake⟩, c₁, hreceive, h⟩ | ⟨e, hreceive, rfl⟩ := bind_cases h
    · cases handshake with
      | none =>
        cases h
        exact .inr (.inl ⟨advance, receives hreceive, rfl⟩)
      | some bytes =>
        obtain ⟨⟨⟩, c₂, hhandle, h⟩ | ⟨e, hhandle, rfl⟩ := bind_cases h
        · cases h
          exact .inr (.inr ⟨advance, bytes, _, c₁, receives hreceive, hhandle, rfl⟩)
        · exact .inr (.inr ⟨advance, bytes, _, c₁, receives hreceive, hhandle, rfl⟩)
    · exact .inl ⟨e, receives hreceive, rfl⟩

theorem Receives.size_le {env : Crypto} {advance : ℕ}
    {handshake : Option Bytes} (h : Receives env record c (.ok (advance, handshake)) c') :
    record.size ≤ advance := by
  cases h with
  | refused => exact Nat.le_add_right _ _
  | _ => exact le_refl _

theorem receiveAt_eq_ok {env : Crypto} {pos' : ℕ}
    (h : receiveAt env datagram pos c = (.ok pos', c')) : ∃ record advance handshake c₁,
      splitRecord c.recvCidLen (datagram.drop pos) = .ok record ∧
      Receives env record c (.ok (advance, handshake)) c₁ ∧ pos' = pos + advance := by
  obtain ⟨e, -, hr, -⟩ | ⟨record, hsplit, ⟨e, -, hr⟩ | ⟨advance, hreceives, hr⟩ |
    ⟨advance, bytes, r', c₁, hreceives, -, hr⟩⟩ := receiveAt_cases h
  · cases hr
  · cases hr
  · exact ⟨record, advance, none, c', hsplit, hreceives, Except.ok.inj hr⟩
  · cases r' with
    | error e => cases hr
    | ok _ => exact ⟨record, advance, some bytes, c₁, hsplit, hreceives, Except.ok.inj hr⟩

theorem lt_of_receiveAt {env : Crypto} {pos' : ℕ}
    (h : receiveAt env datagram pos c = (.ok pos', c')) : pos < pos' := by
  obtain ⟨record, advance, _, _, hsplit, hreceives, rfl⟩ := receiveAt_eq_ok h
  have hsize : 13 ≤ record.size := size_le_of_splitRecord hsplit
  have := hreceives.size_le
  omega

/-- What the treatment of one record keeps, an iteration keeps. -/
theorem receiveAt_induct {P : Connection → Prop} {env : Crypto} (hc : P c)
    (hreceives : ∀ {record r c'}, Receives env record c r c' → P c')
    (hfixed : ∀ {c₁ c'}, P c₁ → c'.fixed = c₁.fixed → P c') (datagram : Bytes) (pos : ℕ) :
    P (receiveAt env datagram pos c).2 := by
  rcases h : receiveAt env datagram pos c with ⟨r, c'⟩
  obtain ⟨e, -, -, rfl⟩ | ⟨record, -, ⟨e, h, -⟩ | ⟨advance, h, -⟩ |
    ⟨advance, bytes, r', c₁, h, hhandle, -⟩⟩ := receiveAt_cases h
  · exact hc
  · exact hreceives h
  · exact hreceives h
  · exact hfixed (hreceives h) (handleHandshakeBytes_fixed hhandle).1

theorem WindowsWellFormed.receiveAt (hc : c.WindowsWellFormed)
    (env : Crypto) (datagram : Bytes) (pos : ℕ) :
    (receiveAt env datagram pos c).2.WindowsWellFormed :=
  receiveAt_induct hc (fun h => hc.of_receives h) (fun h hfixed => h.of_fixed hfixed) datagram pos

theorem receiveAt_panic_iff (datagram : Bytes) (pos : ℕ) (hc : c.WindowsWellFormed) :
    (receiveAt env datagram pos c).1 = .error .panic ↔
      ∃ record, splitRecord c.recvCidLen (datagram.drop pos) = .ok record ∧
        3 ≤ record.header.epoch.toNat := by
  rcases h : receiveAt env datagram pos c with ⟨r, c'⟩
  obtain ⟨e, hsplit, rfl, rfl⟩ | ⟨record, hsplit, hcases⟩ := receiveAt_cases h
  · simp [hsplit]
  · simp only [hsplit, Except.ok.injEq, exists_eq_left']
    rcases hcases with ⟨e, hreceives, rfl⟩ | ⟨advance, hreceives, rfl⟩ |
      ⟨advance, bytes, r', c₁, hreceives, hhandle, rfl⟩
    · rw [← hreceives.panic_iff hc]
      simp
    · rw [← hreceives.panic_iff hc]
      simp
    · rw [← hreceives.panic_iff hc]
      have hreturns := (handleHandshakeBytes_fixed hhandle).2
      cases r' with
      | ok _ => simp [Except.map]
      | error e => simpa [Except.map] using hreturns

/-! ## The message of an iteration -/

def heard : Except (Fault DtlsError) (ℕ × Option Bytes) × Connection → Option Event
  | (.ok (_, some bytes), c) =>
    match parseHandshake bytes with
    | .ok (some msg) => some ⟨c, msg⟩
    | _ => none
  | _ => none

def eventAt (datagram : Bytes) (visit : ℕ × Connection) : Option Event :=
  match splitRecord visit.2.recvCidLen (datagram.drop visit.1) with
  | .error _ => none
  | .ok record => heard (receiveRecord env record visit.2)

theorem eventAt_cases (datagram : Bytes) (pos : ℕ) (c : Connection) :
    (eventAt env datagram (pos, c) = none ∧ Quiet c (receiveAt env datagram pos c).2) ∨
      ∃ e, eventAt env datagram (pos, c) = some e ∧ Quiet c e.before ∧
        (receiveAt env datagram pos c).2 = e.after env := by
  rcases h : receiveAt env datagram pos c with ⟨r, c'⟩
  unfold receiveAt at h
  rw [get_bind] at h
  cases hsplit : splitRecord c.recvCidLen (datagram.drop pos) with
  | error e =>
    rw [hsplit] at h
    cases h
    exact .inl ⟨by rw [eventAt, hsplit], c.recvReplay, c.appInbox, rfl⟩
  | ok record =>
    have hevent : eventAt env datagram (pos, c) = heard (receiveRecord env record c) := by
      rw [eventAt, hsplit]
    rw [hsplit, bind_of_ok (lift_ok _ _)] at h
    obtain ⟨⟨advance, handshake⟩, c₁, hreceive, h⟩ | ⟨e, hreceive, rfl⟩ := bind_cases h
    · rw [hreceive] at hevent
      have hquiet : Quiet c c₁ := (receives hreceive).quiet
      cases handshake with
      | none =>
        cases h
        exact .inl ⟨hevent, hquiet⟩
      | some bytes =>
        have hlast : ∃ r', handleHandshakeBytes env bytes c₁ = (r', c') := by
          obtain ⟨⟨⟩, c₂, hhandle, h⟩ | ⟨e, hhandle, -⟩ := bind_cases h
          · cases h
            exact ⟨_, hhandle⟩
          · exact ⟨_, hhandle⟩
        obtain ⟨r', hhandle⟩ := hlast
        obtain ⟨msg, hparse, hdispatch⟩ | ⟨hparse, -, rfl⟩ := handleHandshakeBytes_cases hhandle
        · refine .inr ⟨⟨c₁, msg⟩, ?_, hquiet, ?_⟩
          · rw [hevent, heard, hparse]
          · rw [Event.after, hdispatch]
        · refine .inl ⟨?_, hquiet⟩
          rw [hevent, heard]
          split
          · rename_i msg hsome
            exact absurd hsome (hparse msg)
          · rfl
    · rw [hreceive] at hevent
      exact .inl ⟨hevent, (receives hreceive).quiet⟩

theorem eventAt_eq_some {e : Event} (h : eventAt env datagram (pos, c) = some e) :
    ∃ record advance bytes, splitRecord c.recvCidLen (datagram.drop pos) = .ok record ∧
      Receives env record c (.ok (advance, some bytes)) e.before ∧
      parseHandshake bytes = .ok (some e.msg) := by
  unfold eventAt at h
  cases hsplit : splitRecord c.recvCidLen (datagram.drop pos) with
  | error e => simp only [hsplit] at h; cases h
  | ok record =>
    simp only [hsplit] at h
    unfold heard at h
    split at h
    · rename_i advance bytes c₁ hreceive
      split at h
      · rename_i msg hparse
        cases h
        exact ⟨record, advance, bytes, rfl, receives hreceive, hparse⟩
      · cases h
    · cases h

/-! ## The loop -/

def iterations (datagram : Bytes) : ℕ → ℕ → Connection → List (ℕ × Connection)
  | 0, _, _ => []
  | fuel + 1, pos, c =>
    if pos < datagram.length then
      (pos, c) ::
        match receiveAt env datagram pos c with
        | (.ok pos', c') => iterations datagram fuel pos' c'
        | (.error _, _) => []
    else []

def visits (datagram : Bytes) (c : Connection) : List (ℕ × Connection) :=
  iterations env datagram (datagram.length + 1) 0 c

section Loop

variable (env : Crypto) {datagram : Bytes} {pos pos' : ℕ} {c c' : Connection}
  {e : Fault DtlsError} (fuel : ℕ)

theorem loop_of_le (c : Connection) (h : datagram.length ≤ pos) :
    receiveFrom env datagram (fuel + 1) pos c = (.ok (), c) ∧
      iterations env datagram (fuel + 1) pos c = [] := by
  rw [receiveFrom, iterations, if_neg (by omega), if_neg (by omega)]
  exact ⟨rfl, rfl⟩

theorem loop_of_error (hpos : pos < datagram.length)
    (h : receiveAt env datagram pos c = (.error e, c')) :
    receiveFrom env datagram (fuel + 1) pos c = (.error e, c') ∧
      iterations env datagram (fuel + 1) pos c = [(pos, c)] := by
  rw [receiveFrom, iterations, if_pos hpos, if_pos hpos, bind_of_error h, h]
  exact ⟨rfl, rfl⟩

theorem loop_of_ok (hpos : pos < datagram.length)
    (h : receiveAt env datagram pos c = (.ok pos', c')) :
    receiveFrom env datagram (fuel + 1) pos c = receiveFrom env datagram fuel pos' c' ∧
      iterations env datagram (fuel + 1) pos c =
        (pos, c) :: iterations env datagram fuel pos' c' := by
  rw [receiveFrom, iterations, if_pos hpos, if_pos hpos, bind_of_ok h, h]
  exact ⟨rfl, rfl⟩

end Loop

theorem receiveFrom_induct {env : Crypto} :
    ∀ {pos : ℕ} {c : Connection} {I : List (ℕ × Connection) → Connection → Prop}, I [] c →
      (∀ before p c₁ after,
        iterations env datagram fuel pos c = before ++ (p, c₁) :: after → I before c₁ →
          I (before ++ [(p, c₁)]) (receiveAt env datagram p c₁).2) →
      I (iterations env datagram fuel pos c) (receiveFrom env datagram fuel pos c).2 := by
  induction fuel with
  | zero =>
    intro pos c I h0 _
    exact h0
  | succ fuel ih =>
    intro pos c I h0 hstep
    by_cases hpos : pos < datagram.length
    · rcases h : receiveAt env datagram pos c with ⟨r, c'⟩
      cases r with
      | error e =>
        obtain ⟨hrun, hvisits⟩ := loop_of_error env fuel hpos h
        have hfirst := hstep [] pos c [] hvisits h0
        rw [h] at hfirst
        rw [hrun, hvisits]
        exact hfirst
      | ok pos' =>
        obtain ⟨hrun, hvisits⟩ := loop_of_ok env fuel hpos h
        have hfirst := hstep [] pos c _ hvisits h0
        rw [h] at hfirst
        rw [hrun, hvisits]
        refine ih (I := fun visited => I ((pos, c) :: visited)) hfirst ?_
        intro before p c₁ after hsplit hI
        exact hstep ((pos, c) :: before) p c₁ after (by rw [hvisits, hsplit]; rfl) hI
    · obtain ⟨hrun, hvisits⟩ := loop_of_le env fuel c (not_lt.mp hpos)
      rw [hrun, hvisits]
      exact h0

theorem bounds_of_mem_iterations {env : Crypto} {visit : ℕ × Connection} :
    ∀ {pos : ℕ} {c : Connection}, visit ∈ iterations env datagram fuel pos c →
      pos ≤ visit.1 ∧ visit.1 < datagram.length := by
  induction fuel with
  | zero => nofun
  | succ fuel ih =>
    intro pos c hvisit
    rw [iterations] at hvisit
    split at hvisit
    · rename_i hpos
      rcases List.mem_cons.mp hvisit with rfl | hvisit
      · exact ⟨le_rfl, hpos⟩
      · split at hvisit
        · rename_i hreceive
          have hrest := ih hvisit
          exact ⟨(lt_of_receiveAt hreceive).le.trans hrest.1, hrest.2⟩
        · cases hvisit
    · cases hvisit

theorem receiveFrom_panic_iff {env : Crypto} :
    ∀ {pos : ℕ} {c : Connection}, c.WindowsWellFormed → datagram.length ≤ pos + fuel →
      ((receiveFrom env datagram (fuel + 1) pos c).1 = .error .panic ↔
        ∃ visit ∈ iterations env datagram (fuel + 1) pos c, ∃ record,
          splitRecord visit.2.recvCidLen (datagram.drop visit.1) = .ok record ∧
            3 ≤ record.header.epoch.toNat) := by
  induction fuel with
  | zero =>
    intro pos c hc hfuel
    obtain ⟨hrun, hvisits⟩ := loop_of_le env 0 c (show datagram.length ≤ pos by omega)
    simp [hrun, hvisits]
  | succ fuel ih =>
    intro pos c hc hfuel
    by_cases hpos : pos < datagram.length
    · rcases h : receiveAt env datagram pos c with ⟨r, c'⟩
      have hhere := receiveAt_panic_iff env datagram pos hc
      have hnext := hc.receiveAt env datagram pos
      rw [h] at hhere hnext
      cases r with
      | error e =>
        obtain ⟨hrun, hvisits⟩ := loop_of_error env (fuel + 1) hpos h
        simp only [hrun, hvisits, List.mem_singleton, exists_eq_left]
        exact ⟨fun he => hhere.mp (by cases he; rfl), fun he => by cases hhere.mpr he; rfl⟩
      | ok pos' =>
        obtain ⟨hrun, hvisits⟩ := loop_of_ok env (fuel + 1) hpos h
        have hmove := lt_of_receiveAt h
        rw [hrun, hvisits, ih hnext (by omega)]
        simp only [List.mem_cons, exists_eq_or_imp, ← hhere, reduceCtorEq, false_or]
    · obtain ⟨hrun, hvisits⟩ := loop_of_le env (fuel + 1) c (not_lt.mp hpos)
      simp [hrun, hvisits]

end Connection

end TptRfc.Dtls
