import TptRfc.Dtls.Network

/-!
# DTLS: several records in one datagram

`take_output` concatenates the records that are queued, and `process_datagram` has to find them
again.
-/

namespace TptRfc.Dtls.Connection

open Lib List Exec

variable (env : Crypto)

def Framed (cid : Option Bytes) (sent : Bytes) : Prop :=
  ∃ p epoch innerType content, p.sendCid = cid ∧
    content.length + 1 + p.suite.tagLen < 2 ^ 16 ∧ Emits env p epoch innerType content sent

def starts : ℕ → List Bytes → List ℕ
  | _, [] => []
  | pos, sent :: D => pos :: starts (pos + sent.length) D

def Drops (c : Connection) (record : Record) : Prop :=
  1 ≤ record.header.epoch ∧ ∃ window, c.recvReplay[record.header.epoch.toNat]? = some window ∧
    (window.check record.header.sequence).1 = .ok false

def Passes (datagram : Bytes) (visit : ℕ × Connection) : Prop :=
  ∃ record pos' c', splitRecord visit.2.recvCidLen (datagram.drop visit.1) = .ok record ∧
    receiveAt env datagram visit.1 visit.2 = (.ok pos', c') ∧ ¬ Drops visit.2 record ∧
    (visit.2.recvCidLen = 0 ∨ record.header.epoch ≠ 0)

variable {env} {cid : Option Bytes} {sent rest datagram : Bytes} {record : Record}
  {c c' : Connection} {pos fuel : ℕ} {D : List Bytes}

/-! ## Iterations -/

theorem Receives.advance_eq {advance : ℕ} {handshake : Option Bytes}
    (h : Receives env record c (.ok (advance, handshake)) c') :
    (¬ Drops c record ∧ advance = record.size) ∨
      (Drops c record ∧ advance = record.size + record.size) := by
  have hclear : record.header.epoch = 0 → ¬ Drops c record := fun hepoch hdrops => by
    have := hdrops.1
    rw [hepoch] at this
    exact absurd this (by decide)
  have hadmits : ∀ {window : ReplayWindow},
      c.recvReplay[record.header.epoch.toNat]? = some window →
        window.Admits record.header.sequence → ¬ Drops c record := by
    rintro window hwindow hcheck ⟨-, window', hwindow', hcheck'⟩
    cases hwindow.symm.trans hwindow'
    cases hcheck.symm.trans hcheck'
  cases h with
  | cleartext hepoch | ignored hepoch => exact .inl ⟨hclear hepoch, rfl⟩
  | refused hepoch hwindow hcheck => exact .inr ⟨⟨hepoch, _, hwindow, hcheck⟩, rfl⟩
  | handshake _ hwindow hcheck | data _ hwindow hcheck | other _ hwindow hcheck =>
    exact .inl ⟨hadmits hwindow hcheck, rfl⟩

theorem advance_of_receiveAt {pos' : ℕ} (h : receiveAt env datagram pos c = (.ok pos', c')) :
    ∃ record, splitRecord c.recvCidLen (datagram.drop pos) = .ok record ∧
      ((¬ Drops c record ∧ pos' = pos + record.size) ∨
        (Drops c record ∧ pos' = pos + (record.size + record.size))) := by
  obtain ⟨record, advance, _, _, hsplit, hreceives, rfl⟩ := receiveAt_eq_ok h
  refine ⟨record, hsplit, ?_⟩
  obtain ⟨hdrops, rfl⟩ | ⟨hdrops, rfl⟩ := hreceives.advance_eq
  · exact .inl ⟨hdrops, rfl⟩
  · exact .inr ⟨hdrops, rfl⟩

theorem iterations_of_le (h : datagram.length ≤ pos) : iterations env datagram fuel pos c = [] := by
  cases fuel with
  | zero => rfl
  | succ fuel => exact (loop_of_le env fuel c h).2

theorem eq_of_iterations_eq_cons {p : ℕ} {l : List ℕ}
    (h : (iterations env datagram fuel pos c).map Prod.fst = p :: l) : p = pos := by
  cases fuel with
  | zero => cases h
  | succ fuel =>
    rw [iterations] at h
    split at h
    · exact (cons.inj h).1.symm
    · cases h

theorem receiveAt_of_iterations {p q : ℕ} {l : List ℕ}
    (h : (iterations env datagram fuel pos c).map Prod.fst = p :: q :: l) :
    ∃ c', receiveAt env datagram pos c = (.ok q, c') := by
  cases fuel with
  | zero => cases h
  | succ fuel =>
    rw [iterations] at h
    split at h
    · have htail := (cons.inj h).2
      split at htail
      · rename_i hreceive
        cases eq_of_iterations_eq_cons htail
        exact ⟨_, hreceive⟩
      · cases htail
    · cases h

/-! ## Framed records -/

section Framed

variable (henv : env.Lawful) (hcid : (cid.getD []).length ≤ 255)

include henv hcid

theorem Framed.split (h : Framed env cid sent) (rest : Bytes) :
    ∃ record, splitRecord (cid.getD []).length (sent ++ rest) = .ok record ∧
      13 ≤ sent.length ∧
      ((record.header.epoch = 0 ∧
          record.size = sent.length + min (cid.getD []).length rest.length) ∨
        (record.header.epoch ≠ 0 ∧ record.size = sent.length)) := by
  obtain ⟨p, epoch, innerType, content, rfl, hlen, ⟨-, rfl⟩ | ⟨hepoch, keys, -, hbuild⟩⟩ := h
  · have htoNat : (UInt16.ofNat content.length).toNat = content.length :=
      UInt16.toNat_ofNat_of_lt' (lt_of_le_of_lt (by omega) hlen)
    rw [buildCleartext, append_assoc]
    refine ⟨_, splitRecord_of_le (by rw [htoNat, length_append]; omega) hcid, ?_, .inl ⟨rfl, ?_⟩⟩
    · simp [RecordHeader.size]
    · simp only [htoNat, length_append, RecordHeader.length_encode, Nat.add_sub_cancel_left]
      omega
  · obtain ⟨-, ct, hseal, rfl⟩ := buildProtected_eq_ok hbuild
    have hct := henv.length hseal
    rw [length_append, length_singleton] at hct
    rw [append_assoc, append_assoc]
    refine ⟨_, splitRecord_of_le ?_ hcid, ?_, .inr ⟨?_, ?_⟩⟩
    · rw [toNat_protectedLength hlen, length_append]
      omega
    · simp [RecordHeader.size]
    · have hne : ∀ e : Fin 3, e ≠ 0 → UInt16.ofNat e ≠ 0 := by decide
      exact hne epoch hepoch
    · simp only [toNat_protectedLength hlen, length_append, RecordHeader.length_encode, ← hct,
        Nat.add_sub_cancel_left]
      omega

theorem passes_iff (hsent : Framed env cid sent) (hrecv : c.recvCidLen = (cid.getD []).length)
    (hdrop : datagram.drop pos = sent ++ rest) (hrest : rest ≠ []) : Passes env datagram (pos, c) ↔
      ∃ c', receiveAt env datagram pos c = (.ok (pos + sent.length), c') := by
  obtain ⟨record, hsplit, hheader, hsize⟩ := hsent.split henv hcid rest
  rw [← hdrop, ← hrecv] at hsplit
  rw [← hrecv] at hsize
  have hpos := length_pos_iff.mpr hrest
  constructor
  · rintro ⟨record', pos', c', hsplit', hreceive, hdrops, hid⟩
    cases hsplit.symm.trans hsplit'
    obtain ⟨record', hsplit', ⟨-, rfl⟩ | ⟨hdrops', -⟩⟩ := advance_of_receiveAt hreceive
    · cases hsplit.symm.trans hsplit'
      obtain ⟨hclear, hsize⟩ | ⟨-, hsize⟩ := hsize
      · obtain hnone | hepoch := hid
        · rw [hsize, hnone, Nat.zero_min] at hreceive
          exact ⟨c', hreceive⟩
        · exact absurd hclear hepoch
      · exact ⟨c', hsize ▸ hreceive⟩
    · cases hsplit.symm.trans hsplit'
      exact absurd hdrops' hdrops
  · rintro ⟨c', hreceive⟩
    refine ⟨record, _, c', hsplit, hreceive, ?_⟩
    obtain ⟨record', hsplit', hmoved⟩ := advance_of_receiveAt hreceive
    cases hsplit.symm.trans hsplit'
    obtain ⟨hdrops, hmoved⟩ | ⟨-, hmoved⟩ := hmoved
    · refine ⟨hdrops, ?_⟩
      obtain ⟨-, hsize⟩ | ⟨hepoch, -⟩ := hsize
      · exact .inl (show c.recvCidLen = 0 by omega)
      · exact .inr hepoch
    · omega

theorem iterations_last (hsent : Framed env cid sent) (hrecv : c.recvCidLen = (cid.getD []).length)
    (hdrop : datagram.drop pos = sent) (hpos : pos < datagram.length) :
    (iterations env datagram (fuel + 1) pos c).map Prod.fst = [pos] := by
  rcases hreceive : receiveAt env datagram pos c with ⟨e | pos', c₁⟩
  · rw [(loop_of_error env fuel hpos hreceive).2]
    rfl
  · obtain ⟨record, hsplit, -, hsize⟩ := hsent.split henv hcid []
    obtain ⟨record', hsplit', hmoved⟩ := advance_of_receiveAt hreceive
    rw [append_nil, ← hdrop, ← hrecv] at hsplit
    cases hsplit.symm.trans hsplit'
    rw [← hdrop, length_drop, length_nil] at hsize
    rw [(loop_of_ok env fuel hpos hreceive).2, iterations_of_le (by omega)]
    rfl

/-- The loop from the start of a record on. -/
theorem iterations_iff (hD : ∀ sent ∈ D, Framed env cid sent) :
    ∀ {fuel pos : ℕ} {c : Connection}, c.WindowsWellFormed →
      c.recvCidLen = (cid.getD []).length → datagram.drop pos = D.flatten →
      datagram.length < fuel + pos →
      ((iterations env datagram fuel pos c).map Prod.fst = starts pos D ↔
        ∀ visit ∈ iterations env datagram fuel pos c,
          visit.1 ∈ (starts pos D).dropLast → Passes env datagram visit) := by
  induction D with
  | nil =>
    intro fuel pos c _ _ hdrop _
    rw [iterations_of_le (drop_eq_nil_iff.mp hdrop)]
    exact iff_of_true rfl fun _ hvisit => absurd hvisit not_mem_nil
  | cons sent D ih =>
    intro fuel pos c hc hrecv hdrop hfuel
    have hsent := hD sent mem_cons_self
    obtain ⟨-, -, hheader, -⟩ := hsent.split henv hcid []
    rw [flatten_cons] at hdrop
    have hlen := congrArg length hdrop
    rw [length_drop, length_append] at hlen
    have hpos : pos < datagram.length := by omega
    obtain ⟨fuel, rfl⟩ : ∃ n, fuel = n + 1 := ⟨fuel - 1, by omega⟩
    cases D with
    | nil =>
      rw [flatten_nil, append_nil] at hdrop
      exact iff_of_true (iterations_last henv hcid hsent hrecv hdrop hpos)
        fun _ _ hstart => absurd hstart not_mem_nil
    | cons next D =>
      obtain ⟨-, -, hnext, -⟩ := (hD next (by simp)).split henv hcid []
      have hrest : (next :: D).flatten ≠ [] := by
        rw [flatten_cons, ← length_pos_iff, length_append]
        omega
      have hpass := passes_iff henv hcid hsent hrecv hdrop hrest
      by_cases hmoved : Passes env datagram (pos, c)
      · obtain ⟨c₁, hreceive⟩ := hpass.mp hmoved
        have hc₁ := hc.receiveAt env datagram pos
        have hrecv₁ : (receiveAt env datagram pos c).2.recvCidLen = c.recvCidLen :=
          (onward_receiveAt hc datagram pos).recvCidLen
        rw [hreceive] at hc₁ hrecv₁
        rw [(loop_of_ok env fuel hpos hreceive).2, map_cons, starts, cons_inj_right,
          ih (fun s hs => hD s (mem_cons_of_mem _ hs)) hc₁ (hrecv₁.trans hrecv)
            (by rw [← drop_drop, hdrop, drop_left]) (by omega)]
        constructor
        · intro h visit hvisit hstart
          rcases mem_cons.mp hvisit with rfl | hvisit
          · exact hmoved
          · refine h visit hvisit ((mem_cons.mp hstart).resolve_left fun heq => ?_)
            have := (bounds_of_mem_iterations hvisit).1
            omega
        · exact fun h visit hvisit hstart =>
            h visit (mem_cons_of_mem _ hvisit) (mem_cons_of_mem _ hstart)
      · refine iff_of_false (fun h => hmoved (hpass.mpr (receiveAt_of_iterations h))) fun h => ?_
        refine hmoved (h _ ?_ mem_cons_self)
        rw [iterations, if_pos hpos]
        exact mem_cons_self

end Framed

/-- **The loop considers exactly the records of a datagram, in order, exactly if** every visit to
a record but the last passes. -/
theorem considers_iff {c : Connection} {cid : Option Bytes} {D : List Bytes} (henv : env.Lawful)
    (hreach : Reachable env c) (hcid : (cid.getD []).length ≤ 255)
    (hrecv : c.recvCidLen = (cid.getD []).length) (hD : ∀ sent ∈ D, Framed env cid sent) :
    (visits env D.flatten c).map Prod.fst = starts 0 D ↔
      ∀ visit ∈ visits env D.flatten c,
        visit.1 ∈ (starts 0 D).dropLast → Passes env D.flatten visit :=
  iterations_iff henv hcid hD hreach.windowsWellFormed hrecv rfl (Nat.lt_succ_self _)

def fragmentRecord : Bytes := buildCleartext contentHandshake 0 0 (fragmentHeader 11 2 0 1 1 ++ [0])

def fragments : List Bytes := List.replicate 2 fragmentRecord

theorem considers_fragments :
    (visits .nonceTag fragments.flatten plainClient).map Prod.fst = starts 0 fragments ∧
      ∀ visit ∈ visits .nonceTag fragments.flatten plainClient,
        visit.1 ∈ (starts 0 fragments).dropLast → Passes .nonceTag fragments.flatten visit := by
  have hframed : ∀ sent ∈ fragments, Framed .nonceTag none sent := by
    intro sent hsent
    rw [List.eq_of_mem_replicate hsent]
    exact ⟨plainClient, 0, 0, _, rfl, by decide, .inl ⟨rfl, rfl⟩⟩
  have hstarts : (visits .nonceTag fragments.flatten plainClient).map Prod.fst =
      starts 0 fragments := by decide +kernel
  exact ⟨hstarts, (considers_iff lawful_nonceTag ⟨plainClient, [], fresh_plainClient, rfl⟩
    (by decide) (by rfl) hframed).mp hstarts⟩

/-- The client sends its last flight again, in front of new data: the first record is dropped
as a replay, and the loop does not find the next one. -/
theorem replay_skips_records :
    let net := Net.run .plain Net.plainNet (Net.plainRun.take 11 ++
      [.tick .client (100 * 10 ^ 6), .sendAppData .client [1], .flush .client])
    (net.datagram .server 3).length = 4 ∧
      (visits .plain (net.datagram .server 3).flatten (net.side .server)).map Prod.fst ≠
        starts 0 (net.datagram .server 3) := by
  decide +kernel

end TptRfc.Dtls.Connection
