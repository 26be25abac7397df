import Mathlib.Data.Finset.Dedup
import Mathlib.Order.Interval.Finset.Nat

/-!
# RTP: receiver statistics

`ReceiverStats` counts the packets of one source from their 16-bit sequence numbers.
-/

namespace TptRfc.Rtp

open List

/-! ## The tracker -/

def rtpSeqMod : ℕ := 65536
def maxDropout : ℕ := 3000
def maxMisorder : ℕ := 100

structure SeqStats where
  init : Bool := false
  baseSeq : ℕ := 0
  prevSeq : UInt16 := 0
  cycles : ℕ := 0
  maxSeqExt : ℕ := 0
  received : ℕ := 0

structure JitterStats where
  jitter : ℤ := 0
  prevTransit : ℤ := 0
  hasPrevTransit : Bool := false

structure ReceiverStats extends SeqStats, JitterStats

structure Packet where
  seq : UInt16
  timestamp : UInt32
  arrival : UInt32

def checked (n : ℕ) : Option ℕ := if n < 2 ^ 32 then some n else none

def SeqStats.updateSeq (st : SeqStats) (seq : UInt16) : Option SeqStats :=
  if !st.init then
    some { st with init := true, baseSeq := seq.toNat, prevSeq := seq, maxSeqExt := seq.toNat,
                   received := 1 }
  else
    let udelta := (seq - st.prevSeq).toNat
    if udelta = 0 then some st
    else if udelta < maxDropout then do
      let cycles ← (if seq < st.prevSeq then checked (st.cycles + rtpSeqMod) else some st.cycles)
      let maxSeqExt ← checked (cycles + seq.toNat)
      let received ← checked (st.received + 1)
      some { st with cycles, maxSeqExt, received, prevSeq := seq }
    else if udelta ≤ rtpSeqMod - maxMisorder then some st
    else some st

def JitterStats.updateJitter (st : JitterStats) (p : Packet) : JitterStats :=
  let transit : ℤ := p.arrival.toNat - p.timestamp.toNat
  { jitter :=
      if st.hasPrevTransit then
        st.jitter + (((transit - st.prevTransit).natAbs : ℤ) - st.jitter).tdiv 16
      else st.jitter
    prevTransit := transit
    hasPrevTransit := true }

namespace ReceiverStats

def update (st : ReceiverStats) (p : Packet) : Option ReceiverStats :=
  (st.updateSeq p.seq).map (⟨·, st.updateJitter p⟩)

def extendedSequence (st : ReceiverStats) : ℕ := st.maxSeqExt

def expected (st : ReceiverStats) : Option ℕ :=
  if !st.init then some 0
  else if st.maxSeqExt < st.baseSeq then none
  else checked (st.maxSeqExt - st.baseSeq + 1)

def cumulativeLost (st : ReceiverStats) : Option ℤ :=
  st.expected.map fun expected : ℕ => (expected : ℤ) - st.received

def jitterValue (st : ReceiverStats) : UInt32 := UInt32.ofNat (max st.jitter 0).toNat

def receive (st : ReceiverStats) (ps : List Packet) : Option ReceiverStats := ps.foldlM update st

theorem receive_eq (ps : List Packet) : ∀ st : ReceiverStats, st.receive ps =
    ((ps.map Packet.seq).foldlM SeqStats.updateSeq st.toSeqStats).map
      (⟨·, ps.foldl JitterStats.updateJitter st.toJitterStats⟩) := by
  induction ps with
  | nil => exact fun _ => rfl
  | cons p ps ih =>
    intro st
    rw [receive, foldlM_cons, update, map_cons, foldlM_cons, foldl_cons]
    cases st.updateSeq p.seq with
    | none => rfl
    | some s => exact ih _

end ReceiverStats

theorem SeqStats.updateSeq_of_ignored {st : SeqStats} {seq : UInt16} (hinit : st.init = true)
    (h : seq = st.prevSeq ∨ maxDropout ≤ (seq - st.prevSeq).toNat) :
    st.updateSeq seq = some st := by
  rw [updateSeq, hinit]
  rcases h with h | h
  · simp [h]
  · simp only [Bool.not_true, Bool.false_eq_true, if_false, Nat.not_lt.mpr h, ite_self]

theorem ReceiverStats.receive_jump {st : ReceiverStats} {p q : Packet} (hinit : st.init = true)
    (hjump : maxDropout ≤ (p.seq - st.prevSeq).toNat) (hnext : q.seq = p.seq + 1) :
    ∃ st', st.receive [p, q] = some st' ∧ st'.extendedSequence = st.extendedSequence ∧
      st'.received = st.received := by
  have hq : q.seq = st.prevSeq ∨ maxDropout ≤ (q.seq - st.prevSeq).toNat := by
    rw [hnext, ← UInt16.toNat_inj, UInt16.toNat_sub, UInt16.toNat_add]
    rw [UInt16.toNat_sub] at hjump
    simp only [maxDropout, UInt16.reduceToNat] at hjump ⊢
    have := p.seq.toNat_lt
    have := st.prevSeq.toNat_lt
    omega
  have hseqs : [p.seq, q.seq].foldlM SeqStats.updateSeq st.toSeqStats = some st.toSeqStats := by
    rw [foldlM_cons, SeqStats.updateSeq_of_ignored hinit (.inr hjump)]
    exact congrArg (· >>= pure) (SeqStats.updateSeq_of_ignored hinit hq)
  exact ⟨_, (receive_eq [p, q] st).trans (congrArg (Option.map _) hseqs), rfl, rfl⟩

/-! ## Streams with loss and reordering -/

inductive Stream (first : ℕ) : List ℕ → ℕ → Prop
  | first (h : first < 2 ^ 16) : Stream first [first] first
  | next {es : List ℕ} {top e : ℕ} (h : Stream first es top) (fresh : e ∉ es) (after : first ≤ e)
      (fits : e < 2 ^ 32) (ahead : e < top + 3000) (behind : top < e + 100) :
      Stream first (es ++ [e]) (max top e)

def missing (first top : ℕ) (es : List ℕ) : ℕ := ((Finset.Icc first top).filter (· ∉ es)).card

variable {first top : ℕ} {es : List ℕ} {st : SeqStats}

theorem Stream.bounds (h : Stream first es top) :
    es.Nodup ∧ top ∈ es ∧ ∀ x ∈ es, first ≤ x ∧ x ≤ top := by
  induction h with
  | first => simp
  | @next es top e _ fresh after _ _ _ ih =>
    obtain ⟨hnodup, htop, hle⟩ := ih
    refine ⟨nodup_append.mpr ⟨hnodup, nodup_singleton e, ?_⟩, ?_, ?_⟩
    · intro x hx y hy
      rw [mem_singleton.mp hy]
      exact fun heq => fresh (heq ▸ hx)
    · rcases max_choice top e with hmax | hmax <;> rw [hmax] <;> simp [htop]
    · intro x hx
      rcases mem_append.mp hx with hx | hx
      · exact ⟨(hle x hx).1, le_max_of_le_left (hle x hx).2⟩
      · rw [mem_singleton.mp hx]
        exact ⟨after, le_max_right ..⟩

theorem Stream.missing_add (h : Stream first es top) :
    missing first top es + es.length = top + 1 - first := by
  obtain ⟨hnodup, -, hle⟩ := h.bounds
  have harrived : (Finset.Icc first top).filter (· ∈ es) = es.toFinset := by
    ext x
    simpa using hle x
  rw [← Nat.card_Icc, ← Finset.card_filter_add_card_filter_not (· ∈ es), harrived,
    List.toFinset_card_of_nodup hnodup, missing, Nat.add_comm]

structure Tracks (first top : ℕ) (es : List ℕ) (st : SeqStats) : Prop where
  init : st.init = true
  baseSeq : st.baseSeq = first
  prevSeq : st.prevSeq = UInt16.ofNat top
  cycles : st.cycles + top % 2 ^ 16 = top
  maxSeqExt : st.maxSeqExt = top
  room : st.received + first ≤ top + 1
  received_le : st.received ≤ es.length
  received_iff : st.received = es.length ↔ es.Pairwise (· < ·)

theorem checked_of_lt {n : ℕ} (h : n < 2 ^ 32) : checked n = some n := if_pos h

theorem Tracks.updateSeq_of_ahead {e : ℕ} {seq : UInt16} (h : Tracks first top es st)
    (hseq : seq = UInt16.ofNat e) (hlt : top < e) (ahead : e < top + 3000)
    (fits : e < 2 ^ 32) (hroom : e + 1 < first + 2 ^ 32) :
    st.updateSeq seq = some { st with cycles := e - e % 2 ^ 16, maxSeqExt := e,
                                      received := st.received + 1, prevSeq := seq } := by
  obtain ⟨hinit, -, hprev, hcycles, -, hreceived, -, -⟩ := h
  have htoNat : seq.toNat = e % 2 ^ 16 := by rw [hseq, UInt16.toNat_ofNat']
  have hprevNat : st.prevSeq.toNat = top % 2 ^ 16 := by rw [hprev, UInt16.toNat_ofNat']
  have hdelta : (seq - st.prevSeq).toNat = e - top := by
    rw [UInt16.toNat_sub, htoNat, hprevNat]
    omega
  have hcarry : (if seq < st.prevSeq then checked (st.cycles + rtpSeqMod) else some st.cycles) =
      some (e - e % 2 ^ 16) := by
    split <;> rename_i hwrap <;> rw [UInt16.lt_iff_toNat_lt, htoNat, hprevNat] at hwrap
    · rw [rtpSeqMod, checked_of_lt (by omega), Option.some_inj]
      omega
    · rw [Option.some_inj]
      omega
  rw [SeqStats.updateSeq, hinit]
  simp only [Bool.not_true, Bool.false_eq_true, if_false, hdelta, hcarry, maxDropout,
    if_neg (show ¬ e - top = 0 by omega), if_pos (show e - top < 3000 by omega)]
  rw [Option.bind_eq_bind, Option.bind_some, htoNat, Nat.sub_add_cancel (Nat.mod_le e _),
    checked_of_lt fits, checked_of_lt (by omega)]
  rfl

theorem Tracks.update {e : ℕ} (h : Tracks first top es st) (hes : Stream first es top)
    (fresh : e ∉ es) (fits : e < 2 ^ 32) (ahead : e < top + 3000) (behind : top < e + 100)
    (hroom : max top e + 1 < first + 2 ^ 32) :
    ∃ st', st.updateSeq (UInt16.ofNat e) = some st' ∧ Tracks first (max top e) (es ++ [e]) st' := by
  obtain ⟨-, htop, hle⟩ := hes.bounds
  have hlength : (es ++ [e]).length = es.length + 1 := length_append
  have hreceived := h.received_le
  rcases Nat.lt_trichotomy e top with hlate | rfl | hahead
  · rw [max_eq_left hlate.le]
    refine ⟨st, SeqStats.updateSeq_of_ignored h.init (.inr ?_), { h with
      received_le := by omega, received_iff := iff_of_false (by omega) fun hsorted => ?_ }⟩
    · rw [h.prevSeq, UInt16.toNat_sub, UInt16.toNat_ofNat', UInt16.toNat_ofNat', maxDropout]
      omega
    · exact lt_asymm hlate ((pairwise_append.mp hsorted).2.2 top htop e mem_cons_self)
  · exact absurd htop fresh
  · rw [max_eq_right hahead.le] at hroom ⊢
    have hcount := h.room
    refine ⟨_, h.updateSeq_of_ahead rfl hahead ahead fits hroom, h.init, h.baseSeq, rfl,
      Nat.sub_add_cancel (Nat.mod_le e _), rfl, by dsimp only; omega, by dsimp only; omega, ?_⟩
    rw [hlength, pairwise_append, ← h.received_iff, Nat.add_right_cancel_iff]
    refine (and_iff_left ⟨pairwise_singleton _ _, fun x hx y hy => ?_⟩).symm
    rw [mem_singleton.mp hy]
    exact lt_of_le_of_lt (hle x hx).2 hahead

theorem Stream.tracks (h : Stream first es top) (hroom : top + 1 < first + 2 ^ 32) :
    ∃ st, (es.map UInt16.ofNat).foldlM SeqStats.updateSeq {} = some st ∧
      Tracks first top es st := by
  induction h with
  | first hfirst =>
    have htoNat : (UInt16.ofNat first).toNat = first := UInt16.toNat_ofNat_of_lt' hfirst
    refine ⟨_, rfl, rfl, htoNat, rfl, ?_, htoNat, ?_, Nat.le_refl 1,
      iff_of_true rfl (pairwise_singleton _ _)⟩
    · show 0 + first % 2 ^ 16 = first
      omega
    · show 1 + first ≤ first + 1
      omega
  | @next es top e hes fresh after fits ahead behind ih =>
    obtain ⟨st, hst, htracks⟩ := ih (by omega)
    obtain ⟨st', hst', htracks'⟩ := htracks.update hes fresh fits ahead behind hroom
    refine ⟨st', ?_, htracks'⟩
    rw [map_append, foldlM_append, hst]
    exact congrArg (· >>= pure) hst'

theorem Tracks.exact_iff {st : ReceiverStats} (h : Tracks first top es st.toSeqStats)
    (hes : Stream first es top) (hroom : top + 1 < first + 2 ^ 32) :
    st.received = es.length ∧ st.cumulativeLost = some (missing first top es : ℤ) ↔
      es.Pairwise (· < ·) := by
  rw [← h.received_iff]
  refine ⟨And.left, fun heq => ⟨heq, ?_⟩⟩
  have hmissing := hes.missing_add
  have hfirst := (hes.bounds.2.2 top hes.bounds.2.1).1
  rw [ReceiverStats.cumulativeLost, ReceiverStats.expected, h.init, h.maxSeqExt, h.baseSeq,
    if_neg (by simp), if_neg (by omega), checked_of_lt (by omega), Option.map_some, heq]
  congr 1
  omega

/-! ## Jitter -/

theorem jitter_behind {d : ℤ} (f : Packet → Packet) (hf : ∀ p, (f p).arrival = p.arrival)
    {ps : List Packet} (hps : ∀ p ∈ ps, ((f p).timestamp.toNat : ℤ) = p.timestamp.toNat + d) :
    ∀ (st : JitterStats) {t : ℤ}, (st.hasPrevTransit = true → t = st.prevTransit - d) →
      ((ps.map f).foldl JitterStats.updateJitter { st with prevTransit := t }).jitter =
        (ps.foldl JitterStats.updateJitter st).jitter := by
  induction ps with
  | nil => exact fun _ _ _ => rfl
  | cons p ps ih =>
    intro st t ht
    have hfirst : JitterStats.updateJitter { st with prevTransit := t } (f p) =
        { st.updateJitter p with prevTransit := (st.updateJitter p).prevTransit - d } := by
      simp only [JitterStats.updateJitter, hf, hps p mem_cons_self, JitterStats.mk.injEq, and_true]
      refine ⟨?_, by omega⟩
      split
      · rename_i hhas
        rw [ht hhas, sub_add_eq_sub_sub, sub_sub_sub_cancel_right]
      · rfl
    rw [map_cons, foldl_cons, foldl_cons, hfirst]
    exact ih (fun q hq => hps q (mem_cons_of_mem _ hq)) _ fun _ => rfl

def Packet.shift (d : UInt32) (p : Packet) : Packet := { p with timestamp := p.timestamp + d }

/-- **What the statistics say.** For a stream with loss and reordering the highest number is right,
and the counts are exactly if the stream arrives in order. -/
theorem statistics_iff (ps : List Packet) :
    (∀ first top es, Stream first es top → top + 1 < first + 2 ^ 32 →
      ps.map Packet.seq = es.map UInt16.ofNat →
      ∃ st, ReceiverStats.receive {} ps = some st ∧ st.extendedSequence = top ∧
        (st.received = es.length ∧ st.cumulativeLost = some (missing first top es : ℤ) ↔
          es.Pairwise (· < ·))) ∧
    (∀ st p q, ReceiverStats.receive {} ps = some st → st.init = true →
      maxDropout ≤ (p.seq - st.prevSeq).toNat → q.seq = p.seq + 1 →
      ∃ st', st.receive [p, q] = some st' ∧ st'.extendedSequence = st.extendedSequence ∧
        st'.received = st.received) ∧ ∀ d : UInt32,
      ((∀ p ∈ ps, p.timestamp.toNat + d.toNat < 2 ^ 32) ∨
        (∀ p ∈ ps, 2 ^ 32 ≤ p.timestamp.toNat + d.toNat)) →
      (ReceiverStats.receive {} (ps.map (.shift d))).map ReceiverStats.jitterValue =
        (ReceiverStats.receive {} ps).map ReceiverStats.jitterValue := by
  refine ⟨fun first top es hes hroom hps => ?_,
    fun st p q _ hinit hjump hnext => ReceiverStats.receive_jump hinit hjump hnext, fun d h => ?_⟩
  · obtain ⟨st, hst, htracks⟩ := hes.tracks hroom
    rw [ReceiverStats.receive_eq, hps, hst]
    exact ⟨_, rfl, htracks.maxSeqExt, Tracks.exact_iff htracks hes hroom⟩
  · obtain ⟨shift, hshift⟩ : ∃ shift : ℤ, ∀ p ∈ ps,
        ((p.shift d).timestamp.toNat : ℤ) = p.timestamp.toNat + shift := by
      rcases h with h | h
      · refine ⟨d.toNat, fun p hp => ?_⟩
        have := h p hp
        rw [Packet.shift, UInt32.toNat_add]
        omega
      · refine ⟨d.toNat - 2 ^ 32, fun p hp => ?_⟩
        have := h p hp
        have := p.timestamp.toNat_lt
        have := d.toNat_lt
        rw [Packet.shift, UInt32.toNat_add]
        omega
    have hjitter := jitter_behind (.shift d) (fun _ => rfl) hshift {} (t := 0) nofun
    rw [ReceiverStats.receive_eq, ReceiverStats.receive_eq, map_map, Option.map_map, Option.map_map]
    refine congrArg (Option.map · _) (funext fun s => ?_)
    exact congrArg (fun j : ℤ => UInt32.ofNat (max j 0).toNat) hjitter

/-- The packet 1 comes late and stays lost; after a jump the count goes on where it was; and
the jitter of two packets changes when one of their timestamps wraps. -/
theorem late_stays_lost :
    (∃ st, ReceiverStats.receive {} [⟨0, 0, 0⟩, ⟨2, 0, 0⟩, ⟨1, 0, 0⟩] = some st ∧
      Stream 0 [0, 2, 1] 2 ∧ missing 0 2 [0, 2, 1] = 0 ∧ st.received = 2 ∧
      st.cumulativeLost = some 1) ∧
    (∃ st, ReceiverStats.receive {} [⟨0, 0, 0⟩, ⟨5000, 0, 0⟩, ⟨5001, 0, 0⟩] = some st ∧
      st.extendedSequence = 0) ∧
    (ReceiverStats.receive {} [⟨0, 0, 0⟩, ⟨1, 160, 160⟩]).map ReceiverStats.jitterValue = some 0 ∧
    (ReceiverStats.receive {} ([⟨0, 0, 0⟩, ⟨1, 160, 160⟩].map
      (.shift 0xFFFFFFFF))).map ReceiverStats.jitterValue = some 268435456 := by
  have hahead : Stream 0 [0, 2] 2 :=
    .next (.first (by decide)) (by decide) (by decide) (by decide) (by decide) (by decide)
  have hlate : Stream 0 [0, 2, 1] 2 :=
    .next hahead (by decide) (by decide) (by decide) (by decide) (by decide)
  exact ⟨⟨_, rfl, hlate, by decide, rfl, rfl⟩, ⟨_, rfl, rfl⟩, rfl, rfl⟩

end TptRfc.Rtp
