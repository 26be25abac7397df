import TptRfc.Lib.Champion
import TptRfc.Ospf.Lsa

/-!
# OSPF: the link-state database and flooding

`receive` keeps, for every key, the instance that `compare_lsa` calls the newest so far.
-/

namespace TptRfc.Ospf

open Lib List

inductive LsaOrdering where
  | older
  | equal
  | newer
  deriving DecidableEq

def seqDiff (a b : UInt32) : ℤ :=
  let d : ℤ := (a.toNat : ℤ) - b.toNat
  if d > 0x40000000 then d - 0x80000000
  else if d < -0x40000000 then d + 0x80000000
  else d

def compareLsa (a b : LsaHeader) : LsaOrdering :=
  if a.sequenceNumber = b.sequenceNumber then
    -- same sequence number: resolve by MaxAge and then by checksum
    if a.age = maxAge ∧ b.age ≠ maxAge then .newer
    else if b.age = maxAge ∧ a.age ≠ maxAge then .older
    else if a.checksum = b.checksum then .equal
    else if a.checksum > b.checksum then .newer
    else .older
  else if seqDiff a.sequenceNumber b.sequenceNumber > 0 then .newer
  else .older

inductive ReceiveAction where
  | installAndFlood
  | duplicate
  | reject

structure LinkStateDatabase where
  lsas : AList fun _ : LsaKey => Lsa

namespace LinkStateDatabase

def new : LinkStateDatabase := ⟨∅⟩

def get (db : LinkStateDatabase) (key : LsaKey) : Option Lsa := db.lsas.lookup key

def insert (db : LinkStateDatabase) (lsa : Lsa) : LinkStateDatabase := ⟨db.lsas.insert lsa.key lsa⟩

def receive (db : LinkStateDatabase) (lsa : Lsa) : ReceiveAction × LinkStateDatabase :=
  match db.get lsa.key with
  | none => (.installAndFlood, db.insert lsa)
  | some existing =>
    match compareLsa lsa.header existing.header with
    | .equal => (.duplicate, db)
    | .newer => (.installAndFlood, db.insert lsa)
    | .older => (.reject, db)

def receiveAll (db : LinkStateDatabase) (lsas : List Lsa) : LinkStateDatabase :=
  lsas.foldl (fun db lsa => (db.receive lsa).2) db

end LinkStateDatabase

/-! ## What `compare_lsa` looks at -/

def recency (lsa : Lsa) : UInt32 × Bool × UInt16 :=
  (lsa.header.sequenceNumber, decide (lsa.header.age = maxAge), lsa.header.checksum)

def RecencyNewer (x y : UInt32 × Bool × UInt16) : Prop :=
  (x.1 = y.1 ∧ ((x.2.1 = true ∧ y.2.1 = false) ∨ (x.2.1 = y.2.1 ∧ y.2.2 < x.2.2))) ∨
    (x.1 ≠ y.1 ∧ 0 < seqDiff x.1 y.1)

instance : DecidableRel RecencyNewer := fun x y => by
  unfold RecencyNewer
  infer_instance

theorem seqDiff_neg (a b : UInt32) : seqDiff b a = - seqDiff a b := by
  simp only [seqDiff]
  split_ifs <;> omega

theorem recencyNewer_asymm (x y : UInt32 × Bool × UInt16) (h : RecencyNewer x y) :
    ¬ RecencyNewer y x := by
  rintro (⟨hseq, h'⟩ | ⟨hseq, h'⟩)
  · rcases h with ⟨-, h⟩ | ⟨hne, -⟩
    · rcases h with ⟨hx, hy⟩ | ⟨hmax, hck⟩ <;> rcases h' with ⟨hy', hx'⟩ | ⟨hmax', hck'⟩
      · simp_all
      · simp_all
      · simp_all
      · exact UInt16.lt_asymm hck hck'
    · exact hne hseq.symm
  · rcases h with ⟨heq, -⟩ | ⟨-, h⟩
    · exact hseq heq.symm
    · rw [seqDiff_neg] at h'
      omega

theorem compareLsa_eq_newer_iff (a b : Lsa) :
    compareLsa a.header b.header = .newer ↔ RecencyNewer (recency a) (recency b) := by
  simp only [compareLsa, RecencyNewer, recency]
  by_cases hseq : a.header.sequenceNumber = b.header.sequenceNumber
  · rw [if_pos hseq]
    by_cases ha : a.header.age = maxAge <;> by_cases hb : b.header.age = maxAge <;>
      split_ifs <;> simp_all
  · rw [if_neg hseq]
    split_ifs with hd <;> simp_all

theorem compareLsa_eq_equal_iff (a b : Lsa) :
    compareLsa a.header b.header = .equal ↔ recency a = recency b := by
  simp only [compareLsa, recency, Prod.mk.injEq, decide_eq_decide]
  by_cases hseq : a.header.sequenceNumber = b.header.sequenceNumber
  · by_cases ha : a.header.age = maxAge <;> by_cases hb : b.header.age = maxAge <;>
      by_cases hck : a.header.checksum = b.header.checksum <;>
      simp [hseq, ha, hb, hck] <;> split_ifs <;> simp
  · rw [if_neg hseq]
    split_ifs <;> simp [hseq]

theorem compareLsa_ne_older_iff (a b : Lsa) : compareLsa a.header b.header ≠ .older ↔
      recency b = recency a ∨ RecencyNewer (recency a) (recency b) := by
  rw [← compareLsa_eq_newer_iff, eq_comm, ← compareLsa_eq_equal_iff]
  cases compareLsa a.header b.header <;> simp

/-! ## One key of the database is a cell -/

namespace LinkStateDatabase

theorem get_insert (db : LinkStateDatabase) (lsa : Lsa) (key : LsaKey) :
    (db.insert lsa).get key = if lsa.key = key then some lsa else db.get key := by
  unfold get insert
  by_cases hkey : lsa.key = key
  · subst hkey
    rw [if_pos rfl, AList.lookup_insert]
  · rw [if_neg hkey, AList.lookup_insert_ne (Ne.symm hkey)]

theorem get_receive (db : LinkStateDatabase) (lsa : Lsa) (key : LsaKey) :
    (db.receive lsa).2.get key =
      if lsa.key = key then arrive recency RecencyNewer (db.get key) lsa else db.get key := by
  unfold receive
  by_cases hkey : lsa.key = key
  · subst hkey
    rw [if_pos rfl]
    cases hget : db.get lsa.key with
    | none => simp [arrive, get_insert]
    | some existing =>
      have hnewer := compareLsa_eq_newer_iff lsa existing
      simp only [arrive, ← hnewer]
      cases hcmp : compareLsa lsa.header existing.header with
      | newer => simp [get_insert]
      | equal => simp [hget]
      | older => simp [hget]
  · rw [if_neg hkey]
    cases hget : db.get lsa.key with
    | none => simp [get_insert, hkey]
    | some existing =>
      cases hcmp : compareLsa lsa.header existing.header with
      | newer => simp [hcmp, get_insert, hkey]
      | equal => simp [hcmp]
      | older => simp [hcmp]

theorem get_receiveAll (lsas : List Lsa) (key : LsaKey) :
    (new.receiveAll lsas).get key =
      heldAfter recency RecencyNewer (lsas.filter fun lsa => lsa.key = key) := by
  induction lsas using reverseRecOn with
  | nil => simp [receiveAll, new, get, heldAfter]
  | append_singleton lsas lsa ih =>
    have hstep : new.receiveAll (lsas ++ [lsa]) = ((new.receiveAll lsas).receive lsa).2 := by
      simp [receiveAll]
    rw [hstep, get_receive, ih, filter_append]
    by_cases hkey : lsa.key = key
    · simp [hkey]
    · simp [hkey]

/-! ## Convergence -/

def Converges (lsas : List Lsa) : Prop :=
  ∀ xs ys : List Lsa, (∀ a, a ∈ xs ↔ a ∈ lsas) → (∀ a, a ∈ ys ↔ a ∈ lsas) →
    ∀ key, ((new.receiveAll xs).get key).map recency = ((new.receiveAll ys).get key).map recency

def NeverOlder : Prop :=
  ∀ (xs : List Lsa) (lsa : Lsa) (key : LsaKey) (held next : Lsa),
    (new.receiveAll xs).get key = some held →
    ((new.receiveAll xs).receive lsa).2.get key = some next →
    compareLsa next.header held.header ≠ .older

theorem neverOlder : NeverOlder := by
  intro xs lsa key held next hheld hnext
  rw [get_receive, hheld] at hnext
  rw [compareLsa_ne_older_iff]
  by_cases hkey : lsa.key = key
  · rw [if_pos hkey] at hnext
    by_cases hbeat : RecencyNewer (recency lsa) (recency held)
    · rw [show arrive recency RecencyNewer (some held) lsa = some lsa from if_pos hbeat]
        at hnext
      cases hnext
      exact Or.inr hbeat
    · rw [show arrive recency RecencyNewer (some held) lsa = some held from if_neg hbeat]
        at hnext
      cases hnext
      exact Or.inl rfl
  · rw [if_neg hkey] at hnext
    cases hnext
    exact Or.inl rfl

def HasNewest (lsas : List Lsa) (key : LsaKey) : Prop :=
  ∃ o ∈ lsas, o.key = key ∧ ∀ y ∈ lsas, y.key = key → compareLsa o.header y.header ≠ .older

theorem hasNewest_iff (lsas : List Lsa) (key : LsaKey) :
    HasNewest lsas key ↔
      ∃ o ∈ lsas.filter fun lsa => lsa.key = key,
        Dominates recency RecencyNewer (lsas.filter fun lsa => lsa.key = key) o := by
  simp only [HasNewest, Dominates, mem_filter, decide_eq_true_eq, and_imp, and_assoc,
    compareLsa_ne_older_iff]

theorem mem_filter_key {xs lsas : List Lsa} (h : ∀ a, a ∈ xs ↔ a ∈ lsas) (key : LsaKey) (a : Lsa) :
    (a ∈ xs.filter fun lsa => lsa.key = key) ↔ a ∈ lsas.filter fun lsa => lsa.key = key := by
  simp only [mem_filter, h a]

theorem Converges.at_key {lsas : List Lsa} (h : Converges lsas) (key : LsaKey) (xs ys : List Lsa)
    (hxs : ∀ a, a ∈ xs ↔ a ∈ lsas.filter fun lsa => lsa.key = key)
    (hys : ∀ a, a ∈ ys ↔ a ∈ lsas.filter fun lsa => lsa.key = key) :
    (heldAfter recency RecencyNewer xs).map recency =
      (heldAfter recency RecencyNewer ys).map recency := by
  let others := lsas.filter fun lsa => lsa.key ≠ key
  have hall : ∀ zs : List Lsa,
      (∀ a, a ∈ zs ↔ a ∈ lsas.filter fun lsa => lsa.key = key) →
      (∀ a, a ∈ zs ++ others ↔ a ∈ lsas) ∧
        (zs ++ others).filter (fun lsa => lsa.key = key) = zs := by
    intro zs hzs
    constructor
    · intro a
      simp only [others, mem_append, hzs, mem_filter, decide_eq_true_eq]
      tauto
    · rw [filter_append, filter_eq_self.mpr, filter_eq_nil_iff.mpr,
        append_nil]
      · intro a ha
        simpa [others] using (mem_filter.mp ha).2
      · intro a ha
        simpa using (mem_filter.mp ((hzs a).mp ha)).2
  have hagree := h (xs ++ others) (ys ++ others) (hall xs hxs).1 (hall ys hys).1 key
  rwa [get_receiveAll, get_receiveAll, (hall xs hxs).2, (hall ys hys).2] at hagree

/-- **Flooding convergence.**  All delivery orders of a list of instances end in
equally recent databases, and no reception ever goes back to an older instance,
exactly when under every key that occurs some instance is `Newer` than, or
`Equal` to, every other one. -/
theorem converges_iff (lsas : List Lsa) :
    (Converges lsas ∧ NeverOlder) ↔ ∀ x ∈ lsas, HasNewest lsas x.key := by
  constructor
  · rintro ⟨hconv, -⟩ x hx
    rw [hasNewest_iff]
    have hne : (lsas.filter fun lsa => lsa.key = x.key) ≠ [] :=
      ne_nil_of_mem (mem_filter.mpr ⟨hx, by simp⟩)
    exact (rank_held_agree_iff recencyNewer_asymm _ hne).mp (hconv.at_key x.key)
  · intro hnewest
    refine ⟨?_, neverOlder⟩
    intro xs ys hxs hys key
    rw [get_receiveAll, get_receiveAll]
    by_cases hne : (lsas.filter fun lsa => lsa.key = key) = []
    · have hnil : ∀ zs : List Lsa, (∀ a, a ∈ zs ↔ a ∈ lsas) →
          (zs.filter fun lsa => lsa.key = key) = [] := by
        intro zs hzs
        apply eq_nil_iff_forall_not_mem.mpr
        intro a ha
        rw [mem_filter_key hzs, hne] at ha
        cases ha
      rw [hnil xs hxs, hnil ys hys]
    · obtain ⟨x, hx⟩ := exists_mem_of_ne_nil _ hne
      obtain ⟨hmem, hkey⟩ := mem_filter.mp hx
      have hdom := (hasNewest_iff lsas x.key).mp (hnewest x hmem)
      rw [show x.key = key by simpa using hkey] at hdom
      exact (rank_held_agree_iff recencyNewer_asymm _ hne).mpr hdom _ _
        (mem_filter_key hxs key) (mem_filter_key hys key)

def rawWithSequence (seq : UInt32) : Lsa :=
  .raw
    { header :=
        { version := .v2, age := 1, options := 0, lsaType := 5, linkStateId := ⟨10, 0, 0, 0⟩,
          advertisingRouter := ⟨1, 1, 1, 1⟩, sequenceNumber := seq, checksum := 0,
          length := 20 }
      body := [] }

/-- The sequence numbers `0`, `0x30000000` and `0x60000000` are newer than one
another in a circle, so the database keeps whichever arrived last. -/
theorem not_converges_circle :
    ¬ (Converges [rawWithSequence 0, rawWithSequence 0x30000000, rawWithSequence 0x60000000] ∧
      NeverOlder) := by
  rintro ⟨h, -⟩
  have hagree := h [rawWithSequence 0, rawWithSequence 0x30000000, rawWithSequence 0x60000000]
    [rawWithSequence 0x30000000, rawWithSequence 0x60000000, rawWithSequence 0]
    (fun _ => Iff.rfl) (by intro a; simp only [mem_cons, not_mem_nil]; tauto)
    (rawWithSequence 0).key
  revert hagree
  decide

end LinkStateDatabase

def initialSequence : UInt32 := 0x80000001

/-! ## Recency as RFC 2328 orders sequence numbers -/

def LsaOrdering.opposite : LsaOrdering → LsaOrdering
  | older => newer
  | equal => equal
  | newer => older

/-- The numbers that the wrap-around difference orders as signed integers: those of one sign
at most `2 ^ 30` apart, and those of different signs that are farther apart and less than
`2 ^ 31`, or just `2 ^ 31` if the first is negative. -/
def SignedLike (a b : UInt32) : Prop :=
  let d : ℤ := (a.toNat : ℤ) - b.toNat
  ((a.toNat < 2 ^ 31 ↔ b.toNat < 2 ^ 31) ∧ -2 ^ 30 ≤ d ∧ d ≤ 2 ^ 30) ∨
    (b.toNat < 2 ^ 31 ∧ 2 ^ 31 ≤ a.toNat ∧ 2 ^ 30 < d ∧ d ≤ 2 ^ 31) ∨
    (a.toNat < 2 ^ 31 ∧ 2 ^ 31 ≤ b.toNat ∧ -2 ^ 31 < d ∧ d < -2 ^ 30)

theorem seqDiff_pos_iff_signed {a b : UInt32} (h : a ≠ b) :
    (0 < seqDiff a b ↔ b.toBitVec.toInt < a.toBitVec.toInt) ↔ SignedLike a b := by
  have hne : a.toNat ≠ b.toNat := fun heq => h (UInt32.toNat_inj.mp heq)
  have ha := a.toNat_lt
  have hb := b.toNat_lt
  simp only [seqDiff, SignedLike, BitVec.toInt_eq_toNat_cond, UInt32.toNat_toBitVec]
  split_ifs <;> omega

theorem compareLsa_swap_iff (a b : LsaHeader) : compareLsa b a = (compareLsa a b).opposite ↔
      a.sequenceNumber = b.sequenceNumber ∨
        seqDiff a.sequenceNumber b.sequenceNumber ≠ 0 := by
  simp only [compareLsa, eq_comm (a := b.sequenceNumber), seqDiff_neg a.sequenceNumber]
  by_cases hseq : a.sequenceNumber = b.sequenceNumber
  · simp only [hseq, if_true, true_or, iff_true]
    by_cases ha : a.age = maxAge <;> by_cases hb : b.age = maxAge <;>
      simp only [ha, hb, ne_eq, not_true, not_false_eq_true, and_true, and_false, if_true, if_false,
        gt_iff_lt, UInt16.lt_iff_toNat_lt, ← UInt16.toNat_inj] <;>
      first | rfl | (split_ifs <;> first | rfl | omega)
  · simp only [hseq, if_false, false_or]
    split_ifs <;> simp [LsaOrdering.opposite] <;> omega

/-- **Recency against the signed order.**  `compare_lsa` answers as RFC 2328 orders the sequence
numbers exactly for the pairs of `SignedLike`, and both ways round its answers are opposite
exactly if the numbers are not `2 ^ 31` apart. -/
theorem compareLsa_signed_iff (a b : LsaHeader) : (a.sequenceNumber ≠ b.sequenceNumber →
      ((compareLsa a b = .newer ↔
          b.sequenceNumber.toBitVec.toInt < a.sequenceNumber.toBitVec.toInt) ↔
        SignedLike a.sequenceNumber b.sequenceNumber)) ∧
    (compareLsa b a = (compareLsa a b).opposite ↔
      (a.sequenceNumber.toNat : ℤ) - b.sequenceNumber.toNat ≠ 2 ^ 31 ∧
        (b.sequenceNumber.toNat : ℤ) - a.sequenceNumber.toNat ≠ 2 ^ 31) := by
  refine ⟨fun hseq => ?_, ?_⟩
  · have hnewer : compareLsa a b = .newer ↔ 0 < seqDiff a.sequenceNumber b.sequenceNumber := by
      simp only [compareLsa, if_neg hseq]
      split_ifs with h <;> simp [h]
    rw [hnewer, seqDiff_pos_iff_signed hseq]
  · rw [compareLsa_swap_iff, ← UInt32.toNat_inj, seqDiff]
    have ha := a.sequenceNumber.toNat_lt
    have hb := b.sequenceNumber.toNat_lt
    split_ifs <;> omega

/-- The initial sequence number and one `2 ^ 31` away from it are each older than the other. -/
theorem older_both_ways :
    let one := (LinkStateDatabase.rawWithSequence 1).header
    let initial := (LinkStateDatabase.rawWithSequence initialSequence).header
    compareLsa one initial = .older ∧ compareLsa initial one = .older ∧
      initial.sequenceNumber.toBitVec.toInt < one.sequenceNumber.toBitVec.toInt := by
  decide

end TptRfc.Ospf
