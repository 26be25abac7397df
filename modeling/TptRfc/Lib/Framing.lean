import TptRfc.Lib.Bytes
import TptRfc.Lib.Exec

/-!
# Incremental frame decoders

A frame decoder keeps a buffer.  Every `push` appends what has arrived and takes frames off the
front as long as there are any.
-/

namespace TptRfc.Lib.Framing

open List

open Exec

variable {ε α : Type} (extract : Exec Bytes ε (Option α))

def drain : ℕ → List α → Exec Bytes ε (List α)
  | 0, _ => abort
  | fuel + 1, out => do
    match ← extract with
    | none => pure out
    | some a => drain fuel (out ++ [a])

def push (data : Bytes) : Exec Bytes ε (List α) := do
  modify (· ++ data)
  let buf ← get
  drain extract (buf.length + 1) []

def pushAll {σ : Type} (push : Bytes → Exec σ ε (List α)) : List Bytes → Exec σ ε (List α)
  | [] => pure []
  | data :: more => do
    let out ← push data
    let out' ← pushAll push more
    pure (out ++ out')

/-- The items that the pushes return before one fails, and where they end. -/
def deliver {σ : Type} (push : Bytes → Exec σ ε (List α)) :
    List Bytes → σ → List α × Except (Fault ε) σ
  | [], s => ([], .ok s)
  | data :: parts, s =>
    match push data s with
    | (.ok out, s') => (out ++ (deliver push parts s').1, (deliver push parts s').2)
    | (.error e, _) => ([], .error e)

def stream (frames : List (Bytes × α)) : Bytes := frames.flatMap Prod.fst

structure Stable : Prop where
  wait : ∀ buf rest, extract buf = (.ok none, rest) → rest = buf
  more : ∀ buf r rest, extract buf = (r, rest) → r ≠ .ok none →
    ∀ data, extract (buf ++ data) = (r, rest ++ data)
  shrinks : ∀ buf a rest, extract buf = (.ok (some a), rest) → rest.length < buf.length

variable {extract} {fuel fuel' : ℕ} {out : List α} {buf data rest : Bytes} {parts : List Bytes}
  {a : α} {e : Fault ε}

theorem drain_none (h : extract buf = (.ok none, buf)) :
    drain extract (fuel + 1) out buf = (.ok out, buf) := by
  simp only [drain, Bind.bind, Exec.bind, h]
  rfl

theorem drain_some (h : extract buf = (.ok (some a), rest)) :
    drain extract (fuel + 1) out buf = drain extract fuel (out ++ [a]) rest := by
  simp only [drain, Bind.bind, Exec.bind, h]

theorem drain_error (h : extract buf = (.error e, rest)) :
    drain extract (fuel + 1) out buf = (.error e, rest) := by
  simp only [drain, Bind.bind, Exec.bind, h]

theorem drain_acc (pre : List α) (fuel : ℕ) (out : List α) (buf : Bytes) :
    drain extract fuel (pre ++ out) buf =
      ((drain extract fuel out buf).1.map (pre ++ ·), (drain extract fuel out buf).2) := by
  induction fuel generalizing out buf with
  | zero => rfl
  | succ fuel ih =>
    simp only [drain, Bind.bind, Exec.bind]
    match extract buf with
    | (.ok none, rest) => rfl
    | (.ok (some a), rest) =>
      dsimp only
      rw [append_assoc, ih]
    | (.error e, rest) => rfl

theorem drain_fuel (hs : Stable extract) (h : buf.length < fuel) (h' : buf.length < fuel') :
    drain extract fuel out buf = drain extract fuel' out buf := by
  induction fuel generalizing buf fuel' out with
  | zero => omega
  | succ fuel ih =>
    obtain ⟨fuel', rfl⟩ := Nat.exists_eq_succ_of_ne_zero (Nat.ne_zero_of_lt h')
    match heq : extract buf with
    | (.ok none, rest) =>
      obtain rfl := hs.wait _ _ heq
      rw [drain_none heq, drain_none heq]
    | (.ok (some a), rest) =>
      have := hs.shrinks _ _ _ heq
      rw [drain_some heq, drain_some heq]
      exact ih (by omega) (by omega)
    | (.error e, rest) => rw [drain_error heq, drain_error heq]

/-- Bytes that arrive later are drained with what was left. -/
theorem drain_append (hs : Stable extract) (hfuel : buf.length < fuel)
    (hfuel' : (buf ++ data).length < fuel') :
    match drain extract fuel out buf with
    | (.ok out', left) => extract left = (.ok none, left) ∧
        drain extract fuel' out (buf ++ data) =
          drain extract ((left ++ data).length + 1) out' (left ++ data)
    | (.error e, _) => (drain extract fuel' out (buf ++ data)).1 = .error e := by
  induction fuel generalizing fuel' out buf with
  | zero => omega
  | succ fuel ih =>
    obtain ⟨fuel', rfl⟩ := Nat.exists_eq_succ_of_ne_zero (Nat.ne_zero_of_lt hfuel')
    match heq : extract buf with
    | (.ok none, rest) =>
      obtain rfl := hs.wait _ _ heq
      rw [drain_none heq]
      exact ⟨heq, drain_fuel hs hfuel' (Nat.lt_succ_self _)⟩
    | (.ok (some a), rest) =>
      have hlt := hs.shrinks _ _ _ heq
      rw [drain_some heq, drain_some (hs.more _ _ _ heq nofun data)]
      rw [length_append] at hfuel'
      exact ih (by omega) (by rw [length_append]; omega)
    | (.error e, rest) => rw [drain_error heq, drain_error (hs.more _ _ _ heq nofun data)]

theorem push_eq (data buf : Bytes) :
    push extract data buf = drain extract ((buf ++ data).length + 1) [] (buf ++ data) := rfl

/-- Pushed in parts, a stream gives the items that it gives when pushed at once, or it fails in
the same way. -/
theorem push_flatten (hs : Stable extract) (parts : List Bytes) {buf : Bytes}
    (hbuf : extract buf = (.ok none, buf)) :
    match deliver (push extract) parts buf with
    | (out, .ok left) => push extract parts.flatten buf = (.ok out, left)
    | (_, .error e) => (push extract parts.flatten buf).1 = .error e := by
  induction parts generalizing buf with
  | nil =>
    rw [flatten_nil, push_eq, append_nil, drain_none hbuf]
    rfl
  | cons data parts ih =>
    have happ := @drain_append _ _ _ _ _ [] _ parts.flatten hs
      (Nat.lt_succ_self (buf ++ data).length) (Nat.lt_succ_self _)
    rw [← push_eq] at happ
    rw [flatten_cons, push_eq, ← append_assoc]
    match hpush : push extract data buf with
    | (.ok out, left) =>
      rw [hpush] at happ
      obtain ⟨hleft, hwhole⟩ := happ
      have hmore := ih hleft
      rw [hwhole, ← append_nil out, drain_acc, ← push_eq]
      simp only [deliver, hpush]
      revert hmore
      obtain ⟨out', e | left'⟩ := deliver (push extract) parts left
      · intro hmore
        rw [hmore]
        rfl
      · intro hmore
        rw [hmore]
        rfl
    | (.error e, left) =>
      rw [hpush] at happ
      simp only [deliver, hpush]
      exact happ

theorem pushAll_of_deliver {σ : Type} {push : Bytes → Exec σ ε (List α)} {s s' : σ}
    (h : deliver push parts s = (out, .ok s')) :
    pushAll push parts s = (.ok out, s') := by
  induction parts generalizing s out with
  | nil =>
    cases h
    rfl
  | cons data parts ih =>
    rw [deliver] at h
    split at h
    · rename_i out' mid hpush
      obtain ⟨rfl, hmid⟩ := Prod.mk.inj h
      simp only [pushAll, Bind.bind, Exec.bind, hpush, ih (Prod.ext rfl hmid)]
      rfl
    · cases h

theorem drain_stream (hs : Stable extract) {frames : List (Bytes × α)}
    (hframes : ∀ f ∈ frames, extract f.1 = (.ok (some f.2), []))
    (hfuel : (stream frames ++ rest).length < fuel) :
    drain extract fuel out (stream frames ++ rest) =
      drain extract (rest.length + 1) (out ++ frames.map Prod.snd) rest := by
  induction frames generalizing fuel out with
  | nil =>
    rw [map_nil, append_nil]
    exact drain_fuel hs hfuel (Nat.lt_succ_self _)
  | cons f frames ih =>
    obtain ⟨hf, hmore⟩ := forall_mem_cons.mp hframes
    have hpos : 0 < f.1.length := hs.shrinks _ _ _ hf
    rw [stream, flatMap_cons, ← stream, append_assoc] at hfuel ⊢
    rw [length_append] at hfuel
    obtain ⟨fuel, rfl⟩ := Nat.exists_eq_succ_of_ne_zero (Nat.ne_zero_of_lt hfuel)
    rw [drain_some (hs.more _ _ _ hf nofun _), nil_append, ih hmore (by omega), append_assoc,
      map_cons, singleton_append]

/-- Out of a stream of frames come their items, in order and however the stream is cut. -/
theorem deliver_frames (hs : Stable extract) (hnil : extract [] = (.ok none, []))
    {frames : List (Bytes × α)} (hframes : ∀ f ∈ frames, extract f.1 = (.ok (some f.2), []))
    (hrest : extract rest = (.ok none, rest))
    (hparts : parts.flatten = stream frames ++ rest) :
    deliver (push extract) parts [] = (frames.map Prod.snd, .ok rest) := by
  have hwhole := push_flatten hs parts hnil
  rw [hparts, push_eq, nil_append, drain_stream hs hframes (Nat.lt_succ_self _), drain_none hrest,
    nil_append] at hwhole
  revert hwhole
  obtain ⟨out, e | left⟩ := deliver (push extract) parts []
  · exact fun h => nomatch h
  · rintro ⟨⟩
    rfl

theorem pushAll_frames (hs : Stable extract) (hnil : extract [] = (.ok none, []))
    {frames : List (Bytes × α)} (hframes : ∀ f ∈ frames, extract f.1 = (.ok (some f.2), []))
    (hparts : parts.flatten = stream frames) :
    pushAll (push extract) parts [] = (.ok (frames.map Prod.snd), []) :=
  pushAll_of_deliver (deliver_frames hs hnil hframes hnil (hparts.trans (append_nil _).symm))

/-! ## Streams in any parts -/

/-- Nothing is delivered before a fault in the first frame. -/
theorem deliver_of_fault (hs : Stable extract)
    (h : extract (buf ++ parts.flatten) = (.error e, rest)) :
    (deliver (push extract) parts buf).1 = [] := by
  induction parts generalizing buf with
  | nil => rfl
  | cons data parts ih =>
    rw [flatten_cons, ← append_assoc] at h
    rw [deliver, push_eq]
    match heq : extract (buf ++ data) with
    | (.ok none, rest) =>
      obtain rfl := hs.wait _ _ heq
      rw [drain_none heq]
      exact ih h
    | (.ok (some a), rest) => cases (hs.more _ _ _ heq nofun parts.flatten).symm.trans h
    | (.error e', rest) => rw [drain_error heq]

section Frames

variable (hs : Stable extract) (hnil : extract [] = (.ok none, []))
  (hframe : ∀ buf a rest, extract buf = (.ok (some a), rest) →
    ∃ f, buf = f ++ rest ∧ extract f = (.ok (some a), []))

include hs hframe in
/-- A stream is a row of frames and a rest that is no frame. -/
theorem exists_frames (buf : Bytes) : ∃ frames rest, buf = stream frames ++ rest ∧
    (∀ f ∈ frames, extract f.1 = (.ok (some f.2), [])) ∧
      (extract rest = (.ok none, rest) ∨ ∃ e r, extract rest = (.error e, r)) := by
  induction hn : buf.length using Nat.strong_induction_on generalizing buf with
  | _ n ih =>
    subst hn
    match heq : extract buf with
    | (.ok none, rest) =>
      obtain rfl := hs.wait _ _ heq
      exact ⟨[], _, rfl, forall_mem_nil _, .inl heq⟩
    | (.ok (some a), rest) =>
      obtain ⟨frames, rest', rfl, hframes, hrest⟩ := ih _ (hs.shrinks _ _ _ heq) rest rfl
      obtain ⟨f, rfl, hf⟩ := hframe _ _ _ heq
      exact ⟨(f, a) :: frames, rest', (append_assoc f (stream frames) rest').symm,
        forall_mem_cons.mpr ⟨hf, hframes⟩, hrest⟩
    | (.error e, rest) => exact ⟨[], buf, rfl, forall_mem_nil _, .inr ⟨e, rest, heq⟩⟩

include hs hnil in
/-- How the pushes end does not depend on how the stream is cut. -/
theorem deliver_snd (parts : List Bytes) : (deliver (push extract) parts []).2 =
    (push extract parts.flatten []).1.map fun _ => (push extract parts.flatten []).2 := by
  have hwhole := push_flatten hs parts hnil
  revert hwhole
  obtain ⟨out, e | left⟩ := deliver (push extract) parts [] <;> intro hwhole <;> rw [hwhole] <;> rfl

include hs hnil hframe in
/-- The pushes of a stream fail exactly if a fault stands behind some frames. -/
theorem deliver_fails_iff :
    (deliver (push extract) parts []).2 = .error e ↔ ∃ frames rest r,
      parts.flatten = stream frames ++ rest ∧
        (∀ f ∈ frames, extract f.1 = (.ok (some f.2), [])) ∧ extract rest = (.error e, r) := by
  rw [deliver_snd hs hnil, push_eq, nil_append]
  constructor
  · obtain ⟨frames, rest, heq, hframes, hrest⟩ := exists_frames hs hframe parts.flatten
    rw [heq, drain_stream hs hframes (Nat.lt_succ_self _)]
    rcases hrest with hrest | ⟨e', r, hrest⟩
    · rw [drain_none hrest]
      exact fun h => nomatch h
    · rw [drain_error hrest]
      rintro ⟨⟩
      exact ⟨frames, rest, r, rfl, hframes, hrest⟩
  · rintro ⟨frames, rest, r, heq, hframes, hrest⟩
    rw [heq, drain_stream hs hframes (Nat.lt_succ_self _), drain_error hrest]
    rfl

include hs hnil hframe in
/-- The items do not depend on how the stream is cut exactly if no fault stands behind a frame:
pushed in one part the items are lost with it, pushed in two they are not. -/
theorem deliver_fst_congr_iff (bytes : Bytes) :
    (∀ parts parts', parts.flatten = bytes → parts'.flatten = bytes →
      (deliver (push extract) parts []).1 = (deliver (push extract) parts' []).1) ↔
    ∀ frames rest e r, bytes = stream frames ++ rest →
      (∀ f ∈ frames, extract f.1 = (.ok (some f.2), [])) → extract rest = (.error e, r) →
        frames = [] := by
  constructor
  · rintro h frames rest e r rfl hframes hrest
    have htwo := h [stream frames ++ rest] [stream frames, rest] (by simp) (by simp)
    have hframes' := @drain_stream _ _ _ _ [] [] hs _ hframes (Nat.lt_succ_self _)
    rw [append_nil, drain_none hnil, nil_append] at hframes'
    simp only [deliver, push_eq, nil_append, drain_stream hs hframes (Nat.lt_succ_self _),
      drain_error hrest, hframes', append_nil] at htwo
    exact map_eq_nil_iff.mp htwo.symm
  · rintro h parts parts' hparts hparts'
    obtain ⟨frames, rest, heq, hframes, hrest⟩ := exists_frames hs hframe bytes
    rcases hrest with hrest | ⟨e, r, hrest⟩
    · rw [deliver_frames hs hnil hframes hrest (hparts.trans heq),
        deliver_frames hs hnil hframes hrest (hparts'.trans heq)]
    · obtain rfl := h frames rest e r heq hframes hrest
      have hfault : extract ([] ++ bytes) = (.error e, r) := by
        rw [heq]
        exact hrest
      rw [deliver_of_fault hs (hparts ▸ hfault), deliver_of_fault hs (hparts' ▸ hfault)]

end Frames

end TptRfc.Lib.Framing
