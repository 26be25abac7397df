import Mathlib

/-!
# Keeping the best item seen

A cell holds at most one item.
-/

namespace TptRfc.Lib

open List

variable {α τ : Type} (f : α → τ) (R : τ → τ → Prop) [DecidableRel R]

def arrive (held : Option α) (a : α) : Option α :=
  match held with
  | none => some a
  | some b => if R (f a) (f b) then some a else some b

def heldAfter (items : List α) : Option α := items.foldl (arrive f R) none

@[simp] theorem heldAfter_nil : heldAfter f R [] = none := rfl

@[simp] theorem heldAfter_concat (items : List α) (a : α) :
    heldAfter f R (items ++ [a]) = arrive f R (heldAfter f R items) a := by
  simp [heldAfter]

theorem mem_of_heldAfter {items : List α} {b : α} (h : heldAfter f R items = some b) :
    b ∈ items := by
  induction items using reverseRecOn generalizing b with
  | nil => cases h
  | append_singleton items a ih =>
    rw [heldAfter_concat] at h
    cases hheld : heldAfter f R items with
    | none =>
      rw [hheld] at h
      cases h
      simp
    | some c =>
      rw [hheld] at h
      by_cases hbeat : R (f a) (f c)
      · rw [show arrive f R (some c) a = some a from if_pos hbeat] at h
        cases h
        simp
      · rw [show arrive f R (some c) a = some c from if_neg hbeat] at h
        cases h
        exact mem_append_left _ (ih hheld)

theorem exists_heldAfter {items : List α} (h : items ≠ []) : ∃ b, heldAfter f R items = some b := by
  induction items using reverseRecOn with
  | nil => exact absurd rfl h
  | append_singleton items a _ =>
    rw [heldAfter_concat]
    cases heldAfter f R items with
    | none => exact ⟨a, rfl⟩
    | some c =>
      unfold arrive
      by_cases hbeat : R (f a) (f c)
      · exact ⟨a, if_pos hbeat⟩
      · exact ⟨c, if_neg hbeat⟩

def Dominates (items : List α) (o : α) : Prop := ∀ a ∈ items, f a = f o ∨ R (f o) (f a)

variable {f R}

theorem rank_heldAfter_of_dominates (hasymm : ∀ x y, R x y → ¬ R y x) {o : α}
    (items : List α) (ho : o ∈ items) (hdom : Dominates f R items o) :
    ∃ b, heldAfter f R items = some b ∧ f b = f o := by
  induction items using reverseRecOn with
  | nil => cases ho
  | append_singleton items a ih =>
    rw [heldAfter_concat]
    have hdom' : Dominates f R items o := fun b hb => hdom b (mem_append_left _ hb)
    by_cases hmem : o ∈ items
    · obtain ⟨b, hheld, hb⟩ := ih hmem hdom'
      rw [hheld]
      rcases hdom a (by simp) with ha | ha
      · by_cases hbeat : R (f a) (f b)
        · exact ⟨a, if_pos hbeat, ha⟩
        · exact ⟨b, if_neg hbeat, hb⟩
      · exact ⟨b, if_neg (hb ▸ hasymm _ _ ha), hb⟩
    · -- the dominating item is the one that arrives now
      obtain rfl : o = a := by simpa [hmem] using ho
      cases hheld : heldAfter f R items with
      | none => exact ⟨o, rfl, rfl⟩
      | some b =>
        rcases hdom' b (mem_of_heldAfter f R hheld) with hb | hb
        · by_cases hbeat : R (f o) (f b)
          · exact ⟨o, if_pos hbeat, rfl⟩
          · exact ⟨b, if_neg hbeat, hb⟩
        · exact ⟨o, if_pos hb, rfl⟩

theorem not_beats_heldAfter (hasymm : ∀ x y, R x y → ¬ R y x) {items : List α} {b : α}
    (htrans : ∀ x ∈ items, ∀ y ∈ items, ∀ z ∈ items, R (f x) (f y) → R (f y) (f z) → R (f x) (f z))
    (h : heldAfter f R items = some b) : ∀ a ∈ items, ¬ R (f a) (f b) := by
  induction items using reverseRecOn generalizing b with
  | nil => nofun
  | append_singleton items c ih =>
    rw [heldAfter_concat] at h
    have ih' := fun {b'} => @ih b' fun x hx y hy z hz =>
      htrans x (mem_append_left _ hx) y (mem_append_left _ hy) z
        (mem_append_left _ hz)
    have hc : c ∈ items ++ [c] := by simp
    intro a ha
    have ha' : a ∈ items ∨ a = c := by simpa using ha
    cases hheld : heldAfter f R items with
    | none =>
      rw [hheld] at h
      cases h
      rcases ha' with hin | rfl
      · obtain ⟨d, hd⟩ := exists_heldAfter f R (ne_nil_of_mem hin)
        rw [hheld] at hd
        cases hd
      · exact fun hself => hasymm _ _ hself hself
    | some d =>
      have hd := mem_append_left [c] (mem_of_heldAfter f R hheld)
      rw [hheld] at h
      by_cases hbeat : R (f c) (f d)
      · rw [show arrive f R (some d) c = some c from if_pos hbeat] at h
        cases h
        rcases ha' with hin | rfl
        · exact fun hac => ih' hheld a hin (htrans a ha c hc d hd hac hbeat)
        · exact fun hself => hasymm _ _ hself hself
      · rw [show arrive f R (some d) c = some d from if_neg hbeat] at h
        cases h
        rcases ha' with hin | rfl
        · exact ih' hheld a hin
        · exact hbeat

theorem foldl_arrive_of_not_beats {b : α} (items : List α) (h : ∀ a ∈ items, ¬ R (f a) (f b)) :
    items.foldl (arrive f R) (some b) = some b := by
  induction items with
  | nil => rfl
  | cons a items ih =>
    rw [foldl_cons]
    have hb : arrive f R (some b) a = some b := if_neg (h a mem_cons_self)
    rw [hb]
    exact ih fun c hc => h c (mem_cons_of_mem _ hc)

theorem rank_foldl_arrive_ne {o : α} (items : List α) (h : ∀ a ∈ items, f a ≠ f o) :
    ∀ b, f b ≠ f o →
      ∃ c, items.foldl (arrive f R) (some b) = some c ∧ f c ≠ f o := by
  induction items with
  | nil => exact fun b hb => ⟨b, rfl, hb⟩
  | cons a items ih =>
    intro b hb
    have htail := ih fun c hc => h c (mem_cons_of_mem _ hc)
    rw [foldl_cons]
    by_cases hbeat : R (f a) (f b)
    · rw [show arrive f R (some b) a = some a from if_pos hbeat]
      exact htail a (h a mem_cons_self)
    · rw [show arrive f R (some b) a = some b from if_neg hbeat]
      exact htail b hb

/-- **Order independence of a cell.**  For an asymmetric relation, the final rank
is the same for any two lists of arrivals with the items of `items` exactly when
one item beats every item of another rank. -/
theorem rank_held_agree_iff [DecidableEq τ] (hasymm : ∀ x y, R x y → ¬ R y x)
    (items : List α) (hne : items ≠ []) :
    (∀ xs ys : List α, (∀ a, a ∈ xs ↔ a ∈ items) → (∀ a, a ∈ ys ↔ a ∈ items) →
      (heldAfter f R xs).map f = (heldAfter f R ys).map f) ↔
    ∃ o ∈ items, Dominates f R items o := by
  constructor
  · intro hagree
    obtain ⟨o, ho⟩ := exists_heldAfter f R hne
    refine ⟨o, mem_of_heldAfter f R ho, ?_⟩
    intro a ha
    by_contra hnot
    push Not at hnot
    obtain ⟨hrank, hbeat⟩ := hnot
    -- deliver `a` first, then the items of `o`'s rank, which do not beat `a`, then the rest
    let others := items.filter fun b => f b ≠ f o
    let same := items.filter fun b => f b = f o
    have hmem : ∀ b, b ∈ a :: (same ++ others) ↔ b ∈ items := by
      intro b
      simp only [same, others, mem_cons, mem_append, mem_filter, decide_eq_true_eq]
      constructor
      · rintro (rfl | ⟨hb, -⟩ | ⟨hb, -⟩)
        · exact ha
        · exact hb
        · exact hb
      · intro hb
        by_cases hfb : f b = f o
        · exact Or.inr (Or.inl ⟨hb, hfb⟩)
        · exact Or.inr (Or.inr ⟨hb, hfb⟩)
    have hsame : same.foldl (arrive f R) (some a) = some a := by
      apply foldl_arrive_of_not_beats
      intro b hb
      have hfb : f b = f o := by simpa [same] using (mem_filter.mp hb).2
      rwa [hfb]
    obtain ⟨c, hc, hcrank⟩ := rank_foldl_arrive_ne (f := f) (R := R) (o := o) others
      (fun b hb => by simpa [others] using (mem_filter.mp hb).2) a hrank
    have hfinal : heldAfter f R (a :: (same ++ others)) = some c := by
      rw [heldAfter, foldl_cons, foldl_append]
      change others.foldl (arrive f R) (same.foldl (arrive f R) (some a)) = some c
      rw [hsame, hc]
    have := hagree items (a :: (same ++ others)) (fun _ => Iff.rfl) hmem
    rw [ho, hfinal, Option.map_some, Option.map_some, Option.some_inj] at this
    exact hcrank this.symm
  · rintro ⟨o, ho, hdom⟩ xs ys hxs hys
    obtain ⟨b, hb, hbrank⟩ := rank_heldAfter_of_dominates hasymm xs ((hxs o).mpr ho)
      fun a ha => hdom a ((hxs a).mp ha)
    obtain ⟨c, hc, hcrank⟩ := rank_heldAfter_of_dominates hasymm ys ((hys o).mpr ho)
      fun a ha => hdom a ((hys a).mp ha)
    rw [hb, hc, Option.map_some, Option.map_some, hbrank, hcrank]

/-- **Order independence without repetitions.**  For distinct items, what is held at
the end is the same for any two orders exactly when one item beats all the others. -/
theorem held_agree_perm_iff [DecidableEq α] {R : α → α → Prop} [DecidableRel R]
    (hasymm : ∀ x y, R x y → ¬ R y x) {items : List α} (hnodup : items.Nodup) (hne : items ≠ []) :
    (∀ xs ys : List α, xs.Perm items → ys.Perm items → heldAfter id R xs = heldAfter id R ys) ↔
    ∃ o ∈ items, ∀ a ∈ items, a ≠ o → R o a := by
  constructor
  · intro hagree
    obtain ⟨o, ho⟩ := exists_heldAfter id R hne
    have hmem := mem_of_heldAfter id R ho
    refine ⟨o, hmem, ?_⟩
    intro a ha hao
    by_contra hbeat
    -- let `a` come first and `o`, which does not beat it, second: `o` never gets in
    have hperm : (a :: o :: (items.erase a).erase o).Perm items := by
      have hin : o ∈ items.erase a := (mem_erase_of_ne hao.symm).mpr hmem
      exact ((perm_cons_erase hin).symm.cons a).trans (perm_cons_erase ha).symm
    have hrest : ∀ b ∈ (items.erase a).erase o, id b ≠ id o := by
      rintro b hb rfl
      exact (hnodup.erase a).not_mem_erase hb
    obtain ⟨c, hc, hco⟩ := rank_foldl_arrive_ne (R := R) (o := o) _ hrest a hao
    have hfinal : heldAfter id R (a :: o :: (items.erase a).erase o) = some c := by
      rw [heldAfter, foldl_cons, foldl_cons]
      change foldl _ (arrive id R (some a) o) _ = _
      rw [show arrive id R (some a) o = some a from if_neg hbeat, hc]
    have := hagree items _ (Perm.refl _) hperm
    rw [ho, hfinal, Option.some_inj] at this
    exact hco this.symm
  · rintro ⟨o, ho, hbeats⟩ xs ys hxs hys
    have hheld : ∀ zs : List α, zs.Perm items → heldAfter id R zs = some o := by
      intro zs hzs
      have hdom : Dominates id R zs o := by
        intro a ha
        by_cases hao : a = o
        · exact .inl hao
        · exact .inr (hbeats a (hzs.mem_iff.mp ha) hao)
      obtain ⟨b, hb, hbo⟩ := rank_heldAfter_of_dominates hasymm zs (hzs.mem_iff.mpr ho) hdom
      rw [hb]
      exact congrArg some hbo
    rw [hheld xs hxs, hheld ys hys]

end TptRfc.Lib
