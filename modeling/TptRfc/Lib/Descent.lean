import TptRfc.Lib.Parser

/-!
# Recursive descent

A decoder of nested data calls itself on what follows a head, and repeats such calls a given number
of times or up to a stop byte.
-/

namespace TptRfc.Lib

open List

universe u

variable {ε : Type u} {α β : Type}

namespace Parser

variable {p : Parser ε α} {f : α → Parser ε β}

/-! ## Reading forward -/

def Bounded (p : Parser ε α) : Prop :=
  ∀ bytes a rest, p bytes = .ok (a, rest) → rest.length ≤ bytes.length

theorem Shrinks.bounded (h : Shrinks p) : Bounded p :=
  fun bytes a rest hp => (h bytes a rest hp).le

theorem bounded_pure (a : α) : Bounded (pure a : Parser ε α) := by
  intro bytes b rest h
  cases h
  exact le_rfl

theorem Bounded.bind (hp : Bounded p)
    (hf : ∀ a, Bounded (f a)) : Bounded (p >>= f) := by
  intro bytes b rest h
  obtain ⟨a, mid, hfirst, hsecond⟩ := bind_eq_ok h
  exact (hf a _ _ _ hsecond).trans (hp _ _ _ hfirst)

theorem Shrinks.bind_bounded (hp : Shrinks p)
    (hf : ∀ a, Bounded (f a)) : Shrinks (p >>= f) := by
  intro bytes b rest h
  obtain ⟨a, mid, hfirst, hsecond⟩ := bind_eq_ok h
  exact (hf a _ _ _ hsecond).trans_lt (hp _ _ _ hfirst)

theorem bounded_lift (r : Except ε α) : Bounded (lift r) := by
  intro bytes a rest h
  obtain ⟨-, rfl⟩ := lift_eq_ok h
  exact le_rfl

theorem bounded_takeBytes (e : ε) (n : ℕ) : Bounded (takeBytes e n) := by
  intro bytes a rest h
  obtain ⟨rfl, -⟩ := takeBytes_eq_ok h
  simp

theorem shrinks_takeU8 (e : ε) : Shrinks (takeU8 e) := by
  intro bytes a rest h
  cases bytes with
  | nil => cases h
  | cons b bytes =>
    cases h
    simp

theorem bind_eq_error_iff {bytes : Bytes} {e : ε} :
    (p >>= f) bytes = .error e ↔
      p bytes = .error e ∨ ∃ a mid, p bytes = .ok (a, mid) ∧ f a mid = .error e := by
  cases hp : p bytes with
  | error e' =>
    rw [bind_of_error hp]
    simp
  | ok r =>
    obtain ⟨a, mid⟩ := r
    rw [bind_of_ok hp]
    simp

/-- A relation between outcomes that holds for two programs if it does for their parts. -/
structure Composes (ρ : ∀ {α : Type}, Except ε (α × Bytes) → Except ε (α × Bytes) → Prop) :
    Prop where
  refl : ∀ {α : Type} (x : Except ε (α × Bytes)), ρ x x
  bind : ∀ {α β : Type} {p q : Parser ε α} {f g : α → Parser ε β} {bytes : Bytes},
    ρ (p bytes) (q bytes) → (∀ a rest, q bytes = .ok (a, rest) → ρ (f a rest) (g a rest)) →
    ρ ((p >>= f) bytes) ((q >>= g) bytes)

structure Reads (e : ε) (p : Parser ε α) : Prop where
  nil : p [] = .error e
  shrinks : Shrinks p

theorem Reads.bind {e : ε} (hp : Reads e p)
    (hf : ∀ a, Bounded (f a)) : Reads e (p >>= f) :=
  ⟨bind_of_error hp.nil, hp.shrinks.bind_bounded hf⟩

/-! ## Recursion -/

def fixAux (e : ε) (F : Parser ε α → Parser ε α) : ℕ → Parser ε α
  | 0 => fun _ => .error e
  | fuel + 1 => F (fixAux e F fuel)

def fix (e : ε) (F : Parser ε α → Parser ε α) : Parser ε α := fun bytes =>
  fixAux e F bytes.length bytes

structure Descends (e : ε) (F : Parser ε α → Parser ε α) : Prop where
  reads : ∀ p, Reads e p → Reads e (F p)
  congr : ∀ p q bytes, Reads e p → Reads e q →
    (∀ b : Bytes, b.length < bytes.length → p b = q b) → F p bytes = F q bytes

section Fix

variable {e : ε} {F : Parser ε α → Parser ε α} (h : Descends e F)

include h

theorem reads_fixAux (fuel : ℕ) : Reads e (fixAux e F fuel) := by
  induction fuel with
  | zero => exact ⟨rfl, fun bytes a rest hp => by cases hp⟩
  | succ fuel ih => exact h.reads _ ih

theorem fixAux_fuel : ∀ (fuel fuel' : ℕ) (bytes : Bytes), bytes.length ≤ fuel →
    bytes.length ≤ fuel' → fixAux e F fuel bytes = fixAux e F fuel' bytes := by
  intro fuel
  induction fuel with
  | zero =>
    intro fuel' bytes hle _
    obtain rfl := length_eq_zero_iff.mp (Nat.le_zero.mp hle)
    exact (reads_fixAux h fuel').nil.symm
  | succ fuel ih =>
    intro fuel' bytes hle hle'
    cases fuel' with
    | zero =>
      obtain rfl := length_eq_zero_iff.mp (Nat.le_zero.mp hle')
      exact (reads_fixAux h (fuel + 1)).nil
    | succ fuel' =>
      refine h.congr _ _ bytes (reads_fixAux h _) (reads_fixAux h _) fun b hb => ?_
      exact ih fuel' b (by omega) (by omega)

theorem reads_fix : Reads e (fix e F) :=
  ⟨rfl, fun bytes a rest hp => (reads_fixAux h bytes.length).shrinks bytes a rest hp⟩

theorem fix_eq (bytes : Bytes) : fix e F bytes = F (fix e F) bytes := by
  have hstep : F (fixAux e F bytes.length) bytes = F (fix e F) bytes := by
    refine h.congr _ _ bytes (reads_fixAux h _) (reads_fix h) fun b hb => ?_
    exact fixAux_fuel h _ _ b hb.le le_rfl
  rw [← hstep]
  exact fixAux_fuel h bytes.length (bytes.length + 1) bytes le_rfl (Nat.le_succ _)

end Fix

/-! ## Loops -/

def atEnd (stop : UInt8) : Option ℕ → Bytes → Option Bytes
  | some 0, bytes => some bytes
  | none, b :: rest => if b = stop then some rest else none
  | _, _ => none

def loopAux (e : ε) (stop : UInt8) (item : List α → Parser ε α) :
    ℕ → Option ℕ → List α → Parser ε (List α)
  | 0, limit, acc => fun bytes =>
    match atEnd stop limit bytes with
    | some rest => .ok (acc, rest)
    | none => .error e
  | fuel + 1, limit, acc => fun bytes =>
    match atEnd stop limit bytes with
    | some rest => .ok (acc, rest)
    | none =>
      (do
        let a ← item acc
        loopAux e stop item fuel (limit.map Nat.pred) (acc ++ [a])) bytes

def loop (e : ε) (stop : UInt8) (item : List α → Parser ε α) (limit : Option ℕ) (acc : List α) :
    Parser ε (List α) := fun bytes => loopAux e stop item bytes.length limit acc bytes

inductive Collects (stop : UInt8) (item : List α → Parser ε α) :
    Option ℕ → List α → Bytes → List α → Bytes → Prop
  | done {limit acc bytes rest} (h : atEnd stop limit bytes = some rest) :
      Collects stop item limit acc bytes acc rest
  | step {limit acc bytes a mid out rest} (h : atEnd stop limit bytes = none)
      (hitem : item acc bytes = .ok (a, mid))
      (hnext : Collects stop item (limit.map Nat.pred) (acc ++ [a]) mid out rest) :
      Collects stop item limit acc bytes out rest

inductive Visits (stop : UInt8) (item : List α → Parser ε α) :
    Option ℕ → List α → Bytes → List α → Bytes → Prop
  | here {limit acc bytes} (h : atEnd stop limit bytes = none) :
      Visits stop item limit acc bytes acc bytes
  | next {limit acc bytes a mid acc' bytes'} (h : atEnd stop limit bytes = none)
      (hitem : item acc bytes = .ok (a, mid))
      (hnext : Visits stop item (limit.map Nat.pred) (acc ++ [a]) mid acc' bytes') :
      Visits stop item limit acc bytes acc' bytes'

theorem Collects.length_eq {stop : UInt8} {item : List α → Parser ε α} {limit : Option ℕ}
    {acc out : List α} {bytes rest : Bytes} (hrun : Collects stop item limit acc bytes out rest)
    {n : ℕ} (hlimit : limit = some n) : out.length = acc.length + n := by
  induction hrun generalizing n with
  | done hend =>
    subst hlimit
    cases n with
    | zero => rfl
    | succ n => cases hend
  | step hend _ _ ih =>
    subst hlimit
    cases n with
    | zero => cases hend
    | succ n =>
      have := ih rfl
      rw [length_append, length_singleton, Nat.pred_succ] at this
      omega

section Runs

variable {stop : UInt8} {item item' : List α → Parser ε α} {limit : Option ℕ}
  {acc acc' out : List α} {bytes bytes' rest : Bytes}

theorem Collects.grows (hrun : Collects stop item limit acc bytes out rest) : acc <+: out := by
  induction hrun with
  | done _ => exact List.prefix_rfl
  | step _ _ _ ih => exact (prefix_append _ _).trans ih

theorem Collects.mono (hrun : Collects stop item limit acc bytes out rest)
    (hitem : ∀ acc' bytes' a mid, Visits stop item limit acc bytes acc' bytes' →
      acc' ++ [a] <+: out → item acc' bytes' = .ok (a, mid) → item' acc' bytes' = .ok (a, mid)) :
    Collects stop item' limit acc bytes out rest := by
  induction hrun with
  | done hend => exact .done hend
  | step hend hread hnext ih =>
    refine .step hend (hitem _ _ _ _ (.here hend) (Collects.grows hnext) hread) (ih ?_)
    exact fun acc' bytes' a mid hvisit => hitem acc' bytes' a mid (.next hend hread hvisit)

theorem Visits.exists_ok (hvisit : Visits stop item' limit acc bytes acc' bytes')
    (hrun : Collects stop item limit acc bytes out rest)
    (hitem : ∀ acc bytes r, item acc bytes = .ok r → item' acc bytes = .ok r) :
    ∃ r, item acc' bytes' = .ok r := by
  induction hvisit with
  | here hend =>
    cases hrun with
    | done hend' => cases hend.symm.trans hend'
    | step _ hread _ => exact ⟨_, hread⟩
  | next hend hread' _ ih =>
    cases hrun with
    | done hend' => cases hend.symm.trans hend'
    | step _ hread hnext =>
      cases (hitem _ _ _ hread).symm.trans hread'
      exact ih hnext

end Runs

section Loop

variable {e : ε} {stop : UInt8} {item : List α → Parser ε α} (h : ∀ acc, Reads e (item acc))

include h

theorem loopAux_fuel : ∀ (fuel fuel' : ℕ) (limit : Option ℕ) (acc : List α) (bytes : Bytes),
    bytes.length ≤ fuel → bytes.length ≤ fuel' →
      loopAux e stop item fuel limit acc bytes = loopAux e stop item fuel' limit acc bytes := by
  have hempty : ∀ fuel limit (acc : List α), loopAux e stop item fuel limit acc [] =
      match atEnd stop limit [] with
      | some rest => .ok (acc, rest)
      | none => .error e := by
    intro fuel limit acc
    cases fuel with
    | zero => rfl
    | succ fuel =>
      simp only [loopAux]
      split
      · rfl
      · exact bind_of_error (h acc).nil
  intro fuel
  induction fuel with
  | zero =>
    intro fuel' limit acc bytes hle _
    obtain rfl := length_eq_zero_iff.mp (Nat.le_zero.mp hle)
    rw [hempty, hempty]
  | succ fuel ih =>
    intro fuel' limit acc bytes hle hle'
    cases fuel' with
    | zero =>
      obtain rfl := length_eq_zero_iff.mp (Nat.le_zero.mp hle')
      rw [hempty, hempty]
    | succ fuel' =>
      simp only [loopAux]
      split
      · rfl
      · refine bind_congr_at rfl fun a rest hitem => ?_
        have := (h acc).shrinks bytes a rest hitem
        exact ih fuel' _ _ rest (by omega) (by omega)

theorem loop_eq (limit : Option ℕ) (acc : List α) (bytes : Bytes) :
    loop e stop item limit acc bytes =
      match atEnd stop limit bytes with
      | some rest => .ok (acc, rest)
      | none =>
        (do
          let a ← item acc
          loop e stop item (limit.map Nat.pred) (acc ++ [a])) bytes := by
  have hfuel : loop e stop item limit acc bytes =
      loopAux e stop item (bytes.length + 1) limit acc bytes :=
    loopAux_fuel h _ _ limit acc bytes le_rfl (Nat.le_succ _)
  rw [hfuel]
  simp only [loopAux]
  split
  · rfl
  · refine bind_congr_at rfl fun a rest hitem => ?_
    have := (h acc).shrinks bytes a rest hitem
    exact loopAux_fuel h _ _ _ _ rest (by omega) le_rfl

theorem loop_eq_ok_iff {limit : Option ℕ} {acc : List α} {bytes rest : Bytes} {out : List α} :
    loop e stop item limit acc bytes = .ok (out, rest) ↔
      Collects stop item limit acc bytes out rest := by
  constructor
  · intro hloop
    induction hn : bytes.length using Nat.strong_induction_on generalizing limit acc bytes with
    | h n ih =>
      rw [loop_eq h] at hloop
      cases hend : atEnd stop limit bytes <;> rw [hend] at hloop
      case some rest' =>
        cases hloop
        exact .done hend
      case none =>
        obtain ⟨a, mid, hitem, hnext⟩ := bind_eq_ok hloop
        have hlt := (h acc).shrinks bytes a mid hitem
        exact .step hend hitem (ih mid.length (hn ▸ hlt) hnext rfl)
  · intro hrun
    induction hrun with
    | done hend => rw [loop_eq h, hend]
    | step hend hitem _ ih => rw [loop_eq h, hend, bind_of_ok hitem, ih]

theorem loop_eq_error_iff {limit : Option ℕ} {acc : List α} {bytes : Bytes} {f : ε} :
    loop e stop item limit acc bytes = .error f ↔
      ∃ acc' bytes', Visits stop item limit acc bytes acc' bytes' ∧
        item acc' bytes' = .error f := by
  constructor
  · intro hloop
    induction hn : bytes.length using Nat.strong_induction_on generalizing limit acc bytes with
    | h n ih =>
      rw [loop_eq h] at hloop
      cases hend : atEnd stop limit bytes <;> rw [hend] at hloop
      case some rest => cases hloop
      case none =>
        rcases bind_eq_error_iff.mp hloop with hitem | ⟨a, mid, hitem, hnext⟩
        · exact ⟨acc, bytes, .here hend, hitem⟩
        · have hlt := (h acc).shrinks bytes a mid hitem
          obtain ⟨acc', bytes', hvisit, herror⟩ := ih mid.length (hn ▸ hlt) hnext rfl
          exact ⟨acc', bytes', .next hend hitem hvisit, herror⟩
  · rintro ⟨acc', bytes', hvisit, herror⟩
    induction hvisit with
    | here hend => rw [loop_eq h, hend, bind_of_error herror]
    | next hend hitem _ ih => rw [loop_eq h, hend, bind_of_ok hitem, ih herror]

theorem Visits.length_le {limit : Option ℕ} {acc acc' : List α} {bytes bytes' : Bytes}
    (hvisit : Visits stop item limit acc bytes acc' bytes') : bytes'.length ≤ bytes.length := by
  induction hvisit with
  | here _ => exact le_rfl
  | next _ hitem _ ih => exact ih.trans ((h _).shrinks _ _ _ hitem).le

theorem decodes_loop {enc : α → Bytes} : ∀ (xs acc : List α),
    (∀ ys x zs, xs = ys ++ x :: zs → Decodes (item (acc ++ ys)) (enc x) x) →
      Decodes (loop e stop item (some xs.length) acc) (xs.flatMap enc) (acc ++ xs) := by
  intro xs
  induction xs with
  | nil =>
    intro acc _ rest
    rw [loop_eq h]
    simp [atEnd]
  | cons x xs ih =>
    intro acc hitem rest
    have hfirst : item acc (enc x ++ (xs.flatMap enc ++ rest)) =
        .ok (x, xs.flatMap enc ++ rest) := by
      simpa using hitem [] x xs rfl (xs.flatMap enc ++ rest)
    have hrest := ih (acc ++ [x]) fun ys y zs hxs => by
      simpa using hitem (x :: ys) y zs (by rw [hxs]; rfl)
    rw [loop_eq h, flatMap_cons, append_assoc]
    simp only [length_cons, atEnd, Option.map_some]
    rw [bind_of_ok hfirst]
    simpa using hrest rest

/-- A loop over encodings gives them back, if every item does. -/
theorem loop_reads_back {γ : Type} {enc : γ → Bytes} {out : α → Bytes} {rest rest' : Bytes}
    {xs : List γ} {acc as : List α}
    (hitems : ∀ x ∈ xs, ∀ acc rest a rest', item acc (enc x ++ rest) = .ok (a, rest') →
      rest' = rest ∧ out a = enc x)
    (hrun : loop e stop item (some xs.length) acc (xs.flatMap enc ++ rest) = .ok (as, rest')) :
    rest' = rest ∧ ∃ as', as = acc ++ as' ∧ as'.map out = xs.map enc := by
  induction xs generalizing acc with
  | nil =>
    rw [loop_eq h] at hrun
    cases hrun
    exact ⟨rfl, [], by simp, rfl⟩
  | cons x xs ih =>
    rw [forall_mem_cons] at hitems
    rw [loop_eq h] at hrun
    simp only [length_cons, atEnd, Option.map_some, Nat.pred_succ, flatMap_cons,
      append_assoc] at hrun
    obtain ⟨a, mid, hitem, hnext⟩ := bind_eq_ok hrun
    obtain ⟨rfl, hout⟩ := hitems.1 _ _ _ _ hitem
    obtain ⟨hrest, as', rfl, has⟩ := ih hitems.2 hnext
    exact ⟨hrest, a :: as', by simp, by rw [map_cons, map_cons, hout, has]⟩

theorem bounded_loop (limit : Option ℕ) (acc : List α) : Bounded (loop e stop item limit acc) := by
  intro bytes out rest hloop
  have hrun := (loop_eq_ok_iff h).mp hloop
  clear hloop
  induction hrun with
  | @done limit acc bytes rest hend =>
    rcases limit with _ | _ | n
    · cases bytes with
      | nil => cases hend
      | cons b bytes =>
        rw [atEnd] at hend
        split at hend
        · cases hend
          simp
        · cases hend
    · cases hend
      exact le_rfl
    · cases hend
  | step _ hitem _ ih => exact ih.trans ((h _).shrinks _ _ _ hitem).le

theorem Collects.invariant {I : List α → Prop} {limit : Option ℕ} {acc out : List α}
    {bytes rest : Bytes} (hrun : Collects stop item limit acc bytes out rest) (h0 : I acc)
    (hstep : ∀ acc (b : Bytes) a mid, I acc → b.length ≤ bytes.length →
      item acc b = .ok (a, mid) → I (acc ++ [a])) : I out := by
  induction hrun with
  | done _ => exact h0
  | step _ hitem _ ih =>
    refine ih (hstep _ _ _ _ h0 le_rfl hitem) fun acc b a mid hI hle => ?_
    exact hstep acc b a mid hI (hle.trans ((h _).shrinks _ _ _ hitem).le)

theorem Composes.loop {ρ : ∀ {α : Type}, Except ε (α × Bytes) → Except ε (α × Bytes) → Prop}
    (hρ : Composes ρ) {item' : List α → Parser ε α} (h' : ∀ acc, Reads e (item' acc))
    (limit : Option ℕ) (acc : List α) (bytes : Bytes)
    (hitem : ∀ acc (b : Bytes), b.length ≤ bytes.length → ρ (item acc b) (item' acc b)) :
    ρ (loop e stop item limit acc bytes) (loop e stop item' limit acc bytes) := by
  induction hn : bytes.length using Nat.strong_induction_on generalizing limit acc bytes with
  | h n ih =>
    rw [loop_eq h, loop_eq h']
    split
    · exact hρ.refl _
    · refine hρ.bind (hitem acc bytes le_rfl) fun a rest hread => ?_
      have hlt := (h' acc).shrinks bytes a rest hread
      exact ih rest.length (hn ▸ hlt) _ _ rest
        (fun acc b hb => hitem acc b (hb.trans hlt.le)) rfl

end Loop

end Parser

end TptRfc.Lib
