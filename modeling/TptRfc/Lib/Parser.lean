import TptRfc.Lib.Bytes

/-!
# Parsers over byte strings

A bounds-checked reader is a function from the bytes that remain to a value and the bytes left over,
or an error.
-/

namespace TptRfc.Lib

open List

universe u v

variable {ε : Type u} {α β γ : Type}

abbrev Parser (ε : Type u) (α : Type) := StateT Bytes (Except ε) α

namespace Parser

variable {a : α} {bytes rest : Bytes} {p : Parser ε α} {e : ε} {b : β} {n k : ℕ} {r : Except ε α}
  {f : α → Parser ε β}

theorem bind_of_ok (h : p bytes = .ok (a, rest)) : (p >>= f) bytes = f a rest := by
  change (p bytes >>= fun r => f r.1 r.2) = _
  rw [h]
  rfl

theorem bind_of_error (h : p bytes = .error e) :
    (p >>= f) bytes = .error e := by
  change (p bytes >>= fun r => f r.1 r.2) = _
  rw [h]
  rfl

theorem map_of_ok (f : α → β) (h : p bytes = .ok (a, rest)) :
    (f <$> p) bytes = .ok (f a, rest) := by
  change (p bytes >>= fun r => pure (f r.1, r.2)) = _
  rw [h]
  rfl

theorem bind_congr_at {p q : Parser ε α} {f g : α → Parser ε β} {bytes : Bytes}
    (hp : p bytes = q bytes) (hf : ∀ a rest, q bytes = .ok (a, rest) → f a rest = g a rest) :
    (p >>= f) bytes = (q >>= g) bytes := by
  cases hq : q bytes with
  | error e => rw [bind_of_error (hp.trans hq), bind_of_error hq]
  | ok r => rw [bind_of_ok (hp.trans hq), bind_of_ok hq, hf _ _ hq]

theorem bind_eq_ok (h : (p >>= f) bytes = .ok (b, rest)) :
    ∃ a mid, p bytes = .ok (a, mid) ∧ f a mid = .ok (b, rest) := by
  cases hp : p bytes with
  | error e => rw [bind_of_error hp] at h; cases h
  | ok r => exact ⟨r.1, r.2, rfl, by rw [← h, bind_of_ok hp]⟩

theorem bind_ok_iff : (p >>= f) bytes = .ok (b, rest) ↔
    ∃ a mid, p bytes = .ok (a, mid) ∧ f a mid = .ok (b, rest) :=
  ⟨bind_eq_ok, fun ⟨_, _, hp, hf⟩ => (bind_of_ok hp).trans hf⟩

theorem map_eq_ok_iff {f : α → β} :
    (f <$> p) bytes = .ok (b, rest) ↔ ∃ a, p bytes = .ok (a, rest) ∧ f a = b := by
  change (p bytes >>= fun r => pure (f r.1, r.2)) = _ ↔ _
  cases p bytes with
  | error e => simp [bind, Except.bind]
  | ok r =>
    simp only [bind, Except.bind, pure, Except.pure, Except.ok.injEq, Prod.mk.injEq]
    constructor
    · rintro ⟨rfl, rfl⟩
      exact ⟨r.1, rfl, rfl⟩
    · rintro ⟨a, rfl, rfl⟩
      exact ⟨rfl, rfl⟩

def takeBytes (e : ε) (n : ℕ) : Parser ε Bytes := fun bytes =>
  if bytes.length < n then .error e else .ok (bytes.take n, bytes.drop n)

theorem takeBytes_eq_ok {a : Bytes}
    (h : takeBytes e n bytes = .ok (a, rest)) : bytes = a ++ rest ∧ a.length = n := by
  unfold takeBytes at h
  split at h
  · cases h
  · rename_i hlen
    cases h
    exact ⟨(take_append_drop n bytes).symm, by rw [length_take]; omega⟩

def takeBe (e : ε) (k : ℕ) : Parser ε ℕ := do
  let bytes ← takeBytes e k
  pure (beNat bytes)

theorem takeBe_eq_ok (h : takeBe e k bytes = .ok (n, rest)) :
    ∃ a, bytes = a ++ rest ∧ a.length = k ∧ n = beNat a := by
  obtain ⟨a, mid, htake, hpure⟩ := bind_eq_ok h
  obtain ⟨rfl, hlen⟩ := takeBytes_eq_ok htake
  cases hpure
  exact ⟨a, rfl, hlen, rfl⟩

def takeU8 (e : ε) : Parser ε UInt8
  | [] => .error e
  | b :: rest => .ok (b, rest)

def takeU16 (e : ε) : Parser ε UInt16 := do
  let v ← takeBe e 2
  pure (UInt16.ofNat v)

theorem takeU16_eq_ok {v : UInt16} (h : takeU16 e bytes = .ok (v, rest)) :
    ∃ a, bytes = a ++ rest ∧ a.length = 2 ∧ v = UInt16.ofNat (beNat a) := by
  obtain ⟨n, mid, htake, hpure⟩ := bind_eq_ok h
  obtain ⟨a, rfl, hlen, rfl⟩ := takeBe_eq_ok htake
  cases hpure
  exact ⟨a, rfl, hlen, rfl⟩

def takeU32 (e : ε) : Parser ε UInt32 := do
  let v ← takeBe e 4
  pure (UInt32.ofNat v)

def takeFixed (e : ε) (n : ℕ) : Parser ε (FixedBytes n) := fun bytes =>
  if h : bytes.length < n then .error e
  else .ok (⟨bytes.take n, by simp; omega⟩, bytes.drop n)

def lift (r : Except ε α) : Parser ε α := fun bytes => r.map fun a => (a, bytes)

theorem lift_eq_ok (h : lift r bytes = .ok (a, rest)) : r = .ok a ∧ rest = bytes := by
  cases r with
  | error e => cases h
  | ok a' => cases h; exact ⟨rfl, rfl⟩

def run (p : Parser ε α) (bytes : Bytes) : Except ε α := (p bytes).map Prod.fst

theorem run_eq_ok (h : run p bytes = .ok a) : ∃ rest, p bytes = .ok (a, rest) := by
  cases hp : p bytes with
  | error e =>
    rw [run, hp] at h
    cases h
  | ok r =>
    rw [run, hp] at h
    cases h
    exact ⟨r.2, rfl⟩

def whileRemainingAux (k : ℕ) (p : Parser ε α) : ℕ → Parser ε (List α)
  | 0 => pure []
  | fuel + 1 => fun bytes =>
    if bytes.length < k then .ok ([], bytes)
    else (do
      let a ← p
      let rest ← whileRemainingAux k p fuel
      pure (a :: rest) : Parser ε (List α)) bytes

def whileRemaining (k : ℕ) (p : Parser ε α) : Parser ε (List α) := fun bytes =>
  whileRemainingAux k p bytes.length bytes

def times (p : Parser ε α) : ℕ → Parser ε (List α)
  | 0 => pure []
  | n + 1 => do
    let a ← p
    let rest ← times p n
    pure (a :: rest)

def Decodes (p : Parser ε α) (bytes : Bytes) (a : α) : Prop :=
  ∀ rest, p (bytes ++ rest) = .ok (a, rest)

namespace Decodes

variable {bytes' : Bytes}

theorem run_nil (h : Decodes p bytes a) : p bytes = .ok (a, []) := by
  simpa using h []

theorem pure (a : α) : Decodes (Pure.pure a : Parser ε α) [] a := fun _ => rfl

theorem bind (hp : Decodes p bytes a) (hf : Decodes (f a) bytes' b) :
    Decodes (p >>= f) (bytes ++ bytes') b := by
  intro rest
  rw [append_assoc, bind_of_ok (hp _)]
  exact hf rest

theorem map (hp : Decodes p bytes a) (g : α → β) : Decodes (g <$> p) bytes (g a) :=
  fun rest => map_of_ok g (hp rest)

theorem bind_nil (hp : Decodes p bytes a) (hf : Decodes (f a) [] b) :
    Decodes (p >>= f) bytes b := by
  have h := hp.bind hf
  rwa [append_nil] at h

theorem bind_pure (hp : Decodes p bytes a) (g : α → β) :
    Decodes (p >>= fun a => Pure.pure (g a)) bytes (g a) :=
  hp.bind_nil (Decodes.pure (g a))

end Decodes

theorem lift_of_ok (h : r = .ok a) (bytes : Bytes) : lift r bytes = .ok (a, bytes) := by
  rw [lift, h]
  rfl

theorem decodes_lift (h : r = .ok a) : Decodes (lift r) [] a := fun rest => lift_of_ok h rest

theorem Decodes.bind_lift (hp : Decodes p bytes a) (g : α → Except ε β) (h : g a = .ok b) :
    Decodes (p >>= fun a => lift (g a)) bytes b :=
  hp.bind_nil (decodes_lift h)

theorem Decodes.lift_bind
    (h : r = .ok a) (hf : Decodes (f a) bytes b) : Decodes (lift r >>= f) bytes b :=
  (decodes_lift h).bind hf

theorem run_of_ok (h : p bytes = .ok (a, rest)) : run p bytes = .ok a := by
  rw [run, h]
  rfl

theorem decodes_takeBytes (e : ε) (bytes : Bytes) :
    Decodes (takeBytes e bytes.length) bytes bytes := by
  intro rest
  simp [takeBytes]

theorem decodes_takeBe (e : ε) (h : n < 256 ^ k) : Decodes (takeBe e k) (beBytes k n) n := by
  have hb := (decodes_takeBytes e (beBytes k n)).bind_pure beNat
  rw [length_beBytes, beNat_beBytes_of_lt h] at hb
  exact hb

theorem decodes_takeU8 (e : ε) (b : UInt8) : Decodes (takeU8 e) [b] b := fun _ => rfl

theorem decodes_takeU16 (e : ε) (v : UInt16) : Decodes (takeU16 e) (u16Bytes v) v := by
  have h := (decodes_takeBe e (k := 2) v.toNat_lt).bind_pure UInt16.ofNat
  rwa [UInt16.ofNat_toNat] at h

theorem decodes_takeU32 (e : ε) (v : UInt32) : Decodes (takeU32 e) (u32Bytes v) v := by
  have h := (decodes_takeBe e (k := 4) v.toNat_lt).bind_pure UInt32.ofNat
  rwa [UInt32.ofNat_toNat] at h

theorem decodes_takeFixed (e : ε) (bytes : FixedBytes n) :
    Decodes (takeFixed e n) bytes.val bytes := by
  intro rest
  have hlen : ¬ (bytes.val ++ rest).length < n := by simp
  simp only [takeFixed, dif_neg hlen]
  congr 2
  · exact Subtype.ext (by simp)
  · simp

theorem decodes_times (enc : α → Bytes) : ∀ xs : List α, (∀ x ∈ xs, Decodes p (enc x) x) →
      Decodes (times p xs.length) (xs.flatMap enc) xs := by
  intro xs
  induction xs with
  | nil => intro _; exact Decodes.pure []
  | cons x xs ih =>
    intro h
    have hx := h x mem_cons_self
    have hxs := ih fun y hy => h y (mem_cons_of_mem _ hy)
    exact hx.bind (hxs.bind_pure (x :: ·))

theorem whileRemainingAux_flatMap {enc : α → Bytes} :
    ∀ (xs : List α) (fuel : ℕ), (∀ x ∈ xs, Decodes p (enc x) x) →
      (∀ x ∈ xs, k ≤ (enc x).length) → 0 < k →
      (xs.flatMap enc).length ≤ fuel →
      whileRemainingAux k p fuel (xs.flatMap enc) = .ok (xs, []) := by
  intro xs
  induction xs with
  | nil =>
    intro fuel _ _ hk _
    cases fuel with
    | zero => rfl
    | succ fuel => simp [whileRemainingAux, hk]
  | cons x xs ih =>
    intro fuel hdec hlen hk hfuel
    have hx := hdec x mem_cons_self
    have hlx := hlen x mem_cons_self
    rw [flatMap_cons] at hfuel ⊢
    rw [length_append] at hfuel
    obtain ⟨fuel, rfl⟩ : ∃ n, fuel = n + 1 := ⟨fuel - 1, by omega⟩
    have hrec := ih fuel (fun y hy => hdec y (mem_cons_of_mem _ hy))
      (fun y hy => hlen y (mem_cons_of_mem _ hy)) hk (by omega)
    have hlong : ¬ (enc x ++ xs.flatMap enc).length < k := by
      rw [length_append]; omega
    simp only [whileRemainingAux, if_neg hlong]
    rw [bind_of_ok (hx _), bind_of_ok hrec]
    rfl

theorem whileRemaining_flatMap {enc : α → Bytes} (hk : 0 < k)
    (xs : List α) (hdec : ∀ x ∈ xs, Decodes p (enc x) x) (hlen : ∀ x ∈ xs, k ≤ (enc x).length) :
    whileRemaining k p (xs.flatMap enc) = .ok (xs, []) :=
  whileRemainingAux_flatMap xs _ hdec hlen hk le_rfl

/-! ## What a loop has read -/

def Shrinks (p : Parser ε α) : Prop :=
  ∀ bytes a rest, p bytes = .ok (a, rest) → rest.length < bytes.length

namespace Shrinks

theorem bind (hp : Shrinks p) (hf : ∀ a, Shrinks (f a)) : Shrinks (p >>= f) := by
  intro bytes b rest h
  obtain ⟨a, mid, hfirst, hsecond⟩ := bind_eq_ok h
  exact (hf a _ _ _ hsecond).trans (hp _ _ _ hfirst)

theorem bind_pure (hp : Shrinks p) (g : α → β) : Shrinks (p >>= fun a => Pure.pure (g a)) := by
  intro bytes b rest h
  obtain ⟨a, mid, hfirst, hsecond⟩ := bind_eq_ok h
  cases hsecond
  exact hp _ _ _ hfirst

end Shrinks

theorem shrinks_takeU16 (e : ε) : Shrinks (takeU16 e) := by
  intro bytes v rest h
  obtain ⟨a, rfl, hlen, -⟩ := takeU16_eq_ok h
  simp [hlen]

theorem whileRemainingAux_fuel (hk : 0 < k) (hp : Shrinks p) :
    ∀ (fuel fuel' : ℕ) (bytes : Bytes), bytes.length ≤ fuel → bytes.length ≤ fuel' →
      whileRemainingAux k p fuel bytes = whileRemainingAux k p fuel' bytes := by
  have hempty : ∀ fuel, whileRemainingAux k p fuel [] = .ok ([], []) := by
    intro fuel
    cases fuel with
    | zero => rfl
    | succ fuel => simp [whileRemainingAux, hk]
  intro fuel
  induction fuel with
  | zero =>
    intro fuel' bytes h _
    obtain rfl : bytes = [] := length_eq_zero_iff.mp (by omega)
    rw [hempty, hempty]
  | succ fuel ih =>
    intro fuel' bytes h h'
    cases fuel' with
    | zero =>
      obtain rfl : bytes = [] := length_eq_zero_iff.mp (by omega)
      rw [hempty, hempty]
    | succ fuel' =>
      simp only [whileRemainingAux]
      split
      · rfl
      · refine bind_congr_at rfl fun a rest hstep => bind_congr_at ?_ fun _ _ _ => rfl
        have hlt := hp bytes a rest hstep
        exact ih fuel' rest (by omega) (by omega)

theorem whileRemaining_eq (hk : 0 < k) (hp : Shrinks p) (bytes : Bytes) :
    whileRemaining k p bytes =
      if bytes.length < k then .ok ([], bytes)
      else (do
        let a ← p
        let as ← whileRemaining k p
        pure (a :: as) : Parser ε (List α)) bytes := by
  rw [whileRemaining, whileRemainingAux_fuel hk hp _ (bytes.length + 1) bytes le_rfl (by omega)]
  simp only [whileRemainingAux]
  split
  · rfl
  · refine bind_congr_at rfl fun a rest hstep => bind_congr_at ?_ fun _ _ _ => rfl
    have hlt := hp bytes a rest hstep
    exact whileRemainingAux_fuel hk hp _ _ rest (by omega) le_rfl

theorem whileRemaining_eq_ok_nil_iff (hk : 0 < k) (hp : Shrinks p) :
    whileRemaining k p bytes = .ok ([], rest) ↔ bytes.length < k ∧ rest = bytes := by
  rw [whileRemaining_eq hk hp]
  split
  · rename_i hlt
    simp [hlt, eq_comm]
  · rename_i hge
    simp only [hge, false_and, iff_false]
    intro h
    obtain ⟨a, mid, -, h⟩ := bind_eq_ok h
    obtain ⟨as, mid', -, h⟩ := bind_eq_ok h
    cases h

theorem whileRemaining_eq_ok_cons_iff (hk : 0 < k) (hp : Shrinks p) {as : List α} :
    whileRemaining k p bytes = .ok (a :: as, rest) ↔
      k ≤ bytes.length ∧ ∃ mid, p bytes = .ok (a, mid) ∧
        whileRemaining k p mid = .ok (as, rest) := by
  rw [whileRemaining_eq hk hp]
  split
  · rename_i hlt
    simp [show ¬ k ≤ bytes.length by omega]
  · rename_i hge
    constructor
    · intro h
      obtain ⟨a', mid, hfirst, h⟩ := bind_eq_ok h
      obtain ⟨as', mid', hloop, h⟩ := bind_eq_ok h
      cases h
      exact ⟨by omega, mid, hfirst, hloop⟩
    · rintro ⟨-, mid, hfirst, hloop⟩
      rw [bind_of_ok hfirst, bind_of_ok hloop]
      rfl

theorem times_succ_eq_ok_iff {xs : List α} : times p (n + 1) bytes = .ok (xs, rest) ↔
      ∃ a mid as, p bytes = .ok (a, mid) ∧ times p n mid = .ok (as, rest) ∧ xs = a :: as := by
  constructor
  · intro h
    obtain ⟨a, mid, hfirst, h⟩ := bind_eq_ok h
    obtain ⟨as, mid', hloop, h⟩ := bind_eq_ok h
    cases h
    exact ⟨a, mid, as, hfirst, hloop, rfl⟩
  · rintro ⟨a, mid, as, hfirst, hloop, rfl⟩
    rw [times, bind_of_ok hfirst, bind_of_ok hloop]
    rfl

theorem length_of_times {xs : List α} (h : times p n bytes = .ok (xs, rest)) : xs.length = n := by
  induction n generalizing bytes xs with
  | zero => cases h; rfl
  | succ n ih =>
    obtain ⟨a, mid, as, -, hloop, rfl⟩ := times_succ_eq_ok_iff.mp h
    rw [length_cons, ih hloop]

def Lossless (p : Parser ε α) (enc : α → Bytes) (Q : α → Prop) : Prop :=
  ∀ bytes a rest, p bytes = .ok (a, rest) → bytes = enc a ++ rest ∧ Q a

variable {enc : α → Bytes} {Q : α → Prop}

theorem Lossless.times (hp : Lossless p enc Q) (n : ℕ) :
    Lossless (times p n) (·.flatMap enc) fun as => as.length = n ∧ ∀ a ∈ as, Q a := by
  induction n with
  | zero =>
    intro bytes as rest h
    cases h
    simp
  | succ n ih =>
    intro bytes as rest h
    obtain ⟨a, mid, as, hfirst, hloop, rfl⟩ := times_succ_eq_ok_iff.mp h
    obtain ⟨rfl, ha⟩ := hp _ _ _ hfirst
    obtain ⟨rfl, hlen, has⟩ := ih _ _ _ hloop
    simpa [hlen, ha] using has

theorem Lossless.whileRemaining (hk : 0 < k) (hp : Lossless p enc Q)
    (hpos : ∀ a, 0 < (enc a).length) {as : List α} (h : whileRemaining k p bytes = .ok (as, rest)) :
    bytes = as.flatMap enc ++ rest ∧ rest.length < k ∧ ∀ a ∈ as, Q a := by
  have hshrinks : Shrinks p := by
    intro bytes a rest hstep
    rw [(hp _ _ _ hstep).1, length_append]
    exact Nat.lt_add_of_pos_left (hpos a)
  induction as generalizing bytes with
  | nil =>
    obtain ⟨hlen, rfl⟩ := (whileRemaining_eq_ok_nil_iff hk hshrinks).mp h
    simpa using hlen
  | cons a as ih =>
    obtain ⟨-, mid, hfirst, hloop⟩ := (whileRemaining_eq_ok_cons_iff hk hshrinks).mp h
    obtain ⟨rfl, ha⟩ := hp _ _ _ hfirst
    obtain ⟨rfl, hlen, has⟩ := ih hloop
    simpa [hlen, ha] using has

def Extends (p : Parser ε α) : Prop :=
  ∀ bytes rest more a, p bytes = .ok (a, rest) → p (bytes ++ more) = .ok (a, rest ++ more)

namespace Extends

theorem pure (a : α) : Extends (Pure.pure a : Parser ε α) := by
  intro bytes rest more b h
  cases h
  rfl

theorem bind (hp : Extends p) (hf : ∀ a, Extends (f a)) : Extends (p >>= f) := by
  intro bytes rest more b h
  obtain ⟨a, mid, h1, h2⟩ := bind_eq_ok h
  rw [bind_of_ok (hp _ _ more _ h1)]
  exact hf a _ _ more _ h2

theorem map (f : α → β) (hp : Extends p) : Extends (f <$> p) := by
  intro bytes rest more b h
  cases hr : p bytes with
  | error e =>
    change (p bytes >>= fun r => Pure.pure (f r.1, r.2)) = _ at h
    rw [hr] at h
    cases h
  | ok r =>
    rw [map_of_ok f hr] at h
    cases h
    exact map_of_ok f (hp _ _ more _ hr)

theorem lift (r : Except ε α) : Extends (Parser.lift r) := by
  intro bytes rest more a h
  cases r with
  | error e => cases h
  | ok a' => cases h; rfl

theorem not_ok_of_append (hp : Extends p) {bytes more : Bytes} {a : α}
    (hexact : p (bytes ++ more) = .ok (a, [])) (hmore : more ≠ []) :
    ∀ a' rest, p bytes ≠ .ok (a', rest) := by
  intro a' rest h
  have h' := hp _ _ more _ h
  rw [hexact] at h'
  cases more with
  | nil => exact hmore rfl
  | cons _ _ => simp at h'

end Extends

theorem extends_takeBytes (e : ε) (n : ℕ) : Extends (takeBytes e n) := by
  intro bytes rest more a h
  unfold takeBytes at h ⊢
  split at h
  · cases h
  · rename_i hlen
    cases h
    rw [if_neg (by rw [length_append]; omega),
      take_append_of_le_length (by omega), drop_append_of_le_length (by omega)]

theorem extends_takeBe (e : ε) (k : ℕ) : Extends (takeBe e k) :=
  (extends_takeBytes e k).bind fun _ => Extends.pure _

theorem extends_takeU8 (e : ε) : Extends (takeU8 e) := by
  intro bytes rest more a h
  cases bytes with
  | nil => cases h
  | cons b bytes => cases h; rfl

theorem extends_takeU16 (e : ε) : Extends (takeU16 e) :=
  (extends_takeBe e 2).bind fun _ => Extends.pure _

theorem extends_takeFixed (e : ε) (n : ℕ) : Extends (takeFixed e n) := by
  intro bytes rest more a h
  unfold takeFixed at h ⊢
  split at h
  · cases h
  · rename_i hlen
    cases h
    rw [dif_neg (by rw [length_append]; omega)]
    congr 2
    · exact Subtype.ext (take_append_of_le_length (by omega))
    · exact drop_append_of_le_length (by omega)

end Parser

end TptRfc.Lib
