import Mathlib

/-!
# Stateful calls that may fail or abort

A method `fn f(&mut self, …) -> Result<α, ε>` returns a value, returns an error, or
panics.
-/

namespace TptRfc.Lib

inductive Fault (ε : Type) where
  | error (e : ε)
  | panic
  deriving DecidableEq

def Exec (σ ε α : Type) := σ → Except (Fault ε) α × σ

namespace Exec

variable {σ ε α β : Type}

def bind (x : Exec σ ε α) (f : α → Exec σ ε β) : Exec σ ε β := fun s =>
  match x s with
  | (.ok a, s') => f a s'
  | (.error e, s') => (.error e, s')

instance : Monad (Exec σ ε) where
  pure a := fun s => (.ok a, s)
  bind := bind

def fail (e : ε) : Exec σ ε α := fun s => (.error (.error e), s)

def abort : Exec σ ε α := fun s => (.error .panic, s)

def get : Exec σ ε σ := fun s => (.ok s, s)

def modify (f : σ → σ) : Exec σ ε Unit := fun s => (.ok (), f s)

def lift (r : Except ε α) : Exec σ ε α := fun s =>
  match r with
  | .ok a => (.ok a, s)
  | .error e => (.error (.error e), s)

def okOr (o : Option α) (e : ε) : Exec σ ε α := fun s =>
  match o with
  | some a => (.ok a, s)
  | none => (.error (.error e), s)

def call (r : Except (Fault ε) α) : Exec σ ε α := fun s => (r, s)

def index (xs : List α) (i : ℕ) : Exec σ ε α := fun s =>
  match xs[i]? with
  | some a => (.ok a, s)
  | none => (.error .panic, s)

def forRange (body : ℕ → Exec σ ε Unit) : ℕ → Exec σ ε Unit
  | 0 => pure ()
  | n + 1 => do
    forRange body n
    body n

@[simp] theorem pure_apply (a : α) (s : σ) : (pure a : Exec σ ε α) s = (.ok a, s) := rfl

theorem bind_apply (x : Exec σ ε α) (f : α → Exec σ ε β) (s : σ) :
    (x >>= f) s =
      match x s with
      | (.ok a, s') => f a s'
      | (.error e, s') => (.error e, s') := rfl

variable {s s' : σ} {x : Exec σ ε α} {f : α → Exec σ ε β}

theorem bind_of_ok {a : α} (h : x s = (.ok a, s')) : (x >>= f) s = f a s' := by
  rw [bind_apply, h]

theorem bind_of_error {e : Fault ε}
    (h : x s = (.error e, s')) : (x >>= f) s = (.error e, s') := by
  rw [bind_apply, h]

theorem bind_cases {r : Except (Fault ε) β} (h : (x >>= f) s = (r, s')) :
    (∃ a s₁, x s = (.ok a, s₁) ∧ f a s₁ = (r, s')) ∨
      ∃ e, x s = (.error e, s') ∧ r = .error e := by
  rcases hx : x s with ⟨r₁, s₁⟩
  cases r₁ with
  | ok a => exact .inl ⟨a, s₁, rfl, by rwa [bind_of_ok hx] at h⟩
  | error e =>
    rw [bind_of_error hx] at h
    cases h
    exact .inr ⟨e, rfl, rfl⟩

@[simp] theorem fail_apply (e : ε) (s : σ) : (fail e : Exec σ ε α) s = (.error (.error e), s) := rfl

@[simp] theorem get_bind (f : σ → Exec σ ε β) (s : σ) : (get >>= f) s = f s s := rfl

@[simp] theorem modify_apply (g : σ → σ) (s : σ) : (modify g : Exec σ ε Unit) s = (.ok (), g s) :=
  rfl

@[simp] theorem lift_ok (a : α) (s : σ) : (lift (.ok a) : Exec σ ε α) s = (.ok a, s) := rfl

@[simp] theorem lift_error (e : ε) (s : σ) :
    (lift (.error e) : Exec σ ε α) s = (.error (.error e), s) := rfl

@[simp] theorem okOr_some (a : α) (e : ε) (s : σ) :
    (okOr (some a) e : Exec σ ε α) s = (.ok a, s) := rfl

theorem lift_cases {r : Except ε α} {q : Except (Fault ε) α}
    (h : (lift r : Exec σ ε α) s = (q, s')) :
    s' = s ∧ ((∃ a, r = .ok a ∧ q = .ok a) ∨ ∃ e, r = .error e ∧ q = .error (.error e)) := by
  cases r with
  | ok a => cases h; exact ⟨rfl, .inl ⟨a, rfl, rfl⟩⟩
  | error e => cases h; exact ⟨rfl, .inr ⟨e, rfl, rfl⟩⟩

theorem index_of_some {xs : List α} {i : ℕ} {a : α} (h : xs[i]? = some a) (s : σ) :
    (index xs i : Exec σ ε α) s = (.ok a, s) := by
  simp [index, h]

theorem forRange_ok {b : ℕ → Exec σ ε Unit} {I : ℕ → σ → Prop} {n : ℕ} (h0 : I 0 s)
    (hstep : ∀ i < n, ∀ s, I i s → ∃ s', b i s = (.ok (), s') ∧ I (i + 1) s') :
    ∃ s', forRange b n s = (.ok (), s') ∧ I n s' := by
  induction n with
  | zero => exact ⟨s, rfl, h0⟩
  | succ n ih =>
    obtain ⟨s₁, hrun, hinv⟩ := ih fun i hi => hstep i (by omega)
    obtain ⟨s₂, hb, hinv'⟩ := hstep n (by omega) s₁ hinv
    exact ⟨s₂, by rw [forRange, bind_of_ok hrun, hb], hinv'⟩

/-! ## What a call may do to the state -/

structure Safe (R : σ → σ → Prop) (x : Exec σ ε α) : Prop where
  moves : ∀ s, R s (x s).2
  returns : ∀ s, (x s).1 ≠ .error .panic

namespace Safe

variable {R : σ → σ → Prop}

variable {x : Exec σ ε α}

theorem of_eq (h : Safe R x) {s s' : σ} {r : Except (Fault ε) α}
    (hx : x s = (r, s')) : R s s' ∧ r ≠ .error .panic := by
  have hmoves := h.moves s
  have hreturns := h.returns s
  rw [hx] at hmoves hreturns
  exact ⟨hmoves, hreturns⟩

theorem mono {S : σ → σ → Prop} (h : Safe R x) (hRS : ∀ s s', R s s' → S s s') :
    Safe S x := ⟨fun s => hRS _ _ (h.moves s), h.returns⟩

theorem modify {f : σ → σ} (h : ∀ s, R s (f s)) : Safe R (Exec.modify f : Exec σ ε Unit) :=
  ⟨h, fun _ h => by cases h⟩

theorem get_bind {f : σ → Exec σ ε α} (h : ∀ s, Safe R (f s)) : Safe R (Exec.get >>= f) :=
  ⟨fun s => (h s).moves s, fun s => (h s).returns s⟩

variable [IsPreorder σ R]

theorem pure (a : α) : Safe R (Pure.pure a : Exec σ ε α) :=
  ⟨fun s => refl_of R s, fun _ h => by cases h⟩

theorem fail (e : ε) : Safe R (Exec.fail e : Exec σ ε α) :=
  ⟨fun s => refl_of R s, fun _ h => by cases h⟩

theorem lift (r : Except ε α) : Safe R (Exec.lift r : Exec σ ε α) := by
  cases r with
  | ok a => exact pure a
  | error e => exact fail e

theorem okOr (o : Option α) (e : ε) : Safe R (Exec.okOr o e : Exec σ ε α) := by
  cases o with
  | none => exact fail e
  | some a => exact pure a

theorem bind (hx : Safe R x) (hf : ∀ a, Safe R (f a)) : Safe R (x >>= f) := by
  have hboth : ∀ s, R s ((x >>= f) s).2 ∧ ((x >>= f) s).1 ≠ .error .panic := by
    intro s
    rcases h : (x >>= f) s with ⟨r, s'⟩
    obtain ⟨a, s₁, hfirst, hsecond⟩ | ⟨e, hfirst, rfl⟩ := bind_cases h
    · have hsafe := (hf a).of_eq hsecond
      exact ⟨trans_of R (hx.of_eq hfirst).1 hsafe.1, hsafe.2⟩
    · refine ⟨(hx.of_eq hfirst).1, ?_⟩
      rintro ⟨⟩
      exact (hx.of_eq hfirst).2 rfl
  exact ⟨fun s => (hboth s).1, fun s => (hboth s).2⟩

end Safe

/-! ## Pre- and postconditions -/

structure Triple (P : σ → Prop) (x : Exec σ ε α) (Q : α → σ → Prop) (E : σ → Prop) : Prop where
  ok : ∀ {s a s'}, P s → x s = (.ok a, s') → Q a s'
  error : ∀ {s e s'}, P s → x s = (.error e, s') → E s'

abbrev Keeps (P : σ → Prop) (x : Exec σ ε α) : Prop := Triple P x (fun _ => P) P

namespace Triple

variable {P P' E : σ → Prop} {Q : α → σ → Prop} {R : β → σ → Prop}

variable {r : Except (Fault ε) α} {x : Exec σ ε α}

theorem moves (h : Triple P x (fun _ => E) E) {s s' : σ}
    (hs : P s) (hx : x s = (r, s')) : E s' := by
  cases r with
  | ok a => exact h.ok hs hx
  | error e => exact h.error hs hx

theorem of_moves (h : ∀ s r s', P s → x s = (r, s') → E s') :
    Triple P x (fun _ => E) E := ⟨h _ _ _, h _ _ _⟩

theorem modify {f : σ → σ} (h : ∀ s, P s → P' (f s)) :
    Triple P (Exec.modify f : Exec σ ε Unit) (fun _ => P') E :=
  ⟨fun hs hx => by cases hx; exact h _ hs, nofun⟩

theorem fail (e : ε) (h : ∀ s, P s → E s) : Triple P (Exec.fail e : Exec σ ε α) Q E :=
  ⟨nofun, fun hs hx => by cases hx; exact h _ hs⟩

theorem bind (hx : Triple P x Q E)
    (hf : ∀ a, Triple (Q a) (f a) R E) : Triple P (x >>= f) R E := by
  constructor
  · intro s b s' hs h
    obtain ⟨a, s₁, hfirst, hsecond⟩ | ⟨e, hfirst, hr⟩ := bind_cases h
    · exact (hf a).ok (hx.ok hs hfirst) hsecond
    · cases hr
  · intro s e s' hs h
    obtain ⟨a, s₁, hfirst, hsecond⟩ | ⟨e', hfirst, hr⟩ := bind_cases h
    · exact (hf a).error (hx.ok hs hfirst) hsecond
    · exact hx.error hs hfirst

theorem get_bind {f : σ → Exec σ ε α} (h : ∀ s, P s → Triple P (f s) Q E) :
    Triple P (Exec.get >>= f) Q E :=
  ⟨fun hs => (h _ hs).ok hs, fun hs => (h _ hs).error hs⟩

theorem modify_bind {g : σ → σ} {f : Unit → Exec σ ε α} (hg : ∀ s, P s → P (g s))
    (h : Triple P (f ()) Q E) : Triple P (Exec.modify g >>= f) Q E :=
  .bind (modify hg) fun _ => h

theorem lift_bind {r : Except ε α} (hE : ∀ s, P s → E s)
    (h : ∀ a, r = .ok a → Triple P (f a) R E) : Triple P (Exec.lift r >>= f) R E := by
  cases r with
  | ok a => exact h a rfl
  | error e => exact ⟨nofun, fun hs hx => by cases hx; exact hE _ hs⟩

theorem okOr_bind {o : Option α} {e : ε} (hE : ∀ s, P s → E s)
    (h : ∀ a, o = some a → Triple P (f a) R E) : Triple P (Exec.okOr o e >>= f) R E := by
  cases o with
  | some a => exact h a rfl
  | none => exact ⟨nofun, fun hs hx => by cases hx; exact hE _ hs⟩

theorem call_bind (hE : ∀ s, P s → E s)
    (h : ∀ a, r = .ok a → Triple P (f a) R E) : Triple P (Exec.call r >>= f) R E := by
  cases r with
  | ok a => exact h a rfl
  | error e => exact ⟨nofun, fun hs hx => by cases hx; exact hE _ hs⟩

theorem call (hQ : ∀ a s, r = .ok a → P s → Q a s)
    (hE : ∀ s, P s → E s) : Triple P (Exec.call r) Q E :=
  ⟨fun hs hx => by cases hx; exact hQ _ _ rfl hs, fun hs hx => by cases hx; exact hE _ hs⟩

theorem pure (a : α) (h : ∀ s, P s → Q a s) : Triple P (Pure.pure a : Exec σ ε α) Q E :=
  ⟨fun hs hx => by cases hx; exact h _ hs, nofun⟩

end Triple

end Exec

end TptRfc.Lib
