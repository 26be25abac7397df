import TptRfc.Lib.Text

/-!
# Ed25519: contexts

What `sign_ctx` and `sign_ph` put in front of the input of their hashes.
-/

namespace TptRfc.Ed25519

open Lib List

def domPrefix : Bytes := Text.encode "SigEd25519 no Ed25519 collisions".toList

def domCtx (context : Bytes) : Bytes := domPrefix ++ [0] ++ [UInt8.ofNat context.length] ++ context

def domPh : Bytes := domPrefix ++ [1] ++ [0]

theorem domCtx_append_eq_iff (c₁ c₂ x y : Bytes) : domCtx c₁ ++ x = domCtx c₂ ++ y ↔
      c₁.length % 256 = c₂.length % 256 ∧ c₁ ++ x = c₂ ++ y := by
  simp only [domCtx, append_assoc, append_cancel_left_eq, cons_append, nil_append,
    cons.injEq, true_and, ← UInt8.toNat_inj, UInt8.toNat_ofNat']

/-- The strings of two contexts can be told apart, whatever follows them. -/
def Separated (c₁ c₂ : Bytes) : Prop := ∀ x y, domCtx c₁ ++ x = domCtx c₂ ++ y → c₁ = c₂ ∧ x = y

theorem separated_of_ne {c₁ c₂ : Bytes}
    (h : c₁.length % 256 ≠ c₂.length % 256 ∨ ¬ c₁ <+: c₂ ∧ ¬ c₂ <+: c₁) : Separated c₁ c₂ := by
  intro x y heq
  obtain ⟨hlen, happ⟩ := (domCtx_append_eq_iff c₁ c₂ x y).mp heq
  obtain hne | ⟨h₁, h₂⟩ := h
  · exact absurd hlen hne
  · obtain ⟨a, rfl, -⟩ | ⟨a, rfl, -⟩ := append_eq_append_iff.mp happ
    · exact absurd (prefix_append c₁ a) h₁
    · exact absurd (prefix_append c₂ a) h₂

theorem eq_of_separated {c₁ c₂ : Bytes} (h : Separated c₁ c₂)
    (hlen : c₁.length % 256 = c₂.length % 256) (hpre : c₁ <+: c₂) : c₁ = c₂ := by
  obtain ⟨a, rfl⟩ := hpre
  exact (h a [] ((domCtx_append_eq_iff _ _ _ _).mpr ⟨hlen, by rw [append_nil]⟩)).1

theorem Separated.symm {c₁ c₂ : Bytes} (h : Separated c₁ c₂) : Separated c₂ c₁ := by
  intro x y heq
  obtain ⟨rfl, rfl⟩ := h y x heq.symm
  exact ⟨rfl, rfl⟩

theorem separated_iff (c₁ c₂ : Bytes) :
    Separated c₁ c₂ ↔ c₁ = c₂ ∨ c₁.length % 256 ≠ c₂.length % 256 ∨
      ¬ c₁ <+: c₂ ∧ ¬ c₂ <+: c₁ := by
  constructor
  · intro h
    by_cases hlen : c₁.length % 256 = c₂.length % 256
    · by_cases hpre : c₁ <+: c₂ ∨ c₂ <+: c₁
      · obtain hpre | hpre := hpre
        · exact .inl (eq_of_separated h hlen hpre)
        · exact .inl (eq_of_separated h.symm hlen.symm hpre).symm
      · exact .inr (.inr (not_or.mp hpre))
    · exact .inr (.inl hlen)
  · rintro (rfl | h)
    · exact fun x y heq => ⟨rfl, append_cancel_left heq⟩
    · exact separated_of_ne h

/-- Which contexts are separated, that all of at most 255 bytes are, and that the prehashed mode
is separated from itself and from every context. -/
theorem contexts_separated_iff (c₁ c₂ : Bytes) :
    (Separated c₁ c₂ ↔ c₁ = c₂ ∨ c₁.length % 256 ≠ c₂.length % 256 ∨
      ¬ c₁ <+: c₂ ∧ ¬ c₂ <+: c₁) ∧ (c₁.length < 256 → c₂.length < 256 → Separated c₁ c₂) ∧
    (∀ x y, domPh ++ x = domPh ++ y → x = y) ∧ ∀ x y, domCtx c₁ ++ x ≠ domPh ++ y := by
  refine ⟨separated_iff c₁ c₂, fun h₁ h₂ x y heq => ?_, fun x y => append_cancel_left, ?_⟩
  · obtain ⟨hlen, happ⟩ := (domCtx_append_eq_iff c₁ c₂ x y).mp heq
    rw [Nat.mod_eq_of_lt h₁, Nat.mod_eq_of_lt h₂] at hlen
    exact append_inj happ hlen
  · intro x y heq
    simp [domCtx, domPh] at heq

theorem long_context_collides :
    domCtx (List.replicate 256 0) ++ [] = domCtx [] ++ List.replicate 256 0 ∧
      List.replicate 256 (0 : UInt8) ≠ [] := by
  refine ⟨(domCtx_append_eq_iff _ _ _ _).mpr ⟨?_, append_nil _⟩, ?_⟩
  · rw [length_replicate, length_nil]
  · exact ne_nil_of_length_pos (by rw [length_replicate]; decide)

end TptRfc.Ed25519
