import TptRfc.Cbor.Canonical

/-!
# CBOR: the strict modes only filter

A call that succeeds under any options succeeds with the default ones, with the same value and the
same bytes left over.
-/

namespace TptRfc.Cbor

open Lib Parser Value

def Filters {α : Type} (p q : Decode α) (bytes : Bytes) : Prop :=
  ∀ r, p bytes = .ok r → q bytes = .ok r

theorem relates_filters (t : Target) (opts : DecodeOptions) :
    Relates (fun x y => ∀ r, x = .ok r → y = .ok r) t opts {} where
  refl _ _ h := h
  bind hp hf := by
    rintro ⟨b, rest⟩ h
    obtain ⟨a, mid, hfirst, hsecond⟩ := bind_eq_ok h
    rw [bind_of_ok (hp _ hfirst)]
    exact hf a mid (hp _ hfirst) _ hsecond
  checkHead head bytes := by
    rintro ⟨⟨⟩, rest⟩ h
    unfold checkHead checkShortestInt at h
    split at h
    · split at h
      · exact absurd h fail_ne_ok
      · exact h
    · exact h
  indefinite h := by
    rw [if_neg (by decide : ¬ ({} : DecodeOptions).rejectIndefinite = true)]
    split
    · exact fun _ hfail => absurd hfail fail_ne_ok
    · exact h
  checkKey pairs key bytes := by
    rintro ⟨⟨⟩, rest⟩ hcheck
    obtain rfl := checkKey_rest hcheck
    rfl

theorem filters_decode {t : Target} {opts : DecodeOptions} (bytes : Bytes) :
    Filters (decode t opts) (decode t {}) bytes := by
  induction hn : bytes.length using Nat.strong_induction_on generalizing bytes with
  | h n ih =>
    cases bytes with
    | nil =>
      intro r h
      rw [(reads_decode t opts).nil] at h
      cases h
    | cons b bytes =>
      rw [Filters, decode_cons, decode_cons]
      refine (relates_filters t opts).decodeBody (reads_decode t opts) (reads_decode t {})
        (fun b' hb' => ih b'.length ?_ b' rfl) b
      rw [← hn]
      exact Nat.lt_succ_of_le hb'

end TptRfc.Cbor
