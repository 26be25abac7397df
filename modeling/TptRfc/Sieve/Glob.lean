import Mathlib

/-!
# Wildcards of `:matches`

`glob_match` of the evaluator (`evaluator.rs`) keeps the last `*` as its only point of return.
-/

namespace TptRfc.Sieve

open List

/-- `Glob t p`: `t` splits into a segment for each `*` of `p`, one character for each `?`, and the
other characters of `p` themselves. -/
inductive Glob : List Char → List Char → Prop
  | nil : Glob [] []
  | star (segment) {t p} : Glob t p → Glob (segment ++ t) ('*' :: p)
  | any (c) {t p} : Glob t p → Glob (c :: t) ('?' :: p)
  | char {c t p} : c ≠ '*' → c ≠ '?' → Glob t p → Glob (c :: t) (c :: p)

/-- The pattern `q` was entered at the text `s`, and the way from there to `t` and `p` met no
`*`. -/
def Since (s q t p : List Char) : Prop :=
  ∃ u w, s = u ++ t ∧ q = w ++ p ∧ u.length = w.length ∧ '*' ∉ w

theorem Since.refl (t p : List Char) : Since t p t p := ⟨[], [], rfl, rfl, rfl, not_mem_nil⟩

theorem Since.step {s q t p : List Char} {c : Char} (h : Since s q (c :: t) p) (hp : p ≠ [])
    (hstar : p.head? ≠ some '*') : Since s q t p.tail := by
  obtain ⟨u, w, rfl, rfl, hlength, hw⟩ := h
  obtain ⟨x, p, rfl⟩ := exists_cons_of_ne_nil hp
  refine ⟨u ++ [c], w ++ [x], by simp, by simp, by simp [hlength], ?_⟩
  simpa [hw, eq_comm] using hstar

theorem Since.length_le {s q t p : List Char} (h : Since s q t p) : t.length ≤ s.length := by
  obtain ⟨u, w, rfl, -⟩ := h
  simp

/-- The loop on the rest of the text and of the pattern; `star` holds the text at `star_t` and the
pattern behind `star_p`. -/
def globLoop (t p : List Char) (star : Option (List Char × List Char))
    (h : ∀ s ∈ star, Since s.1 s.2 t p) : Bool :=
  match t with
  | [] => (p.dropWhile (· = '*')).isEmpty
  | c :: t =>
    if hstar : p.head? = some '*' then
      globLoop (c :: t) p.tail (some (c :: t, p.tail)) (by simp [Since.refl])
    else if hchar : p.head? = some '?' ∨ p.head? = some c then
      globLoop t p.tail star fun s hs => (h s hs).step (by aesop) hstar
    else
      match star with
      | some (s, q) => globLoop s.tail q (some (s.tail, q)) (by simp [Since.refl])
      | none => false
termination_by (star.elim (t.length + 1) (·.1.length), t.length + p.length)
decreasing_by
  · have hp : p.tail.length < p.length := by cases p <;> simp_all
    cases star with
    | none => exact Prod.Lex.left _ _ (by simp)
    | some s =>
      have := (h s rfl).length_le
      simp only [Prod.lex_def, Option.elim_some, length_cons] at this ⊢
      omega
  · simp only [Prod.lex_def, length_cons]
    cases star
    · simp
    · simp
      omega
  · have := (h _ rfl).length_le
    exact Prod.Lex.left _ _ (by simp at this ⊢; omega)

def globMatch (text pattern : List Char) : Bool := globLoop text pattern none nofun

/-! ## The last star is enough -/

theorem glob_append {w q r : List Char} (hw : '*' ∉ w) (h : Glob r (w ++ q)) :
    ∃ u v, r = u ++ v ∧ u.length = w.length ∧ Glob v q := by
  induction w generalizing r with
  | nil => exact ⟨[], r, rfl, rfl, h⟩
  | cons x w ih =>
    obtain ⟨hx, hw⟩ := not_or.mp (mem_cons.not.mp hw)
    obtain ⟨c, t, rfl, ht⟩ : ∃ c t, r = c :: t ∧ Glob t (w ++ q) := by
      cases h with
      | star => exact absurd rfl hx
      | any c h => exact ⟨c, _, rfl, h⟩
      | char _ _ h => exact ⟨x, _, rfl, h⟩
    obtain ⟨u, v, rfl, hlength, hv⟩ := ih hw ht
    exact ⟨c :: u, v, rfl, by simp [hlength], hv⟩

theorem glob_nil_iff {p : List Char} : Glob [] p ↔ ∀ x ∈ p, x = '*' := by
  constructor
  · generalize ht : ([] : List Char) = t
    intro h
    induction h with
    | nil => nofun
    | star segment _ ih =>
      simpa using ih (append_eq_nil_iff.mp ht.symm).2.symm
    | any | char => cases ht
  · intro h
    induction p with
    | nil => exact .nil
    | cons x p ih =>
      rw [h x mem_cons_self]
      exact .star [] (ih fun y hy => h y (mem_cons_of_mem _ hy))

theorem glob_star_iff {t p : List Char} : Glob t ('*' :: p) ↔ ∃ r, r <:+ t ∧ Glob r p := by
  constructor
  · rintro (_ | ⟨segment, h⟩ | _ | ⟨h, -⟩)
    · exact ⟨_, suffix_append _ _, h⟩
    · exact absurd rfl h
  · rintro ⟨r, ⟨segment, rfl⟩, h⟩
    exact .star segment h

theorem glob_cons_iff {c : Char} {t p : List Char} (hstar : p.head? ≠ some '*') :
    Glob (c :: t) p ↔ (p.head? = some '?' ∨ p.head? = some c) ∧ Glob t p.tail := by
  cases p with
  | nil =>
    refine iff_of_false (fun h => ?_) (by simp)
    generalize ht : c :: t = s at h
    cases h
    cases ht
  | cons x p =>
    constructor
    · generalize ht : c :: t = s
      rintro (_ | _ | ⟨_, h⟩ | ⟨_, _, h⟩)
      · exact absurd rfl hstar
      all_goals
        cases ht
        simpa using h
    · rintro ⟨hx, h⟩
      simp only [head?_cons, ne_eq, Option.some.injEq, tail_cons] at hstar hx h
      by_cases hany : x = '?'
      · subst hany
        exact .any c h
      · obtain rfl := hx.resolve_left hany
        exact .char hstar hany h

/-- What is still to be matched: the rest, or the pattern behind the star at a later place. -/
def Open (t p : List Char) (star : Option (List Char × List Char)) : Prop :=
  Glob t p ∨ ∃ s ∈ star, ∃ r, r <:+ s.1.tail ∧ Glob r s.2

theorem open_self_iff {t p : List Char} : Open t p (some (t, p)) ↔ Glob t ('*' :: p) := by
  rw [glob_star_iff]
  cases t <;> simp [Open, suffix_cons_iff]

/-- A later place for the star before leaves a later place for what follows `p`. -/
theorem Since.glob {s q t p : List Char} (h : Since s q t p) {r : List Char}
    (hr : r <:+ s.tail) (hglob : Glob r q) : ∃ v, v <:+ t.tail ∧ Glob v p := by
  obtain ⟨u, w, rfl, rfl, hlength, hw⟩ := h
  obtain ⟨u', v, rfl, hlength', hv⟩ := glob_append hw hglob
  refine ⟨v, suffix_of_suffix_length_le (((suffix_append _ _).trans hr).trans (tail_suffix _))
    ((tail_suffix t).trans (suffix_append _ _)) ?_, hv⟩
  have := hr.length_le
  simp only [length_append, length_tail] at this ⊢
  omega

theorem globLoop_iff (t p : List Char) (star : Option (List Char × List Char))
    (h : ∀ s ∈ star, Since s.1 s.2 t p) : globLoop t p star h = true ↔ Open t p star := by
  fun_induction globLoop t p star h with
  | case1 p star h =>
    have hglob : (p.dropWhile (· = '*')).isEmpty = true ↔ Glob [] p := by
      simp [glob_nil_iff]
    rw [hglob]
    refine ⟨.inl, ?_⟩
    rintro (hglob | ⟨s, hs, r, hr, hglob⟩)
    · exact hglob
    · obtain ⟨v, hv, hglob⟩ := (h s hs).glob hr hglob
      rwa [suffix_nil.mp hv] at hglob
  | case2 p star c t _ hstar h ih =>
    obtain ⟨p, rfl⟩ : ∃ p', p = '*' :: p' := ⟨p.tail, by cases p <;> simp_all⟩
    rw [ih, tail_cons, open_self_iff]
    refine ⟨.inl, ?_⟩
    rintro (hglob | ⟨s, hs, r, hr, hglob⟩)
    · exact hglob
    · obtain ⟨v, hv, hglob⟩ := (h s hs).glob hr hglob
      obtain ⟨r, hr, hglob⟩ := glob_star_iff.mp hglob
      exact glob_star_iff.mpr ⟨r, (hr.trans hv).trans (tail_suffix _), hglob⟩
  | case3 p star c t _ hstar hchar h ih =>
    rw [ih, Open, Open, glob_cons_iff hstar, and_iff_right hchar]
  | case4 p c t hstar hchar s q h _ ih =>
    rw [ih, open_self_iff, glob_star_iff]
    simp [Open, glob_cons_iff hstar, hchar]
  | case5 p c t hstar hchar =>
    simp [Open, glob_cons_iff hstar, hchar]

/-- **`:matches` is wildcard matching.** -/
theorem globMatch_iff (text pattern : List Char) :
    globMatch text pattern = true ↔ Glob text pattern := by
  rw [globMatch, globLoop_iff]
  simp [Open]

end TptRfc.Sieve
