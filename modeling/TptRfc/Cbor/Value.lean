import TptRfc.Lib.Bytes

/-!
# CBOR: data items

The type `Value`, with the machine types that it is built from.
-/

namespace TptRfc.Cbor

open Lib List

/-! ## Integers -/

def InI128 (z : ℤ) : Prop := -2 ^ 127 ≤ z ∧ z < 2 ^ 127

instance (z : ℤ) : Decidable (InI128 z) := inferInstanceAs (Decidable (_ ∧ _))

abbrev I128 := { z : ℤ // InI128 z }

namespace I128

def min : I128 := ⟨-2 ^ 127, by decide⟩

def wrap (z : ℤ) : I128 :=
  ⟨z.bmod (2 ^ 128), by
    have hlow := Int.le_bmod (x := z) (m := 2 ^ 128) (by decide)
    have hhigh := Int.bmod_lt (x := z) (m := 2 ^ 128) (by decide)
    generalize z.bmod (2 ^ 128) = r at hlow hhigh ⊢
    norm_num at hlow hhigh
    exact ⟨by omega, by omega⟩⟩

def arith (checks : Bool) (z : ℤ) : Option I128 :=
  if h : InI128 z then some ⟨z, h⟩ else if checks then none else some (wrap z)

theorem arith_of_mem {checks : Bool} {z : ℤ} (h : InI128 z) : arith checks z = some ⟨z, h⟩ :=
  dif_pos h

def ofU64 (n : UInt64) : I128 :=
  ⟨n.toNat, by
    have := n.toNat_lt
    exact ⟨by omega, by omega⟩⟩

def toU64 (i : I128) : Option UInt64 :=
  if 0 ≤ i.val ∧ i.val < 2 ^ 64 then some (UInt64.ofNat i.val.toNat) else none

def toBeBytes (i : I128) : Bytes := beBytes 16 (i.val % 2 ^ 128).toNat

def ofBeBytes (bytes : Bytes) : I128 := wrap (beNat bytes)

end I128

/-! ## Floating point -/

structure F64 where
  bits : UInt64
  deriving DecidableEq

namespace F64

def isNan (f : F64) : Bool := decide (0x7ff0000000000000 < f.bits &&& 0x7fffffffffffffff)

def eq (f g : F64) : Bool :=
  !f.isNan && !g.isNan && (f.bits == g.bits || (f.bits ||| g.bits) &&& 0x7fffffffffffffff == 0)

def toFloat (f : F64) : Float := Float.ofBits f.bits

def ofFloat (x : Float) : F64 := ⟨x.toBits⟩

def ofU16 (n : UInt16) : F64 := ofFloat n.toFloat

def powi2 (n : ℤ) : F64 := ofFloat (Float.scaleB 1.0 n)

def add (f g : F64) : F64 := ofFloat (f.toFloat + g.toFloat)

def mul (f g : F64) : F64 := ofFloat (f.toFloat * g.toFloat)

def div (f g : F64) : F64 := ofFloat (f.toFloat / g.toFloat)

def neg (f : F64) : F64 := ⟨f.bits ^^^ 0x8000000000000000⟩

def toF32 (f : F64) : UInt32 := f.toFloat.toFloat32.toBits

def ofF32 (v : UInt32) : F64 := ofFloat (Float32.ofBits v).toFloat

end F64

inductive Value where
  | integer (i : I128)
  | float (f : F64)
  | bool (b : Bool)
  | null
  | undefined
  | simple (s : UInt8)
  | bytes (b : Bytes)
  | text (t : String)
  | array (items : List Value)
  | map (pairs : List (Value × Value))
  | tag (number : UInt64) (inner : Value)

namespace Value

@[elab_as_elim, induction_eliminator]
theorem ind {motive : Value → Prop} (integer : ∀ i, motive (.integer i))
    (float : ∀ f, motive (.float f)) (bool : ∀ b, motive (.bool b)) (null : motive .null)
    (undefined : motive .undefined) (simple : ∀ s, motive (.simple s))
    (bytes : ∀ b, motive (.bytes b)) (text : ∀ t, motive (.text t))
    (array : ∀ items, (∀ v ∈ items, motive v) → motive (.array items))
    (map : ∀ pairs, (∀ e ∈ pairs, motive e.1 ∧ motive e.2) → motive (.map pairs))
    (tag : ∀ number inner, motive inner → motive (.tag number inner)) (v : Value) : motive v :=
  @Value.rec motive (fun items => ∀ v ∈ items, motive v)
    (fun pairs => ∀ e ∈ pairs, motive e.1 ∧ motive e.2) (fun e => motive e.1 ∧ motive e.2)
    integer float bool null undefined simple bytes text array map tag
    (fun _ h => absurd h not_mem_nil)
    (fun _ _ hhead htail => forall_mem_cons.mpr ⟨hhead, htail⟩)
    (fun _ h => absurd h not_mem_nil)
    (fun _ _ hhead htail => forall_mem_cons.mpr ⟨hhead, htail⟩)
    (fun _ _ hkey hval => ⟨hkey, hval⟩) v

def asBytes : Value → Option Bytes
  | .bytes b => some b
  | _ => none

/-! ### Items at any depth -/

inductive Occurs (w : Value) : Value → Prop
  | here : Occurs w w
  | item {items v} (hmem : v ∈ items) (h : Occurs w v) : Occurs w (.array items)
  | key {pairs e} (hmem : e ∈ pairs) (h : Occurs w e.1) : Occurs w (.map pairs)
  | val {pairs e} (hmem : e ∈ pairs) (h : Occurs w e.2) : Occurs w (.map pairs)
  | inner {number v} (h : Occurs w v) : Occurs w (.tag number v)

def Everywhere (P : Value → Prop) (v : Value) : Prop := ∀ w, Occurs w v → P w

section Everywhere

variable {P Q : Value → Prop}

theorem Everywhere.self {v : Value} (h : Everywhere P v) : P v := h v .here

theorem Everywhere.mono {v : Value} (h : Everywhere P v) (hPQ : ∀ w, P w → Q w) :
    Everywhere Q v := fun w hw => hPQ w (h w hw)

theorem everywhere_of_leaf {v : Value} (hleaf : ∀ w, Occurs w v → w = v) : Everywhere P v ↔ P v :=
  ⟨Everywhere.self, fun h w hw => hleaf w hw ▸ h⟩

@[simp] theorem everywhere_integer (i : I128) : Everywhere P (.integer i) ↔ P (.integer i) :=
  everywhere_of_leaf fun _ h => by cases h; rfl

@[simp] theorem everywhere_float (f : F64) : Everywhere P (.float f) ↔ P (.float f) :=
  everywhere_of_leaf fun _ h => by cases h; rfl

@[simp] theorem everywhere_bool (b : Bool) : Everywhere P (.bool b) ↔ P (.bool b) :=
  everywhere_of_leaf fun _ h => by cases h; rfl

@[simp] theorem everywhere_null : Everywhere P .null ↔ P .null :=
  everywhere_of_leaf fun _ h => by cases h; rfl

@[simp] theorem everywhere_undefined : Everywhere P .undefined ↔ P .undefined :=
  everywhere_of_leaf fun _ h => by cases h; rfl

@[simp] theorem everywhere_simple (s : UInt8) : Everywhere P (.simple s) ↔ P (.simple s) :=
  everywhere_of_leaf fun _ h => by cases h; rfl

@[simp] theorem everywhere_bytes (b : Bytes) : Everywhere P (.bytes b) ↔ P (.bytes b) :=
  everywhere_of_leaf fun _ h => by cases h; rfl

@[simp] theorem everywhere_text (t : String) : Everywhere P (.text t) ↔ P (.text t) :=
  everywhere_of_leaf fun _ h => by cases h; rfl

@[simp] theorem everywhere_array (items : List Value) :
    Everywhere P (.array items) ↔ P (.array items) ∧ ∀ v ∈ items, Everywhere P v := by
  constructor
  · exact fun h => ⟨h.self, fun v hv w hw => h w (.item hv hw)⟩
  · rintro ⟨hself, hitems⟩ w hw
    cases hw with
    | here => exact hself
    | item hmem h => exact hitems _ hmem w h

@[simp] theorem everywhere_map (pairs : List (Value × Value)) : Everywhere P (.map pairs) ↔
      P (.map pairs) ∧ ∀ e ∈ pairs, Everywhere P e.1 ∧ Everywhere P e.2 := by
  constructor
  · exact fun h => ⟨h.self, fun e he =>
      ⟨fun w hw => h w (.key he hw), fun w hw => h w (.val he hw)⟩⟩
  · rintro ⟨hself, hpairs⟩ w hw
    cases hw with
    | here => exact hself
    | key hmem h => exact (hpairs _ hmem).1 w h
    | val hmem h => exact (hpairs _ hmem).2 w h

@[simp] theorem everywhere_tag (number : UInt64) (v : Value) :
    Everywhere P (.tag number v) ↔ P (.tag number v) ∧ Everywhere P v := by
  constructor
  · exact fun h => ⟨h.self, fun w hw => h w (.inner hw)⟩
  · rintro ⟨hself, hinner⟩ w hw
    cases hw with
    | here => exact hself
    | inner h => exact hinner w h

end Everywhere

mutual

def allItems (p : Value → Bool) : Value → Bool
  | .array items => p (.array items) && allOfItems p items
  | .map pairs => p (.map pairs) && allOfPairs p pairs
  | .tag number inner => p (.tag number inner) && allItems p inner
  | v => p v

def allOfItems (p : Value → Bool) : List Value → Bool
  | [] => true
  | v :: items => allItems p v && allOfItems p items

def allOfPairs (p : Value → Bool) : List (Value × Value) → Bool
  | [] => true
  | (k, v) :: pairs => allItems p k && allItems p v && allOfPairs p pairs

end

theorem allItems_iff {p : Value → Bool} {v : Value} :
    allItems p v = true ↔ Everywhere (fun w => p w = true) v := by
  induction v with
  | array items ih =>
    have hitems : allOfItems p items = true ↔
        ∀ v ∈ items, Everywhere (fun w => p w = true) v := by
      induction items with
      | nil => simp [allOfItems]
      | cons v items ihitems =>
        rw [forall_mem_cons] at ih
        simp [allOfItems, ih.1, ihitems ih.2]
    simp [allItems, hitems]
  | map pairs ih =>
    have hpairs : allOfPairs p pairs = true ↔ ∀ e ∈ pairs,
        Everywhere (fun w => p w = true) e.1 ∧ Everywhere (fun w => p w = true) e.2 := by
      induction pairs with
      | nil => simp [allOfPairs]
      | cons e pairs ihpairs =>
        rw [forall_mem_cons] at ih
        rw [allOfPairs, Bool.and_eq_true, Bool.and_eq_true, ih.1.1, ih.1.2, ihpairs ih.2,
          forall_mem_cons]
    rw [allItems, Bool.and_eq_true, hpairs, everywhere_map]
  | tag number inner ih => simp [allItems, ih]
  | _ => simp [allItems]

instance (P : Value → Prop) [DecidablePred P] (v : Value) : Decidable (Everywhere P v) :=
  decidable_of_iff (allItems (fun w => decide (P w)) v = true)
    (allItems_iff.trans (by simp only [decide_eq_true_eq]))

def NotFloat : Value → Prop
  | .float _ => False
  | _ => True

instance : DecidablePred NotFloat := fun v =>
  match v with
  | .float _ => inferInstanceAs (Decidable False)
  | .integer _ | .bool _ | .null | .undefined | .simple _ | .bytes _ | .text _ | .array _
  | .map _ | .tag _ _ => inferInstanceAs (Decidable True)

abbrev FloatFree (v : Value) : Prop := Everywhere NotFloat v

def NotMin (v : Value) : Prop := v ≠ .integer I128.min

/-! ### Equality -/

mutual

def eqWith (feq : F64 → F64 → Bool) : Value → Value → Bool
  | .integer i, .integer j => decide (i = j)
  | .float f, .float g => feq f g
  | .bool b, .bool c => b == c
  | .null, .null => true
  | .undefined, .undefined => true
  | .simple s, .simple t => s == t
  | .bytes b, .bytes c => b == c
  | .text s, .text t => s == t
  | .array xs, .array ys => eqItems feq xs ys
  | .map ps, .map qs => eqPairs feq ps qs
  | .tag n v, .tag m w => n == m && eqWith feq v w
  | _, _ => false

def eqItems (feq : F64 → F64 → Bool) : List Value → List Value → Bool
  | [], [] => true
  | v :: xs, w :: ys => eqWith feq v w && eqItems feq xs ys
  | _, _ => false

def eqPairs (feq : F64 → F64 → Bool) : List (Value × Value) → List (Value × Value) → Bool
  | [], [] => true
  | (k, v) :: ps, (l, w) :: qs => eqWith feq k l && eqWith feq v w && eqPairs feq ps qs
  | _, _ => false

end

def beq (v w : Value) : Bool := eqWith F64.eq v w

variable {feq : F64 → F64 → Bool}

theorem eqItems_iff {xs : List Value} (h : ∀ v ∈ xs, ∀ w, eqWith feq v w = true ↔ v = w) :
    ∀ ys, eqItems feq xs ys = true ↔ xs = ys := by
  induction xs with
  | nil =>
    intro ys
    cases ys <;> simp [eqItems]
  | cons v xs ih =>
    intro ys
    rw [forall_mem_cons] at h
    cases ys with
    | nil => simp [eqItems]
    | cons w ys => simp [eqItems, h.1 w, ih h.2 ys]

theorem eqPairs_iff {ps : List (Value × Value)}
    (h : ∀ e ∈ ps, (∀ w, eqWith feq e.1 w = true ↔ e.1 = w) ∧
      ∀ w, eqWith feq e.2 w = true ↔ e.2 = w) : ∀ qs, eqPairs feq ps qs = true ↔ ps = qs := by
  induction ps with
  | nil =>
    intro qs
    cases qs <;> simp [eqPairs]
  | cons e ps ih =>
    intro qs
    obtain ⟨k, v⟩ := e
    rw [forall_mem_cons] at h
    cases qs with
    | nil => simp [eqPairs]
    | cons e' qs =>
      obtain ⟨l, w⟩ := e'
      simp [eqPairs, h.1.1 l, h.1.2 w, ih h.2 qs]

theorem eqWith_iff {v : Value}
    (h : Everywhere (fun w => ∀ f, w = .float f → ∀ g, feq f g = true ↔ f = g) v) :
    ∀ w, eqWith feq v w = true ↔ v = w := by
  induction v with
  | float f =>
    intro w
    cases w <;> simp [eqWith, h.self f rfl]
  | array xs ih =>
    intro w
    rw [everywhere_array] at h
    cases w with
    | array ys => simp [eqWith, eqItems_iff (fun v hv => ih v hv (h.2 v hv))]
    | _ => simp [eqWith]
  | map ps ih =>
    intro w
    rw [everywhere_map] at h
    have hpairs : ∀ e ∈ ps, (∀ w, eqWith feq e.1 w = true ↔ e.1 = w) ∧
        ∀ w, eqWith feq e.2 w = true ↔ e.2 = w := fun e he =>
      ⟨(ih e he).1 (h.2 e he).1, (ih e he).2 (h.2 e he).2⟩
    cases w with
    | map qs => simp [eqWith, eqPairs_iff hpairs]
    | _ => simp [eqWith]
  | tag n v ih =>
    intro w
    rw [everywhere_tag] at h
    cases w with
    | tag m w => simp [eqWith, ih h.2 w]
    | _ => simp [eqWith]
  | _ =>
    intro w
    cases w <;> simp [eqWith]

instance : DecidableEq Value := fun v w =>
  decidable_of_iff (eqWith (fun f g => decide (f = g)) v w = true)
    (eqWith_iff (fun _ _ _ _ _ => by simp) w)

theorem beq_iff_of_floatFree {v : Value} (h : FloatFree v) (w : Value) : beq v w = true ↔ v = w :=
  eqWith_iff (h.mono fun u hu f hf => by subst hf; exact hu.elim) w

end Value

end TptRfc.Cbor
