import TptRfc.Ipsec.Message

/-!
# IKEv2: panics of the decoder

Which datagrams make `Message::decode` panic.
-/

namespace TptRfc.Ipsec

open Lib Access List

theorem bind_okOr_eq_panic_iff {α β : Type} {o : Option α} {e : Error} {f : α → Decoded β} :
    okOr o e >>= f = .error .panic ↔ ∃ a, o = some a ∧ f a = .error .panic := by
  cases o with
  | none => exact iff_of_false nofun nofun
  | some a => simp [okOr, ok_bind]

theorem bind_pure_eq_panic_iff {α β : Type} {x : Decoded α} {f : α → β} :
    (x >>= fun a => pure (f a)) = .error .panic ↔ x = .error .panic := by
  rw [bind_eq_error_iff]
  exact or_iff_left (by rintro ⟨_, -, h⟩; cases h)

/-! ## Transforms -/

variable {buf body : Bytes} {fuel : ℕ} {checks : Bool} {ptype : PayloadType}

theorem decodeAttributes_ne_panic {a : ℕ} {keyLen : Option ℕ}
    (h : buf.length < fuel + a) (hfuel : fuel ≠ 0) :
    decodeAttributes buf fuel a keyLen ≠ .error .panic := by
  induction fuel generalizing a keyLen with
  | zero => exact absurd rfl hfuel
  | succ fuel ih =>
    rw [decodeAttributes]
    split
    · rename_i hroom
      rw [u16At_of_lt (by omega), ok_bind, u16At_of_lt (by omega), ok_bind]
      split
      · exact ih (by omega) (by omega)
      · split
        · exact ih (by omega) (by omega)
        · exact ih (by omega) (by omega)
    · exact nofun

theorem decodeTransform_ne_panic (buf : Bytes) : decodeTransform buf ≠ .error .panic := by
  unfold decodeTransform
  split
  · exact nofun
  · rename_i hlen
    rw [byteAt_of_lt (by omega), ok_bind, byteAt_of_lt (by omega), ok_bind, Ne,
      bind_okOr_eq_panic_iff]
    rintro ⟨ttype, -, h⟩
    rw [u16At_of_lt (by omega), ok_bind, bind_pure_eq_panic_iff] at h
    exact decodeAttributes_ne_panic (by omega) (by omega) h

theorem length_of_decodeTransform {r : Transform × UInt8}
    (h : decodeTransform buf = .ok r) : 8 ≤ buf.length := by
  by_contra hlen
  rw [decodeTransform, if_pos (by omega)] at h
  cases h

inductive TransformFrom (body : Bytes) : ℕ → ℕ → ℕ → Prop
  | here {n p} : TransformFrom body (n + 1) p p
  | next {n p q t next} (hp : p ≤ body.length)
      (hok : decodeTransform (body.drop p) = .ok (t, next)) (hnext : next ≠ 0)
      (hrest : TransformFrom body n (p + (getU16 body (p + 2)).toNat) q) :
      TransformFrom body (n + 1) p q

theorem decodeTransforms_eq_panic_iff {n p : ℕ} : decodeTransforms body n p = .error .panic ↔
      ∃ q, TransformFrom body n p q ∧ body.length < q := by
  induction n generalizing p with
  | zero => exact iff_of_false nofun (by rintro ⟨q, h, -⟩; cases h)
  | succ n ih =>
    by_cases hp : p ≤ body.length
    · have hslice : (slice body p body.length : Decoded Bytes) = .ok (body.drop p) := by
        rw [slice_of_le hp le_rfl, take_of_length_le (by rw [length_drop])]
      have hlen {r : Transform × UInt8} (h : decodeTransform (body.drop p) = .ok r) :
          p + 3 < body.length := by
        have := length_of_decodeTransform h
        rw [length_drop] at this
        omega
      rw [decodeTransforms, hslice, ok_bind, bind_eq_error_iff,
        or_iff_right (decodeTransform_ne_panic _)]
      constructor
      · rintro ⟨⟨t, next⟩, hdec, h⟩
        dsimp only at h
        rw [u16At_of_lt (hlen hdec), ok_bind] at h
        split at h
        · cases h
        · rename_i hmore
          obtain ⟨q, hrest, hq⟩ := ih.mp (bind_pure_eq_panic_iff.mp h)
          exact ⟨q, .next hp hdec hmore hrest, hq⟩
      · rintro ⟨q, h, hq⟩
        cases h with
        | here => omega
        | next _ hok hnext hrest =>
          refine ⟨_, hok, ?_⟩
          dsimp only
          rw [u16At_of_lt (hlen hok), ok_bind, if_neg hnext, bind_pure_eq_panic_iff]
          exact ih.mpr ⟨q, hrest, hq⟩
    · rw [decodeTransforms, slice, if_neg (by omega)]
      exact iff_of_true rfl ⟨p, .here, by omega⟩

/-! ## Proposals -/

def propLenAt (body : Bytes) (off : ℕ) : ℕ := (getU16 body (off + 2)).toNat

def spiSizeAt (body : Bytes) (off : ℕ) : ℕ := (body.getD (off + 6) 0).toNat

def transformsAt (body : Bytes) (off : ℕ) : ℕ := (body.getD (off + 7) 0).toNat

structure ProposalFault (body : Bytes) (off : ℕ) : Prop where
  length : 8 ≤ propLenAt body off ∧ off + propLenAt body off ≤ body.length
  protocol : (ProtocolId.fromU8 (body.getD (off + 5) 0)).isSome
  behind : body.length < off + 8 + spiSizeAt body off ∨
    ∃ q, TransformFrom body (transformsAt body off) (off + 8 + spiSizeAt body off) q ∧
      body.length < q

theorem decodeProposal_eq_panic_iff {off : ℕ} (h : off + 8 ≤ body.length) :
    decodeProposal body off = .error .panic ↔ ProposalFault body off := by
  rw [decodeProposal, u16At_of_lt (by omega), ok_bind]
  split
  · rename_i hlen
    refine iff_of_false nofun fun hfault => ?_
    have := hfault.length
    unfold propLenAt at this
    omega
  · rename_i hlen
    have hlen' : 8 ≤ propLenAt body off ∧ off + propLenAt body off ≤ body.length := by
      unfold propLenAt
      omega
    rw [byteAt_of_lt (by omega), ok_bind, bind_okOr_eq_panic_iff, byteAt_of_lt (by omega),
      byteAt_of_lt (by omega), byteAt_of_lt (by omega)]
    simp only [ok_bind]
    rw [show (body.getD (off + 6) 0).toNat = spiSizeAt body off from rfl,
      show (body.getD (off + 7) 0).toNat = transformsAt body off from rfl]
    by_cases hspi : body.length < off + 8 + spiSizeAt body off
    · rw [slice_of_lt hspi]
      exact ⟨fun ⟨_, h, _⟩ => ⟨hlen', Option.isSome_iff_exists.mpr ⟨_, h⟩, .inl hspi⟩,
        fun h => (Option.isSome_iff_exists.mp h.protocol).imp fun _ ha => ⟨ha, rfl⟩⟩
    · rw [slice_of_le (by omega) (Nat.not_lt.mp hspi)]
      simp only [ok_bind, bind_pure_eq_panic_iff, decodeTransforms_eq_panic_iff, exists_and_right,
        ← Option.isSome_iff_exists]
      exact ⟨fun h => ⟨hlen', h.1, .inr h.2⟩, fun h => ⟨h.protocol, h.behind.resolve_left hspi⟩⟩

theorem decodeProposal_eq_ok {off : ℕ} {r : Proposal × ℕ} (h : decodeProposal body off = .ok r) :
    r.2 = propLenAt body off ∧ 8 ≤ r.2 ∧ off + r.2 ≤ body.length := by
  obtain ⟨len, hlen, h⟩ := bind_eq_ok_iff.mp h
  obtain ⟨-, rfl⟩ := u16At_eq_ok hlen
  split at h
  · cases h
  · rename_i hrange
    simp only [bind_eq_ok_iff] at h
    obtain ⟨_, -, _, -, _, -, _, -, _, -, _, -, _, -, h⟩ := h
    cases h
    exact ⟨rfl, by dsimp only; omega, by dsimp only; omega⟩

inductive ProposalFrom (body : Bytes) : ℕ → ℕ → Prop
  | here {off} (hroom : off + 8 ≤ body.length) : ProposalFrom body off off
  | next {off q r} (hroom : off + 8 ≤ body.length) (hok : decodeProposal body off = .ok r)
      (hrest : ProposalFrom body (off + r.2) q) : ProposalFrom body off q

theorem decodeProposals_eq_panic_iff {off : ℕ} (h : body.length < fuel + off) (hfuel : fuel ≠ 0) :
    decodeProposals body fuel off = .error .panic ↔
      ∃ q, ProposalFrom body off q ∧ ProposalFault body q := by
  induction fuel generalizing off with
  | zero => exact absurd rfl hfuel
  | succ fuel ih =>
    rw [decodeProposals]
    split
    · rename_i hroom
      rw [bind_eq_error_iff, decodeProposal_eq_panic_iff hroom]
      simp only [bind_pure_eq_panic_iff]
      constructor
      · rintro (hfault | ⟨r, hok, h⟩)
        · exact ⟨off, .here hroom, hfault⟩
        · have hstep := decodeProposal_eq_ok hok
          obtain ⟨q, hrest, hfault⟩ := (ih (by omega) (by omega)).mp h
          exact ⟨q, .next hroom hok hrest, hfault⟩
      · rintro ⟨q, h, hfault⟩
        cases h with
        | here _ => exact .inl hfault
        | next _ hok hrest =>
          have hstep := decodeProposal_eq_ok hok
          exact .inr ⟨_, hok, (ih (by omega) (by omega)).mpr ⟨q, hrest, hfault⟩⟩
    · rename_i hroom
      refine iff_of_false nofun ?_
      rintro ⟨q, h, -⟩
      cases h with
      | here h => exact hroom h
      | next h _ _ => exact hroom h

theorem decodeSaBody_eq_panic_iff :
    decodeSaBody body = .error .panic ↔ ∃ q, ProposalFrom body 0 q ∧ ProposalFault body q :=
  bind_pure_eq_panic_iff.trans (decodeProposals_eq_panic_iff (by omega) (by omega))

/-! ## Traffic selectors -/

def selLenAt (body : Bytes) (p : ℕ) : ℕ := (getU16 body (p + 2)).toNat

/-- The selector at an index starts behind the body, or it has room for the first part of its
header and the rest of the header or the addresses end behind the body, or its length is
less than that of the header. -/
def SelectorFault (checks : Bool) (body : Bytes) (p : ℕ) : Prop :=
  (checks = true ∧ body.length < p) ∨
    p + 4 ≤ body.length ∧
      (body.length < p + 8 ∨ selLenAt body p < 8 ∨
        body.length < p + 8 + 2 * ((selLenAt body p - 8) / 2))

theorem decodeSelector_eq_panic_iff {p : ℕ} (h : body.length < 2 ^ 62) :
    decodeSelector checks body p = .error .panic ↔ SelectorFault checks body p := by
  unfold decodeSelector SelectorFault
  split
  · rename_i hshort
    have hleft : ¬ (p + 4 ≤ body.length ∧ (body.length < p + 8 ∨ selLenAt body p < 8 ∨
        body.length < p + 8 + 2 * ((selLenAt body p - 8) / 2))) := by omega
    rw [or_iff_left hleft, subUsize]
    by_cases hp : p ≤ body.length
    · rw [if_pos hp, ok_bind]
      exact iff_of_false nofun (by omega)
    · rw [if_neg hp]
      cases checks with
      | true => exact iff_of_true rfl ⟨rfl, by omega⟩
      | false => exact iff_of_false nofun nofun
  · rename_i hroom
    have hleft : ¬ (checks = true ∧ body.length < p) := by omega
    rw [or_iff_right hleft, and_iff_right (by omega : p + 4 ≤ body.length),
      byteAt_of_lt (by omega), ok_bind, byteAt_of_lt (by omega), ok_bind,
      u16At_of_lt (by omega), ok_bind]
    by_cases hhead : body.length < p + 8
    · refine iff_of_true (bind_eq_error_iff.mpr ?_) (.inl hhead)
      by_cases hports : p + 5 < body.length
      · refine .inr ⟨_, u16At_of_lt hports, ?_⟩
        rw [u16At_of_le (by omega)]
        rfl
      · exact .inl (u16At_of_le (by omega))
    · rw [u16At_of_lt (by omega), ok_bind, u16At_of_lt (by omega), ok_bind,
        show (getU16 body (p + 2)).toNat = selLenAt body p from rfl, subUsize]
      by_cases hlen : 8 ≤ selLenAt body p
      · rw [if_pos hlen, ok_bind]
        by_cases hend : body.length < p + 8 + 2 * ((selLenAt body p - 8) / 2)
        · refine iff_of_true (bind_eq_error_iff.mpr ?_) (.inr (.inr hend))
          by_cases hstart : body.length < p + 8 + (selLenAt body p - 8) / 2
          · exact .inl (slice_of_lt hstart)
          · refine .inr ⟨_, slice_of_le (by omega) (by omega), ?_⟩
            rw [slice_of_lt hend]
            rfl
        · rw [slice_of_le (by omega) (by omega), ok_bind, slice_of_le (by omega) (by omega),
            ok_bind]
          exact iff_of_false nofun (by omega)
      · refine iff_of_true ?_ (.inr (.inl (by omega)))
        rw [if_neg hlen]
        cases checks with
        | true => rfl
        | false =>
          -- without overflow checks the wrapped length is too large for any body
          rw [if_neg Bool.false_ne_true, ok_bind, slice_of_lt (by omega)]
          rfl

inductive SelectorFrom (checks : Bool) (body : Bytes) : ℕ → ℕ → ℕ → Prop
  | here {n p} : SelectorFrom checks body (n + 1) p p
  | next {n p q r} (hok : decodeSelector checks body p = .ok r)
      (hrest : SelectorFrom checks body n (p + r.2) q) : SelectorFrom checks body (n + 1) p q

theorem decodeSelectors_eq_panic_iff {n p : ℕ} (h : body.length < 2 ^ 62) :
    decodeSelectors checks body n p = .error .panic ↔
      ∃ q, SelectorFrom checks body n p q ∧ SelectorFault checks body q := by
  induction n generalizing p with
  | zero => exact iff_of_false nofun (by rintro ⟨q, h, -⟩; cases h)
  | succ n ih =>
    rw [decodeSelectors, bind_eq_error_iff, decodeSelector_eq_panic_iff h]
    simp only [bind_pure_eq_panic_iff, ih]
    constructor
    · rintro (hfault | ⟨r, hok, q, hfrom, hfault⟩)
      · exact ⟨p, .here, hfault⟩
      · exact ⟨q, .next hok hfrom, hfault⟩
    · rintro ⟨q, hfrom, hfault⟩
      cases hfrom with
      | here => exact .inl hfault
      | next hok hrest => exact .inr ⟨_, hok, q, hrest, hfault⟩

theorem decodeTsBody_eq_panic_iff (h : body.length < 2 ^ 62) :
    decodeTsBody checks body = .error .panic ↔ 4 ≤ body.length ∧
      ∃ q, SelectorFrom checks body (body.getD 0 0).toNat 4 q ∧ SelectorFault checks body q := by
  unfold decodeTsBody
  split
  · rename_i hshort
    exact iff_of_false nofun (by omega)
  · rename_i hlen
    rw [byteAt_of_lt (by omega), ok_bind, bind_pure_eq_panic_iff, decodeSelectors_eq_panic_iff h,
      and_iff_right (by omega : 4 ≤ body.length)]

/-! ## The other bodies -/

def NotifyFault (body : Bytes) : Prop := 4 ≤ body.length ∧ body.length < 4 + (body.getD 1 0).toNat

theorem decodeNotifyBody_eq_panic_iff :
    decodeNotifyBody body = .error .panic ↔ NotifyFault body := by
  unfold decodeNotifyBody NotifyFault
  split
  · rename_i hshort
    exact iff_of_false nofun (by omega)
  · rename_i hlen
    rw [byteAt_of_lt (by omega), ok_bind, byteAt_of_lt (by omega), ok_bind,
      u16At_of_lt (by omega), ok_bind]
    by_cases hspi : body.length < 4 + (body.getD 1 0).toNat
    · rw [slice_of_lt hspi]
      exact iff_of_true rfl ⟨by omega, hspi⟩
    · rw [slice_of_le (by omega) (by omega), ok_bind, slice_of_le (by omega) le_rfl]
      exact iff_of_false nofun (by omega)

theorem decodeKeBody_ne_panic (body : Bytes) : decodeKeBody body ≠ .error .panic := by
  unfold decodeKeBody
  split
  · exact nofun
  · rename_i hlen
    rw [u16At_of_lt (by omega), ok_bind, Ne, bind_okOr_eq_panic_iff,
      slice_of_le (by omega) le_rfl]
    exact nofun

theorem decodeCoded_ne_panic {α : Type} {fromU8 : UInt8 → Option α}
    {unsupported : UInt8 → Error} (h : 4 ≤ body.length) :
    decodeCoded fromU8 unsupported body ≠ .error .panic := by
  rw [decodeCoded, byteAt_of_lt (by omega), ok_bind, Ne, bind_okOr_eq_panic_iff,
    slice_of_le h le_rfl]
  exact nofun

theorem four_le_of_not_isEmpty (hlen : body.length % 4 = 0)
    (h : ¬ body.isEmpty) : 4 ≤ body.length := by
  have := length_pos_of_ne_nil fun hnil => h (List.isEmpty_iff.mpr hnil)
  omega

theorem codedBody_ne_panic (hlen : body.length % 4 = 0) :
    decodeIdBody body ≠ .error .panic ∧ decodeCertBody body ≠ .error .panic := by
  unfold decodeIdBody decodeCertBody
  constructor <;> split
  case isTrue | isTrue => exact nofun
  all_goals
    exact mt bind_pure_eq_panic_iff.mp (decodeCoded_ne_panic (four_le_of_not_isEmpty hlen ‹_›))

theorem decodeAuthBody_ne_panic (body : Bytes) : decodeAuthBody body ≠ .error .panic := by
  unfold decodeAuthBody
  split
  · exact nofun
  · exact mt bind_pure_eq_panic_iff.mp (decodeCoded_ne_panic (by omega))

/-! ## The chain of payloads -/

def BodyFault (checks : Bool) : PayloadType → Bytes → Prop
  | .sa, body => ∃ q, ProposalFrom body 0 q ∧ ProposalFault body q
  | .tsi, body | .tsr, body => 4 ≤ body.length ∧
      ∃ q, SelectorFrom checks body (body.getD 0 0).toNat 4 q ∧ SelectorFault checks body q
  | .notify, body => NotifyFault body
  | _, _ => False

theorem map_eq_panic_iff {α β : Type} {f : α → β} {x : Decoded α} :
    f <$> x = .error .panic ↔ x = .error .panic := by
  rw [map_eq_pure_bind, bind_pure_eq_panic_iff]

theorem decodeBody_eq_panic_iff {critical : Bool} {next : PayloadType}
    (hlen : body.length % 4 = 0) (hsmall : body.length < 2 ^ 62) :
    decodeBody checks ptype next critical body = .error .panic ↔
      BodyFault checks ptype body := by
  cases ptype with
  | sa => exact map_eq_panic_iff.trans decodeSaBody_eq_panic_iff
  | tsi | tsr => exact map_eq_panic_iff.trans (decodeTsBody_eq_panic_iff hsmall)
  | notify => exact map_eq_panic_iff.trans decodeNotifyBody_eq_panic_iff
  | ke => exact iff_of_false (mt map_eq_panic_iff.mp (decodeKeBody_ne_panic body)) nofun
  | idi | idr => exact iff_of_false (mt map_eq_panic_iff.mp (codedBody_ne_panic hlen).1) nofun
  | auth => exact iff_of_false (mt map_eq_panic_iff.mp (decodeAuthBody_ne_panic body)) nofun
  | cert => exact iff_of_false (mt map_eq_panic_iff.mp (codedBody_ne_panic hlen).2) nofun
  | certReq => exact iff_of_false (mt map_eq_panic_iff.mp (codedBody_ne_panic hlen).2) nofun
  | none | nonce | delete | vendor | sk | cp | eap => exact iff_of_false nofun nofun

structure HasBody (bytes body : Bytes) : Prop where
  header : 4 ≤ bytes.length
  next : (PayloadType.fromU8 (bytes.getD 0 0)).isSome
  length : 4 ≤ (getU16 bytes 2).toNat ∧ (getU16 bytes 2).toNat % 4 = 0 ∧
    (getU16 bytes 2).toNat ≤ bytes.length
  body : body = (bytes.drop 4).take ((getU16 bytes 2).toNat - 4)

theorem HasBody.length_body {bytes : Bytes} (h : HasBody bytes body) :
    body.length = (getU16 bytes 2).toNat - 4 := by
  have := h.length
  rw [h.body, length_take, length_drop]
  omega

theorem decodeOne_eq_panic_iff {bytes : Bytes} : decodeOne checks bytes ptype = .error .panic ↔
      ∃ body, HasBody bytes body ∧ BodyFault checks ptype body := by
  unfold decodeOne payloadHeaderLen
  split
  · rename_i hshort
    exact iff_of_false nofun fun ⟨_, h, _⟩ => absurd h.header (by omega)
  · rename_i hlen
    rw [byteAt_of_lt (by omega), ok_bind]
    cases hnext : PayloadType.fromU8 (bytes.getD 0 0) with
    | none =>
      refine iff_of_false nofun fun ⟨_, h, _⟩ => ?_
      have := h.next
      rw [hnext] at this
      cases this
    | some next =>
      rw [okOr, ok_bind, byteAt_of_lt (by omega), ok_bind, u16At_of_lt (by omega), ok_bind]
      split
      · rename_i hbad
        exact iff_of_false nofun fun ⟨_, h, _⟩ => absurd h.length (by omega)
      · rename_i hgood
        split
        · rename_i htrunc
          exact iff_of_false nofun fun ⟨_, h, _⟩ => absurd h.length (by omega)
        · rename_i hfull
          have hbody : HasBody bytes ((bytes.drop 4).take ((getU16 bytes 2).toNat - 4)) :=
            ⟨by omega, by rw [hnext]; rfl, by omega, rfl⟩
          have hsize := (getU16 bytes 2).toNat_lt
          have hlength := hbody.length_body
          rw [slice_of_le (by omega) (by omega), ok_bind, bind_pure_eq_panic_iff,
            decodeBody_eq_panic_iff (by omega) (by omega)]
          exact ⟨fun h => ⟨_, hbody, h⟩, fun ⟨body, h, hfault⟩ => h.body ▸ hfault⟩

inductive NextPayload (checks : Bool) : Bytes × PayloadType → Bytes × PayloadType → Prop
  | step {bytes cur p next} (hcur : cur ≠ .none) (hbytes : bytes ≠ [])
      (hok : decodeOne checks bytes cur = .ok (p, next)) :
      NextPayload checks (bytes, cur) (bytes.drop (getU16 bytes 2).toNat, next)

def PayloadFault (checks : Bool) (s : Bytes × PayloadType) : Prop :=
  s.2 ≠ .none ∧ s.1 ≠ [] ∧ ∃ body, HasBody s.1 body ∧ BodyFault checks s.2 body

theorem hasBody_of_decodeOne {bytes : Bytes}
    {r : Payload × PayloadType} (h : decodeOne checks bytes ptype = .ok r) :
    ∃ body, HasBody bytes body ∧
      ∃ next critical, decodeBody checks ptype next critical body = .ok r.1 := by
  unfold decodeOne payloadHeaderLen at h
  split at h
  · cases h
  · rename_i hlen
    rw [byteAt_of_lt (by omega), ok_bind] at h
    cases hnext : PayloadType.fromU8 (bytes.getD 0 0) with
    | none => rw [hnext] at h; cases h
    | some next =>
      rw [hnext, okOr, ok_bind, byteAt_of_lt (by omega), ok_bind, u16At_of_lt (by omega),
        ok_bind] at h
      split at h
      · cases h
      · split at h
        · cases h
        · rw [slice_of_le (by omega) (by omega), ok_bind] at h
          obtain ⟨p, hp, h⟩ := bind_eq_ok_iff.mp h
          cases h
          exact ⟨_, ⟨by omega, by rw [hnext]; rfl, by omega, rfl⟩, _, _, hp⟩

theorem payloadLen_of_hasBody {bytes : Bytes} (h : HasBody bytes body) :
    payloadLen bytes = .ok (getU16 bytes 2).toNat := by
  have := h.header
  rw [payloadLen, payloadHeaderLen, if_neg (by omega), u16At_of_lt (by omega)]
  rfl

theorem reaches_fault_iff {bytes : Bytes} {cur : PayloadType} :
    (∃ s, Relation.ReflTransGen (NextPayload checks) (bytes, cur) s ∧ PayloadFault checks s) ↔
      cur ≠ .none ∧ bytes ≠ [] ∧ (decodeOne checks bytes cur = .error .panic ∨
        ∃ r, decodeOne checks bytes cur = .ok r ∧
          ∃ s, Relation.ReflTransGen (NextPayload checks)
            (bytes.drop (getU16 bytes 2).toNat, r.2) s ∧ PayloadFault checks s) := by
  constructor
  · rintro ⟨s, hreach, hfault⟩
    rcases Relation.ReflTransGen.cases_head hreach with rfl | ⟨mid, hstep, hreach⟩
    · exact ⟨hfault.1, hfault.2.1, .inl (decodeOne_eq_panic_iff.mpr hfault.2.2)⟩
    · cases hstep with
      | step hcur hbytes hok => exact ⟨hcur, hbytes, .inr ⟨_, hok, s, hreach, hfault⟩⟩
  · rintro ⟨hcur, hbytes, hpanic | ⟨r, hok, s, hreach, hfault⟩⟩
    · exact ⟨_, .refl, hcur, hbytes, decodeOne_eq_panic_iff.mp hpanic⟩
    · exact ⟨s, .head (.step hcur hbytes hok) hreach, hfault⟩

theorem decodeChain_eq_panic_iff {bytes : Bytes} {cur : PayloadType} (hfuel : bytes.length < fuel) :
    decodeChain checks fuel bytes cur = .error .panic ↔
      ∃ s, Relation.ReflTransGen (NextPayload checks) (bytes, cur) s ∧ PayloadFault checks s := by
  induction fuel generalizing bytes cur with
  | zero => omega
  | succ fuel ih =>
    rw [decodeChain, reaches_fault_iff]
    split
    · rename_i hloop
      rw [and_iff_right hloop.1, and_iff_right hloop.2, bind_eq_error_iff]
      refine or_congr Iff.rfl (exists_congr fun r => and_congr_right fun hdec => ?_)
      obtain ⟨body, hbody, -⟩ := hasBody_of_decodeOne hdec
      have hlen := hbody.length
      have hdrop : (bytes.drop (getU16 bytes 2).toNat).length < fuel := by
        rw [length_drop]
        omega
      dsimp only
      rw [payloadLen_of_hasBody hbody, ok_bind, bind_pure_eq_panic_iff, ih hdrop]
    · rename_i hstop
      exact iff_of_false nofun fun h => hstop ⟨h.1, h.2.1⟩

/-! ## Messages -/

theorem headerDecode_ne_panic (buf : Bytes) : Header.decode buf ≠ .error .panic := by
  unfold Header.decode ikeHeaderLen
  split
  · exact nofun
  · rename_i hlen
    rw [slice_of_le (by omega) (by omega), ok_bind, slice_of_le (by omega) (by omega), ok_bind,
      byteAt_of_lt (by omega), ok_bind, Ne, bind_okOr_eq_panic_iff]
    rintro ⟨_, -, h⟩
    rw [byteAt_of_lt (by omega), ok_bind, byteAt_of_lt (by omega), ok_bind,
      bind_okOr_eq_panic_iff] at h
    obtain ⟨_, -, h⟩ := h
    rw [byteAt_of_lt (by omega), ok_bind, slice_of_le (by omega) (by omega), ok_bind,
      slice_of_le (by omega) (by omega)] at h
    cases h

/-- Decoding panics exactly if the chain of payloads leads to one whose body has a size that
leads behind the body. -/
theorem decode_panics_iff (checks : Bool) (buf : Bytes) :
    (Message.decode checks buf = .error .panic ↔
      ∃ header, Header.decode buf = .ok header ∧ header.length.toNat ≤ buf.length ∧
        ∃ s, Relation.ReflTransGen (NextPayload checks)
            ((buf.take header.length.toNat).drop ikeHeaderLen, header.nextPayload) s ∧
          PayloadFault checks s) ∧ ∀ start, decodePayloadsChain checks buf start = .error .panic ↔
      ∃ s, Relation.ReflTransGen (NextPayload checks) (buf, start) s ∧ PayloadFault checks s := by
  refine ⟨?_, fun _ => decodeChain_eq_panic_iff (Nat.lt_succ_self _)⟩
  unfold Message.decode
  cases hhead : Header.decode buf with
  | error e =>
    refine iff_of_false ?_ nofun
    intro h
    cases h
    exact headerDecode_ne_panic buf hhead
  | ok header =>
    rw [ok_bind]
    dsimp only
    split
    · rename_i hshort
      refine iff_of_false nofun ?_
      rintro ⟨_, h, hlen, -⟩
      cases h
      omega
    · rename_i hlen
      have hfuel : ((buf.take header.length.toNat).drop ikeHeaderLen).length <
          buf.length + 1 := by
        rw [length_drop, length_take]
        omega
      rw [bind_pure_eq_panic_iff, decodeChain_eq_panic_iff hfuel]
      constructor
      · exact fun h => ⟨header, rfl, Nat.not_lt.mp hlen, h⟩
      · rintro ⟨_, h, -, hfault⟩
        cases h
        exact hfault

/-- A notification of 8 bytes that announces an SPI of 255. -/
theorem decode_panics_notify :
    (∀ checks, decodePayloadsChain checks [0, 0, 0, 8, 0, 255, 0, 0] .notify = .error .panic) ∧
      ∀ checks, Message.decode checks (List.replicate 16 0 ++ [41, 0x20, 34, 0x08, 0, 0, 0, 0,
        0, 0, 0, 36, 0, 0, 0, 8, 0, 255, 0, 0]) = .error .panic := by
  decide +kernel

end TptRfc.Ipsec
