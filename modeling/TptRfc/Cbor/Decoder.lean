import TptRfc.Lib.Descent
import TptRfc.Lib.Exec
import TptRfc.Cbor.Encoder

/-!
# CBOR: the decoder

`Decoder::decode_value` with its three options.
-/

namespace TptRfc.Cbor

open Lib Parser

inductive CborError where
  | unexpectedEof
  | invalidInitialByte (b : UInt8)
  | reservedSimpleValue (v : UInt8)
  | duplicateKey
  | indefiniteNotAllowed
  | integerOutOfRange
  | invalidUtf8
  | unsupported (what : String)
  /-- An error of the visitor of a type. -/
  | custom
  deriving DecidableEq

structure DecodeOptions where
  rejectIndefinite : Bool := false
  rejectDuplicateKeys : Bool := false
  canonical : Bool := false

namespace DecodeOptions

def strict : DecodeOptions :=
  { rejectIndefinite := true, rejectDuplicateKeys := true, canonical := false }

def canonicalMode : DecodeOptions :=
  { rejectIndefinite := true, rejectDuplicateKeys := true, canonical := true }

end DecodeOptions

structure Target where
  checks : Bool
  valueSize : ℕ
  valueSize_pos : 0 < valueSize

def isizeMax : ℕ := 2 ^ 63 - 1

abbrev Decode (α : Type) := Parser (Fault CborError) α

abbrev eof : Fault CborError := .error .unexpectedEof

def fail {α : Type} (e : CborError) : Decode α := lift (.error (.error e))

/-! ## Reading -/

def index : Decode UInt8
  | [] => .error .panic
  | b :: rest => .ok (b, rest)

def slice (n : ℕ) : Decode Bytes := fun bytes =>
  if n ≤ bytes.length then .ok (bytes.take n, bytes.drop n) else .error .panic

def readU8 : Decode UInt8 := fun bytes =>
  if bytes.length = 0 then .error eof else index bytes

def readExact (n : ℕ) : Decode Bytes := fun bytes =>
  if bytes.length < n then .error eof else slice n bytes

def readLen (major ai : UInt8) : Decode (Option (UInt64 × ℕ)) :=
  let wide (n : ℕ) : Decode (Option (UInt64 × ℕ)) := do
    let b ← readExact n
    pure (some (UInt64.ofNat (beNat b), n))
  if ai ≤ 23 then pure (some (ai.toUInt64, 0))
  else if ai = 24 then do
    let v ← readU8
    pure (some (v.toUInt64, 1))
  else if ai = 25 then wide 2
  else if ai = 26 then wide 4
  else if ai = 27 then wide 8
  else if ai = 31 then pure none
  else fail (.invalidInitialByte ((major <<< 5) ||| ai))

def okOr {α : Type} (e : CborError) : Option α → Decode α
  | some a => pure a
  | none => fail e

def orPanic {α : Type} : Option α → Decode α
  | some a => pure a
  | none => lift (.error .panic)

/-! ## Integers, strings and simple values -/

def minimalWidth (len : UInt64) : ℕ :=
  if len < 24 then 0 else if len ≤ 0xff then 1 else if len ≤ 0xffff then 2
  else if len ≤ 0xffffffff then 4 else 8

def checkShortestInt (len : UInt64) (nbytes : ℕ) : Decode Unit :=
  if nbytes ≠ minimalWidth len then fail (.invalidInitialByte 0) else pure ()

def checkHead (opts : DecodeOptions) (head : UInt64 × ℕ) : Decode Unit :=
  if opts.canonical then checkShortestInt head.1 head.2 else pure ()

def decodeInteger (t : Target) (opts : DecodeOptions) (b major ai : UInt8) : Decode Value := do
  let len ← readLen major ai
  let head ← okOr (.invalidInitialByte b) len
  checkHead opts head
  if major = 0 then pure (.integer (I128.ofU64 head.1))
  else do
    let value ← orPanic (I128.arith t.checks (-1 - (I128.ofU64 head.1).val))
    pure (.integer value)

def materializeString (bytes : Bytes) (isText : Bool) : Decode Value :=
  if isText then
    match String.fromUTF8? ⟨bytes.toArray⟩ with
    | some s => pure (.text s)
    | none => fail .invalidUtf8
  else pure (.bytes bytes)

def stringMajor (isText : Bool) : UInt8 := 2 + isText.toUInt8

def decodeChunk (isText : Bool) : Decode Bytes := do
  let b ← readU8
  if b >>> 5 ≠ stringMajor isText then fail (.invalidInitialByte b)
  else do
    let len ← readLen (b >>> 5) (b &&& 0x1f)
    let head ← okOr (.invalidInitialByte b) len
    readExact head.1.toNat

def decodeBytes (opts : DecodeOptions) (ai : UInt8) (isText : Bool) : Decode Value := do
  let len ← readLen 2 ai
  match len with
  | some head => do
    let bytes ← readExact head.1.toNat
    materializeString bytes isText
  | none =>
    if opts.rejectIndefinite then fail .indefiniteNotAllowed
    else do
      let chunks ← Parser.loop eof 0xff (fun _ => decodeChunk isText) none []
      materializeString chunks.flatten isText

def decodeSimple (ai : UInt8) : Decode Value :=
  if ai ≤ 19 then pure (.simple ai)
  else if ai = 20 then pure (.bool false)
  else if ai = 21 then pure (.bool true)
  else if ai = 22 then pure .null
  else if ai = 23 then pure .undefined
  else if ai = 24 then do
    let v ← readU8
    if v ≤ 31 then fail (.reservedSimpleValue v) else pure (.simple v)
  else if ai = 25 then do
    let b ← readExact 2
    pure (.float (f16ToF64 (UInt16.ofNat (beNat b))))
  else if ai = 26 then do
    let b ← readExact 4
    pure (.float (F64.ofF32 (UInt32.ofNat (beNat b))))
  else if ai = 27 then do
    let b ← readExact 8
    pure (.float ⟨UInt64.ofNat (beNat b)⟩)
  else if ai = 31 then fail (.invalidInitialByte 0xff)
  else fail (.invalidInitialByte (0xe0 ||| ai))

theorem decodeSimple_elim {P : Decode Value → Prop} (ai : UInt8)
    (simple : ai ≤ 19 → P (pure (.simple ai))) (bool : ∀ b, P (pure (.bool b)))
    (null : P (pure .null)) (undefined : P (pure .undefined))
    (extended : P (do
      let v ← readU8
      if v ≤ 31 then fail (.reservedSimpleValue v) else pure (.simple v)))
    (float : ∀ n (f : Bytes → F64), P (do let b ← readExact n; pure (.float (f b))))
    (fails : ∀ e, P (fail e)) : P (decodeSimple ai) :=
  iteInduction simple fun _ => iteInduction (fun _ => bool _) fun _ =>
    iteInduction (fun _ => bool _) fun _ => iteInduction (fun _ => null) fun _ =>
    iteInduction (fun _ => undefined) fun _ => iteInduction (fun _ => extended) fun _ =>
    iteInduction (fun _ => float _ _) fun _ => iteInduction (fun _ => float _ _) fun _ =>
    iteInduction (fun _ => float _ _) fun _ =>
    iteInduction (fun _ => fails _) fun _ => fails _

/-! ## Items inside items -/

section Nested

variable (t : Target) (opts : DecodeOptions) (self : Decode Value)

def reserve (n : ℕ) : Decode Unit :=
  if isizeMax < n * t.valueSize then lift (.error .panic) else pure ()

def decodeArray (ai : UInt8) : Decode Value := do
  let len ← readLen 4 ai
  match len with
  | some head => do
    reserve t head.1.toNat
    let items ← Parser.loop eof 0xff (fun _ => self) (some head.1.toNat) []
    pure (.array items)
  | none =>
    if opts.rejectIndefinite then fail .indefiniteNotAllowed
    else do
      let items ← Parser.loop eof 0xff (fun _ => self) none []
      pure (.array items)

def canonicalKeyLt (checks : Bool) (a b : Value) : Option Bool := do
  let ea ← encodeValue checks false a
  let eb ← encodeValue checks false b
  match compare ea.length eb.length with
  | .eq => pure (decide (ea < eb))
  | other => pure (other == .lt)

def checkKey (pairs : List (Value × Value)) (key : Value) : Decode Unit :=
  if (opts.rejectDuplicateKeys || opts.canonical) && pairs.any (fun e => e.1.beq key) then
    fail .duplicateKey
  else if opts.canonical then
    match pairs.getLast? with
    | some last => do
      let less ← orPanic (canonicalKeyLt t.checks last.1 key)
      if less then pure () else fail .duplicateKey
    | none => pure ()
  else pure ()

def decodePair (pairs : List (Value × Value)) : Decode (Value × Value) := do
  let key ← self
  let val ← self
  checkKey t opts pairs key
  pure (key, val)

def decodeMapBody (limit : Option ℕ) : Decode Value := do
  let pairs ← Parser.loop eof 0xff (decodePair t opts self) limit []
  pure (.map pairs)

def decodeMap (ai : UInt8) : Decode Value := do
  let len ← readLen 5 ai
  match len with
  | some head => decodeMapBody t opts self (some head.1.toNat)
  | none =>
    if opts.rejectIndefinite then fail .indefiniteNotAllowed
    else decodeMapBody t opts self none

def bignumToI128 (tag : UInt64) (bytes : Bytes) : Decode (Option I128) :=
  if 16 < bytes.length then pure none
  else do
    let shifted ← orPanic (patch (List.replicate 16 0) (16 - bytes.length) bytes)
    let magnitude := I128.ofBeBytes shifted
    if tag = 2 then pure (some magnitude)
    else do
      let v ← orPanic (I128.arith t.checks (-1 - magnitude.val))
      pure (some v)

def decodeTag (ai : UInt8) : Decode Value := do
  let len ← readLen 6 ai
  let head ← okOr (.invalidInitialByte (((6 : UInt8) <<< 5) ||| ai)) len
  let inner ← self
  match inner with
  | .bytes bytes =>
    if head.1 = 2 ∨ head.1 = 3 then do
      let v ← bignumToI128 t head.1 bytes
      match v with
      | some v => pure (.integer v)
      | none => pure (.tag head.1 (.bytes bytes))
    else pure (.tag head.1 (.bytes bytes))
  | inner => pure (.tag head.1 inner)

def decodeBody (b : UInt8) : Decode Value :=
  let major := b >>> 5
  let ai := b &&& 0x1f
  if major = 0 ∨ major = 1 then decodeInteger t opts b major ai
  else if major = 2 then decodeBytes opts ai false
  else if major = 3 then decodeBytes opts ai true
  else if major = 4 then decodeArray t opts self ai
  else if major = 5 then decodeMap t opts self ai
  else if major = 6 then decodeTag t self ai
  else if major = 7 then decodeSimple ai
  else fail (.invalidInitialByte b)

def decodeStep : Decode Value := do
  let b ← readU8
  decodeBody t opts self b

end Nested

def decode (t : Target) (opts : DecodeOptions) : Decode Value := fix eof (decodeStep t opts)

def decodeValue (t : Target) (data : Bytes) (opts : DecodeOptions) :
    Except (Fault CborError) Value := do
  let r ← decode t opts data
  if r.2 ≠ [] ∧ opts.canonical then .error (.error (.invalidInitialByte 0)) else .ok r.1

/-! ## The decoder as a parser -/

theorem readU8_eq : readU8 = takeU8 eof := by
  funext bytes
  cases bytes <;> rfl

theorem readExact_eq (n : ℕ) : readExact n = takeBytes eof n := by
  funext bytes
  unfold readExact slice takeBytes
  split_ifs <;> first | rfl | omega

theorem reads_readU8 : Reads eof readU8 := by
  rw [readU8_eq]
  exact ⟨rfl, shrinks_takeU8 eof⟩

def NoPanic {α : Type} (p : Decode α) : Prop := ∀ bytes, p bytes ≠ .error .panic

structure Safe {α : Type} (p : Decode α) : Prop where
  bounded : Bounded p
  noPanic : NoPanic p

section Safe

variable {α β : Type}

theorem Safe.pure (a : α) : Safe (Pure.pure a) := ⟨bounded_pure a, nofun⟩

theorem Safe.fail (e : CborError) : Safe (Cbor.fail e : Decode α) := ⟨bounded_lift _, nofun⟩

theorem Safe.bind {p : Decode α} {f : α → Decode β} (hp : Safe p) (hf : ∀ a, Safe (f a)) :
    Safe (p >>= f) := by
  refine ⟨hp.bounded.bind fun a => (hf a).bounded, fun bytes h => ?_⟩
  rcases bind_eq_error_iff.mp h with h | ⟨a, mid, -, h⟩
  · exact hp.noPanic bytes h
  · exact (hf a).noPanic mid h

theorem safe_readU8 : Safe readU8 := by
  refine ⟨reads_readU8.shrinks.bounded, fun bytes h => ?_⟩
  cases bytes <;> cases h

theorem safe_readExact (n : ℕ) : Safe (readExact n) := by
  rw [readExact_eq]
  refine ⟨bounded_takeBytes eof n, fun bytes h => ?_⟩
  rw [takeBytes] at h
  split at h <;> cases h

theorem safe_okOr (e : CborError) (o : Option α) : Safe (okOr e o) := by
  cases o with
  | none => exact Safe.fail e
  | some a => exact Safe.pure a

theorem bounded_orPanic (o : Option α) : Bounded (orPanic o) := by
  cases o with
  | none => exact bounded_lift _
  | some a => exact bounded_pure a

theorem safe_orPanic {o : Option α} (h : o ≠ none) : Safe (orPanic o) := by
  cases o with
  | none => exact absurd rfl h
  | some a => exact Safe.pure a

theorem arith_ne_none {checks : Bool} {z : ℤ} (h : InI128 z) : I128.arith checks z ≠ none := by
  rw [I128.arith_of_mem h]
  exact nofun

theorem safe_readLen (major ai : UInt8) : Safe (readLen major ai) := by
  have hwide : ∀ n, Safe (do
      let b ← readExact n
      pure (some (UInt64.ofNat (beNat b), n)) : Decode (Option (UInt64 × ℕ))) := fun n =>
    (safe_readExact n).bind fun _ => Safe.pure _
  unfold readLen
  split_ifs
  · exact Safe.pure _
  · exact safe_readU8.bind fun _ => Safe.pure _
  · exact hwide 2
  · exact hwide 4
  · exact hwide 8
  · exact Safe.pure _
  · exact Safe.fail _

theorem safe_loop {item : List α → Decode α} (hreads : ∀ acc, Reads eof (item acc))
    (h : ∀ acc, Safe (item acc)) (limit : Option ℕ) (acc : List α) :
    Safe (loop eof 0xff item limit acc) := by
  refine ⟨bounded_loop hreads limit acc, fun bytes hloop => ?_⟩
  obtain ⟨acc', bytes', -, hitem⟩ := (loop_eq_error_iff hreads).mp hloop
  exact (h acc').noPanic bytes' hitem

theorem safe_decodeInteger (t : Target) (opts : DecodeOptions) (b major ai : UInt8) :
    Safe (decodeInteger t opts b major ai) := by
  refine (safe_readLen major ai).bind fun len => (safe_okOr _ len).bind fun head => ?_
  refine Safe.bind ?_ fun _ => ?_
  · unfold checkHead checkShortestInt
    split
    · split
      · exact Safe.fail _
      · exact Safe.pure _
    · exact Safe.pure _
  · split
    · exact Safe.pure _
    · have hrange : InI128 (-1 - (I128.ofU64 head.1).val) := by
        have := head.1.toNat_lt
        unfold I128.ofU64 InI128
        dsimp only
        omega
      exact (safe_orPanic (arith_ne_none hrange)).bind fun _ => Safe.pure _

theorem safe_materializeString (bytes : Bytes) (isText : Bool) :
    Safe (materializeString bytes isText) := by
  unfold materializeString
  split
  · split
    · exact Safe.pure _
    · exact Safe.fail _
  · exact Safe.pure _

theorem safe_chunk (isText : Bool) (b : UInt8) :
    Safe (if b >>> 5 ≠ stringMajor isText then Cbor.fail (.invalidInitialByte b)
      else do
        let len ← readLen (b >>> 5) (b &&& 0x1f)
        let head ← okOr (.invalidInitialByte b) len
        readExact head.1.toNat : Decode Bytes) := by
  split
  · exact Safe.fail _
  · exact (safe_readLen _ _).bind fun len => (safe_okOr _ len).bind fun head => safe_readExact _

theorem reads_decodeChunk (isText : Bool) : Reads eof (decodeChunk isText) :=
  reads_readU8.bind fun b => (safe_chunk isText b).bounded

theorem safe_decodeBytes (opts : DecodeOptions) (ai : UInt8) (isText : Bool) :
    Safe (decodeBytes opts ai isText) := by
  refine (safe_readLen 2 ai).bind fun len => ?_
  split
  · exact (safe_readExact _).bind fun _ => safe_materializeString _ _
  · split
    · exact Safe.fail _
    · exact (safe_loop (fun _ => reads_decodeChunk isText)
        (fun _ => safe_readU8.bind (safe_chunk _)) _ _).bind fun _ => safe_materializeString _ _

theorem safe_decodeSimple (ai : UInt8) : Safe (decodeSimple ai) := by
  refine decodeSimple_elim ai (fun _ => Safe.pure _) (fun _ => Safe.pure _)
    (Safe.pure _) (Safe.pure _) (safe_readU8.bind fun v => ?_)
    (fun _ _ => (safe_readExact _).bind fun _ => Safe.pure _) fun _ => Safe.fail _
  split
  · exact Safe.fail _
  · exact Safe.pure _

theorem safe_bignumToI128 (t : Target) (tag : UInt64) (bytes : Bytes) :
    Safe (bignumToI128 t tag bytes) := by
  unfold bignumToI128
  split
  · exact Safe.pure _
  · rename_i hlen
    have hpatch : patch (List.replicate 16 0) (16 - bytes.length) bytes ≠ none := by
      unfold patch
      rw [List.length_replicate, if_pos (by omega)]
      exact nofun
    refine (safe_orPanic hpatch).bind fun shifted => ?_
    split
    · exact Safe.pure _
    · have hrange : InI128 (-1 - (I128.ofBeBytes shifted).val) := by
        have hlow := (I128.ofBeBytes shifted).property.1
        have hhigh := (I128.ofBeBytes shifted).property.2
        unfold InI128
        omega
      exact (safe_orPanic (arith_ne_none hrange)).bind fun _ => Safe.pure _

end Safe

section Nested

variable {t : Target} {opts : DecodeOptions} {p q : Decode Value}

theorem bounded_reserve (n : ℕ) : Bounded (reserve t n) := by
  unfold reserve
  split
  · exact bounded_lift _
  · exact bounded_pure _

theorem bounded_decodeArray (hp : Reads eof p) (ai : UInt8) :
    Bounded (decodeArray t opts p ai) := by
  refine (safe_readLen 4 ai).bounded.bind fun len => ?_
  split
  · refine (bounded_reserve _).bind fun _ => ?_
    exact (bounded_loop (fun _ => hp) _ _).bind fun _ => bounded_pure _
  · split
    · exact bounded_lift _
    · exact (bounded_loop (fun _ => hp) _ _).bind fun _ => bounded_pure _

theorem bounded_checkKey (pairs : List (Value × Value)) (key : Value) :
    Bounded (checkKey t opts pairs key) := by
  unfold checkKey
  split
  · exact bounded_lift _
  · split
    · split
      · refine (bounded_orPanic _).bind fun less => ?_
        split
        · exact bounded_pure _
        · exact bounded_lift _
      · exact bounded_pure _
    · exact bounded_pure _

theorem reads_decodePair (hp : Reads eof p) (pairs : List (Value × Value)) :
    Reads eof (decodePair t opts p pairs) :=
  hp.bind fun key => hp.shrinks.bounded.bind fun _ =>
    (bounded_checkKey pairs key).bind fun _ => bounded_pure _

theorem bounded_decodeMapBody (hp : Reads eof p) (limit : Option ℕ) :
    Bounded (decodeMapBody t opts p limit) :=
  (bounded_loop (reads_decodePair hp) _ _).bind fun _ => bounded_pure _

theorem bounded_decodeMap (hp : Reads eof p) (ai : UInt8) : Bounded (decodeMap t opts p ai) := by
  refine (safe_readLen 5 ai).bounded.bind fun len => ?_
  split
  · exact bounded_decodeMapBody hp _
  · split
    · exact bounded_lift _
    · exact bounded_decodeMapBody hp _

theorem bounded_decodeTag (hp : Reads eof p) (ai : UInt8) : Bounded (decodeTag t p ai) := by
  refine (safe_readLen 6 ai).bounded.bind fun len => (safe_okOr _ len).bounded.bind fun head =>
    hp.shrinks.bounded.bind fun inner => ?_
  split
  · split
    · refine (safe_bignumToI128 t _ _).bounded.bind fun v => ?_
      split <;> exact bounded_pure _
    · exact bounded_pure _
  · exact bounded_pure _

theorem bounded_decodeBody (hp : Reads eof p) (b : UInt8) : Bounded (decodeBody t opts p b) := by
  unfold decodeBody
  dsimp only
  split_ifs
  · exact (safe_decodeInteger _ _ _ _ _).bounded
  · exact (safe_decodeBytes _ _ _).bounded
  · exact (safe_decodeBytes _ _ _).bounded
  · exact bounded_decodeArray hp _
  · exact bounded_decodeMap hp _
  · exact bounded_decodeTag hp _
  · exact (safe_decodeSimple _).bounded
  · exact bounded_lift _

end Nested

/-! ## Two decoders -/

/-- What two option sets must have in common for a relation to hold of the two decoders. -/
structure Relates (ρ : ∀ {α : Type}, Except (Fault CborError) (α × Bytes) →
    Except (Fault CborError) (α × Bytes) → Prop) (t : Target) (opts opts' : DecodeOptions) :
    Prop extends Composes ρ where
  checkHead : ∀ head bytes, ρ (checkHead opts head bytes) (checkHead opts' head bytes)
  indefinite : ∀ {α : Type} {p q : Decode α} {bytes : Bytes}, ρ (p bytes) (q bytes) →
    ρ ((if opts.rejectIndefinite then fail .indefiniteNotAllowed else p) bytes)
      ((if opts'.rejectIndefinite then fail .indefiniteNotAllowed else q) bytes)
  checkKey : ∀ pairs key bytes,
    ρ (checkKey t opts pairs key bytes) (checkKey t opts' pairs key bytes)

section Relates

variable {ρ : ∀ {α : Type}, Except (Fault CborError) (α × Bytes) →
    Except (Fault CborError) (α × Bytes) → Prop} {t : Target} {opts opts' : DecodeOptions}
  (hρ : Relates ρ t opts opts') {p q : Decode Value} (hp : Reads eof p) (hq : Reads eof q)
  {bytes : Bytes}

include hρ

theorem Relates.decodeInteger (b major ai : UInt8) :
    ρ (decodeInteger t opts b major ai bytes) (decodeInteger t opts' b major ai bytes) :=
  hρ.bind (hρ.refl _) fun _ _ _ => hρ.bind (hρ.refl _) fun head rest _ =>
    hρ.bind (hρ.checkHead head rest) fun _ _ _ => hρ.refl _

theorem Relates.decodeBytes (ai : UInt8) (isText : Bool) :
    ρ (decodeBytes opts ai isText bytes) (decodeBytes opts' ai isText bytes) := by
  refine hρ.bind (hρ.refl _) fun len rest _ => ?_
  cases len with
  | some head => exact hρ.refl _
  | none => exact hρ.indefinite (hρ.refl _)

-- behind the initial byte, the calls are on the bytes that remain or fewer
variable (h : ∀ b : Bytes, b.length ≤ bytes.length → ρ (p b) (q b))

include h

theorem Relates.decodeTag (ai : UInt8) : ρ (decodeTag t p ai bytes) (decodeTag t q ai bytes) := by
  refine hρ.bind (hρ.refl _) fun len rest hlen => hρ.bind (hρ.refl _) fun head rest' hhead => ?_
  have hrest := ((safe_okOr _ _).bounded _ _ _ hhead).trans ((safe_readLen 6 ai).bounded _ _ _ hlen)
  exact hρ.bind (h rest' hrest) fun _ _ _ => hρ.refl _

include hp hq

theorem Relates.decodeArray (ai : UInt8) :
    ρ (decodeArray t opts p ai bytes) (decodeArray t opts' q ai bytes) := by
  have hloop : ∀ limit (rest : Bytes), rest.length ≤ bytes.length →
      ρ (Parser.loop eof 0xff (fun _ => p) limit [] rest)
        (Parser.loop eof 0xff (fun _ => q) limit [] rest) := fun limit rest hle =>
    hρ.loop (fun _ => hp) (fun _ => hq) limit [] rest fun _ b hb => h b (hb.trans hle)
  refine hρ.bind (hρ.refl _) fun len rest hlen => ?_
  have hrest := (safe_readLen 4 ai).bounded _ _ _ hlen
  cases len with
  | some head =>
    refine hρ.bind (hρ.refl _) fun _ rest' hres => ?_
    have hrest' := bounded_reserve _ _ _ _ hres
    exact hρ.bind (hloop _ rest' (hrest'.trans hrest)) fun _ _ _ => hρ.refl _
  | none => exact hρ.indefinite (hρ.bind (hloop _ rest hrest) fun _ _ _ => hρ.refl _)

omit hp in
theorem Relates.decodePair (pairs : List (Value × Value)) :
    ρ (decodePair t opts p pairs bytes) (decodePair t opts' q pairs bytes) := by
  refine hρ.bind (h bytes le_rfl) fun key rest hkey => ?_
  refine hρ.bind (h rest (hq.shrinks.bounded _ _ _ hkey)) fun val rest' _ => ?_
  exact hρ.bind (hρ.checkKey pairs key rest') fun _ _ _ => hρ.refl _

theorem Relates.decodeMapBody (limit : Option ℕ) :
    ρ (decodeMapBody t opts p limit bytes) (decodeMapBody t opts' q limit bytes) := by
  refine hρ.bind (hρ.loop (reads_decodePair hp) (reads_decodePair hq) limit [] bytes
    fun pairs b hb => ?_) fun _ _ _ => hρ.refl _
  exact hρ.decodePair hq (fun b' hb' => h b' (hb'.trans hb)) pairs

theorem Relates.decodeMap (ai : UInt8) :
    ρ (decodeMap t opts p ai bytes) (decodeMap t opts' q ai bytes) := by
  refine hρ.bind (hρ.refl _) fun len rest hlen => ?_
  have hrest := (safe_readLen 5 ai).bounded _ _ _ hlen
  have hbody := hρ.decodeMapBody hp hq fun b (hb : b.length ≤ rest.length) => h b (hb.trans hrest)
  cases len with
  | some head => exact hbody _
  | none => exact hρ.indefinite (hbody _)

theorem Relates.decodeBody (b : UInt8) :
    ρ (decodeBody t opts p b bytes) (decodeBody t opts' q b bytes) := by
  unfold Cbor.decodeBody
  split_ifs
  · exact hρ.decodeInteger _ _ _
  · exact hρ.decodeBytes _ _
  · exact hρ.decodeBytes _ _
  · exact hρ.decodeArray hp hq h _
  · exact hρ.decodeMap hp hq h _
  · exact hρ.decodeTag h _
  · exact hρ.refl _
  · exact hρ.refl _

end Relates

theorem relates_eq (t : Target) (opts : DecodeOptions) : Relates Eq t opts opts where
  refl _ := rfl
  bind := bind_congr_at
  checkHead _ _ := rfl
  indefinite h := by
    split
    · rfl
    · exact h
  checkKey _ _ _ := rfl

theorem descends_decodeStep (t : Target) (opts : DecodeOptions) :
    Descends eof (decodeStep t opts) where
  reads _ hp := reads_readU8.bind fun b => bounded_decodeBody hp b
  congr p q bytes hp hq h := by
    refine bind_congr_at rfl fun b rest hread => ?_
    have hlt := reads_readU8.shrinks _ _ _ hread
    exact (relates_eq t opts).decodeBody hp hq (fun bytes' hle => h bytes' (hle.trans_lt hlt)) b

theorem reads_decode (t : Target) (opts : DecodeOptions) : Reads eof (decode t opts) :=
  reads_fix (descends_decodeStep t opts)

theorem decode_eq (t : Target) (opts : DecodeOptions) (bytes : Bytes) :
    decode t opts bytes = decodeStep t opts (decode t opts) bytes :=
  fix_eq (descends_decodeStep t opts) bytes

theorem decode_cons (t : Target) (opts : DecodeOptions) (b : UInt8) (rest : Bytes) :
    decode t opts (b :: rest) = decodeBody t opts (decode t opts) b rest := by
  rw [decode_eq]
  rfl

/-! ## Heads -/

variable (opts : DecodeOptions) in
/-- The item behind an initial byte starts with this limit, or none if its length is indefinite. -/
inductive Starts (major ai : UInt8) (tail : Bytes) : Option ℕ → Bytes → Prop
  | definite {head mid} (h : readLen major ai tail = .ok (some head, mid)) :
      Starts major ai tail (some head.1.toNat) mid
  | indefinite {mid} (h : readLen major ai tail = .ok (none, mid))
      (hindef : opts.rejectIndefinite = false) : Starts major ai tail none mid

def reserveFor (t : Target) : Option ℕ → Decode Unit
  | some n => reserve t n
  | none => pure ()

section Heads

variable {t : Target} {opts : DecodeOptions} {p : Decode Value} {major ai : UInt8}
  {tail mid : Bytes} {limit : Option ℕ} {x : Except (Fault CborError) (Value × Bytes)}

theorem Starts.length_le (h : Starts opts major ai tail limit mid) : mid.length ≤ tail.length := by
  cases h with
  | definite h | indefinite h _ => exact (safe_readLen _ _).bounded _ _ _ h

theorem bind_readLen_iff (hx : ∀ e, x ≠ .error (.error e)) {f : Option (UInt64 × ℕ) → Decode Value}
    {g : Option ℕ → Decode Value} (hsome : ∀ head, f (some head) = g (some head.1.toNat))
    (hnone : f none = if opts.rejectIndefinite then fail .indefiniteNotAllowed else g none) :
    (readLen major ai >>= f) tail = x ↔
      ∃ limit mid, Starts opts major ai tail limit mid ∧ g limit mid = x := by
  constructor
  · intro h
    match hread : readLen major ai tail with
    | .error .panic => exact absurd hread ((safe_readLen major ai).noPanic tail)
    | .error (.error e) =>
      rw [bind_of_error hread] at h
      exact absurd h.symm (hx e)
    | .ok (some head, mid) =>
      rw [bind_of_ok hread, hsome] at h
      exact ⟨_, mid, .definite hread, h⟩
    | .ok (none, mid) =>
      rw [bind_of_ok hread, hnone] at h
      split at h
      · exact absurd h.symm (hx _)
      · rename_i hindef
        exact ⟨none, mid, .indefinite hread (Bool.eq_false_iff.mpr hindef), h⟩
  · rintro ⟨limit, mid, hstart, h⟩
    cases hstart with
    | definite hread => rw [bind_of_ok hread, hsome, h]
    | indefinite hread hindef => rw [bind_of_ok hread, hnone, hindef, if_neg Bool.false_ne_true, h]

theorem decodeArray_iff (hx : ∀ e, x ≠ .error (.error e)) :
    decodeArray t opts p ai tail = x ↔ ∃ limit mid, Starts opts 4 ai tail limit mid ∧
      (do
        reserveFor t limit
        let items ← Parser.loop eof 0xff (fun _ => p) limit []
        pure (.array items) : Decode Value) mid = x :=
  bind_readLen_iff hx (fun _ => rfl) rfl

theorem decodeMap_iff (hx : ∀ e, x ≠ .error (.error e)) :
    decodeMap t opts p ai tail = x ↔ ∃ limit mid, Starts opts 5 ai tail limit mid ∧
      decodeMapBody t opts p limit mid = x :=
  bind_readLen_iff hx (fun _ => rfl) rfl

theorem reserveFor_of_fits (h : ∀ n ∈ limit, n * t.valueSize ≤ isizeMax) :
    reserveFor t limit = pure () := by
  cases limit with
  | none => rfl
  | some n => exact if_neg (Nat.not_lt.mpr (h n rfl))

theorem reserveFor_eq_ok {rest : Bytes} (h : reserveFor t limit mid = .ok ((), rest)) :
    (∀ n ∈ limit, n * t.valueSize ≤ isizeMax) ∧ mid = rest := by
  by_cases hfits : ∀ n ∈ limit, n * t.valueSize ≤ isizeMax
  · rw [reserveFor_of_fits hfits] at h
    cases h
    exact ⟨hfits, rfl⟩
  · cases limit with
    | none => exact absurd nofun hfits
    | some n =>
      rw [reserveFor, reserve, if_pos (by simpa using hfits)] at h
      cases h

end Heads

end TptRfc.Cbor
