import TptRfc.Dtls.HandshakeCodec

/-!
# DTLS: what the fragments of a handshake message dispatch

`handle_handshake_bytes` takes a fragment at offset `0` for the whole message, and gives every other
one to a fresh `Reassembler`, which is thrown away when the call returns.
-/

namespace TptRfc.Dtls

open Lib List Parser

def dispatched (bytes : Bytes) : Option HandshakeMessage :=
  match parseHandshake bytes with
  | .ok m => m
  | .error _ => none

/-- **Transparent fragmentation**: of the deliveries in order, the one that brings
the last missing fragment dispatches the message, and the others dispatch nothing. -/
def Transparent (m : HandshakeMessage) (frags deliveries : List Bytes) : Prop :=
  ∀ before d after, deliveries = before ++ d :: after →
    dispatched d =
      if frags ⊆ before ++ [d] ∧ ¬ frags ⊆ before then some m else none

/-! ## One fragment -/

variable {total offset maxFragment : ℕ} {code : UInt8} {payload full : Bytes} {seq : UInt16}
  {frags : List Bytes} {body : HandshakeBody}

theorem Fragment.parse_fragmentHeader (t : HandshakeType) (offset : ℕ)
    (seq : UInt16) (payload : Bytes) (htotal : total < 256 ^ 3) (hoffset : offset < 256 ^ 3)
    (hlen : payload.length < 256 ^ 3) :
    Parser.run Fragment.parse (fragmentHeader t.code total seq offset payload.length ++ payload) =
      .ok
        { msgType := t, length := total, messageSeq := seq, offset := offset,
          fragLength := payload.length, payload := payload } := by
  have hdec : Decodes Fragment.parse
      ([t.code] ++ (Writer.u24 total ++ (u16Bytes seq ++ (Writer.u24 offset ++
        (Writer.u24 payload.length ++ payload)))))
      { msgType := t, length := total, messageSeq := seq, offset := offset,
        fragLength := payload.length, payload := payload } :=
    (decodes_takeU8 _ t.code).bind
      (Decodes.lift_bind (HandshakeType.fromCode_code t)
        ((decodes_takeBe _ htotal).bind ((decodes_takeU16 _ seq).bind
          ((decodes_takeBe _ hoffset).bind ((decodes_takeBe _ hlen).bind
            ((decodes_takeBytes _ payload).bind_pure fun payload' =>
              (⟨t, total, seq, offset, payload.length, payload'⟩ : Fragment)))))))
  simp only [fragmentHeader, append_assoc]
  exact run_of_ok hdec.run_nil

theorem dispatched_unknown (h : ∀ t : HandshakeType, t.code ≠ code)
    (bytes : Bytes) : dispatched (code :: bytes) = none := by
  have hcode : ∃ e, HandshakeType.fromCode code = .error e := by
    cases hc : HandshakeType.fromCode code with
    | error e => exact ⟨e, rfl⟩
    | ok t => exact absurd (HandshakeType.fromCode_eq_ok_iff.mp hc).symm (h t)
  obtain ⟨e, he⟩ := hcode
  have hparse : parseHandshake (code :: bytes) = .error e := by
    have hfrag : Fragment.parse (code :: bytes) = .error e := by
      refine (bind_of_ok (decodes_takeU8 _ code bytes)).trans ?_
      refine bind_of_error ?_
      rw [he]
      rfl
    rw [parseHandshake, Parser.run, hfrag]
    rfl
  rw [dispatched, hparse]

theorem dispatched_first (t : HandshakeType) (seq : UInt16)
    (htotal : total < 256 ^ 3) (hlen : payload.length < 256 ^ 3) (m : HandshakeMessage) :
    dispatched (fragmentHeader t.code total seq 0 payload.length ++ payload) = some m ↔
      ∃ body, HandshakeBody.parse t payload = .ok body ∧ m = ⟨t, seq, body⟩ := by
  have hparse := Fragment.parse_fragmentHeader t 0 seq payload htotal (by decide) hlen
  simp only [dispatched, parseHandshake, hparse]
  cases hbody : HandshakeBody.parse t payload with
  | error e => simp [bind, Except.bind, hbody]
  | ok body => simp [bind, Except.bind, hbody, pure, Except.pure, eq_comm]

theorem Reassembler.add_new_later (hpos : 0 < offset)
    (hfit : offset + payload.length ≤ total) (htotal : 0 < total) :
    ((Reassembler.new total).add offset payload).1 = .ok none := by
  have hin : ¬ ((List.replicate total (0 : UInt8)).length < offset + payload.length ∨
      total - offset < payload.length) := by
    rw [length_replicate]
    omega
  rw [Reassembler.add, Reassembler.new, if_neg hin]
  obtain ⟨n, rfl⟩ : ∃ n, total = n + 1 := ⟨total - 1, by omega⟩
  obtain ⟨k, rfl⟩ : ∃ k, offset = k + 1 := ⟨offset - 1, by omega⟩
  simp only [Reassembler.complete, replicate_succ, take_succ_cons, cons_append,
    all_cons, id_eq, Bool.false_and, Bool.false_eq_true, if_false]

theorem dispatched_later (code : UInt8) (seq : UInt16)
    (htotal : total < 256 ^ 3) (hpos : 0 < offset) (hfit : offset + payload.length ≤ total) :
    dispatched (fragmentHeader code total seq offset payload.length ++ payload) = none := by
  by_cases hcode : ∃ t : HandshakeType, t.code = code
  · obtain ⟨t, rfl⟩ := hcode
    have hparse := Fragment.parse_fragmentHeader t offset seq payload htotal (by omega)
      (by omega)
    have hadd := Reassembler.add_new_later hpos hfit (by omega)
    simp only [dispatched, parseHandshake, hparse, bind, Except.bind, hpos.ne', false_and, if_false,
      hadd, pure, Except.pure]
  · exact dispatched_unknown (fun t h => hcode ⟨t, h⟩) _

/-! ## The fragments of a message -/

/-- What `fragment_message` cuts from `full` from `offset` on: headers with the
offset and the length of the piece behind them. -/
theorem exists_of_mem_fragmentFrom : ∀ {fuel offset : ℕ} {f : Bytes},
      f ∈ fragmentFrom full code full.length seq maxFragment fuel offset →
      ∃ (at' : ℕ) (payload : Bytes), offset ≤ at' ∧ at' + payload.length ≤ full.length ∧
        f = fragmentHeader code full.length seq at' payload.length ++ payload := by
  intro fuel
  induction fuel with
  | zero => intro offset f h; cases h
  | succ fuel ih =>
    intro offset f h
    rw [fragmentFrom] at h
    split at h
    · rename_i hlt
      rcases mem_cons.mp h with rfl | h
      · have hlen : ((full.drop offset).take (min (full.length - offset) maxFragment)).length =
            min (full.length - offset) maxFragment := by
          rw [length_take, length_drop]
          omega
        refine ⟨offset, _, le_refl _, ?_, by rw [hlen]⟩
        rw [hlen]
        omega
      · obtain ⟨at', payload, hle, hfit, rfl⟩ := ih h
        exact ⟨at', payload, by omega, hfit, rfl⟩
    · cases h

def firstFragment (full : Bytes) (code : UInt8) (seq : UInt16) (max : ℕ) : Bytes :=
  fragmentHeader code full.length seq 0 (full.take max).length ++ full.take max

theorem fragmentFrom_zero (code : UInt8) (bytes : Bytes) (seq : UInt16) (max : ℕ) :
    fragmentFrom (code :: bytes) code (code :: bytes).length seq max (code :: bytes).length 0 =
      firstFragment (code :: bytes) code seq max ::
        fragmentFrom (code :: bytes) code (code :: bytes).length seq max bytes.length
          ((code :: bytes).take max).length := by
  have htake : min ((code :: bytes).length - 0) max = ((code :: bytes).take max).length := by
    rw [length_take, Nat.sub_zero, min_comm]
  have hcut : ((code :: bytes).drop 0).take ((code :: bytes).take max).length =
      (code :: bytes).take max := by
    rw [drop_zero, length_take]
    exact take_eq_take_min.symm
  rw [length_cons, fragmentFrom, if_pos (Nat.succ_pos _), ← length_cons (a := code)]
  simp only [htake, hcut, Nat.zero_add, firstFragment]

/-- **The fragments of a message**: a first one, whose type is the first byte of
the message, and later ones exactly when the message is longer than a fragment. -/
theorem fragmentMessage_eq_some (hlen : full.length < 256 ^ 3)
    (h : fragmentMessage full seq maxFragment = some frags) :
    ∃ later, frags = firstFragment full (full.headD HandshakeType.clientHello.code) seq
        (maxFragment % 2 ^ 32) :: later ∧
      (later = [] ↔ full.length ≤ maxFragment % 2 ^ 32) ∧ ∀ f ∈ later, dispatched f = none := by
  cases full with
  | nil =>
    cases h
    exact ⟨[], by simp [firstFragment], by simp, by simp⟩
  | cons code bytes =>
    have htotal : (code :: bytes).length % 2 ^ 32 = (code :: bytes).length :=
      Nat.mod_eq_of_lt (by omega)
    simp only [fragmentMessage] at h
    rw [htotal, if_neg (length_cons ▸ Nat.succ_ne_zero _)] at h
    generalize maxFragment % 2 ^ 32 = max at *
    split at h
    · cases h
    rename_i hmax
    cases h
    have hfirst : 0 < ((code :: bytes).take max).length := by
      rw [length_take, length_cons]
      omega
    refine ⟨_, fragmentFrom_zero code bytes seq max, ⟨fun hnil => ?_, fun hshort => ?_⟩, ?_⟩
    · by_contra hlong
      rw [length_cons] at hlong
      obtain ⟨n, hn⟩ : ∃ n, bytes.length = n + 1 := Nat.exists_eq_succ_of_ne_zero (by omega)
      rw [hn, fragmentFrom, if_pos (by simp only [length_take, length_cons]; omega)]
        at hnil
      cases hnil
    · rw [take_of_length_le hshort]
      cases bytes.length with
      | zero => rfl
      | succ n => rw [fragmentFrom, if_neg (lt_irrefl _)]
    · intro f hf
      obtain ⟨at', payload, hle, hfit, rfl⟩ := exists_of_mem_fragmentFrom hf
      exact dispatched_later code seq hlen (by omega) hfit

/-! ## Transparency -/

theorem dispatched_firstFragment (hfits : body.Fits) (code : UInt8)
    (hlen : body.bodyBytes.length < 256 ^ 3) (seq : UInt16) (max : ℕ) :
    dispatched (firstFragment body.bodyBytes code seq max) = some (.new body seq) ↔
      code = body.msgType.code ∧ body.bodyBytes.length ≤ max := by
  have htake : (body.bodyBytes.take max).length < 256 ^ 3 := (length_take_le' _ _).trans_lt hlen
  by_cases hcode : ∃ t : HandshakeType, t.code = code
  · obtain ⟨t, rfl⟩ := hcode
    rw [firstFragment, dispatched_first t seq hlen htake]
    constructor
    · rintro ⟨body', hparse, hmsg⟩
      obtain ⟨rfl, rfl⟩ : body.msgType = t ∧ body = body' := by
        simpa [HandshakeMessage.new] using hmsg
      refine ⟨rfl, ?_⟩
      by_contra hlong
      refine HandshakeBody.parse_ne_of_append hfits (take_append_drop max _) ?_ hparse
      intro hnil
      exact hlong (drop_eq_nil_iff.mp hnil)
    · rintro ⟨hcode, hshort⟩
      cases HandshakeType.code_injective hcode
      refine ⟨body, ?_, rfl⟩
      rw [take_of_length_le hshort]
      exact HandshakeBody.parse_bodyBytes hfits
  · have hnone : dispatched (firstFragment body.bodyBytes code seq max) = none :=
      dispatched_unknown (fun t h => hcode ⟨t, h⟩) _
    rw [hnone]
    constructor
    · intro h
      cases h
    · intro h
      exact absurd ⟨_, h.1.symm⟩ hcode

theorem HandshakeBody.headD_eq_code :
    body.bodyBytes.headD HandshakeType.clientHello.code = body.msgType.code ↔
      body.bodyBytes.head? = some body.msgType.code := by
  cases hbytes : body.bodyBytes with
  | cons b bytes => simp
  | nil =>
    simp only [headD_nil, head?_nil, reduceCtorEq, iff_false]
    intro hcode
    cases body with
    | clientHello c => cases hbytes
    | _ => cases HandshakeType.code_injective hcode

theorem exists_completing {deliveries : List Bytes} (hne : frags ≠ []) (hall : frags ⊆ deliveries) :
    ∃ before d after, deliveries = before ++ d :: after ∧ frags ⊆ before ++ [d] ∧
      ¬ frags ⊆ before := by
  induction deliveries using reverseRecOn with
  | nil => exact absurd (subset_nil.mp hall) hne
  | append_singleton deliveries d ih =>
    by_cases hbefore : frags ⊆ deliveries
    · obtain ⟨before, d', after, rfl, hdone, hnot⟩ := ih hbefore
      exact ⟨before, d', after ++ [d], by simp, hdone, hnot⟩
    · exact ⟨deliveries, d, [], rfl, hall, hbefore⟩

/-- **When fragmentation is transparent.** Take a message whose body is framed by 24-bit lengths,
the fragments that `fragment_message` makes of its body, and any deliveries of these fragments in
which each arrives. -/
theorem transparent_iff {body : HandshakeBody} (hfits : body.Fits)
    (hlen : body.bodyBytes.length < 256 ^ 3) {seq : UInt16} {maxFragment : ℕ}
    {frags deliveries : List Bytes}
    (hfrags : fragmentMessage body.bodyBytes seq maxFragment = some frags)
    (hfrom : deliveries ⊆ frags) (hall : frags ⊆ deliveries) :
    Transparent (.new body seq) frags deliveries ↔
      body.bodyBytes.head? = some body.msgType.code ∧
        body.bodyBytes.length ≤ maxFragment % 2 ^ 32 ∧ deliveries.length = 1 := by
  obtain ⟨later, rfl, hsplit, hlater⟩ := fragmentMessage_eq_some hlen hfrags
  have hfirst := dispatched_firstFragment hfits
    (body.bodyBytes.headD HandshakeType.clientHello.code) hlen seq (maxFragment % 2 ^ 32)
  generalize firstFragment body.bodyBytes _ seq (maxFragment % 2 ^ 32) = first at *
  rw [HandshakeBody.headD_eq_code, ← hsplit] at hfirst
  rw [← hsplit, ← and_assoc, ← hfirst]
  constructor
  · intro htrans
    obtain ⟨before, d, after, rfl, hdone, hnot⟩ := exists_completing (cons_ne_nil _ _) hall
    have hd : dispatched d = some (.new body seq) := by
      rw [htrans before d after rfl, if_pos ⟨hdone, hnot⟩]
    -- only the first fragment dispatches, so there is no other one
    obtain rfl : d = first := by
      rcases mem_cons.mp (hfrom (mem_append_cons_self)) with h | h
      · exact h
      · rw [hlater d h] at hd
        cases hd
    obtain rfl : later = [] := (hfirst.mp hd).2
    refine ⟨hd, ?_⟩
    have hsame : ∀ x ∈ before ++ d :: after, x = d := fun x hx => mem_singleton.mp (hfrom hx)
    have hbefore : before = [] := by
      cases before with
      | nil => rfl
      | cons x before =>
        obtain rfl := hsame x (by simp)
        exact absurd (by simp) hnot
    have hafter : after = [] := by
      cases after with
      | nil => rfl
      | cons x after =>
        obtain rfl := hsame x (by simp)
        have hagain := htrans (before ++ [x]) x after (by simp)
        rw [hd, if_neg (fun h => h.2 (by simp))] at hagain
        cases hagain
    rw [hbefore, hafter]
    rfl
  · rintro ⟨hd, hone⟩ before d after rfl
    obtain rfl : later = [] := (hfirst.mp hd).2
    obtain ⟨rfl, rfl⟩ : before = [] ∧ after = [] := by
      rw [length_append, length_cons] at hone
      exact ⟨length_eq_zero_iff.mp (by omega), length_eq_zero_iff.mp (by omega)⟩
    obtain rfl : d = first := mem_singleton.mp (hfrom (by simp))
    rw [hd, if_pos ⟨by simp, by simp⟩]

/-- A Finished whose verify data starts with the code of Finished, in one fragment
that is delivered once. -/
theorem transparent_finished_whole : Transparent (.new (.finished [20, 7]) 0)
        [fragmentHeader 20 2 0 0 2 ++ [20, 7]] [fragmentHeader 20 2 0 0 2 ++ [20, 7]] :=
  (@transparent_iff (.finished [20, 7]) trivial (by decide) 0 2 _ _ (by decide) (by simp)
    (by simp)).mpr ⟨by decide, by decide, rfl⟩

/-- The same message in fragments of one byte, delivered in order: the first
fragment dispatches a Finished with half of the verify data, and the message itself
is never dispatched. -/
theorem not_transparent_finished_split :
    fragmentMessage (HandshakeBody.finished [20, 7]).bodyBytes 0 1 =
        some [fragmentHeader 20 2 0 0 1 ++ [20], fragmentHeader 20 2 0 1 1 ++ [7]] ∧
      dispatched (fragmentHeader 20 2 0 0 1 ++ [20]) = some (.new (.finished [20]) 0) ∧
      dispatched (fragmentHeader 20 2 0 1 1 ++ [7]) = none ∧
      ¬ Transparent (.new (.finished [20, 7]) 0)
        [fragmentHeader 20 2 0 0 1 ++ [20], fragmentHeader 20 2 0 1 1 ++ [7]]
        [fragmentHeader 20 2 0 0 1 ++ [20], fragmentHeader 20 2 0 1 1 ++ [7]] := by
  refine ⟨by decide, by decide, by decide, fun h => ?_⟩
  have hlast := h [fragmentHeader 20 2 0 0 1 ++ [20]] (fragmentHeader 20 2 0 1 1 ++ [7]) [] rfl
  revert hlast
  decide

end TptRfc.Dtls
