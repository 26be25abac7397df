import TptRfc.Lib.Access
import TptRfc.Netconf.Xml

/-!
# NETCONF: where the XML parser does not return

`parse_root` returns a root or an error unless it gets to one of two places
(`parseRoot_returns_iff`).
-/

namespace TptRfc.Netconf

open Lib Access List Text

/-! ## Tags -/

/-- The parser returns, and leaves fewer than `n` bytes. -/
def Shortens {α : Type} (left : α → Bytes) (n : ℕ) (x : Parsed α) : Prop :=
  x ≠ .error .panic ∧ ∀ r, x = .ok r → (left r).length < n

theorem Shortens.bind {α β : Type} {left : α → Bytes} {left' : β → Bytes} {m n : ℕ} {x : Parsed α}
    {f : α → Parsed β} (hx : Shortens left m x)
    (hf : ∀ r, (left r).length < m → Shortens left' n (f r)) : Shortens left' n (x >>= f) := by
  refine ⟨bind_ne_error hx.1 fun a ha => (hf a (hx.2 a ha)).1, fun r h => ?_⟩
  obtain ⟨a, ha, h⟩ := bind_eq_ok_iff.mp h
  exact (hf a (hx.2 a ha)).2 r h

theorem shortens_readName (rest : Bytes) : Shortens Prod.snd rest.length (readName rest) := by
  unfold readName
  dsimp only
  split
  · exact ⟨nofun, nofun⟩
  rename_i hne
  split
  · exact ⟨nofun, nofun⟩
  refine ⟨nofun, ?_⟩
  rintro _ ⟨⟩
  have hsplit := congrArg List.length
    (takeWhile_append_dropWhile (p := isNameByte) (l := skipWs rest))
  have hpos := length_pos_of_ne_nil hne
  have := length_skipWs_le rest
  rw [length_append] at hsplit
  dsimp only
  omega

theorem shortens_readAttribute (rest : Bytes) :
    Shortens Prod.snd rest.length (readAttribute rest) := by
  refine (shortens_readName rest).bind fun ⟨name, r⟩ hlt => ?_
  dsimp only at hlt ⊢
  split
  · exact ⟨nofun, nofun⟩
  split
  · exact ⟨nofun, nofun⟩
  rename_i quote value hvalue
  split
  · exact ⟨nofun, nofun⟩
  split
  · exact ⟨nofun, nofun⟩
  rename_i b r' hr'
  refine ⟨nofun, ?_⟩
  rintro _ ⟨⟩
  have h₁ := congrArg List.length hvalue
  have h₂ := congrArg List.length hr'
  have h₃ := length_skipWs_le (skipWs r).tail
  have h₄ := length_skipWs_le r
  have h₅ := length_dropWhile_le (fun b => decide (b ≠ quote)) value
  rw [length_cons] at h₁ h₂
  rw [length_tail] at h₃
  dsimp only
  omega

theorem shortens_parseAttributes {fuel : ℕ} {attributes : List (List Char × List Char)}
    {rest : Bytes} (hfuel : rest.length < fuel) :
    Shortens Prod.snd (rest.length + 1) (parseAttributes fuel attributes rest) := by
  induction fuel generalizing attributes rest with
  | zero => omega
  | succ fuel ih =>
    rw [parseAttributes]
    have hws := length_skipWs_le rest
    split
    · exact ⟨nofun, nofun⟩
    split
    · refine ⟨nofun, ?_⟩
      rintro _ ⟨⟩
      exact Nat.lt_succ_of_le hws
    · refine (shortens_readAttribute _).bind fun r hr => ?_
      have h := @ih (attributes ++ [r.1]) r.2 (by omega)
      exact ⟨h.1, fun q hq => (h.2 q hq).trans (by omega)⟩

def BadCdata (rest : Bytes) : Prop :=
  rest[0]? = some (byte '<') ∧ rest[1]? = some (byte '!') ∧ rest[2]? = some (byte '[') ∧
    (skipUntil ("CDATA[".toList.map byte) (rest.drop 3)).length < 7

theorem openTag_eq_panic_iff {rest : Bytes} : openTag rest = .error .panic ↔ BadCdata rest := by
  constructor
  · intro h
    unfold openTag at h
    split at h
    · cases h
    rename_i h0
    split at h
    · rename_i h1
      refine ⟨not_not.mp h0, h1.1, h1.2, ?_⟩
      by_contra hlen
      rw [cdata, if_neg hlen] at h
      cases h
    · rcases bind_eq_error_iff.mp h with h | ⟨⟨name, r⟩, -, h⟩
      · exact absurd h (shortens_readName _).1
      rcases bind_eq_error_iff.mp h with h | ⟨⟨attributes, r'⟩, -, h⟩
      · exact absurd h (shortens_parseAttributes (Nat.lt_succ_self _)).1
      dsimp only at h
      split at h
      · cases h
      split at h <;> cases h
  · rintro ⟨h0, h1, h2, hlen⟩
    unfold openTag
    rw [if_neg (not_not.mpr h0), if_pos ⟨h1, h2⟩, cdata, if_pos hlen]
    rfl

theorem length_of_openTag {rest rest' : Bytes} {element : Xml} {content : Bool}
    (h : openTag rest = .ok (element, content, rest')) : rest'.length < rest.length := by
  unfold openTag at h
  split at h
  · cases h
  rename_i h0
  have hpos := length_pos_of_get? (not_not.mp h0)
  split at h
  · obtain ⟨⟨x, r⟩, hx, h⟩ := bind_eq_ok_iff.mp h
    cases h
    unfold cdata at hx
    dsimp only at hx
    split at hx
    · cases hx
    cases hx
    have h₁ := length_skipUntil_le ("]]>".toList.map byte)
      ((skipUntil ("CDATA[".toList.map byte) (rest.drop 3)).drop 7)
    have h₂ := length_skipUntil_le ("CDATA[".toList.map byte) (rest.drop 3)
    simp only [length_drop] at h₁ h₂ ⊢
    omega
  · obtain ⟨⟨name, r⟩, hname, h⟩ := bind_eq_ok_iff.mp h
    obtain ⟨⟨attributes, r'⟩, hattributes, h⟩ := bind_eq_ok_iff.mp h
    have h₁ := (shortens_readName _).2 _ hname
    have h₂ := (shortens_parseAttributes (Nat.lt_succ_self _)).2 _ hattributes
    have h₃ := length_skipWs_le r'
    rw [length_tail] at h₁
    dsimp only at h h₁ h₂
    split at h
    · cases h
      rw [length_drop]
      omega
    split at h
    · cases h
    · cases h
      rw [length_tail]
      omega

theorem shortens_closeTag (name : List Char) (rest : Bytes) :
    Shortens id rest.length (closeTag name rest) := by
  refine (shortens_readName rest).bind fun ⟨closeName, r⟩ hlt => ?_
  have hws := length_skipWs_le r
  dsimp only at hlt ⊢
  split
  · exact ⟨nofun, nofun⟩
  split
  · exact ⟨nofun, nofun⟩
  refine ⟨nofun, ?_⟩
  rintro _ ⟨⟩
  rw [id, length_tail]
  omega

/-! ## Markup -/

theorem length_skipMarkupAndWs_le (rest : Bytes) : (skipMarkupAndWs rest).length ≤ rest.length := by
  induction rest using skipMarkupAndWs.induct with
  | case1 rest rest' hpi ih =>
    rw [skipMarkupAndWs, if_pos hpi]
    exact ih.trans ((length_drop_skipUntil_lt (by omega) (length_pos_of_startsPi hpi)).le.trans
      (length_skipWs_le rest))
  | case2 rest rest' hpi hcomment ih =>
    rw [skipMarkupAndWs, if_neg hpi, if_pos hcomment]
    exact ih.trans ((length_drop_skipUntil_lt (by omega)
      (length_pos_of_startsComment hcomment)).le.trans (length_skipWs_le rest))
  | case3 rest rest' hpi hcomment =>
    rw [skipMarkupAndWs, if_neg hpi, if_neg hcomment]
    exact length_skipWs_le rest

theorem skipWs_of_tag {rest : Bytes} (h : rest[0]? = some (byte '<')) : skipWs rest = rest := by
  rw [← head?_eq_getElem?] at h
  obtain ⟨tail, rfl⟩ := head?_eq_some_iff.mp h
  rfl

theorem skipMarkupAndWs_of_tag {rest : Bytes} (h : rest[0]? = some (byte '<'))
    (hpi : ¬ startsPi rest) (hcomment : ¬ startsComment rest) : skipMarkupAndWs rest = rest := by
  rw [skipMarkupAndWs, skipWs_of_tag h, if_neg hpi, if_neg hcomment]

theorem length_skipMarkupAndWs_lt {rest : Bytes} (h : rest[0]? = some (byte '<'))
    (hskip : startsPi rest ∨ startsComment rest) : (skipMarkupAndWs rest).length < rest.length := by
  have hpos := length_pos_of_get? h
  rw [skipMarkupAndWs, skipWs_of_tag h]
  split
  · exact (length_skipMarkupAndWs_le _).trans_lt (length_drop_skipUntil_lt (by omega) hpos)
  · rename_i hpi
    rw [if_pos (hskip.resolve_left hpi)]
    exact (length_skipMarkupAndWs_le _).trans_lt (length_drop_skipUntil_lt (by omega) hpos)

theorem length_tagFrom_le (rest : Bytes) : (tagFrom rest).length ≤ rest.length :=
  length_dropWhile_le _ _

theorem get?_tagFrom {rest : Bytes} (h : tagFrom rest ≠ []) :
    (tagFrom rest)[0]? = some (byte '<') := by
  have hhead := head_dropWhile_not (fun b => decide (b ≠ byte '<')) h
  rw [← head?_eq_getElem?, head?_eq_some_head h, Option.some.injEq]
  exact not_not.mp (of_decide_eq_false hhead)

theorem tagFrom_of_tag {rest : Bytes} (h : rest[0]? = some (byte '<')) : tagFrom rest = rest := by
  rw [← head?_eq_getElem?] at h
  obtain ⟨tail, rfl⟩ := head?_eq_some_iff.mp h
  rfl

/-! ## What the parser gets to -/

inductive Place where
  | element (rest : Bytes)
  | content (name : List Char) (rest : Bytes)

def ClosesNext (rest : Bytes) : Prop := tagFrom rest ≠ [] ∧ (tagFrom rest)[1]? = some (byte '/')

def SkipsNext (rest : Bytes) : Prop :=
  tagFrom rest ≠ [] ∧ (startsPi (tagFrom rest) ∨ startsComment (tagFrom rest))

def ChildNext (rest : Bytes) : Prop :=
  tagFrom rest ≠ [] ∧ (tagFrom rest)[1]? ≠ some (byte '/') ∧
    ¬ ((tagFrom rest)[1]? = some (byte '!') ∨ (tagFrom rest)[1]? = some (byte '?'))

def StuckNext (rest : Bytes) : Prop :=
  (tagFrom rest)[1]? = some (byte '!') ∧ ¬ startsComment (tagFrom rest)

inductive Scans : Place → Bytes → Prop
  | complete {rest rest' element} (h : openTag rest = .ok (element, false, rest')) :
      Scans (.element rest) rest'
  | opened {rest r rest' element} (h : openTag rest = .ok (element, true, r))
      (hcontent : Scans (.content element.name r) rest') : Scans (.element rest) rest'
  | closed {name rest rest'} (h : ClosesNext rest)
      (hclose : closeTag name ((tagFrom rest).drop 2) = .ok rest') :
      Scans (.content name rest) rest'
  | skip {name rest rest'} (h : SkipsNext rest)
      (hrest : Scans (.content name (skipMarkupAndWs (tagFrom rest))) rest') :
      Scans (.content name rest) rest'
  | child {name rest r rest'} (h : ChildNext rest) (hchild : Scans (.element (tagFrom rest)) r)
      (hrest : Scans (.content name r) rest') : Scans (.content name rest) rest'

inductive Reaches : Place → Place → Prop
  | here {p} : Reaches p p
  | opened {rest r element q} (h : openTag rest = .ok (element, true, r))
      (hq : Reaches (.content element.name r) q) : Reaches (.element rest) q
  | skip {name rest q} (h : SkipsNext rest)
      (hq : Reaches (.content name (skipMarkupAndWs (tagFrom rest))) q) :
      Reaches (.content name rest) q
  | child {name rest q} (h : ChildNext rest) (hq : Reaches (.element (tagFrom rest)) q) :
      Reaches (.content name rest) q
  | sibling {name rest r q} (h : ChildNext rest) (hchild : Scans (.element (tagFrom rest)) r)
      (hq : Reaches (.content name r) q) : Reaches (.content name rest) q

def Place.rest : Place → Bytes
  | .element rest => rest
  | .content _ rest => rest

def Place.Bad : Place → Prop
  | .element rest => BadCdata rest
  | .content _ rest => StuckNext rest

/-! ## One round of the content -/

section Round

variable {fuel : ℕ} {element : Xml} {textBuf : List Char} {rest : Bytes}

theorem startsPi_iff (h : tagFrom rest ≠ []) :
    startsPi (tagFrom rest) ↔ (tagFrom rest)[1]? = some (byte '?') := by
  simp [startsPi, get?_tagFrom h]

theorem markup_of_skipsNext (h : SkipsNext rest) :
    (tagFrom rest)[1]? = some (byte '!') ∨ (tagFrom rest)[1]? = some (byte '?') := by
  rcases h.2 with hpi | hcomment
  · exact .inr ((startsPi_iff h.1).mp hpi)
  · simp only [startsComment, Bool.and_eq_true, decide_eq_true_eq] at hcomment
    exact .inl hcomment.1.1.2

theorem StuckNext.ne_nil (h : StuckNext rest) : tagFrom rest ≠ [] := by
  intro hnil
  have := h.1
  rw [hnil] at this
  cases this

theorem StuckNext.not_startsPi (h : StuckNext rest) : ¬ startsPi (tagFrom rest) := by
  rw [startsPi_iff h.ne_nil, h.1]
  decide

theorem StuckNext.skip (h : StuckNext rest) : skipMarkupAndWs (tagFrom rest) = tagFrom rest :=
  skipMarkupAndWs_of_tag (get?_tagFrom h.ne_nil) h.not_startsPi h.2

theorem StuckNext.again (h : StuckNext rest) : StuckNext (tagFrom rest) := by
  unfold StuckNext
  rw [tagFrom_of_tag (get?_tagFrom h.ne_nil)]
  exact h

theorem next_cases (rest : Bytes) :
    tagFrom rest = [] ∨ ClosesNext rest ∨ SkipsNext rest ∨ ChildNext rest ∨ StuckNext rest := by
  by_cases hnil : tagFrom rest = []
  · exact .inl hnil
  by_cases hclose : (tagFrom rest)[1]? = some (byte '/')
  · exact .inr (.inl ⟨hnil, hclose⟩)
  by_cases hpi : (tagFrom rest)[1]? = some (byte '?')
  · exact .inr (.inr (.inl ⟨hnil, .inl ((startsPi_iff hnil).mpr hpi)⟩))
  by_cases hbang : (tagFrom rest)[1]? = some (byte '!')
  · by_cases hcomment : startsComment (tagFrom rest)
    · exact .inr (.inr (.inl ⟨hnil, .inr hcomment⟩))
    · exact .inr (.inr (.inr (.inr ⟨hbang, hcomment⟩)))
  · exact .inr (.inr (.inr (.inl ⟨hnil, hclose, not_or.mpr ⟨hbang, hpi⟩⟩)))

theorem parseContent_eof (h : tagFrom rest = []) :
    parseContent (fuel + 1) element textBuf rest = .error (.error .unexpectedEof) := by
  rw [parseContent, if_pos h]

theorem parseContent_closes (h : ClosesNext rest) : parseContent (fuel + 1) element textBuf rest =
      (closeTag element.name ((tagFrom rest).drop 2)).map
        (element.close (textBuf ++ decodeEntities (textBefore rest)), ·) := by
  rw [parseContent, if_neg h.1, if_pos h.2]
  cases closeTag element.name ((tagFrom rest).drop 2) <;> rfl

theorem parseContent_markup (h : SkipsNext rest ∨ StuckNext rest) :
    parseContent (fuel + 1) element textBuf rest =
      parseContent fuel element (textBuf ++ decodeEntities (textBefore rest))
        (skipMarkupAndWs (tagFrom rest)) := by
  have hmarkup : (tagFrom rest)[1]? = some (byte '!') ∨ (tagFrom rest)[1]? = some (byte '?') :=
    h.elim markup_of_skipsNext fun h => .inl h.1
  have hclose : (tagFrom rest)[1]? ≠ some (byte '/') := by
    rcases hmarkup with h | h <;> rw [h] <;> decide
  rw [parseContent, if_neg (h.elim (·.1) (·.ne_nil)), if_neg hclose, if_pos hmarkup]

theorem parseContent_child (h : ChildNext rest) :
    parseContent (fuel + 1) element textBuf rest =
      (parseElement fuel (tagFrom rest) >>= fun r =>
        parseContent fuel (element.withChildren (element.children ++ [r.1]))
          (textBuf ++ decodeEntities (textBefore rest)) r.2) := by
  rw [parseContent, if_neg h.1, if_neg h.2.1, if_neg h.2.2]

theorem parseElement_succ (fuel : ℕ) (rest : Bytes) :
    parseElement (fuel + 1) rest =
      (openTag rest >>= fun r =>
        if r.2.1 then parseContent fuel r.1 [] r.2.2 else pure (r.1, r.2.2)) := by
  rw [parseElement]

end Round

/-! ## Runs of the parser -/

theorem parseContent_stuck {rest : Bytes} (h : StuckNext rest) (fuel : ℕ) (element : Xml)
    (textBuf : List Char) : parseContent fuel element textBuf rest = .error .panic := by
  induction fuel generalizing textBuf rest with
  | zero => rfl
  | succ fuel ih =>
    rw [parseContent_markup (.inr h), h.skip]
    exact ih h.again _

theorem scans_of_parse (fuel : ℕ) :
    (∀ rest x rest', parseElement fuel rest = .ok (x, rest') → Scans (.element rest) rest') ∧
      ∀ element textBuf rest x rest', parseContent fuel element textBuf rest = .ok (x, rest') →
        Scans (.content element.name rest) rest' := by
  induction fuel with
  | zero => exact ⟨fun _ _ _ h => (nomatch h), fun _ _ _ _ _ h => (nomatch h)⟩
  | succ fuel ih =>
    constructor
    · intro rest x rest' h
      rw [parseElement_succ] at h
      obtain ⟨⟨element, content, r⟩, hopen, h⟩ := bind_eq_ok_iff.mp h
      cases content with
      | true => exact .opened hopen (ih.2 _ _ _ _ _ h)
      | false =>
        cases h
        exact .complete hopen
    · intro element textBuf rest x rest' h
      rcases next_cases rest with hnext | hnext | hnext | hnext | hnext
      · rw [parseContent_eof hnext] at h
        cases h
      · rw [parseContent_closes hnext] at h
        cases hclose : closeTag element.name ((tagFrom rest).drop 2) <;> rw [hclose] at h <;>
          cases h
        exact .closed hnext hclose
      · rw [parseContent_markup (.inl hnext)] at h
        exact .skip hnext (ih.2 _ _ _ _ _ h)
      · rw [parseContent_child hnext] at h
        obtain ⟨⟨c, r⟩, hchild, h⟩ := bind_eq_ok_iff.mp h
        have hrest := ih.2 _ _ _ _ _ h
        rw [Xml.name_withChildren] at hrest
        exact .child hnext (ih.1 _ _ _ hchild) hrest
      · rw [parseContent_stuck hnext] at h
        cases h

def Place.Panics (fuel : ℕ) : Place → Prop
  | .element rest => parseElement fuel rest = .error .panic
  | .content name rest => ∀ element textBuf, element.name = name →
      parseContent fuel element textBuf rest = .error .panic

def Place.Stops (fuel : ℕ) (rest' : Bytes) : Place → Prop
  | .element rest => parseElement fuel rest = .error .panic ∨
      ∃ x, parseElement fuel rest = .ok (x, rest')
  | .content name rest => ∀ element textBuf, element.name = name →
      parseContent fuel element textBuf rest = .error .panic ∨
        ∃ x, parseContent fuel element textBuf rest = .ok (x, rest')

theorem stops_of_scans {p : Place} {rest' : Bytes} (h : Scans p rest') (fuel : ℕ) :
    p.Stops fuel rest' := by
  induction h generalizing fuel with
  | complete hopen =>
    cases fuel with
    | zero => exact .inl rfl
    | succ fuel =>
      rw [Place.Stops, parseElement_succ, hopen]
      exact .inr ⟨_, rfl⟩
  | opened hopen _ ih =>
    cases fuel with
    | zero => exact .inl rfl
    | succ fuel =>
      rw [Place.Stops, parseElement_succ, hopen]
      exact ih fuel _ [] rfl
  | closed hnext hclose =>
    intro element textBuf hname
    cases fuel with
    | zero => exact .inl rfl
    | succ fuel =>
      rw [parseContent_closes hnext, hname, hclose]
      exact .inr ⟨_, rfl⟩
  | skip hnext _ ih =>
    intro element textBuf hname
    cases fuel with
    | zero => exact .inl rfl
    | succ fuel =>
      rw [parseContent_markup (.inl hnext)]
      exact ih fuel element _ hname
  | child hnext _ _ ihchild ih =>
    intro element textBuf hname
    cases fuel with
    | zero => exact .inl rfl
    | succ fuel =>
      rw [parseContent_child hnext]
      rcases ihchild fuel with hchild | ⟨x, hchild⟩
      · rw [hchild]
        exact .inl rfl
      · rw [hchild]
        exact ih fuel _ _ ((Xml.name_withChildren _ _).trans hname)

theorem length_of_scans {p : Place} {rest' : Bytes} (h : Scans p rest') :
    rest'.length < p.rest.length := by
  induction h with
  | complete hopen => exact length_of_openTag hopen
  | opened hopen _ ih => exact ih.trans (length_of_openTag hopen)
  | @closed name rest rest' _ hclose =>
    have h₁ := (shortens_closeTag _ _).2 _ hclose
    have h₂ := length_tagFrom_le rest
    rw [id, length_drop] at h₁
    exact (h₁.trans_le (Nat.sub_le _ _)).trans_le h₂
  | @skip name rest rest' hnext _ ih =>
    exact ih.trans_le ((length_skipMarkupAndWs_le _).trans (length_tagFrom_le rest))
  | @child name rest r rest' _ _ _ ihchild ih =>
    exact ih.trans (ihchild.trans_le (length_tagFrom_le rest))

theorem panics_of_reaches {p q : Place} (h : Reaches p q) (hbad : q.Bad) (fuel : ℕ) :
    p.Panics fuel := by
  induction h generalizing fuel with
  | @here p =>
    cases p with
    | element rest =>
      cases fuel with
      | zero => rfl
      | succ fuel =>
        rw [Place.Panics, parseElement_succ, openTag_eq_panic_iff.mpr hbad]
        rfl
    | content name rest => exact fun element textBuf _ => parseContent_stuck hbad fuel _ _
  | opened hopen _ ih =>
    cases fuel with
    | zero => rfl
    | succ fuel =>
      rw [Place.Panics, parseElement_succ, hopen]
      exact ih hbad fuel _ [] rfl
  | skip hnext _ ih =>
    intro element textBuf hname
    cases fuel with
    | zero => rfl
    | succ fuel =>
      rw [parseContent_markup (.inl hnext)]
      exact ih hbad fuel element _ hname
  | child hnext _ ih =>
    intro element textBuf hname
    cases fuel with
    | zero => rfl
    | succ fuel =>
      rw [parseContent_child hnext, ih hbad fuel]
      rfl
  | sibling hnext hchild _ ih =>
    intro element textBuf hname
    cases fuel with
    | zero => rfl
    | succ fuel =>
      rw [parseContent_child hnext]
      rcases stops_of_scans hchild fuel with hx | ⟨x, hx⟩
      · rw [hx]
        rfl
      · rw [hx]
        exact ih hbad fuel _ _ ((Xml.name_withChildren _ _).trans hname)

/-- With two units of fuel for a byte the parser returns unless it gets to a bad place: one
for the element that starts at it and one for the round of the content in which it does. -/
theorem returns_of_not_reaches (fuel : ℕ) :
    (∀ rest, 2 * rest.length < fuel → (∀ q, Reaches (.element rest) q → ¬ q.Bad) →
        parseElement fuel rest ≠ .error .panic) ∧
      ∀ element textBuf rest, 2 * rest.length + 1 < fuel →
        (∀ q, Reaches (.content element.name rest) q → ¬ q.Bad) →
        parseContent fuel element textBuf rest ≠ .error .panic := by
  induction fuel with
  | zero => exact ⟨fun _ h => absurd h (Nat.not_lt_zero _), fun _ _ _ h => absurd h (by omega)⟩
  | succ fuel ih =>
    constructor
    · intro rest hfuel hgood h
      rw [parseElement_succ] at h
      rcases bind_eq_error_iff.mp h with h | ⟨⟨element, content, r⟩, hopen, h⟩
      · exact hgood _ .here (openTag_eq_panic_iff.mp h)
      have hlen := length_of_openTag hopen
      cases content with
      | true => exact ih.2 _ _ _ (by omega) (fun q hq => hgood q (.opened hopen hq)) h
      | false => cases h
    · intro element textBuf rest hfuel hgood h
      have hlen := length_tagFrom_le rest
      rcases next_cases rest with hnext | hnext | hnext | hnext | hnext
      · rw [parseContent_eof hnext] at h
        cases h
      · rw [parseContent_closes hnext] at h
        cases hclose : closeTag element.name ((tagFrom rest).drop 2) <;> rw [hclose] at h <;>
          cases h
        exact (shortens_closeTag _ _).1 hclose
      · rw [parseContent_markup (.inl hnext)] at h
        have hskip := length_skipMarkupAndWs_lt (get?_tagFrom hnext.1) hnext.2
        exact ih.2 _ _ _ (by omega) (fun q hq => hgood q (.skip hnext hq)) h
      · rw [parseContent_child hnext] at h
        rcases bind_eq_error_iff.mp h with h | ⟨⟨c, r⟩, hchild, h⟩
        · exact ih.1 _ (by omega) (fun q hq => hgood q (.child hnext hq)) h
        · have hscans := (scans_of_parse fuel).1 _ _ _ hchild
          have hr : r.length < (tagFrom rest).length := length_of_scans hscans
          refine ih.2 _ _ r (by omega) (fun q hq => hgood q (.sibling hnext hscans ?_)) h
          rwa [Xml.name_withChildren] at hq
      · exact hgood _ .here hnext

theorem parseRoot_eq_panic_iff {fuel : ℕ} {input : List Char} :
    parseRoot fuel input = .error .panic ↔
      parseElement fuel (skipMarkupAndWs (encode input)) = .error .panic := by
  unfold parseRoot
  cases parseElement fuel (skipMarkupAndWs (encode input)) with
  | error e => exact ⟨fun h => by cases h; rfl, fun h => by cases h; rfl⟩
  | ok r => exact iff_of_false nofun nofun

/-- `parse_root` returns, with a root or an error, exactly if it gets neither to a root that
starts with `<![` and has no CDATA section, nor to markup in a content that starts with `<!`
and is not a comment. -/
theorem parseRoot_returns_iff (input : List Char) : (∃ fuel, parseRoot fuel input ≠ .error .panic) ↔
      ∀ q, Reaches (.element (skipMarkupAndWs (encode input))) q → ¬ q.Bad := by
  constructor
  · rintro ⟨fuel, h⟩ q hq hbad
    exact h (parseRoot_eq_panic_iff.mpr (panics_of_reaches hq hbad fuel))
  · intro h
    refine ⟨2 * (skipMarkupAndWs (encode input)).length + 1, fun hpanic => ?_⟩
    exact (returns_of_not_reaches _).1 _ (Nat.lt_succ_self _) h
      (parseRoot_eq_panic_iff.mp hpanic)

/-- A CDATA section in a content, and a root that ends with `<![`. -/
theorem parseRoot_never_returns :
    (∀ fuel, parseRoot fuel "<a><![CDATA[x]]></a>".toList = .error .panic) ∧
      ∀ fuel, parseRoot fuel "<![".toList = .error .panic := by
  constructor
  · intro fuel
    have hskip := @skipMarkupAndWs_of_tag (encode "<a><![CDATA[x]]></a>".toList)
      (by decide +kernel) (by decide +kernel) (by decide +kernel)
    rw [parseRoot_eq_panic_iff, hskip]
    have hopen : openTag (encode "<a><![CDATA[x]]></a>".toList) =
        .ok (.mk ['a'] [] [] [], true, encode "<![CDATA[x]]></a>".toList) := by rfl
    have hbad : StuckNext (encode "<![CDATA[x]]></a>".toList) :=
      ⟨by decide +kernel, by decide +kernel⟩
    exact panics_of_reaches (.opened hopen .here) hbad fuel
  · intro fuel
    have hskip := @skipMarkupAndWs_of_tag (encode "<![".toList)
      (by decide +kernel) (by decide +kernel) (by decide +kernel)
    rw [parseRoot_eq_panic_iff, hskip]
    have hbad : BadCdata (encode "<![".toList) :=
      ⟨by decide +kernel, by decide +kernel, by decide +kernel, by decide +kernel⟩
    exact panics_of_reaches (.here (p := .element _)) hbad fuel

end TptRfc.Netconf
