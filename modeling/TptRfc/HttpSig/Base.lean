import TptRfc.HttpSig.Parsing
import TptRfc.HttpSig.Signer

/-!
# HTTP message signatures: what the signature base determines

The base is one line for each component and a last line with the list of the components and the
parameters.
-/

namespace TptRfc.HttpSig

open Lib Access List Text Option

theorem line_unique {head head' line line' : List Char} (hline : '\n' ∉ line)
    (hline' : '\n' ∉ line') (hhead : head = [] ∨ head.getLast? = some '\n')
    (hhead' : head' = [] ∨ head'.getLast? = some '\n') (h : head ++ line = head' ++ line') :
    head = head' ∧ line = line' := by
  have key : ∀ {head line : List Char}, '\n' ∉ line → (head = [] ∨ head.getLast? = some '\n') →
      (head ++ line).reverse.takeWhile (· ≠ '\n') = line.reverse := by
    intro head line hline hhead
    rw [reverse_append, takeWhile_append_of_pos]
    · rcases hhead with rfl | hhead
      · exact append_nil _
      · rw [getLast?_eq_head?_reverse] at hhead
        obtain ⟨tail, htail⟩ := head?_eq_some_iff.mp hhead
        rw [htail]
        exact append_nil _
    · intro c hc
      have hc := mem_reverse.mp hc
      simpa using fun heq : c = '\n' => hline (heq ▸ hc)
  have hlines : line = line' := by
    have := key hline hhead
    rw [h, key hline' hhead'] at this
    exact (reverse_inj.mp this).symm
  subst hlines
  exact ⟨append_cancel_right h, rfl⟩

theorem value_unique {value value' rest rest' : List Char} (h : '\n' ∉ value)
    (h' : '\n' ∉ value') (heq : value ++ '\n' :: rest = value' ++ '\n' :: rest') :
    value = value' ∧ rest = rest' := by
  induction value generalizing value' with
  | nil =>
    cases value' with
    | nil => exact ⟨rfl, (List.cons.inj heq).2⟩
    | cons c value' => exact absurd ((List.cons.inj heq).1 ▸ mem_cons_self) h'
  | cons c value ih =>
    cases value' with
    | nil => exact absurd ((List.cons.inj heq).1 ▸ mem_cons_self) h
    | cons c' value' =>
      obtain ⟨rfl, htail⟩ := List.cons.inj heq
      obtain ⟨rfl, rfl⟩ := ih (fun hm => h (mem_cons_of_mem c hm))
        (fun hm => h' (mem_cons_of_mem c hm)) htail
      exact ⟨rfl, rfl⟩

/-! ## No newline in the last line -/

theorem newline_notMem_escapeString {s : List Char} (h : ∀ c ∈ s, isControl c = false) :
    '\n' ∉ escapeString s := by
  refine not_mem_append (not_mem_cons_of_ne_of_not_mem (by decide) fun hmem => ?_) (by decide)
  obtain ⟨c, hc, hmem⟩ := mem_flatMap.mp hmem
  unfold escapeChar at hmem
  split_ifs at hmem
  · exact absurd hmem (by decide)
  · exact absurd hmem (by decide)
  · have := h c hc
    rw [← mem_singleton.mp hmem] at this
    exact absurd this (by decide)

theorem newline_notMem_intText (n : ℤ) : '\n' ∉ intText n := by
  intro hmem
  obtain ⟨b, hb, heq⟩ := mem_map.mp hmem
  have hten : b.toNat = 10 := by
    rw [← toNat_latin1Char, heq]
    rfl
  have hdigit : ∀ b ∈ decimal n.natAbs, 0x30 ≤ b.toNat :=
    fun b hb => UInt8.le_iff_toNat_le.mp (digit_of_mem_decimal hb).1
  unfold decimalInt at hb
  split at hb
  · rcases mem_cons.mp hb with rfl | hb
    · exact absurd hten (by decide)
    · have := hdigit b hb
      omega
  · have := hdigit b hb
    omega

variable {params : Params} {components : List ComponentId} {v : List Char} {ctx msg : HttpMessage}
  {req : Option HttpMessage}

theorem newline_notMem_serializeParams (h : ParamsOk params) : '\n' ∉ serializeParams params := by
  intro hmem
  obtain ⟨p, hp, hmem⟩ := mem_flatMap.mp hmem
  obtain ⟨hname, hv⟩ := h p hp
  rw [cons_append, mem_cons, mem_append] at hmem
  rcases hmem with heq | hmem | hmem
  · exact absurd heq (by decide)
  · exact absurd (hname.2 '\n' hmem).2 (by decide)
  · unfold serializeParamRest at hmem
    split at hmem
    · cases hmem
    · rcases mem_cons.mp hmem with heq | hmem
      · exact absurd heq (by decide)
      · cases hvalue : p.2 with
        | int n => rw [hvalue] at hmem; exact newline_notMem_intText n hmem
        | str s =>
          rw [hvalue] at hmem hv
          exact newline_notMem_escapeString hv hmem
        | bool v =>
          rw [hvalue] at hmem
          cases v <;> exact absurd hmem (by decide)

theorem newline_notMem_serializeInnerList {inner : InnerList} (h : inner.Ok) :
    '\n' ∉ serializeInnerList inner := by
  refine not_mem_append (not_mem_cons_of_ne_of_not_mem (by decide) fun hmem => ?_)
    (not_mem_cons_of_ne_of_not_mem (by decide) (newline_notMem_serializeParams h.2))
  rcases mem_intercalate hmem with hmem | ⟨text, htext, hmem⟩
  · exact absurd hmem (by decide)
  · obtain ⟨item, hitem, rfl⟩ := mem_map.mp htext
    obtain ⟨hname, hparams⟩ := h.1 item hitem
    exact not_mem_append (newline_notMem_escapeString hname)
      (newline_notMem_serializeParams hparams) hmem

theorem newline_notMem_paramsLine (h : (innerList components params).Ok) :
    '\n' ∉ paramsLine components params :=
  not_mem_append (by decide) (newline_notMem_serializeInnerList h)

variable {components' : List ComponentId} {params' : Params} {name lines : List Char}
  {c : ComponentId} {seen : List (List Char)} {msg' : HttpMessage} {req' : Option HttpMessage}

theorem innerList_injective (h : innerList components params = innerList components' params') :
    components = components' ∧ params = params' := by
  obtain ⟨hitems, hparams⟩ := InnerList.mk.inj h
  refine ⟨map_injective_iff.mpr (fun c c' hc => ?_) hitems, hparams⟩
  obtain ⟨hname, hps⟩ := Prod.mk.inj hc
  cases c
  cases c'
  cases hname
  cases hps
  rfl

/-! ## Values -/

structure HttpMessage.NoNewline (m : HttpMessage) : Prop where
  method : ∀ v ∈ m.method, '\n' ∉ v
  authority : ∀ v ∈ m.authority, '\n' ∉ v
  scheme : ∀ v ∈ m.scheme, '\n' ∉ v
  targetUri : ∀ v ∈ m.targetUri, '\n' ∉ v
  requestTarget : ∀ v ∈ m.requestTarget, '\n' ∉ v
  path : ∀ v ∈ m.path, '\n' ∉ v
  query : ∀ v ∈ m.query, '\n' ∉ v
  header : ∀ name, ∀ v ∈ m.headerValues name, '\n' ∉ v

theorem mem_query_of_queryPairs {query : List Char} {pair : List Char × List Char} {c : Char}
    (hpair : pair ∈ queryPairs query) (h : c ∈ pair.2) : c ∈ query := by
  obtain ⟨part, hpart, rfl⟩ := mem_map.mp hpair
  have hpart := (mem_filter.mp hpart).1
  have hc : c ∈ part := (dropWhile_sublist _).mem (mem_of_mem_tail h)
  have hq := (splitOn_parts _ _ _ hpart).2 c hc
  split at hq
  · exact mem_of_mem_tail hq
  · exact hq

theorem newline_notMem_orNotFound {text : String} {value : Option (List Char)}
    (hvalue : ∀ v ∈ value, '\n' ∉ v) (h : orNotFound text value = .ok v) : '\n' ∉ v := by
  cases value with
  | none => cases h
  | some v' =>
    cases h
    exact hvalue v rfl

theorem newline_notMem_derivedValue (hctx : ctx.NoNewline)
    (h : derivedValue name ctx = .ok v) : '\n' ∉ v := by
  have hstatus : ∀ v ∈ ctx.status.map (Nat.toDigits 10), '\n' ∉ v := by
    intro v hv hmem
    obtain ⟨n, -, rfl⟩ := map_eq_some_iff.mp hv
    exact absurd (digit_of_mem_toDigits hmem).1 (by decide)
  unfold derivedValue at h
  split_ifs at h
  · exact newline_notMem_orNotFound hctx.method h
  · exact newline_notMem_orNotFound hctx.authority h
  · exact newline_notMem_orNotFound hctx.scheme h
  · exact newline_notMem_orNotFound hctx.targetUri h
  · exact newline_notMem_orNotFound hctx.requestTarget h
  · exact newline_notMem_orNotFound hctx.path h
  · exact newline_notMem_orNotFound hctx.query h
  · exact newline_notMem_orNotFound hstatus h

theorem newline_notMem_deriveField (hctx : ctx.NoNewline)
    (h : deriveField name ctx params = .ok v) :
    '\n' ∉ v := by
  unfold deriveField at h
  split at h
  · cases h
  split at h
  · cases h
  split at h
  · rename_i w hheader
    cases h
    unfold HttpMessage.header at hheader
    split at hheader
    · cases hheader
    · intro hmem
      rw [← some.inj hheader] at hmem
      rcases mem_intercalate hmem with hmem | ⟨text, htext, hmem⟩
      · exact absurd hmem (by decide)
      · exact hctx.header name text htext hmem
  · cases h

theorem newline_notMem_deriveQueryParam (hctx : ctx.NoNewline)
    {name : Option (List Char)} (h : deriveQueryParam name ctx = .ok v) : '\n' ∉ v := by
  unfold deriveQueryParam at h
  split at h
  · cases h
  split at h
  · cases h
  rename_i query hquery
  split at h
  · rename_i pair hpair
    cases h
    exact fun hmem => hctx.query query hquery
      (mem_query_of_queryPairs (mem_of_find?_eq_some hpair) hmem)
  · cases h

theorem newline_notMem_value (hmsg : msg.NoNewline) (hreq : ∀ m ∈ req, m.NoNewline)
    (h : c.value msg req = .ok v) : '\n' ∉ v := by
  unfold ComponentId.value at h
  split at h
  · cases h
  · rename_i ctx hctx
    have hctx : ctx.NoNewline := by
      unfold ComponentId.source at hctx
      split at hctx
      · exact hreq ctx hctx
      · rwa [← some.inj hctx]
    unfold ComponentId.valueIn at h
    split at h
    · split at h
      · exact newline_notMem_deriveQueryParam hctx h
      · unfold deriveDerived at h
        split at h
        · cases h
        · exact newline_notMem_derivedValue hctx h
    · exact newline_notMem_deriveField hctx h

/-! ## The base -/

theorem getLast_baseLines (h : baseLines msg req components seen = .ok lines) :
    lines = [] ∨ lines.getLast? = some '\n' := by
  induction components generalizing seen lines with
  | nil =>
    cases h
    exact .inl rfl
  | cons c components ih =>
    unfold baseLines at h
    split at h
    · cases h
    · simp only [bind_eq_ok_iff] at h
      obtain ⟨value, -, rest, hrest, heq⟩ := h
      cases heq
      refine .inr ?_
      rcases ih hrest with rfl | hlast
      · exact getLast?_concat
      · rw [getLast?_append, getLast?_cons, hlast]
        rfl

theorem values_of_baseLines (hmsg : msg.NoNewline) (hreq : ∀ m ∈ req, m.NoNewline)
    (hmsg' : msg'.NoNewline) (hreq' : ∀ m ∈ req', m.NoNewline) {seen' : List (List Char)}
    (h : baseLines msg req components seen = .ok lines)
    (h' : baseLines msg' req' components seen' = .ok lines) :
    ∀ c ∈ components, ∃ v, c.value msg req = .ok v ∧ c.value msg' req' = .ok v := by
  induction components generalizing seen seen' lines with
  | nil => exact fun c hc => absurd hc not_mem_nil
  | cons c components ih =>
    unfold baseLines at h h'
    split at h
    · cases h
    split at h'
    · cases h'
    simp only [bind_eq_ok_iff] at h h'
    obtain ⟨value, hvalue, rest, hrest, heq⟩ := h
    obtain ⟨value', hvalue', rest', hrest', heq'⟩ := h'
    have htext : c.serialize ++ ':' :: ' ' :: value ++ '\n' :: rest =
        c.serialize ++ ':' :: ' ' :: value' ++ '\n' :: rest' :=
      Except.ok.inj (heq.trans heq'.symm)
    rw [append_assoc, append_assoc] at htext
    have htext := (List.cons.inj (List.cons.inj (append_cancel_left htext)).2).2
    obtain ⟨rfl, rfl⟩ := value_unique (newline_notMem_value hmsg hreq hvalue)
      (newline_notMem_value hmsg' hreq' hvalue') htext
    intro d hd
    rcases mem_cons.mp hd with rfl | hd
    · exact ⟨value, hvalue, hvalue'⟩
    · exact ih hrest hrest' d hd

theorem lines_of_base
    (hok : (innerList components params).Ok) (hok' : (innerList components' params').Ok)
    {base : List Char} (h : buildSignatureBase components params msg req = .ok base)
    (h' : buildSignatureBase components' params' msg' req' = .ok base) :
    components = components' ∧ params = params' ∧ ∃ lines,
      baseLines msg req components [] = .ok lines ∧
        baseLines msg' req' components' [] = .ok lines := by
  simp only [buildSignatureBase, bind_eq_ok_iff] at h h'
  obtain ⟨lines, hlines, heq⟩ := h
  obtain ⟨lines', hlines', heq'⟩ := h'
  have htext : lines ++ paramsLine components params =
      lines' ++ paramsLine components' params' := Except.ok.inj (heq.trans heq'.symm)
  obtain ⟨rfl, hline⟩ := line_unique (newline_notMem_paramsLine hok)
    (newline_notMem_paramsLine hok') (getLast_baseLines hlines) (getLast_baseLines hlines') htext
  have hinner := serializeInnerList_injective hok hok' (append_cancel_left hline)
  obtain ⟨rfl, rfl⟩ := innerList_injective hinner
  exact ⟨rfl, rfl, lines, hlines, hlines'⟩

/-! ## What a covered component is -/

def ComponentId.queryValues (c : ComponentId) (msg : HttpMessage) (req : Option HttpMessage) :
    List (List Char) :=
  match c.source msg req, c.paramStr "name" with
  | some ctx, some pn =>
    ((queryPairs (ctx.query.getD [])).filter (·.1 = pn)).map (·.2)
  | _, _ => []

def SameContent (c : ComponentId) (msg : HttpMessage) (req : Option HttpMessage)
    (msg' : HttpMessage) (req' : Option HttpMessage) : Prop :=
  (∃ v, c.value msg req = .ok v ∧ c.value msg' req' = .ok v) ∧
    (c.name = "@query-param".toList → c.queryValues msg req = c.queryValues msg' req')

theorem head_queryValues (hname : c.name = "@query-param".toList)
    (h : c.value msg req = .ok v) : (c.queryValues msg req).head? = some v := by
  unfold ComponentId.value at h
  split at h
  · cases h
  · rename_i ctx hctx
    rw [ComponentId.valueIn, if_pos (by rw [hname]; rfl), if_pos hname] at h
    unfold deriveQueryParam at h
    split at h
    · cases h
    rename_i pn hpn
    split at h
    · cases h
    rename_i query hquery
    split at h
    · rename_i pair hpair
      cases h
      rw [ComponentId.queryValues, hctx, hpn]
      dsimp only
      rw [hquery, getD_some, head?_map, head?_filter, hpair]
      rfl
    · cases h

/-- **What the same base says.**  The components and parameters are the same, and so is the
content of the covered components exactly if every covered query parameter has the same values
behind its first one. -/
theorem base_determines_iff {components components' : List ComponentId} {params params' : Params}
    (hok : (innerList components params).Ok) (hok' : (innerList components' params').Ok)
    {msg msg' : HttpMessage} {req req' : Option HttpMessage} (hmsg : msg.NoNewline)
    (hreq : ∀ m ∈ req, m.NoNewline) (hmsg' : msg'.NoNewline) (hreq' : ∀ m ∈ req', m.NoNewline)
    {base : List Char} (h : buildSignatureBase components params msg req = .ok base)
    (h' : buildSignatureBase components' params' msg' req' = .ok base) :
    (components = components' ∧ params = params' ∧
        ∀ c ∈ components, SameContent c msg req msg' req') ↔
      ∀ c ∈ components, c.name = "@query-param".toList →
        (c.queryValues msg req).tail = (c.queryValues msg' req').tail := by
  obtain ⟨rfl, rfl, lines, hlines, hlines'⟩ := lines_of_base hok hok' h h'
  have hvalues := values_of_baseLines hmsg hreq hmsg' hreq' hlines hlines'
  constructor
  · rintro ⟨-, -, hsame⟩ c hc hname
    rw [(hsame c hc).2 hname]
  · intro htail
    refine ⟨rfl, rfl, fun c hc => ⟨hvalues c hc, fun hname => ?_⟩⟩
    obtain ⟨v, hv, hv'⟩ := hvalues c hc
    obtain ⟨tail, heq⟩ := head?_eq_some_iff.mp (head_queryValues hname hv)
    obtain ⟨tail', heq'⟩ := head?_eq_some_iff.mp (head_queryValues hname hv')
    have := htail c hc hname
    rw [heq, heq'] at this ⊢
    rw [tail_cons, tail_cons] at this
    rw [this]

def coversA : ComponentId := ⟨"@query-param".toList, [("name".toList, .str ['a'])]⟩

def getRequest (target : String) : HttpMessage :=
  (Message.request "GET".toList target.toList).toHttp

theorem noNewline_getRequest {target : String} (h : '\n' ∉ target.toList) :
    (getRequest target).NoNewline := by
  refine ⟨?_, nofun, nofun, nofun, ?_, ?_, ?_, fun _ v hv => absurd hv not_mem_nil⟩
  · intro v hv
    cases hv
    decide
  · intro v hv
    cases hv
    exact h
  · intro v hv
    cases hv
    exact fun hmem => h ((takeWhile_sublist _).mem hmem)
  · intro v hv
    have hv : (if '?' ∈ target.toList then some (target.toList.dropWhile (· ≠ '?')) else none) =
      some v := hv
    split at hv
    · cases hv
      exact fun hmem => h ((dropWhile_sublist _).mem hmem)
    · cases hv

def baseA : List Char :=
  "\"@query-param\";name=\"a\": 1\n\"@signature-params\": (\"@query-param\";name=\"a\")".toList

theorem base_determines_single_value :
    ([coversA] = [coversA] ∧ ([] : Params) = [] ∧ ∀ c ∈ [coversA],
        SameContent c (getRequest "/?a=1") none (getRequest "/x?a=1") none) ↔
      ∀ c ∈ [coversA], c.name = "@query-param".toList →
        (c.queryValues (getRequest "/?a=1") none).tail =
          (c.queryValues (getRequest "/x?a=1") none).tail := by
  have hok : (innerList [coversA] []).Ok := by decide +kernel
  have hbase : buildSignatureBase [coversA] [] (getRequest "/?a=1") none = .ok baseA := by
    decide +kernel
  have hbase' : buildSignatureBase [coversA] [] (getRequest "/x?a=1") none = .ok baseA := by
    decide +kernel
  exact base_determines_iff hok hok (noNewline_getRequest (by decide)) nofun
    (noNewline_getRequest (by decide)) nofun hbase hbase'

/-- Only the first value is bound: a second one can be added. -/
theorem base_misses_second_value :
    buildSignatureBase [coversA] [] (getRequest "/?a=1") none = .ok baseA ∧
      buildSignatureBase [coversA] [] (getRequest "/?a=1&a=2") none = .ok baseA ∧
      coversA.queryValues (getRequest "/?a=1") none ≠
        coversA.queryValues (getRequest "/?a=1&a=2") none := by
  refine ⟨by decide +kernel, by decide +kernel, by decide +kernel⟩

end TptRfc.HttpSig
