import TptRfc.Netconf.Frames

/-!
# NETCONF: framing round trip

What comes out of the decoder when a peer sends messages.  The cuts of the stream do not matter.
-/

namespace TptRfc.Netconf

open Lib Text List

/-! ## The chunks of a message -/

def nextBuf (buf line : List Char) : List Char :=
  if chunkSize ≤ (encode (joinLine buf line)).length then [] else joinLine buf line

def chunks : List Char → List (List Char) → List (List Char)
  | buf, [] => if buf = [] then [] else [closeChunk buf]
  | buf, line :: rest =>
    if chunkSize ≤ (encode (joinLine buf line)).length then
      closeChunk (joinLine buf line) :: chunks [] rest
    else
      chunks (joinLine buf line) rest

theorem foldl_addLine (ls : List (List Char)) (s : ChunkState) :
    (let s' := ls.foldl ChunkState.addLine s
      if s'.buf = [] then s'.out else s'.out ++ chunk (closeChunk s'.buf)) =
      s.out ++ (chunks s.buf ls).flatMap chunk := by
  induction ls generalizing s with
  | nil =>
    rw [chunks, foldl_nil]
    dsimp only
    split
    · rw [flatMap_nil, append_nil]
    · rw [flatMap_singleton]
  | cons line rest ih =>
    rw [foldl_cons, ih, chunks, ChunkState.addLine]
    split
    · rw [flatMap_cons, append_assoc]
    · rfl

theorem encodeChunked_eq (message : String) :
    encodeChunked message = chunkFrame (chunks [] (lines message)) := by
  unfold encodeChunked chunkFrame
  dsimp only
  rw [foldl_addLine]
  rfl

def carried (message : String) : String := String.ofList (chunks [] (lines message)).flatten

/-! ## Newlines that are lost -/

/-- The newline in front of a line, with a mark that it is kept.  Behind an empty line at
which the buffer is empty, it is not. -/
def separator : Option (List Char) → List Char → List (Char × Bool)
  | none, _ => []
  | some prev, buf => [('\n', !(prev.isEmpty && buf.isEmpty))]

def marks : Option (List Char) → List Char → List (List Char) → List (Char × Bool)
  | _, _, [] => []
  | prev, buf, line :: rest =>
    separator prev buf ++ line.map (·, true) ++ marks (some line) (nextBuf buf line) rest

def kept (ms : List (Char × Bool)) : List Char := (ms.filter Prod.snd).map Prod.fst

theorem kept_append (a b : List (Char × Bool)) : kept (a ++ b) = kept a ++ kept b := by
  simp only [kept, filter_append, map_append]

theorem kept_map_true (line : List Char) : kept (line.map (·, true)) = line := by
  induction line with
  | nil => rfl
  | cons c line ih => exact congrArg (c :: ·) ih

def ahead : Option (List Char) → List Char → List Char
  | some (_ :: _), [] => ['\n']
  | _, _ => []

variable {buf : List Char} {prev : Option (List Char)} {e : Char × Bool} {ls : List (List Char)}

theorem ahead_of_ne_nil (h : buf ≠ []) : ahead prev buf = [] := by
  obtain ⟨c, cs, rfl⟩ := exists_cons_of_ne_nil h
  match prev with
  | none | some [] | some (_ :: _) => rfl

theorem ahead_joinLine {prev : Option (List Char)} {buf line : List Char}
    (hbuf : prev = none → buf = []) :
    ahead prev buf ++ joinLine buf line = buf ++ kept (separator prev buf) ++ line := by
  by_cases hnil : buf = []
  · subst hnil
    match prev with
    | none | some [] | some (_ :: _) => rfl
  · obtain ⟨p, rfl⟩ := Option.ne_none_iff_exists'.mp fun h => hnil (hbuf h)
    rw [ahead_of_ne_nil hnil, joinLine, if_neg hnil]
    simp [separator, kept, hnil]

/-- A line that is not empty does not leave the buffer empty unless it closes a chunk. -/
theorem ahead_some_joinLine (buf line : List Char) :
    ahead (some line) (joinLine buf line) = [] := by
  by_cases hnil : joinLine buf line = []
  · have hline : line = [] := by
      unfold joinLine at hnil
      split at hnil
      · exact hnil
      · exact absurd hnil (by simp)
    rw [hnil, hline]
    rfl
  · exact ahead_of_ne_nil hnil

variable {line : List Char} {after before : List (List Char)} {post pre : List (Char × Bool)}

theorem closeChunk_joinLine (hline : '\n' ∉ line) (hne : joinLine buf line ≠ []) :
    closeChunk (joinLine buf line) = joinLine buf line ++ ahead (some line) [] := by
  cases line with
  | nil =>
    have hbuf : buf ≠ [] := by
      rintro rfl
      exact hne rfl
    rw [joinLine, if_neg hbuf, closeChunk, if_pos (by simp), ahead, append_nil]
    exact nofun
  | cons c cs =>
    have hlast : (joinLine buf (c :: cs)).getLast? = (c :: cs).getLast? := by
      unfold joinLine
      split
      · rfl
      · rw [getLast?_append, getLast?_cons_cons]
        rfl
    rw [closeChunk, hlast, if_neg]
    · rfl
    · exact fun h => hline (mem_of_mem_getLast? h)

theorem flatten_chunks {ls : List (List Char)} (hls : ∀ line ∈ ls, '\n' ∉ line)
    {prev : Option (List Char)} {buf : List Char} (hbuf : prev = none → buf = []) :
    ∃ tail, (∀ c ∈ tail, c = '\n') ∧
      ahead prev buf ++ (chunks buf ls).flatten = buf ++ kept (marks prev buf ls) ++ tail := by
  induction ls generalizing prev buf with
  | nil =>
    by_cases hnil : buf = []
    · refine ⟨ahead prev buf, ?_, ?_⟩
      · subst hnil
        match prev with
        | none | some [] => exact nofun
        | some (_ :: _) => exact fun c hc => mem_singleton.mp hc
      · rw [chunks, if_pos hnil, hnil, flatten_nil, append_nil]
        rfl
    · rw [chunks, if_neg hnil, ahead_of_ne_nil hnil, flatten_singleton, closeChunk]
      split
      · exact ⟨[], nofun, by simp [marks, kept]⟩
      · exact ⟨['\n'], by simp, by simp [marks, kept]⟩
  | cons line rest ih =>
    have hline := hls line mem_cons_self
    have ih := @ih (fun l hl => hls l (mem_cons_of_mem line hl)) (some line)
      (nextBuf buf line) nofun
    obtain ⟨tail, htail, hrest⟩ := ih
    have hjoin := @ahead_joinLine prev buf line hbuf
    refine ⟨tail, htail, ?_⟩
    rw [marks, kept_append, kept_append, kept_map_true, ← append_assoc, ← append_assoc,
      ← hjoin, chunks]
    unfold nextBuf at hrest ⊢
    split
    · rename_i hfull
      rw [if_pos hfull] at hrest
      have hne : joinLine buf line ≠ [] := fun h => by
        rw [h] at hfull
        exact absurd hfull (by decide)
      rw [flatten_cons, closeChunk_joinLine hline hne, append_assoc, hrest]
      simp only [nil_append, append_assoc]
    · rename_i hfree
      rw [if_neg hfree, ahead_some_joinLine, nil_append] at hrest
      rw [hrest]
      simp only [append_assoc]

/-! ## What is lost of a message -/

theorem isWhitespace_newline : isWhitespace '\n' = true := by decide

def Blank (line : List Char) : Prop := ∀ c ∈ line, isWhitespace c

theorem separator_isWhitespace (h : e ∈ separator prev buf) : isWhitespace e.1 := by
  cases prev with
  | none => cases h
  | some p =>
    rw [mem_singleton.mp h]
    exact isWhitespace_newline

theorem marks_isWhitespace : ∀ e ∈ marks prev buf ls, e.2 = false → isWhitespace e.1 := by
  induction ls generalizing prev buf with
  | nil => exact nofun
  | cons line rest ih =>
    intro e he hlost
    rw [marks, mem_append, mem_append] at he
    rcases he with (he | he) | he
    · exact separator_isWhitespace he
    · obtain ⟨c, -, rfl⟩ := mem_map.mp he
      cases hlost
    · exact ih e he hlost

theorem forall_marks_iff {ls : List (List Char)} {prev : Option (List Char)} {buf : List Char} :
    (∀ e ∈ marks prev buf ls, isWhitespace e.1) ↔ ∀ line ∈ ls, Blank line := by
  induction ls generalizing prev buf with
  | nil => exact iff_of_true nofun nofun
  | cons line rest ih =>
    rw [marks, forall_mem_append, forall_mem_append, ih, forall_mem_cons]
    refine and_congr ⟨fun h c hc => ?_, fun h => ⟨fun e he => ?_, fun e he => ?_⟩⟩ Iff.rfl
    · exact h.2 (c, true) (mem_map_of_mem hc)
    · exact separator_isWhitespace he
    · obtain ⟨c, hc, rfl⟩ := mem_map.mp he
      exact h c hc

def bufAfter (ls : List (List Char)) : List Char := ls.foldl nextBuf []

theorem marks_append : marks prev buf (before ++ after) =
      marks prev buf before ++
        marks (before.getLast?.or prev) (before.foldl nextBuf buf) after := by
  induction before generalizing prev buf with
  | nil => rfl
  | cons line rest ih =>
    have hlast : (line :: rest).getLast?.or prev = rest.getLast?.or (some line) := by
      rw [getLast?_cons]
      cases rest.getLast? <;> rfl
    rw [cons_append, marks, ih, marks, foldl_cons, hlast]
    simp only [append_assoc]

def Lost (before after : List (List Char)) : Prop :=
  after ≠ [] ∧ before.getLast? = some [] ∧ bufAfter before = []

theorem marks_of_lost (h : Lost before after) :
    ∃ ms, marks none [] (before ++ after) = marks none [] before ++ ('\n', false) :: ms ∧
      ((∀ e ∈ ms, isWhitespace e.1) ↔ ∀ line ∈ after, Blank line) := by
  obtain ⟨hafter, hlast, hbuf⟩ := h
  obtain ⟨line, rest, rfl⟩ := exists_cons_of_ne_nil hafter
  refine ⟨line.map (·, true) ++ marks (some line) (nextBuf [] line) rest, ?_, ?_⟩
  · rw [marks_append, hlast, show before.foldl nextBuf [] = [] from hbuf]
    rfl
  · rw [← @forall_marks_iff (line :: rest) none [], marks]
    rfl

theorem lost_in_first
    (h : separator prev buf ++ line.map (·, true) = pre ++ e :: post) (he : e.2 = false) :
    pre = [] ∧ prev = some [] ∧ buf = [] ∧ post = line.map (·, true) := by
  have hnot : e ∉ line.map (·, true) := fun hmem => by
    obtain ⟨c, -, rfl⟩ := mem_map.mp hmem
    cases he
  cases prev with
  | none =>
    rw [separator, nil_append] at h
    exact absurd (h ▸ mem_append_right _ mem_cons_self) hnot
  | some p =>
    rw [separator, singleton_append] at h
    cases pre with
    | nil =>
      obtain ⟨rfl, rfl⟩ := List.cons.inj h
      simp only [Bool.not_eq_false', Bool.and_eq_true, List.isEmpty_iff] at he
      exact ⟨rfl, congrArg some he.1, he.2, rfl⟩
    | cons d pre =>
      have htail := (List.cons.inj h).2
      exact absurd (htail ▸ mem_append_right _ mem_cons_self) hnot

theorem lost_of_marks (h : marks prev buf ls = pre ++ e :: post) (he : e.2 = false) :
    ∃ before after, ls = before ++ after ∧ after ≠ [] ∧ before.getLast?.or prev = some [] ∧
      before.foldl nextBuf buf = [] ∧ pre = marks prev buf before ∧
      ((∀ e ∈ post, isWhitespace e.1) ↔ ∀ line ∈ after, Blank line) := by
  induction ls generalizing prev buf pre with
  | nil => exact absurd h.symm (by simp [marks])
  | cons line rest ih =>
    -- the newline is lost behind the first line
    have hlater : ∀ pre', marks (some line) (nextBuf buf line) rest = pre' ++ e :: post →
        pre = separator prev buf ++ line.map (·, true) ++ pre' →
        ∃ before after, line :: rest = before ++ after ∧ after ≠ [] ∧
          before.getLast?.or prev = some [] ∧ before.foldl nextBuf buf = [] ∧
          pre = marks prev buf before ∧
          ((∀ e ∈ post, isWhitespace e.1) ↔ ∀ line ∈ after, Blank line) := by
      intro pre' hmarks hpre
      obtain ⟨before, after, rfl, hafter, hlast, hbuf, rfl, hpost⟩ := ih hmarks
      refine ⟨line :: before, after, rfl, hafter, ?_, hbuf, hpre, hpost⟩
      rw [getLast?_cons]
      cases hb : before.getLast? <;> rw [hb] at hlast <;> simpa using hlast
    rw [marks] at h
    obtain ⟨a, ha, hmarks⟩ | ⟨a, ha, hmarks⟩ := append_eq_append_iff.mp h
    · exact hlater a hmarks ha
    · cases a with
      | nil =>
        rw [append_nil] at ha
        exact hlater [] hmarks.symm (by rw [ha, append_nil])
      | cons d a =>
        obtain ⟨rfl, rfl⟩ := List.cons.inj hmarks
        obtain ⟨rfl, rfl, rfl, rfl⟩ := lost_in_first ha he
        refine ⟨[], line :: rest, rfl, nofun, rfl, rfl, rfl, ?_⟩
        rw [← @forall_marks_iff (line :: rest) none [], marks]
        rfl

theorem map_fst_marks_some {p : List Char} :
    (marks (some p) buf ls).map Prod.fst = ls.flatMap ('\n' :: ·) := by
  induction ls generalizing p buf with
  | nil => rfl
  | cons line rest ih =>
    rw [marks, map_append, map_append, ih, map_map, flatMap_cons]
    simp [separator, Function.comp_def]

theorem intercalate_newline (line : List Char) (rest : List (List Char)) :
    ['\n'].intercalate (line :: rest) = line ++ rest.flatMap ('\n' :: ·) := by
  induction rest generalizing line with
  | nil => simp
  | cons next rest ih =>
    rw [intercalate_cons_cons, ih, flatMap_cons]
    simp

theorem map_fst_marks (message : String) :
    (marks none [] (lines message)).map Prod.fst = message.toList := by
  obtain ⟨line, rest, hlines⟩ := exists_cons_of_ne_nil (splitOn_ne_nil '\n' message.toList)
  have htext : ['\n'].intercalate (lines message) = message.toList := intercalate_splitOn '\n'
  rw [← htext, lines, hlines, intercalate_newline, marks, map_append, map_fst_marks_some]
  simp [separator, Function.comp_def]

/-- Every newline that is lost of the message is in front of its text or behind it. -/
def KeepsLines (message : String) : Prop :=
  ∀ before after, lines message = before ++ after → Lost before after →
    (∀ line ∈ before, Blank line) ∨ ∀ line ∈ after, Blank line

theorem trim_carried_eq_iff (message : String) :
    trim (carried message) = trim message ↔ KeepsLines message := by
  obtain ⟨tail, htail, hchunks⟩ := @flatten_chunks (lines message)
    (fun line hline => (Text.splitOn_parts _ _ line hline).1) none [] (fun _ => rfl)
  have hcarried : trimBy isWhitespace (chunks [] (lines message)).flatten =
      (trimBy (isWhitespace ∘ Prod.fst) ((marks none [] (lines message)).filter Prod.snd)).map
        Prod.fst := by
    change (chunks [] (lines message)).flatten = kept (marks none [] (lines message)) ++ tail
      at hchunks
    rw [hchunks, trimBy_append_of_forall, kept, trimBy_map]
    exact fun c hc => htail c hc ▸ isWhitespace_newline
  have hmessage : trimBy isWhitespace message.toList =
      (trimBy (isWhitespace ∘ Prod.fst) (marks none [] (lines message))).map Prod.fst := by
    rw [← trimBy_map, map_fst_marks]
  rw [trim, trim, carried, String.ofList_inj, String.toList_ofList, hcarried, hmessage]
  have hws : ∀ e ∈ marks none [] (lines message), e.2 = false →
      (isWhitespace ∘ Prod.fst) e = true := marks_isWhitespace
  have hmarks : ∀ {a b : List (Char × Bool)}, a.Sublist b →
      (a.map Prod.fst = b.map Prod.fst ↔ a = b) := fun hsub =>
    ⟨fun h => hsub.eq_of_length (by simpa using congrArg List.length h), fun h => by rw [h]⟩
  rw [hmarks (trimBy_filter hws ▸ filter_sublist), trimBy_filter_eq_iff hws]
  constructor
  · intro hends before after hlines hlost
    obtain ⟨ms, hms, hafter⟩ := marks_of_lost hlost
    rw [← hlines] at hms
    exact (hends _ _ _ hms rfl).imp forall_marks_iff.mp hafter.mp
  · intro hkeeps pre e post h he
    obtain ⟨before, after, hlines, hafter, hlast, hbuf, rfl, hpost⟩ := lost_of_marks h he
    rw [Option.or_none] at hlast
    exact (hkeeps before after hlines ⟨hafter, hlast, hbuf⟩).imp forall_marks_iff.mpr hpost.mpr

/-! ## Messages -/

def StartsXml (message : String) : Prop := (message.toList.dropWhile isWhitespace).head? = some '<'

instance : DecidablePred StartsXml := fun message =>
  inferInstanceAs (Decidable ((message.toList.dropWhile isWhitespace).head? = some '<'))

theorem find?_whitespace {c : Char} (h : isWhitespace c) :
    (String.utf8EncodeChar c).find? (fun b => !isAsciiWhitespace b) = none ∨
      StartsBase (String.utf8EncodeChar c) := by
  have hall : (whitespace.all fun c =>
      (String.utf8EncodeChar c).find? (fun b => !isAsciiWhitespace b) != some 0x23) = true := by
    decide +kernel
  cases hfind : (String.utf8EncodeChar c).find? (fun b => !isAsciiWhitespace b) with
  | none => exact .inl rfl
  | some b =>
    refine .inr ⟨b, hfind, ?_⟩
    rintro rfl
    exact bne_iff_ne.mp (all_eq_true.mp hall c (of_decide_eq_true h)) hfind

theorem startsBase_of_startsXml {text : List Char}
    (h : (text.dropWhile isWhitespace).head? = some '<') : StartsBase (encode text) := by
  induction text with
  | nil => cases h
  | cons c text ih =>
    rw [encode_cons]
    by_cases hc : isWhitespace c
    · rw [dropWhile_cons_of_pos hc] at h
      rcases find?_whitespace hc with hnone | hstart
      · obtain ⟨b, hb, hne⟩ := ih h
        exact ⟨b, by rw [find?_append, hnone, hb]; rfl, hne⟩
      · exact hstart.append _
    · rw [dropWhile_cons_of_neg hc] at h
      cases h
      exact StartsBase.append ⟨0x3c, by decide, by decide⟩ _

def received (message : String) : String :=
  if isChunked message then carried message else trim message

theorem tryExtract_encodeMessage {message : String} (hxml : StartsXml message)
    (hfit : (encodeMessage message).length ≤ isizeMax) :
    FrameDecoder.tryExtract (encodeMessage message) = (.ok (some (received message)), []) := by
  unfold encodeMessage at hfit ⊢
  unfold received
  split
  · rename_i hchunked
    rw [if_pos hchunked, encodeChunked_eq] at hfit
    rw [encodeChunked_eq]
    exact tryExtract_chunks (hfit.trans (by decide))
  · rename_i hplain
    have hnone : position [0x5d, 0x5d, 0x3e] (encode message.toList) = none := by
      rwa [isChunked, findSubslice_eq_position (by decide), Bool.not_eq_true,
        Option.isSome_eq_false_iff, Option.isNone_iff_eq_none] at hplain
    have := tryExtract_text (startsBase_of_startsXml hxml) hnone
    rwa [String.ofList_toList] at this

theorem trim_received_eq_iff (message : String) :
    trim (received message) = trim message ↔ (isChunked message → KeepsLines message) := by
  unfold received
  split
  · rename_i hchunked
    rw [trim_carried_eq_iff]
    exact ⟨fun h _ => h, fun h => h hchunked⟩
  · rename_i hplain
    refine iff_of_true ?_ fun h => absurd h hplain
    rw [trim, trim, String.toList_ofList, trimBy_trimBy]

theorem pushAll_encodeMessage {messages : List String} (hxml : ∀ m ∈ messages, StartsXml m)
    (hfit : ∀ m ∈ messages, (encodeMessage m).length ≤ isizeMax) {parts : List Bytes}
    (hparts : parts.flatten = messages.flatMap encodeMessage) :
    Framing.pushAll FrameDecoder.push parts FrameDecoder.new =
      (.ok (messages.map received), []) := by
  have hframes : ∀ f ∈ messages.map (fun m => (encodeMessage m, received m)),
      FrameDecoder.tryExtract f.1 = (.ok (some f.2), []) := by
    intro f hf
    obtain ⟨m, hm, rfl⟩ := mem_map.mp hf
    exact tryExtract_encodeMessage (hxml m hm) (hfit m hm)
  have hstream : parts.flatten =
      Framing.stream (messages.map fun m => (encodeMessage m, received m)) := by
    rw [hparts, Framing.stream, flatMap_map]
  have hrun := Framing.pushAll_frames stable_tryExtract rfl hframes hstream
  rwa [map_map] at hrun

/-- The messages that come out of the decoder are those that were sent, up to white space at
their ends, exactly if no newline inside a message in chunks is lost. -/
theorem decode_encode_messages_iff (messages : List String) (hxml : ∀ m ∈ messages, StartsXml m)
    (hfit : ∀ m ∈ messages, (encodeMessage m).length ≤ isizeMax) (parts : List Bytes)
    (hparts : parts.flatten = messages.flatMap encodeMessage) :
    ∃ out, Framing.pushAll FrameDecoder.push parts FrameDecoder.new = (.ok out, []) ∧
      (out.map trim = messages.map trim ↔
        ∀ m ∈ messages, isChunked m → KeepsLines m) := by
  refine ⟨messages.map received, pushAll_encodeMessage hxml hfit hparts, ?_⟩
  rw [map_map, map_inj_left]
  exact forall₂_congr fun m _ => trim_received_eq_iff m

/-- A message in chunks, which has no empty line, in two parts. -/
theorem decode_encode_messages_iff_sample :
    isChunked "<a>]]>\n</a>" ∧ ∃ out, Framing.pushAll FrameDecoder.push
        [(encodeMessage "<a>]]>\n</a>").take 5, (encodeMessage "<a>]]>\n</a>").drop 5]
        FrameDecoder.new = (.ok out, []) ∧ out.map trim = ["<a>]]>\n</a>"].map trim := by
  obtain ⟨out, hout, hiff⟩ := decode_encode_messages_iff ["<a>]]>\n</a>"] (by decide +kernel)
    (by decide +kernel) [(encodeMessage "<a>]]>\n</a>").take 5,
      (encodeMessage "<a>]]>\n</a>").drop 5] (by decide +kernel)
  refine ⟨by decide +kernel, out, hout, hiff.mpr fun m hm _ before after hlines hlost => ?_⟩
  have hempty : [] ∈ lines m := hlines ▸ mem_append_left _ (mem_of_getLast? hlost.2.1)
  rw [mem_singleton.mp hm] at hempty
  exact absurd hempty (by decide +kernel)

def longLine : List Char := '<' :: 'a' :: '>' :: ']' :: ']' :: '>' :: List.replicate 4090 'x'

def longMessage : String := String.ofList (longLine ++ '\n' :: '\n' :: ['<', '/', 'a', '>'])

theorem toList_longMessage :
    longMessage.toList = longLine ++ '\n' :: '\n' :: ['<', '/', 'a', '>'] :=
  String.toList_ofList

theorem lines_longMessage : lines longMessage = [longLine, []] ++ [['<', '/', 'a', '>']] := by
  rw [lines, toList_longMessage, splitOn_append_cons_self_of_not_mem (by decide +kernel)]
  rfl

theorem isChunked_longMessage : isChunked longMessage = true := by
  rw [isChunked, toList_longMessage]
  decide +kernel

theorem not_keepsLines_longMessage : ¬ KeepsLines longMessage := by
  intro hkeeps
  have hlost : Lost [longLine, []] [['<', '/', 'a', '>']] := ⟨nofun, rfl, by decide +kernel⟩
  rcases hkeeps _ _ lines_longMessage hlost with h | h
  · exact absurd (h longLine mem_cons_self '<' mem_cons_self) (by decide)
  · exact absurd (h _ mem_cons_self '<' mem_cons_self) (by decide)

/-- The empty line is lost, and the two lines around it get next to each other. -/
theorem blank_line_lost : StartsXml longMessage ∧ (encodeMessage longMessage).length ≤ isizeMax ∧
      ∃ out, Framing.pushAll FrameDecoder.push [encodeMessage longMessage] FrameDecoder.new =
          (.ok [out], []) ∧ trim out ≠ trim longMessage := by
  have hxml : StartsXml longMessage := by
    rw [StartsXml, toList_longMessage]
    decide +kernel
  have hfit : (encodeMessage longMessage).length ≤ isizeMax := by
    rw [encodeMessage, if_pos isChunked_longMessage, encodeChunked_eq, lines_longMessage]
    decide +kernel
  refine ⟨hxml, hfit, received longMessage, ?_, ?_⟩
  · exact @pushAll_encodeMessage [longMessage] (by simpa using hxml) (by simpa using hfit) _
      (by simp)
  · rw [Ne, trim_received_eq_iff]
    exact fun hkeeps => not_keepsLines_longMessage (hkeeps isChunked_longMessage)

end TptRfc.Netconf
