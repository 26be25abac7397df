import TptRfc.Lib.Exec
import TptRfc.Lib.Text

/-!
# NETCONF: the XML parser

`Xml` and `parse_root`, a recursive-descent parser on bytes.  Its state is
the rest of the input.
-/

namespace TptRfc.Netconf

open Lib Text

inductive Xml where
  | mk (name : List Char) (attributes : List (List Char × List Char)) (children : List Xml)
      (text : List Char)

namespace Xml

def new (name : List Char) : Xml := .mk name [] [] []

def name : Xml → List Char
  | .mk name _ _ _ => name

def children : Xml → List Xml
  | .mk _ _ children _ => children

def withChildren : Xml → List Xml → Xml
  | .mk name attributes _ text, children => .mk name attributes children text

def withText : Xml → List Char → Xml
  | .mk name attributes children _, text => .mk name attributes children text

@[simp] theorem name_withChildren (x : Xml) (children : List Xml) :
    (x.withChildren children).name = x.name := by
  cases x; rfl

end Xml

def localName (name : List Char) : List Char := (name.reverse.takeWhile (· ≠ ':')).reverse

def Xml.localName (x : Xml) : List Char := Netconf.localName x.name

inductive XmlError where
  | unexpectedEof
  | malformed (message : String)

abbrev Parsed (α : Type) := Except (Fault XmlError) α

def malformed {α : Type} (message : String) : Parsed α := .error (.error (.malformed message))

def byte (c : Char) : UInt8 := UInt8.ofNat c.toNat

/-! ## Entities -/

/-- What an entity stands for. -/
def entity (ent : List Char) : List Char :=
  if ent = "amp".toList then ['&']
  else if ent = "lt".toList then ['<']
  else if ent = "gt".toList then ['>']
  else if ent = "quot".toList then ['"']
  else if ent = "apos".toList then ['\'']
  else
    match ent with
    | '#' :: digits =>
      match parseUnsigned (2 ^ 32 - 1) (encode digits) with
      | some code => if code.isValidChar then [Char.ofNat code] else []
      | none => []
    | _ => ['&']

def expand : Option (List Char) → List Char → List Char
  | none, [] => []
  | none, c :: chars => if c = '&' then expand (some []) chars else c :: expand none chars
  | some ent, [] => entity ent
  | some ent, c :: chars =>
    if c = ';' then entity ent ++ expand none chars else expand (some (ent ++ [c])) chars

def decodeEntities (input : Bytes) : List Char :=
  match decode input with
  | some chars => expand none chars
  | none => []

/-! ## Tokens -/

def skipWs (rest : Bytes) : Bytes :=
  rest.dropWhile fun b => b = byte ' ' || b = byte '\t' || b = byte '\r' || b = byte '\n'

def skipUntil (needle : Bytes) : Bytes → Bytes
  | [] => []
  | b :: rest => if needle.isPrefixOf (b :: rest) then b :: rest else skipUntil needle rest

theorem length_skipWs_le (rest : Bytes) : (skipWs rest).length ≤ rest.length :=
  List.length_dropWhile_le _ _

theorem length_skipUntil_le (needle rest : Bytes) :
    (skipUntil needle rest).length ≤ rest.length := by
  induction rest with
  | nil => exact le_rfl
  | cons b rest ih =>
    rw [skipUntil]
    split
    · exact le_rfl
    · exact ih.trans (Nat.le_succ _)

def startsPi (rest : Bytes) : Bool := rest[0]? = some (byte '<') && rest[1]? = some (byte '?')

def startsComment (rest : Bytes) : Bool :=
  rest[0]? = some (byte '<') && rest[1]? = some (byte '!') && rest[2]? = some (byte '-') &&
    rest[3]? = some (byte '-')

theorem length_drop_skipUntil_lt {needle rest : Bytes} {n : ℕ} (hn : n ≠ 0)
    (h : 0 < rest.length) : ((skipUntil needle rest).drop n).length < rest.length := by
  have := length_skipUntil_le needle rest
  rw [List.length_drop]
  omega

theorem length_pos_of_get? {rest : Bytes} {i : ℕ} {b : UInt8} (h : rest[i]? = some b) :
    0 < rest.length := by
  obtain ⟨hi, -⟩ := List.getElem?_eq_some_iff.mp h
  omega

theorem length_pos_of_startsPi {rest : Bytes} (h : startsPi rest) : 0 < rest.length := by
  simp only [startsPi, Bool.and_eq_true, decide_eq_true_eq] at h
  exact length_pos_of_get? h.1

theorem length_pos_of_startsComment {rest : Bytes} (h : startsComment rest) : 0 < rest.length := by
  simp only [startsComment, Bool.and_eq_true, decide_eq_true_eq] at h
  exact length_pos_of_get? h.1.1.1

def skipMarkupAndWs (rest : Bytes) : Bytes :=
  let rest' := skipWs rest
  if startsPi rest' then
    skipMarkupAndWs ((skipUntil [byte '?', byte '>'] rest').drop 2)
  else if startsComment rest' then
    skipMarkupAndWs ((skipUntil [byte '-', byte '-', byte '>'] rest').drop 3)
  else rest'
termination_by rest.length
decreasing_by
  · exact (length_drop_skipUntil_lt (by omega) (length_pos_of_startsPi ‹_›)).trans_le
      (length_skipWs_le rest)
  · exact (length_drop_skipUntil_lt (by omega) (length_pos_of_startsComment ‹_›)).trans_le
      (length_skipWs_le rest)

def isNameByte (b : UInt8) : Bool :=
  (byte 'a' ≤ b && b ≤ byte 'z') || (byte 'A' ≤ b && b ≤ byte 'Z') ||
    (byte '0' ≤ b && b ≤ byte '9') || b = byte '_' || b = byte '-' || b = byte ':' ||
    b = byte '.'

def readName (rest : Bytes) : Parsed (List Char × Bytes) :=
  let rest := skipWs rest
  let name := rest.takeWhile isNameByte
  if name = [] then malformed "empty element name"
  else
    match decode name with
    | none => malformed "non-utf8 name"
    | some name => .ok (name, rest.dropWhile isNameByte)

/-! ## Tags -/

def readAttribute (rest : Bytes) : Parsed ((List Char × List Char) × Bytes) := do
  let (name, rest) ← readName rest
  let rest := skipWs rest
  if rest[0]? ≠ some (byte '=') then malformed "expected `=` in attribute"
  else
    match skipWs rest.tail with
    | [] => .error (.error .unexpectedEof)
    | quote :: rest =>
      if quote ≠ byte '"' ∧ quote ≠ byte '\'' then malformed "expected quote in attribute"
      else
        match rest.dropWhile (· ≠ quote) with
        | [] => .error (.error .unexpectedEof)
        | _ :: rest' => .ok ((name, decodeEntities (rest.takeWhile (· ≠ quote))), rest')

def parseAttributes : ℕ → List (List Char × List Char) → Bytes →
    Parsed (List (List Char × List Char) × Bytes)
  | 0, _, _ => .error .panic
  | fuel + 1, attributes, rest =>
    let rest := skipWs rest
    match rest[0]? with
    | none => .error (.error .unexpectedEof)
    | some b =>
      if b = byte '>' ∨ b = byte '/' then .ok (attributes, rest)
      else do
        let (attr, rest) ← readAttribute rest
        parseAttributes fuel (attributes ++ [attr]) rest

/-- `<![` was read: the CDATA section behind it. -/
def cdata (rest : Bytes) : Parsed (Xml × Bytes) :=
  let opener := skipUntil ("CDATA[".toList.map byte) rest
  if opener.length < 7 then .error .panic
  else
    let body := opener.drop 7
    let stop := skipUntil ("]]>".toList.map byte) body
    .ok ((Xml.new "#cdata".toList).withText
      (decodeEntities (body.take (body.length - stop.length))), stop.drop 3)

def openTag (rest : Bytes) : Parsed (Xml × Bool × Bytes) :=
  if rest[0]? ≠ some (byte '<') then malformed "expected `<`"
  else if rest[1]? = some (byte '!') ∧ rest[2]? = some (byte '[') then do
    let (element, rest) ← cdata (rest.drop 3)
    pure (element, false, rest)
  else do
    let (name, rest) ← readName rest.tail
    let (attributes, rest) ← parseAttributes (rest.length + 1) [] rest
    let rest := skipWs rest
    if rest[0]? = some (byte '/') ∧ rest[1]? = some (byte '>') then
      pure (.mk name attributes [] [], false, rest.drop 2)
    else if rest[0]? ≠ some (byte '>') then malformed "expected `>` after attributes"
    else pure (.mk name attributes [] [], true, rest.tail)

def closeTag (name : List Char) (rest : Bytes) : Parsed Bytes := do
  let (closeName, rest) ← readName rest
  let rest := skipWs rest
  if rest[0]? ≠ some (byte '>') then malformed "expected `>` in closing tag"
  else if closeName ≠ name then
    malformed ("mismatched closing tag </" ++ String.ofList closeName ++ "> for <" ++
      String.ofList name ++ ">")
  else pure rest.tail

/-! ## Elements -/

def trimText (text : List Char) : List Char := trimBy isWhitespace text

def Xml.close (element : Xml) (textBuf : List Char) : Xml :=
  if trimText textBuf = [] then element else element.withText (trimText textBuf)

def textBefore (rest : Bytes) : Bytes := rest.takeWhile (· ≠ byte '<')

def tagFrom (rest : Bytes) : Bytes := rest.dropWhile (· ≠ byte '<')

mutual

def parseElement : ℕ → Bytes → Parsed (Xml × Bytes)
  | 0, _ => .error .panic
  | fuel + 1, rest => do
    let (element, content, rest) ← openTag rest
    if content then parseContent fuel element [] rest else pure (element, rest)

def parseContent : ℕ → Xml → List Char → Bytes → Parsed (Xml × Bytes)
  | 0, _, _, _ => .error .panic
  | fuel + 1, element, textBuf, rest =>
    let textBuf := textBuf ++ decodeEntities (textBefore rest)
    let rest := tagFrom rest
    if rest = [] then .error (.error .unexpectedEof)
    else if rest[1]? = some (byte '/') then do
      let rest ← closeTag element.name (rest.drop 2)
      pure (element.close textBuf, rest)
    else if rest[1]? = some (byte '!') ∨ rest[1]? = some (byte '?') then
      parseContent fuel element textBuf (skipMarkupAndWs rest)
    else do
      let (child, rest) ← parseElement fuel rest
      parseContent fuel (element.withChildren (element.children ++ [child])) textBuf rest

end

def parseRoot (fuel : ℕ) (input : List Char) : Parsed Xml := do
  let (root, _) ← parseElement fuel (skipMarkupAndWs (encode input))
  pure root

end TptRfc.Netconf
