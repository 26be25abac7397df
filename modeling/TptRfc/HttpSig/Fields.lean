import TptRfc.Lib.Access
import TptRfc.Lib.Text

/-!
# HTTP message signatures: structured fields

`sf.rs` and `headers.rs`: how `Signature-Input` and component identifiers are read and written.
-/

namespace TptRfc.HttpSig

open Lib Access Text

/-! ## Values -/

inductive SfParam where
  | int (n : ℤ)
  | str (s : List Char)
  | bool (v : Bool)
  deriving DecidableEq

abbrev Params := List (List Char × SfParam)

abbrev Item := List Char × Params

structure InnerList where
  items : List Item
  params : Params

/-- `HttpSigError::StructuredField`, by its message.  The position of `expected` is given by the
number of bytes that are left. -/
inductive SfError where
  | expected (c : UInt8) (left : ℕ)
  | invalidParameterName
  | unterminatedString
  | badEscape
  | unsupportedEscape
  | controlCharacter
  | invalidInteger
  | integerOutOfRange
  | invalidBoolean
  | invalidParameterValue
  | expectedCommaOrParen
  deriving DecidableEq

/-! ## Parsing -/

def isLcalpha (b : UInt8) : Bool := 0x61 ≤ b && b ≤ 0x7a

def isDigit (b : UInt8) : Bool := 0x30 ≤ b && b ≤ 0x39

def isParamNameChar (b : UInt8) : Bool := isLcalpha b || isDigit b || b = 0x5f || b = 0x2d

def skipSp (bytes : Bytes) : Bytes := bytes.dropWhile (· = 0x20)

def expect (c : UInt8) (bytes : Bytes) : Except SfError Bytes :=
  if bytes.head? = some c then .ok bytes.tail else .error (.expected c bytes.length)

def parseParamName (bytes : Bytes) : Except SfError (List Char × Bytes) :=
  if bytes.takeWhile isParamNameChar = [] then .error .invalidParameterName
  else .ok (latin1 (bytes.takeWhile isParamNameChar), bytes.dropWhile isParamNameChar)

def pushChar (b : UInt8) (r : List Char × Bytes) : List Char × Bytes :=
  (Char.ofNat b.toNat :: r.1, r.2)

def parseStringBody : Bytes → Except SfError (List Char × Bytes)
  | [] => .error .unterminatedString
  | b :: rest =>
    if b = 0x22 then .ok ([], rest)
    else if b = 0x5c then
      match rest with
      | [] => .error .badEscape
      | e :: rest =>
        if e = 0x5c ∨ e = 0x22 then (parseStringBody rest).map (pushChar e)
        else .error .unsupportedEscape
    else if b < 0x20 ∨ b = 0x7f then .error .controlCharacter
    else (parseStringBody rest).map (pushChar b)

def parseString (bytes : Bytes) : Except SfError (List Char × Bytes) := do
  let bytes ← expect 0x22 bytes
  parseStringBody bytes

def parseInteger (bytes : Bytes) : Except SfError (ℤ × Bytes) :=
  let sign : Bytes := if bytes.head? = some 0x2d then [0x2d] else []
  let bytes := bytes.drop sign.length
  if bytes.takeWhile isDigit = [] then .error .invalidInteger
  else
    match parseSigned (2 ^ 63 - 1) (sign ++ bytes.takeWhile isDigit) with
    | some n => .ok (n, bytes.dropWhile isDigit)
    | none => .error .integerOutOfRange

def parseParamValue (bytes : Bytes) : Except SfError (SfParam × Bytes) :=
  match bytes with
  | [] => .error .invalidParameterValue
  | b :: rest =>
    if b = 0x22 then (parseString bytes).map fun r => (.str r.1, r.2)
    else if b = 0x2d ∨ isDigit b then (parseInteger bytes).map fun r => (.int r.1, r.2)
    else if b = 0x3f then
      match rest with
      | [] => .error .invalidBoolean
      | v :: rest =>
        if v = 0x30 then .ok (.bool false, rest)
        else if v = 0x31 then .ok (.bool true, rest)
        else .error .invalidBoolean
    else .error .invalidParameterValue

def parseParamRest (name : List Char) (bytes : Bytes) :
    Except SfError ((List Char × SfParam) × Bytes) :=
  let bytes := skipSp bytes
  if bytes.head? = some 0x3d then
    (parseParamValue (skipSp bytes.tail)).map fun r => ((name, r.1), r.2)
  else .ok ((name, .bool true), bytes)

def parseParam (bytes : Bytes) : Except SfError ((List Char × SfParam) × Bytes) := do
  let name ← parseParamName (skipSp bytes)
  parseParamRest name.1 name.2

def parseParametersFrom : ℕ → Bytes → Except SfError (Params × Bytes)
  | 0, bytes => .ok ([], skipSp bytes)
  | fuel + 1, bytes =>
    let bytes := skipSp bytes
    if bytes.head? = some 0x3b then do
      let param ← parseParam bytes.tail
      let params ← parseParametersFrom fuel param.2
      pure (param.1 :: params.1, params.2)
    else .ok ([], bytes)

def parseParameters (bytes : Bytes) : Except SfError (Params × Bytes) :=
  parseParametersFrom bytes.length bytes

def parseItem (bytes : Bytes) : Except SfError (Item × Bytes) := do
  let name ← parseString bytes
  let params ← parseParameters (skipSp name.2)
  pure ((name.1, params.1), params.2)

def parseItems : ℕ → Bytes → Except SfError (List Item × Bytes)
  | 0, bytes => .ok ([], bytes)
  | fuel + 1, bytes =>
    if bytes = [] ∨ (skipSp bytes).head? = some 0x29 then .ok ([], skipSp bytes)
    else do
      let item ← parseItem (skipSp bytes)
      let bytes := skipSp item.2
      if bytes.head? = some 0x2c then do
        let items ← parseItems fuel bytes.tail
        pure (item.1 :: items.1, items.2)
      else if bytes.head? = some 0x29 ∨ bytes.head? = some 0x3b then pure ([item.1], bytes)
      else .error .expectedCommaOrParen

def skipParen (bytes : Bytes) : Bytes := if bytes.head? = some 0x29 then bytes.tail else bytes

def parseInnerList (bytes : Bytes) : Except SfError (InnerList × Bytes) := do
  let bytes ← expect 0x28 bytes
  let bytes := skipSp bytes
  let items ← parseItems bytes.length bytes
  let params ← parseParameters (skipSp (skipParen items.2))
  pure (⟨items.1, params.1⟩, params.2)

/-! ## Writing -/

def escapeChar (c : Char) : List Char :=
  if c = '"' then ['\\', '"'] else if c = '\\' then ['\\', '\\'] else [c]

def escapeString (s : List Char) : List Char := '"' :: s.flatMap escapeChar ++ ['"']

def intText (n : ℤ) : List Char := latin1 (decimalInt n)

def serializeParamValue : SfParam → List Char
  | .int n => intText n
  | .str s => escapeString s
  | .bool true => ['?', '1']
  | .bool false => ['?', '0']

def serializeParamRest (v : SfParam) : List Char :=
  if v = .bool true then [] else '=' :: serializeParamValue v

def serializeParams (params : Params) : List Char :=
  params.flatMap fun p => ';' :: p.1 ++ serializeParamRest p.2

def serializeItem (item : Item) : List Char := escapeString item.1 ++ serializeParams item.2

def serializeInnerList (inner : InnerList) : List Char :=
  '(' :: [',', ' '].intercalate (inner.items.map serializeItem) ++
    ')' :: serializeParams inner.params

/-! ## Components -/

structure ComponentId where
  name : List Char
  params : Params
  deriving DecidableEq

def effectiveName (name : List Char) : List Char :=
  if name.head? = some '@' then name else lower name

def ComponentId.ofItem (item : Item) : ComponentId := ⟨effectiveName item.1, item.2⟩

structure SignatureInput where
  components : List ComponentId
  params : Params
  deriving DecidableEq

def SignatureInput.ofInnerList (inner : InnerList) : SignatureInput :=
  ⟨inner.items.map .ofItem, inner.params⟩

def parseSignatureInputValue (value : List Char) : Except SfError SignatureInput := do
  let inner ← parseInnerList (encode value)
  pure (.ofInnerList inner.1)

end TptRfc.HttpSig
