import ADEiger.CString
import ADEiger.EigerParam
import ADEiger.Json

/-! The JSON parser of the driver.
It cuts a text into tokens, which point into the text as it stands: the token of a string is
what is between the quotes. A parse gives the tokens and the text from the cursor on. -/
namespace Frozen

open CString (Text NUL cstr cstr_of_not_mem)
open EigerParams (Token Response JsonType)

inductive TokenType where
  | eof | string | number | object | true | false | null | array
  deriving DecidableEq, Repr

/-- `struct json_token`; an array or object has `numDesc` tokens inside it. -/
structure JsonToken where
  type : TokenType
  text : Text
  numDesc : ℕ
  deriving DecidableEq

def isSpace (c : Char) : Bool := c = ' ' || c = '\t' || c = '\r' || c = '\n'

def skipWhitespaces (t : Text) : Text := t.dropWhile isSpace

def testAndSkip (expected : Char) (t : Text) : Option Text :=
  match skipWhitespaces t with
  | c :: t => if c = expected then some t else none
  | [] => none

/-- `if (cur(f) == ',') f->cur++;` -/
def skipComma (t : Text) : Text :=
  match skipWhitespaces t with
  | ',' :: t => t
  | t => t

def isAlpha (c : Char) : Bool := ('a' ≤ c && c ≤ 'z') || ('A' ≤ c && c ≤ 'Z')

def isHexDigit (c : Char) : Bool :=
  c.isDigit || ('a' ≤ c && c ≤ 'f') || ('A' ≤ c && c ≤ 'F')

/-- The length of what follows a backslash; `len` counts from the backslash on. -/
def getEscapeLen (s : Text) (len : ℕ) : Option ℕ :=
  match s with
  | 'u' :: a :: b :: c :: d :: _ =>
    if len < 6 then none
    else if isHexDigit a && isHexDigit b && isHexDigit c && isHexDigit d then some 5
    else none
  | c :: _ =>
    if c ∈ ['"', '\\', '/', 'b', 'f', 'n', 'r', 't'] then
      if len < 2 then none else some 1
    else none
  | [] => none

def getUtf8CharLen (ch : Char) : ℕ :=
  if ch.toNat &&& 0x80 = 0 then 1
  else if ch.toNat &&& 0xf0 = 0xf0 then 4
  else if ch.toNat &&& 0xf0 = 0xe0 then 3
  else 2

/-- The loop of `parse_string`: the text up to the closing quote and what follows it. -/
def parseStringBody : ℕ → Text → Option (Text × Text)
  | 0, _ => none
  | _ + 1, [] => none
  | fuel + 1, ch :: t =>
    let len := getUtf8CharLen ch
    if ch.toNat < 32 then none
    else if ¬ len < (ch :: t).length then none
    else if ch = '"' then some ([], t)
    else
      let len := if ch = '\\' then (getEscapeLen t (ch :: t).length).map (len + ·) else some len
      len.bind fun len => (parseStringBody fuel ((ch :: t).drop len)).map
        fun s => ((ch :: t).take len ++ s.1, s.2)

def parseString (t : Text) : Option (List JsonToken × Text) :=
  (testAndSkip '"' t).bind fun t => (parseStringBody (t.length + 1) t).map
    fun s => ([⟨.string, s.1, 0⟩], s.2)

def parseIdentifier (t : Text) : Option (List JsonToken × Text) :=
  match skipWhitespaces t with
  | c :: t =>
    if isAlpha c then
      let body := fun c => c = '_' || isAlpha c || c.isDigit
      some ([⟨.string, (c :: t).takeWhile body, 0⟩], (c :: t).dropWhile body)
    else none
  | [] => none

/-- One digit or more. -/
def digits (t : Text) : Option (Text × Text) :=
  if t.takeWhile Char.isDigit = [] then none
  else some (t.takeWhile Char.isDigit, t.dropWhile Char.isDigit)

def parseFraction (t : Text) : Option (Text × Text) :=
  match t with
  | '.' :: t => (digits t).map fun s => ('.' :: s.1, s.2)
  | t => some ([], t)

def parseExponent (t : Text) : Option (Text × Text) :=
  match t with
  | e :: t =>
    if e = 'e' ∨ e = 'E' then
      match t with
      | sign :: t =>
        if sign = '+' ∨ sign = '-' then (digits t).map fun s => (e :: sign :: s.1, s.2)
        else (digits (sign :: t)).map fun s => (e :: s.1, s.2)
      | [] => none
    else some ([], e :: t)
  | [] => some ([], [])

def parseNumber (t : Text) : Option (List JsonToken × Text) :=
  let t := skipWhitespaces t
  let (sign, t) := match t with
    | '-' :: t => (['-'], t)
    | t => ([], t)
  (digits t).bind fun int => (parseFraction int.2).bind fun frac => (parseExponent frac.2).map
    fun exp => ([⟨.number, sign ++ int.1 ++ frac.1 ++ exp.1, 0⟩], exp.2)

def expect (s : Text) (type : TokenType) (t : Text) : Option (List JsonToken × Text) :=
  if s.isPrefixOf t then some ([⟨type, s, 0⟩], t.drop s.length) else none

def parseKey (t : Text) : Option (List JsonToken × Text) :=
  match skipWhitespaces t with
  | c :: t =>
    if isAlpha c then parseIdentifier (c :: t)
    else if c = '"' then parseString (c :: t)
    else none
  | [] => none

/-- The token of an array or object over the tokens inside it; `t` starts at its bracket. -/
def enclose (type : TokenType) (t : Text) (s : List JsonToken × Text) : List JsonToken × Text :=
  (⟨type, t.take (t.length - s.2.length), s.1.length⟩ :: s.1, s.2)

mutual

def parseValue : ℕ → Text → Option (List JsonToken × Text)
  | 0, _ => none
  | fuel + 1, t =>
    let t := skipWhitespaces t
    match t with
    | [] => none
    | ch :: rest =>
      if ch = '"' then parseString t
      else if ch = '\x7b' then (parsePairs fuel rest).map (enclose .object t)
      else if ch = '[' then (parseElements fuel rest).map (enclose .array t)
      else if ch = 'n' then expect "null".toList .null t
      else if ch = 't' then expect "true".toList .true t
      else if ch = 'f' then expect "false".toList .false t
      else if ch = '-' ∨ ch.isDigit then parseNumber t
      else none

/-- The loop of `parse_array`, from behind its bracket. -/
def parseElements : ℕ → Text → Option (List JsonToken × Text)
  | 0, _ => none
  | fuel + 1, t =>
    let t := skipWhitespaces t
    if t.head? = some ']' then some ([], t.tail)
    else (parseValue fuel t).bind fun value =>
      (parseElements fuel (skipComma value.2)).map fun more => (value.1 ++ more.1, more.2)

/-- The loop of `parse_object`, from behind its brace. -/
def parsePairs : ℕ → Text → Option (List JsonToken × Text)
  | 0, _ => none
  | fuel + 1, t =>
    let t := skipWhitespaces t
    if t.head? = some '\x7d' then some ([], t.tail)
    else (parseKey t).bind fun key => (testAndSkip ':' key.2).bind fun t =>
      (parseValue fuel t).bind fun value =>
        (parsePairs fuel (skipComma value.2)).map fun more =>
          (key.1 ++ (value.1 ++ more.1), more.2)

end

/-- `parse_json`: what follows the document is not looked at, and without a place for tokens none
is stored. Every call takes at least one byte, so that twice the number of bytes is fuel enough. -/
def parseJson (maxTokens : ℕ) (t : Text) : Option (List JsonToken) :=
  let start := skipWhitespaces t
  if start.head? = some '\x7b' ∨ start.head? = some '[' then
    (parseValue (2 * t.length + 2) start).bind fun s =>
      if maxTokens = 0 then some []
      else if s.1.length + 1 ≤ maxTokens then some (s.1 ++ [⟨.eof, [], 0⟩]) else none
  else none

/-- `path_part_len` -/
def pathPartLen (path : Text) : ℕ := (path.takeWhile fun c => c ≠ '[' && c ≠ '.').length

/-- The index in a part of a path from behind its bracket, if an `int` can hold it, and what
follows the part. -/
def pathIndex (path : Text) : Option (ℕ × Text) :=
  (digits path).bind fun s =>
    match s.2 with
    | ']' :: path => some (Nat.ofDigitChars 10 s.1 0, path)
    | _ => none

/-- `if (path[0] == '.') path++;` -/
def skipDot : Text → Text
  | '.' :: path => path
  | path => path

/-- The loop of `find_json_token` over the members of an object, for a part of the path; the
token is given with those after it. -/
def findMember (name : Text) : ℕ → List JsonToken → Option (List JsonToken)
  | _, [] => none
  | _, [_] => none
  | desc, key :: value :: toks =>
    if desc = 0 then none
    else if key.type ≠ .string then none
    else if key.text = name then some (value :: toks)
    else
      let inside := if value.type = .array ∨ value.type = .object then value.numDesc else 0
      findMember name (desc - (2 + inside)) (toks.drop inside)
  termination_by _ toks => toks.length
  decreasing_by
    simp only [List.length_cons, List.length_drop]
    omega

/-- The same over the elements of an array. -/
def findElement : ℕ → ℕ → List JsonToken → Option (List JsonToken)
  | _, _, [] => none
  | 0, desc, value :: toks => if desc = 0 then none else some (value :: toks)
  | ind + 1, desc, value :: toks =>
    if desc = 0 then none
    else
      let inside := if value.type = .array ∨ value.type = .object then value.numDesc else 0
      findElement ind (desc - (1 + inside)) (toks.drop inside)

/-- The loop of `find_json_token` over the parts of a path, which takes at least one byte each
time. -/
def findPath : ℕ → List JsonToken → Text → Option (List JsonToken)
  | 0, _, _ | _, _, [] | _, [], _ => none
  | fuel + 1, tok :: toks, c :: path =>
    let found :=
      if c = '[' then
        if tok.type ≠ .array then none
        else (pathIndex path).bind fun s => (findElement s.1 tok.numDesc toks).map (·, s.2)
      else if tok.type ≠ .object then none
      else
        let n := pathPartLen (c :: path)
        (findMember ((c :: path).take n) tok.numDesc toks).map (·, (c :: path).drop n)
    found.bind fun found =>
      if skipDot found.2 = [] then some found.1 else findPath fuel found.1 (skipDot found.2)

def findJsonToken (toks : List JsonToken) (path : Text) : Option (List JsonToken) :=
  findPath path.length toks (cstr path)

/-- A path of one name. -/
def OneName (path : Text) : Prop := path ≠ [] ∧ '.' ∉ path ∧ '[' ∉ path ∧ NUL ∉ path

instance (path : Text) : Decidable (OneName path) := inferInstanceAs (Decidable (_ ∧ _ ∧ _ ∧ _))

theorem findJsonToken_name {name : Text} (h : OneName name) (tok : JsonToken)
    (toks : List JsonToken) : findJsonToken (tok :: toks) name =
      if tok.type ≠ .object then none else findMember name tok.numDesc toks := by
  obtain ⟨hne, hdot, hbracket, hnul⟩ := h
  obtain ⟨c, path, rfl⟩ := List.exists_cons_of_ne_nil hne
  have hpart : pathPartLen (c :: path) = (c :: path).length := by
    rw [pathPartLen, List.takeWhile_eq_self_iff.mpr]
    intro x hx
    have hx₁ : x ≠ '[' := fun he => hbracket (he ▸ hx)
    have hx₂ : x ≠ '.' := fun he => hdot (he ▸ hx)
    simp [hx₁, hx₂]
  have hc : c ≠ '[' := fun he => hbracket (he ▸ List.mem_cons_self)
  rw [findJsonToken, cstr_of_not_mem hnul, List.length_cons, findPath]
  simp only [if_neg hc, hpart, List.take_length, List.drop_length, skipDot]
  by_cases hobject : tok.type ≠ .object
  · rw [if_pos hobject, if_pos hobject, Option.bind_none]
  · rw [if_neg hobject, if_neg hobject]
    cases findMember (c :: path) tok.numDesc toks <;> rfl

/-- A token as the functions over it read it. -/
def readToken : List JsonToken → Option Token
  | [] => none
  | tok :: toks => some {
      type := if tok.type = .string then .string else if tok.type = .array then .array else .other
      text := tok.text
      items := if tok.type = .array then (toks.take tok.numDesc).map (·.text) else [] }

def MAX_JSON_TOKENS : ℕ := 100

/-- An answer as the parameters look into it. -/
def response (t : Text) : Option Response :=
  (parseJson MAX_JSON_TOKENS t).map fun toks name => (findJsonToken toks name).bind readToken

end Frozen
