import ADEiger.CString
import ADEiger.EigerParam
import ADEiger.RestPut
import Mathlib.Data.List.TakeWhile

/-! The response to a `GET` or a `PUT`.
One `recv` fills a buffer with what has arrived; the header is then parsed in it, and the body
is taken from behind the header with the announced length. -/
namespace RestResponse

open CString
open EigerParams (isSpace)
open RestPut (EOL)

def MAX_BUF_SIZE : ℕ := 256
def MAX_MESSAGE_SIZE : ℕ := 512
def ULONG_MAX : ℕ := 2 ^ 64 - 1
def CONTENT_LENGTH : Text := "content-length".toList
def CONNECTION : Text := "connection".toList

def lower (t : Text) : Text := t.map Char.toLower

def isWord (c : Char) : Bool := !isSpace c && c ≠ NUL

section Scanning

def skipSpace (t : Text) : Option Text := (span isSpace t).map (·.2)

def scanSign : Text → Option (Bool × Text)
  | [] => none
  | c :: t =>
    if c = '-' then some (true, t)
    else if c = '+' then some (false, t)
    else some (false, c :: t)

/-- The sign and the digits of a number, if there is one. -/
def scanNumber (t : Text) : Option (Option (Bool × ℕ)) :=
  (skipSpace t).bind fun t => (scanSign t).bind fun sign => (span Char.isDigit sign.2).map
    fun digits => if digits.1 = [] then none else some (sign.1, Nat.ofDigitChars 10 digits.1 0)

/-- `%d`, for numbers that an `int` can hold. -/
def scanDecimal (t : Text) : Option (Option ℤ) :=
  (scanNumber t).map (·.map fun n => if n.1 then -(n.2 : ℤ) else n.2)

/-- `%lu` -/
def scanULong (t : Text) : Option (Option ℕ) :=
  (scanNumber t).map (·.map fun n =>
    if n.2 > ULONG_MAX then ULONG_MAX else if n.1 then (2 ^ 64 - n.2) % 2 ^ 64 else n.2)

/-- `%s` into a buffer of `MAX_BUF_SIZE` bytes: a longer word overflows it, and without a word
it keeps undefined bytes. -/
def scanWord (t : Text) : Option Text :=
  (skipSpace t).bind fun t => (span isWord t).bind fun word =>
    if word.1 ≠ [] ∧ word.1.length < MAX_BUF_SIZE then some word.1 else none

/-- `%*s %d` -/
def scanStatus (t : Text) : Option (Option ℤ) :=
  (skipSpace t).bind fun t => (span isWord t).bind fun word =>
    if word.1 = [] then some none else scanDecimal word.2

/-- `sscanf` looks for the end of its string before it scans the first byte. -/
def sscanf {α : Type} (scan : Text → Option α) (t : Text) : Option α :=
  if NUL ∈ t then scan t else none

def sscanfULong : Text → Option (Option ℕ) := sscanf scanULong

def sscanfWord : Text → Option Text := sscanf scanWord

def sscanfStatus : Text → Option (Option ℤ) := sscanf scanStatus

end Scanning

/-- What `parseHeader` finds; `content` are the bytes behind the header. -/
structure Header where
  code : ℤ
  contentLength : ℕ
  reconnect : Bool
  content : Text
  deriving DecidableEq

def readField (key rest : Text) (h : Header) : Option Header :=
  if lower key = CONTENT_LENGTH then
    (sscanfULong rest).map fun n => { h with contentLength := n.getD h.contentLength }
  else if lower key = CONNECTION then
    (sscanfWord rest).map fun value => { h with reconnect := lower value = "close".toList }
  else some h

/-- The loop over the lines of the header. Each takes at least the two bytes of its end, so
that the number of bytes is fuel enough. -/
def parseLines : ℕ → Text → Header → Option (Option Header)
  | 0, _, _ => none
  | fuel + 1, data, h =>
    match strstr EOL data with
    | none => none
    | some none => some none
    | some (some eol) =>
      if eol = 0 then some (some { h with content := data.drop EOL.length })
      else match strchr ':' data with
        | none => none
        | some none => some none
        | some (some colon) =>
          let data := data.set colon NUL
          match readField (data.take colon) (data.drop (colon + 1)) h with
          | none => none
          | some h => parseLines fuel (data.drop (eol + EOL.length)) h

/-- `none` when a byte is read behind the buffer, `some none` when the parsing fails. -/
def parseHeader (data : Text) : Option (Option Header) :=
  match sscanfStatus data with
  | none => none
  | some none => some none
  | some (some code) =>
    match strstr EOL data with
    | none => none
    | some none => some none
    | some (some eol) =>
      parseLines (data.length + 1) (data.drop (eol + EOL.length)) ⟨code, 0, false, []⟩

inductive Call where
  | get
  | put (reply : Bool)
  deriving DecidableEq

/-- A `put` reads the body when it is given a place for the reply. -/
def Call.wantsBody : Call → Bool
  | .get => true
  | .put reply => reply

inductive Received where
  | undefined
  | failure
  | success (body : Option Text)
  deriving DecidableEq

/-- `doRequest` takes what one `recv` gives, and the caller takes the body from that. The
memory that follows the received bytes is `behind`; no byte of a body is taken from there. -/
def Call.receive (call : Call) (behind received : Text) : Received :=
  match parseHeader (received ++ behind) with
  | none => .undefined
  | some none => .failure
  | some (some h) =>
    if h.code ≠ 200 then .failure
    else if call.wantsBody = false then .success none
    else if h.contentLength + behind.length ≤ h.content.length then
      .success (some (h.content.take h.contentLength))
    else .undefined

/-- The results of `recv` in their order; only the first is waited for. -/
def Call.result (call : Call) (behind : Text) (recvs : List Text) : Received :=
  match recvs with
  | [] => .failure
  | received :: _ => call.receive behind received

/-! Well-formed responses. -/

structure Field where
  name : Text
  value : Text
  deriving DecidableEq

def Field.line (f : Field) : Text := f.name ++ ':' :: (f.value ++ EOL)

def Field.named (f : Field) (name : Text) : Bool := lower f.name = name

/-- A value that announces `n`, with optional white space around the digits. -/
def Announces (n : ℕ) (value : Text) : Prop :=
  ∃ before digits after, value = before ++ digits ++ after ∧ (∀ c ∈ before, isSpace c = true) ∧
    (∀ c ∈ after, isSpace c = true) ∧ digits ≠ [] ∧ (∀ c ∈ digits, c.isDigit = true) ∧
    Nat.ofDigitChars 10 digits 0 = n

def firstWord (value : Text) : Text := (value.dropWhile isSpace).takeWhile isWord

/-- No end of a line and no NUL. -/
def OneLine (t : Text) : Prop := '\r' ∉ t ∧ '\n' ∉ t ∧ NUL ∉ t

instance (t : Text) : Decidable (OneLine t) := inferInstanceAs (Decidable (_ ∧ _ ∧ _))

/-- A field of a response with a body of `n` bytes. -/
structure Field.WellFormed (f : Field) (n : ℕ) : Prop where
  name_line : OneLine f.name
  name_token : ':' ∉ f.name
  value_line : OneLine f.value
  announces : f.named CONTENT_LENGTH = true → Announces n f.value
  option : f.named CONNECTION = true → firstWord f.value ≠ []

/-- A field written on a line of its own. -/
structure Field.Rendered (f : Field) : Prop where
  name_line : OneLine f.name
  name_token : ':' ∉ f.name
  value_line : OneLine f.value

theorem Field.WellFormed.rendered {f : Field} {n : ℕ} (h : f.WellFormed n) : f.Rendered :=
  ⟨h.name_line, h.name_token, h.value_line⟩

structure Response where
  version : Text
  code : ℕ
  reason : Text
  fields : List Field
  body : Text

def Response.statusLine (r : Response) : Text :=
  r.version ++ ' ' :: (Nat.toDigits 10 r.code ++ ' ' :: (r.reason ++ EOL))

def Response.header (r : Response) : Text :=
  r.statusLine ++ (r.fields.flatMap Field.line ++ EOL)

def Response.bytes (r : Response) : Text := r.header ++ r.body

structure Response.WellFormed (r : Response) : Prop where
  version_ne : r.version ≠ []
  version_word : ∀ c ∈ r.version, isWord c = true
  reason : OneLine r.reason
  fields : ∀ f ∈ r.fields, f.WellFormed r.body.length
  announced : ∃ f ∈ r.fields, f.named CONTENT_LENGTH = true

structure Response.StatusRendered (r : Response) : Prop where
  version_ne : r.version ≠ []
  version_word : ∀ c ∈ r.version, isWord c = true
  reason : OneLine r.reason

theorem Response.WellFormed.statusRendered {r : Response} (h : r.WellFormed) : r.StatusRendered :=
  ⟨h.version_ne, h.version_word, h.reason⟩

/-- The body is returned or nothing is, all of it had arrived, and no other byte is read. -/
structure ReturnsBody (r : Response) (received : Text) (result : Received) : Prop where
  defined : result ≠ .undefined
  body : ∀ v, result = .success (some v) → v = r.body ∧ r.bytes.length ≤ received.length

/-- What has to have arrived: the header, and the body when it is read. A word of the
connection field must fit in its buffer. -/
structure Arrives (call : Call) (r : Response) (received : Text) : Prop where
  header : r.header.length ≤ received.length
  body : call.wantsBody = true → r.code = 200 → r.bytes.length ≤ received.length
  connection : ∀ f ∈ r.fields, f.named CONNECTION = true → (firstWord f.value).length < MAX_BUF_SIZE

section Parsing

variable {f : Field} {n fuel : ℕ} {h : Header} {rest value : Text}

theorem strstr_eol {t : Text} (ht : OneLine t) :
    strstr EOL (t ++ (EOL ++ rest)) = some (some t.length) :=
  show strstr ['\r', '\n'] (t ++ ('\r' :: ['\n'] ++ rest)) = _ from strstr_eq ht.1 ht.2.2

theorem skipSpace_eq {before : Text} {c : Char} (hb : ∀ x ∈ before, isSpace x = true)
    (hc : isSpace c = false) : skipSpace (before ++ c :: rest) = some (c :: rest) := by
  rw [skipSpace, span_eq hb hc, Option.map_some]

theorem isSpace_of_isDigit {c : Char} (hc : c.isDigit = true) :
    isSpace c = false ∧ c ≠ '-' ∧ c ≠ '+' := by
  have h48 : 48 ≤ c.toNat := by
    simp only [Char.isDigit, Bool.and_eq_true, decide_eq_true_eq, ge_iff_le,
      UInt32.le_iff_toNat_le] at hc
    exact hc.1
  have hne : ∀ x : Char, x.toNat < 48 → c ≠ x := by
    intro x hx he
    rw [he] at h48
    omega
  refine ⟨?_, hne '-' (by decide), hne '+' (by decide)⟩
  have hspace : c ≠ ' ' := hne ' ' (by decide)
  simp only [isSpace, hspace, decide_false, Bool.false_or, Bool.and_eq_false_iff,
    decide_eq_false_iff_not]
  omega

theorem scanNumber_digits {before digits : Text} {c : Char}
    (hb : ∀ x ∈ before, isSpace x = true) (hd : ∀ x ∈ digits, x.isDigit = true)
    (hne : digits ≠ []) (hc : c.isDigit = false) :
    scanNumber (before ++ (digits ++ c :: rest)) =
      some (some (false, Nat.ofDigitChars 10 digits 0)) := by
  obtain ⟨x, ds, rfl⟩ := List.exists_cons_of_ne_nil hne
  obtain ⟨hspace, hminus, hplus⟩ := isSpace_of_isDigit (hd x List.mem_cons_self)
  have hsign : scanSign (x :: ds ++ c :: rest) = some (false, x :: ds ++ c :: rest) := by
    simp [scanSign, hminus, hplus]
  rw [scanNumber]
  rw [List.cons_append, skipSpace_eq hb hspace, Option.bind_some, ← List.cons_append, hsign,
    Option.bind_some, span_eq hd hc, Option.map_some, if_neg hne]

theorem sscanf_eq {α : Type} (scan : Text → Option α) {t : Text} (h0 : NUL ∈ rest) :
    sscanf scan (t ++ rest) = scan (t ++ rest) :=
  if_pos (List.mem_append_right t h0)

theorem sscanf_line {α : Type} (scan : Text → Option α) (h0 : NUL ∈ rest) :
    sscanf scan (value ++ (EOL ++ rest)) = scan (value ++ (EOL ++ rest)) :=
  sscanf_eq scan (List.mem_append_right EOL h0)

/-- The number that is kept of an announced length. -/
theorem sscanfULong_announces (ha : Announces n value) (h0 : NUL ∈ rest) :
    sscanfULong (value ++ (EOL ++ rest)) = some (some (min n ULONG_MAX)) := by
  obtain ⟨before, digits, after, rfl, hb, hafter, hne, hd, rfl⟩ := ha
  obtain ⟨c, tail, hc, htail⟩ :
      ∃ c tail, c.isDigit = false ∧ after ++ (EOL ++ rest) = c :: tail := by
    cases after with
    | nil => exact ⟨'\r', _, by decide, rfl⟩
    | cons c after =>
      refine ⟨c, _, ?_, rfl⟩
      by_contra hdigit
      have hspace := hafter c List.mem_cons_self
      rw [(isSpace_of_isDigit (eq_true_of_ne_false hdigit)).1] at hspace
      cases hspace
  rw [sscanfULong, sscanf_line _ h0, scanULong]
  rw [List.append_assoc, List.append_assoc, htail, scanNumber_digits hb hd hne hc]
  simp only [Option.map_some, Option.some.injEq, Bool.false_eq_true, if_false]
  split_ifs <;> omega

theorem sscanfWord_line (hw : firstWord value ≠ []) (h0 : NUL ∈ rest) :
    sscanfWord (value ++ (EOL ++ rest)) =
      if (firstWord value).length < MAX_BUF_SIZE then some (firstWord value) else none := by
  have hsplit : value = value.takeWhile isSpace ++ value.dropWhile isSpace :=
    List.takeWhile_append_dropWhile.symm
  obtain ⟨x, w, hx⟩ : ∃ x w, value.dropWhile isSpace = x :: w := by
    apply List.exists_cons_of_ne_nil
    intro he
    exact hw (by rw [firstWord, he, List.takeWhile_nil])
  have hspace : isSpace x = false := by
    have hhead := List.head_dropWhile_not isSpace (l := value) (by rw [hx]; exact nofun)
    simpa [hx] using hhead
  have hword : span isWord (x :: w ++ (EOL ++ rest)) =
      some (firstWord value, (x :: w).dropWhile isWord ++ (EOL ++ rest)) := by
    rw [firstWord, hx]
    exact span_append_cons (c := '\r') (by decide)
  rw [sscanfWord, sscanf_line _ h0, scanWord]
  conv_lhs => rw [hsplit, hx, List.append_assoc, List.cons_append]
  rw [skipSpace_eq (fun c hc => List.mem_takeWhile_imp hc) hspace, Option.bind_some,
    ← List.cons_append, hword, Option.bind_some]
  simp only [hw, ne_eq, not_false_eq_true, true_and]

theorem readField_length (ha : Announces n f.value) (hn : f.named CONTENT_LENGTH = true)
    (h0 : NUL ∈ rest) :
    readField f.name (f.value ++ (EOL ++ rest)) h =
      some { h with contentLength := min n ULONG_MAX } := by
  have hname : lower f.name = CONTENT_LENGTH := by simpa [Field.named] using hn
  rw [readField, if_pos hname, sscanfULong_announces ha h0, Option.map_some]
  rfl

theorem readField_connection (hw : firstWord f.value ≠ []) (hn : f.named CONNECTION = true)
    (h0 : NUL ∈ rest) :
    readField f.name (f.value ++ (EOL ++ rest)) h =
      if (firstWord f.value).length < MAX_BUF_SIZE then
        some { h with reconnect := lower (firstWord f.value) = "close".toList }
      else none := by
  have hname : lower f.name = CONNECTION := by simpa [Field.named] using hn
  have hother : lower f.name ≠ CONTENT_LENGTH := by
    rw [hname]
    decide
  rw [readField, if_neg hother, if_pos hname, sscanfWord_line hw h0]
  split_ifs <;> rfl

theorem readField_other (hl : f.named CONTENT_LENGTH = false) (hc : f.named CONNECTION = false) :
    readField f.name value h = some h := by
  simp only [Field.named, decide_eq_false_iff_not] at hl hc
  rw [readField, if_neg hl, if_neg hc]

/-- What a field leaves: the length if it announces one, unless its word overflows. -/
theorem readField_wellFormed (hf : f.WellFormed n) (h : Header) (h0 : NUL ∈ rest) :
    ((f.named CONNECTION = true → (firstWord f.value).length < MAX_BUF_SIZE) →
        ∃ h', readField f.name (f.value ++ (EOL ++ rest)) h = some h' ∧ h'.code = h.code ∧
          h'.contentLength =
            if f.named CONTENT_LENGTH then min n ULONG_MAX else h.contentLength) ∧
      (¬ (f.named CONNECTION = true → (firstWord f.value).length < MAX_BUF_SIZE) →
        readField f.name (f.value ++ (EOL ++ rest)) h = none) := by
  cases hl : f.named CONTENT_LENGTH with
  | true =>
    have hc : f.named CONNECTION = false := by
      have hname : lower f.name = CONTENT_LENGTH := by simpa [Field.named] using hl
      rw [Field.named, hname]
      decide
    exact ⟨fun _ => ⟨_, readField_length (hf.announces hl) hl h0, rfl, rfl⟩,
      fun hlong => absurd hlong (by simp [hc])⟩
  | false =>
    cases hc : f.named CONNECTION with
    | false =>
      exact ⟨fun _ => ⟨h, readField_other hl hc, rfl, rfl⟩, fun hlong => absurd nofun hlong⟩
    | true =>
      rw [readField_connection (hf.option hc) hc h0]
      constructor
      · intro hshort
        exact ⟨_, if_pos (hshort rfl), rfl, rfl⟩
      · intro hlong
        exact if_neg fun hlt => hlong fun _ => hlt

theorem oneLine_field (hf : f.Rendered) : OneLine (f.name ++ ':' :: f.value) := by
  obtain ⟨hr, hn, h0⟩ := hf.name_line
  obtain ⟨hr', hn', h0'⟩ := hf.value_line
  refine ⟨?_, ?_, ?_⟩ <;> rw [List.mem_append, List.mem_cons, not_or, not_or]
  · exact ⟨hr, by decide, hr'⟩
  · exact ⟨hn, by decide, hn'⟩
  · exact ⟨h0, by decide, h0'⟩

/-- The line of a field once its colon is overwritten. -/
def Field.cut (f : Field) : Text := f.name ++ NUL :: (f.value ++ EOL)

theorem length_cut (f : Field) :
    f.cut.length = f.name.length + f.value.length + 1 + EOL.length := by
  rw [Field.cut, List.length_append, List.length_cons, List.length_append]
  omega

theorem strstr_line (hf : f.Rendered) :
    strstr EOL (f.line ++ rest) = some (some (f.name.length + f.value.length + 1)) := by
  have hline : f.line ++ rest = (f.name ++ ':' :: f.value) ++ (EOL ++ rest) := by
    simp only [Field.line, List.append_assoc, List.cons_append]
  rw [hline, strstr_eol (oneLine_field hf), List.length_append, List.length_cons]
  rfl

theorem strchr_line (hf : f.Rendered) :
    strchr ':' (f.line ++ rest) = some (some f.name.length) := by
  rw [Field.line, List.append_assoc]
  exact strchr_eq hf.name_token hf.name_line.2.2

theorem set_line (f : Field) (rest : Text) :
    (f.line ++ rest).set f.name.length NUL = f.cut ++ rest := by
  rw [Field.line, Field.cut, List.append_assoc, List.append_assoc, List.set_append_right _ _ le_rfl,
    Nat.sub_self, List.cons_append, List.set_cons_zero, List.cons_append]

theorem take_cut (f : Field) (rest : Text) : (f.cut ++ rest).take f.name.length = f.name := by
  rw [Field.cut, List.append_assoc, List.take_left]

theorem drop_cut (f : Field) (rest : Text) :
    (f.cut ++ rest).drop (f.name.length + 1) = f.value ++ (EOL ++ rest) := by
  rw [Field.cut, List.append_assoc, ← List.drop_drop, List.drop_left, List.cons_append,
    List.drop_one, List.tail_cons, List.append_assoc]

theorem parseLines_line (hf : f.Rendered) :
    parseLines (fuel + 1) (f.line ++ rest) h =
      (readField f.name (f.value ++ (EOL ++ rest)) h).bind (parseLines fuel rest) := by
  rw [parseLines, strstr_line hf]
  dsimp only
  rw [if_neg (Nat.succ_ne_zero _), strchr_line hf]
  dsimp only
  rw [set_line, take_cut, drop_cut, ← length_cut, List.drop_left]
  cases readField f.name (f.value ++ (EOL ++ rest)) h <;> rfl

theorem parseLines_end : parseLines (fuel + 1) (EOL ++ rest) h =
    some (some { h with content := rest }) := by
  have heol : strstr EOL (EOL ++ rest) = some (some 0) := strstr_eol (t := []) (by decide)
  rw [parseLines, heol]
  rfl

/-- All words of connection fields fit in their buffer. -/
def ShortOptions (fields : List Field) : Prop :=
  ∀ f ∈ fields, f.named CONNECTION = true → (firstWord f.value).length < MAX_BUF_SIZE

/-- The loop reads all fields: it keeps the length that they announce, or a word overflows. -/
theorem parseLines_fields {fields : List Field} (hf : ∀ f ∈ fields, f.WellFormed n)
    (hfuel : fields.length < fuel) (h0 : NUL ∈ rest) :
    (ShortOptions fields → ∃ h', parseLines fuel (fields.flatMap Field.line ++ (EOL ++ rest)) h =
        some (some h') ∧ h'.code = h.code ∧ h'.content = rest ∧
        h'.contentLength = if fields.any (·.named CONTENT_LENGTH) then min n ULONG_MAX
          else h.contentLength) ∧
      (¬ ShortOptions fields →
        parseLines fuel (fields.flatMap Field.line ++ (EOL ++ rest)) h = none) := by
  induction fields generalizing fuel h with
  | nil =>
    obtain ⟨k, rfl⟩ := Nat.exists_eq_add_of_lt hfuel
    refine ⟨fun _ => ⟨_, parseLines_end, rfl, rfl, rfl⟩, fun hlong => ?_⟩
    exact absurd nofun hlong
  | cons f fields ih =>
    obtain ⟨hwf, hfields⟩ := List.forall_mem_cons.mp hf
    obtain ⟨k, rfl⟩ := Nat.exists_eq_succ_of_ne_zero (Nat.ne_zero_of_lt hfuel)
    have hk : fields.length < k := Nat.lt_of_succ_lt_succ hfuel
    have hcons : ShortOptions (f :: fields) ↔
        (f.named CONNECTION = true → (firstWord f.value).length < MAX_BUF_SIZE) ∧
          ShortOptions fields := List.forall_mem_cons
    have hlast : NUL ∈ fields.flatMap Field.line ++ (EOL ++ rest) :=
      List.mem_append_right _ (List.mem_append_right EOL h0)
    obtain ⟨hread, hfail⟩ := readField_wellFormed hwf h hlast
    rw [List.flatMap_cons, List.append_assoc, parseLines_line hwf.rendered, hcons]
    by_cases hshort : f.named CONNECTION = true → (firstWord f.value).length < MAX_BUF_SIZE
    · obtain ⟨h₁, hsome, hcode, hlength⟩ := hread hshort
      obtain ⟨hparse, hoverflow⟩ := ih (h := h₁) hfields hk
      rw [hsome, Option.bind_some]
      constructor
      · intro hall
        obtain ⟨h', hlines, hcode', hcontent, hlength'⟩ := hparse hall.2
        refine ⟨h', hlines, hcode'.trans hcode, hcontent, ?_⟩
        rw [hlength', hlength, List.any_cons]
        cases fields.any (·.named CONTENT_LENGTH) <;> cases f.named CONTENT_LENGTH <;> rfl
      · exact fun hnot => hoverflow fun hrest => hnot ⟨hshort, hrest⟩
    · rw [hfail hshort]
      exact ⟨fun hall => absurd hall.1 hshort, fun _ => rfl⟩

theorem length_fields_le (fields : List Field) :
    fields.length ≤ (fields.flatMap Field.line).length := by
  induction fields with
  | nil => exact le_rfl
  | cons f fields ih =>
    rw [List.flatMap_cons, List.length_append, List.length_cons, Field.line, List.length_append,
      List.length_cons]
    omega

variable {r : Response}

theorem header_status (r : Response) (rest : Text) :
    r.header ++ rest = r.version ++ ' ' :: (Nat.toDigits 10 r.code ++ ' ' :: (r.reason ++
      (EOL ++ (r.fields.flatMap Field.line ++ (EOL ++ rest))))) := by
  simp only [Response.header, Response.statusLine, List.append_assoc, List.cons_append]

theorem sscanfStatus_rendered (hr : r.StatusRendered) (h0 : NUL ∈ rest) :
    sscanfStatus (r.header ++ rest) = some (some (r.code : ℤ)) := by
  obtain ⟨x, v, hv⟩ := List.exists_cons_of_ne_nil hr.version_ne
  have hspace : isSpace x = false := by
    have hword := hr.version_word x (hv ▸ List.mem_cons_self)
    simp only [isWord, Bool.and_eq_true, Bool.not_eq_true'] at hword
    exact hword.1
  have hskip : ∀ t, skipSpace (r.version ++ t) = some (r.version ++ t) := by
    intro t
    rw [hv, List.cons_append]
    have hnone : ∀ c ∈ ([] : Text), isSpace c = true := nofun
    exact skipSpace_eq hnone hspace
  have hone : ∀ c ∈ [' '], isSpace c = true := by decide
  have hscan : ∀ t, scanNumber (' ' :: (Nat.toDigits 10 r.code ++ ' ' :: t)) =
      some (some (false, r.code)) := by
    intro t
    calc scanNumber (' ' :: (Nat.toDigits 10 r.code ++ ' ' :: t))
        = some (some (false, Nat.ofDigitChars 10 (Nat.toDigits 10 r.code) 0)) :=
          scanNumber_digits hone (fun c hc => isDigit_of_mem_digits hc) Nat.toDigits_ne_nil
            (by decide)
      _ = some (some (false, r.code)) := by rw [Nat.ofDigitChars_ten_toDigits]
  rw [sscanfStatus, sscanf_eq _ h0, scanStatus]
  rw [header_status, hskip, Option.bind_some, span_eq hr.version_word (by decide),
    Option.bind_some, if_neg hr.version_ne, scanDecimal, hscan]
  rfl

theorem oneLine_status (hr : r.StatusRendered) :
    OneLine (r.version ++ ' ' :: (Nat.toDigits 10 r.code ++ ' ' :: r.reason)) := by
  have hother : ∀ c, isWord c = false → c.isDigit = false → c ≠ ' ' → c ∉ r.reason →
      c ∉ r.version ++ ' ' :: (Nat.toDigits 10 r.code ++ ' ' :: r.reason) := by
    intro c hword hdigit hblank hreason hmem
    rw [List.mem_append, List.mem_cons, List.mem_append, List.mem_cons] at hmem
    rcases hmem with hmem | hmem | hmem | hmem | hmem
    · rw [hr.version_word c hmem] at hword
      cases hword
    · exact hblank hmem
    · rw [isDigit_of_mem_digits hmem] at hdigit
      cases hdigit
    · exact hblank hmem
    · exact hreason hmem
  exact ⟨hother _ (by decide) (by decide) (by decide) hr.reason.1,
    hother _ (by decide) (by decide) (by decide) hr.reason.2.1,
    hother _ (by decide) (by decide) (by decide) hr.reason.2.2⟩

/-- The header of a response is parsed as it was meant, unless a word overflows. -/
theorem parseHeader_wellFormed (hr : r.WellFormed) (h0 : NUL ∈ rest) :
    (ShortOptions r.fields → ∃ h, parseHeader (r.header ++ rest) = some (some h) ∧
        h.code = r.code ∧ h.content = rest ∧ h.contentLength = min r.body.length ULONG_MAX) ∧
      (¬ ShortOptions r.fields → parseHeader (r.header ++ rest) = none) := by
  have hfirst : r.header ++ rest = (r.version ++ ' ' :: (Nat.toDigits 10 r.code ++ ' ' ::
      r.reason)) ++ (EOL ++ (r.fields.flatMap Field.line ++ (EOL ++ rest))) := by
    rw [header_status]
    simp only [List.append_assoc, List.cons_append]
  have hfuel : r.fields.length < (r.header ++ rest).length + 1 := by
    have hle := length_fields_le r.fields
    rw [hfirst]
    simp only [List.length_append]
    omega
  have hparse : parseHeader (r.header ++ rest) = parseLines ((r.header ++ rest).length + 1)
      (r.fields.flatMap Field.line ++ (EOL ++ rest)) ⟨r.code, 0, false, []⟩ := by
    have heol : strstr EOL (r.header ++ rest) = some (some
        (r.version ++ ' ' :: (Nat.toDigits 10 r.code ++ ' ' :: r.reason)).length) := by
      rw [hfirst, strstr_eol (oneLine_status hr.statusRendered)]
    rw [parseHeader, sscanfStatus_rendered hr.statusRendered h0]
    dsimp only
    rw [heol]
    dsimp only
    rw [← List.drop_drop]
    congr 1
    rw [hfirst, List.drop_left, List.drop_left]
  obtain ⟨hshort, hlong⟩ :=
    parseLines_fields (h := ⟨r.code, 0, false, []⟩) hr.fields hfuel h0
  rw [hparse]
  refine ⟨fun hs => ?_, hlong⟩
  obtain ⟨h, hh, hcode, hcontent, hlength⟩ := hshort hs
  refine ⟨h, hh, hcode, hcontent, hlength.trans (if_pos ?_)⟩
  obtain ⟨f, hf, hnamed⟩ := hr.announced
  exact List.any_eq_true.mpr ⟨f, hf, hnamed⟩

/-- Without a NUL the first `sscanf` already reads on behind the buffer. -/
theorem parseHeader_unterminated {t : Text} (h0 : NUL ∉ t) : parseHeader t = none := by
  rw [parseHeader, sscanfStatus, sscanf, if_neg h0]

theorem nul_not_header (hr : r.StatusRendered) (hf : ∀ f ∈ r.fields, f.Rendered) :
    NUL ∉ r.header := by
  have hstatus : r.statusLine =
      (r.version ++ ' ' :: (Nat.toDigits 10 r.code ++ ' ' :: r.reason)) ++ EOL := by
    simp only [Response.statusLine, List.append_assoc, List.cons_append]
  have hline : ∀ f : Field, f.line = (f.name ++ ':' :: f.value) ++ EOL := by
    intro f
    simp only [Field.line, List.append_assoc, List.cons_append]
  have heol : NUL ∉ EOL := by decide
  rw [Response.header, List.mem_append, List.mem_append, not_or, not_or]
  refine ⟨?_, ?_, heol⟩
  · rw [hstatus, List.mem_append, not_or]
    exact ⟨(oneLine_status hr).2.2, heol⟩
  · rw [List.mem_flatMap]
    rintro ⟨f, hmem, h0⟩
    rw [hline, List.mem_append] at h0
    exact h0.elim (oneLine_field (hf f hmem)).2.2 heol

end Parsing

/-- What lies behind a buffer on the stack, where a NUL comes sooner or later. -/
structure Stack where
  bytes : Text
  terminated : NUL ∈ bytes

section Receiving

variable {r : Response} {received rest more behind : Text} {call : Call}

/-- The header has arrived and a part of the body; somewhere behind it is a NUL. -/
theorem receive_header (hr : r.WellFormed) (hreceived : received = r.header ++ rest)
    (hbody : r.body = rest ++ more) (hmax : received.length ≤ MAX_MESSAGE_SIZE)
    (h0 : NUL ∈ rest ++ behind) (hs : ShortOptions r.fields) :
    call.receive behind received =
      if r.code ≠ 200 then .failure
      else if call.wantsBody = false then .success none
      else if more = [] then .success (some r.body)
      else .undefined := by
  obtain ⟨h, hparse, hcode, hcontent, hlength⟩ := (parseHeader_wellFormed hr h0).1 hs
  have hn : r.body.length = rest.length + more.length := by rw [hbody, List.length_append]
  have hsmall : rest.length < ULONG_MAX := by
    have hlen : received.length = r.header.length + rest.length := by
      rw [hreceived, List.length_append]
    have hlimit : MAX_MESSAGE_SIZE < ULONG_MAX := by decide
    omega
  have hcode200 : h.code ≠ 200 ↔ r.code ≠ 200 := by omega
  have hall : h.contentLength + behind.length ≤ h.content.length ↔ more = [] := by
    rw [hcontent, hlength, List.length_append, ← List.length_eq_zero_iff]
    omega
  rw [Call.receive, hreceived, List.append_assoc, hparse]
  simp only [hcode200, hall]
  by_cases hmore : more = []
  · have hexact : h.contentLength = rest.length := by
      rw [hmore, List.length_nil] at hn
      omega
    rw [hexact, hcontent, List.take_left, hbody, hmore, List.append_nil]
  · rw [if_neg hmore, if_neg hmore]

/-- The memory behind the received bytes may hold anything, so none of it may be read. -/
theorem receive_unterminated (h0 : NUL ∉ received) : call.receive [] received = .undefined := by
  rw [Call.receive, List.append_nil, parseHeader_unterminated h0]

theorem returns_body_header (hr : r.WellFormed) (hreceived : received = r.header ++ rest)
    (hbody : r.body = rest ++ more) (hmax : received.length ≤ MAX_MESSAGE_SIZE) (call : Call) :
    ReturnsBody r received (call.receive [] received) ↔
      Arrives call r received ∧ NUL ∈ received := by
  have hlen : received.length = r.header.length + rest.length := by
    rw [hreceived, List.length_append]
  have hbytes : r.bytes.length = r.header.length + (rest.length + more.length) := by
    rw [Response.bytes, List.length_append, hbody, List.length_append]
  have hmore : r.bytes.length ≤ received.length ↔ more = [] := by
    rw [← List.length_eq_zero_iff]
    omega
  by_cases h0 : NUL ∈ received
  · have hrest : NUL ∈ rest ++ [] := by
      rw [List.append_nil]
      rw [hreceived, List.mem_append] at h0
      exact h0.resolve_left (nul_not_header hr.statusRendered fun f hf => (hr.fields f hf).rendered)
    by_cases hs : ShortOptions r.fields
    · rw [receive_header hr hreceived hbody hmax hrest hs]
      constructor
      · intro hreturns
        refine ⟨⟨by omega, fun hwants h200 => ?_, hs⟩, h0⟩
        rw [if_neg (not_not.mpr h200), if_neg (by rw [hwants]; decide)] at hreturns
        by_contra hnot
        rw [if_neg (mt hmore.mpr hnot)] at hreturns
        exact hreturns.defined rfl
      · rintro ⟨harrives, -⟩
        split_ifs with h200 hwants hall
        · exact ⟨nofun, nofun⟩
        · exact ⟨nofun, nofun⟩
        · refine ⟨nofun, fun v hv => ?_⟩
          obtain rfl := Option.some.inj (Received.success.inj hv)
          exact ⟨rfl, hmore.mpr hall⟩
        · exact absurd (hmore.mp (harrives.body (eq_true_of_ne_false hwants) (not_not.mp h200)))
            hall
    · have hlong := (parseHeader_wellFormed hr hrest).2 hs
      rw [Call.receive, hreceived, List.append_assoc, hlong]
      exact ⟨fun hreturns => absurd rfl hreturns.defined,
        fun harrives => absurd harrives.1.connection hs⟩
  · rw [receive_unterminated h0]
    exact ⟨fun hreturns => absurd rfl hreturns.defined, fun harrives => absurd harrives.2 h0⟩

/-- A call returns the body exactly when one `recv` gave all that it reads, and a NUL at which
`sscanf` finds the end of the buffer. -/
theorem returns_body_iff (hr : r.WellFormed) {recvs : List Text}
    (hsplit : (received :: recvs).flatten = r.bytes)
    (hmax : ∀ t ∈ received :: recvs, t ≠ [] ∧ t.length ≤ MAX_MESSAGE_SIZE) (call : Call) :
    ReturnsBody r received (call.result [] (received :: recvs)) ↔
      Arrives call r received ∧ NUL ∈ received := by
  have hfirst := (hmax received List.mem_cons_self).2
  have hbytes : r.header ++ r.body = received ++ recvs.flatten := hsplit.symm
  rcases List.append_eq_append_iff.mp hbytes with ⟨rest, hreceived, hbody⟩ | ⟨missing, hheader, -⟩
  · exact returns_body_header hr hreceived hbody hfirst call
  · have h0 : NUL ∉ received := by
      have hnone := nul_not_header hr.statusRendered fun f hf => (hr.fields f hf).rendered
      rw [hheader, List.mem_append, not_or] at hnone
      exact hnone.1
    rw [Call.result, receive_unterminated h0]
    exact ⟨fun hreturns => absurd rfl hreturns.defined, fun harrives => absurd harrives.2 h0⟩

end Receiving

def lengthFive : Field := ⟨"Content-Length".toList, " 5".toList⟩

/-- A response that gives the name of a mode. -/
def modeResponse : Response := ⟨"HTTP/1.1".toList, 200, "OK".toList, [lengthFive], "exts\n".toList⟩

theorem lengthFive_wellFormed : lengthFive.WellFormed 5 where
  name_line := by decide +kernel
  name_token := by decide +kernel
  value_line := by decide +kernel
  announces _ := ⟨[' '], ['5'], [], rfl, by decide, by decide, by decide, by decide, rfl⟩
  option h := absurd h (by decide +kernel)

theorem modeResponse_wellFormed : modeResponse.WellFormed where
  version_ne := by decide +kernel
  version_word := by decide +kernel
  reason := by decide +kernel
  fields f hf := by
    rw [List.mem_singleton.mp hf]
    exact lengthFive_wellFormed
  announced := ⟨lengthFive, List.mem_cons_self, by decide +kernel⟩

/-- The name with the end of its string. -/
def terminatedResponse : Response := { modeResponse with body := "exts".toList ++ [NUL] }

theorem terminatedResponse_wellFormed : terminatedResponse.WellFormed :=
  { modeResponse_wellFormed with fields := modeResponse_wellFormed.fields }

theorem returns_body_at_once : ReturnsBody terminatedResponse terminatedResponse.bytes
    (Call.get.result [] [terminatedResponse.bytes]) := by
  apply (returns_body_iff terminatedResponse_wellFormed (List.append_nil _) (by decide +kernel)
    .get).mpr
  exact ⟨⟨by decide +kernel, fun _ _ => le_rfl, by decide +kernel⟩, by decide +kernel⟩

/-- The body arrives after the header, and bytes are taken that had not been received. -/
theorem body_read_before_received :
    ¬ ∀ (r : Response) (received : Text) (recvs : List Text) (call : Call), r.WellFormed →
      (received :: recvs).flatten = r.bytes →
      (∀ t ∈ received :: recvs, t ≠ [] ∧ t.length ≤ MAX_MESSAGE_SIZE) →
      ReturnsBody r received (call.result [] (received :: recvs)) := by
  intro h
  have hreturns := h modeResponse modeResponse.header [modeResponse.body] .get
    modeResponse_wellFormed (by decide +kernel) (by decide +kernel)
  exact hreturns.defined (by decide +kernel)

end RestResponse
