import ADEiger.RestResponse

/-! The header is parsed in place.
`data` moves over the buffer of the response, and the colon of each field is overwritten. -/
namespace RestResponse

open CString
open EigerParams (isSpace)
open RestPut (EOL)

/-- The buffer after the parsing, and the length of the header in it. -/
structure Parsed where
  data : Text
  header : Header
  headerLen : ℕ
  deriving DecidableEq

/-- The loop of `parseHeader`; `pos` is where `data` points in the buffer. -/
def parseLinesAt : ℕ → ℕ → Text → Header → Option (Option Parsed)
  | 0, _, _, _ => none
  | fuel + 1, pos, data, h =>
    match strstr EOL (data.drop pos) with
    | none => none
    | some none => some none
    | some (some eol) =>
      if eol = 0 then
        let headerLen := pos + EOL.length
        some (some ⟨data, { h with content := data.drop headerLen }, headerLen⟩)
      else match strchr ':' (data.drop pos) with
        | none => none
        | some none => some none
        | some (some colon) =>
          let data := data.set (pos + colon) NUL
          match readField ((data.drop pos).take colon) (data.drop (pos + colon + 1)) h with
          | none => none
          | some h => parseLinesAt fuel (pos + eol + EOL.length) data h

def parseBuffer (data : Text) : Option (Option Parsed) :=
  match sscanfStatus data with
  | none => none
  | some none => some none
  | some (some code) =>
    match strstr EOL data with
    | none => none
    | some none => some none
    | some (some eol) =>
      parseLinesAt (data.length + 1) (eol + EOL.length) data ⟨code, 0, false, []⟩

section InPlace

variable {fuel pos : ℕ} {data : Text} {h : Header}

theorem drop_set (data : Text) (pos i : ℕ) (c : Char) :
    (data.set (pos + i) c).drop pos = (data.drop pos).set i c := by
  rw [List.drop_set, if_neg (by omega), Nat.add_sub_cancel_left]

/-- What is left of the buffer is all that the loop depends on. -/
theorem parseLinesAt_header (fuel pos : ℕ) (data : Text) (h : Header) :
    (parseLinesAt fuel pos data h).map (·.map (·.header)) =
      parseLines fuel (data.drop pos) h := by
  induction fuel generalizing pos data h with
  | zero => rfl
  | succ fuel ih =>
    rw [parseLinesAt, parseLines]
    rcases strstr EOL (data.drop pos) with _ | _ | eol
    · rfl
    · rfl
    · dsimp only
      by_cases h0 : eol = 0
      · rw [if_pos h0, if_pos h0, List.drop_drop]
        rfl
      · rw [if_neg h0, if_neg h0]
        rcases strchr ':' (data.drop pos) with _ | _ | colon
        · rfl
        · rfl
        · dsimp only
          rw [Nat.add_assoc pos colon, ← List.drop_drop, drop_set]
          cases readField (((data.drop pos).set colon NUL).take colon)
              (((data.drop pos).set colon NUL).drop (colon + 1)) h with
          | none => rfl
          | some h' =>
            rw [← drop_set, List.drop_drop, ← Nat.add_assoc]
            exact ih ..

/-- The parsing of what is left at each point is that in the buffer. -/
theorem parseBuffer_header (data : Text) :
    (parseBuffer data).map (·.map (·.header)) = parseHeader data := by
  rw [parseBuffer, parseHeader]
  rcases sscanfStatus data with _ | _ | code
  · rfl
  · rfl
  · rcases strstr EOL data with _ | _ | eol
    · rfl
    · rfl
    · exact parseLinesAt_header ..

end InPlace

/-- A value that is one token, with optional white space around it. -/
def Holds (token value : Text) : Prop :=
  ∃ before after, value = before ++ (token ++ after) ∧ (∀ c ∈ before, isSpace c = true) ∧
    (∀ c ∈ after, isSpace c = true) ∧ token ≠ [] ∧ ∀ c ∈ token, isWord c = true

/-- A field whose length or connection option, if it gives one, can be stored. -/
structure Field.Readable (f : Field) : Prop extends f.Rendered where
  length : f.named CONTENT_LENGTH = true → ∃ n, n < 2 ^ 64 ∧ Announces n f.value
  option : f.named CONNECTION = true →
    ∃ token, Holds token f.value ∧ token.length < MAX_BUF_SIZE

structure Response.Readable (r : Response) : Prop extends r.StatusRendered where
  code : r.code < 2 ^ 31
  fields : ∀ f ∈ r.fields, f.Readable

/-- A field in which a length or a connection option, if it gives one, is found. -/
structure Field.Legible (f : Field) : Prop extends f.Rendered where
  length : f.named CONTENT_LENGTH = true → ∃ n, n < 2 ^ 64 ∧ Announces n f.value
  option : f.named CONNECTION = true → firstWord f.value ≠ []

structure Response.Legible (r : Response) : Prop extends r.StatusRendered where
  code : r.code < 2 ^ 31
  fields : ∀ f ∈ r.fields, f.Legible

def lastNamed (name : Text) (fields : List Field) : Option Field :=
  (fields.filter (·.named name)).getLast?

/-- The length that the last of the fields announces, 0 without one. -/
def Response.Announced (r : Response) (n : ℕ) : Prop :=
  (∀ f ∈ lastNamed CONTENT_LENGTH r.fields, Announces n f.value) ∧
    (lastNamed CONTENT_LENGTH r.fields = none → n = 0)

/-- The last connection option is to close, in any case of the letters. -/
def Response.Closes (r : Response) : Prop :=
  ∃ f token, lastNamed CONNECTION r.fields = some f ∧ Holds token f.value ∧
    lower token = "close".toList

/-- The header once the colon of each field is overwritten. -/
def Response.cutHeader (r : Response) : Text :=
  r.statusLine ++ (r.fields.flatMap Field.cut ++ EOL)

/-- What the parsing of a response gives back. -/
structure Inverts (r : Response) (p : Parsed) : Prop where
  code : p.header.code = r.code
  contentLength : r.Announced p.header.contentLength
  reconnect : p.header.reconnect = true ↔ r.Closes
  content : p.header.content = r.body ++ [NUL]
  headerLen : p.headerLen = r.header.length
  body : p.data.drop p.headerLen = r.body ++ [NUL]
  length : p.data.length = r.bytes.length + 1

section Rendering

variable {f : Field} {fields : List Field} {r : Response} {fuel n : ℕ} {h h₁ h₂ : Header}
  {name token value rest : Text}

theorem firstWord_holds (hv : Holds token value) : firstWord value = token := by
  obtain ⟨before, after, rfl, hbefore, hafter, hne, hword⟩ := hv
  obtain ⟨c, t, rfl⟩ := List.exists_cons_of_ne_nil hne
  have hstart : isSpace c = false := by
    have hc := hword c List.mem_cons_self
    simp only [isWord, Bool.and_eq_true, Bool.not_eq_true'] at hc
    exact hc.1
  have hend : after.takeWhile isWord = [] := by
    cases after with
    | nil => rfl
    | cons x after =>
      have hx : isWord x = false := by simp [isWord, hafter x List.mem_cons_self]
      exact List.takeWhile_cons_of_neg (by simp [hx])
  rw [firstWord, List.dropWhile_append_of_pos hbefore, List.cons_append,
    List.dropWhile_cons_of_neg (by simp [hstart]), ← List.cons_append,
    List.takeWhile_append_of_pos hword, hend, List.append_nil]

theorem lastNamed_cons (name : Text) (f : Field) (fields : List Field) :
    lastNamed name (f :: fields) =
      (lastNamed name fields).or (if f.named name then some f else none) := by
  rw [lastNamed, lastNamed, List.filter_cons]
  cases hf : f.named name with
  | false => simp
  | true =>
    rw [if_pos rfl, if_pos rfl, List.getLast?_cons]
    cases (fields.filter (·.named name)).getLast? <;> rfl

/-- What reading the fields in their order leaves of a header. -/
structure Reads (fields : List Field) (h h' : Header) : Prop where
  code : h'.code = h.code
  length : ∀ f ∈ lastNamed CONTENT_LENGTH fields, Announces h'.contentLength f.value
  no_length : lastNamed CONTENT_LENGTH fields = none → h'.contentLength = h.contentLength
  option : ∀ f ∈ lastNamed CONNECTION fields,
    h'.reconnect = decide (lower (firstWord f.value) = "close".toList)
  no_option : lastNamed CONNECTION fields = none → h'.reconnect = h.reconnect

theorem Reads.cons (hf : Reads [f] h h₁) (hs : Reads fields h₁ h₂) : Reads (f :: fields) h h₂ := by
  have hlast : ∀ name g, lastNamed name (f :: fields) = some g →
      lastNamed name fields = some g ∨
        lastNamed name fields = none ∧ lastNamed name [f] = some g := by
    intro name g hg
    rw [lastNamed_cons] at hg ⊢
    cases hl : lastNamed name fields with
    | none =>
      rw [hl] at hg
      exact .inr ⟨rfl, hg⟩
    | some g' =>
      rw [hl] at hg
      exact .inl hg
  have hnone : ∀ name, lastNamed name (f :: fields) = none →
      lastNamed name fields = none ∧ lastNamed name [f] = none := by
    intro name hn
    rw [lastNamed_cons] at hn ⊢
    exact Option.or_eq_none_iff.mp hn
  constructor
  · exact hs.code.trans hf.code
  · intro g hg
    rcases hlast _ g hg with hg | ⟨hl, hg⟩
    · exact hs.length g hg
    · rw [hs.no_length hl]
      exact hf.length g hg
  · intro hn
    obtain ⟨hl, hl'⟩ := hnone _ hn
    rw [hs.no_length hl, hf.no_length hl']
  · intro g hg
    rcases hlast _ g hg with hg | ⟨hl, hg⟩
    · exact hs.option g hg
    · rw [hs.no_option hl]
      exact hf.option g hg
  · intro hn
    obtain ⟨hl, hl'⟩ := hnone _ hn
    rw [hs.no_option hl, hf.no_option hl']

theorem lastNamed_singleton (name : Text) (f : Field) :
    lastNamed name [f] = if f.named name then some f else none := by
  rw [lastNamed_cons]
  rfl

/-- No field announces a length and is a connection option. -/
theorem not_named_both (hn : f.named CONTENT_LENGTH = true) : f.named CONNECTION = false := by
  have hname : lower f.name = CONTENT_LENGTH := by simpa [Field.named] using hn
  rw [Field.named, hname]
  decide

theorem Field.Readable.legible (hf : f.Readable) : f.Legible := by
  refine ⟨hf.toRendered, hf.length, fun hc => ?_⟩
  obtain ⟨token, hv, -⟩ := hf.option hc
  rw [firstWord_holds hv]
  obtain ⟨-, -, -, -, -, hne, -⟩ := hv
  exact hne

theorem Response.Readable.legible (hr : r.Readable) : r.Legible :=
  ⟨hr.toStatusRendered, hr.code, fun f hf => (hr.fields f hf).legible⟩

theorem Response.Readable.short (hr : r.Readable) : ShortOptions r.fields := by
  intro f hf hc
  obtain ⟨token, hv, hshort⟩ := (hr.fields f hf).option hc
  rwa [firstWord_holds hv]

/-- A field is read as it was meant, unless its word overflows. -/
theorem readField_legible (hf : f.Legible) (h : Header) (h0 : NUL ∈ rest) :
    ((f.named CONNECTION = true → (firstWord f.value).length < MAX_BUF_SIZE) →
        ∃ h', readField f.name (f.value ++ (EOL ++ rest)) h = some h' ∧ Reads [f] h h') ∧
      (¬ (f.named CONNECTION = true → (firstWord f.value).length < MAX_BUF_SIZE) →
        readField f.name (f.value ++ (EOL ++ rest)) h = none) := by
  cases hl : f.named CONTENT_LENGTH with
  | true =>
    obtain ⟨n, hlt, ha⟩ := hf.length hl
    have hc := not_named_both hl
    have hmin : min n ULONG_MAX = n := Nat.min_eq_left (Nat.le_sub_one_of_lt hlt)
    refine ⟨fun _ => ⟨_, readField_length ha hl h0, ?_⟩, fun hlong => absurd hlong (by simp [hc])⟩
    rw [hmin]
    constructor <;> simp only [lastNamed_singleton, hl, hc, if_true, Bool.false_eq_true, if_false]
    · rintro g hg
      rw [← Option.some.inj hg]
      exact ha
    · nofun
    · nofun
    · exact fun _ => trivial
  | false =>
    cases hc : f.named CONNECTION with
    | true =>
      rw [readField_connection (hf.option hc) hc h0]
      refine ⟨fun hshort => ⟨_, if_pos (hshort rfl), ?_⟩, fun hlong => if_neg fun hlt =>
        hlong fun _ => hlt⟩
      constructor <;> simp only [lastNamed_singleton, hl, hc, if_true, Bool.false_eq_true, if_false]
      · nofun
      · exact fun _ => trivial
      · rintro g hg
        rw [← Option.some.inj hg]
      · nofun
    | false =>
      refine ⟨fun _ => ⟨h, readField_other hl hc, ?_⟩, fun hlong => absurd nofun hlong⟩
      constructor <;> simp only [lastNamed_singleton, hl, hc, Bool.false_eq_true, if_false]
      · nofun
      · exact fun _ => trivial
      · nofun
      · exact fun _ => trivial

theorem parseLinesAt_line (hf : f.Rendered) (before : Text) :
    parseLinesAt (fuel + 1) before.length (before ++ (f.line ++ rest)) h =
      (readField f.name (f.value ++ (EOL ++ rest)) h).bind
        (parseLinesAt fuel (before ++ f.cut).length ((before ++ f.cut) ++ rest)) := by
  have hset : (before ++ (f.line ++ rest)).set (before.length + f.name.length) NUL =
      before ++ (f.cut ++ rest) := by
    rw [List.set_append_right _ _ (Nat.le_add_right _ _), Nat.add_sub_cancel_left, set_line]
  have hnext : before.length + (f.name.length + f.value.length + 1) + EOL.length =
      (before ++ f.cut).length := by
    rw [List.length_append, length_cut, Nat.add_assoc]
  rw [parseLinesAt]
  rw [List.drop_left, strstr_line hf]
  dsimp only
  rw [if_neg (Nat.succ_ne_zero _), strchr_line hf]
  dsimp only
  rw [hset, hnext, Nat.add_assoc, ← List.drop_drop, List.drop_left, take_cut, drop_cut,
    List.append_assoc]
  cases readField f.name (f.value ++ (EOL ++ rest)) h <;> rfl

theorem length_flatMap_cut (fields : List Field) :
    (fields.flatMap Field.cut).length = (fields.flatMap Field.line).length := by
  induction fields with
  | nil => rfl
  | cons f fields ih =>
    rw [List.flatMap_cons, List.flatMap_cons, List.length_append, List.length_append, ih,
      length_cut, Field.line, List.length_append, List.length_cons, List.length_append]
    omega

/-- The loop reads all fields and stops at the empty line, or a word overflows. -/
theorem parseLinesAt_fields (h0 : NUL ∈ rest) (hf : ∀ f ∈ fields, f.Legible)
    (hfuel : fields.length < fuel) (before : Text) (h : Header) :
    (ShortOptions fields → ∃ h', Reads fields h h' ∧
      parseLinesAt fuel before.length (before ++ (fields.flatMap Field.line ++ (EOL ++ rest))) h =
        some (some ⟨before ++ (fields.flatMap Field.cut ++ (EOL ++ rest)),
          { h' with content := rest },
          before.length + (fields.flatMap Field.line).length + EOL.length⟩)) ∧
      (¬ ShortOptions fields → parseLinesAt fuel before.length
        (before ++ (fields.flatMap Field.line ++ (EOL ++ rest))) h = none) := by
  induction fields generalizing fuel before h with
  | nil =>
    obtain ⟨k, rfl⟩ := Nat.exists_eq_add_of_lt hfuel
    refine ⟨fun _ => ⟨h, ⟨rfl, nofun, fun _ => rfl, nofun, fun _ => rfl⟩, ?_⟩,
      fun hlong => absurd nofun hlong⟩
    have heol : strstr EOL (EOL ++ rest) = some (some 0) := strstr_eol (t := []) (by decide)
    rw [parseLinesAt]
    rw [List.drop_left, List.flatMap_nil, List.nil_append, heol]
    dsimp only
    rw [if_pos rfl, ← List.drop_drop, List.drop_left, List.drop_left]
    rfl
  | cons f fields ih =>
    obtain ⟨hlegible, hfields⟩ := List.forall_mem_cons.mp hf
    obtain ⟨k, rfl⟩ := Nat.exists_eq_succ_of_ne_zero (Nat.ne_zero_of_lt hfuel)
    have hlast : NUL ∈ fields.flatMap Field.line ++ (EOL ++ rest) :=
      List.mem_append_right _ (List.mem_append_right EOL h0)
    have hcons : ShortOptions (f :: fields) ↔
        (f.named CONNECTION = true → (firstWord f.value).length < MAX_BUF_SIZE) ∧
          ShortOptions fields := List.forall_mem_cons
    obtain ⟨hread, hfail⟩ := readField_legible hlegible h hlast
    rw [List.flatMap_cons, List.append_assoc, parseLinesAt_line hlegible.toRendered, hcons]
    by_cases hshort : f.named CONNECTION = true → (firstWord f.value).length < MAX_BUF_SIZE
    · obtain ⟨h₁, hone, hreads⟩ := hread hshort
      obtain ⟨hparse, hoverflow⟩ := ih hfields (Nat.lt_of_succ_lt_succ hfuel) (before ++ f.cut) h₁
      rw [hone, Option.bind_some]
      constructor
      · intro hall
        obtain ⟨h₂, hmore, hlines⟩ := hparse hall.2
        refine ⟨h₂, hreads.cons hmore, ?_⟩
        rw [hlines, List.flatMap_cons, List.append_assoc, List.append_assoc]
        have hlen : f.cut.length = f.line.length := by
          have hsame := length_flatMap_cut [f]
          rwa [List.flatMap_singleton, List.flatMap_singleton] at hsame
        rw [List.length_append, List.length_append, hlen, ← Nat.add_assoc]
      · exact fun hnot => hoverflow fun hrest => hnot ⟨hshort, hrest⟩
    · rw [hfail hshort]
      exact ⟨fun hall => absurd hall.1 hshort, fun _ => rfl⟩

theorem Reads.announced (hs : Reads r.fields ⟨n, 0, false, []⟩ h) :
    r.Announced h.contentLength :=
  ⟨hs.length, hs.no_length⟩

theorem Reads.closes (hr : r.Readable) (hs : Reads r.fields ⟨n, 0, false, []⟩ h) :
    h.reconnect = true ↔ r.Closes := by
  cases hl : lastNamed CONNECTION r.fields with
  | none =>
    rw [hs.no_option hl, Response.Closes]
    constructor
    · nofun
    · rintro ⟨f, token, hf, -⟩
      cases hl.symm.trans hf
  | some f =>
    have hmem := List.mem_filter.mp (List.mem_of_getLast? hl)
    obtain ⟨token, hv, -⟩ := (hr.fields f hmem.1).option hmem.2
    rw [hs.option f hl, decide_eq_true_eq, firstWord_holds hv, Response.Closes]
    constructor
    · exact fun hclose => ⟨f, token, hl, hv, hclose⟩
    · rintro ⟨g, token', hg, hv', hclose⟩
      obtain rfl := Option.some.inj (hl.symm.trans hg)
      rw [← firstWord_holds hv, firstWord_holds hv']
      exact hclose

/-- The header of a response is parsed in place, whatever follows it, unless a word overflows. -/
theorem parseBuffer_legible (hr : r.Legible) (h0 : NUL ∈ rest) :
    (ShortOptions r.fields → ∃ h, Reads r.fields ⟨r.code, 0, false, []⟩ h ∧
      parseBuffer (r.header ++ rest) = some (some ⟨r.cutHeader ++ rest,
        { h with content := rest }, r.header.length⟩)) ∧
      (¬ ShortOptions r.fields → parseBuffer (r.header ++ rest) = none) := by
  have hfirst : r.header ++ rest = (r.version ++ ' ' :: (Nat.toDigits 10 r.code ++ ' ' ::
      r.reason)) ++ (EOL ++ (r.fields.flatMap Field.line ++ (EOL ++ rest))) := by
    rw [header_status]
    simp only [List.append_assoc, List.cons_append]
  have hline : (r.version ++ ' ' :: (Nat.toDigits 10 r.code ++ ' ' :: r.reason)) ++ EOL =
      r.statusLine := by
    simp only [Response.statusLine, List.append_assoc, List.cons_append]
  have hstatus : r.header ++ rest =
      r.statusLine ++ (r.fields.flatMap Field.line ++ (EOL ++ rest)) := by
    simp only [Response.header, List.append_assoc]
  have heol : strstr EOL (r.header ++ rest) = some (some
      (r.version ++ ' ' :: (Nat.toDigits 10 r.code ++ ' ' :: r.reason)).length) := by
    rw [hfirst, strstr_eol (oneLine_status hr.toStatusRendered)]
  have hfuel : r.fields.length < (r.header ++ rest).length + 1 := by
    have hle := length_fields_le r.fields
    rw [hfirst]
    simp only [List.length_append]
    omega
  obtain ⟨hshort, hlong⟩ := parseLinesAt_fields h0 hr.fields hfuel r.statusLine
    ⟨r.code, 0, false, []⟩
  have hbuffer : parseBuffer (r.header ++ rest) = parseLinesAt ((r.header ++ rest).length + 1)
      r.statusLine.length (r.statusLine ++ (r.fields.flatMap Field.line ++ (EOL ++ rest)))
      ⟨r.code, 0, false, []⟩ := by
    rw [parseBuffer, sscanfStatus_rendered hr.toStatusRendered h0]
    dsimp only
    rw [heol]
    dsimp only
    rw [← List.length_append, hline, hstatus]
  rw [hbuffer]
  refine ⟨fun hs => ?_, hlong⟩
  obtain ⟨h, hreads, hlines⟩ := hshort hs
  refine ⟨h, hreads, ?_⟩
  rw [hlines]
  simp only [Response.cutHeader, Response.header, List.length_append, List.append_assoc,
    Nat.add_assoc]

theorem length_cutHeader (r : Response) : r.cutHeader.length = r.header.length := by
  simp only [Response.cutHeader, Response.header, List.length_append, length_flatMap_cut]

/-- Parsing gives back the response that was rendered. -/
theorem parse_inverts_rendering (hr : r.Readable) :
    ∃ p, parseBuffer (r.bytes ++ [NUL]) = some (some p) ∧ Inverts r p := by
  have h0 : NUL ∈ r.body ++ [NUL] := List.mem_append_right _ List.mem_cons_self
  obtain ⟨h, hreads, hparse⟩ := (parseBuffer_legible hr.legible h0).1 hr.short
  have hcloses : h.reconnect = true ↔ r.Closes := hreads.closes hr
  rw [Response.bytes, List.append_assoc]
  refine ⟨_, hparse, hreads.code, hreads.announced, hcloses, rfl, rfl, ?_, ?_⟩
  · rw [← length_cutHeader, List.drop_left]
  · rw [List.length_append, length_cutHeader, List.length_append, List.length_singleton,
      Response.bytes, List.length_append, Nat.add_assoc]

end Rendering

/-- A response that closes the connection, with the time of its body. -/
def closingResponse : Response where
  version := "HTTP/1.1".toList
  code := 200
  reason := "OK".toList
  fields := [⟨"Date".toList, " 10:05:00".toList⟩, ⟨"Connection".toList, " Close".toList⟩,
    lengthFive]
  body := "a:\r\nb".toList

theorem closingResponse_readable : closingResponse.Readable where
  version_ne := by decide +kernel
  version_word := by decide +kernel
  reason := by decide +kernel
  code := by decide +kernel
  fields f hf := by
    rcases List.mem_cons.mp hf with rfl | hf
    · exact ⟨⟨by decide +kernel, by decide +kernel, by decide +kernel⟩,
        fun h => absurd h (by decide +kernel), fun h => absurd h (by decide +kernel)⟩
    · rcases List.mem_cons.mp hf with rfl | hf
      · exact ⟨⟨by decide +kernel, by decide +kernel, by decide +kernel⟩,
          fun h => absurd h (by decide +kernel), fun _ => ⟨"Close".toList,
            ⟨[' '], [], rfl, by decide, by decide, by decide, by decide⟩, by decide⟩⟩
      · rw [List.mem_singleton.mp hf]
        exact ⟨lengthFive_wellFormed.rendered,
          fun h => ⟨5, by decide, lengthFive_wellFormed.announces h⟩,
          fun h => absurd h (by decide +kernel)⟩

theorem parse_inverts_closing :
    ∃ p, parseBuffer (closingResponse.bytes ++ [NUL]) = some (some p) ∧ Inverts closingResponse p :=
  parse_inverts_rendering closingResponse_readable

/-- A NUL in a value ends the search for the end of its line. -/
theorem nul_in_value_not_parsed :
    ¬ ∀ r : Response, r.version ≠ [] → (∀ c ∈ r.version, isWord c = true) → OneLine r.reason →
      r.code < 2 ^ 31 →
      (∀ f ∈ r.fields, f.name ≠ [] ∧ OneLine f.name ∧ ':' ∉ f.name ∧
        '\r' ∉ f.value ∧ '\n' ∉ f.value ∧
        (f.named CONTENT_LENGTH = true → ∃ n, n < 2 ^ 64 ∧ Announces n f.value) ∧
        (f.named CONNECTION = true →
          ∃ token, Holds token f.value ∧ token.length < MAX_BUF_SIZE)) →
      ∃ p, parseBuffer (r.bytes ++ [NUL]) = some (some p) ∧ Inverts r p := by
  intro h
  obtain ⟨p, hp, -⟩ := h ⟨"HTTP/1.1".toList, 200, "OK".toList, [⟨['X'], [NUL]⟩], []⟩
    (by decide +kernel) (by decide +kernel) (by decide +kernel) (by decide +kernel) (by
      intro f hf
      rw [List.mem_singleton.mp hf]
      exact ⟨by decide, by decide +kernel, by decide, by decide, by decide,
        fun h => absurd h (by decide +kernel), fun h => absurd h (by decide +kernel)⟩)
  have hfails : parseBuffer ((⟨"HTTP/1.1".toList, 200, "OK".toList, [⟨['X'], [NUL]⟩], []⟩ :
      Response).bytes ++ [NUL]) = some none := by
    decide +kernel
  rw [hfails] at hp
  cases hp

end RestResponse
