import ADEiger.EigerParamPut
import ADEiger.FrozenDocument
import ADEiger.RestPut

/-! A string on its way to the detector and back.
`put` writes it between quotes into the body of the request, `fetch` takes the text of its
token from the answer; neither knows the escapes of JSON. -/
namespace EigerParams

open CString RestPut TransitionSystem

variable {F δ : Type*} [Double F] {api : RestAPI δ} {d d' : δ} {p q : EigerParam F}
  {S : EigerParamSet F} {i : ℕ} {unset : ℤ} {hostname raw t v : Text}

/-- The bytes are a document whose member `value` is the string `v`. -/
def BodyDecodes (bytes : List (Option Char)) (v : Text) : Prop :=
  ∃ t, bytes = t.map some ∧ Json.Holds t "value".toList v

/-- The document has one member `value`, the string with this literal. -/
def Answers (t lit : Text) : Prop :=
  ∃ ms, Json.Document t ms ∧ Json.HasMember ms "value".toList (Json.quoted lit)

/-- A detector that stores the string in the body it accepted, and answers with what it
stores in its own encoding. -/
structure StoresString (api : RestAPI δ) (hostname : Text) (subSystem : Sys) (name : Text)
    (stored : δ → Text) (encode : Text → Text) : Prop where
  put : ∀ d raw d' names s, api.put d subSystem name raw = some (d', some names) →
    BodyDecodes (RestPut.put api.version hostname subSystem name raw).body s →
    (∀ s', BodyDecodes (RestPut.put api.version hostname subSystem name raw).body s' → s' = s) →
    stored d' = s
  get : ∀ d lit, Json.Decodes lit (stored d) → ∃ t x, Answers t (encode (stored d)) ∧
    Frozen.response t = some x ∧ api.get d subSystem name = some x
  encode : ∀ s lit, Json.Decodes lit s → Json.Decodes (encode s) s

/-- The string needs no escapes, and its body fits in the buffer. -/
structure SentAsIs (v : Text) : Prop where
  plain : Json.Plain v
  fits : (valueText (EigerParam.toStringString v)).length < MAX_BUF_SIZE

section Body

theorem length_le_of_memcpy {w : Text} {n : ℕ} (h : memcpy w n = t.map some) : n ≤ w.length := by
  by_contra hlt
  have hw : w.length < n := Nat.lt_of_not_le hlt
  have hnone : (memcpy w n)[w.length]? = some none := by
    simp [memcpy, List.getElem?_range hw]
  rw [h, List.getElem?_map] at hnone
  obtain ⟨_, -, hc⟩ := Option.map_eq_some_iff.mp hnone
  cases hc

theorem body_text {version : ApiVersion} {ss : Sys} {name : Text} (hraw : raw ≠ [])
    (h : (RestPut.put version hostname ss name raw).body = t.map some) :
    (valueText (cstr raw)).length ≤ MAX_BUF_SIZE ∧
      t = copied MAX_BUF_SIZE (valueText (cstr raw)) := by
  obtain ⟨hlen, hmax, hcopy⟩ := value_copied (length_le_of_memcpy h)
  have hbody : formattedBody raw = valueText (cstr raw) := if_neg hraw
  rw [hbody] at hmax hcopy
  exact ⟨hmax, map_some_injective (h.symm.trans hcopy)⟩

theorem length_toStringString : (EigerParam.toStringString v).length = v.length + 2 := by
  simp [EigerParam.toStringString]

theorem valueText_open (u : Text) :
    valueText u = "\x7b\"value\":".toList ++ ' ' :: (u ++ ['\x7d']) := by
  rw [valueText_last]
  rfl

/-- Only a string that needs no escapes is in the text of its body. -/
theorem sentAsIs_of_holds
    (hmax : (valueText (cstr (EigerParam.toStringString v))).length ≤ MAX_BUF_SIZE)
    (h : Json.Holds (copied MAX_BUF_SIZE (valueText (cstr (EigerParam.toStringString v))))
      "value".toList v) : SentAsIs v := by
  obtain ⟨pre, lit, post, ht, hlit, hpre, -, hpost⟩ := h.split
  have hcopied := (length_copied hmax).resolve_right (by decide)
  have hopen : VALUE_OPEN.length = 10 := rfl
  have hname : "value".toList.length = 5 := rfl
  have hlen := congrArg List.length ht
  have hraw := length_cstr_le (EigerParam.toStringString v)
  rw [hcopied, length_valueText, hopen] at hlen
  simp only [List.length_append, List.length_cons] at hlen
  rw [hname] at hpre
  rw [length_toStringString] at hraw
  -- the literal does not start at the space before the value
  have hspace : pre.length ≠ 9 := by
    intro hnine
    obtain ⟨w, hw⟩ := copied_append_cons (n := MAX_BUF_SIZE) (c := ' ')
      (u := cstr (EigerParam.toStringString v) ++ ['\x7d']) (t := "\x7b\"value\":".toList)
      (by decide)
    rw [valueText_open, hw] at ht
    have heq := (List.append_inj ht hnine.symm).2
    exact absurd (List.cons.inj heq).1 (by decide)
  obtain ⟨hle, hsame⟩ := hlit.length
  have hpos := List.length_pos_of_mem hpost
  have hwhole : NUL ∉ EigerParam.toStringString v := by
    intro hmem
    have hlt := length_cstr_lt hmem
    rw [length_toStringString] at hlt
    omega
  rw [cstr_of_not_mem hwhole] at hmax hlen ht
  rw [length_toStringString] at hlen
  refine ⟨(hsame (by omega)).2, ?_⟩
  by_contra hfull
  have hbuf : (valueText (EigerParam.toStringString v)).length = MAX_BUF_SIZE := by omega
  obtain ⟨c, rfl⟩ := List.length_eq_one_iff.mp (by omega : post.length = 1)
  obtain rfl := List.mem_singleton.mp hpost
  rw [copied_of_eq hbuf] at ht
  have hlast := congrArg List.getLast? ht
  simp only [List.getLast?_append, List.getLast?_cons] at hlast
  exact absurd hlast (by simp; decide)

theorem body_eq {version : ApiVersion} {ss : Sys} {name : Text} (h : SentAsIs v) :
    (RestPut.put version hostname ss name (EigerParam.toStringString v)).body =
      (valueText (EigerParam.toStringString v)).map some := by
  have hraw : EigerParam.toStringString v ≠ [] := List.cons_ne_nil _ _
  have hnul : NUL ∉ EigerParam.toStringString v := by
    have hv := h.plain.not_mem (x := NUL) (by decide) (by decide)
    have hquote : NUL ≠ '"' := by decide
    simp [EigerParam.toStringString, hv, hquote]
  have hbody : formattedBody (EigerParam.toStringString v) =
      valueText (EigerParam.toStringString v) := by
    rw [formattedBody, if_neg hraw, cstr_of_not_mem hnul]
  have hin : (RestPut.put version hostname ss name (EigerParam.toStringString v)).valueLen ≤
      (RestPut.put version hostname ss name
        (EigerParam.toStringString v)).value.written.length := by
    unfold Request.valueLen RestPut.put
    simp only [if_neg hraw, cstr_of_not_mem hnul]
    exact returned_le_written h.fits (by decide)
  rw [Request.body, (value_copied hin).2.2, hbody, copied_of_lt h.fits]

theorem valueText_quoted (v : Text) : valueText (EigerParam.toStringString v) =
    ('\x7b' :: '"' :: ("value".toList ++ ['"', ':', ' '])) ++ '"' :: (v ++ '"' :: ['\x7d']) := by
  rw [valueText_last]
  simp only [EigerParam.toStringString, List.append_assoc, List.cons_append, List.nil_append]
  rfl

theorem holds_valueText (h : Json.Plain v) :
    Json.Holds (valueText (EigerParam.toStringString v)) "value".toList v := by
  have hnone : Json.Ws [] := List.forall_mem_nil _
  have hspace : Json.Ws [' '] := by
    intro c hc
    obtain rfl := List.mem_singleton.mp hc
    rfl
  have hkey : Json.Decodes "value".toList "value".toList := by
    apply Json.Plain.decodes
    exact ⟨"value".toList, by decide, by decide⟩
  have hvalue : Json.Value (Json.quoted v) := .string h.decodes
  refine ⟨[⟨[], "value".toList, [], [' '], Json.quoted v, []⟩], _, v, ?_, List.mem_singleton_self _,
    hkey, rfl, h.decodes⟩
  refine ⟨⟨[], [], hnone, hnone, ?_⟩, List.cons_ne_nil _ _, ?_, ?_⟩
  · rw [valueText_quoted]
    simp [Json.commas, Json.Member.text, Json.quoted]
  · intro m hm
    obtain rfl := List.mem_singleton.mp hm
    exact ⟨hnone, ⟨_, hkey⟩, hnone, hspace, hnone⟩
  · intro m hm
    obtain rfl := List.mem_singleton.mp hm
    exact hvalue

theorem holds_unique {s : Text} (h : Json.Plain v)
    (hs : Json.Holds (valueText (EigerParam.toStringString v)) "value".toList s) : s = v := by
  obtain ⟨pre, lit, post, ht, hlit, -, hcount, -⟩ := hs.split
  have hquote := h.not_mem (x := '"') (by decide) (by decide)
  have hslash := h.not_mem (x := '\\') (by decide) (by decide)
  rw [valueText_quoted] at ht
  have hquotes := congrArg (List.count '"') ht
  have hopen : List.count '"' ('\x7b' :: '"' :: ("value".toList ++ ['"', ':', ' '])) = 2 := by
    decide
  have hclose : List.count '"' ['\x7d'] = 0 := by decide
  rw [List.count_append, List.count_cons_self, List.count_append, List.count_cons_self, hopen,
    hclose, List.count_eq_zero_of_not_mem hquote, List.count_append, List.count_cons_self,
    List.count_append, List.count_cons_self] at hquotes
  have hpost : '"' ∉ post := List.count_eq_zero.mp (by omega)
  have hlitq : '"' ∉ lit := List.count_eq_zero.mp (by omega)
  generalize '\x7b' :: '"' :: ("value".toList ++ ['"', ':', ' ']) = start at ht
  have hcut : start ++ '"' :: v ++ '"' :: ['\x7d'] = pre ++ '"' :: lit ++ '"' :: post := by
    simpa only [List.append_assoc, List.cons_append] using ht
  obtain ⟨hcut, -⟩ := last_unique hcut (by decide) hpost
  obtain ⟨-, rfl⟩ := last_unique hcut hquote hlitq
  exact hlit.eq_of_not_mem hslash

theorem bodyDecodes_iff {version : ApiVersion} {ss : Sys} {name : Text} (v : Text) :
    BodyDecodes (RestPut.put version hostname ss name (EigerParam.toStringString v)).body v ↔
      SentAsIs v := by
  constructor
  · rintro ⟨t, hbody, hholds⟩
    obtain ⟨hmax, rfl⟩ := body_text (List.cons_ne_nil _ _) hbody
    exact sentAsIs_of_holds hmax hholds
  · intro h
    exact ⟨_, body_eq h, holds_valueText h.plain⟩

theorem bodyDecodes_unique {version : ApiVersion} {ss : Sys} {name s : Text} (h : SentAsIs v)
    (hs : BodyDecodes
      (RestPut.put version hostname ss name (EigerParam.toStringString v)).body s) : s = v := by
  obtain ⟨t, hbody, hholds⟩ := hs
  obtain rfl := map_some_injective ((body_eq h).symm.trans hbody)
  exact holds_unique h.plain hholds

end Body

section RoundTrip

variable {stored : δ → Text} {encode : Text → Text}

/-- The body decodes to the string, and a fetch after the put returns the string. -/
structure RoundTrips (api : RestAPI δ) (hostname : Text) (p : EigerParam F) (o : Outcome δ F)
    (i : ℕ) (v : Text) : Prop where
  body : ∃ raw, o.sent = some raw ∧
    BodyDecodes (RestPut.put api.version hostname p.subSystem p.name raw).body v
  fetched : ∃ q, o.params[i]? = some q ∧ (q.fetchString api o.detector).1 = some v

/-- The parameter keeps strings, and the detector writes the string without escapes. From a
parameter that is only written the empty string is read. -/
def EigerParam.ReadsBack (p : EigerParam F) (encode : Text → Text) (v : Text) : Prop :=
  p.asynType = .octet ∧ if p.accessMode = .wo then v = [] else encode v = v

theorem fetchString_string (api : RestAPI δ) (d : δ) (hr : q.remote = true)
    (ht : q.type = .string) :
    (q.fetchString api d).1 = if q.asynType = .octet then
      if q.accessMode = .wo then some [] else (api.get d q.subSystem q.name).bind parseValue
    else none := by
  have hbase : (q.baseFetch api d).1 = (if q.accessMode = .wo then some [] else
      (api.get d q.subSystem q.name).bind parseValue) ∧ (q.baseFetch api d).2 = q := by
    rw [EigerParam.baseFetch]
    simp only [hr, Bool.not_true, Bool.false_eq_true, if_false]
    split_ifs
    · exact ⟨rfl, rfl⟩
    · cases api.get d q.subSystem q.name with
      | none => exact ⟨rfl, rfl⟩
      | some x => simp [EigerParam.initType, EigerParam.parseLimits, ht]
  have hmember : ¬ q.type ∉ [.string, .enum, .uninit] := by simp [ht]
  have hcond : (q.remote && decide (q.type ≠ .command)) = true := by simp [hr, ht]
  obtain ⟨hraw, hq⟩ := hbase
  rw [← hraw]
  rw [EigerParam.fetchString]
  rw [if_pos hcond, if_neg hmember]
  rcases hb : q.baseFetch api d with ⟨_ | raw, r⟩
  · simp
  · obtain rfl : r = q := by rw [← hq, hb]
    simp only [EigerParam.setParam, AsynValue.type]
    by_cases ho : r.asynType = .octet
    · simp [ho]
    · simp [ho, Ne.symm ho]

/-- What the detector has after the put is what it answers with. -/
theorem get_after_put {ss : Sys} {name : Text} {names : List Text}
    (hd : StoresString api hostname ss name stored encode) (h : SentAsIs v)
    (hput : api.put d ss name (EigerParam.toStringString v) = some (d', some names)) :
    (api.get d' ss name).bind parseValue = some (encode v) := by
  have hstored : stored d' = v :=
    hd.put d _ d' names v hput ((bodyDecodes_iff v).mpr h) fun _ => bodyDecodes_unique h
  have hlit := h.plain.decodes
  obtain ⟨t, x, ⟨ms, hdoc, hm⟩, hx, hget⟩ := hd.get d' v (by rw [hstored]; exact hlit)
  rw [hstored] at hm
  have htoken := Frozen.response_string (by decide) hdoc hx hm (hd.encode v v hlit)
  rw [hget, Option.bind_some, parseValue, htoken, Option.map_some]

/-- A string is put and fetched again unchanged exactly when no end has to escape it. -/
theorem string_round_trip_iff
    (hd : StoresString api hostname p.subSystem p.name stored encode) (hp : S[i]? = some p)
    (hr : p.remote = true) (ht : p.type = .string) :
    (∀ raw, (putString api d S i unset v).sent = some raw →
      (BodyDecodes (RestPut.put api.version hostname p.subSystem p.name raw).body v ↔
        SentAsIs v)) ∧
    ((putString api d S i unset v).status = true →
      (RoundTrips api hostname p (putString api d S i unset v) i v ↔
        SentAsIs v ∧ p.ReadsBack encode v)) := by
  have hknown : p.type ≠ .uninit := by simp [ht]
  have hput : putString api d S i unset v = putRemote api d S i (·.encodeString unset v) := by
    simp only [putString, hp, hr, if_true]
  have hsent : ∀ raw, (putString api d S i unset v).sent = some raw →
      raw = EigerParam.toStringString v := by
    intro raw hraw
    rw [hput] at hraw
    obtain ⟨_, he⟩ := putRemote_sent hp hknown hraw
    simp only [EigerParam.encodeString, ht] at he
    exact (Prod.mk.inj (Option.some.inj he)).1.symm
  constructor
  · intro raw hraw
    obtain rfl := hsent raw hraw
    exact bodyDecodes_iff v
  · intro hstatus
    rw [hput] at hstatus hsent ⊢
    obtain ⟨T, q, raw, u, d', names, ok, U, r, s, hready, hq, he, hreply, hfetch, hr', hs, ho⟩ :=
      putRemote_succeeds hstatus
    have hsame : S.ready api d i = (true, S) := by simp [EigerParamSet.ready, hp, hknown]
    obtain ⟨-, rfl⟩ := Prod.mk.inj (hsame.symm.trans hready)
    obtain rfl := Option.some.inj (hp.symm.trans hq)
    rw [ho] at hsent ⊢
    obtain rfl := hsent raw rfl
    have hkeeps : Keeps p s :=
      ((keepsAll_of_fetchParams hfetch).keeps i p r hp hr').trans (keeps_setParam hs)
    obtain ⟨htype, haccess, -⟩ := hkeeps.known hknown
    have hself : (U.set i s)[i]? = some s :=
      List.getElem?_set_self (List.getElem?_eq_some_iff.mp hr').1
    have hread := fetchString_string api d' (hkeeps.remote.trans hr) (htype.trans ht)
    rw [hkeeps.asynType, haccess, hkeeps.subSystem, hkeeps.name] at hread
    constructor
    · intro h
      obtain ⟨_, hraw, hbody⟩ := h.body
      obtain rfl := Option.some.inj hraw
      have hplain := (bodyDecodes_iff v).mp hbody
      obtain ⟨s', hs', hv⟩ := h.fetched
      obtain rfl := Option.some.inj (hself.symm.trans hs')
      rw [get_after_put hd hplain hreply] at hread
      rw [hread] at hv
      by_cases hoctet : p.asynType = .octet
      · rw [if_pos hoctet] at hv
        refine ⟨hplain, hoctet, ?_⟩
        split_ifs at hv ⊢
        · exact (Option.some.inj hv).symm
        · exact Option.some.inj hv
      · rw [if_neg hoctet] at hv
        cases hv
    · rintro ⟨hplain, hoctet, hback⟩
      rw [get_after_put hd hplain hreply, if_pos hoctet] at hread
      refine ⟨⟨_, rfl, (bodyDecodes_iff v).mpr hplain⟩, s, hself, hread.trans ?_⟩
      split_ifs at hback ⊢
      · rw [hback]
      · rw [hback]

end RoundTrip

section Appendix

/-- What is answered about a string that can be written. -/
def stringMembers (lit : Text) : List Json.Member :=
  [Json.spaced "access_mode".toList (Json.quoted "rw".toList),
   Json.spaced "value".toList (Json.quoted lit),
   Json.spaced "value_type".toList (Json.quoted "string".toList)]

def stringAnswer (lit : Text) : Text := Json.objectText (stringMembers lit)

/-- The string in the body, where it is ASCII without escapes. -/
def bodyString (raw : Text) : Option Text :=
  let v := raw.tail.dropLast
  if raw = EigerParam.toStringString v ∧ (∀ c ∈ v, Json.plainChar c = true ∧ c.toNat < 128) ∧
    (valueText raw).length < MAX_BUF_SIZE then some v else none

def headerAppendixName : Text := "header_appendix".toList

/-- The header appendix of the stream; other bodies are refused. -/
def appendixDetector : RestAPI Text where
  version := .v1_8_0
  get d ss n :=
    if ss = .streamConfig ∧ n = headerAppendixName then
      Frozen.response (stringAnswer (Json.encode d))
    else none
  put _ ss n raw :=
    if ss = .streamConfig ∧ n = headerAppendixName then
      (bodyString raw).map fun v => (v, some [headerAppendixName])
    else none

theorem appendixDetector_get (d : Text) : appendixDetector.get d .streamConfig headerAppendixName =
    Frozen.response (stringAnswer (Json.encode d)) := by
  simp only [appendixDetector, and_self, if_true]

theorem appendixDetector_put (d raw : Text) :
    appendixDetector.put d .streamConfig headerAppendixName raw =
      (bodyString raw).map fun v => (v, some [headerAppendixName]) := by
  simp only [appendixDetector, and_self, if_true]

theorem bodyString_spec {raw : Text} (h : bodyString raw = some v) :
    raw = EigerParam.toStringString v ∧ SentAsIs v := by
  unfold bodyString at h
  dsimp only at h
  split_ifs at h with hcond
  obtain rfl := Option.some.inj h
  obtain ⟨hraw, hascii, hfits⟩ := hcond
  rw [hraw] at hfits
  exact ⟨hraw, Json.plain_ascii hascii, hfits⟩

theorem document_stringAnswer {lit : Text} (h : Json.Decodes lit v) :
    Json.Document (stringAnswer lit) (stringMembers lit) := by
  have hplain : ∀ t : Text, (∀ c ∈ t, Json.plainChar c = true ∧ c.toNat < 128) →
      Json.Value (Json.quoted t) := fun t ht => .string (Json.plain_ascii ht).decodes
  have hkey : ∀ c ∈ "value".toList, Json.plainChar c = true ∧ c.toNat < 128 := by decide
  apply Json.document_objectText (List.cons_ne_nil _ _)
  · simp only [List.forall_mem_cons]
    exact ⟨⟨rfl, by decide⟩, ⟨rfl, hkey⟩, ⟨rfl, by decide⟩, List.forall_mem_nil _⟩
  · simp only [List.forall_mem_cons]
    exact ⟨hplain _ (by decide), .string h, hplain _ (by decide), List.forall_mem_nil _⟩

theorem response_stringAnswer {lit : Text} (h : Json.Decodes lit v) :
    ∃ x, Frozen.response (stringAnswer lit) = some x := by
  obtain ⟨text, toks, htoks, hparse⟩ := Frozen.parseJson_document (document_stringAnswer h)
    (by decide : 0 < Frozen.MAX_JSON_TOKENS)
  have hstrings : ∀ m ∈ stringMembers lit, ∃ lit v, m.value = Json.quoted lit ∧
      Json.Decodes lit v := by
    simp only [stringMembers, List.forall_mem_cons]
    exact ⟨⟨_, _, rfl, (Json.plain_ascii (by decide)).decodes⟩, ⟨_, _, rfl, h⟩,
      ⟨_, _, rfl, (Json.plain_ascii (by decide)).decodes⟩, List.forall_mem_nil _⟩
  have hlen : toks.length = 6 := htoks.length_strings hstrings
  have hmax : toks.length + 2 ≤ Frozen.MAX_JSON_TOKENS := by
    rw [hlen]
    decide
  rw [Frozen.response, hparse, if_pos hmax]
  exact ⟨_, rfl⟩

theorem appendixDetector_stores (hostname : Text) : StoresString appendixDetector hostname
    .streamConfig headerAppendixName id Json.encode where
  put d raw d' names s hput hs _ := by
    rw [appendixDetector_put] at hput
    obtain ⟨v, hv, hpair⟩ := Option.map_eq_some_iff.mp hput
    obtain ⟨rfl, -⟩ := Prod.mk.inj hpair
    obtain ⟨rfl, hplain⟩ := bodyString_spec hv
    exact (bodyDecodes_unique hplain hs).symm
  get d lit hlit := by
    have hencode := hlit.encode
    obtain ⟨x, hx⟩ := response_stringAnswer hencode
    refine ⟨_, x, ⟨_, document_stringAnswer hencode, Json.spaced "value".toList
      (Json.quoted (Json.encode d)), ?_, rfl, rfl, ?_⟩, hx, (appendixDetector_get d).trans hx⟩
    · simp [stringMembers]
    · simp only [stringMembers, List.forall_mem_cons]
      exact ⟨fun h => absurd h (by decide), fun _ => rfl, fun h => absurd h (by decide),
        List.forall_mem_nil _⟩
  encode s lit := Json.Decodes.encode

def headerAppendix (value : Text) : EigerParam ℤ where
  asynName := "EIG_SCS_header_appendix".toList
  subSystem := .streamConfig
  name := headerAppendixName
  type := .string
  accessMode := .rw
  min := ⟨false, 0, 0⟩
  max := ⟨false, 0, 0⟩
  enumValues := []
  criticalValues := []
  epsilon := 0
  customEnum := false
  asyn := .octet value

/-- The driver creates the parameter and fetches it. -/
theorem appendixCreated_reachable :
    Reachable (system appendixDetector) ⟨[], [headerAppendix []]⟩ := by
  have hrun : runTrace (system (F := ℤ) appendixDetector) ⟨[], []⟩
      [.create "EIG_SCS_header_appendix".toList (.octet []) .streamConfig headerAppendixName,
       .fetchAll] = ⟨[], [headerAppendix []]⟩ := by decide +kernel
  rw [← hrun]
  exact reachable_trace rfl _ (by decide +kernel)

/-- A string without anything to escape comes back. -/
theorem plain_string_round_trips : RoundTrips appendixDetector "eiger".toList (headerAppendix [])
    (putString appendixDetector [] [headerAppendix []] 0 0 "run 17".toList) 0
    "run 17".toList := by
  have hstatus : (putString appendixDetector [] [headerAppendix []] 0 0 "run 17".toList).status =
      true := by decide +kernel
  apply ((string_round_trip_iff (appendixDetector_stores "eiger".toList) rfl rfl rfl).2 hstatus).mpr
  exact ⟨⟨Json.plain_ascii (by decide), by decide⟩, rfl, by decide⟩

/-- The body for `a"b` is no document. -/
theorem quoted_string_not_sent :
    ¬ ∀ (api : RestAPI Text) (hostname : Text) (stored encode : Text → Text) (d : Text)
      (S : EigerParamSet ℤ) (i : ℕ) (p : EigerParam ℤ) (unset : ℤ) (v : Text),
      Reachable (system api) ⟨d, S⟩ → S[i]? = some p → p.remote = true → p.type = .string →
      StoresString api hostname p.subSystem p.name stored encode →
      (∀ raw, (putString api d S i unset v).sent = some raw →
        BodyDecodes (RestPut.put api.version hostname p.subSystem p.name raw).body v) ∧
      ((putString api d S i unset v).status = true →
        RoundTrips api hostname p (putString api d S i unset v) i v) := by
  intro h
  have hbody := (h appendixDetector "eiger".toList id Json.encode [] [headerAppendix []] 0
    (headerAppendix []) 0 "a\"b".toList appendixCreated_reachable rfl rfl rfl
    (appendixDetector_stores _)).1 (EigerParam.toStringString "a\"b".toList) (by decide +kernel)
  have hplain := ((bodyDecodes_iff _).mp hbody).plain
  exact hplain.not_mem (x := '"') (by decide) (by decide) (by decide)

end Appendix

end EigerParams
