import ADEiger.CString
import ADEiger.EigerParam

/-! The request of a `PUT`.
`RestAPI::put` formats a header and a body into two buffers of fixed size and copies as many
bytes from each as its text has. -/
namespace RestPut

open CString
open EigerParams (Sys ApiVersion)

def MAX_BUF_SIZE : ℕ := 256

def apiText : ApiVersion → Text
  | .v1_6_0 => "1.6.0".toList
  | .v1_8_0 => "1.8.0".toList

/-- `mSysStr`. -/
def sysStr (version : ApiVersion) : Sys → Text
  | .apiVersion => "/detector/api/version".toList
  | .detConfig => "/detector/api/".toList ++ apiText version ++ "/config/".toList
  | .detStatus => "/detector/api/".toList ++ apiText version ++ "/status/".toList
  | .fwConfig => "/filewriter/api/".toList ++ apiText version ++ "/config/".toList
  | .fwStatus => "/filewriter/api/".toList ++ apiText version ++ "/status/".toList
  | .fwCommand => "/filewriter/api/".toList ++ apiText version ++ "/command/".toList
  | .command => "/detector/api/".toList ++ apiText version ++ "/command/".toList
  | .data => "/data/".toList
  | .monConfig => "/monitor/api/".toList ++ apiText version ++ "/config/".toList
  | .monStatus => "/monitor/api/".toList ++ apiText version ++ "/status/".toList
  | .monImages => "/monitor/api/".toList ++ apiText version ++ "/images/".toList
  | .streamConfig => "/stream/api/".toList ++ apiText version ++ "/config/".toList
  | .streamStatus => "/stream/api/".toList ++ apiText version ++ "/status/".toList
  | .sysCommand => "/system/api/".toList ++ apiText version ++ "/command/".toList

def EOL : Text := ['\r', '\n']
def DATA_NATIVE : Text := "application/json; charset=utf-8".toList

def REQUEST_PUT (sysStr param hostname : Text) (contentLength : ℕ) : Text :=
  "PUT ".toList ++ sysStr ++ param ++ " HTTP/1.1".toList ++ EOL ++
    "Host: ".toList ++ hostname ++ EOL ++
    "Accept-Encoding: identity".toList ++ EOL ++
    "Content-Type: ".toList ++ DATA_NATIVE ++ EOL ++
    "Content-Length: ".toList ++ Nat.toDigits 10 contentLength ++ EOL ++ EOL

def VALUE_OPEN : Text := "\x7b\"value\": ".toList

/-- The body of the request. -/
def valueText (value : Text) : Text := VALUE_OPEN ++ value ++ ['\x7d']

/-- What `put` hands to `doRequest`, with the buffers and how much it copied of each. -/
structure Request where
  header : Formatted
  value : Formatted
  data : List (Option Char)
  deriving DecidableEq

def Request.headerLen (r : Request) : ℕ := sizeT r.header.returned
def Request.valueLen (r : Request) : ℕ := sizeT r.value.returned

/-- The bytes behind the header. -/
def Request.body (r : Request) : List (Option Char) := memcpy r.value.written r.valueLen

/-- The buffer of the value is only formatted for a value that is not empty. -/
def put (version : ApiVersion) (hostname : Text) (sys : Sys) (param value : Text) : Request :=
  let valueBuf : Formatted :=
    if value = [] then ⟨[], 0⟩ else snprintf MAX_BUF_SIZE (valueText (cstr value))
  let header := snprintf MAX_BUF_SIZE (REQUEST_PUT (sysStr version sys) (cstr param)
    (cstr hostname) (sizeT valueBuf.returned))
  { header := header
    value := valueBuf
    data := memcpy header.written (sizeT header.returned) ++
      memcpy valueBuf.written (sizeT valueBuf.returned) }

/-- The body a value is to be sent in. -/
def body (value : Text) : Text := if value = [] then [] else valueText value

/-- The request is the header of the resource, with the length of the body, and the body;
every byte is copied from what was formatted. -/
structure Framed (r : Request) (sysStr param hostname value : Text) : Prop where
  data : r.data =
    (REQUEST_PUT sysStr param hostname (body value).length ++ body value).map some
  header_inside : r.headerLen ≤ r.header.written.length
  value_inside : r.valueLen ≤ r.value.written.length

/-- The texts are C strings, and header and body fit in their buffers with a terminator. -/
structure Fits (sysStr param hostname value : Text) : Prop where
  param_text : NUL ∉ param
  hostname_text : NUL ∉ hostname
  value_text : NUL ∉ value
  header_fits : (REQUEST_PUT sysStr param hostname (body value).length).length < MAX_BUF_SIZE
  body_fits : (body value).length < MAX_BUF_SIZE

section Format

variable {s p h v : Text} {n : ℕ}

theorem requestPut_param : ∃ tail, REQUEST_PUT s p h n = "PUT ".toList ++ s ++ p ++ ' ' :: tail ∧
    2 ≤ tail.length := by
  have hline : " HTTP/1.1".toList = ' ' :: "HTTP/1.1".toList := rfl
  refine ⟨"HTTP/1.1".toList ++ (EOL ++ ("Host: ".toList ++ (h ++ (EOL ++
    ("Accept-Encoding: identity".toList ++ (EOL ++ ("Content-Type: ".toList ++ (DATA_NATIVE ++
    (EOL ++ ("Content-Length: ".toList ++ (Nat.toDigits 10 n ++ (EOL ++ EOL)))))))))))), ?_, ?_⟩
  · unfold REQUEST_PUT
    rw [hline]
    simp only [List.append_assoc, List.cons_append]
  · rw [List.length_append]
    exact Nat.le_add_right_of_le (by decide)

theorem requestPut_hostname : ∃ tail, REQUEST_PUT s p h n =
    "PUT ".toList ++ s ++ p ++ " HTTP/1.1".toList ++ EOL ++ "Host: ".toList ++ h ++ '\r' :: tail ∧
    2 ≤ tail.length := by
  refine ⟨'\n' :: ("Accept-Encoding: identity".toList ++ (EOL ++ ("Content-Type: ".toList ++
    (DATA_NATIVE ++ (EOL ++ ("Content-Length: ".toList ++
    (Nat.toDigits 10 n ++ (EOL ++ EOL)))))))), ?_, ?_⟩
  · unfold REQUEST_PUT
    simp only [List.append_assoc, EOL, List.cons_append, List.nil_append]
  · rw [List.length_cons, List.length_append]
    exact Nat.succ_le_succ (Nat.le_add_right_of_le (by decide))

/-- The header up to the length of the body. -/
def beforeLength (s p h : Text) : Text :=
  "PUT ".toList ++ s ++ p ++ " HTTP/1.1".toList ++ EOL ++ "Host: ".toList ++ h ++ EOL ++
    "Accept-Encoding: identity".toList ++ EOL ++ "Content-Type: ".toList ++ DATA_NATIVE ++ EOL ++
    "Content-Length: ".toList

theorem requestPut_length : REQUEST_PUT s p h n =
    beforeLength s p h ++ Nat.toDigits 10 n ++ '\r' :: ['\n', '\r', '\n'] := by
  unfold REQUEST_PUT beforeLength
  simp only [List.append_assoc, EOL, List.cons_append, List.nil_append]

theorem requestPut_last : REQUEST_PUT s p h n =
    (beforeLength s p h ++ Nat.toDigits 10 n ++ ['\r', '\n', '\r']) ++ ['\n'] := by
  rw [requestPut_length]
  simp only [List.append_assoc, List.cons_append, List.nil_append]

theorem valueText_last : valueText v = VALUE_OPEN ++ v ++ ['\x7d'] := rfl

theorem length_valueText : (valueText v).length = VALUE_OPEN.length + v.length + 1 := by
  rw [valueText_last, List.length_append, List.length_append, List.length_singleton]

end Format

section Framing

variable {version : ApiVersion} {hostname param value : Text} {sys : Sys}

/-- The text of the body as `put` formats it. -/
def formattedBody (value : Text) : Text := if value = [] then [] else valueText (cstr value)

/-- The text of the header as `put` formats it. -/
def formattedHeader (version : ApiVersion) (hostname : Text) (sys : Sys) (param value : Text) :
    Text :=
  REQUEST_PUT (sysStr version sys) (cstr param) (cstr hostname) (formattedBody value).length

theorem value_copied
    (h : (put version hostname sys param value).valueLen ≤
      (put version hostname sys param value).value.written.length) :
    (put version hostname sys param value).valueLen = (formattedBody value).length ∧
      (formattedBody value).length ≤ MAX_BUF_SIZE ∧
      memcpy (put version hostname sys param value).value.written
        (put version hostname sys param value).valueLen =
          (copied MAX_BUF_SIZE (formattedBody value)).map some := by
  unfold Request.valueLen put formattedBody at *
  by_cases hv : value = []
  · simp [hv, sizeT, memcpy, copied, MAX_BUF_SIZE]
  · simp only [if_neg hv] at h ⊢
    exact memcpy_snprintf (by decide) (by decide) h

theorem header_copied
    (h : (put version hostname sys param value).headerLen ≤
      (put version hostname sys param value).header.written.length)
    (hv : (put version hostname sys param value).valueLen = (formattedBody value).length) :
    (formattedHeader version hostname sys param value).length ≤ MAX_BUF_SIZE ∧
      memcpy (put version hostname sys param value).header.written
        (put version hostname sys param value).headerLen =
          (copied MAX_BUF_SIZE (formattedHeader version hostname sys param value)).map some := by
  rw [formattedHeader]
  rw [← hv]
  exact (memcpy_snprintf (by decide) (by decide) h).2

/-- The request as texts, when every byte is copied from what was formatted. -/
theorem framed_iff_copied : Framed (put version hostname sys param value) (sysStr version sys)
      param hostname value ↔
    (put version hostname sys param value).headerLen ≤
        (put version hostname sys param value).header.written.length ∧
      (put version hostname sys param value).valueLen ≤
        (put version hostname sys param value).value.written.length ∧
      copied MAX_BUF_SIZE (formattedHeader version hostname sys param value) ++
          copied MAX_BUF_SIZE (formattedBody value) =
        REQUEST_PUT (sysStr version sys) param hostname (body value).length ++ body value := by
  have hdata : (put version hostname sys param value).data =
      memcpy (put version hostname sys param value).header.written
          (put version hostname sys param value).headerLen ++
        memcpy (put version hostname sys param value).value.written
          (put version hostname sys param value).valueLen := rfl
  constructor
  · intro h
    obtain ⟨hlen, -, hv⟩ := value_copied h.value_inside
    obtain ⟨-, hh⟩ := header_copied h.header_inside hlen
    refine ⟨h.header_inside, h.value_inside, map_some_injective ?_⟩
    rw [← h.data, hdata, hh, hv, List.map_append]
  · rintro ⟨hheader, hvalue, htext⟩
    obtain ⟨hlen, -, hv⟩ := value_copied hvalue
    obtain ⟨-, hh⟩ := header_copied hheader hlen
    refine ⟨?_, hheader, hvalue⟩
    rw [hdata, hh, hv, ← List.map_append, htext]

/-- The header shows the whole name of the parameter, with what follows it. -/
theorem param_of_copied
    (hmax : (formattedHeader version hostname sys param value).length ≤ MAX_BUF_SIZE)
    (htext : copied MAX_BUF_SIZE (formattedHeader version hostname sys param value) ++
        copied MAX_BUF_SIZE (formattedBody value) =
      REQUEST_PUT (sysStr version sys) param hostname (body value).length ++ body value) :
    NUL ∉ param := by
  rw [formattedHeader] at hmax htext
  obtain ⟨tail, hform, htail⟩ := requestPut_param (s := sysStr version sys)
    (p := cstr param) (h := cstr hostname) (n := (formattedBody value).length)
  obtain ⟨tail', hwhole, -⟩ := requestPut_param (s := sysStr version sys) (p := param)
    (h := hostname) (n := (body value).length)
  rw [hform] at hmax htext
  rw [hwhole, List.append_assoc (_ ++ param)] at htext
  refine not_mem_of_copied (by decide) ?_ htext
  simp only [MAX_BUF_SIZE, List.length_append, List.length_cons] at hmax ⊢
  omega

theorem hostname_of_copied (hp : NUL ∉ param)
    (hmax : (formattedHeader version hostname sys param value).length ≤ MAX_BUF_SIZE)
    (htext : copied MAX_BUF_SIZE (formattedHeader version hostname sys param value) ++
        copied MAX_BUF_SIZE (formattedBody value) =
      REQUEST_PUT (sysStr version sys) param hostname (body value).length ++ body value) :
    NUL ∉ hostname := by
  rw [formattedHeader, cstr_of_not_mem hp] at hmax htext
  obtain ⟨tail, hform, htail⟩ := requestPut_hostname (s := sysStr version sys)
    (p := param) (h := cstr hostname) (n := (formattedBody value).length)
  obtain ⟨tail', hwhole, -⟩ := requestPut_hostname (s := sysStr version sys) (p := param)
    (h := hostname) (n := (body value).length)
  rw [hform] at hmax htext
  rw [hwhole, List.append_assoc (_ ++ hostname)] at htext
  refine not_mem_of_copied (by decide) ?_ htext
  simp only [MAX_BUF_SIZE, List.length_append, List.length_cons] at hmax ⊢
  omega

/-- The header shows the length of the body only if the body was formatted whole. -/
theorem formattedBody_of_copied
    (hmax : (REQUEST_PUT (sysStr version sys) param hostname (formattedBody value).length).length ≤
      MAX_BUF_SIZE)
    (htext : copied MAX_BUF_SIZE
          (REQUEST_PUT (sysStr version sys) param hostname (formattedBody value).length) ++
        copied MAX_BUF_SIZE (formattedBody value) =
      REQUEST_PUT (sysStr version sys) param hostname (body value).length ++ body value) :
    NUL ∉ value := by
  rw [requestPut_length] at hmax
  simp only [MAX_BUF_SIZE, List.length_append, List.length_cons] at hmax
  have hn : (formattedBody value).length = (body value).length := by
    rw [requestPut_length, requestPut_length] at htext
    obtain ⟨w, hw⟩ := copied_append_cons (n := MAX_BUF_SIZE) (c := '\r') (u := ['\n', '\r', '\n'])
      (t := beforeLength (sysStr version sys) param hostname ++
        Nat.toDigits 10 (formattedBody value).length)
      (by simp only [MAX_BUF_SIZE, List.length_append]; omega)
    rw [hw] at htext
    simp only [List.append_assoc, List.cons_append] at htext
    exact digits_injective (by decide) (List.append_cancel_left htext)
  intro hmem
  have hne : value ≠ [] := List.ne_nil_of_mem hmem
  have hlt := length_cstr_lt hmem
  rw [formattedBody, body, if_neg hne, if_neg hne, length_valueText, length_valueText] at hn
  omega

theorem formattedBody_of_not_mem (h : NUL ∉ value) : formattedBody value = body value := by
  rw [formattedBody, body, cstr_of_not_mem h]

theorem fits_of_copied (hvmax : (formattedBody value).length ≤ MAX_BUF_SIZE)
    (hhmax : (formattedHeader version hostname sys param value).length ≤ MAX_BUF_SIZE)
    (htext : copied MAX_BUF_SIZE (formattedHeader version hostname sys param value) ++
        copied MAX_BUF_SIZE (formattedBody value) =
      REQUEST_PUT (sysStr version sys) param hostname (body value).length ++ body value) :
    Fits (sysStr version sys) param hostname value := by
  have hp := param_of_copied hhmax htext
  have hh := hostname_of_copied hp hhmax htext
  rw [formattedHeader, cstr_of_not_mem hp, cstr_of_not_mem hh] at hhmax htext
  have hv : NUL ∉ value := formattedBody_of_copied hhmax htext
  rw [formattedBody_of_not_mem hv] at hhmax hvmax htext
  have hfits : (REQUEST_PUT (sysStr version sys) param hostname (body value).length).length <
      MAX_BUF_SIZE := by
    rw [requestPut_last] at hhmax htext ⊢
    rw [List.append_assoc _ _ (body value), List.singleton_append] at htext
    rw [List.length_append, List.length_singleton] at hhmax ⊢
    exact length_lt_of_copied (by decide) hhmax htext
  refine ⟨hp, hh, hv, hfits, ?_⟩
  rw [copied_of_lt hfits] at htext
  have htext := List.append_cancel_left htext
  by_cases hne : value = []
  · rw [body, if_pos hne]
    decide
  · rw [body, if_neg hne, valueText_last] at htext hvmax ⊢
    rw [List.length_append, List.length_singleton] at hvmax ⊢
    exact length_lt_of_copied (c := '\x7d') (u := []) (by decide) hvmax
      (by rw [List.append_nil, htext])

theorem valueLen_of_fits (h : Fits (sysStr version sys) param hostname value) :
    (put version hostname sys param value).valueLen = (body value).length ∧
      (put version hostname sys param value).valueLen ≤
        (put version hostname sys param value).value.written.length := by
  have hfits := h.body_fits
  rw [← formattedBody_of_not_mem h.value_text] at hfits ⊢
  unfold Request.valueLen put formattedBody at *
  by_cases hv : value = []
  · simp [hv, sizeT]
  · simp only [if_neg hv] at hfits ⊢
    exact ⟨sizeT_returned_of_lt (Nat.lt_trans hfits (by decide)),
      returned_le_written hfits (by decide)⟩

/-- A request is framed exactly when its texts are C strings and fit in the buffers. -/
theorem put_framed_iff (version : ApiVersion) (hostname : Text) (sys : Sys)
    (param value : Text) :
    Framed (put version hostname sys param value) (sysStr version sys) param hostname value ↔
      Fits (sysStr version sys) param hostname value := by
  rw [framed_iff_copied]
  constructor
  · rintro ⟨hheader, hvalue, htext⟩
    obtain ⟨hlen, hvmax, -⟩ := value_copied hvalue
    obtain ⟨hhmax, -⟩ := header_copied hheader hlen
    exact fits_of_copied hvmax hhmax htext
  · intro h
    obtain ⟨hlen, hvalue⟩ := valueLen_of_fits h
    have hbody := formattedBody_of_not_mem h.value_text
    have hheader : formattedHeader version hostname sys param value =
        REQUEST_PUT (sysStr version sys) param hostname (body value).length := by
      rw [formattedHeader, cstr_of_not_mem h.param_text, cstr_of_not_mem h.hostname_text, hbody]
    refine ⟨?_, hvalue, ?_⟩
    · have hfits := h.header_fits
      rw [← hheader, formattedHeader, hbody, ← hlen] at hfits
      exact returned_le_written hfits (by decide)
    · rw [hheader, hbody, copied_of_lt h.header_fits, copied_of_lt h.body_fits]

end Framing

/-- A header appendix of 300 letters, as the record allows. -/
def longAppendix : Text := '"' :: (List.replicate 300 'a' ++ ['"'])

/-- Of the body of a long value more bytes are copied than its buffer holds. -/
theorem long_value_not_framed :
    ¬ ∀ (version : ApiVersion) (hostname : Text) (sys : Sys) (param value : Text),
      NUL ∉ hostname → NUL ∉ param → NUL ∉ value →
      Framed (put version hostname sys param value) (sysStr version sys) param hostname value := by
  intro h
  have hframed := h .v1_8_0 "eiger".toList .streamConfig "header_appendix".toList longAppendix
    (by decide +kernel) (by decide +kernel) (by decide +kernel)
  exact absurd hframed.value_inside (by decide +kernel)

end RestPut
