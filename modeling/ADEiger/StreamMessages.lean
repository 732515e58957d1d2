import ADEiger.StreamFraming

/-! The messages of a series and what StreamAPI makes of them.
The detector sends a header, its images and an end. The parts that describe something are JSON
documents; those of the detail level, the data, the times and the appendices are any bytes. -/
namespace StreamFraming

open CString (Text)
open Frozen (JsonToken findJsonToken parseJson)
open StreamApi (HeaderDetail Err)
open Json (Member Element HasMember)

/-- A part that the parser has enough tokens for. -/
structure Message (bytes : Text) (ms : List Member) : Prop where
  document : Json.Document bytes ms
  fits : (parseJson MAX_JSON_TOKENS bytes).isSome

/-- The member is a string that needs no escapes. -/
def HasText (ms : List Member) (name t : Text) : Prop :=
  HasMember ms name (Json.quoted t) ∧ Json.Plain t

/-- The member is a number that `size_t` can hold. -/
def HasSize (ms : List Member) (name : Text) (n : ℕ) : Prop :=
  HasMember ms name (Nat.toDigits 10 n) ∧ n < 2 ^ 64

def arrayText (es : List Element) : Text := '[' :: (Json.commas (es.map Element.text) ++ [']'])

/-- The member is an array of the two numbers. -/
def HasDims (ms : List Member) (name : Text) (x y : ℕ) : Prop :=
  ∃ ex ey : Element, HasMember ms name (arrayText [ex, ey]) ∧
    (ex.value = Nat.toDigits 10 x ∧ ey.value = Nat.toDigits 10 y) ∧ (x < 2 ^ 64 ∧ y < 2 ^ 64) ∧
    ∀ e ∈ [ex, ey], Json.Ws e.before ∧ Json.Ws e.after

def LacksMember (ms : List Member) (name : Text) : Prop := ∀ m ∈ ms, m.key ≠ name

def detailText : HeaderDetail → Text
  | .none => "none".toList
  | .basic => "basic".toList
  | .all => "all".toList

/-- The header message after `delay` seconds; `more` are the parts of the detail level. -/
structure HeaderMessage where
  delay : ℕ
  detail : HeaderDetail
  first : Text
  more : List Text
  members : List Member
  htype : Text
  series : ℕ
  message : Message first members
  hasHtype : HasText members "htype".toList htype
  isHeader : "dheader".toList.isPrefixOf htype = true
  hasSeries : HasSize members "series".toList series
  hasDetail : HasText members "header_detail".toList (detailText detail)
  parts : more.length = detail.skip

inductive PixelType where
  | uint8 | uint16 | uint32
  deriving DecidableEq, Repr

def PixelType.text : PixelType → Text
  | .uint8 => "uint8".toList
  | .uint16 => "uint16".toList
  | .uint32 => "uint32".toList

def PixelType.dataType : PixelType → DataType
  | .uint8 => .uint8
  | .uint16 => .uint16
  | .uint32 => .uint32

def PixelType.elemSize : PixelType → ℕ
  | .uint8 => 1
  | .uint16 => 2
  | .uint32 => 4

/-- An image message: header, shape, data and times. -/
structure Image where
  delay : ℕ
  header : Text
  shape : Text
  data : Text
  times : Text
  headerMembers : List Member
  htype : Text
  series : ℕ
  frame : ℕ
  headerMessage : Message header headerMembers
  hasHtype : HasText headerMembers "htype".toList htype
  isImage : "dimage".toList.isPrefixOf htype = true
  htypeLength : htype.length ≤ 64
  hasSeries : HasSize headerMembers "series".toList series
  hasFrame : HasSize headerMembers "frame".toList frame
  noShape : LacksMember headerMembers "shape".toList
  shapeMembers : List Member
  x : ℕ
  y : ℕ
  pixelType : PixelType
  encoding : Text
  size : ℕ
  shapeMessage : Message shape shapeMembers
  hasShape : HasDims shapeMembers "shape".toList x y
  hasType : HasText shapeMembers "type".toList pixelType.text
  hasEncoding : HasText shapeMembers "encoding".toList encoding
  encodingLength : encoding.length ≤ 32
  hasSize : HasSize shapeMembers "size".toList size

/-- The message at the end of a series. -/
structure EndMessage where
  delay : ℕ
  bytes : Text
  members : List Member
  htype : Text
  message : Message bytes members
  hasHtype : HasText members "htype".toList htype
  isEnd : "dseries_end".toList.isPrefixOf htype = true
  htypeLength : htype.length ≤ 64
  noShape : LacksMember members "shape".toList

section Sending

def waits (delay : ℕ) : List Item := List.replicate delay .wait

/-- The part that follows when there is an appendix. -/
def appendix (text : Text) : List Item := if text = [] then [] else [.part text]

theorem appendix_append (text : Text) (s : List Item) :
    appendix text ++ s = if text = [] then s else .part text :: s := by
  rw [appendix]
  split_ifs <;> rfl

def HeaderMessage.items (h : HeaderMessage) (headerAppendix : Text) : List Item :=
  waits h.delay ++ .part h.first :: (h.more.map .part ++ appendix headerAppendix)

def Image.items (im : Image) (imageAppendix : Text) : List Item :=
  waits im.delay ++ .part im.header :: .part im.shape :: .part im.data :: .part im.times ::
    appendix imageAppendix

def EndMessage.items (e : EndMessage) : List Item := waits e.delay ++ [.part e.bytes]

/-- What the shape part of an image says. -/
def Image.info (im : Image) : Shape :=
  ⟨im.x, im.y, im.pixelType.dataType, im.pixelType.elemSize, im.encoding, im.size⟩

/-- The array of an image, the `k`th of its series. -/
def Image.array (env : Env) (k : ℕ) (im : Image) : NDArray :=
  (readData env k im.info im.data).publish env k

end Sending

section Reading

variable {bytes name t : Text} {ms : List Member} {tokens : List JsonToken}

theorem Message.parsed (h : Message bytes ms) :
    ∃ tokens, parseJson MAX_JSON_TOKENS bytes = some tokens :=
  Option.isSome_iff_exists.mp h.fits

theorem find_text (hname : Frozen.OneName name) (hdoc : Json.Document bytes ms)
    (htoks : parseJson MAX_JSON_TOKENS bytes = some tokens)
    (hm : HasText ms name t) :
    ∃ more, findJsonToken tokens name = some (⟨.string, t, 0⟩ :: more) :=
  Frozen.findJsonToken_eq hname hdoc (by decide) htoks hm.1 (Frozen.parsesTo_string hm.2.decodes)

theorem readString_eq (hname : Frozen.OneName name) (hdoc : Json.Document bytes ms)
    (htoks : parseJson MAX_JSON_TOKENS bytes = some tokens)
    (hm : HasText ms name t) : readString tokens name = some t := by
  obtain ⟨more, hmore⟩ := find_text hname hdoc htoks hm
  rw [readString, hmore]

theorem readChars_eq (hname : Frozen.OneName name) (hdoc : Json.Document bytes ms)
    (htoks : parseJson MAX_JSON_TOKENS bytes = some tokens)
    (hm : HasText ms name t) {size : ℕ} (hsize : t.length ≤ size) :
    readChars tokens name size = some t := by
  obtain ⟨more, hmore⟩ := find_text hname hdoc htoks hm
  rw [readChars, hmore]
  exact if_neg (Nat.not_lt.mpr hsize)

theorem scanSize_toDigits {k : ℕ} (hk : k < 2 ^ 64) : scanSize (Nat.toDigits 10 k) = some k := by
  have hdigit : ∀ c ∈ Nat.toDigits 10 k, c.isDigit = true := fun c hc =>
    Nat.isDigit_of_mem_toDigits (by decide) (by decide) hc
  have hvalue : CString.digitsValue (Nat.toDigits 10 k) = k := by
    have h := Nat.ofDigitChars_ten_toDigits (n := k)
    rwa [Nat.ofDigitChars_eq_foldl] at h
  have hlt : (k : ℤ).natAbs < 2 ^ 64 := hk
  rw [scanSize, EigerParams.scanInt_digits Nat.toDigits_ne_nil hdigit, hvalue,
    Option.map_some, if_pos hlt]
  congr 1
  omega

theorem readSize_eq (hname : Frozen.OneName name) (hdoc : Json.Document bytes ms)
    (htoks : parseJson MAX_JSON_TOKENS bytes = some tokens)
    {k : ℕ} (hm : HasSize ms name k) : readSize tokens name = some k := by
  obtain ⟨more, hmore⟩ :=
    Frozen.findJsonToken_eq hname hdoc (by decide) htoks hm.1 (Frozen.parsesTo_number (Json.number_toDigits k))
  rw [readSize, hmore]
  exact scanSize_toDigits hm.2

theorem readSizes_eq (hname : Frozen.OneName name) (hdoc : Json.Document bytes ms)
    (htoks : parseJson MAX_JSON_TOKENS bytes = some tokens)
    {x y : ℕ} (hm : HasDims ms name x y) : readSizes tokens name 3 = some [x, y] := by
  obtain ⟨ex, ey, hm, ⟨hex, hey⟩, ⟨hx, hy⟩, hws⟩ := hm
  have hnumbers : ∀ e ∈ [ex, ey], Json.Number e.value := by
    simp only [List.forall_mem_cons, hex, hey]
    exact ⟨Json.number_toDigits x, Json.number_toDigits y, nofun⟩
  have hinside : Frozen.ElementTokens [ex, ey] [⟨.number, ex.value, 0⟩, ⟨.number, ey.value, 0⟩] :=
    .cons (Frozen.parsesTo_number (hnumbers ex (by simp)))
      (.cons (Frozen.parsesTo_number (hnumbers ey (by simp))) .nil)
  have harray := Frozen.parsesTo_array _ fun rest fuel hfuel =>
    Frozen.parseElements_elements rest hinside hws (fun e he => .number (hnumbers e he)) hfuel
  obtain ⟨more, hmore⟩ := Frozen.findJsonToken_eq hname hdoc (by decide) htoks hm harray
  rw [readSizes, hmore]
  simp [hex, hey, scanSize_toDigits hx, scanSize_toDigits hy]

theorem readSizes_none (hname : Frozen.OneName name) (hdoc : Json.Document bytes ms)
    (htoks : parseJson MAX_JSON_TOKENS bytes = some tokens)
    (hms : LacksMember ms name) (size : ℕ) : readSizes tokens name size = none := by
  rw [readSizes, Frozen.findJsonToken_none hname hdoc (by decide) htoks hms]

theorem readHeader_eq (h : HeaderMessage) : readHeader h.first = .ok (h.series, h.detail.skip) := by
  obtain ⟨tokens, htoks⟩ := h.message.parsed
  have hdoc := h.message.document
  rw [readHeader, htoks]
  simp only [readString_eq (by decide) hdoc htoks h.hasHtype, h.isHeader, if_true,
    readSize_eq (by decide) hdoc htoks h.hasSeries, readString_eq (by decide) hdoc htoks h.hasDetail]
  cases h.detail <;> rfl

theorem readImageHeader_image (im : Image) :
    readImageHeader im.header = .image im.series im.frame := by
  obtain ⟨tokens, htoks⟩ := im.headerMessage.parsed
  have hdoc := im.headerMessage.document
  have hnot : "dseries_end".toList.isPrefixOf im.htype = false := by
    obtain ⟨rest, hrest⟩ := List.isPrefixOf_iff_prefix.mp im.isImage
    rw [← hrest]
    rfl
  rw [readImageHeader, htoks]
  simp only [readChars_eq (by decide) hdoc htoks im.hasHtype im.htypeLength, Option.getD_some, hnot,
    readSize_eq (by decide) hdoc htoks im.hasSeries, readSize_eq (by decide) hdoc htoks im.hasFrame]
  rfl

theorem readImageHeader_end (e : EndMessage) : readImageHeader e.bytes = .seriesEnd := by
  obtain ⟨tokens, htoks⟩ := e.message.parsed
  rw [readImageHeader, htoks]
  simp only [readChars_eq (by decide) e.message.document htoks e.hasHtype e.htypeLength, Option.getD_some,
    e.isEnd, if_true]

theorem readShape_image (im : Image) : readShape im.shape = some im.info := by
  obtain ⟨tokens, htoks⟩ := im.shapeMessage.parsed
  have hdoc := im.shapeMessage.document
  have htype : im.pixelType.text.length ≤ 8 := by cases im.pixelType <;> decide
  have hdata : readDataType im.pixelType.text =
      some (im.pixelType.dataType, im.pixelType.elemSize) := by
    cases im.pixelType <;> decide
  rw [readShape, htoks]
  simp only [readSizes_eq (by decide) hdoc htoks im.hasShape, readChars_eq (by decide) hdoc htoks im.hasType htype,
    readChars_eq (by decide) hdoc htoks im.hasEncoding im.encodingLength, readSize_eq (by decide) hdoc htoks im.hasSize,
    hdata]
  rfl

theorem readShape_none (h : Message bytes ms) (hms : LacksMember ms "shape".toList) :
    readShape bytes = none := by
  obtain ⟨tokens, htoks⟩ := h.parsed
  rw [readShape, htoks]
  simp only [readSizes_none (by decide) h.document htoks hms]

end Reading

section Loop

variable {env : Env} {k : ℕ} {s s' rest : List Item} {bytes : Text} {images : List Image}
  {headerAppendix imageAppendix : Text}

theorem recv_waits (delay : ℕ) (bytes : Text) (s : List Item) :
    recv (waits delay ++ .part bytes :: s) = some (bytes, s) := by
  induction delay with
  | zero => rfl
  | succ delay ih => exact ih

/-- getHeader takes the header and the parts of its detail level, and leaves an appendix. -/
theorem headerLoop_header (h : HeaderMessage) (headerAppendix : Text) (s : List Item) :
    headerLoop (h.items headerAppendix ++ s) = some (true, appendix headerAppendix ++ s) := by
  have hget : getHeader (.part h.first :: (h.more.map .part ++ appendix headerAppendix ++ s)) =
      some (.ok h.series, appendix headerAppendix ++ s) := by
    have hskip : (h.more.map Item.part).length = h.detail.skip := by
      rw [List.length_map, h.parts]
    simp only [getHeader, poll, recv, readHeader_eq, skipParts_eq]
    rw [List.append_assoc, ← hskip, List.drop_left]
  rw [HeaderMessage.items, List.append_assoc, List.cons_append]
  generalize h.delay = delay
  induction delay with
  | zero =>
    rw [waits, List.replicate_zero, List.nil_append, headerLoop_eq, hget]
  | succ delay ih =>
    rw [headerLoop_eq]
    exact ih

theorem frameLoop_end (hs : recv s = some (bytes, s')) (hend : readImageHeader bytes = .seriesEnd) :
    frameLoop env k s = ⟨.ended, [], s'⟩ := by
  have hwait : waitFrame s = some (.seriesEnd, s') := by rw [waitFrame, hs, ← hend]
  rw [frameLoop_eq, hwait]

theorem frameLoop_failed (hs : recv s = some (bytes, s'))
    (hfail : readImageHeader bytes = .failed) : frameLoop env k s = ⟨.failed, [], s'⟩ := by
  have hwait : waitFrame s = some (.failed, s') := by rw [waitFrame, hs, ← hfail]
  rw [frameLoop_eq, hwait]

theorem frameLoop_image {series frame : ℕ} {a : Option NDArray} {s'' : List Item}
    (hs : recv s = some (bytes, s')) (himage : readImageHeader bytes = .image series frame)
    (hframe : getFrame env k s' = some (a, s'')) :
    frameLoop env k s = { frameLoop env (k + 1) s'' with
      frames := a.map (·.publish env k) :: (frameLoop env (k + 1) s'').frames } := by
  have hwait : waitFrame s = some (.image series frame, s') := by rw [waitFrame, hs, ← himage]
  rw [frameLoop_eq, hwait]
  dsimp only
  rw [hframe]

/-- A part in the place of an image header, with no shape after it, upsets the series: the loop
fails, or ends before the rest, or has a frame without an array. -/
theorem frameLoop_stray (stray : Text) {frames : List NDArray} (hs : recv s = some (bytes, s'))
    (hshape : readShape bytes = none) (hrest : rest.length < s.length) :
    frameLoop env k (.part stray :: s) ≠ ⟨.ended, frames.map some, rest⟩ := by
  have hstray : recv (.part stray :: s) = some (stray, s) := rfl
  intro h
  cases hread : readImageHeader stray with
  | failed =>
    rw [frameLoop_failed hstray hread] at h
    cases congrArg Series.outcome h
  | seriesEnd =>
    rw [frameLoop_end hstray hread] at h
    have hsame : s = rest := congrArg Series.rest h
    rw [hsame] at hrest
    exact Nat.lt_irrefl _ hrest
  | image series frame =>
    have hframe : getFrame env k s = some (none, s') := by
      rw [getFrame, hs]
      dsimp only
      rw [hshape]
    rw [frameLoop_image hstray hread hframe] at h
    have hframes := congrArg Series.frames h
    cases frames with
    | nil => cases hframes
    | cons a frames => cases (List.cons.inj hframes).1

/-- What comes next in a series, behind its header and any of its images, has no shape. -/
theorem next_part (images : List Image) (imageAppendix : Text) (e : EndMessage)
    (rest : List Item) : ∃ bytes s',
      recv (images.flatMap (·.items imageAppendix) ++ (e.items ++ rest)) = some (bytes, s') ∧
      readShape bytes = none := by
  cases images with
  | nil =>
    refine ⟨e.bytes, rest, ?_, readShape_none e.message e.noShape⟩
    rw [List.flatMap_nil, List.nil_append, EndMessage.items, List.append_assoc,
      List.singleton_append, recv_waits]
  | cons im images =>
    refine ⟨im.header, .part im.shape :: .part im.data :: .part im.times ::
      (appendix imageAppendix ++ (images.flatMap (·.items imageAppendix) ++ (e.items ++ rest))),
      ?_, readShape_none im.headerMessage im.noShape⟩
    rw [← recv_waits im.delay, List.flatMap_cons, Image.items]
    simp only [List.append_assoc, List.cons_append]

theorem length_rest (images : List Image) (imageAppendix : Text) (e : EndMessage)
    (rest : List Item) :
    rest.length < (images.flatMap (·.items imageAppendix) ++ (e.items ++ rest)).length := by
  simp only [EndMessage.items, List.length_append, List.length_cons]
  omega

/-- The arrays of images, from the `k`th of the series on. -/
def arrays (env : Env) : ℕ → List Image → List NDArray
  | _, [] => []
  | k, im :: images => im.array env k :: arrays env (k + 1) images

/-- The pool has an array for each image, from the `k`th of the series on. -/
def Allocates (env : Env) (k : ℕ) (images : List Image) : Prop :=
  ∀ j im, images[j]? = some im → env.alloc (k + j) im.info = true

theorem allocates_cons {im : Image} :
    Allocates env k (im :: images) ↔
      env.alloc k im.info = true ∧ Allocates env (k + 1) images := by
  constructor
  · intro h
    refine ⟨h 0 im rfl, fun j im' him => ?_⟩
    rw [Nat.add_right_comm]
    exact h (j + 1) im' him
  · rintro ⟨him, h⟩ j im' hj
    cases j with
    | zero =>
      obtain rfl := Option.some.inj hj
      exact him
    | succ j =>
      rw [← Nat.add_assoc, Nat.add_right_comm]
      exact h j im' hj

theorem getFrame_image (env : Env) (k : ℕ) (im : Image) (s : List Item) :
    getFrame env k (.part im.shape :: .part im.data :: .part im.times :: s) =
      if env.alloc k im.info = true then some (some (readData env k im.info im.data), s)
      else some (none, .part im.data :: .part im.times :: s) := by
  simp only [getFrame, recv, readShape_image]
  cases env.alloc k im.info <;> rfl

theorem frames_cons_iff (r : Series) (a : Option NDArray) (o : Outcome)
    (frames : List (Option NDArray)) :
    { r with frames := a :: r.frames } = (⟨o, a :: frames, rest⟩ : Series) ↔
      r = ⟨o, frames, rest⟩ := by
  obtain ⟨o', frames', rest'⟩ := r
  simp

/-- The images and the end of a series, from the `k`th image on. -/
theorem frameLoop_images_iff (e : EndMessage) :
    frameLoop env k (images.flatMap (·.items imageAppendix) ++ (e.items ++ rest)) =
        ⟨.ended, (arrays env k images).map some, rest⟩ ↔
      (imageAppendix = [] ∨ images = []) ∧ Allocates env k images := by
  induction images generalizing k with
  | nil =>
    have hend : recv (e.items ++ rest) = some (e.bytes, rest) := by
      rw [EndMessage.items, List.append_assoc, List.singleton_append, recv_waits]
    rw [List.flatMap_nil, List.nil_append, frameLoop_end hend (readImageHeader_end e)]
    exact ⟨fun _ => ⟨.inr rfl, fun j im him => by cases him⟩, fun _ => rfl⟩
  | cons im images ih =>
    generalize hmore : images.flatMap (·.items imageAppendix) ++ (e.items ++ rest) = more at ih
    have hitems : (im :: images).flatMap (·.items imageAppendix) ++ (e.items ++ rest) =
        waits im.delay ++ .part im.header :: .part im.shape :: .part im.data :: .part im.times ::
          (appendix imageAppendix ++ more) := by
      rw [← hmore, List.flatMap_cons, Image.items]
      simp only [List.append_assoc, List.cons_append]
    have hrecv := recv_waits im.delay im.header (.part im.shape :: .part im.data ::
      .part im.times :: (appendix imageAppendix ++ more))
    have hframe := getFrame_image env k im (appendix imageAppendix ++ more)
    rw [hitems, allocates_cons]
    by_cases halloc : env.alloc k im.info = true
    · rw [if_pos halloc] at hframe
      rw [frameLoop_image hrecv (readImageHeader_image im) hframe]
      refine (frames_cons_iff _ (some (im.array env k)) .ended
        ((arrays env (k + 1) images).map some)).trans ?_
      by_cases happendix : imageAppendix = []
      · rw [appendix_append, if_pos happendix, ih]
        exact ⟨fun h => ⟨.inl happendix, halloc, h.2⟩, fun h => ⟨.inl happendix, h.2.2⟩⟩
      · obtain ⟨bytes, s', hs, hshape⟩ := next_part images imageAppendix e rest
        have hlen := length_rest images imageAppendix e rest
        rw [hmore] at hs hlen
        rw [appendix_append, if_neg happendix]
        constructor
        · exact fun h => absurd h (frameLoop_stray imageAppendix hs hshape hlen)
        · rintro ⟨hnone | hnone, -⟩
          · exact absurd hnone happendix
          · cases hnone
    · rw [if_neg halloc] at hframe
      rw [frameLoop_image hrecv (readImageHeader_image im) hframe]
      constructor
      · intro h
        cases (List.cons.inj (congrArg Series.frames h)).1
      · exact fun h => absurd h.2.1 halloc

/-- A series is read part by part, every image to its array, exactly when no appendix comes
that is left in the socket and the pool does not run out. -/
theorem series_framed_iff (env : Env) (h : HeaderMessage) (images : List Image) (e : EndMessage)
    (headerAppendix imageAppendix : Text) (rest : List Item) :
    streamSeries env (h.items headerAppendix ++
        (images.flatMap (·.items imageAppendix) ++ (e.items ++ rest))) =
        ⟨.ended, (arrays env 0 images).map some, rest⟩ ↔
      headerAppendix = [] ∧ (imageAppendix = [] ∨ images = []) ∧ Allocates env 0 images := by
  rw [streamSeries, headerLoop_header]
  dsimp only
  by_cases happendix : headerAppendix = []
  · rw [appendix_append, if_pos happendix, frameLoop_images_iff]
    exact ⟨fun h => ⟨happendix, h⟩, fun h => h.2⟩
  · obtain ⟨bytes, s', hs, hshape⟩ := next_part images imageAppendix e rest
    have hlen := length_rest images imageAppendix e rest
    rw [appendix_append, if_neg happendix]
    exact ⟨fun h => absurd h (frameLoop_stray headerAppendix hs hshape hlen),
      fun h => absurd h.1 happendix⟩

end Loop

section Appendix

def dheader : List Member :=
  [Json.spaced "htype".toList (Json.quoted "dheader-1.0".toList),
   Json.spaced "series".toList ['7'],
   Json.spaced "header_detail".toList (Json.quoted "none".toList)]

def dimage : List Member :=
  [Json.spaced "htype".toList (Json.quoted "dimage-1.0".toList),
   Json.spaced "series".toList ['7'],
   Json.spaced "frame".toList ['0']]

def dimageShape : List Member :=
  [Json.spaced "htype".toList (Json.quoted "dimage_d-1.0".toList),
   Json.spaced "shape".toList (arrayText [⟨[], ['2'], []⟩, ⟨[], ['1'], []⟩]),
   Json.spaced "type".toList (Json.quoted "uint8".toList),
   Json.spaced "encoding".toList (Json.quoted "<".toList),
   Json.spaced "size".toList ['2']]

def dseriesEnd : List Member :=
  [Json.spaced "htype".toList (Json.quoted "dseries_end-1.0".toList),
   Json.spaced "series".toList ['7']]

theorem value_ascii {t : Text} (h : ∀ c ∈ t, Json.plainChar c = true ∧ c.toNat < 128) :
    Json.Value (Json.quoted t) := .string (Json.plain_ascii h).decodes

def headerMessage : HeaderMessage where
  delay := 0
  detail := .none
  first := Json.objectText dheader
  more := []
  members := dheader
  htype := "dheader-1.0".toList
  series := 7
  message := by
    refine ⟨Json.document_objectText (List.cons_ne_nil _ _) (by decide) ?_, by decide +kernel⟩
    simp only [dheader, List.forall_mem_cons]
    exact ⟨value_ascii (by decide), .number (Json.number_toDigits 7), value_ascii (by decide),
      nofun⟩
  hasHtype := ⟨by decide, Json.plain_ascii (by decide)⟩
  isHeader := by decide
  hasSeries := ⟨by decide, by decide⟩
  hasDetail := ⟨by decide, Json.plain_ascii (by decide)⟩
  parts := rfl

def image : Image where
  delay := 0
  header := Json.objectText dimage
  shape := Json.objectText dimageShape
  data := "ab".toList
  times := "12".toList
  headerMembers := dimage
  htype := "dimage-1.0".toList
  series := 7
  frame := 0
  headerMessage := by
    refine ⟨Json.document_objectText (List.cons_ne_nil _ _) (by decide) ?_, by decide +kernel⟩
    simp only [dimage, List.forall_mem_cons]
    exact ⟨value_ascii (by decide), .number (Json.number_toDigits 7),
      .number (Json.number_toDigits 0), nofun⟩
  hasHtype := ⟨by decide, Json.plain_ascii (by decide)⟩
  isImage := by decide
  htypeLength := by decide
  hasSeries := ⟨by decide, by decide⟩
  hasFrame := ⟨by decide, by decide⟩
  noShape := by unfold LacksMember; decide
  shapeMembers := dimageShape
  x := 2
  y := 1
  pixelType := .uint8
  encoding := "<".toList
  size := 2
  shapeMessage := by
    refine ⟨Json.document_objectText (List.cons_ne_nil _ _) (by decide) ?_, by decide +kernel⟩
    simp only [dimageShape, List.forall_mem_cons]
    refine ⟨value_ascii (by decide), .array (List.cons_ne_nil _ _) ?_ ?_, value_ascii (by decide),
      value_ascii (by decide), .number (Json.number_toDigits 2), nofun⟩
    · simp only [List.forall_mem_cons]
      exact ⟨⟨nofun, nofun⟩, ⟨nofun, nofun⟩, nofun⟩
    · simp only [List.forall_mem_cons]
      exact ⟨.number (Json.number_toDigits 2), .number (Json.number_toDigits 1), nofun⟩
  hasShape := by
    refine ⟨⟨[], ['2'], []⟩, ⟨[], ['1'], []⟩, by decide, ⟨by decide, by decide⟩,
      ⟨by decide, by decide⟩, ?_⟩
    simp only [List.forall_mem_cons]
    exact ⟨⟨nofun, nofun⟩, ⟨nofun, nofun⟩, nofun⟩
  hasType := ⟨by decide, Json.plain_ascii (by decide)⟩
  hasEncoding := ⟨by decide, Json.plain_ascii (by decide)⟩
  encodingLength := by decide
  hasSize := ⟨by decide, by decide⟩

def endMessage : EndMessage where
  delay := 0
  bytes := Json.objectText dseriesEnd
  members := dseriesEnd
  htype := "dseries_end-1.0".toList
  message := by
    refine ⟨Json.document_objectText (List.cons_ne_nil _ _) (by decide) ?_, by decide +kernel⟩
    simp only [dseriesEnd, List.forall_mem_cons]
    exact ⟨value_ascii (by decide), .number (Json.number_toDigits 7), nofun⟩
  hasHtype := ⟨by decide, Json.plain_ascii (by decide)⟩
  isEnd := by decide
  htypeLength := by decide
  noShape := by unfold LacksMember; decide

def plainEnv : Env where
  decompress _ := true
  signedData _ := false
  alloc _ _ := true
  lz4 _ _ := none
  bshuf _ _ _ := none

/-- The appendix `run 7` of the header is taken for the header of the image. -/
theorem header_appendix_not_skipped :
    ¬ ∀ (env : Env) (h : HeaderMessage) (images : List Image) (e : EndMessage)
      (headerAppendix imageAppendix : Text) (rest : List Item),
      (∀ k shape, env.alloc k shape = true) →
      streamSeries env (h.items headerAppendix ++
          (images.flatMap (·.items imageAppendix) ++ (e.items ++ rest))) =
        ⟨.ended, (arrays env 0 images).map some, rest⟩ := by
  intro h
  have hseries := h plainEnv headerMessage [image] endMessage "run 7".toList [] []
    (fun _ _ => rfl)
  have hfailed : (streamSeries plainEnv (headerMessage.items "run 7".toList ++
      ([image].flatMap (·.items []) ++ (endMessage.items ++ [])))).outcome = .failed := by
    decide +kernel
  rw [hseries] at hfailed
  cases hfailed

end Appendix

end StreamFraming
