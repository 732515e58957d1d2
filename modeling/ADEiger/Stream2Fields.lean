import ADEiger.Stream2

/-! The fields of the messages of Stream2, as tables.
The chain of comparisons with the keys looks up a table of slots: where a value is kept in the
message and how one is read. -/
namespace Stream2

open CString (Text)
open TinyCbor

/-- One value of a message; what is read of it can depend on what is there. -/
structure Slot (μ : Type) where
  key : Text
  State : Type
  Value : Type
  get : μ → State
  read : State → CborValue → Except Stream2Error (Value × CborValue)
  put : Value → μ → μ

section Lookup

variable {μ α : Type}

/-- A value that replaces what is there. -/
def Slot.of (key : Text) (read : CborValue → Except Stream2Error (α × CborValue))
    (put : α → μ → μ) : Slot μ :=
  ⟨key, Unit, α, fun _ => (), fun _ => read, put⟩

def Slot.parse (slot : Slot μ) (msg : μ) : CborValue → Except Stream2Error (μ × CborValue) :=
  store (slot.read (slot.get msg)) fun v => slot.put v msg

/-- The slot of a key; the value of a key without one is skipped. -/
def dispatch : List (Slot μ) → Text → μ → CborValue → Except Stream2Error (μ × CborValue)
  | [], _, msg => skip msg
  | slot :: slots, key, msg => if key = slot.key then slot.parse msg else dispatch slots key msg

theorem dispatch_known {slots : List (Slot μ)} {slot : Slot μ} (hslot : slot ∈ slots)
    (hkeys : (slots.map (·.key)).Nodup) : dispatch slots slot.key = slot.parse := by
  induction slots with
  | nil => cases hslot
  | cons first slots ih =>
    obtain ⟨hfirst, hkeys⟩ := List.nodup_cons.mp hkeys
    funext msg
    rw [dispatch]
    rcases List.mem_cons.mp hslot with rfl | hslot
    · rw [if_pos rfl]
    · have hne : slot.key ≠ first.key := by
        intro hkey
        exact hfirst (List.mem_map.mpr ⟨slot, hslot, hkey⟩)
      rw [if_neg hne, ih hslot hkeys]

theorem dispatch_unknown {slots : List (Slot μ)} {key : Text}
    (hkey : key ∉ slots.map (·.key)) : dispatch slots key = skip := by
  induction slots with
  | nil => rfl
  | cons first slots ih =>
    rw [List.map_cons, List.mem_cons, not_or] at hkey
    funext msg
    rw [dispatch, if_neg hkey.1, ih hkey.2]

/-- Every key either has a slot or is skipped. -/
theorem dispatch_cases {slots : List (Slot μ)} (hkeys : (slots.map (·.key)).Nodup) (key : Text) :
    (∃ slot ∈ slots, slot.key = key ∧ dispatch slots key = slot.parse) ∨
      key ∉ slots.map (·.key) ∧ dispatch slots key = skip := by
  by_cases hkey : key ∈ slots.map (·.key)
  · obtain ⟨slot, hslot, rfl⟩ := List.mem_map.mp hkey
    exact Or.inl ⟨slot, hslot, rfl, dispatch_known hslot hkeys⟩
  · exact Or.inr ⟨hkey, dispatch_unknown hkey⟩

end Lookup

section Tables

def startSlots : List (Slot StartMsg) :=
  [ .of "series_id".toList parseUint64 fun v msg => { msg with seriesId := v },
    .of "series_unique_id".toList parseTextString
      fun v msg => { msg with seriesUniqueId := some v },
    .of "arm_date".toList parseTextString fun v msg => { msg with armDate := some v },
    .of "beam_center_x".toList parseDouble fun v msg => { msg with beamCenterX := v },
    .of "beam_center_y".toList parseDouble fun v msg => { msg with beamCenterY := v },
    .of "channels".toList parseChannelNames fun v msg => { msg with channels := v },
    .of "count_time".toList parseDouble fun v msg => { msg with countTime := v },
    .of "countrate_correction_enabled".toList parseBool
      fun v msg => { msg with countrateCorrectionEnabled := v },
    .of "countrate_correction_lookup_table".toList parseTypedArray
      fun v msg => { msg with countrateCorrectionLookupTable := v.1 },
    .of "detector_description".toList parseTextString
      fun v msg => { msg with detectorDescription := some v },
    .of "detector_serial_number".toList parseTextString
      fun v msg => { msg with detectorSerialNumber := some v },
    .of "detector_translation".toList parseTranslation
      fun v msg => { msg with detectorTranslation := v },
    .of "flatfield".toList (parseChannels parseMultidimArray)
      fun v msg => { msg with flatfield := v },
    .of "flatfield_enabled".toList parseBool fun v msg => { msg with flatfieldEnabled := v },
    .of "frame_time".toList parseDouble fun v msg => { msg with frameTime := v },
    ⟨"goniometer".toList, Goniometer, Goniometer, (·.goniometer), parseGoniometer,
      fun v msg => { msg with goniometer := v }⟩,
    .of "image_dtype".toList parseTextString fun v msg => { msg with imageDtype := some v },
    .of "image_size_x".toList parseUint64 fun v msg => { msg with imageSizeX := v },
    .of "image_size_y".toList parseUint64 fun v msg => { msg with imageSizeY := v },
    .of "incident_energy".toList parseDouble fun v msg => { msg with incidentEnergy := v },
    .of "incident_wavelength".toList parseDouble
      fun v msg => { msg with incidentWavelength := v },
    .of "number_of_images".toList parseUint64 fun v msg => { msg with numberOfImages := v },
    .of "pixel_mask".toList (parseChannels parseMultidimArray)
      fun v msg => { msg with pixelMask := v },
    .of "pixel_mask_enabled".toList parseBool fun v msg => { msg with pixelMaskEnabled := v },
    .of "pixel_size_x".toList parseDouble fun v msg => { msg with pixelSizeX := v },
    .of "pixel_size_y".toList parseDouble fun v msg => { msg with pixelSizeY := v },
    .of "saturation_value".toList parseUint64 fun v msg => { msg with saturationValue := v },
    .of "sensor_material".toList parseTextString
      fun v msg => { msg with sensorMaterial := some v },
    .of "sensor_thickness".toList parseDouble fun v msg => { msg with sensorThickness := v },
    .of "threshold_energy".toList (parseChannels parseDouble)
      fun v msg => { msg with thresholdEnergy := v },
    .of "user_data".toList parseUserData fun v msg => { msg with userData := v },
    .of "virtual_pixel_interpolation_enabled".toList parseBool
      fun v msg => { msg with virtualPixelInterpolationEnabled := v } ]

def imageSlots : List (Slot ImageMsg) :=
  [ .of "series_id".toList parseUint64 fun v msg => { msg with seriesId := v },
    .of "series_unique_id".toList parseTextString
      fun v msg => { msg with seriesUniqueId := some v },
    .of "image_id".toList parseUint64 fun v msg => { msg with imageId := v },
    .of "real_time".toList parseArray2Uint64 fun v msg => { msg with realTime := v },
    .of "series_date".toList parseTextString fun v msg => { msg with seriesDate := some v },
    .of "start_time".toList parseArray2Uint64 fun v msg => { msg with startTime := v },
    .of "stop_time".toList parseArray2Uint64 fun v msg => { msg with stopTime := v },
    .of "user_data".toList parseUserData fun v msg => { msg with userData := v },
    .of "data".toList (parseChannels parseMultidimArray) fun v msg => { msg with data := v } ]

def endSlots : List (Slot EndMsg) :=
  [ .of "series_id".toList parseUint64 fun v msg => { msg with seriesId := v },
    .of "series_unique_id".toList parseTextString
      fun v msg => { msg with seriesUniqueId := some v } ]

def axisSlots : List (Slot GoniometerAxis) :=
  [ .of "increment".toList parseDouble fun v axis => { axis with increment := v },
    .of "start".toList parseDouble fun v axis => { axis with start := v } ]

def goniometerSlots : List (Slot Goniometer) :=
  [ ⟨"chi".toList, GoniometerAxis, GoniometerAxis, (·.chi), parseGoniometerAxis,
      fun v g => { g with chi := v }⟩,
    ⟨"kappa".toList, GoniometerAxis, GoniometerAxis, (·.kappa), parseGoniometerAxis,
      fun v g => { g with kappa := v }⟩,
    ⟨"omega".toList, GoniometerAxis, GoniometerAxis, (·.omega), parseGoniometerAxis,
      fun v g => { g with omega := v }⟩,
    ⟨"phi".toList, GoniometerAxis, GoniometerAxis, (·.phi), parseGoniometerAxis,
      fun v g => { g with phi := v }⟩,
    ⟨"two_theta".toList, GoniometerAxis, GoniometerAxis, (·.twoTheta), parseGoniometerAxis,
      fun v g => { g with twoTheta := v }⟩ ]

theorem startField_eq : startField = dispatch startSlots := rfl

theorem imageField_eq : imageField = dispatch imageSlots := rfl

theorem endField_eq : endField = dispatch endSlots := rfl

theorem startSlots_nodup : (startSlots.map (·.key)).Nodup := by decide +kernel

theorem imageSlots_nodup : (imageSlots.map (·.key)).Nodup := by decide +kernel

end Tables

end Stream2
