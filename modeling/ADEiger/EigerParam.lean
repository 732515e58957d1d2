import ADEiger.CString
import ADEiger.RestNames
import Mathlib.Algebra.Group.Nat.Defs
import Mathlib.Algebra.Group.Int.Defs

/-! The parameters of the driver and their copies in the detector.
A parameter keeps one asyn value; `fetch` replaces it by what the detector reports, `put`
sends a value to the detector and stores it. Text is a list of bytes. -/
namespace EigerParams

open CString (Text digitsValue)

/-- A text is checked along its bytes, not along all characters there are. -/
instance decidableForallMem (t : Text) (p : Char → Prop) [DecidablePred p] :
    Decidable (∀ c ∈ t, p c) :=
  List.decidableBAll p t

/-- `sys_t`. -/
inductive Sys where
  | apiVersion | detConfig | detStatus | fwConfig | fwStatus | fwCommand | command | data
  | monConfig | monStatus | monImages | streamConfig | streamStatus | sysCommand
  deriving DecidableEq, Repr

inductive JsonType where
  | string | array | other
  deriving DecidableEq, Repr

/-- A JSON token: its text, without the quotes of a string, and for an array the texts of
the tokens in it. -/
structure Token where
  type : JsonType
  text : Text
  items : List Text
  deriving DecidableEq, Repr

/-- A parsed response, as `find_json_token` looks into it. -/
abbrev Response := Text → Option Token

inductive ApiVersion where
  | v1_6_0 | v1_8_0
  deriving DecidableEq, Repr

/-- The REST interface of the detector, with the parsing of what it answers. `get` is `none`
when the request or the parsing fails; `put` gives the names in the reply. -/
structure RestAPI (δ : Type*) where
  version : ApiVersion
  get : δ → Sys → Text → Option Response
  put : δ → Sys → Text → Text → Option (δ × Option (List Text))

/-- The operations on `double` that the driver uses. -/
class Double (F : Type*) where
  zero : F
  isZero : F → Bool
  lt : F → F → Bool
  /-- `fabs(a - b)`. -/
  distance : F → F → F
  /-- `sscanf` with `%lf`. -/
  scan : Text → Option F
  /-- Stream output with the precision that `toString` sets. -/
  print : F → Text
  kilobytesToGB : F → F
  bytesToGB : F → F
  /-- The low four bytes, as the `int` they are, and the high four. -/
  halves : F → ℤ × ℤ
  ofHalves : ℤ × ℤ → F

/-- The value of an asyn parameter, by its asyn type. -/
inductive AsynValue (F : Type*) where
  | int32 (v : ℤ)
  | float64 (v : F)
  | octet (v : Text)
  deriving DecidableEq

inductive AsynType where
  | int32 | float64 | octet
  deriving DecidableEq, Repr

def AsynValue.type {F : Type*} : AsynValue F → AsynType
  | .int32 _ => .int32
  | .float64 _ => .float64
  | .octet _ => .octet

/-- `eiger_param_type_t`. -/
inductive ParamType where
  | uninit | bool | int | uint | double | string | enum | command
  deriving DecidableEq, Repr

/-- `eiger_access_mode_t`. -/
inductive AccessMode where
  | ro | rw | wo
  deriving DecidableEq, Repr

/-- `eiger_min_max_t`. The `int` of the union lies on the low half of its `double`. -/
structure MinMax where
  found : Bool
  valInt : ℤ
  high : ℤ
  deriving DecidableEq

def MinMax.valDouble {F : Type*} [Double F] (m : MinMax) : F := Double.ofHalves (m.valInt, m.high)

def MinMax.setDouble {F : Type*} [Double F] (m : MinMax) (v : F) : MinMax :=
  { m with valInt := (Double.halves v).1, high := (Double.halves v).2 }

/-- `asyn` is the value in the parameter library; its type is `mAsynType`. -/
structure EigerParam (F : Type*) where
  asynName : Text
  subSystem : Sys
  name : Text
  type : ParamType
  accessMode : AccessMode
  min : MinMax
  max : MinMax
  enumValues : List Text
  criticalValues : List Text
  epsilon : F
  customEnum : Bool
  asyn : AsynValue F
  deriving DecidableEq

section Conversions

variable {F : Type*} [Double F]

def isSpace (c : Char) : Bool := c = ' ' || (9 ≤ c.toNat && c.toNat ≤ 13)

/-- The number at the beginning of a text. -/
def scanInt (text : Text) : Option ℤ :=
  let (negative, digits) := match text.dropWhile isSpace with
    | '-' :: ds => (true, ds.takeWhile Char.isDigit)
    | '+' :: ds => (false, ds.takeWhile Char.isDigit)
    | ds => (false, ds.takeWhile Char.isDigit)
  if digits = [] then none
  else some (if negative then -(digitsValue digits : ℤ) else digitsValue digits)

theorem scanInt_leading {c : Char} (hc : c.isDigit = true) (t : Text) :
    scanInt (c :: t) = some (digitsValue ((c :: t).takeWhile Char.isDigit) : ℤ) := by
  have hspace : isSpace c = false := by
    cases hs : isSpace c with
    | false => rfl
    | true =>
      have hlow := hs
      simp only [isSpace, Bool.or_eq_true, Bool.and_eq_true, decide_eq_true_eq] at hlow
      simp only [Char.isDigit, Bool.and_eq_true, decide_eq_true_eq] at hc
      rcases hlow with rfl | ⟨-, hlow⟩
      · exact absurd hc.1 (by decide)
      · have hdigit : 48 ≤ c.toNat := hc.1
        omega
  have hminus : c ≠ '-' := by rintro rfl; cases hc
  have hplus : c ≠ '+' := by rintro rfl; cases hc
  have hne : (c :: t).takeWhile Char.isDigit ≠ [] := by
    rw [List.takeWhile_cons_of_pos hc]
    exact List.cons_ne_nil _ _
  have hdrop : (c :: t).dropWhile isSpace = c :: t :=
    List.dropWhile_cons_of_neg (Bool.eq_false_iff.mp hspace)
  rw [scanInt]
  rw [hdrop]
  dsimp only
  split
  · next heq => exact absurd (List.cons.inj heq).1 hminus
  · next heq => exact absurd (List.cons.inj heq).1 hplus
  · rw [if_neg hne]
    rfl

theorem scanInt_minus {t : Text} (h : t.takeWhile Char.isDigit ≠ []) :
    scanInt ('-' :: t) = some (-(digitsValue (t.takeWhile Char.isDigit) : ℤ)) := by
  have hspace : ('-' :: t).dropWhile isSpace = '-' :: t := rfl
  rw [scanInt, hspace]
  change (if t.takeWhile Char.isDigit = [] then none
    else some (-(digitsValue (t.takeWhile Char.isDigit) : ℤ))) = _
  rw [if_neg h]

theorem takeWhile_digits {t : Text} (h : ∀ c ∈ t, c.isDigit = true) :
    t.takeWhile Char.isDigit = t := by
  rw [← List.append_nil t, List.takeWhile_append_of_pos h]
  rfl

theorem scanInt_digits {t : Text} (hne : t ≠ []) (h : ∀ c ∈ t, c.isDigit = true) :
    scanInt t = some (digitsValue t : ℤ) := by
  obtain ⟨c, t, rfl⟩ := List.exists_cons_of_ne_nil hne
  have hc : c.isDigit = true := h c List.mem_cons_self
  rw [scanInt_leading hc, takeWhile_digits h]

/-- A number as glibc stores it in an `int`: it is read as a `long`, at most the largest there is,
and its low 32 bits are kept. -/
def toInt (n : ℤ) : ℤ := Int.bmod (max (-2 ^ 63) (min n (2 ^ 63 - 1))) (2 ^ 32)

/-- `sscanf` with `%d`. -/
def sscanfInt (text : Text) : Option ℤ := (scanInt text).map toInt

def scanBool (text : Text) : Option Bool :=
  if text = "true".toList then some true
  else if text = "false".toList then some false
  else none

namespace EigerParam

def remote (p : EigerParam F) : Bool := !p.name.isEmpty

def asynType (p : EigerParam F) : AsynType := p.asyn.type

/-- `mEnumValues[index]`, undefined outside the table. -/
def enumValue (p : EigerParam F) (index : ℤ) : Text := p.enumValues.getD index.toNat []

/-- `toString` of a string. -/
def toStringString (value : Text) : Text := '"' :: (value ++ ['"'])

def toStringBool (p : EigerParam F) (value : Bool) : Text :=
  if p.type = .enum then toStringString (p.enumValue (!value).toNat)
  else if value then "true".toList else "false".toList

def toStringInt (p : EigerParam F) (value : ℤ) : Text :=
  if p.type = .enum then toStringString (p.enumValue value) else RestNames.decimal value

def getEnumIndex (p : EigerParam F) (value : Text) : Option ℕ :=
  p.enumValues.findIdx? (· == value)

/-- The parameter library refuses a value of another type. -/
def setParam (p : EigerParam F) (value : AsynValue F) : Option (EigerParam F) :=
  if value.type = p.asynType then some { p with asyn := value } else none

def isCommand : Sys → Bool
  | .command | .fwCommand | .sysCommand => true
  | _ => false

/-- The constructor; `asyn` is the value the parameter library starts with. -/
def new (asynName : Text) (asyn : AsynValue F) (subSystem : Sys) (name : Text) : EigerParam F where
  asynName := asynName
  subSystem := subSystem
  name := name
  type :=
    if name.isEmpty then
      match asyn.type with
      | .int32 => .int
      | .float64 => .double
      | .octet => .string
    else if isCommand subSystem then .command
    else .uninit
  accessMode := if !name.isEmpty && isCommand subSystem then .wo else .ro
  min := ⟨false, 0, 0⟩
  max := ⟨false, 0, 0⟩
  enumValues := []
  criticalValues := []
  epsilon := Double.zero
  customEnum := false
  asyn := asyn

def setEnumValues (p : EigerParam F) (values : List Text) : EigerParam F :=
  { p with enumValues := values, customEnum := true }

def setEpsilon (p : EigerParam F) (epsilon : F) : EigerParam F := { p with epsilon := epsilon }

/-- `get` of an int: an octet parameter with a table gives the index of its text. -/
def getInt (p : EigerParam F) : Option ℤ :=
  match p.asyn with
  | .int32 v => some v
  | .octet t => if p.enumValues = [] then none else (p.getEnumIndex t).map (↑)
  | .float64 _ => none

def getBool (p : EigerParam F) : Option Bool :=
  match p.asyn with
  | .int32 v => some (v ≠ 0)
  | .octet _ => if p.enumValues.length = 2 then p.getInt.map (· ≠ 0) else none
  | .float64 _ => none

def getDouble (p : EigerParam F) : Option F :=
  match p.asyn with
  | .float64 v => some v
  | _ => none

def getString (p : EigerParam F) : Option Text :=
  match p.asyn with
  | .octet t => some t
  | .int32 v => if p.type = .enum then some (p.enumValue v) else none
  | .float64 _ => none

end EigerParam

end Conversions

section Responses

/-- The type of a parameter: with `allowed_values` an enumeration, if it can only be written a
command. -/
def parseType (r : Response) : Option ParamType := do
  let token ← r "value_type".toList
  let typeStr := if (r "allowed_values".toList).isSome then "enum".toList else token.text
  let writeOnly := ((r "access_mode".toList).map (·.text.head?)) = some (some 'w')
  match (if writeOnly then "command".toList else typeStr).head? with
  | some 's' => some .string
  | some 'l' => some .string
  | some 'f' => some .double
  | some 'b' => some .bool
  | some 'u' => some .uint
  | some 'i' => some .int
  | some 'e' => some .enum
  | some 'c' => some .command
  | _ => none

def parseAccessMode (r : Response) : Option AccessMode :=
  match r "access_mode".toList with
  | none => none
  | some t =>
    if t.text = "r".toList then some .ro
    else if t.text = "w".toList then some .wo
    else if t.text = "rw".toList then some .rw
    else none

def parseArray (token : Option Token) : List Text :=
  match token with
  | none => []
  | some t =>
    match t.type with
    | .array => t.items
    | .string => [t.text]
    | .other => []

def parseValue (r : Response) : Option Text := (r "value".toList).map (·.text)

variable (F : Type*) [Double F]

def parseMinMax (r : Response) (key : Text) (m : MinMax) : Bool × MinMax :=
  match r key with
  | none => (true, { m with found := false })
  | some t =>
    match r "value_type".toList with
    | none => (false, { m with found := true })
    | some type =>
      if type.text.head? = some 'i' ∨ type.text.head? = some 'u' then
        match sscanfInt t.text with
        | some v => (true, { m with found := true, valInt := v })
        | none => (false, { m with found := true })
      else if type.text.head? = some 'f' then
        match (Double.scan t.text : Option F) with
        | some v => (true, { m.setDouble v with found := true })
        | none => (false, { m with found := true })
      else (true, { m with found := true })

end Responses

namespace EigerParam

variable {F δ : Type*} [Double F]

/-- The part of `baseFetch` that runs until the type of the parameter is known. -/
def initType (p : EigerParam F) (r : Response) : Option (EigerParam F) :=
  if p.type ≠ .uninit then some p
  else match parseType r with
    | none => none
    | some type => some { p with
        type := if p.customEnum then .enum else type
        accessMode := match p.subSystem with
          | .command | .fwCommand | .sysCommand => .wo
          | .detStatus | .fwStatus | .monStatus | .streamStatus => .ro
          | _ => (parseAccessMode r).getD .ro
        enumValues :=
          if p.customEnum then p.enumValues else parseArray (r "allowed_values".toList)
        criticalValues := parseArray (r "critical_values".toList) }

/-- The part of `baseFetch` that reads the limits. -/
def parseLimits (p : EigerParam F) (r : Response) : Bool × EigerParam F :=
  match p.type with
  | .int | .uint | .double =>
    match parseMinMax F r "min".toList p.min with
    | (false, min) => (false, { p with min := min })
    | (true, min) =>
      let (ok, max) := parseMinMax F r "max".toList p.max
      (ok, { p with min := min, max := max })
  | .enum => (true, { p with
      min := { p.min with found := true, valInt := 0 }
      max := { p.max with found := true, valInt := (p.enumValues.length : ℤ) - 1 } })
  | _ => (true, p)

/-- Nothing is read from a write-only parameter, whose raw value stays empty. -/
def baseFetch (api : RestAPI δ) (d : δ) (p : EigerParam F) : Option Text × EigerParam F :=
  if !p.remote then (none, p)
  else if p.accessMode = .wo then (some [], p)
  else match api.get d p.subSystem p.name with
    | none => (none, p)
    | some r =>
      match p.initType r with
      | none => (none, p)
      | some p =>
        match p.parseLimits r with
        | (false, p) => (none, p)
        | (true, p) => (parseValue r, p)

/-- The value that `fetch` of an int makes of a raw value. -/
def intOfRaw (p : EigerParam F) (raw : Text) : Option ℤ :=
  match p.type with
  | .enum => (p.getEnumIndex raw).map (↑)
  | .bool => (scanBool raw).map fun b => if b then 1 else 0
  | .int | .uint => sscanfInt raw
  | _ => none

/-- For `FW_FREE` the unit depends on the version of the interface. -/
def doubleOfRaw (api : RestAPI δ) (p : EigerParam F) (raw : Text) : Option F :=
  (Double.scan raw).map fun v =>
    if p.asynName = "FW_FREE".toList then
      if api.version = .v1_6_0 then Double.kilobytesToGB v else Double.bytesToGB v
    else v

/-- `fetch` of a bool; the value of a two-valued enumeration is stored, that of a bool is
only parsed. -/
def fetchBool (api : RestAPI δ) (d : δ) (p : EigerParam F) : Option Bool × EigerParam F :=
  if p.remote && p.type ≠ .command then
    match p.baseFetch api d with
    | (none, p) => (none, p)
    | (some raw, p) =>
      match p.type with
      | .bool =>
        match scanBool raw with
        | none => (none, p)
        | some _ => (p.getBool, p)
      | .enum =>
        if p.enumValues.length ≠ 2 then (none, p)
        else match p.getEnumIndex raw with
          | none => (none, p)
          | some index =>
            match p.setParam (.int32 index) with
            | none => (none, p)
            | some p => (p.getBool, p)
      | _ => (none, p)
  else (p.getBool, p)

def fetchInt (api : RestAPI δ) (d : δ) (p : EigerParam F) : Option ℤ × EigerParam F :=
  if p.remote && p.type ≠ .command then
    match p.baseFetch api d with
    | (none, p) => (none, p)
    | (some raw, p) =>
      match p.intOfRaw raw with
      | none => (none, p)
      | some v =>
        match p.setParam (.int32 v) with
        | none => (none, p)
        | some p => (p.getInt, p)
  else (p.getInt, p)

/-- The detector can return integers that an `int` cannot hold. -/
def fetchDouble (api : RestAPI δ) (d : δ) (p : EigerParam F) : Option F × EigerParam F :=
  if p.remote && p.type ≠ .command then
    if p.type ∉ [.double, .int, .uint, .uninit] then (none, p)
    else match p.baseFetch api d with
      | (none, p) => (none, p)
      | (some raw, p) =>
        match p.doubleOfRaw api raw with
        | none => (none, p)
        | some v =>
          match p.setParam (.float64 v) with
          | none => (none, p)
          | some p => (p.getDouble, p)
  else (p.getDouble, p)

def fetchString (api : RestAPI δ) (d : δ) (p : EigerParam F) : Option Text × EigerParam F :=
  if p.remote && p.type ≠ .command then
    if p.type ∉ [.string, .enum, .uninit] then (none, p)
    else match p.baseFetch api d with
      | (none, p) => (none, p)
      | (some raw, p) =>
        match p.setParam (.octet raw) with
        | none => (none, p)
        | some p => (some raw, p)
  else (p.getString, p)

/-- `fetch` without a value; the flag is `EXIT_SUCCESS`. -/
def fetch (api : RestAPI δ) (d : δ) (p : EigerParam F) : Bool × EigerParam F :=
  match p.asynType with
  | .int32 => let (v, p) := p.fetchInt api d; (v.isSome, p)
  | .float64 => let (v, p) := p.fetchDouble api d; (v.isSome, p)
  | .octet => let (v, p) := p.fetchString api d; (v.isSome, p)

/-- What `put` of a bool sends and then stores. -/
def encodeBool (p : EigerParam F) (value : Bool) : Option (Text × AsynValue F) :=
  if p.type = .bool ∨ p.type = .enum ∧ p.enumValues.length = 2 then
    some (p.toStringBool value, .int32 (if value then 1 else 0))
  else none

def clampInt (p : EigerParam F) (value : ℤ) : ℤ :=
  let value := if p.min.found = true ∧ value < p.min.valInt then p.min.valInt else value
  let value := if p.max.found = true ∧ value > p.max.valInt then p.max.valInt else value
  if p.type = .uint ∧ value < 0 then 0 else value

def intValue (p : EigerParam F) (value : ℤ) : AsynValue F :=
  if p.asynType = .int32 then .int32 value else .octet (p.enumValue value)

def encodeInt (p : EigerParam F) (value : ℤ) : Option (Text × AsynValue F) :=
  if p.type ∉ [.bool, .int, .uint, .enum, .command] then none
  else
    let value := p.clampInt value
    some (if p.type = .bool then p.toStringBool (value ≠ 0) else p.toStringInt value,
      p.intValue value)

def clampDouble (p : EigerParam F) (value : F) : F :=
  let value := if p.min.found && Double.lt value p.min.valDouble then p.min.valDouble else value
  if p.max.found && Double.lt p.max.valDouble value then p.max.valDouble else value

def encodeDouble (p : EigerParam F) (value : F) : Option (Text × AsynValue F) :=
  if p.type ≠ .double then none
  else some (Double.print (p.clampDouble value), .float64 (p.clampDouble value))

/-- For a parameter of type string the variable that holds the index is not set; `unset` is
what it contains. -/
def encodeString (unset : ℤ) (p : EigerParam F) (value : Text) : Option (Text × AsynValue F) :=
  match p.type with
  | .enum =>
    match p.getEnumIndex value with
    | none => none
    | some index =>
      some (toStringString value, if p.asynType = .int32 then .int32 index else .octet value)
  | .string =>
    some (toStringString value, if p.asynType = .int32 then .int32 unset else .octet value)
  | _ => none

/-- A change within `mEpsilon` is not made. -/
def withinEpsilon (p : EigerParam F) (value : F) : Bool :=
  match p.asyn with
  | .float64 current =>
    !Double.isZero p.epsilon && Double.lt (Double.distance current value) p.epsilon
  | _ => false

end EigerParam

section Sets

variable {F δ : Type*} [Double F]

/-- The parameters in the order of their creation. -/
abbrev EigerParamSet (F : Type*) := List (EigerParam F)

/-- `mDetConfigMap` keeps the first parameter created for a name. -/
def EigerParamSet.getByName (params : EigerParamSet F) (name : Text) : Option ℕ :=
  params.findIdx? fun p => p.subSystem = .detConfig && p.remote && p.name = name

def EigerParamSet.fetchAt (api : RestAPI δ) (d : δ) (params : EigerParamSet F) (i : ℕ) :
    Bool × EigerParamSet F :=
  match params[i]? with
  | none => (true, params)
  | some p =>
    let (ok, p) := p.fetch api d
    (ok, params.set i p)

def EigerParamSet.fetchParams (api : RestAPI δ) (d : δ) :
    List Text → EigerParamSet F → Bool × EigerParamSet F
  | [], params => (true, params)
  | name :: names, params =>
    match params.getByName name with
    | none => fetchParams api d names params
    | some i =>
      let (ok, params) := params.fetchAt api d i
      let (rest, params) := fetchParams api d names params
      (ok && rest, params)

/-- Every fetch changes only its own parameter, so that the order does not matter. -/
def EigerParamSet.fetchAll (api : RestAPI δ) (d : δ) (params : EigerParamSet F) :
    Bool × EigerParamSet F :=
  (params.all fun p => (p.fetch api d).1, params.map fun p => (p.fetch api d).2)

/-- What a `put` leaves. `sent` is the value that went to the detector, `reply` the names
that were fetched again and `refetched` the status of that, which the source drops. -/
structure Outcome (δ F : Type*) where
  status : Bool
  detector : δ
  params : EigerParamSet F
  sent : Option Text
  reply : List Text
  refetched : Bool

def Outcome.refused (d : δ) (params : EigerParamSet F) : Outcome δ F :=
  ⟨false, d, params, none, [], true⟩

def basePut (api : RestAPI δ) (d : δ) (params : EigerParamSet F) (i : ℕ) (raw : Text) :
    Outcome δ F :=
  match params[i]? with
  | none => .refused d params
  | some p =>
    if p.accessMode = .ro then .refused d params
    else match api.put d p.subSystem p.name raw with
      | none => ⟨false, d, params, some raw, [], true⟩
      | some (d, none) => ⟨false, d, params, some raw, [], true⟩
      | some (d, some names) =>
        let (ok, params) := EigerParamSet.fetchParams api d names params
        ⟨true, d, params, some raw, names, ok⟩

/-- The last statement of every `put`. -/
def Outcome.store (o : Outcome δ F) (i : ℕ) (value : AsynValue F) : Outcome δ F :=
  match o.params[i]?.bind (·.setParam value) with
  | none => { o with status := false }
  | some p => { o with params := o.params.set i p }

/-- `if(mType == EIGER_P_UNINIT && fetch()) return EXIT_FAILURE;` -/
def EigerParamSet.ready (api : RestAPI δ) (d : δ) (params : EigerParamSet F) (i : ℕ) :
    Bool × EigerParamSet F :=
  match params[i]? with
  | none => (false, params)
  | some p => if p.type = .uninit then params.fetchAt api d i else (true, params)

/-- The part that the four `put` have in common; they differ in what they send and store. -/
def putRemote (api : RestAPI δ) (d : δ) (params : EigerParamSet F) (i : ℕ)
    (encode : EigerParam F → Option (Text × AsynValue F)) : Outcome δ F :=
  match params.ready api d i with
  | (false, params) => .refused d params
  | (true, params) =>
    match params[i]?.bind encode with
    | none => .refused d params
    | some (raw, value) =>
      let o := basePut api d params i raw
      if o.status then o.store i value else o

/-- A parameter without a copy in the detector is only stored. -/
def putLocal (d : δ) (params : EigerParamSet F) (i : ℕ) (value : AsynValue F) : Outcome δ F :=
  Outcome.store ⟨true, d, params, none, [], true⟩ i value

def putBool (api : RestAPI δ) (d : δ) (params : EigerParamSet F) (i : ℕ) (value : Bool) :
    Outcome δ F :=
  match params[i]? with
  | none => .refused d params
  | some p =>
    if p.remote then putRemote api d params i (·.encodeBool value)
    -- the status of this store is dropped
    else { putLocal d params i (.int32 (if value then 1 else 0)) with status := true }

def putInt (api : RestAPI δ) (d : δ) (params : EigerParamSet F) (i : ℕ) (value : ℤ) :
    Outcome δ F :=
  match params[i]? with
  | none => .refused d params
  | some p =>
    if p.remote then putRemote api d params i (·.encodeInt value)
    else putLocal d params i (p.intValue value)

def putDouble (api : RestAPI δ) (d : δ) (params : EigerParamSet F) (i : ℕ) (value : F) :
    Outcome δ F :=
  match params[i]? with
  | none => .refused d params
  | some p =>
    if p.withinEpsilon value then ⟨true, d, params, none, [], true⟩
    else if p.remote then putRemote api d params i (·.encodeDouble value)
    else putLocal d params i (.float64 value)

def putString (api : RestAPI δ) (d : δ) (params : EigerParamSet F) (i : ℕ) (unset : ℤ)
    (value : Text) : Outcome δ F :=
  match params[i]? with
  | none => .refused d params
  | some p =>
    if p.remote then putRemote api d params i (·.encodeString unset value)
    else { putLocal d params i (.octet value) with status := true }

end Sets

end EigerParams
