import ADEiger.ClientWrites

/-! Parameters that the database asks for.
A record connects to a parameter by its name. A name that the driver does not know may spell a
parameter of the detector, which is then created. -/
namespace DrvUser

open CString (Text)
open EigerParams TransitionSystem
open ClientWrites (Created PREFIX Populated constructed param_spec)

variable {F δ : Type*} [Double F]

section Names

def mSubSystemMap : List (Text × Sys) :=
  [("DS".toList, .detStatus), ("DC".toList, .detConfig), ("FS".toList, .fwStatus),
   ("FC".toList, .fwConfig), ("MS".toList, .monStatus), ("MC".toList, .monConfig),
   ("SS".toList, .streamStatus), ("SC".toList, .streamConfig)]

def asynType : Char → Option AsynType
  | 'I' => some .int32
  | 'D' => some .float64
  | 'S' => some .octet
  | _ => none

/-- What is behind the prefix: the subsystem, the type, and from the ninth character on the name
that the detector has for the parameter. The eighth is not looked at. -/
def parseDrvInfo (drvInfo : Text) : Option (Sys × AsynType × Text) :=
  match mSubSystemMap.lookup ((drvInfo.drop 4).take 2) with
  | none => none
  | some subSystem =>
    match drvInfo[6]?.bind asynType with
    | none => none
    | some type => some (subSystem, type, drvInfo.drop 8)

/-- The name of a parameter of the detector. -/
inductive Spells : Text → Sys → AsynType → Text → Prop where
  | mk {code subSystem letter type sep name} : (code, subSystem) ∈ mSubSystemMap →
      asynType letter = some type → name ≠ [] →
        Spells (PREFIX ++ (code ++ letter :: sep :: name)) subSystem type name

/-- The names that drvUserCreate goes on with when the driver does not know them. -/
def Spelled (drvInfo : Text) : Prop := 8 < drvInfo.length ∧ drvInfo.take 4 = PREFIX

instance (drvInfo : Text) : Decidable (Spelled drvInfo) := inferInstanceAs (Decidable (_ ∧ _))

variable {drvInfo code name : Text} {subSystem : Sys} {type : AsynType}

theorem lookup_mSubSystemMap : mSubSystemMap.lookup code = some subSystem ↔
    (code, subSystem) ∈ mSubSystemMap := by
  constructor
  · intro h
    obtain ⟨l, r, hmap, -⟩ := List.lookup_eq_some_iff.mp h
    rw [hmap]
    exact List.mem_append_right _ List.mem_cons_self
  · intro h
    have hall : ∀ entry ∈ mSubSystemMap, mSubSystemMap.lookup entry.1 = some entry.2 := by decide
    exact hall _ h

theorem length_code (h : (code, subSystem) ∈ mSubSystemMap) : code.length = 2 := by
  have hall : ∀ entry ∈ mSubSystemMap, entry.1.length = 2 := by decide
  exact hall _ h

theorem parseDrvInfo_eq {e f g h : Char} : parseDrvInfo (PREFIX ++ e :: f :: g :: h :: name) =
    some (subSystem, type, name) ↔ ([e, f], subSystem) ∈ mSubSystemMap ∧ asynType g = some type := by
  have hparse : parseDrvInfo (PREFIX ++ e :: f :: g :: h :: name) =
      match mSubSystemMap.lookup [e, f] with
      | none => none
      | some subSystem =>
        match asynType g with
        | none => none
        | some type => some (subSystem, type, name) := rfl
  rw [hparse, ← lookup_mSubSystemMap]
  cases mSubSystemMap.lookup [e, f] with
  | none => simp
  | some found =>
    cases asynType g with
    | none => simp
    | some found' => simp

theorem Spells.name_ne_nil (h : Spells drvInfo subSystem type name) : name ≠ [] := by
  obtain ⟨-, -, hname⟩ := h
  exact hname

/-- Reading a name is the inverse of spelling it. -/
theorem parseDrvInfo_iff : Spelled drvInfo ∧ parseDrvInfo drvInfo = some (subSystem, type, name) ↔
    Spells drvInfo subSystem type name := by
  constructor
  · rintro ⟨⟨hlen, hprefix⟩, hparse⟩
    obtain ⟨t, rfl⟩ : ∃ t, drvInfo = PREFIX ++ t :=
      ⟨drvInfo.drop 4, by rw [← hprefix, List.take_append_drop]⟩
    have hlong : 4 < t.length := by
      rw [List.length_append] at hlen
      change 8 < 4 + t.length at hlen
      omega
    rcases t with _ | ⟨e, _ | ⟨f, _ | ⟨g, _ | ⟨h, rest⟩⟩⟩⟩
    · simp at hlong
    · simp at hlong
    · simp at hlong
    · simp at hlong
    obtain rfl : rest = name := by
      simp only [parseDrvInfo] at hparse
      split at hparse
      · cases hparse
      · split at hparse
        · cases hparse
        · exact congrArg (·.2.2) (Option.some.inj hparse)
    obtain ⟨hcode, hletter⟩ := parseDrvInfo_eq.mp hparse
    refine Spells.mk hcode hletter ?_
    rintro rfl
    exact absurd hlong (Nat.lt_irrefl 4)
  · rintro ⟨hcode, hletter, hname⟩
    rename_i code letter sep
    have htwo := length_code hcode
    obtain ⟨e, f, rfl⟩ := List.length_eq_two.mp htwo
    refine ⟨⟨?_, rfl⟩, parseDrvInfo_eq.mpr ⟨hcode, hletter⟩⟩
    have hpos := List.length_pos_of_ne_nil hname
    simp only [List.length_append, List.length_cons, List.length_nil]
    change 8 < 4 + _
    omega

end Names

section Registry

/-- What asyn knows: the parameters of the base classes, and when two names are taken for one. -/
structure Library where
  base : List Text
  same : Text → Text → Bool
  same_self : ∀ name, same name name = true

variable {lib : Library} {api : RestAPI δ} {w : World δ F} {drvInfo : Text}

/-- `findParam`, true when it finds the parameter. -/
def findParam (lib : Library) (params : EigerParamSet F) (name : Text) : Bool :=
  lib.base.any (lib.same · name) || params.any (lib.same ·.asynName name)

/-- `mParams.create` and the first fetch of what it made, whose status is dropped. -/
def createParam (api : RestAPI δ) (w : World δ F) (c : Created) : World δ F :=
  let params := w.params ++ [c.param]
  { w with params := (params.fetchAt api w.detector w.params.length).2 }

/-- In the end the base class looks for the parameter. -/
def drvUserCreate (lib : Library) (api : RestAPI δ) (w : World δ F) (drvInfo : Text) :
    Bool × World δ F :=
  if findParam lib w.params drvInfo = false ∧ Spelled drvInfo then
    match parseDrvInfo drvInfo with
    | none => (false, w)
    | some (subSystem, type, name) =>
      let w := createParam api w ⟨drvInfo, type, subSystem, name, none⟩
      (findParam lib w.params drvInfo, w)
  else (findParam lib w.params drvInfo, w)

/-- A record connects, or the driver fetches and puts its parameters. -/
inductive Event (δ F : Type*) where
  | connect (drvInfo : Text)
  | params (e : EigerParams.Event δ F)

/-- Only the constructor creates parameters otherwise. -/
def Enabled (w : World δ F) : Event δ F → Prop
  | .connect _ => True
  | .params (.create _ _ _ _) => False
  | .params e => EigerParams.Enabled w e

def next (lib : Library) (api : RestAPI δ) (w : World δ F) : Event δ F → World δ F
  | .connect drvInfo => (drvUserCreate lib api w drvInfo).2
  | .params e => EigerParams.next api w e

/-- The constructor has left its parameters. -/
def system (lib : Library) (api : RestAPI δ) (built : EigerParamSet F) :
    System (World δ F) (Event δ F) where
  Start w := w.params = built
  Enabled := Enabled
  next := next lib api

/-- A parameter that a record asked for is what its name spells. -/
structure Asked (p : EigerParam F) : Prop where
  spells : Spells p.asynName p.subSystem p.asynType p.name
  remote : p.remote = true

/-- The constructor's parameters stay what they are; those that came later are what their names
spell, and none of them has the name of a parameter that was there before. -/
structure Registered (lib : Library) (built S : EigerParamSet F) : Prop where
  kept : KeepsAll built (S.take built.length)
  asked : ∀ p ∈ S.drop built.length, Asked p
  fresh : ∀ (i j : ℕ) (p q : EigerParam F), i < j → built.length ≤ j → S[i]? = some p →
    S[j]? = some q → lib.same p.asynName q.asynName = false
  base : ∀ q ∈ S.drop built.length, ∀ name ∈ lib.base, lib.same name q.asynName = false

variable {built S T : EigerParamSet F} {p q : EigerParam F} {n : ℕ}

omit [Double F] in
theorem keepsAll_take (h : KeepsAll S T) (n : ℕ) : KeepsAll (S.take n) (T.take n) where
  length := by rw [List.length_take, List.length_take, h.length]
  keeps i p q hp hq := by
    rw [List.getElem?_take] at hp hq
    split_ifs at hp hq
    exact h.keeps i p q hp hq

omit [Double F] in
/-- A parameter among the later ones has another behind it that was there before the step. -/
theorem exists_before (h : KeepsAll S T) (hq : q ∈ T.drop n) : ∃ p ∈ S.drop n, Keeps p q := by
  obtain ⟨i, hi⟩ := List.getElem?_of_mem hq
  rw [List.getElem?_drop] at hi
  have hlt : n + i < S.length := by
    rw [← h.length]
    exact (List.getElem?_eq_some_iff.mp hi).1
  refine ⟨S[n + i], ?_, h.keeps (n + i) _ q (List.getElem?_eq_getElem hlt) hi⟩
  refine List.mem_of_getElem? (i := i) ?_
  rw [List.getElem?_drop, List.getElem?_eq_getElem hlt]

omit [Double F] in
/-- The name of a parameter of the detector is not empty. -/
theorem Spells.asked (h : Spells p.asynName p.subSystem p.asynType p.name) : Asked p where
  spells := h
  remote := by
    rw [EigerParam.remote]
    cases hname : p.name with
    | nil => exact absurd hname h.name_ne_nil
    | cons _ _ => rfl

omit [Double F] in
theorem Asked.keeps (h : Asked p) (hk : Keeps p q) : Asked q where
  spells := by
    rw [hk.asynName, hk.subSystem, hk.asynType, hk.name]
    exact h.spells
  remote := hk.remote.trans h.remote

omit [Double F] in
theorem Registered.keeps (h : Registered lib built S) (hk : KeepsAll S T) :
    Registered lib built T where
  kept := h.kept.trans (keepsAll_take hk _)
  asked q hq := by
    obtain ⟨p, hp, hpq⟩ := exists_before hk hq
    exact (h.asked p hp).keeps hpq
  fresh i j p q hlt hle hp hq := by
    obtain ⟨hi, -⟩ := List.getElem?_eq_some_iff.mp hp
    obtain ⟨hj, -⟩ := List.getElem?_eq_some_iff.mp hq
    rw [hk.length] at hi hj
    have hp' := hk.keeps i _ p (List.getElem?_eq_getElem hi) hp
    have hq' := hk.keeps j _ q (List.getElem?_eq_getElem hj) hq
    rw [hp'.asynName, hq'.asynName]
    exact h.fresh i j _ _ hlt hle (List.getElem?_eq_getElem hi) (List.getElem?_eq_getElem hj)
  base q hq name hname := by
    obtain ⟨p, hp, hpq⟩ := exists_before hk hq
    rw [hpq.asynName]
    exact h.base p hp name hname

omit [Double F] in
theorem Registered.length_le (h : Registered lib built S) : built.length ≤ S.length := by
  have hlength := h.kept.length
  rw [List.length_take] at hlength
  omega

theorem Registered.populated {version : ApiVersion} {model : ParseH5File.EigerModel} {extg : Bool}
    (h : Registered lib (constructed version model extg) S) : Populated version model extg S where
  kept := by
    rw [← ClientWrites.length_constructed (F := F)]
    exact h.kept
  asked p hp := by
    rw [← ClientWrites.length_constructed (F := F)] at hp
    obtain ⟨hspells, -⟩ := h.asked p hp
    exact (parseDrvInfo_iff.mpr hspells).1.2

omit [Double F] in
theorem Registered.append (h : Registered lib built S) (hask : Asked q)
    (hnew : findParam lib S q.asynName = false) : Registered lib built (S ++ [q]) := by
  obtain ⟨hbase, hparams⟩ := Bool.or_eq_false_iff.mp hnew
  have hle := h.length_le
  have htake : (S ++ [q]).take built.length = S.take built.length :=
    List.take_append_of_le_length hle
  have hdrop : (S ++ [q]).drop built.length = S.drop built.length ++ [q] :=
    List.drop_append_of_le_length hle
  refine ⟨htake ▸ h.kept, ?_, fun i j p r hlt hle' hp hr => ?_, ?_⟩
  · rw [hdrop]
    intro r hr
    rcases List.mem_append.mp hr with hr | hr
    · exact h.asked r hr
    · exact List.mem_singleton.mp hr ▸ hask
  · obtain ⟨hj, -⟩ := List.getElem?_eq_some_iff.mp hr
    rw [List.length_append, List.length_singleton] at hj
    have hp : S[i]? = some p := by
      rw [← hp, List.getElem?_append_left (by omega)]
    by_cases hlast : j < S.length
    · rw [List.getElem?_append_left hlast] at hr
      exact h.fresh i j p r hlt hle' hp hr
    · obtain rfl : j = S.length := by omega
      rw [List.getElem?_concat_length] at hr
      obtain rfl := Option.some.inj hr
      have hmem := List.mem_of_getElem? hp
      simpa using List.any_eq_false.mp hparams p hmem
  · rw [hdrop]
    intro r hr name hname
    rcases List.mem_append.mp hr with hr | hr
    · exact h.base r hr name hname
    · obtain rfl := List.mem_singleton.mp hr
      simpa using List.any_eq_false.mp hbase name hname

theorem createParam_params (api : RestAPI δ) (w : World δ F) (c : Created) :
    (createParam api w c).params = w.params ++ [(c.param.fetch api w.detector).2] := by
  change ((w.params ++ [c.param]).fetchAt api w.detector w.params.length).2 = _
  rw [EigerParamSet.fetchAt, List.getElem?_concat_length]
  change (w.params ++ [c.param]).set w.params.length _ = _
  rw [List.set_append_right _ _ (Nat.le_refl _), Nat.sub_self]
  rfl

theorem createParam_spec (api : RestAPI δ) (w : World δ F) (c : Created) :
    ∃ p, (createParam api w c).params = w.params ++ [p] ∧ p.asynName = c.asynName ∧
      p.subSystem = c.subSystem ∧ p.asynType = c.asynType ∧ p.name = c.name := by
  obtain ⟨hasyn, hss, hname, htype⟩ := param_spec (F := F) c
  have hkeeps : Keeps (F := F) c.param (c.param.fetch api w.detector).2 :=
    (fetch_fetched _).keeps
  exact ⟨_, createParam_params api w c, hkeeps.asynName.trans hasyn, hkeeps.subSystem.trans hss,
    hkeeps.asynType.trans htype, hkeeps.name.trans hname⟩

/-- What connecting to a name does. A known name changes nothing, nor does one that spells no
parameter of the detector; otherwise what it spells is created behind the others. -/
structure Connects (lib : Library) (w : World δ F) (drvInfo : Text) (r : Bool × World δ F) :
    Prop where
  known : findParam lib w.params drvInfo = true → r = (true, w)
  refused : findParam lib w.params drvInfo = false →
    (∀ subSystem type name, ¬ Spells drvInfo subSystem type name) → r = (false, w)
  created : findParam lib w.params drvInfo = false → ∀ subSystem type name,
    Spells drvInfo subSystem type name → r.1 = true ∧ r.2.detector = w.detector ∧
      ∃ p, r.2.params = w.params ++ [p] ∧ p.asynName = drvInfo ∧ p.subSystem = subSystem ∧
        p.asynType = type ∧ p.name = name

omit [Double F] in
theorem findParam_append {drvInfo : Text} (h : q.asynName = drvInfo) :
    findParam lib (S ++ [q]) drvInfo = true := by
  refine Bool.or_eq_true_iff.mpr (.inr (List.any_eq_true.mpr ⟨q, ?_, ?_⟩))
  · exact List.mem_append_right _ List.mem_cons_self
  · rw [h]
    exact lib.same_self drvInfo

theorem connects (lib : Library) (api : RestAPI δ) (w : World δ F) (drvInfo : Text) :
    Connects lib w drvInfo (drvUserCreate lib api w drvInfo) where
  known h := by
    rw [drvUserCreate, if_neg (by simp [h]), h]
  refused h hno := by
    rw [drvUserCreate]
    split_ifs with hspelled
    · cases hparse : parseDrvInfo drvInfo with
      | none => rfl
      | some x =>
        obtain ⟨subSystem, type, name⟩ := x
        exact absurd (parseDrvInfo_iff.mp ⟨hspelled.2, hparse⟩) (hno subSystem type name)
    · rw [h]
  created h subSystem type name hspells := by
    obtain ⟨hspelled, hparse⟩ := parseDrvInfo_iff.mpr hspells
    rw [drvUserCreate, if_pos ⟨h, hspelled⟩, hparse]
    obtain ⟨p, hparams, hasyn, hidentity⟩ :=
      createParam_spec api w ⟨drvInfo, type, subSystem, name, none⟩
    refine ⟨?_, rfl, p, hparams, hasyn, hidentity⟩
    change findParam lib (createParam api w _).params drvInfo = true
    rw [hparams]
    exact findParam_append hasyn

omit [Double F] in
/-- At most one parameter comes, whose name was not known. -/
theorem Connects.cases {r : Bool × World δ F} (h : Connects lib w drvInfo r) : r.2 = w ∨
    ∃ p, findParam lib w.params p.asynName = false ∧ Asked p ∧ r.2.params = w.params ++ [p] := by
  cases hfind : findParam lib w.params drvInfo with
  | true => exact .inl (congrArg Prod.snd (h.known hfind))
  | false =>
    by_cases hspells : ∃ subSystem type name, Spells drvInfo subSystem type name
    · obtain ⟨subSystem, type, name, hspells⟩ := hspells
      obtain ⟨-, -, p, hparams, rfl, rfl, rfl, rfl⟩ := h.created hfind _ _ _ hspells
      exact .inr ⟨p, hfind, hspells.asked, hparams⟩
    · refine .inl (congrArg Prod.snd (h.refused hfind fun subSystem type name hs => ?_))
      exact hspells ⟨subSystem, type, name, hs⟩

omit [Double F] in
theorem registered_start (lib : Library) (built : EigerParamSet F) :
    Registered lib built built where
  kept := by
    rw [List.take_length]
    exact .refl built
  asked q hq := by
    rw [List.drop_length] at hq
    cases hq
  fresh i j p q _ hle _ hq := by
    obtain ⟨hj, -⟩ := List.getElem?_eq_some_iff.mp hq
    omega
  base q hq := by
    rw [List.drop_length] at hq
    cases hq

theorem registered_step {e : Event δ F} (h : Registered lib built w.params) (he : Enabled w e) :
    Registered lib built (next lib api w e).params := by
  cases e with
  | connect drvInfo =>
    change Registered lib built (drvUserCreate lib api w drvInfo).2.params
    rcases (connects lib api w drvInfo).cases with hw | ⟨p, hnew, hask, hparams⟩
    · rw [hw]
      exact h
    · rw [hparams]
      exact h.append hask hnew
  | params e =>
    cases e with
    | create _ _ _ _ => exact he.elim
    | _ => exact h.keeps (next_keepsAll he fun _ _ _ _ hc => by cases hc)

/-- Whatever the records ask for, and however the parameters are fetched and put in between. -/
theorem registered (h : Reachable (system lib api built) w) : Registered lib built w.params ∧
    ∀ drvInfo, Connects lib w drvInfo (drvUserCreate lib api w drvInfo) := by
  refine ⟨?_, connects lib api w⟩
  refine Reaches.invariant (I := fun w => Registered lib built w.params) ?_ ?_ h
  · intro w hw
    have hw : w.params = built := hw
    rw [hw]
    exact registered_start lib built
  · intro w e hw he _
    exact registered_step hw he

end Registry

/-- The names that asyn compares without regard to case, and one parameter of a base class. -/
def caseless : Library where
  base := ["PORT_NAME_SELF".toList]
  same s t := s.map Char.toLower == t.map Char.toLower
  same_self _ := beq_self_eq_true _

/-- A record asks for the counting mode, and a second one does in other letters. -/
def askedTwice : World Unit ℤ :=
  runTrace (system caseless ClientWrites.refusingDetector (constructed .v1_8_0 .eiger1 false))
    ⟨(), constructed .v1_8_0 .eiger1 false⟩
    [.connect "EIG_DCS_counting_mode".toList, .params .fetchAll,
      .connect "eig_dcs_COUNTING_mode".toList]

theorem registered_askedTwice :
    Registered caseless (constructed (F := ℤ) .v1_8_0 .eiger1 false) askedTwice.params ∧
    ∀ drvInfo, Connects caseless askedTwice drvInfo
      (drvUserCreate caseless ClientWrites.refusingDetector askedTwice drvInfo) :=
  registered (reachable_trace rfl _ ⟨trivial, trivial, trivial, trivial, trivial, trivial, trivial⟩)

end DrvUser
