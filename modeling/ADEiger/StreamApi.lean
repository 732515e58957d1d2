import Mathlib.Data.Nat.Notation
import Mathlib.Tactic.SplitIfs

/-! The messages of the two stream interfaces, how StreamAPI and Stream2API read them, and
the order in which the detector sends them. -/
namespace StreamApi

inductive Version where
  | stream | stream2
  deriving DecidableEq, Repr

inductive HeaderDetail where
  | none | basic | all
  deriving DecidableEq, Repr

/-- The parts of the header message that StreamAPI::getHeader reads and drops. -/
def HeaderDetail.skip : HeaderDetail → ℕ
  | .none => 0
  | .basic => 1
  | .all => 7

/-- The parts of a Stream series: `left` header parts follow a `headerPart`. A Stream2
message has one part: `header` is its start message, `image` holds all of its thresholds. -/
inductive Kind where
  | header (detail : HeaderDetail)
  | headerPart (left : ℕ)
  | headerAppendix
  | image (thresholds : ℕ)
  | shape
  | data
  | times
  | imageAppendix
  | seriesEnd
  deriving DecidableEq, Repr

/-- A part of a series. `code` is what the parser makes of it: 0, or else parse_json or the
reading of htype fails, or stream2_parse_msg returns this `stream2_result`. -/
structure Part where
  series : ℕ
  kind : Kind
  code : ℕ
  deriving DecidableEq, Repr

/-- `enum stream_err`, and the values that streamTask does not know. -/
inductive Err where
  | success | timeout | wrongHtype | error | unknown
  deriving DecidableEq, Repr

/-- Stream2API returns a `stream2_result` as it is, and streamTask takes it for a
`stream_err`: no memory for a timeout, a wrong signature for a wrong htype. -/
def Err.ofInt : ℕ → Err
  | 0 => .success
  | 1 => .timeout
  | 2 => .wrongHtype
  | 3 => .error
  | _ => .unknown

/-- StreamAPI::getHeader on the first part it receives. -/
def StreamAPI.getHeader (m : Part) : Err :=
  if m.code ≠ 0 then .error
  else match m.kind with
    | .header _ => .success
    | _ => .wrongHtype

/-- Only image and end parts have the tokens that StreamAPI::waitFrame reads. -/
def StreamAPI.waitFrame (m : Part) : Err :=
  if m.code ≠ 0 then .error
  else match m.kind with
    | .image _ | .seriesEnd => .success
    | _ => .error

def Stream2API.getHeader (m : Part) : Err :=
  if m.code ≠ 0 then .ofInt m.code
  else match m.kind with
    | .header _ => .success
    | _ => .error

def Stream2API.waitFrame (m : Part) : Err :=
  if m.code ≠ 0 then .ofInt m.code
  else match m.kind with
    | .image _ | .seriesEnd => .success
    | _ => .error

def getHeader : Version → Part → Err
  | .stream => StreamAPI.getHeader
  | .stream2 => Stream2API.getHeader

def waitFrame : Version → Part → Err
  | .stream => StreamAPI.waitFrame
  | .stream2 => Stream2API.waitFrame

/-- The parts that getHeader drops after a header. -/
def skip : Version → Kind → ℕ
  | .stream, .header d => d.skip
  | _, _ => 0

def Kind.isHeader : Kind → Bool
  | .header _ => true
  | _ => false

/-- The parts that an array is built from. -/
def Kind.ofImage : Kind → Bool
  | .image _ | .shape | .data => true
  | _ => false

/-- The next image of the series, or its end. -/
def Kind.nextImage : Kind → Bool
  | .image _ | .seriesEnd => true
  | _ => false

/-- What follows a header with `n` further parts. -/
def Kind.nextHeaderPart (n : ℕ) (k : Kind) : Bool :=
  match n with
  | 0 => k = .headerAppendix || k.nextImage
  | n + 1 => k = .headerPart n

/-- The kinds that may follow each other within a series. -/
def Kind.precedes : Version → Kind → Kind → Bool
  | .stream, .header d, k => k.nextHeaderPart d.skip
  | .stream, .headerPart n, k => k.nextHeaderPart n
  | .stream, .headerAppendix, k => k.nextImage
  | .stream, .image _, k => k = .shape
  | .stream, .shape, k => k = .data
  | .stream, .data, k => k = .times
  | .stream, .times, k => k = .imageAppendix || k.nextImage
  | .stream, .imageAppendix, k => k.nextImage
  | .stream2, .header _, k => k.nextImage
  | .stream2, .image _, k => k.nextImage
  | _, _, _ => false

/-- The order in which the detector sends: the series one after the other under increasing
ids, each with its header first, then its images, then its end. -/
def Follows (v : Version) (m m' : Part) : Prop :=
  if m.kind = .seriesEnd then m.series < m'.series ∧ m'.kind.isHeader = true
  else m'.series = m.series ∧ m.kind.precedes v m'.kind = true

instance (v : Version) (m m' : Part) : Decidable (Follows v m m') :=
  inferInstanceAs (Decidable (if m.kind = .seriesEnd then _ ∧ _ else _ ∧ _))

theorem Follows.series_le {v : Version} {m m' : Part} (h : Follows v m m') :
    m.series ≤ m'.series := by
  unfold Follows at h
  split_ifs at h with hk
  · omega
  · omega

theorem Follows.data {v : Version} {m m' : Part} (h : Follows v m m') (hk : m.kind = .shape) :
    m'.kind = .data := by
  rw [Follows, if_neg (by simp [hk])] at h
  cases v <;> simpa [hk, Kind.precedes] using h.2

/-- `Wire v m q l`: after `m` was taken from the socket it holds `q`, and `l` was sent last. -/
inductive Wire (v : Version) : Part → List Part → Part → Prop where
  | empty (m) : Wire v m [] m
  | cons {m m' q l} : Follows v m m' → Wire v m' q l → Wire v m (m' :: q) l

namespace Wire

variable {v : Version} {m m' l l' : Part} {q : List Part}

theorem send (h : Wire v m q l) (hf : Follows v l l') : Wire v m (q ++ [l']) l' := by
  induction h with
  | empty m => exact .cons hf (.empty l')
  | cons hm _ ih => exact .cons hm (ih hf)

theorem series_le (h : Wire v m q l) : m.series ≤ l.series := by
  induction h with
  | empty m => exact Nat.le_refl _
  | cons hf _ ih => exact Nat.le_trans hf.series_le ih

theorem receive (h : Wire v m q l) (hq : q.head? = some m') :
    Follows v m m' ∧ Wire v m' q.tail l := by
  cases h with
  | empty => cases hq
  | cons hf hw =>
    obtain rfl := Option.some.inj hq
    exact ⟨hf, hw⟩

end Wire

end StreamApi
