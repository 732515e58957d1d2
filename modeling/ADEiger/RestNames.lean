import Mathlib.Data.List.Basic
import Mathlib.Data.Int.Basic

/-! File names of one acquisition, as `RestAPI::buildMasterName` and
`RestAPI::buildDataName` format them into a caller's buffer. -/
namespace RestNames

/-- Offset of the first occurrence, as C `strstr` finds it in a string without its terminator.
`CString.strstr` searches a buffer that may have none. -/
def strstr (needle : List Char) : List Char → Option ℕ
  | [] => if needle = [] then some 0 else none
  | c :: cs =>
    if needle.isPrefixOf (c :: cs) then some 0 else (strstr needle cs).map (· + 1)

/-- What `epicsSnprintf` leaves before the terminator of a buffer of `bufSize` bytes. -/
def epicsSnprintf (bufSize : ℕ) (text : List Char) : List Char := text.take (bufSize - 1)

def ID_STR : List Char := "$id".toList

/-- The conversion `%d`. -/
def decimal (n : ℤ) : List Char := (toString n).toList

/-- The conversion `%06d`: zeros after the sign up to six characters. -/
def decimal06 (n : ℤ) : List Char :=
  let digits := decimal n.natAbs
  if n < 0 then '-' :: (List.replicate (5 - digits.length) '0' ++ digits)
  else List.replicate (6 - digits.length) '0' ++ digits

/-- The pattern with its first `$id` replaced by the sequence id. -/
def expandId (pattern : List Char) (seqId : ℤ) : List Char :=
  match strstr ID_STR pattern with
  | some prefixLen =>
    pattern.take prefixLen ++ decimal seqId ++ pattern.drop (prefixLen + ID_STR.length)
  | none => pattern

def buildMasterName (pattern : List Char) (seqId : ℤ) (bufSize : ℕ) : List Char :=
  epicsSnprintf bufSize (expandId pattern seqId ++ "_master.h5".toList)

def buildDataName (n : ℤ) (pattern : List Char) (seqId : ℤ) (bufSize : ℕ) : List Char :=
  epicsSnprintf bufSize
    (expandId pattern seqId ++ "_data_".toList ++ decimal06 n ++ ".h5".toList)

section Decimal

variable {m n : ℕ}

theorem decimal_natCast (n : ℕ) : decimal n = Nat.toDigits 10 n := Nat.toList_repr

theorem decimal_negSucc (n : ℕ) : decimal (Int.negSucc n) = '-' :: Nat.toDigits 10 (n + 1) := by
  have hrepr : toString (Int.negSucc n) = "-" ++ Nat.repr (n + 1) := rfl
  rw [decimal, hrepr, String.toList_append, Nat.toList_repr]
  rfl

theorem toDigits_injective (h : Nat.toDigits 10 m = Nat.toDigits 10 n) : m = n := by
  rw [← Nat.ofDigitChars_ten_toDigits (n := m), h, Nat.ofDigitChars_ten_toDigits]

theorem minus_notMem_toDigits (n : ℕ) : '-' ∉ Nat.toDigits 10 n := by
  intro h
  have hdigit : '-'.isDigit = true := Nat.isDigit_of_mem_toDigits (by decide) (by decide) h
  cases hdigit

theorem decimal_injective {a b : ℤ} (h : decimal a = decimal b) : a = b := by
  cases a with
  | ofNat m =>
    cases b with
    | ofNat n =>
      have h : decimal (m : ℤ) = decimal (n : ℤ) := h
      rw [decimal_natCast, decimal_natCast] at h
      exact congrArg Int.ofNat (toDigits_injective h)
    | negSucc n =>
      have h : decimal (m : ℤ) = decimal (Int.negSucc n) := h
      rw [decimal_natCast, decimal_negSucc] at h
      exact absurd (h ▸ List.mem_cons_self) (minus_notMem_toDigits m)
  | negSucc m =>
    cases b with
    | ofNat n =>
      have h : decimal (Int.negSucc m) = decimal (n : ℤ) := h
      rw [decimal_natCast, decimal_negSucc] at h
      exact absurd (h ▸ List.mem_cons_self) (minus_notMem_toDigits n)
    | negSucc n =>
      rw [decimal_negSucc, decimal_negSucc] at h
      have := toDigits_injective (List.cons.inj h).2
      rw [Nat.succ.inj this]

end Decimal

example : buildDataName 2 "series_$id".toList 7 256 = "series_7_data_000002.h5".toList := by
  decide

end RestNames
