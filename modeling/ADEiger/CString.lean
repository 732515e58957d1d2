import Mathlib.Data.List.Basic
import Mathlib.Data.List.TakeWhile
import Mathlib.Data.Nat.Notation
import Mathlib.Data.Int.Basic
import Mathlib.Algebra.Group.Nat.Defs
import Mathlib.Algebra.Group.Int.Defs
import Mathlib.Tactic.ByContra
import Mathlib.Tactic.SplitIfs

/-! Strings and buffers of C.
A string ends before its first NUL. What was written to a buffer is a list of bytes; what
lies after it was not written. -/
namespace CString

abbrev Text := List Char

variable {t u v : List Char} {c : Char} {n : ℕ}

def NUL : Char := Char.ofNat 0

/-- The part of a text that `c_str` shows to a C function. -/
def cstr (t : List Char) : List Char := t.takeWhile (· ≠ NUL)

theorem cstr_of_not_mem (h : NUL ∉ t) : cstr t = t := by
  have hpos : ∀ c ∈ t, decide (c ≠ NUL) = true := by
    intro c hc
    have hne : c ≠ NUL := fun he => h (he ▸ hc)
    simpa using hne
  calc cstr t = (t ++ []).takeWhile (· ≠ NUL) := by rw [List.append_nil, cstr]
    _ = t ++ [].takeWhile (· ≠ NUL) := List.takeWhile_append_of_pos hpos
    _ = t := by rw [List.takeWhile_nil, List.append_nil]

theorem cstr_of_mem (h : NUL ∈ t) : ∃ rest, t = cstr t ++ NUL :: rest := by
  induction t with
  | nil => cases h
  | cons c t ih =>
    by_cases hc : c = NUL
    · exact ⟨t, by simp [cstr, hc]⟩
    · obtain ⟨rest, hrest⟩ := ih ((List.mem_cons.mp h).resolve_left (Ne.symm hc))
      exact ⟨rest, by simpa [cstr, hc] using hrest⟩

theorem length_cstr_lt (h : NUL ∈ t) : (cstr t).length < t.length := by
  obtain ⟨rest, hrest⟩ := cstr_of_mem h
  have hlen := congrArg List.length hrest
  simp only [List.length_append, List.length_cons] at hlen
  omega

theorem length_cstr_le (t : List Char) : (cstr t).length ≤ t.length :=
  (List.takeWhile_prefix _).length_le

/-- A text is cut at the last place of a character in one way. -/
theorem last_unique {a b : List Char} (h : t ++ c :: a = u ++ c :: b) (ha : c ∉ a) (hb : c ∉ b) :
    t = u ∧ a = b := by
  rcases List.append_eq_append_iff.mp h with ⟨w, rfl, hw⟩ | ⟨w, rfl, hw⟩
  · cases w with
    | nil => exact ⟨(List.append_nil t).symm, (List.cons.inj hw).2⟩
    | cons x w =>
      obtain ⟨-, rfl⟩ := List.cons.inj hw
      exact absurd (List.mem_append_right w List.mem_cons_self) ha
  · cases w with
    | nil => exact ⟨List.append_nil u, (List.cons.inj hw).2.symm⟩
    | cons x w =>
      obtain ⟨-, rfl⟩ := List.cons.inj hw
      exact absurd (List.mem_append_right w List.mem_cons_self) hb

def INT_MAX : ℤ := 2 ^ 31 - 1

/-- An `int` where a `size_t` is expected. -/
def sizeT (n : ℤ) : ℕ := (n % 2 ^ 64).toNat

/-- What `snprintf` leaves in a buffer, terminator included, and the value it returns. -/
structure Formatted where
  written : List Char
  returned : ℤ
  deriving DecidableEq

/-- The value returned is the length of the whole text. -/
def snprintf (bufSize : ℕ) (text : List Char) : Formatted where
  written := text.take (bufSize - 1) ++ [NUL]
  returned := if (text.length : ℤ) ≤ INT_MAX then text.length else -1

theorem sizeT_returned (h : sizeT (snprintf n t).returned < 2 ^ 63) :
    sizeT (snprintf n t).returned = t.length := by
  unfold snprintf sizeT INT_MAX at *
  dsimp only at *
  split_ifs at * with hlen <;> omega

theorem sizeT_returned_of_lt (h : t.length < 2 ^ 31) :
    sizeT (snprintf n t).returned = t.length := by
  apply sizeT_returned
  unfold snprintf sizeT INT_MAX
  dsimp only
  split_ifs <;> omega

theorem length_written : (snprintf n t).written.length = min t.length (n - 1) + 1 := by
  simp [snprintf, Nat.min_comm]

theorem returned_le_written (h : t.length < n) (hn : n < 2 ^ 31) :
    sizeT (snprintf n t).returned ≤ (snprintf n t).written.length := by
  rw [sizeT_returned_of_lt (Nat.lt_trans h hn), length_written]
  omega

/-- `memcpy` from a buffer; what was not written has no value. -/
def memcpy (written : List Char) (n : ℕ) : List (Option Char) := (List.range n).map (written[·]?)

theorem map_some_injective : Function.Injective (List.map (some : Char → Option Char)) :=
  List.map_injective_iff.mpr fun _ _ => Option.some.inj

theorem memcpy_of_le (h : n ≤ t.length) : memcpy t n = (t.take n).map some := by
  apply List.ext_getElem?
  intro i
  by_cases hi : i < n
  · have ht : i < t.length := Nat.lt_of_lt_of_le hi h
    simp [memcpy, List.getElem?_take_of_lt hi, List.getElem?_range hi, ht]
  · rw [List.getElem?_eq_none (by simp [memcpy]; omega), List.getElem?_eq_none (by simp; omega)]

/-- Two texts that go on differently after the same beginning. -/
theorem eq_of_append_cons {x y : Char} (h : t ++ x :: u = t ++ y :: v) : x = y :=
  (List.cons.inj (List.append_cancel_left h)).1

/-- What a copy of as many bytes as a formatted text has takes from the buffer. -/
def copied (n : ℕ) (t : List Char) : List Char :=
  if t.length < n then t else t.take (n - 1) ++ [NUL]

/-- A copy that stays inside what was written; a text with one byte too many has the
terminator for its last. -/
theorem memcpy_snprintf (hn : 0 < n) (hmax : n < 2 ^ 31)
    (h : sizeT (snprintf n t).returned ≤ (snprintf n t).written.length) :
    sizeT (snprintf n t).returned = t.length ∧ t.length ≤ n ∧
      memcpy (snprintf n t).written (sizeT (snprintf n t).returned) = (copied n t).map some := by
  have hw := length_written (t := t) (n := n)
  have hsize : sizeT (snprintf n t).returned = t.length := sizeT_returned (by omega)
  have hle : t.length ≤ n := by omega
  refine ⟨hsize, hle, ?_⟩
  rw [memcpy_of_le h, hsize]
  unfold copied snprintf
  dsimp only
  by_cases hlt : t.length < n
  · rw [if_pos hlt, List.take_of_length_le (i := n - 1) (by omega)]
    simp
  · rw [if_neg hlt, List.take_of_length_le (by simp; omega)]

theorem copied_of_lt (h : t.length < n) : copied n t = t := if_pos h

theorem length_copied (h : t.length ≤ n) : (copied n t).length = t.length ∨ n = 0 := by
  rw [copied]
  by_cases hlt : t.length < n
  · rw [if_pos hlt]
    exact .inl rfl
  · rw [if_neg hlt, List.length_append, List.length_take, List.length_singleton]
    omega

theorem copied_of_eq (h : t.length = n) : copied n t = t.take (n - 1) ++ [NUL] :=
  if_neg (by omega)

theorem copied_append_cons (h : t.length + 1 < n) :
    ∃ w, copied n (t ++ c :: u) = t ++ c :: w := by
  rw [copied]
  by_cases hlt : (t ++ c :: u).length < n
  · exact ⟨u, if_pos hlt⟩
  · obtain ⟨k, hk⟩ : ∃ k, n - 1 - t.length = k + 1 := ⟨n - 2 - t.length, by omega⟩
    refine ⟨u.take k ++ [NUL], ?_⟩
    rw [if_neg hlt, List.take_append, List.take_of_length_le (by omega), hk]
    simp

/-- A text that does not end with a NUL is copied whole only with room for the terminator. -/
theorem length_lt_of_copied {w : List Char} (hc : c ≠ NUL) (h : t.length + 1 ≤ n)
    (hcopy : copied n (t ++ [c]) ++ u = t ++ c :: w) : t.length + 1 < n := by
  by_contra hlt
  have hfull : ¬ (t ++ [c]).length < n := by simpa using hlt
  have htake : (t ++ [c]).take (n - 1) = t := by
    rw [List.take_append_of_le_length (by omega), List.take_of_length_le (by omega)]
  rw [copied, if_neg hfull, htake, List.append_assoc] at hcopy
  exact hc (eq_of_append_cons hcopy).symm

/-- A text that `cstr` cuts short shows in the copy. -/
theorem not_mem_of_copied {w x : List Char} (hc : c ≠ NUL) (hlen : (t ++ cstr x).length + 1 < n)
    (h : copied n (t ++ cstr x ++ c :: u) ++ v = t ++ x ++ w) : NUL ∉ x := by
  intro hx
  obtain ⟨rest, hrest⟩ := cstr_of_mem hx
  obtain ⟨y, hy⟩ := copied_append_cons (u := u) (c := c) hlen
  have hcut : t ++ cstr x ++ NUL :: (rest ++ w) = t ++ x ++ w := by
    conv_rhs => rw [hrest]
    simp only [List.append_assoc, List.cons_append]
  have hnext : t ++ cstr x ++ c :: (y ++ v) = t ++ cstr x ++ NUL :: (rest ++ w) := by
    rw [hcut, ← h, hy]
    simp only [List.append_assoc, List.cons_append]
  exact hc (eq_of_append_cons hnext)

section Reading

/-! Functions that read on in memory until they have their answer. Only the bytes of the text
are known; `none` is a read past them. -/

def strchr (c : Char) : List Char → Option (Option ℕ)
  | [] => none
  | x :: t =>
    if x = c then some (some 0)
    else if x = NUL then some none
    else (strchr c t).map (·.map (· + 1))

/-- The number that decimal digits stand for. -/
def digitsValue (ds : List Char) : ℕ := ds.foldl (fun n c => 10 * n + (c.toNat - 48)) 0

def startsWith : List Char → List Char → Option Bool
  | [], _ => some true
  | _ :: _, [] => none
  | n :: needle, x :: t => if x = n then startsWith needle t else some false

def strstr (needle : List Char) : List Char → Option (Option ℕ)
  | [] => none
  | x :: t =>
    match startsWith needle (x :: t) with
    | none => none
    | some true => some (some 0)
    | some false => if x = NUL then some none else (strstr needle t).map (·.map (· + 1))

/-- The longest beginning that satisfies `p`, and what follows. -/
def span (p : Char → Bool) : List Char → Option (List Char × List Char)
  | [] => none
  | x :: t => if p x then (span p t).map fun s => (x :: s.1, s.2) else some ([], x :: t)

variable {needle : List Char} {i : ℕ} {p : Char → Bool}

theorem strchr_eq (hc : c ∉ t) (hn : NUL ∉ t) :
    strchr c (t ++ c :: u) = some (some t.length) := by
  induction t with
  | nil => simp [strchr]
  | cons x t ih =>
    obtain ⟨hx, hc⟩ := List.ne_and_not_mem_of_not_mem_cons hc
    obtain ⟨hnx, hn⟩ := List.ne_and_not_mem_of_not_mem_cons hn
    simp [strchr, Ne.symm hx, Ne.symm hnx, ih hc hn]

theorem startsWith_self : startsWith needle (needle ++ u) = some true := by
  induction needle with
  | nil => rfl
  | cons n needle ih => simpa [startsWith] using ih

theorem strstr_eq (hc : c ∉ t) (hn : NUL ∉ t) :
    strstr (c :: needle) (t ++ (c :: needle ++ u)) = some (some t.length) := by
  induction t with
  | nil =>
    have hself : startsWith (c :: needle) (c :: (needle ++ u)) = some true := startsWith_self
    simp [strstr, hself]
  | cons x t ih =>
    obtain ⟨hx, hc⟩ := List.ne_and_not_mem_of_not_mem_cons hc
    obtain ⟨hnx, hn⟩ := List.ne_and_not_mem_of_not_mem_cons hn
    have hother : startsWith (c :: needle) (x :: (t ++ (c :: needle ++ u))) = some false :=
      if_neg (Ne.symm hx)
    rw [List.cons_append, strstr, hother]
    simp only [if_neg (Ne.symm hnx), ih hc hn, Option.map_some, List.length_cons]

theorem span_append_cons (hc : p c = false) :
    span p (t ++ c :: u) = some (t.takeWhile p, t.dropWhile p ++ c :: u) := by
  induction t with
  | nil => simp [span, hc]
  | cons x t ih =>
    by_cases hx : p x = true
    · simp [span, hx, ih]
    · simp [span, hx]

theorem span_eq (ht : ∀ x ∈ t, p x = true) (hc : p c = false) :
    span p (t ++ c :: u) = some (t, c :: u) := by
  rw [span_append_cons hc, List.takeWhile_eq_self_iff.mpr ht, List.dropWhile_eq_nil_iff.mpr ht,
    List.nil_append]

end Reading

section Digits

theorem isDigit_of_mem_digits (h : c ∈ Nat.toDigits 10 n) : c.isDigit = true :=
  Nat.isDigit_of_mem_toDigits (by decide) (by decide) h

theorem takeWhile_digits (hc : c.isDigit = false) :
    (Nat.toDigits 10 n ++ c :: t).takeWhile Char.isDigit = Nat.toDigits 10 n := by
  rw [List.takeWhile_append_of_pos fun x hx => isDigit_of_mem_digits hx]
  simp [hc]

theorem digits_injective {m : ℕ} (hc : c.isDigit = false)
    (h : Nat.toDigits 10 n ++ c :: t = Nat.toDigits 10 m ++ c :: u) : n = m := by
  have hdigits := congrArg (List.takeWhile Char.isDigit) h
  rw [takeWhile_digits hc, takeWhile_digits hc] at hdigits
  rw [← Nat.ofDigitChars_ten_toDigits (n := n), hdigits, Nat.ofDigitChars_ten_toDigits]

end Digits

end CString
