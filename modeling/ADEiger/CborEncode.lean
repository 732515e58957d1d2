import ADEiger.Cbor

/-! An encoder of the data items of CBOR.
Lengths are known, and a head is as short as it can be. -/
namespace Cbor

variable {m : UInt8} {k n : ℕ} {content : Bytes} {items : List Bytes}
  {fits : UInt8 → ℕ → Prop} {d : ℕ}

section Numbers

/-- The lowest `k` bytes of a number, the upper ones first. -/
def bytesOf : ℕ → ℕ → Bytes
  | 0, _ => []
  | k + 1, n => bytesOf k (n / 256) ++ [UInt8.ofNat n]

theorem bytesOf_length (k n : ℕ) : (bytesOf k n).length = k := by
  induction k generalizing n with
  | zero => rfl
  | succ k ih => rw [bytesOf, List.length_append, ih, List.length_singleton]

theorem bigEndian_concat (bytes : Bytes) (byte : UInt8) :
    bigEndian (bytes ++ [byte]) = 256 * bigEndian bytes + byte.toNat := by
  rw [bigEndian, List.foldl_append]
  rfl

theorem bigEndian_bytesOf (h : n < 256 ^ k) : bigEndian (bytesOf k n) = n := by
  induction k generalizing n with
  | zero => exact (Nat.lt_one_iff.mp h).symm
  | succ k ih =>
    have hupper : n / 256 < 256 ^ k := Nat.div_lt_of_lt_mul (by rwa [Nat.mul_comm, ← Nat.pow_succ])
    have hlower : (UInt8.ofNat n).toNat = n % 256 := UInt8.toNat_ofNat'
    rw [bytesOf, bigEndian_concat, ih hupper, hlower]
    exact Nat.div_add_mod n 256

end Numbers

section Heads

/-- The additional information of the shortest head. -/
def shortest (n : ℕ) : ℕ :=
  if n < 24 then n
  else if n < 256 ^ 1 then 24
  else if n < 256 ^ 2 then 25
  else if n < 256 ^ 4 then 26
  else 27

def encodeHead (m : UInt8) (n : ℕ) : Bytes :=
  (m ||| UInt8.ofNat (shortest n)) :: bytesOf (argumentLength (shortest n)) n

theorem shortest_lt (n : ℕ) : shortest n < 28 := by
  simp only [shortest]
  split_ifs <;> omega

theorem shortest_room (hn : n < 256 ^ 8) (h : ¬ shortest n < 24) :
    n < 256 ^ argumentLength (shortest n) := by
  simp only [shortest] at h ⊢
  split_ifs at h ⊢ with hsmall hone htwo hfour
  · exact absurd hsmall h
  · exact hone
  · exact htwo
  · exact hfour
  · exact hn

theorem shortest_small (h : shortest n < 24) : shortest n = n := by
  simp only [shortest] at h ⊢
  split_ifs at h ⊢ <;> omega

/-- The major types. -/
def majorTypes : List UInt8 :=
  [unsignedInteger, negativeInteger, byteString, textString, array, map, tag, simpleOrFloat]

theorem firstByte (hm : m ∈ majorTypes) {info : ℕ} (hinfo : info < 28) :
    majorType (m ||| UInt8.ofNat info) = m ∧ additionalInfo (m ||| UInt8.ofNat info) = info := by
  have hall : ∀ m ∈ majorTypes, ∀ info < 28, majorType (m ||| UInt8.ofNat info) = m ∧
      additionalInfo (m ||| UInt8.ofNat info) = info := by decide +kernel
  exact hall m hm info hinfo

theorem encodeHead_head (hm : m ∈ majorTypes) (hn : n < 256 ^ 8) : Head m n (encodeHead m n) := by
  obtain ⟨hmajor, hinfo⟩ := firstByte hm (shortest_lt n)
  refine .of hmajor ?_ (hinfo.symm ▸ shortest_lt n) (by rw [hinfo, bytesOf_length])
  rw [argumentValue, hinfo]
  split_ifs with hsmall
  · exact shortest_small hsmall
  · exact bigEndian_bytesOf (shortest_room hn hsmall)

end Heads

section Items

def encodeText (content : Bytes) : Bytes := encodeHead textString content.length ++ content

def encodeBytes (content : Bytes) : Bytes := encodeHead byteString content.length ++ content

def encodeArray (items : List Bytes) : Bytes := encodeHead array items.length ++ items.flatten

/-- The items of a map are its keys and their values in turn. -/
def encodeMap (items : List Bytes) : Bytes := encodeHead map (items.length / 2) ++ items.flatten

def encodeTag (n : ℕ) (item : Bytes) : Bytes := encodeHead tag n ++ item

def encodeBool (b : Bool) : Bytes := [if b then 0xf5 else 0xf4]

/-- A floating point number of 64 bits. -/
def encodeDouble (bits : ℕ) : Bytes := 0xfb :: bytesOf 8 bits

theorem encodeText_str (h : content.length < 256 ^ 8) :
    Str textString content (encodeText content) :=
  .known (encodeHead_head (by decide) h) rfl

theorem encodeBytes_head (h : content.length < 256 ^ 8) :
    Head byteString content.length (encodeHead byteString content.length) :=
  encodeHead_head (by decide) h

theorem encodeArray_encloses (h : items.length < 256 ^ 8) (hfits : fits array items.length) :
    Encloses fits array items (encodeArray items) :=
  .counted (encodeHead_head (by decide) h) hfits (if_neg (by decide)).symm

theorem encodeTag_wellFormed (hn : n < 256 ^ 8) {item : Bytes} (h : WellFormed item) :
    WellFormed (encodeTag n item) :=
  wellFormed_tagged (encodeHead_head (by decide) hn) h

theorem encodeDouble_head {bits : ℕ} (h : bits < 256 ^ 8) :
    Head simpleOrFloat bits (encodeDouble bits) :=
  .of rfl (bigEndian_bytesOf h) (by decide) (bytesOf_length 8 bits)

end Items

end Cbor
