import Mathlib.Data.List.Basic
import Mathlib.Tactic.Ring

/-! # Byte strings, big-endian words and trailing zeros

Byte strings are lists of `UInt8`.  `putUint32` and `uint32` are the big-endian encoding of a
32-bit word and its inverse, `slice` is the half-open slice `b[i:j]`, and `tagged tag n` is the
word that carries an 8-bit tag in its top byte and a length below it.  The lemmas say how
these operations compose; each of them is an identity on byte strings of any length.

`trimZeros` removes every trailing zero byte.  Its length is characterised exactly
(`trimZeros_length_eq_iff`): the string keeps its length iff it is empty or its last byte is
not zero. -/

namespace BigEndian

/-- Byte strings. -/
abbrev Bytes := List UInt8

/-- The slice `b[i:j]`. -/
def slice (b : Bytes) (i j : ℕ) : Bytes := (b.drop i).take (j - i)

/-- The four bytes of a word, most significant first. -/
def putUint32 (v : UInt32) : Bytes :=
  [UInt8.ofNat (v.toNat / 2 ^ 24), UInt8.ofNat (v.toNat / 2 ^ 16),
    UInt8.ofNat (v.toNat / 2 ^ 8), UInt8.ofNat v.toNat]

/-- The word at the front of a byte string, most significant byte first. -/
def uint32 (b : Bytes) : UInt32 :=
  UInt32.ofNat ((b.getD 0 0).toNat * 2 ^ 24 + (b.getD 1 0).toNat * 2 ^ 16 +
    (b.getD 2 0).toNat * 2 ^ 8 + (b.getD 3 0).toNat)

@[simp] theorem putUint32_length (v : UInt32) : (putUint32 v).length = 4 := rfl

theorem uint32_putUint32_append (v : UInt32) (rest : Bytes) :
    uint32 (putUint32 v ++ rest) = v := by
  apply UInt32.toNat_inj.mp
  have h := v.toNat_lt
  simp only [uint32, putUint32, List.cons_append, List.nil_append, List.getD_cons_zero,
    List.getD_cons_succ, UInt32.toNat_ofNat', UInt8.toNat_ofNat']
  omega

@[simp] theorem uint32_putUint32 (v : UInt32) : uint32 (putUint32 v) = v := by
  have := uint32_putUint32_append v []
  rwa [List.append_nil] at this

/-! ### Tagged lengths -/

/-- An 8-bit tag above a 24-bit length, as the word `tag << 24 | n`. -/
def tagged (tag : UInt8) (n : UInt32) : UInt32 := (tag.toUInt32 <<< 24) ||| n

theorem tagged_toNat (tag : UInt8) {n : UInt32} (h : n.toNat < 2 ^ 24) :
    (tagged tag n).toNat = tag.toNat * 2 ^ 24 + n.toNat := by
  have ht : tag.toNat < 256 := tag.toNat_lt
  have e : (tag.toUInt32 <<< 24).toNat = 2 ^ 24 * tag.toNat := by
    simp only [UInt32.toNat_shiftLeft, UInt8.toNat_toUInt32, UInt32.reduceToNat, Nat.reduceMod,
      Nat.shiftLeft_eq]
    omega
  rw [tagged, UInt32.toNat_or, e, ← Nat.two_pow_add_eq_or_of_lt h]
  ring

/-- The first byte of a tagged length is its tag. -/
theorem head_putUint32_tagged (tag : UInt8) {n : UInt32} (h : n.toNat < 2 ^ 24) :
    UInt8.ofNat ((tagged tag n).toNat / 2 ^ 24) = tag := by
  apply UInt8.toNat_inj.mp
  have ht : tag.toNat < 256 := tag.toNat_lt
  rw [tagged_toNat tag h, UInt8.toNat_ofNat']
  omega

/-- Masking the low 24 bits of a tagged length gives the length back. -/
theorem tagged_and_mask (tag : UInt8) {n : UInt32} (h : n.toNat < 2 ^ 24) :
    tagged tag n &&& 0xFFFFFF = n := by
  apply UInt32.toNat_inj.mp
  have e : (0xFFFFFF : UInt32).toNat = 2 ^ 24 - 1 := rfl
  rw [UInt32.toNat_and, e, Nat.and_two_pow_sub_one_eq_mod, tagged_toNat tag h]
  omega

theorem toNat_ofNat_length {n k : ℕ} (h : n < 2 ^ k) (hk : k ≤ 32) :
    (UInt32.ofNat n).toNat = n := by
  have : 2 ^ k ≤ 2 ^ 32 := Nat.pow_le_pow_right (by norm_num) hk
  rw [UInt32.toNat_ofNat']
  omega

/-! ### Trailing zeros -/

/-- The byte string without its trailing zero bytes. -/
def trimZeros (b : Bytes) : Bytes := (b.reverse.dropWhile (· == 0)).reverse

theorem trimZeros_eq_self {b : Bytes} (h : b.getLast? ≠ some 0) : trimZeros b = b := by
  have hd : b.reverse.dropWhile (· == 0) = b.reverse := by
    cases hr : b.reverse with
    | nil => rfl
    | cons x xs =>
        have hx : b.getLast? = some x := by
          rw [← List.head?_reverse, hr]; rfl
        have hne : x ≠ 0 := fun e => h (by rw [hx, e])
        simp [hne]
  rw [trimZeros, hd, List.reverse_reverse]

theorem trimZeros_length_le (b : Bytes) : (trimZeros b).length ≤ b.length := by
  simpa [trimZeros] using (List.dropWhile_sublist (· == 0) (l := b.reverse)).length_le

theorem trimZeros_length_lt {b : Bytes} (h : b.getLast? = some 0) :
    (trimZeros b).length < b.length := by
  rw [← List.head?_reverse] at h
  have hl : b.length = b.reverse.length := by simp
  rw [trimZeros, List.length_reverse, hl]
  cases hr : b.reverse with
  | nil => simp [hr] at h
  | cons x xs =>
      rw [hr] at h
      obtain rfl : x = 0 := by simpa using h
      have := (List.dropWhile_sublist (· == (0 : UInt8)) (l := xs)).length_le
      simp only [BEq.rfl, List.dropWhile_cons_of_pos, List.length_cons]
      omega

/-- A trimmed byte string does not end in a zero byte. -/
theorem trimZeros_getLast? (b : Bytes) : (trimZeros b).getLast? ≠ some 0 := by
  have hhead := List.head?_dropWhile_not (· == (0 : UInt8)) b.reverse
  rw [trimZeros, List.getLast?_reverse]
  intro h
  simp [h] at hhead

/-- Trimming keeps the length exactly when there is nothing to trim. -/
theorem trimZeros_length_eq_iff (b : Bytes) :
    (trimZeros b).length = b.length ↔ b.getLast? ≠ some 0 := by
  constructor
  · intro h hz
    have := trimZeros_length_lt hz
    omega
  · intro h
    rw [trimZeros_eq_self h]

end BigEndian
