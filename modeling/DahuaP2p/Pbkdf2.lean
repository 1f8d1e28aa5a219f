import DahuaP2p.BigEndian

/-! # PBKDF2

The password-based key derivation function of RFC 8018, for an arbitrary pseudorandom function with
outputs of `hLen` bytes.

* `Prf`: a keyed function whose outputs all have the same length.
* `u P S i k` is `U_{k+1}` of block `i`, `t P S c i` is `T_i`, the exclusive or of `U_1` to `U_c`,
  and `blocks P S c l` is `T_1 ‖ … ‖ T_l`.
* `take_blocks`: more blocks than a key needs do not change it. -/

namespace Pbkdf2

open BigEndian

/-- A keyed function with outputs of `hLen` bytes. -/
structure Prf (hLen : ℕ) where
  eval : Bytes → Bytes → Bytes
  length_eval : ∀ key msg, (eval key msg).length = hLen

/-- The bytewise exclusive or of two byte strings of the same length. -/
def xorBytes (a b : Bytes) : Bytes := List.zipWith (· ^^^ ·) a b

theorem xorBytes_length {a b : Bytes} {n : ℕ} (ha : a.length = n) (hb : b.length = n) :
    (xorBytes a b).length = n := by
  rw [xorBytes, List.length_zipWith, ha, hb, min_self]

theorem xorBytes_zeros (b : Bytes) : xorBytes (List.replicate b.length 0) b = b := by
  induction b with
  | nil => rfl
  | cons x b ih =>
      rw [List.length_cons, List.replicate_succ, xorBytes, List.zipWith_cons_cons,
        UInt8.zero_xor]
      exact congrArg (x :: ·) ih

/-- `INT (i)`: four octets, most significant first. -/
def int (i : ℕ) : Bytes :=
  [UInt8.ofNat (i / 2 ^ 24), UInt8.ofNat (i / 2 ^ 16), UInt8.ofNat (i / 2 ^ 8), UInt8.ofNat i]

section derivation
variable {hLen : ℕ} (prf : Prf hLen) (password salt : Bytes)

/-- `U_{k+1}` of block `i`. -/
def u (i : ℕ) : ℕ → Bytes
  | 0 => prf.eval password (salt ++ int i)
  | k + 1 => prf.eval password (u i k)

/-- `T_i`: the exclusive or of `U_1`, …, `U_c`. -/
def t (c i : ℕ) : Bytes :=
  ((List.range c).map (u prf password salt i)).foldl xorBytes (List.replicate hLen 0)

/-- `T_1 ‖ … ‖ T_l`. -/
def blocks (c l : ℕ) : Bytes := (List.range l).flatMap fun i => t prf password salt c (i + 1)

variable {prf password salt} {c i l : ℕ}

theorem u_length (k : ℕ) : (u prf password salt i k).length = hLen := by
  cases k with
  | zero => exact prf.length_eval _ _
  | succ k => exact prf.length_eval _ _

/-- One more iteration. -/
theorem t_succ : t prf password salt (c + 1) i =
    xorBytes (t prf password salt c i) (u prf password salt i c) := by
  rw [t, List.range_succ, List.map_append, List.foldl_append]
  rfl

theorem t_one : t prf password salt 1 i = u prf password salt i 0 := by
  rw [t_succ]
  have hzeros := xorBytes_zeros (u prf password salt i 0)
  rw [u_length] at hzeros
  exact hzeros

theorem t_length : (t prf password salt c i).length = hLen := by
  induction c with
  | zero => exact List.length_replicate
  | succ c ih =>
      rw [t_succ]
      exact xorBytes_length ih (u_length c)

theorem blocks_succ : blocks prf password salt c (l + 1) =
    blocks prf password salt c l ++ t prf password salt c (l + 1) := by
  rw [blocks, List.range_succ, List.flatMap_append, List.flatMap_singleton]
  rfl

theorem blocks_length : (blocks prf password salt c l).length = hLen * l := by
  induction l with
  | zero => rfl
  | succ l ih => rw [blocks_succ, List.length_append, ih, t_length, Nat.mul_succ]

theorem blocks_prefix {l' : ℕ} (h : l ≤ l') :
    blocks prf password salt c l <+: blocks prf password salt c l' := by
  induction h with
  | refl => exact List.prefix_rfl
  | step _ ih =>
      rw [blocks_succ]
      exact ih.trans (List.prefix_append _ _)

/-- A key is the same whatever number of blocks it is taken from. -/
theorem take_blocks {l' n : ℕ} (hl : n ≤ hLen * l) (hl' : n ≤ hLen * l') :
    (blocks prf password salt c l).take n = (blocks prf password salt c l').take n := by
  have hle : ∀ {l l'}, n ≤ hLen * l → l ≤ l' →
      (blocks prf password salt c l).take n = (blocks prf password salt c l').take n := by
    intro l l' hl hle
    obtain ⟨rest, hrest⟩ :
        blocks prf password salt c l <+: blocks prf password salt c l' := blocks_prefix hle
    rw [← hrest, List.take_append_of_le_length (by rw [blocks_length]; exact hl)]
  rcases le_total l l' with h | h
  · exact hle hl h
  · exact (hle hl' h).symm

end derivation

end Pbkdf2
