import Mathlib.Algebra.Ring.Int.Defs
import Mathlib.Algebra.Ring.Nat

/-! # Common definitions of the OS layer

The integer type `U32` of `sk_std_defs.h`, an `unsigned long` whose width depends on the platform,
and the status codes and time-out constants the modelled functions use. -/

namespace SmIpc.Os

/-- A value of the C type `U32`, `w` bits wide: arithmetic is modulo `2^w`. -/
def u32 (w : ℕ) (x : ℤ) : ℕ := (x % 2 ^ w).toNat

theorem u32_of_lt {w : ℕ} {x : ℤ} {n : ℕ} (hx : x = n) (hn : n < 2 ^ w) : u32 w x = n := by
  subst hx
  rw [u32, Int.emod_eq_of_lt (by omega) (by exact_mod_cast hn), Int.toNat_natCast]

/-- The value is the remainder. -/
theorem natCast_u32 (w : ℕ) (x : ℤ) : (u32 w x : ℤ) = x % 2 ^ w := by
  have hpos : (0 : ℤ) < 2 ^ w := by exact_mod_cast Nat.two_pow_pos w
  exact Int.toNat_of_nonneg (Int.emod_nonneg x (Int.ne_of_gt hpos))

theorem u32_lt (w : ℕ) (x : ℤ) : u32 w x < 2 ^ w := by
  have hpos : (0 : ℤ) < 2 ^ w := by exact_mod_cast Nat.two_pow_pos w
  have h : (u32 w x : ℤ) < 2 ^ w := by
    rw [natCast_u32]
    exact Int.emod_lt_of_pos x hpos
  exact_mod_cast h

/-- A reduced number is reduced again with what is added to it. -/
theorem u32_add (w : ℕ) (x y : ℤ) : u32 w (u32 w x + y) = u32 w (x + y) := by
  rw [u32, natCast_u32, Int.emod_add_emod, u32]

/-- A reduced number is reduced again with what is taken from it. -/
theorem u32_sub (w : ℕ) (x y : ℤ) : u32 w (u32 w x - y) = u32 w (x - y) := by
  rw [Int.sub_eq_add_neg, u32_add, Int.sub_eq_add_neg]

/-- Reducing does not enlarge a number. -/
theorem u32_le (w : ℕ) {x : ℤ} (hx : 0 ≤ x) : (u32 w x : ℤ) ≤ x := by
  have hpos : (0 : ℤ) < 2 ^ w := by exact_mod_cast Nat.two_pow_pos w
  have hdiv : 0 ≤ 2 ^ w * (x / 2 ^ w) :=
    Int.mul_nonneg (Int.le_of_lt hpos) (Int.ediv_nonneg hx (Int.le_of_lt hpos))
  have hsplit := Int.emod_add_mul_ediv x (2 ^ w)
  rw [natCast_u32]
  omega

/-- `sk_status_code_t`, the codes the modelled functions return. -/
inductive SkStatus where
  /-- `SK_SUCCESS`. -/
  | success
  /-- `SK_ERROR_BAD_PARAMETER`. -/
  | errorBadParameter
  /-- `SK_ERROR_NO_MEMORY`. -/
  | errorNoMemory
  /-- `SK_ERROR_TIMEOUT`. -/
  | errorTimeout
  /-- `SK_FAILED`. -/
  | failed
  deriving DecidableEq, Repr

/-- The number of the code in `sk_status_code_e`. -/
def SkStatus.toU32 : SkStatus → ℕ
  | success => 0
  | errorBadParameter => 1
  | errorNoMemory => 2
  | errorTimeout => 11
  | failed => 16

/-- `SK_TIMEOUT_INFINITY`. -/
def skTimeoutInfinity : ℕ := 0xffffffff

/-- `SK_TIMEOUT_IMMEDIATE`. -/
def skTimeoutImmediate : ℕ := 0

/-- `SK_INVALID_ID`. -/
def skInvalidId (w : ℕ) : ℕ := u32 w (-1)

/-- The C library's `memcpy` of `n` bytes from `src` to offset `off` of `dst`. -/
def memcpy (dst : ℕ → UInt8) (off : ℕ) (src : ℕ → UInt8) (n : ℕ) : ℕ → UInt8 :=
  fun k => if off ≤ k ∧ k < off + n then src (k - off) else dst k

/-- The `n` bytes of a memory from offset `off` on. -/
def bytesAt (mem : ℕ → UInt8) (off n : ℕ) : List UInt8 :=
  (List.range n).map fun k => mem (off + k)

@[simp] theorem length_bytesAt (mem : ℕ → UInt8) (off n : ℕ) : (bytesAt mem off n).length = n := by
  simp [bytesAt]

/-- The byte at an offset of a block. -/
theorem getElem?_bytesAt (mem : ℕ → UInt8) (off n k : ℕ) :
    (bytesAt mem off n)[k]? = if k < n then some (mem (off + k)) else none := by
  rw [bytesAt, List.getElem?_map]
  by_cases h : k < n
  · rw [List.getElem?_range h, if_pos h, Option.map_some]
  · rw [if_neg h, List.getElem?_eq_none (by rw [List.length_range]; omega), Option.map_none]

/-- The first bytes of a block are the block cut short. -/
theorem take_bytesAt (mem : ℕ → UInt8) (off : ℕ) {k n : ℕ} (h : k ≤ n) :
    (bytesAt mem off n).take k = bytesAt mem off k := by
  rw [bytesAt, ← List.map_take, List.take_range, Nat.min_eq_left h, bytesAt]

/-- A copy does not reach a block that lies outside it. -/
theorem bytesAt_memcpy_of_disjoint (dst src : ℕ → UInt8) {off n off' n' : ℕ}
    (h : off' + n' ≤ off ∨ off + n ≤ off') :
    bytesAt (memcpy dst off src n) off' n' = bytesAt dst off' n' := by
  refine List.map_congr_left ?_
  intro k hk
  have hk' : k < n' := List.mem_range.mp hk
  rw [memcpy, if_neg (by omega)]

/-- What was copied is found where it was copied to. -/
theorem bytesAt_memcpy_self (dst src : ℕ → UInt8) (off n : ℕ) :
    bytesAt (memcpy dst off src n) off n = bytesAt src 0 n := by
  refine List.map_congr_left ?_
  intro k hk
  have hk' : k < n := List.mem_range.mp hk
  rw [memcpy, if_pos (by omega), Nat.add_sub_cancel_left, Nat.zero_add]

/-- A block after a copy over its beginning: what was copied, and the rest as it was. -/
theorem bytesAt_memcpy (dst src : ℕ → UInt8) {off n k : ℕ} (h : n ≤ k) :
    bytesAt (memcpy dst off src n) off k = bytesAt src 0 n ++ (bytesAt dst off k).drop n := by
  apply List.ext_getElem?
  intro b
  rw [List.getElem?_append, length_bytesAt, getElem?_bytesAt, memcpy]
  by_cases hb : b < n
  · rw [if_pos hb, if_pos (by omega), if_pos (by omega), getElem?_bytesAt, if_pos hb,
      Nat.add_sub_cancel_left, Nat.zero_add]
  · rw [if_neg hb, List.getElem?_drop, Nat.add_sub_cancel' (by omega), getElem?_bytesAt,
      if_neg (by omega : ¬ (off ≤ off + b ∧ off + b < off + n))]

end SmIpc.Os
