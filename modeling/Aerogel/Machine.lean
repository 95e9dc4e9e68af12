import Aerogel.Foundations.Word

/-! # Build targets and the integer conventions of `types.h`

The kernel is built for x86 and for x86_64. `uptr`, `size_t` and `unsigned long` have the width of
a pointer on both, so the same source computes with different moduli; everything that depends on
the width takes the `Target` as a parameter. A call that does not return is a `Halt`. -/

namespace Aerogel

/-- The two targets the kernel is built for. -/
inductive Target
  /-- 32-bit protected mode. -/
  | x86
  /-- 64-bit long mode. -/
  | x86_64
  deriving DecidableEq, Repr

namespace Target

/-- Width of `uptr`, `size_t` and `unsigned long` in bits. -/
def wordBits : Target → Nat
  | .x86 => 32
  | .x86_64 => 64

/-- Size of a pointer in bytes. -/
def ptrBytes : Target → Nat
  | .x86 => 4
  | .x86_64 => 8

/-- Every target's word has at least 32 bits. -/
theorem two_pow_32_le (T : Target) : 2 ^ 32 ≤ 2 ^ T.wordBits := by
  cases T <;> decide

/-- A pointer is as wide as a word. -/
theorem pow_ptrBytes (T : Target) : 256 ^ T.ptrBytes = 2 ^ T.wordBits := by
  cases T <;> rfl

theorem ptrBytes_pos (T : Target) : 0 < T.ptrBytes := by
  cases T <;> decide

end Target

/-- `ALIGN_UP(x, 2 ^ k)` of `types.h`: the sum is reduced in the type of `x` (`bits` wide), the mask
`~(2 ^ k - 1)` is as wide as the type of the alignment (`maskBits`). -/
def alignUp (bits maskBits k x : Nat) : Nat := clearLow maskBits k ((x + (2 ^ k - 1)) % 2 ^ bits)

/-- Rounding up without wrap-around gives the least multiple of `2 ^ k` that is not below `x`. -/
theorem alignUp_of_lt {bits k x : Nat} (hk : k ≤ bits) (hx : x + (2 ^ k - 1) < 2 ^ bits) :
    alignUp bits bits k x = (x + (2 ^ k - 1)) / 2 ^ k * 2 ^ k := by
  rw [alignUp, Nat.mod_eq_of_lt hx, clearLow_of_lt hk hx]

/-- Why a call does not return to its caller. -/
inductive Halt
  /-- `kpanic` with this format string and argument. -/
  | panic (fmt : String) (arg : Nat)
  /-- A CPU exception nobody handles: `isr_dispatch` panics with its number. -/
  | exception (vector : Nat)
  /-- A loop that does not end. -/
  | diverges
  deriving DecidableEq, Repr

/-- A sequence returns when its first part does and then the second. -/
theorem bind_eq_ok {ε α β : Type} {x : Except ε α} {f : α → Except ε β} {b : β} :
    x >>= f = .ok b ↔ ∃ a, x = .ok a ∧ f a = .ok b := by
  cases x with
  | error e =>
      constructor
      · rintro ⟨⟩
      · rintro ⟨a, ⟨⟩, -⟩
  | ok a =>
      constructor
      · exact fun h => ⟨a, rfl, h⟩
      · rintro ⟨a, ⟨⟩, h⟩
        exact h

end Aerogel
