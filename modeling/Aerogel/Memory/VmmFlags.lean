import Aerogel.Memory.VmmX64

/-! # Flags of x86_64 page table entries

`vmm_map` enters its 64-bit `flags` next to the frame's address, and `vmm_phys` takes the low 12 bits off
again. All flags of `vmm.h` but one lie there: `PTE_NX` is bit 63. A mapping with other bits in its flags
is one without them to another physical address (`vmmMap_flags`), so that the tables stay in order
whatever the calls ask for, but `vmm_phys` returns the mapped address exactly for mappings without
`PTE_NX` (`vmmPhys_vmmMap_iff`). -/

namespace Aerogel

namespace X64

/-- `PTE_USER`. -/
def pteUser : Nat := 0x04

/-- `PTE_NX`. -/
def pteNx : Nat := 1 <<< 63

/-- The flags that `vmm.h` defines, each set or not. -/
structure PteFlags where
  /-- `PTE_PRESENT`. -/
  present : Bool
  /-- `PTE_WRITABLE`. -/
  writable : Bool
  /-- `PTE_USER`. -/
  user : Bool
  /-- `PTE_HUGE`. -/
  huge : Bool
  /-- `PTE_NX`. -/
  nx : Bool
  deriving DecidableEq, Repr

/-- The flags as a `u64`. -/
def PteFlags.value (f : PteFlags) : Nat :=
  (if f.present then ptePresent else 0) ||| (if f.writable then pteWritable else 0) |||
    (if f.user then pteUser else 0) ||| (if f.huge then pteHuge else 0) |||
    (if f.nx then pteNx else 0)

/-- One thing that happens to the tables: a call with any arguments that is supplied with frames, or a
write by other code. -/
inductive PagingStep (F : Frames .x86_64) : Vmm → PageOp → Vmm → Prop
  /-- `vmm_map`. -/
  | map {s : Vmm} {virt phys flags : Nat} : flags < 2 ^ 64 →
      Supplied F (vmmMap F s virt phys flags) →
      PagingStep F s (.map virt phys flags) (vmmMap F s virt phys flags)
  /-- `vmm_unmap`. -/
  | unmap {s : Vmm} {virt : Nat} : PagingStep F s (.unmap virt) (vmmUnmap F s virt)
  /-- Other code writes outside the frames that paging holds. -/
  | other {s : Vmm} {m' : Mem} : s.Untouched F m' → PagingStep F s .other { s with mem := m' }

/-- The states after `vmm_init` and any such steps. -/
def PagingReachable (F : Frames .x86_64) (m : Mem) (s : Vmm) : Prop :=
  Supplied F (vmmInit F m) ∧ Reachable (PagingStep F) (vmmInit F m) s

variable {F : Frames .x86_64} {s s' : Vmm} {M : Nat → Option Nat}

/-! ## Addresses beyond 48 bits and flags beyond the low bits -/

/-- The code does not look at the bits from 48 on. -/
theorem index_mod (a : Nat) :
    index 39 (a % 2 ^ 48) = index 39 a ∧ index 30 (a % 2 ^ 48) = index 30 a ∧
      index 21 (a % 2 ^ 48) = index 21 a ∧ index 12 (a % 2 ^ 48) = index 12 a := by
  refine ⟨Fin.ext ?_, Fin.ext ?_, Fin.ext ?_, Fin.ext ?_⟩
  · change a % 2 ^ 48 / 2 ^ 39 % 512 = a / 2 ^ 39 % 512
    omega
  · change a % 2 ^ 48 / 2 ^ 30 % 512 = a / 2 ^ 30 % 512
    omega
  · change a % 2 ^ 48 / 2 ^ 21 % 512 = a / 2 ^ 21 % 512
    omega
  · change a % 2 ^ 48 / 2 ^ 12 % 512 = a / 2 ^ 12 % 512
    omega

/-- `vmm_map` of an address is `vmm_map` of its low 48 bits. -/
theorem vmmMap_mod (F : Frames .x86_64) (s : Vmm) (virt phys flags : Nat) :
    vmmMap F s (virt % 2 ^ 48) phys flags = vmmMap F s virt phys flags := by
  obtain ⟨h₁, h₂, h₃, h₄⟩ := index_mod virt
  rw [vmmMap_eq, vmmMap_eq, h₁, h₂, h₃, h₄]

/-- `vmm_unmap` of an address is `vmm_unmap` of its low 48 bits. -/
theorem vmmUnmap_mod (F : Frames .x86_64) (s : Vmm) (virt : Nat) :
    vmmUnmap F s (virt % 2 ^ 48) = vmmUnmap F s virt := by
  obtain ⟨h₁, h₂, h₃, h₄⟩ := index_mod virt
  rw [vmmUnmap_eq, vmmUnmap_eq, pdpteOf, pdpteOf, pml4eOf, pml4eOf, unmapBelow, unmapBelow, h₁, h₂,
    h₃, h₄]

/-- Clearing the low bits of a union. -/
theorem clearLow_or (bits k x y : Nat) :
    clearLow bits k (x ||| y) = clearLow bits k x ||| clearLow bits k y :=
  Nat.and_or_distrib_right ..

/-- A word is its high bits and its low bits. -/
theorem clearLow_or_mod {bits k x : Nat} (h : k ≤ bits) (hx : x < 2 ^ bits) :
    clearLow bits k x ||| x % 2 ^ k = x := by
  rw [clearLow_of_lt h hx, Nat.mul_comm, ← Nat.two_pow_add_eq_or_of_lt (Nat.mod_lt x (Nat.two_pow_pos k)),
    Nat.div_add_mod]

/-- Flags outside the low bits of an entry are flags of another physical address. -/
theorem vmmMap_flags (F : Frames .x86_64) (s : Vmm) (virt phys : Nat) {flags : Nat}
    (h : flags < 2 ^ 64) :
    vmmMap F s virt phys flags = vmmMap F s virt (phys ||| flags) (flags % 4096) := by
  have hpte : clearLow 64 pageShift (phys ||| flags) ||| flags % 4096
      = clearLow 64 pageShift phys ||| flags := by
    rw [clearLow_or, Nat.or_assoc]
    exact congrArg _ (clearLow_or_mod (by decide) h)
  rw [vmmMap_eq, vmmMap_eq, hpte]

/-! ## Every call keeps the tables in order -/

/-- `vmm_map` with any arguments keeps the tables in order. -/
theorem VmmInv.vmmMap_any (h : VmmInv F s M) {virt phys flags : Nat} (hflags : flags < 2 ^ 64)
    (hsupply : Supplied F (X64.vmmMap F s virt phys flags)) :
    ∃ M', VmmInv F (X64.vmmMap F s virt phys flags) M' := by
  rw [← vmmMap_mod, vmmMap_flags F s _ phys hflags] at hsupply ⊢
  have hlt : virt % 2 ^ 48 < 2 ^ 48 := Nat.mod_lt _ (by decide)
  by_cases hlow : virt % 2 ^ 48 < identityEnd
  · rw [h.vmmMap_ident hlow]
    exact ⟨M, h⟩
  · exact ⟨_, h.vmmMap (not_lt.mp hlow) hlt (Nat.mod_lt _ (by decide)) hsupply⟩

/-- `vmm_unmap` of any address keeps the tables in order. -/
theorem VmmInv.vmmUnmap_any (h : VmmInv F s M) (virt : Nat) :
    ∃ M', VmmInv F (X64.vmmUnmap F s virt) M' := by
  rw [← vmmUnmap_mod]
  have hlt : virt % 2 ^ 48 < 2 ^ 48 := Nat.mod_lt _ (by decide)
  by_cases hlow : virt % 2 ^ 48 < identityEnd
  · rw [h.vmmUnmap_ident hlow]
    exact ⟨M, h⟩
  · exact ⟨_, h.vmmUnmap (not_lt.mp hlow) hlt⟩

/-- Every step keeps the tables in order. -/
theorem VmmInv.pagingStep (h : VmmInv F s M) {op : PageOp} (hstep : PagingStep F s op s') :
    ∃ M', VmmInv F s' M' := by
  cases hstep with
  | map hflags hsupply => exact h.vmmMap_any hflags hsupply
  | unmap => exact h.vmmUnmap_any _
  | other hm => exact ⟨_, h.step (.other hm)⟩

/-- The tables are in order in every reachable state. -/
theorem PagingReachable.inv {m : Mem} (h : PagingReachable F m s) : ∃ M, VmmInv F s M := by
  refine h.2.invariant (I := fun s => ∃ M, VmmInv F s M) (fun s op t hs hstep => ?_)
    ⟨_, VmmInv.init F m h.1⟩
  obtain ⟨M, hM⟩ := hs
  exact hM.pagingStep hstep

/-! ## What `vmm_phys` returns for a mapping -/

/-- The flags are a `u64`. -/
theorem PteFlags.value_lt (f : PteFlags) : f.value < 2 ^ 64 := by
  obtain ⟨_ | _, _ | _, _ | _, _ | _, _ | _⟩ := f <;> decide

/-- What is left of the flags in the address. -/
theorem PteFlags.clearLow_value (f : PteFlags) :
    clearLow 64 pageShift f.value = if f.nx then pteNx else 0 := by
  obtain ⟨_ | _, _ | _, _ | _, _ | _, _ | _⟩ := f <;> decide

/-- After `vmm_map` above the identity mapping, `vmm_phys` returns the address with the flags outside the
low bits in it. -/
theorem VmmInv.vmmPhys_vmmMap (h : VmmInv F s M) {virt phys flags : Nat} (hge : identityEnd ≤ virt)
    (hlt : virt < 2 ^ 48) (hflags : flags < 2 ^ 64)
    (hsupply : Supplied F (X64.vmmMap F s virt phys flags)) :
    vmmPhys F (X64.vmmMap F s virt phys flags) virt =
      clearLow 64 pageShift phys ||| clearLow 64 pageShift flags ||| virt &&& 0xFFF := by
  rw [vmmMap_flags F s _ phys hflags] at hsupply ⊢
  have hinv := h.vmmMap hge hlt (Nat.mod_lt _ (by decide)) hsupply
  rw [hinv.vmmPhys_eq hge hlt, Function.update_self, translation, ← clearLow_or]
  rfl

/-- In every reachable state, with frames for the tables it needs, `vmm_map` of an address above 2 TiB
makes `vmm_phys` return the mapped address exactly if `PTE_NX` is not among the flags. -/
theorem vmmPhys_vmmMap_iff (F : Frames .x86_64) (m : Mem) {s : Vmm} (hs : PagingReachable F m s)
    {virt phys : Nat} (hge : 2 ^ 41 ≤ virt) (hlt : virt < 2 ^ 48) (hphys : phys < 2 ^ 52)
    (flags : PteFlags) (hsupply : Supplied F (vmmMap F s virt phys flags.value)) :
    vmmPhys F (vmmMap F s virt phys flags.value) virt =
      clearLow 64 pageShift phys ||| virt &&& 0xFFF ↔ flags.nx = false := by
  obtain ⟨M, h⟩ := hs.inv
  rw [h.vmmPhys_vmmMap hge hlt flags.value_lt hsupply, flags.clearLow_value]
  cases hnx : flags.nx with
  | false => simp
  | true =>
      -- bit 63 is in the result, but neither in the address nor in the offset
      have haddr : clearLow 64 pageShift phys < 2 ^ 63 :=
        lt_of_le_of_lt Nat.and_le_left (lt_trans hphys (by decide))
      have hoff : virt &&& 0xFFF < 2 ^ 63 := lt_of_le_of_lt Nat.and_le_right (by decide)
      have hbit : pteNx.testBit 63 = true := by decide
      simp only [if_true, Bool.true_eq_false, iff_false]
      intro heq
      have := congrArg (Nat.testBit · 63) heq
      simp only [Nat.testBit_or, hbit, Nat.testBit_lt_two_pow haddr, Nat.testBit_lt_two_pow hoff] at this
      exact absurd this (by decide)

/-- With three thousand frames, `vmm_init` and a call of `vmm_map` are supplied. -/
theorem supplied_someFrames_vmmMap (m : Mem) (virt phys flags : Nat) :
    PagingReachable someFrames m (vmmInit someFrames m) ∧
      Supplied someFrames (vmmMap someFrames (vmmInit someFrames m) virt phys flags) := by
  have hinit := drawn_vmmInit someFrames m
  have hmap := drawn_vmmMap_le someFrames (vmmInit someFrames m) virt phys flags
  refine ⟨⟨supplied_someFrames ?_, .refl _⟩, supplied_someFrames ?_⟩
  · rw [hinit]
    decide
  · omega

/-- A writable page for user code, right after `vmm_init`. -/
theorem vmmPhys_vmmMap_someFrames :
    vmmPhys someFrames (vmmMap someFrames (vmmInit someFrames fun _ => 0xAA) 0x7FFFFFFFF123
        0x12345678 (PteFlags.value ⟨true, true, true, false, false⟩)) 0x7FFFFFFFF123
      = clearLow 64 pageShift 0x12345678 ||| 0x7FFFFFFFF123 &&& 0xFFF :=
  (vmmPhys_vmmMap_iff someFrames (fun _ => 0xAA) (supplied_someFrames_vmmMap _ 0 0 0).1 (by decide)
    (by decide) (by decide) ⟨true, true, true, false, false⟩
    (supplied_someFrames_vmmMap _ _ _ _).2).mpr rfl

/-- A page that must not be executed, right after `vmm_init`: the physical address comes back with bit 63
set. -/
theorem nx_not_translated :
    PagingReachable someFrames (fun _ => 0xAA) (vmmInit someFrames fun _ => 0xAA) ∧
    Supplied someFrames (vmmMap someFrames (vmmInit someFrames fun _ => 0xAA) 0x7FFFFFFFF123
      0x12345678 (PteFlags.value ⟨true, true, false, false, true⟩)) ∧
    vmmPhys someFrames (vmmMap someFrames (vmmInit someFrames fun _ => 0xAA) 0x7FFFFFFFF123
        0x12345678 (PteFlags.value ⟨true, true, false, false, true⟩)) 0x7FFFFFFFF123
      ≠ clearLow 64 pageShift 0x12345678 ||| 0x7FFFFFFFF123 &&& 0xFFF := by
  obtain ⟨hreach, hsupply⟩ := supplied_someFrames_vmmMap (fun _ => 0xAA) 0x7FFFFFFFF123 0x12345678
    (PteFlags.value ⟨true, true, false, false, true⟩)
  obtain ⟨M, h⟩ := hreach.inv
  refine ⟨hreach, hsupply, ?_⟩
  rw [h.vmmPhys_vmmMap (by decide) (by decide) (PteFlags.value_lt _) hsupply]
  decide

end X64

end Aerogel
