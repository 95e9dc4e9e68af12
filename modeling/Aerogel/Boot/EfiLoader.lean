import Aerogel.Memory.BootMemory

/-! # Who owns the loader's page tables

The UEFI loader turns the firmware's memory map into an E820 map (`build_e820`) and enters the kernel
on page tables of its own, `pml4`, `pdpt` and `pd`. They are static objects of the loader, and its
memory is listed as usable. `vmm_init` draws the 2052 lowest free frames and clears each of them before
it loads its own tables; `tablesKept_iff` says for which maps none of these is one of the loader's. -/

namespace Aerogel

/-! ## The loader's memory map -/

/-- What the loader reads of an `EFI_MEMORY_DESCRIPTOR`. -/
structure EfiMemoryDescriptor where
  /-- `Type`, an `EFI_MEMORY_TYPE`. -/
  type : UInt32
  /-- `PhysicalStart`. -/
  physicalStart : UInt64
  /-- `NumberOfPages`. -/
  numberOfPages : UInt64
  deriving DecidableEq, Repr

/-- `EfiLoaderCode`. -/
def efiLoaderCode : UInt32 := 1

/-- `EfiLoaderData`. -/
def efiLoaderData : UInt32 := 2

/-- `EfiConventionalMemory`. -/
def efiConventionalMemory : UInt32 := 7

/-- The entry that `build_e820` writes for a descriptor. -/
def e820Of (d : EfiMemoryDescriptor) : E820Entry where
  base := d.physicalStart
  length := d.numberOfPages * 4096
  type :=
    if d.type = efiConventionalMemory ∨ d.type = efiLoaderCode ∨ d.type = efiLoaderData then 1 else 2
  acpi := 0

/-- The loop of `build_e820` with `count` entries written. -/
def buildE820From : List EfiMemoryDescriptor → (count : Nat) → List E820Entry
  | [], _ => []
  | d :: ds, count => if count < 128 then e820Of d :: buildE820From ds (count + 1) else []

/-- `build_e820`: the entries at `E820_ADDR`, as many as the number at `E820_CNT_ADDR`. -/
def buildE820 (map : List EfiMemoryDescriptor) : List E820Entry := buildE820From map 0

/-- Where the loader's page tables are. -/
structure LoaderTables where
  /-- `pml4`. -/
  pml4 : Nat
  /-- `pdpt`. -/
  pdpt : Nat
  /-- `pd`, four tables. -/
  pd : Nat
  /-- They are aligned to pages. -/
  aligned : 4096 ∣ pml4 ∧ 4096 ∣ pdpt ∧ 4096 ∣ pd

/-- The frame has a byte of one of the tables. -/
def LoaderTables.Frame (L : LoaderTables) (p : Nat) : Prop :=
  Overlaps L.pml4 (L.pml4 + 4096) p ∨ Overlaps L.pdpt (L.pdpt + 4096) p ∨
    Overlaps L.pd (L.pd + 4 * 4096) p

/-- The frame lies in a descriptor of the loader's own memory. -/
def InLoader (map : List EfiMemoryDescriptor) (p : Nat) : Prop :=
  ∃ d ∈ map, (d.type = efiLoaderCode ∨ d.type = efiLoaderData) ∧
    d.physicalStart.toNat ≤ pageSize * p ∧
    pageSize * (p + 1) ≤ d.physicalStart.toNat + d.numberOfPages.toNat * pageSize

/-- No frame that `pmm_alloc` returns to `vmm_init` holds one of the loader's tables. -/
def TablesKept (img : KernelImage .x86_64) (map : List EfiMemoryDescriptor) (L : LoaderTables) :
    Prop :=
  ∀ p ∈ (kmainBoot .x86_64 img (buildE820 map)).held, ¬ L.Frame p

/-! ## Free frames -/

instance (e : E820Entry) : Decidable e.Usable := inferInstanceAs (Decidable (_ = _))

instance (T : Target) (e : E820Entry) (p : Nat) : Decidable (e.Names T p) :=
  inferInstanceAs (Decidable (_ ∧ _))

instance (T : Target) (img : KernelImage T) (p : Nat) : Decidable (Reserved T img p) :=
  inferInstanceAs (Decidable (_ ∨ _ ∨ _))

/-- The frames that `pmm_init` leaves free. -/
def FreeFrame {T : Target} (img : KernelImage T) (map : List E820Entry) (p : Nat) : Prop :=
  (1 ≤ p ∧ p < maxPages) ∧ (∃ e ∈ map, e.Usable ∧ e.Names T p) ∧ ¬ Reserved T img p

instance {T : Target} (img : KernelImage T) (map : List E820Entry) :
    DecidablePred (FreeFrame img map) := fun _ => inferInstanceAs (Decidable (_ ∧ _ ∧ _))

/-- The tables are out of reach: in front of each of their frames that is free there are as many free
frames as `vmm_init` draws. -/
def TablesOutOfReach (img : KernelImage .x86_64) (map : List EfiMemoryDescriptor)
    (L : LoaderTables) : Prop :=
  ∀ p, L.Frame p → FreeFrame img (buildE820 map) p →
    2052 ≤ Nat.count (FreeFrame img (buildE820 map)) p

/-! ## The frames of `vmm_init` -/

/-- A frame that `pmm_alloc` can return. -/
def Pmm.Clear (pm : Pmm) (p : Nat) : Prop := (1 ≤ p ∧ p < maxPages) ∧ pm.testPage p = false

instance (pm : Pmm) : DecidablePred pm.Clear := fun _ => inferInstanceAs (Decidable (_ ∧ _))

/-- After `k` draws the `k` lowest clear frames have been drawn. -/
structure Drawn (pm : Pmm) (k : Nat) (st : Pmm × List Nat) : Prop where
  /-- The frames that were drawn. -/
  held : ∀ p, p ∈ drawnFrames st.2 ↔ pm.Clear p ∧ Nat.count pm.Clear p < k
  /-- The frames that are left. -/
  left : ∀ p, st.1.Clear p ↔ pm.Clear p ∧ k ≤ Nat.count pm.Clear p

namespace Drawn

variable {pm : Pmm} {k : Nat} {st : Pmm × List Nat}

/-- Nothing has been drawn. -/
theorem zero (pm : Pmm) : Drawn pm 0 (pm, []) where
  held p := by simp [drawnFrames]
  left p := by simp

/-- One more frame is drawn. -/
theorem drawFrame (h : Drawn pm k st) : Drawn pm (k + 1) (Aerogel.drawFrame st) := by
  rcases pmmAlloc_spec st.1 with ⟨hrun, hall⟩ | ⟨i, hi₁, hi₂, hi, hlow, hrun⟩
  · -- no clear frame is left: every one has been drawn
    have hnone : ∀ p, ¬ st.1.Clear p := by
      rintro p ⟨⟨h₁, h₂⟩, hclear⟩
      rw [hall p h₁ h₂] at hclear
      cases hclear
    have hdrawn : ∀ p, pm.Clear p → Nat.count pm.Clear p < k := by
      intro p hp
      by_contra hle
      exact hnone p ((h.left p).mpr ⟨hp, by omega⟩)
    have hst : Aerogel.drawFrame st = (st.1, st.2 ++ [0]) := by
      rw [Aerogel.drawFrame, hrun]
    rw [hst]
    constructor
    · intro p
      rw [drawnFrames_concat, framesAt, if_pos rfl, Finset.union_empty, h.held]
      refine and_congr_right fun hp => ?_
      have := hdrawn p hp
      omega
    · intro p
      refine iff_of_false (hnone p) ?_
      rintro ⟨hp, hle⟩
      have := hdrawn p hp
      omega
  · have hclear : st.1.Clear i := ⟨⟨hi₁, hi₂⟩, hi⟩
    obtain ⟨hPi, hk⟩ := (h.left i).mp hclear
    have hcount : Nat.count pm.Clear i = k := count_eq_of_least hk fun q hq hPq => by
      by_contra hle
      have hq' := ((h.left q).mpr ⟨hPq, by omega⟩).2
      rw [hlow q hPq.1.1 hq] at hq'
      cases hq'
    have hst : Aerogel.drawFrame st = (st.1.takePage i, st.2 ++ [i <<< pageShift]) := by
      rw [Aerogel.drawFrame, hrun]
    rw [hst]
    constructor
    · intro p
      rw [drawnFrames_concat, framesAt_shiftLeft hi₁, Finset.mem_union, h.held, Finset.mem_Ico,
        ← count_lt_or_eq_iff hPi hcount]
      exact or_congr_right (by omega)
    · intro p
      have htake : (st.1.takePage i).Clear p ↔ st.1.Clear p ∧ p ≠ i := by
        rw [Pmm.Clear, Pmm.Clear, Pmm.testPage_takePage, Bool.or_eq_false_iff,
          decide_eq_false_iff_not, eq_comm]
        tauto
      rw [htake, h.left, and_assoc]
      exact and_congr_right fun hp => count_le_and_ne_iff hPi hcount hp

/-- The draws of `vmm_init`: four page-directory-pointer tables with 512 page directories each. -/
theorem vmmInitFrames (pm : Pmm) : Drawn pm 2052 (vmmInitFrames .x86_64 pm) := by
  refine @forRange_induction _ _ (fun i st => Drawn pm (513 * i) st) 0 4 _ (zero pm) ?_
  intro i st _ _ hst
  have hinner := @forRange_induction _ _ (fun j st => Drawn pm (513 * i + 1 + j) st) 0 512 _
    hst.drawFrame fun _ _ _ _ h => h.drawFrame
  exact hinner

end Drawn

/-- The frames that `pmm_init` leaves free are those that `pmm_alloc` can return. -/
theorem clear_pmmInit_iff (img : KernelImage .x86_64) (map : List E820Entry) (p : Nat) :
    (pmmInit .x86_64 img map .static).Clear p ↔ FreeFrame img map p :=
  and_congr_right fun hp => pmmInit_free_iff img map .static hp.2

/-- `vmm_init` draws the 2052 lowest free frames. -/
theorem mem_kmainBoot_held (img : KernelImage .x86_64) (map : List E820Entry) (p : Nat) :
    p ∈ (kmainBoot .x86_64 img map).held ↔
      FreeFrame img map p ∧ Nat.count (FreeFrame img map) p < 2052 := by
  have hcount : Nat.count (pmmInit .x86_64 img map .static).Clear p =
      Nat.count (FreeFrame img map) p := by
    rw [Nat.count_eq_card_filter_range, Nat.count_eq_card_filter_range]
    congr 1
    exact Finset.filter_congr fun q _ => clear_pmmInit_iff img map q
  rw [← hcount, ← clear_pmmInit_iff]
  exact (Drawn.vmmInitFrames (pmmInit .x86_64 img map .static)).held p

/-- What `TablesKept` says about the free frames. -/
theorem tablesKept_iff_count (img : KernelImage .x86_64) (map : List EfiMemoryDescriptor)
    (L : LoaderTables) : TablesKept img map L ↔
      ∀ p, FreeFrame img (buildE820 map) p →
        Nat.count (FreeFrame img (buildE820 map)) p < 2052 → ¬ L.Frame p := by
  simp only [TablesKept, mem_kmainBoot_held, and_imp]

/-- The loader's tables survive `vmm_init` exactly when they are out of reach. -/
theorem tablesKept_iff (img : KernelImage .x86_64) (map : List EfiMemoryDescriptor)
    (L : LoaderTables) : TablesKept img map L ↔ TablesOutOfReach img map L := by
  rw [tablesKept_iff_count]
  constructor
  · intro h p hframe hfree
    by_contra hlt
    exact h p hfree (Nat.not_le.mp hlt) hframe
  · intro h p hfree hlt hframe
    exact absurd (h p hframe hfree) (Nat.not_le.mpr hlt)

/-- A kernel that ends at 3 MiB. -/
def kernelAt2M : KernelImage .x86_64 where
  bitmap := 0x210000
  bssEnd := 0x300000
  bitmap_ge := by decide
  bitmap_le := by decide
  bssEnd_lt := by decide

/-- Memory from 1 MiB on, with the loader at 8 MiB. -/
def loaderAt8M : List EfiMemoryDescriptor :=
  [⟨efiConventionalMemory, 0x100000, 0x700⟩, ⟨efiLoaderData, 0x800000, 0x10⟩,
    ⟨efiConventionalMemory, 0x810000, 0x10000⟩]

/-- The tables in the loader's data. -/
def tablesAt8M : LoaderTables := ⟨0x800000, 0x801000, 0x802000, by decide⟩

/-- With the loader at 8 MiB its tables are cleared. -/
theorem loaderAt8M_not_tablesKept :
    (∀ p, tablesAt8M.Frame p → InLoader loaderAt8M p) ∧
      ¬ TablesKept kernelAt2M loaderAt8M tablesAt8M := by
  refine ⟨fun p hp => ⟨⟨efiLoaderData, 0x800000, 0x10⟩, by decide, Or.inr rfl, ?_⟩, fun h => ?_⟩
  · change 0x800000 ≤ pageSize * p ∧ pageSize * (p + 1) ≤ 0x800000 + 0x10 * pageSize
    simp only [LoaderTables.Frame, Overlaps, tablesAt8M, pageSize] at hp ⊢
    omega
  · have hfree : FreeFrame kernelAt2M (buildE820 loaderAt8M) 0x800 := by decide
    have hcount : Nat.count (FreeFrame kernelAt2M (buildE820 loaderAt8M)) 0x800 < 2052 :=
      lt_of_le_of_lt (Nat.count_le _) (by decide)
    rw [tablesKept_iff_count] at h
    exact h 0x800 hfree hcount (Or.inl (by decide))

end Aerogel
