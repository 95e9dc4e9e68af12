import Mathlib.Data.Nat.Bitwise
import Mathlib.Data.List.Forall2
import Aerogel.Foundations.RingRecords
import Aerogel.Memory.Pmm

/-! # The memory map of the BIOS

`get_memory_map` of the boot loader asks the BIOS for the memory map, leaves the entries from
`0x500` on and stores their number as a word at `0x4FC`, where `kmain` loads a double word.
`handsOver_iff` says that the kernel gets the map if and only if the word at `0x4FE` happened to
be 0. -/

namespace Aerogel

namespace BiosMap

/-! ## The loop of the boot loader -/

/-- An answer of `INT 15h`, function `0xE820`. The number of bytes is what the BIOS leaves in ECX:
none, or a descriptor of the 24 bytes asked for that may lack its last field. -/
structure E820Answer where
  /-- The carry flag. -/
  carry : Bool
  /-- EAX, the signature. -/
  eax : UInt32
  /-- EBX, 0 at the end of the map. -/
  ebx : UInt32
  /-- The bytes stored at ES:DI. -/
  bytes : List UInt8
  /-- The descriptor has its first three fields. -/
  length_bytes : bytes = [] ∨ 20 ≤ bytes.length ∧ bytes.length ≤ 24

/-- `SMAP`. -/
def smap : UInt32 := 0x534D4150

/-- Registers and memory in the loop of `get_memory_map`. -/
structure MapState where
  /-- DI. -/
  di : Nat
  /-- BP. -/
  bp : Nat
  /-- Low memory. -/
  mem : Mem

/-- From the test of ECX to `.next`. -/
def MapState.count (s : MapState) (a : E820Answer) : MapState :=
  if a.bytes.length = 0 then s
  else if s.mem.load ((s.di + 8) % 2 ^ 16) 4 ||| s.mem.load ((s.di + 12) % 2 ^ 16) 4 = 0 then s
  else { s with bp := (s.bp + 1) % 2 ^ 16, di := (s.di + 24) % 2 ^ 16 }

/-- The loop of `get_memory_map`, `none` if it has not ended after these answers. -/
def getMemoryMapLoop : List E820Answer → MapState → Option MapState
  | [], _ => none
  | a :: answers, s =>
    let s := { s with mem := s.mem.storeList s.di a.bytes }
    if a.carry = true then some s
    else if a.eax ≠ smap then some s
    else
      let s := s.count a
      if a.ebx = 0 then some s
      else if s.bp < 128 then getMemoryMapLoop answers s
      else some s

/-- `get_memory_map`: `mov [0x4FC], bp` stores a word. -/
def getMemoryMap (answers : List E820Answer) (m : Mem) : Option Mem :=
  (getMemoryMapLoop answers ⟨0x500, 0, m⟩).map fun s => s.mem.store 0x4FC 2 s.bp

/-! ## What the kernel reads -/

/-- The `e820_entry_t` at an address. -/
def e820Entry (m : Mem) (p : Nat) : E820Entry where
  base := UInt64.ofNat (m.load p 8)
  length := UInt64.ofNat (m.load (p + 8) 8)
  type := UInt32.ofNat (m.load (p + 16) 4)
  acpi := UInt32.ofNat (m.load (p + 20) 4)

/-- `e820_count` in `kmain`: `movl 0x4FC, %0` loads a double word. -/
def e820Count (m : Mem) : Nat := m.load 0x4FC 4

/-- The first `count` elements of `e820_map`. -/
def e820Map (m : Mem) (count : Nat) : List E820Entry :=
  (List.range count).map fun i => e820Entry m (0x500 + 24 * i)

/-- The frame allocator after `pmm_init(e820_map, e820_count)`. -/
def kmainPmm (img : KernelImage .x86) (m : Mem) : Pmm :=
  pmmInit .x86 img (e820Map m (e820Count m)) Pmm.static

/-! ## The map that the BIOS gave -/

/-- The descriptor, with 0 for a missing field. -/
def E820Answer.entry (a : E820Answer) : E820Entry := e820Entry (fun i => a.bytes.getD i 0) 0

/-- The answers up to the end of the map. -/
def listed : List E820Answer → List E820Answer
  | [] => []
  | a :: answers =>
    if a.carry = false ∧ a.eax = smap then if a.ebx = 0 then [a] else a :: listed answers else []

/-- The first 128 entries that are not empty. -/
def mapEntries (answers : List E820Answer) : List E820Entry :=
  (((listed answers).map E820Answer.entry).filter (·.length != 0)).take 128

/-- The fields that `pmm_init` looks at are the same. -/
structure SameRange (e e' : E820Entry) : Prop where
  /-- `base`. -/
  base : e.base = e'.base
  /-- `length`. -/
  length : e.length = e'.length
  /-- `type`. -/
  type : e.type = e'.type

/-- The kernel gets the map from `m`: number and entries are those of the map, and the frame
allocator is a function of the map. -/
structure HandsOver (answers : List E820Answer) (m : Mem) : Prop where
  /-- The number. -/
  count : e820Count m = (mapEntries answers).length
  /-- The array has room for them. -/
  limit : (mapEntries answers).length ≤ 128
  /-- The entries. -/
  entries : List.Forall₂ SameRange (e820Map m (e820Count m)) (mapEntries answers)
  /-- `pmm_init`. -/
  pmm : ∀ img, kmainPmm img m = pmmInit .x86 img (mapEntries answers) Pmm.static

/-! ## Entries in memory -/

/-- The test for an empty range: the two halves of the length are 0. -/
theorem lor_load_eq_zero_iff (m : Mem) (p : Nat) :
    m.load (p + 8) 4 ||| m.load (p + 12) 4 = 0 ↔ (e820Entry m p).length = 0 := by
  have hsplit : m.load (p + 8) 8 = m.load (p + 8) 4 + 256 ^ 4 * m.load (p + 12) 4 :=
    m.load_add (p + 8) 4 4
  have hlt : m.load (p + 8) 8 < 2 ^ 64 := m.load_lt (p + 8) 8
  rw [Nat.or_eq_zero_iff, e820Entry, ← UInt64.toNat_inj, UInt64.toNat_ofNat', Nat.mod_eq_of_lt hlt,
    hsplit]
  change _ ↔ _ = 0
  omega

/-- An entry depends on its bytes. -/
theorem e820Entry_congr {m m' : Mem} {p : Nat} (h : ∀ x, p ≤ x → x < p + 24 → m x = m' x) :
    e820Entry m p = e820Entry m' p := by
  rw [e820Entry, e820Entry, Mem.load_congr (a := p) (n := 8) fun x h₁ h₂ => h x h₁ (by omega),
    Mem.load_congr (a := p + 8) (n := 8) fun x h₁ h₂ => h x (by omega) (by omega),
    Mem.load_congr (a := p + 16) (n := 4) fun x h₁ h₂ => h x (by omega) (by omega),
    Mem.load_congr (a := p + 20) (n := 4) fun x h₁ h₂ => h x (by omega) (by omega)]

/-- A descriptor that was stored is read back, whatever stands behind it. -/
theorem E820Answer.sameRange_entry (a : E820Answer) (h : a.bytes.length ≠ 0) (m : Mem) (p : Nat) :
    SameRange (e820Entry (m.storeList p a.bytes) p) a.entry := by
  have hlen : 20 ≤ a.bytes.length := by
    rcases a.length_bytes with hnil | hlen
    · exact absurd (by rw [hnil]; rfl) h
    · exact hlen.1
  have hload : ∀ off n, off + n ≤ 20 →
      (m.storeList p a.bytes).load (p + off) n = Mem.load (fun i => a.bytes.getD i 0) (0 + off) n := by
    intro off n hoff
    refine Mem.load_eq_of_bytes fun i hi => ?_
    rw [Nat.add_assoc, Mem.storeList_apply m (by omega), Nat.zero_add]
  exact ⟨congrArg UInt64.ofNat (hload 0 8 (by omega)), congrArg UInt64.ofNat (hload 8 8 (by omega)),
    congrArg UInt32.ofNat (hload 16 4 (by omega))⟩

/-- An answer without a descriptor counts as empty. -/
theorem E820Answer.entry_length_of_nil (a : E820Answer)
    (h : a.bytes.length = 0) : a.entry.length = 0 := by
  have hnil : a.bytes = [] := List.length_eq_zero_iff.mp h
  rw [E820Answer.entry, hnil]
  rfl

/-! ## The run of the loop -/

/-- The entries found so far stand from `0x500` on, and nothing in front of them has changed since
`m`. -/
structure MapState.Holds (m : Mem) (s : MapState) (es : List E820Entry) : Prop where
  /-- BP counts them. -/
  bp : s.bp = es.length
  /-- DI is behind them. -/
  di : s.di = 0x500 + 24 * es.length
  /-- They are in memory. -/
  entries : List.Forall₂ SameRange (e820Map s.mem es.length) es
  /-- Below `0x500` the loop stores nothing. -/
  frame : ∀ x < 0x500, s.mem x = m x

variable {m : Mem} {s s' : MapState} {es : List E820Entry}

/-- The entries depend on the memory they stand in. -/
theorem e820Map_congr {m m' : Mem} {n : Nat} (h : ∀ x, 0x500 ≤ x → x < 0x500 + 24 * n → m x = m' x) :
    e820Map m n = e820Map m' n := by
  refine List.map_congr_left fun i hi => e820Entry_congr fun x h₁ h₂ => ?_
  have hi := List.mem_range.mp hi
  exact h x (by omega) (by omega)

/-- The bytes of an answer go behind the entries. -/
theorem MapState.Holds.storeList (h : s.Holds m es) (bs : List UInt8) :
    MapState.Holds m { s with mem := s.mem.storeList s.di bs } es := by
  have hdi := h.di
  refine ⟨h.bp, h.di, ?_, fun x hx => ?_⟩
  · have hsame : e820Map (s.mem.storeList s.di bs) es.length = e820Map s.mem es.length :=
      e820Map_congr fun x h₁ h₂ => s.mem.storeList_apply_of_outside (by omega)
    exact hsame.symm ▸ h.entries
  · exact (s.mem.storeList_apply_of_outside (by omega)).trans (h.frame x hx)

/-- An answer is counted if its entry is not empty. -/
theorem MapState.Holds.count (h : s.Holds m es) (hroom : es.length < 128) (a : E820Answer) :
    (MapState.count { s with mem := s.mem.storeList s.di a.bytes } a).Holds m
      (es ++ [a.entry].filter (·.length != 0)) := by
  have hstored := h.storeList a.bytes
  have hdi := h.di
  rw [MapState.count]
  by_cases hnil : a.bytes.length = 0
  · rw [if_pos hnil, List.filter_cons_of_neg (by rw [a.entry_length_of_nil hnil]; decide),
      List.filter_nil, List.append_nil]
    exact hstored
  have hsame := a.sameRange_entry hnil s.mem s.di
  have hempty := lor_load_eq_zero_iff (s.mem.storeList s.di a.bytes) s.di
  rw [if_neg hnil, Nat.mod_eq_of_lt (show s.di + 8 < 2 ^ 16 by omega),
    Nat.mod_eq_of_lt (show s.di + 12 < 2 ^ 16 by omega)]
  by_cases hzero : a.entry.length = 0
  · rw [if_pos (hempty.mpr (hsame.length.trans hzero)),
      List.filter_cons_of_neg (by rw [hzero]; decide), List.filter_nil, List.append_nil]
    exact hstored
  · have hkept : [a.entry].filter (·.length != 0) = [a.entry] := by
      rw [List.filter_cons, if_pos (bne_iff_ne.mpr hzero), List.filter_nil]
    have hlen : (es ++ [a.entry]).length = es.length + 1 := List.length_append
    rw [if_neg fun hz => hzero (hsame.length.symm.trans (hempty.mp hz)), hkept]
    refine ⟨?_, ?_, ?_, hstored.frame⟩
    · change (s.bp + 1) % 2 ^ 16 = _
      rw [h.bp, hlen]
      exact Nat.mod_eq_of_lt (by omega)
    · change (s.di + 24) % 2 ^ 16 = _
      rw [hdi, hlen, Nat.mod_eq_of_lt (by omega), Nat.mul_succ, Nat.add_assoc]
    · rw [hlen, e820Map, List.range_succ, List.map_append, List.map_singleton, ← hdi]
      exact List.rel_append hstored.entries (.cons hsame .nil)

/-- When the loop ends, it has stored the map. -/
theorem MapState.Holds.loop {answers : List E820Answer} (h : s.Holds m es) (hroom : es.length < 128)
    (hend : getMemoryMapLoop answers s = some s') :
    s'.Holds m ((es ++ ((listed answers).map E820Answer.entry).filter (·.length != 0)).take 128) := by
  induction answers generalizing s es with
  | nil => cases hend
  | cons a answers ih =>
      have hes : es.take 128 = es := List.take_of_length_le hroom.le
      rw [getMemoryMapLoop] at hend
      by_cases hok : a.carry = false ∧ a.eax = smap
      · rw [if_neg (by rw [hok.1]; decide), if_neg (not_not.mpr hok.2)] at hend
        rw [listed, if_pos hok]
        have hcount := h.count hroom a
        have hle : (es ++ [a.entry].filter (·.length != 0)).length ≤ 128 := by
          rw [List.length_append]
          have hone := List.length_filter_le (fun e : E820Entry => e.length != 0) [a.entry]
          rw [List.length_singleton] at hone
          omega
        by_cases hlast : a.ebx = 0
        · rw [if_pos hlast] at hend
          cases hend
          rw [if_pos hlast, List.map_singleton, List.take_of_length_le hle]
          exact hcount
        · rw [if_neg hlast] at hend
          rw [if_neg hlast, List.map_cons, ← List.singleton_append, List.filter_append,
            ← List.append_assoc]
          by_cases hmore : (es ++ [a.entry].filter (·.length != 0)).length < 128
          · rw [if_pos (by rw [hcount.bp]; exact hmore)] at hend
            exact ih hcount hmore hend
          · -- the limit
            rw [if_neg (by rw [hcount.bp]; exact hmore)] at hend
            cases hend
            rw [List.take_append_of_le_length (by omega), List.take_of_length_le hle]
            exact hcount
      · -- the BIOS has no further entry
        have hs' : some { s with mem := s.mem.storeList s.di a.bytes } = some s' := by
          by_cases hcarry : a.carry = true
          · rwa [if_pos hcarry] at hend
          · rwa [if_neg hcarry, if_pos fun heax => hok ⟨Bool.eq_false_iff.mpr hcarry, heax⟩] at hend
        cases hs'
        rw [listed, if_neg hok, List.map_nil, List.filter_nil, List.append_nil, hes]
        exact h.storeList a.bytes

/-- The loop ends at the last answer of the map at the latest. -/
theorem getMemoryMapLoop_isSome {answers : List E820Answer}
    (hlast : ∃ a ∈ answers, a.carry = true ∨ a.eax ≠ smap ∨ a.ebx = 0) (s : MapState) :
    (getMemoryMapLoop answers s).isSome := by
  induction answers generalizing s with
  | nil =>
      obtain ⟨a, ha, -⟩ := hlast
      cases ha
  | cons a answers ih =>
      rw [getMemoryMapLoop]
      split_ifs with hcarry heax hebx
      · rfl
      · rfl
      · rfl
      · have hrest : ∃ b ∈ answers, b.carry = true ∨ b.eax ≠ smap ∨ b.ebx = 0 := by
          obtain ⟨b, hb, hend⟩ := hlast
          rcases List.mem_cons.mp hb with rfl | hb
          · exact absurd hend (by rintro (h | h | h); exacts [hcarry h, heax h, hebx h])
          · exact ⟨b, hb, hend⟩
        dsimp only
        split_ifs
        · exact ih hrest _
        · rfl

/-! ## The hand-over -/

/-- `pmm_init` looks at three fields of each entry. -/
theorem pmmInit_congr {T : Target} (img : KernelImage T) {es es' : List E820Entry}
    (h : List.Forall₂ SameRange es es') (pm : Pmm) : pmmInit T img es pm = pmmInit T img es' pm := by
  have hentry : ∀ {e e' : E820Entry}, SameRange e e' → ∀ pm,
    pmmInitEntry T pm e = pmmInitEntry T pm e' := by
    intro e e' hee pm
    rw [pmmInitEntry, pmmInitEntry, entryStart, entryStart, entryEnd, entryEnd, hee.base,
      hee.length, hee.type]
  have hfold : ∀ pm, es.foldl (pmmInitEntry T) pm = es'.foldl (pmmInitEntry T) pm := by
    induction h with
    | nil => exact fun _ => rfl
    | cons hee _ ih => exact fun pm => by rw [List.foldl_cons, List.foldl_cons, hentry hee, ih]
  rw [pmmInit, pmmInit, hfold]

/-- What `get_memory_map` leaves in memory: the number is a word in front of the stale word at
`0x4FE`. -/
theorem getMemoryMap_spec {answers : List E820Answer} {m m' : Mem}
    (h : getMemoryMap answers m = some m') : (mapEntries answers).length ≤ 128 ∧
      e820Count m' = (mapEntries answers).length + 2 ^ 16 * m.load 0x4FE 2 ∧
      List.Forall₂ SameRange (e820Map m' (mapEntries answers).length) (mapEntries answers) := by
  obtain ⟨s, hloop, rfl⟩ := Option.map_eq_some_iff.mp h
  have hstart : MapState.Holds m ⟨0x500, 0, m⟩ [] := ⟨rfl, rfl, .nil, fun _ _ => rfl⟩
  have hs : s.Holds m (mapEntries answers) := hstart.loop (by decide) hloop
  have hle : (mapEntries answers).length ≤ 128 := List.length_take_le _ _
  refine ⟨hle, ?_, ?_⟩
  · have hlow : (s.mem.store 0x4FC 2 s.bp).load 0x4FC 2 = (mapEntries answers).length := by
      rw [Mem.load_store_same, hs.bp, Nat.mod_eq_of_lt (by omega)]
    have hhigh : (s.mem.store 0x4FC 2 s.bp).load 0x4FE 2 = m.load 0x4FE 2 := by
      rw [Mem.load_store_of_disjoint _ (by omega)]
      exact Mem.load_congr fun x _ hx => hs.frame x (by omega)
    rw [e820Count, Mem.load_add _ _ 2 2, hlow, hhigh]
    rfl
  · have hsame : e820Map (s.mem.store 0x4FC 2 s.bp) (mapEntries answers).length =
        e820Map s.mem (mapEntries answers).length :=
      e820Map_congr fun x hx _ => s.mem.store_apply_of_outside (by omega)
    rw [hsame]
    exact hs.entries

/-- The kernel gets the map if and only if the word behind the stored number was 0. -/
theorem handsOver_iff (answers : List E820Answer) (m m' : Mem) (h : getMemoryMap answers m = some m') :
    HandsOver answers m' ↔ m.load 0x4FE 2 = 0 := by
  obtain ⟨hle, hcount, hentries⟩ := getMemoryMap_spec h
  constructor
  · intro hover
    have heq := hcount.symm.trans hover.count
    omega
  · intro hzero
    rw [hzero, Nat.mul_zero, Nat.add_zero] at hcount
    have hread : List.Forall₂ SameRange (e820Map m' (e820Count m')) (mapEntries answers) := by
      rw [hcount]
      exact hentries
    exact ⟨hcount, hle, hread, fun img => pmmInit_congr img hread Pmm.static⟩

/-- 640 KiB from 0 on, in a descriptor of 20 bytes. -/
def lowRange : E820Answer where
  carry := false
  eax := smap
  ebx := 0
  bytes := [0, 0, 0, 0, 0, 0, 0, 0, 0, 0, 10, 0, 0, 0, 0, 0, 1, 0, 0, 0]
  length_bytes := .inr (by decide)

/-- One range, low memory full of zeros. -/
theorem handsOver_iff_lowRange : ∃ m', getMemoryMap [lowRange] (fun _ => 0) = some m' ∧
    HandsOver [lowRange] m' := by
  have hend : (getMemoryMap [lowRange] fun _ => 0).isSome := by
    rw [getMemoryMap, Option.isSome_map]
    exact getMemoryMapLoop_isSome ⟨lowRange, List.mem_singleton_self _, .inr (.inr rfl)⟩ _
  obtain ⟨m', hm'⟩ := Option.isSome_iff_exists.mp hend
  exact ⟨m', hm', (handsOver_iff [lowRange] (fun _ => 0) m' hm').mpr (by decide)⟩

/-- With 1 at `0x4FE` the kernel reads 65537 entries. -/
theorem staleWord_not_handsOver : ∃ m',
    getMemoryMap [lowRange] (fun x => if x = 0x4FE then 1 else 0) = some m' ∧
    e820Count m' = 65537 ∧ ¬ HandsOver [lowRange] m' := by
  have hend : (getMemoryMap [lowRange] fun x => if x = 0x4FE then 1 else 0).isSome := by
    rw [getMemoryMap, Option.isSome_map]
    exact getMemoryMapLoop_isSome ⟨lowRange, List.mem_singleton_self _, .inr (.inr rfl)⟩ _
  obtain ⟨m', hm'⟩ := Option.isSome_iff_exists.mp hend
  have hlen : (mapEntries [lowRange]).length = 1 := by decide
  have hcount : e820Count m' = 65537 := by
    rw [(getMemoryMap_spec hm').2.1, hlen]
    decide
  refine ⟨m', hm', hcount, fun hover => ?_⟩
  have heq := hover.count
  rw [hcount, hlen] at heq
  exact absurd heq (by decide)

end BiosMap

end Aerogel
