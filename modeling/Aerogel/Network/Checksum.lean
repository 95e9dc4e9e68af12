import Aerogel.Network.Answers

/-! # The Internet checksum

`ipv4::checksum` of at most 128 KiB adds up all 16-bit words in 32 bits and brings back the carries, so
its result is the complement of the one's-complement sum. Filled in for a zero word, it makes the sum of
the whole slice `0xFFFF` and its checksum 0, which is what a receiver tests. -/

namespace Aerogel

namespace Net

variable {T : Target} {data : List UInt8}

/-- The checksum as a number. -/
theorem toNat_checksumOf (data : List UInt8) : (checksumOf data).toNat = 0xFFFF - onesSum data := by
  have hle := onesSum_le data
  rw [checksumOf, UInt16.toNat_not, UInt16.toNat_ofNat', Nat.mod_eq_of_lt (by omega)]
  rfl

/-- The checksum of a slice with the sum `0xFFFF`. -/
theorem checksumOf_eq_zero (h : onesSum data = 0xFFFF) : checksumOf data = 0 := by
  apply UInt16.toNat_inj.mp
  rw [toNat_checksumOf, h]
  rfl

/-- A slice around a zero word. -/
theorem eq_around_zeros {k : Nat} (h₀ : data[k]? = some 0) (h₁ : data[k + 1]? = some 0) :
    data = data.take k ++ ([0, 0] ++ data.drop (k + 2)) := by
  obtain ⟨hk, hzero⟩ := List.getElem?_eq_some_iff.mp h₀
  obtain ⟨hk', hzero'⟩ := List.getElem?_eq_some_iff.mp h₁
  have hdrop : data.drop k = 0 :: 0 :: data.drop (k + 2) := by
    rw [List.drop_eq_getElem_cons hk, hzero, List.drop_eq_getElem_cons hk', hzero']
  calc data = data.take k ++ data.drop k := (List.take_append_drop k data).symm
    _ = data.take k ++ ([0, 0] ++ data.drop (k + 2)) := by rw [hdrop]; rfl

/-- `ipv4::checksum` of at most 128 KiB returns the complement of the one's-complement sum of the words,
without an overflow; put in the place of any zero word, it makes the checksum of the slice 0. -/
theorem checksum_verifies (T : Target) {data : List UInt8} (hlen : data.length ≤ 131072) :
    ∃ csum : UInt16, checksum T data = .ok csum ∧
      csum = ~~~ (UInt16.ofNat (onesSum data)) ∧ onesSum data < 65536 ∧
      ∀ k, k % 2 = 0 → data[k]? = some 0 → data[k + 1]? = some 0 →
        ∃ filled, copyInto data k (k + 2) (toBe16 csum) = .ok filled ∧ checksum T filled = .ok 0 := by
  have hle := onesSum_le data
  refine ⟨checksumOf data, checksum_eq hlen, rfl, by omega, fun k heven h₀ h₁ => ?_⟩
  have hsplit := eq_around_zeros h₀ h₁
  obtain ⟨hk, -⟩ := List.getElem?_eq_some_iff.mp h₁
  have hpre : (data.take k).length = k := List.length_take_of_le (by omega)
  have hsum := @onesSum_checksumOf (data.take k) (by rw [hpre]; exact heven) (data.drop (k + 2))
  rw [← hsplit] at hsum
  refine ⟨data.take k ++ (toBe16 (checksumOf data) ++ data.drop (k + 2)), ?_, ?_⟩
  · rw [copyInto, if_pos ⟨by omega, by omega⟩, if_pos (by rw [length_toBe16]; omega), List.append_assoc]
  · rw [checksum_eq, checksumOf_eq_zero hsum]
    simp only [List.length_append, hpre, List.length_drop, length_toBe16]
    omega

/-- The header of a packet from 10.0.0.2 to 10.0.0.9 with 13 bytes of data, its checksum not filled in yet. -/
def headerSoFar : List UInt8 := [0x45, 0, 0, 33, 0, 1, 0x40, 0, 64, 1, 0, 0, 10, 0, 0, 2, 10, 0, 0, 9]

/-- The checksum of the header is stored at offset 10. -/
theorem checksum_verifies_header : ∃ csum : UInt16, checksum .x86 headerSoFar = .ok csum ∧
    ∃ filled, copyInto headerSoFar 10 12 (toBe16 csum) = .ok filled ∧ checksum .x86 filled = .ok 0 := by
  have hlen : headerSoFar.length ≤ 131072 := by decide
  obtain ⟨csum, hcsum, -, -, hfill⟩ := checksum_verifies .x86 hlen
  exact ⟨csum, hcsum, hfill 10 rfl rfl rfl⟩

end Net

end Aerogel
