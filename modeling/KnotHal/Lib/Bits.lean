import Mathlib.Data.Set.Insert
import Mathlib.Tactic.Common

/-!
# Bit vectors as sets

`bits m` is the set of the indices at which the bit of `m` is set. The masks that C code sets, clears and
tests bits with become operations on sets.

* `bits_set`, `bits_clear` : setting a bit inserts its index, clearing it removes the index;
* `and_one_shiftLeft_eq_zero_iff`, `and_eq_right_iff` : the tests of one bit and of several;
* `forall_uint8` : what holds of each of the 256 bytes.
-/

namespace KnotHal

variable {w k : Nat} {m n : BitVec w}

/-- The indices of the bits that are set. -/
def bits (m : BitVec w) : Set Nat := {k | m.getLsbD k = true}

theorem mem_bits : k ∈ bits m ↔ m.getLsbD k = true := Iff.rfl

instance (k : Nat) (m : BitVec w) : Decidable (k ∈ bits m) := inferInstanceAs (Decidable (m.getLsbD k = true))

theorem lt_of_mem_bits (h : k ∈ bits m) : k < w := BitVec.lt_of_getLsbD h

theorem eq_of_bits_eq (h : bits m = bits n) : m = n := by
  apply BitVec.eq_of_getLsbD_eq
  intro k _
  have hk : k ∈ bits m ↔ k ∈ bits n := by rw [h]
  exact Bool.eq_iff_iff.mpr hk

theorem bits_and : bits (m &&& n) = bits m ∩ bits n := by
  ext k
  simp [bits]

theorem bits_not : bits (~~~m) = {k | k < w} \ bits m := by
  ext k
  simp [bits]

theorem bits_zero : bits (0#w) = ∅ := by
  ext k
  simp [bits]

theorem getLsbD_one_shiftLeft (k i : Nat) : (1#w <<< k).getLsbD i = true ↔ i = k ∧ i < w := by
  rw [← BitVec.twoPow_eq, BitVec.getLsbD_twoPow, Bool.and_eq_true, decide_eq_true_eq, decide_eq_true_eq]
  omega

theorem bits_set (h : k < w) : bits (m ||| 1#w <<< k) = insert k (bits m) := by
  ext i
  rw [Set.mem_insert_iff, mem_bits, mem_bits, BitVec.getLsbD_or, Bool.or_eq_true, getLsbD_one_shiftLeft]
  constructor
  · rintro (hi | ⟨rfl, -⟩)
    · exact Or.inr hi
    · exact Or.inl rfl
  · rintro (rfl | hi)
    · exact Or.inr ⟨rfl, h⟩
    · exact Or.inl hi

theorem bits_clear : bits (m &&& ~~~(1#w <<< k)) = bits m \ {k} := by
  ext i
  rw [Set.mem_sdiff, Set.mem_singleton_iff, mem_bits, mem_bits, BitVec.getLsbD_and, BitVec.getLsbD_not]
  rw [Bool.and_eq_true, Bool.and_eq_true, decide_eq_true_eq, Bool.not_eq_true', Bool.eq_false_iff, ne_eq,
    getLsbD_one_shiftLeft]
  constructor
  · rintro ⟨hm, hw, hi⟩
    exact ⟨hm, fun h => hi ⟨h, hw⟩⟩
  · rintro ⟨hm, hi⟩
    exact ⟨hm, lt_of_mem_bits hm, fun h => hi h.1⟩

theorem bits_or : bits (m ||| n) = bits m ∪ bits n := by
  ext k
  simp [bits]

/-- The test of one bit. -/
theorem and_one_shiftLeft_eq_zero_iff (h : k < w) : m &&& 1#w <<< k = 0 ↔ k ∉ bits m := by
  show m &&& 1#w <<< k = 0#w ↔ k ∉ bits m
  constructor
  · intro hzero hmem
    have hbit : k ∈ bits (m &&& 1#w <<< k) := by
      rw [bits_and]
      exact ⟨hmem, (getLsbD_one_shiftLeft k k).mpr ⟨rfl, h⟩⟩
    rw [hzero, bits_zero] at hbit
    exact hbit
  · intro hmem
    apply eq_of_bits_eq
    rw [bits_and, bits_zero]
    ext i
    constructor
    · rintro ⟨hi, hk⟩
      obtain ⟨rfl, -⟩ := (getLsbD_one_shiftLeft k i).mp hk
      exact hmem hi
    · intro hi
      exact hi.elim

/-- All the bits of `n` are set. -/
theorem and_eq_right_iff : m &&& n = n ↔ bits n ⊆ bits m := by
  rw [← Set.inter_eq_right, ← bits_and]
  exact ⟨fun h => by rw [h], eq_of_bits_eq⟩

/-- A property of bytes is checked one byte at a time, in sixteen rows of sixteen. -/
theorem forall_uint8 {p : UInt8 → Prop} (h : ∀ i j : Fin 16, p (UInt8.ofNat (16 * i + j))) (x : UInt8) : p x := by
  have hx := h ⟨x.toNat / 16, Nat.div_lt_of_lt_mul x.toNat_lt⟩ ⟨x.toNat % 16, Nat.mod_lt _ (by decide)⟩
  dsimp only at hx
  rwa [Nat.div_add_mod, UInt8.ofNat_toNat] at hx

end KnotHal
