import Mathlib.Data.List.TakeWhile
import Mathlib.Tactic.Common

/-!
# C strings

The string at the start of a piece of memory is what stands before its first zero. Memory without a zero has no
string: the search for the terminator leaves it.

* `terminated` : the string;
* `terminated_append_eq_iff` : when the string is the first part of the memory;
* `terminated_append_of_mem` : what follows a terminator does not matter.
-/

namespace KnotHal

/-- The string at the start of `mem`, without its terminator. -/
def terminated (mem : List UInt8) : Option (List UInt8) :=
  if 0 ∈ mem then some (mem.takeWhile (· ≠ 0)) else none

section Terminated
variable {mem name rest : List UInt8}

theorem takeWhile_ne_zero_append (h : 0 ∉ name) :
    (name ++ rest).takeWhile (· ≠ 0) = name ++ rest.takeWhile (· ≠ 0) :=
  List.takeWhile_append_of_pos fun _ hx => decide_eq_true fun h0 => h (h0 ▸ hx)

theorem terminated_eq_some : terminated mem = some name ↔ 0 ∉ name ∧ ∃ rest, mem = name ++ 0 :: rest := by
  unfold terminated
  constructor
  · intro h
    split at h
    · rename_i hmem
      obtain rfl := Option.some.inj h
      have hclean : 0 ∉ mem.takeWhile (· ≠ 0) := fun h0 => by
        have hne : decide ((0 : UInt8) ≠ 0) = true := List.mem_takeWhile_imp (p := fun x => decide (x ≠ 0)) h0
        exact absurd hne (by decide)
      refine ⟨hclean, ?_⟩
      have hdrop : mem.dropWhile (· ≠ 0) ≠ [] := fun hnil => by
        have hne := List.dropWhile_eq_nil_iff.mp hnil 0 hmem
        exact absurd hne (by decide)
      obtain ⟨x, xs, hx⟩ := List.exists_cons_of_ne_nil hdrop
      have hhead := List.head_dropWhile_not (fun x => decide (x ≠ 0)) hdrop
      simp only [hx, List.head_cons, decide_eq_false_iff_not, ne_eq, not_not] at hhead
      rw [hhead] at hx
      exact ⟨xs, by rw [← hx, List.takeWhile_append_dropWhile]⟩
    · cases h
  · rintro ⟨hname, rest, rfl⟩
    rw [if_pos (by simp), takeWhile_ne_zero_append hname]
    simp

/-- The string is the first part of the memory exactly when this part has no zero and one comes next. -/
theorem terminated_append_eq_iff : terminated (name ++ rest) = some name ↔ 0 ∉ name ∧ rest.head? = some 0 := by
  rw [terminated_eq_some]
  apply and_congr_right
  intro _
  constructor
  · rintro ⟨rest', h⟩
    rw [List.append_cancel_left h]
    rfl
  · intro h
    obtain ⟨rest', rfl⟩ := List.head?_eq_some_iff.mp h
    exact ⟨rest', rfl⟩

theorem terminated_append_of_mem (h : 0 ∈ mem) : terminated (mem ++ rest) = terminated mem := by
  obtain ⟨name, hname⟩ : ∃ name, terminated mem = some name := ⟨_, if_pos h⟩
  obtain ⟨hclean, behind, rfl⟩ := terminated_eq_some.mp hname
  rw [hname, List.append_assoc]
  exact terminated_eq_some.mpr ⟨hclean, behind ++ rest, rfl⟩

end Terminated

end KnotHal
