import Mathlib.Algebra.Ring.Nat
import Mathlib.Data.List.FinRange
import Mathlib.Data.Set.Function
import Mathlib.Data.Set.Insert
import Mathlib.Logic.Function.Basic

/-!
# Tables whose free entries hold a marker

A table is a function from indices to values; an entry is free where it holds the marker `free`, and taken
elsewhere. `taken` counts the taken entries among some indices, and `contents` is the set that the table
stands for.

* `taken_occupy`, `taken_release` : what an assignment does to the count;
* `taken_lt_length` : fewer taken entries than indices means a free one;
* `holding_occupy`, `holding_release` : how many taken entries hold a value;
* `find_finRange` : the first entry with a property;
* `contents_occupy`, `contents_release` : what an assignment does to the set;
* `injOn_occupy`, `injOn_release` : taken entries that differ still do.
-/

namespace KnotHal.Slots

variable {ι α : Type*} {free a : α} {t : ι → α} {is : List ι} {i : ι}

/-! ## The count -/

section Count
variable [DecidableEq α]

/-- How many of the entries `is` are taken. -/
def taken (free : α) (t : ι → α) (is : List ι) : Nat := is.countP fun i => t i ≠ free

@[simp] theorem taken_nil : taken free t [] = 0 := rfl

theorem taken_cons (free : α) (t : ι → α) (i : ι) (is : List ι) :
    taken free t (i :: is) = taken free t is + if t i = free then 0 else 1 := by
  by_cases h : t i = free <;> simp [taken, h]

theorem taken_le_length (free : α) (t : ι → α) (is : List ι) : taken free t is ≤ is.length := List.countP_le_length

theorem taken_eq_zero : taken free t is = 0 ↔ ∀ i ∈ is, t i = free := by
  simp [taken, List.countP_eq_zero]

theorem taken_lt_length (free : α) (t : ι → α) (is : List ι) : taken free t is < is.length ↔ ∃ i ∈ is, t i = free := by
  induction is with
  | nil => simp
  | cons i is ih =>
      have hle := taken_le_length free t is
      simp only [taken_cons, List.mem_cons, exists_eq_or_imp, ← ih, List.length_cons]
      split
      · rename_i h
        exact ⟨fun _ => Or.inl h, fun _ => by omega⟩
      · rename_i h
        exact ⟨fun hlt => Or.inr (by omega), fun hor => by have := hor.resolve_left h; omega⟩

/-- Two counts that differ in one index only. -/
theorem countP_off {p q : ι → Bool} (hn : is.Nodup) (hi : i ∈ is) (h : ∀ j, j ≠ i → p j = q j) :
    is.countP p + (if q i then 1 else 0) = is.countP q + if p i then 1 else 0 := by
  induction is with
  | nil => cases hi
  | cons j is ih =>
      obtain ⟨hj, hn⟩ := List.nodup_cons.mp hn
      rw [List.countP_cons, List.countP_cons]
      by_cases hij : i = j
      · subst hij
        have hrest : is.countP p = is.countP q := List.countP_congr fun k hk => by
          rw [h k fun hki => hj (hki ▸ hk)]
        omega
      · have hrest := ih hn ((List.mem_cons.mp hi).resolve_left hij)
        rw [h j (Ne.symm hij)]
        omega

variable [DecidableEq ι]

theorem taken_update (free : α) (t : ι → α) (a : α) (hn : is.Nodup) (hi : i ∈ is) :
    taken free (Function.update t i a) is + (if t i = free then 0 else 1) =
      taken free t is + if a = free then 0 else 1 := by
  have hoff := countP_off (p := fun j => Function.update t i a j ≠ free) (q := fun j => t j ≠ free) hn hi fun j hj => by
    rw [Function.update_of_ne hj]
  rw [Function.update_self] at hoff
  simpa [taken] using hoff

theorem taken_occupy (hn : is.Nodup) (hi : i ∈ is) (h : t i = free) (ha : a ≠ free) :
    taken free (Function.update t i a) is = taken free t is + 1 := by
  have := taken_update free t a hn hi
  rw [if_pos h, if_neg ha] at this
  exact this

theorem taken_release (hn : is.Nodup) (hi : i ∈ is) (h : t i ≠ free) :
    taken free (Function.update t i free) is + 1 = taken free t is := by
  have := taken_update free t free hn hi
  rw [if_neg h, if_pos rfl] at this
  exact this

end Count

/-! ## Entries that hold a value -/

section Holding
variable {β : Type*} [DecidableEq α] [DecidableEq β] {u : ι → β} {w : β}

/-- How many of the entries `is` are taken and hold `v` in the table `u` beside. -/
def holding (free : α) (t : ι → α) (u : ι → β) (v : β) (is : List ι) : Nat := is.countP fun i => t i ≠ free ∧ u i = v

theorem holding_eq_zero {v : β} (h : ∀ i ∈ is, t i = free) : holding free t u v is = 0 := by
  apply List.countP_eq_zero.mpr
  intro i hi
  simp [h i hi]

variable [DecidableEq ι]

theorem holding_occupy (hn : is.Nodup) (hi : i ∈ is) (h : t i = free) (ha : a ≠ free) (v : β) :
    holding free (Function.update t i a) (Function.update u i w) v is =
      holding free t u v is + if w = v then 1 else 0 := by
  have hoff := countP_off (p := fun j => Function.update t i a j ≠ free ∧ Function.update u i w j = v)
    (q := fun j => t j ≠ free ∧ u j = v) hn hi fun j hj => by
      rw [Function.update_of_ne hj, Function.update_of_ne hj]
  simpa [holding, h, ha] using hoff

theorem holding_release (hn : is.Nodup) (hi : i ∈ is) (h : t i ≠ free) (v : β) :
    holding free (Function.update t i free) u v is + (if u i = v then 1 else 0) = holding free t u v is := by
  have hoff := countP_off (p := fun j => Function.update t i free j ≠ free ∧ u j = v)
    (q := fun j => t j ≠ free ∧ u j = v) hn hi fun j hj => by
      rw [Function.update_of_ne hj]
  simpa [holding, h] using hoff

end Holding

/-! ## Searching -/

theorem find_finRange {n : Nat} {p : Fin n → Bool} {i : Fin n} (h : (List.finRange n).find? p = some i) :
    p i = true ∧ ∀ j < i, p j = false := by
  obtain ⟨hp, as, bs, hfin, has⟩ := List.find?_eq_some_iff_append.mp h
  refine ⟨hp, fun j hj => ?_⟩
  have hmem : j ∈ as := by
    have hj' := List.mem_finRange j
    rw [hfin, List.mem_append, List.mem_cons] at hj'
    rcases hj' with h₁ | rfl | h₁
    · exact h₁
    · exact absurd hj (lt_irrefl _)
    · have hsort := List.pairwise_lt_finRange n
      rw [hfin, List.pairwise_append, List.pairwise_cons] at hsort
      exact absurd hj (not_lt_of_gt (hsort.2.1.1 j h₁))
  simpa using has j hmem

/-! ## The set -/

section Contents
variable [DecidableEq ι]

def contents (free : α) (t : ι → α) : Set α := {a | a ≠ free ∧ ∃ i, t i = a}

omit [DecidableEq ι] in
theorem mem_contents : a ∈ contents free t ↔ a ≠ free ∧ ∃ i, t i = a := Iff.rfl

/-- A value put in a free entry joins the set. -/
theorem contents_occupy (h : t i = free) (ha : a ≠ free) :
    contents free (Function.update t i a) = insert a (contents free t) := by
  ext x
  rw [Set.mem_insert_iff, mem_contents, mem_contents]
  constructor
  · rintro ⟨hx, j, hj⟩
    by_cases hji : j = i
    · subst hji
      rw [Function.update_self] at hj
      exact Or.inl hj.symm
    · rw [Function.update_of_ne hji] at hj
      exact Or.inr ⟨hx, j, hj⟩
  · rintro (rfl | ⟨hx, j, hj⟩)
    · exact ⟨ha, i, Function.update_self ..⟩
    · refine ⟨hx, j, ?_⟩
      have hji : j ≠ i := fun hji => hx (by rw [← hj, hji, h])
      rw [Function.update_of_ne hji, hj]

/-- A value whose only entry is freed leaves the set. -/
theorem contents_release (honly : ∀ j, t j = t i → j = i) :
    contents free (Function.update t i free) = contents free t \ {t i} := by
  ext x
  rw [Set.mem_sdiff, Set.mem_singleton_iff, mem_contents, mem_contents]
  constructor
  · rintro ⟨hx, j, hj⟩
    by_cases hji : j = i
    · subst hji
      rw [Function.update_self] at hj
      exact absurd hj.symm hx
    · rw [Function.update_of_ne hji] at hj
      exact ⟨⟨hx, j, hj⟩, fun hxi => hji (honly j (hj.trans hxi))⟩
  · rintro ⟨⟨hx, j, hj⟩, hxi⟩
    have hji : j ≠ i := fun hji => hxi (by rw [← hj, hji])
    exact ⟨hx, j, by rw [Function.update_of_ne hji, hj]⟩

end Contents

/-! ## Entries that differ -/

section Injective
variable {β : Type*} [DecidableEq ι] {u : ι → β} {v : β}

theorem injOn_occupy (h : Set.InjOn u {j | t j ≠ free}) (hnew : ∀ j, t j ≠ free → u j ≠ v) (i : ι) (a : α) :
    Set.InjOn (Function.update u i v) {j | Function.update t i a j ≠ free} := by
  intro j hj k hk hjk
  rw [Set.mem_ofPred_eq] at hj hk
  by_cases hji : j = i
  · by_contra hne
    have hki : k ≠ i := fun hki => hne (hji.trans hki.symm)
    rw [Function.update_of_ne hki] at hk hjk
    rw [hji, Function.update_self] at hjk
    exact hnew k hk hjk.symm
  · rw [Function.update_of_ne hji] at hj hjk
    by_cases hki : k = i
    · rw [hki, Function.update_self] at hjk
      exact absurd hjk (hnew j hj)
    · rw [Function.update_of_ne hki] at hk hjk
      exact h hj hk hjk

theorem injOn_release (h : Set.InjOn u {j | t j ≠ free}) (i : ι) (v : β) :
    Set.InjOn (Function.update u i v) {j | Function.update t i free j ≠ free} := by
  have hleft : ∀ j, Function.update t i free j ≠ free → j ≠ i ∧ t j ≠ free := by
    intro j hj
    have hji : j ≠ i := fun hji => hj (by rw [hji, Function.update_self])
    rw [Function.update_of_ne hji] at hj
    exact ⟨hji, hj⟩
  intro j hj k hk hjk
  obtain ⟨hji, hj⟩ := hleft j hj
  obtain ⟨hki, hk⟩ := hleft k hk
  rw [Function.update_of_ne hji, Function.update_of_ne hki] at hjk
  exact h hj hk hjk

end Injective

end KnotHal.Slots
