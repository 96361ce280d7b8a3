import KnotHal.Lib.Machine
import Mathlib.Data.List.Basic

/-!
# Queues

A `Queue α n` holds at most `n` things, the oldest first. One that comes to a full queue is lost.

* `push`, `pop`, `map` : the operations, and `map_push`, `map_pop` : how they go together;
* `push_sublist` : nothing is made up;
* `final`, `offers` : where a machine is after a run, and what the run brings it;
* `outputs_sublist` : the law of a queue that may lose things, over whole runs.
-/

namespace KnotHal

/-- At most `n` things, the oldest first. -/
@[ext] structure Queue (α : Type*) (n : Nat) where
  list : List α
  le : list.length ≤ n

namespace Queue
variable {α β : Type*} {n : Nat}

def empty : Queue α n := ⟨[], Nat.zero_le n⟩

/-- What comes to a full queue is lost. -/
def push (a : α) (q : Queue α n) : Queue α n :=
  if h : q.list.length < n then ⟨q.list ++ [a], by rw [List.length_append]; exact h⟩ else q

def pop (q : Queue α n) : Queue α n :=
  ⟨q.list.tail, by rw [List.length_tail]; exact Nat.le_trans (Nat.sub_le _ _) q.le⟩

def map (f : α → β) (q : Queue α n) : Queue β n := ⟨q.list.map f, by rw [List.length_map]; exact q.le⟩

theorem list_push (a : α) (q : Queue α n) :
    (q.push a).list = if q.list.length < n then q.list ++ [a] else q.list := by
  unfold push
  split
  · rfl
  · rfl

theorem map_push (f : α → β) (a : α) (q : Queue α n) : (q.push a).map f = (q.map f).push (f a) := by
  apply Queue.ext
  have hlength : (q.map f).list.length = q.list.length := List.length_map ..
  rw [list_push, hlength]
  show (q.push a).list.map f = _
  rw [list_push]
  split
  · exact List.map_append
  · rfl

theorem map_pop (f : α → β) (q : Queue α n) : q.pop.map f = (q.map f).pop := Queue.ext (List.map_tail ..)

theorem push_sublist (a : α) (q : Queue α n) : (q.push a).list.Sublist (q.list ++ [a]) := by
  rw [list_push]
  split
  · exact List.Sublist.refl _
  · exact List.sublist_append_left _ _

end Queue

namespace Machine
variable {ι ο τ α : Type*} {spec : ι → τ → ο × τ} {offer : ι → τ → List α}

def final (spec : ι → τ → ο × τ) : List ι → τ → τ
  | [], t => t
  | i :: is, t => final spec is (spec i t).2

/-- What the inputs of a run bring, each in the state that it finds. -/
def offers (spec : ι → τ → ο × τ) (offer : ι → τ → List α) : List ι → τ → List α
  | [], _ => []
  | i :: is, t => offer i t ++ offers spec offer is (spec i t).2

theorem filterMap_cons_toList {β : Type*} (f : α → Option β) (x : α) (xs : List α) :
    (x :: xs).filterMap f = (f x).toList ++ xs.filterMap f := by
  rw [List.filterMap_cons]
  cases f x with
  | none => rfl
  | some y => rfl

theorem final_append (is js : List ι) (t : τ) : final spec (is ++ js) t = final spec js (final spec is t) := by
  induction is generalizing t with
  | nil => rfl
  | cons i is ih => rw [List.cons_append, final, final, ih]

theorem exec_ok_outputs {ε : Type*} (is : List ι) (t : τ) :
    exec (fun i t => (.ok (spec i t) : Except ε (ο × τ))) is t = .ok (outputs spec is t, final spec is t) := by
  induction is generalizing t with
  | nil => rfl
  | cons i is ih => exact exec_cons_ok.mpr ⟨_, _, _, rfl, ih _, rfl⟩

/-- The run lemma for a machine that refines such a one, with where they are afterwards. -/
theorem exec_refines_final {σ ε : Type*} {step : ι → σ → Except ε (ο × σ)} {R : σ → τ → Prop} {P : ι → Prop}
    (hstep : ∀ i s t, R s t → P i → ∃ s', step i s = .ok ((spec i t).1, s') ∧ R s' (spec i t).2) {is : List ι}
    (his : ∀ i ∈ is, P i) {s : σ} {t : τ} (h : R s t) :
    ∃ s', exec step is s = .ok (outputs spec is t, s') ∧ R s' (final spec is t) := by
  induction is generalizing s t with
  | nil => exact ⟨s, rfl, h⟩
  | cons i is ih =>
      obtain ⟨s₁, hs₁, hR⟩ := hstep i s t h (his i List.mem_cons_self)
      obtain ⟨s', hs', hR'⟩ := ih (fun j hj => his j (List.mem_cons_of_mem i hj)) hR
      exact ⟨s', exec_cons_ok.mpr ⟨_, s₁, _, hs₁, hs', rfl⟩, hR'⟩

theorem offers_eq_filterMap (f : ι → Option α) (is : List ι) (t : τ) :
    offers spec (fun i _ => (f i).toList) is t = is.filterMap f := by
  induction is generalizing t with
  | nil => rfl
  | cons i is ih => rw [offers, ih, filterMap_cons_toList]

/-- The law of a queue that may lose things: where each step puts out only what was waiting, and keeps waiting only
what was or what it is brought, a run puts out what it is brought, each thing at most once and in this order. -/
theorem outputs_sublist {P : ι → Prop} (spec : ι → τ → ο × τ) (emit : ο → Option α) (pending : τ → List α)
    (offer : ι → τ → List α)
    (hstep : ∀ i t, P i → ((emit (spec i t).1).toList ++ pending (spec i t).2).Sublist (pending t ++ offer i t))
    {is : List ι} (his : ∀ i ∈ is, P i) (t : τ) :
    ((outputs spec is t).filterMap emit ++ pending (final spec is t)).Sublist
      (pending t ++ offers spec offer is t) := by
  induction is generalizing t with
  | nil => exact List.sublist_append_left _ _
  | cons i is ih =>
      have hrest := ih (fun j hj => his j (List.mem_cons_of_mem i hj)) (spec i t).2
      rw [outputs, filterMap_cons_toList, final, offers, List.append_assoc, ← List.append_assoc (pending t)]
      refine (hrest.append_left _).trans ?_
      rw [← List.append_assoc]
      exact (hstep i t (his i List.mem_cons_self)).append_right _

end Machine

end KnotHal
