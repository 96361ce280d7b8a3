import Mathlib.Data.List.Forall2
import Mathlib.Logic.Function.Basic
import Mathlib.Tactic.Common

/-!
# Unbiased bits from biased samples

Samples are taken in pairs. A pair whose samples differ gives one bit, the first one; a pair whose samples agree gives
none. Exchanging the samples of a pair that differs turns its bit over, so whatever the bias of the source, no bit is
more likely than the other.

* `next`, `takeBits` : the bits, one after the other, with the samples that are left;
* `extract`, `takeBits_eq` : all the bits of some samples;
* `exchange`, `exchange_involutive`, `exchange_perm`, `extract_exchange` : pairs are exchanged, and bits turned over;
* `unbiased` : any first bits can be made any other ones in this way.
-/

namespace KnotHal.Extractor

variable {α : Type*} {f : α → Bool} {xs rest : List α} {n : Nat}

/-! ## Bits -/

def extract (f : α → Bool) : List α → List Bool
  | x :: y :: rest => if f x = f y then extract f rest else f x :: extract f rest
  | _ => []

/-- The next bit, and the samples behind its pair. -/
def next (f : α → Bool) : List α → Option (Bool × List α)
  | x :: y :: rest => if f x = f y then next f rest else some (f x, rest)
  | _ => none

/-- Some bits, and the samples behind their pairs. -/
def takeBits (f : α → Bool) : Nat → List α → Option (List Bool × List α)
  | 0, xs => some ([], xs)
  | n + 1, xs => do
      let (b, xs) ← next f xs
      let (bs, xs) ← takeBits f n xs
      return (b :: bs, xs)

theorem extract_next (xs : List α) :
    extract f xs = match next f xs with | none => [] | some (b, rest) => b :: extract f rest := by
  fun_induction next f xs with
  | case1 x y rest heq ih => rw [extract, if_pos heq, ih]
  | case2 x y rest hne => rw [extract, if_neg hne]
  | case3 xs hxs =>
      unfold extract
      split
      · rename_i x y rest
        exact absurd rfl (hxs x y rest)
      · rfl

/-- So many bits can be taken exactly where there are so many, and they are the first ones. -/
theorem takeBits_eq (n : Nat) (xs : List α) :
    (takeBits f n xs).map Prod.fst = if n ≤ (extract f xs).length then some ((extract f xs).take n) else none := by
  induction n generalizing xs with
  | zero => rfl
  | succ n ih =>
      rw [takeBits, extract_next]
      cases next f xs with
      | none => rfl
      | some r =>
          have hrest := ih r.2
          show Option.map _ (takeBits f n r.2 >>= _) = _
          simp only [List.length_cons, Nat.add_le_add_iff_right, List.take_succ_cons]
          cases ht : takeBits f n r.2 with
          | none =>
              rw [ht] at hrest
              split
              · rename_i hle
                rw [if_pos hle] at hrest
                cases hrest
              · rfl
          | some q =>
              rw [ht] at hrest
              split
              · rename_i hle
                rw [if_pos hle] at hrest
                exact congrArg (Option.map (r.1 :: ·)) hrest
              · rename_i hle
                rw [if_neg hle] at hrest
                cases hrest

theorem takeBits_add (m n : Nat) (xs : List α) : takeBits f (m + n) xs = do
    let (bs, xs) ← takeBits f m xs
    let (bs', xs) ← takeBits f n xs
    return (bs ++ bs', xs) := by
  induction m generalizing xs with
  | zero =>
      rw [Nat.zero_add]
      show _ = (takeBits f n xs >>= _)
      cases takeBits f n xs with
      | none => rfl
      | some r => rfl
  | succ m ih =>
      rw [Nat.succ_add, takeBits, takeBits]
      cases next f xs with
      | none => rfl
      | some r =>
          show (takeBits f (m + n) r.2 >>= _) = ((takeBits f m r.2 >>= _) >>= _)
          rw [ih]
          cases takeBits f m r.2 with
          | none => rfl
          | some q =>
              show ((takeBits f n q.2 >>= _) >>= _) = (takeBits f n q.2 >>= _)
              cases takeBits f n q.2 with
              | none => rfl
              | some q' => rfl

theorem length_takeBits {bs : List Bool} (h : takeBits f n xs = some (bs, rest)) : bs.length = n := by
  have hmap := takeBits_eq (f := f) n xs
  rw [h] at hmap
  split at hmap
  · rename_i hle
    have hbs : bs = (extract f xs).take n := Option.some.inj hmap
    rw [hbs, List.length_take]
    exact Nat.min_eq_left hle
  · cases hmap

/-! ## Exchanges -/

/-- In the pairs that differ, the two samples are exchanged where the mask says so. -/
def exchange (f : α → Bool) : List Bool → List α → List α
  | m :: mask, x :: y :: rest =>
      if f x = f y then x :: y :: exchange f (m :: mask) rest
      else if m then y :: x :: exchange f mask rest else x :: y :: exchange f mask rest
  | _, xs => xs

theorem exchange_perm (mask : List Bool) (xs : List α) : (exchange f mask xs).Perm xs := by
  fun_induction exchange f mask xs with
  | case1 m mask x y rest heq ih => exact (ih.cons y).cons x
  | case2 mask x y rest hne ih => exact ((ih.cons x).cons y).trans (List.Perm.swap x y rest)
  | case3 m mask x y rest hne hm ih => exact (ih.cons y).cons x
  | case4 mask xs hxs => exact List.Perm.refl xs

theorem exchange_involutive (mask : List Bool) : Function.Involutive (exchange f mask) := by
  intro xs
  fun_induction exchange f mask xs with
  | case1 m mask x y rest heq ih => rw [exchange, if_pos heq, ih]
  | case2 mask x y rest hne ih => rw [exchange, if_neg fun hc => hne hc.symm, if_pos rfl, ih]
  | case3 m mask x y rest hne hm ih => rw [exchange, if_neg hne, if_neg hm, ih]
  | case4 mask xs hxs =>
      unfold exchange
      split
      · rename_i m mask' x y rest
        exact absurd rfl (hxs m mask' x y rest rfl)
      · rfl

/-- An exchange turns the bits over that the mask says. -/
theorem extract_exchange {mask : List Bool} (h : mask.length ≤ (extract f xs).length) :
    (extract f (exchange f mask xs)).take mask.length = mask.zipWith xor ((extract f xs).take mask.length) := by
  fun_induction exchange f mask xs with
  | case1 m mask x y rest heq ih =>
      rw [extract, if_pos heq] at h ⊢
      rw [ih h, extract, if_pos heq]
  | case2 mask x y rest hne ih =>
      rw [extract, if_neg hne, List.length_cons, List.length_cons, Nat.add_le_add_iff_right] at h
      have hbit : f y = !f x := by
        cases hx : f x <;> cases hy : f y <;> simp_all
      rw [extract, if_neg fun hc => hne hc.symm, extract, if_neg hne, List.length_cons, List.take_succ_cons,
        List.take_succ_cons, List.zipWith_cons_cons, ih h, hbit, Bool.true_xor]
  | case3 m mask x y rest hne hm ih =>
      rw [extract, if_neg hne, List.length_cons, List.length_cons, Nat.add_le_add_iff_right] at h
      have hfalse : m = false := by
        cases m
        · rfl
        · exact absurd rfl hm
      rw [extract, if_neg hne, extract, if_neg hne, List.length_cons, List.take_succ_cons, List.take_succ_cons,
        List.zipWith_cons_cons, ih h, hfalse, Bool.false_xor]
  | case4 mask xs hxs =>
      cases mask with
      | nil => rfl
      | cons m mask =>
          unfold extract at h
          split at h
          · rename_i x y rest
            exact absurd rfl (hxs m mask x y rest rfl)
          · exact absurd h (by simp)

/-- An exchange changes no number of bits. -/
theorem length_extract_exchange (mask : List Bool) (xs : List α) :
    (extract f (exchange f mask xs)).length = (extract f xs).length := by
  fun_induction exchange f mask xs with
  | case1 m mask x y rest heq ih => rw [extract, if_pos heq, ih, extract, if_pos heq]
  | case2 mask x y rest hne ih =>
      rw [extract, if_neg fun hc => hne hc.symm, extract, if_neg hne, List.length_cons, List.length_cons, ih]
  | case3 m mask x y rest hne hm ih =>
      rw [extract, if_neg hne, extract, if_neg hne, List.length_cons, List.length_cons, ih]
  | case4 mask xs hxs => rfl

/-- The mask that turns `u` into `v` turns nothing else into it. -/
theorem turn_iff {u v w : List Bool} (h : u.length = v.length) (hw : w.length = u.length) :
    (u.zipWith xor v).zipWith xor w = v ↔ w = u := by
  induction u generalizing v w with
  | nil =>
      rw [List.length_eq_zero_iff.mp h.symm, List.length_eq_zero_iff.mp hw]
      exact iff_of_true rfl rfl
  | cons a u ih =>
      cases v with
      | nil => exact absurd h (by simp)
      | cons b v =>
          cases w with
          | nil => exact absurd hw (by simp)
          | cons c w =>
              have hbit : xor (xor a b) c = b ↔ c = a := by cases a <;> cases b <;> cases c <;> decide
              rw [List.zipWith_cons_cons, List.zipWith_cons_cons, List.cons.injEq, List.cons.injEq, hbit,
                ih (Nat.succ.inj h) (Nat.succ.inj hw)]

/-- For any first bits `u` and `v` there is a way of exchanging samples under which those with the one become those
with the other. -/
theorem unbiased {u v : List Bool} (h : u.length = v.length) (xs : List α) :
    (takeBits f u.length xs).map Prod.fst = some u ↔
      (takeBits f v.length (exchange f (u.zipWith xor v) xs)).map Prod.fst = some v := by
  have hlen : (u.zipWith xor v).length = u.length := by
    rw [List.length_zipWith, ← h, Nat.min_self]
  rw [takeBits_eq, takeBits_eq, length_extract_exchange, ← h]
  by_cases hle : u.length ≤ (extract f xs).length
  · have hturn := extract_exchange (show (u.zipWith xor v).length ≤ (extract f xs).length by rw [hlen]; exact hle)
    rw [hlen] at hturn
    have htake : ((extract f xs).take u.length).length = u.length := by
      rw [List.length_take]
      exact Nat.min_eq_left hle
    rw [if_pos hle, if_pos hle, hturn, Option.some.injEq, Option.some.injEq]
    exact (turn_iff h htake).symm
  · rw [if_neg hle, if_neg hle]
    exact iff_of_false (by simp) (by simp)

end KnotHal.Extractor
