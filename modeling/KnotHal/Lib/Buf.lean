import Mathlib.Data.List.Basic
import Mathlib.Tactic.Common

/-!
# Byte buffers of a fixed size

`Buf n` is a C array `uint8_t[n]`: a byte list that carries its length. `write` is a `memcpy` into
the array and `read` one out of it; `sub` is a fixed-size field at an offset. A write that does not
fit leaves the buffer alone, so that code whose bound can fail has to test it first.

* `read_write_self`, `read_write_of_disjoint` : what a read sees after a write;
* `sub_write_self`, `sub_write_of_disjoint` : the same for fields;
* `read_append_write` : a write at the end of a prefix extends the prefix.
-/

namespace KnotHal

/-- A byte array of `n` bytes. -/
structure Buf (n : Nat) where
  bytes : List UInt8
  size : bytes.length = n
deriving DecidableEq

namespace Buf

variable {n m : Nat}

attribute [simp] size

@[ext] theorem ext {b c : Buf n} (h : b.bytes = c.bytes) : b = c := by
  cases b; cases c; simpa using h

def zero (n : Nat) : Buf n := ⟨List.replicate n 0, List.length_replicate ..⟩

def get (b : Buf n) (i : Nat) : UInt8 := b.bytes.getD i 0

def read (b : Buf n) (off len : Nat) : List UInt8 := (b.bytes.drop off).take len

/-- `memcpy(b + off, src, src.length)`, where it fits. -/
def write (b : Buf n) (off : Nat) (src : List UInt8) : Buf n :=
  if h : off + src.length ≤ n then
    ⟨b.bytes.take off ++ src ++ b.bytes.drop (off + src.length), by simp; omega⟩
  else b

def sub (b : Buf n) (off m : Nat) : Buf m :=
  ⟨(b.read off m ++ List.replicate m 0).take m, by simp⟩

theorem bytes_write (b : Buf n) {off : Nat} {src : List UInt8} (h : off + src.length ≤ n) :
    (b.write off src).bytes = b.bytes.take off ++ src ++ b.bytes.drop (off + src.length) := by
  simp [write, h]

theorem length_read (b : Buf n) {off len : Nat} (h : off + len ≤ n) : (b.read off len).length = len := by
  simp [read]; omega

@[simp] theorem read_zero_len (b : Buf n) (off : Nat) : b.read off 0 = [] := by simp [read]

theorem read_add (b : Buf n) (off l k : Nat) : b.read off (l + k) = b.read off l ++ b.read (off + l) k := by
  rw [read, List.take_add, List.drop_drop]
  rfl

theorem take_read (b : Buf n) (off l k : Nat) : (b.read off k).take l = b.read off (min l k) := List.take_take

theorem read_zero_full (b : Buf n) : b.read 0 n = b.bytes :=
  List.take_of_length_le (Nat.le_of_eq b.size)

theorem bytes_sub (b : Buf n) {off : Nat} (h : off + m ≤ n) : (b.sub off m).bytes = b.read off m := by
  have hl := b.length_read h
  simp [sub, List.take_append_of_le_length (Nat.le_of_eq hl.symm), List.take_of_length_le (Nat.le_of_eq hl)]

/-! ## Reads after writes -/

theorem read_write_self (b : Buf n) {off : Nat} {src : List UInt8} (h : off + src.length ≤ n) :
    (b.write off src).read off src.length = src := by
  have hoff : (b.bytes.take off).length = off := by simp; omega
  rw [read, bytes_write b h, List.append_assoc, List.drop_left' hoff]
  simp

theorem read_write_of_disjoint (b : Buf n) {off off' len : Nat} {src : List UInt8}
    (h : off + src.length ≤ off' ∨ off' + len ≤ off) : (b.write off src).read off' len = b.read off' len := by
  by_cases hfit : off + src.length ≤ n
  · apply List.ext_getElem?
    intro i
    simp only [read, bytes_write b hfit, List.getElem?_take, List.getElem?_drop]
    split
    · rename_i hi
      have htake : (b.bytes.take off).length = off := by simp; omega
      rcases h with h | h
      · rw [List.getElem?_append_right (by simp; omega), List.getElem?_drop]
        congr 1
        simp; omega
      · rw [List.append_assoc, List.getElem?_append_left (by omega), List.getElem?_take_of_lt (by omega)]
    · rfl
  · simp [write, hfit]

theorem read_append_write (b : Buf n) {off : Nat} {src : List UInt8} (h : off + src.length ≤ n) :
    (b.write off src).read 0 (off + src.length) = b.read 0 off ++ src := by
  have hlen : (b.bytes.take off ++ src).length = off + src.length := by simp; omega
  rw [read, bytes_write b h, List.drop_zero, List.take_append_of_le_length (Nat.le_of_eq hlen.symm),
    List.take_of_length_le (Nat.le_of_eq hlen), read, List.drop_zero]

theorem read_write_inside (b : Buf n) {off k len : Nat} {src : List UInt8} (h : off + src.length ≤ n)
    (hk : k + len ≤ src.length) : (b.write off src).read (off + k) len = (src.drop k).take len := by
  have hoff : (b.bytes.take off).length = off := by simp; omega
  have hlen : len ≤ (src.drop k).length := by simp; omega
  rw [read, bytes_write b h, List.append_assoc, ← List.drop_drop, List.drop_left' hoff,
    List.drop_append_of_le_length (by omega), List.take_append_of_le_length hlen]

theorem read_write_head (b : Buf n) {off len : Nat} {src : List UInt8} (h : off + len ≤ n) (hs : src.length ≤ len) :
    (b.write off src).read off len = src ++ (b.read off len).drop src.length := by
  obtain ⟨k, rfl⟩ := Nat.exists_eq_add_of_le hs
  have hrest : (b.write off src).read (off + src.length) k = b.read (off + src.length) k :=
    b.read_write_of_disjoint (Or.inl (Nat.le_refl _))
  have hold := b.length_read (show off + src.length ≤ n by omega)
  rw [read_add, read_write_self b (by omega), hrest, read_add, List.drop_left' hold]

theorem write_nil (b : Buf n) (off : Nat) : b.write off [] = b := by
  unfold write
  split
  · ext1
    show b.bytes.take off ++ [] ++ b.bytes.drop (off + 0) = b.bytes
    rw [List.append_nil, Nat.add_zero, List.take_append_drop]
  · rfl

theorem write_full (b c : Buf n) : b.write 0 c.bytes = c := by
  have h : (b.write 0 c.bytes).read 0 c.bytes.length = c.bytes := b.read_write_self (by simp)
  rw [c.size, read_zero_full] at h
  exact ext h

theorem write_cons (b : Buf n) {off : Nat} {x : UInt8} {src : List UInt8} (h : off + 1 + src.length ≤ n) :
    (b.write off [x]).write (off + 1) src = b.write off (x :: src) := by
  have hx : off + [x].length ≤ n := by rw [List.length_singleton]; omega
  have hall : off + (x :: src).length ≤ n := by rw [List.length_cons]; omega
  have hoff : (b.bytes.take off ++ [x]).length = off + 1 := by simp; omega
  ext1
  rw [bytes_write _ h, bytes_write b hx, bytes_write b hall, List.take_left' hoff, ← List.drop_drop,
    List.drop_left' hoff, List.drop_drop, List.append_assoc _ [x], List.length_singleton, List.length_cons,
    Nat.add_assoc, Nat.add_comm 1]
  rfl

theorem head?_read (b : Buf n) {len : Nat} (h : 0 < len) (hn : 0 < n) : (b.read 0 len).head? = some (b.get 0) := by
  obtain ⟨x, xs, hb⟩ := List.exists_cons_of_length_pos (by rw [b.size]; exact hn : 0 < b.bytes.length)
  obtain ⟨k, rfl⟩ := Nat.exists_eq_add_of_lt h
  simp [read, get, hb]

theorem sub_congr {b c : Buf n} {off : Nat} (h : b.read off m = c.read off m) : b.sub off m = c.sub off m := by
  ext1; simp [sub, h]

theorem sub_write_self (b : Buf n) {off : Nat} (c : Buf m) (h : off + m ≤ n) :
    (b.write off c.bytes).sub off m = c := by
  ext1
  have hr : (b.write off c.bytes).read off c.bytes.length = c.bytes := b.read_write_self (by simpa using h)
  rw [c.size] at hr
  rw [bytes_sub _ h, hr]

theorem sub_write_of_disjoint (b : Buf n) {off off' : Nat} {src : List UInt8}
    (h : off + src.length ≤ off' ∨ off' + m ≤ off) : (b.write off src).sub off' m = b.sub off' m :=
  sub_congr (b.read_write_of_disjoint h)

theorem get_eq_read (b : Buf n) (i : Nat) : b.get i = (b.read i 1).headD 0 := by
  unfold get read
  cases h : b.bytes.drop i with
  | nil => simp [List.getD_eq_getElem?_getD, List.getElem?_eq_none (List.drop_eq_nil_iff.mp h)]
  | cons x xs =>
    have := congrArg (·[0]?) h
    simp only [List.getElem?_drop, Nat.add_zero, List.getElem?_cons_zero] at this
    simp [List.getD_eq_getElem?_getD, this]

theorem read_one (b : Buf n) {i : Nat} (h : i < n) : b.read i 1 = [b.get i] := by
  obtain ⟨x, hx⟩ := List.length_eq_one_iff.mp (b.length_read (show i + 1 ≤ n from h))
  rw [get_eq_read, hx]
  rfl

theorem get_of_read {b : Buf n} {i len : Nat} (h : i < len) : b.get i = (b.read 0 len).getD i 0 := by
  simp [get, read, List.getD_eq_getElem?_getD, h]

/-- What is read depends on the bytes that are there. -/
theorem read_congr {b c : Buf n} {off len : Nat} (h : ∀ k, off ≤ k → k < off + len → b.get k = c.get k) :
    b.read off len = c.read off len := by
  apply List.ext_getElem?
  intro i
  simp only [read, List.getElem?_take, List.getElem?_drop]
  split
  · rename_i hi
    by_cases hn : off + i < n
    · have hget := h (off + i) (Nat.le_add_right off i) (Nat.add_lt_add_left hi off)
      have hb : off + i < b.bytes.length := by rwa [b.size]
      have hc : off + i < c.bytes.length := by rwa [c.size]
      simp only [get, List.getD_eq_getElem?_getD, List.getElem?_eq_getElem hb, List.getElem?_eq_getElem hc,
        Option.getD_some] at hget
      rw [List.getElem?_eq_getElem hb, List.getElem?_eq_getElem hc, hget]
    · have hout : n ≤ off + i := Nat.le_of_not_lt hn
      rw [List.getElem?_eq_none (by rwa [b.size]), List.getElem?_eq_none (by rwa [c.size])]
  · rfl

theorem get_sub (b : Buf n) {off i : Nat} (h : off + m ≤ n) (hi : i < m) : (b.sub off m).get i = b.get (off + i) := by
  simp [get, bytes_sub b h, read, List.getD_eq_getElem?_getD, hi]

theorem take_drop_read (b : Buf n) {l k len : Nat} (h : k + len ≤ l) :
    ((b.read 0 l).drop k).take len = b.read k len := by
  rw [read, read, List.drop_zero, List.drop_take, List.take_take, Nat.min_eq_left (by omega)]

theorem get_write_of_disjoint (b : Buf n) {off i : Nat} {src : List UInt8} (h : off + src.length ≤ i ∨ i < off) :
    (b.write off src).get i = b.get i := by
  rw [get_eq_read, get_eq_read, read_write_of_disjoint b (by omega)]

theorem get_write_self (b : Buf n) {off i : Nat} {src : List UInt8} (hi : i < src.length)
    (h : off + src.length ≤ n) : (b.write off src).get (off + i) = src[i] := by
  have hoff : (b.bytes.take off).length = off := by simp; omega
  rw [get, bytes_write b h, List.append_assoc, List.getD_eq_getElem?_getD,
    List.getElem?_append_right (by omega), hoff, Nat.add_sub_cancel_left, List.getElem?_append_left hi]
  simp [hi]

theorem get_write_zero (b : Buf n) {src : List UInt8} (h : src.length ≤ n) (i : Nat) :
    (b.write 0 src).get i = src.getD i (b.get i) := by
  have hfit : 0 + src.length ≤ n := by omega
  by_cases hi : i < src.length
  · have hself := b.get_write_self hi hfit
    rw [Nat.zero_add] at hself
    rw [hself, List.getD_eq_getElem?_getD, List.getElem?_eq_getElem hi, Option.getD_some]
  · rw [b.get_write_of_disjoint (Or.inl (by omega)), List.getD_eq_getElem?_getD,
      List.getElem?_eq_none (Nat.le_of_not_lt hi), Option.getD_none]

theorem read_write_read (b : Buf n) (c : Buf m) {l k len : Nat} (hk : k + len ≤ l) (hm : l ≤ m) (hn : l ≤ n) :
    (b.write 0 (c.read 0 l)).read k len = c.read k len := by
  have hl := c.length_read (show 0 + l ≤ m by omega)
  have h := b.read_write_inside (show 0 + (c.read 0 l).length ≤ n by omega)
    (show k + len ≤ (c.read 0 l).length by omega)
  rw [Nat.zero_add] at h
  rw [h, take_drop_read c hk]

theorem get_write_read (b : Buf n) (c : Buf m) {l k : Nat} (hk : k < l) (hm : l ≤ m) (hn : l ≤ n) :
    (b.write 0 (c.read 0 l)).get k = c.get k := by
  rw [get_eq_read, get_eq_read, read_write_read b c (by omega) hm hn]

theorem sub_write_read (b : Buf n) (c : Buf m) {l k w : Nat} (hk : k + w ≤ l) (hm : l ≤ m) (hn : l ≤ n) :
    (b.write 0 (c.read 0 l)).sub k w = c.sub k w := by
  ext1; simp [sub, read_write_read b c hk hm hn]

theorem sub_write_sub (b : Buf n) (c : Buf m) {off k w : Nat} (h : off + w ≤ n) (hk : k + w ≤ m) :
    (b.write off (c.read k w)).sub off w = c.sub k w := by
  rw [← c.bytes_sub hk]
  exact b.sub_write_self (c.sub k w) h

/-- A buffer is its first byte and the rest. -/
theorem write_get_zero (a b : Buf (n + 1)) (h : b.read 1 n = a.read 1 n) : b.write 0 [a.get 0] = a := by
  have hone : 0 + [a.get 0].length ≤ n + 1 := by rw [List.length_singleton]; omega
  have hrest : ∀ c : Buf (n + 1), c.read 1 n = c.bytes.drop 1 := fun c =>
    List.take_of_length_le (by rw [List.length_drop, c.size]; omega)
  have hfirst : a.read 0 1 = [a.get 0] := a.read_one (Nat.zero_lt_succ n)
  have hall : a.bytes = [a.get 0] ++ a.read 1 n := by
    have hsplit := a.read_add 0 1 n
    rw [Nat.add_comm 1, read_zero_full] at hsplit
    rw [hsplit, hfirst]
  ext1
  rw [bytes_write b hone, hall, ← h, hrest b]
  rfl

end Buf

end KnotHal
