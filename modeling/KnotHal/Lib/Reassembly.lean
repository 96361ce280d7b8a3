import Mathlib.Data.List.Chain
import Mathlib.Data.List.Forall2
import Mathlib.Tactic.Common

/-!
# Messages cut into numbered fragments

A message is cut into fragments of `c` elements, numbered from 0, the final one marked (`frags`). The
receiver `Rcv` keeps the number it expects and what it has put together; a fragment numbered 0 starts
over, any other fragment counts only when it is the one expected, and the marked one completes the
message, which then waits to be taken. While a message waits, fragments are dropped.

* `run_frags` : the fragments of a message, in order, give the message back;
* `out_sublist` : where no message loses its first fragment, what comes out is an in-order part of
  what went in, whatever else is lost and whenever messages are taken;
* `out_eq` : where nothing is lost and messages are taken in time, it is exactly what went in;
* `out_assembled` : in any case it is a run of fragments numbered from 0 to a marked one;
* `run_repeats`, `run_repeats_single_iff` : what repeated fragments do.
-/

namespace KnotHal.Reassembly

variable {α : Type*}

/-- A numbered piece of a message; `last` marks the final one. -/
structure Frag (α : Type*) where
  seq : Nat
  last : Bool
  body : List α
deriving DecidableEq

/-- The pieces of `msg`, `c` elements each, numbered from `k`. -/
def fragsFrom (c k : Nat) (msg : List α) : List (Frag α) :=
  if 0 < c ∧ c < msg.length then ⟨k, false, msg.take c⟩ :: fragsFrom c (k + 1) (msg.drop c)
  else [⟨k, true, msg⟩]
termination_by msg.length
decreasing_by simp; omega

def frags (c : Nat) (msg : List α) : List (Frag α) := fragsFrom c 0 msg

/-- A receiver: the completed message that waits, the number expected next, the pieces so far. -/
structure Rcv (α : Type*) where
  ready : Option (List α)
  next : Nat
  acc : List α
deriving DecidableEq

namespace Rcv

def restart (r : Rcv α) (f : Frag α) : Rcv α :=
  if f.seq = 0 then { r with next := 0, acc := [] } else r

def add (r : Rcv α) (f : Frag α) : Rcv α :=
  if f.last then ⟨some (r.acc ++ f.body), 0, []⟩ else ⟨none, r.next + 1, r.acc ++ f.body⟩

def recv (r : Rcv α) (f : Frag α) : Rcv α :=
  if r.ready.isSome then r
  else if f.seq = (r.restart f).next then (r.restart f).add f else r.restart f

def taken (r : Rcv α) : Rcv α := { r with ready := none }

/-- A message waits only when the pieces have been put away. -/
def Clean (r : Rcv α) : Prop := r.ready.isSome → r.next = 0

end Rcv

inductive Ev (α : Type*)
  | frag (f : Frag α)
  | take
deriving DecidableEq

/-- The messages taken in the course of `es`, and the receiver after it. -/
def run : List (Ev α) → Rcv α → List (List α) × Rcv α
  | [], r => ([], r)
  | .frag f :: es, r => run es (r.recv f)
  | .take :: es, r => (r.ready.toList ++ (run es r.taken).1, (run es r.taken).2)

def fragsOf (es : List (Ev α)) : List (Frag α) :=
  es.filterMap fun | .frag f => some f | .take => none

/-- The messages taken in the course of `es`, and the one that waits after it. -/
def out (es : List (Ev α)) (r : Rcv α) : List (List α) := (run es r).1 ++ (run es r).2.ready.toList

/-! ## Fragments -/

theorem fragsFrom_cons {c k : Nat} {msg : List α} (hc : 0 < c) (h : c < msg.length) :
    fragsFrom c k msg = ⟨k, false, msg.take c⟩ :: fragsFrom c (k + 1) (msg.drop c) := by
  rw [fragsFrom, if_pos ⟨hc, h⟩]

theorem fragsFrom_single {c k : Nat} {msg : List α} (h : msg.length ≤ c) :
    fragsFrom c k msg = [⟨k, true, msg⟩] := by
  rw [fragsFrom, if_neg (by omega)]

theorem le_seq_of_mem_fragsFrom {c k : Nat} {msg : List α} {f : Frag α} (h : f ∈ fragsFrom c k msg) :
    k ≤ f.seq := by
  induction k, msg using fragsFrom.induct c with
  | case1 k msg hc ih =>
      rw [fragsFrom, if_pos hc, List.mem_cons] at h
      rcases h with rfl | h
      · exact Nat.le_refl _
      · have := ih h; omega
  | case2 k msg hc =>
      rw [fragsFrom, if_neg hc, List.mem_singleton] at h
      subst h
      exact Nat.le_refl _

theorem fragsFrom_ne_nil (c k : Nat) (msg : List α) : fragsFrom c k msg ≠ [] := by
  rw [fragsFrom]; split <;> simp

/-! ## One fragment -/

section Recv
variable {r : Rcv α} {f : Frag α}

theorem recv_waiting (h : r.ready.isSome) : r.recv f = r := by simp [Rcv.recv, h]

theorem recv_first (h : r.ready = none) (hf : f.seq = 0) :
    r.recv f = Rcv.add ⟨none, 0, []⟩ f := by
  obtain ⟨ready, next, acc⟩ := r
  subst h
  simp [Rcv.recv, Rcv.restart, hf]

theorem recv_expected (h : r.ready = none) (hf : f.seq = r.next) (h0 : 0 < f.seq) : r.recv f = r.add f := by
  have hne : f.seq ≠ 0 := by omega
  have hr : r.restart f = r := by rw [Rcv.restart, if_neg hne]
  rw [Rcv.recv, hr, if_neg (by simp [h]), if_pos hf]

theorem recv_other (hf : f.seq ≠ r.next) (h0 : 0 < f.seq) : r.recv f = r := by
  have hne : f.seq ≠ 0 := by omega
  have hr : r.restart f = r := by rw [Rcv.restart, if_neg hne]
  rw [Rcv.recv, hr, if_neg hf, ite_self]

theorem Rcv.Clean.recv (h : r.Clean) : (r.recv f).Clean := by
  unfold Rcv.recv
  split
  · exact h
  · rename_i hr
    split
    · unfold Rcv.add
      split <;> simp [Rcv.Clean]
    · unfold Rcv.restart
      split <;> simp [Rcv.Clean, hr]

theorem Rcv.Clean.taken (r : Rcv α) : r.taken.Clean := by simp [Rcv.Clean, Rcv.taken]

end Recv

/-! ## Runs -/

theorem run_append (es₁ es₂ : List (Ev α)) (r : Rcv α) :
    run (es₁ ++ es₂) r = ((run es₁ r).1 ++ (run es₂ (run es₁ r).2).1, (run es₂ (run es₁ r).2).2) := by
  induction es₁ generalizing r with
  | nil => simp [run]
  | cons e es₁ ih => cases e <;> simp [run, ih]

theorem fragsOf_append (es₁ es₂ : List (Ev α)) : fragsOf (es₁ ++ es₂) = fragsOf es₁ ++ fragsOf es₂ :=
  List.filterMap_append

@[simp] theorem fragsOf_nil : fragsOf ([] : List (Ev α)) = [] := rfl

@[simp] theorem fragsOf_frag (f : Frag α) (es : List (Ev α)) : fragsOf (.frag f :: es) = f :: fragsOf es := rfl

@[simp] theorem fragsOf_take (es : List (Ev α)) : fragsOf (.take :: es) = fragsOf es := rfl

theorem exists_split_of_fragsOf_eq {es : List (Ev α)} {fs gs : List (Frag α)} (h : fragsOf es = fs ++ gs) :
    ∃ es₁ es₂, es = es₁ ++ es₂ ∧ fragsOf es₁ = fs ∧ fragsOf es₂ = gs := by
  obtain ⟨es₁, es₂, rfl, h₁, h₂⟩ := List.filterMap_eq_append_iff.mp h
  exact ⟨es₁, es₂, rfl, h₁, h₂⟩

theorem out_frag (f : Frag α) (es : List (Ev α)) (r : Rcv α) : out (.frag f :: es) r = out es (r.recv f) := rfl

theorem out_take (es : List (Ev α)) (r : Rcv α) : out (.take :: es) r = r.ready.toList ++ out es r.taken := by
  simp [out, run]

theorem out_append (es₁ es₂ : List (Ev α)) (r : Rcv α) :
    out (es₁ ++ es₂) r = (run es₁ r).1 ++ out es₂ (run es₁ r).2 := by
  simp [out, run_append]

theorem run_clean {es : List (Ev α)} {r : Rcv α} (h : r.Clean) : (run es r).2.Clean := by
  induction es generalizing r with
  | nil => exact h
  | cons e es ih =>
      cases e with
      | frag f => exact ih h.recv
      | take => exact ih (Rcv.Clean.taken r)

theorem taken_of_ready_none {r : Rcv α} (h : r.ready = none) : r.taken = r := by
  obtain ⟨ready, next, acc⟩ := r
  subst h
  rfl

theorem run_fragsFrom {c k : Nat} {t : List α} {r : Rcv α} (hk : 0 < k) (hr : r.ready = none) (hn : r.next = k) :
    run ((fragsFrom c k t).map .frag) r = ([], ⟨some (r.acc ++ t), 0, []⟩) := by
  induction k, t using fragsFrom.induct c generalizing r with
  | case1 k t hc ih =>
      have hadd := recv_expected (f := ⟨k, false, t.take c⟩) hr hn.symm hk
      rw [fragsFrom_cons hc.1 hc.2, List.map_cons, run, hadd, ih (by omega) (by simp [Rcv.add]) (by simp [Rcv.add, hn])]
      simp [Rcv.add]
  | case2 k t hc =>
      have hadd := recv_expected (f := ⟨k, true, t⟩) hr hn.symm hk
      rw [fragsFrom, if_neg hc, List.map_singleton, run, hadd]
      simp [run, Rcv.add]

/-- The fragments of a message, one after the other, whatever the receiver held besides a message. -/
theorem run_frags (c : Nat) (msg : List α) {r : Rcv α} (hr : r.ready = none) :
    run ((frags c msg).map .frag) r = ([], ⟨some msg, 0, []⟩) := by
  by_cases h : 0 < c ∧ c < msg.length
  · have hfirst := recv_first (f := ⟨0, false, msg.take c⟩) hr rfl
    rw [frags, fragsFrom_cons h.1 h.2, List.map_cons, run, hfirst,
      run_fragsFrom (by omega) (by simp [Rcv.add]) (by simp [Rcv.add])]
    simp [Rcv.add]
  · have hfirst := recv_first (f := ⟨0, true, msg⟩) hr rfl
    rw [frags, fragsFrom, if_neg h, List.map_singleton, run, hfirst]
    simp [run, Rcv.add]

theorem out_dead {l : List (Ev α)} {r : Rcv α} (h : ∀ f ∈ fragsOf l, r.next < f.seq) :
    out l r = r.ready.toList ∧ (run l r).2.next = r.next ∧ (run l r).2.acc = r.acc := by
  induction l generalizing r with
  | nil => simp [out, run]
  | cons e l ih =>
      cases e with
      | frag f =>
          simp only [fragsOf_frag, List.mem_cons, forall_eq_or_imp] at h
          have hr : r.recv f = r := recv_other (by omega) (by omega)
          simpa only [out_frag, run, hr] using ih h.2
      | take =>
          obtain ⟨h₁, h₂⟩ := ih (r := r.taken) h
          rw [out_take, h₁]
          exact ⟨by simp [Rcv.taken], h₂⟩

/-- In the middle of a message, with some of the rest arriving: the message comes out only when all of
the rest arrives. -/
theorem out_rest {c k : Nat} {t : List α} {es : List (Ev α)} {r : Rcv α} (hk : 0 < k)
    (hr : r.ready = none) (hn : r.next = k) (hes : (fragsOf es).Sublist (fragsFrom c k t)) :
    out es r = [] ∨ out es r = [r.acc ++ t] ∧ fragsOf es = fragsFrom c k t := by
  induction es generalizing k t r with
  | nil => exact Or.inl (by simp [out, run, hr])
  | cons e es ih =>
      cases e with
      | take =>
          rw [out_take, taken_of_ready_none hr]
          simpa [hr] using ih hk hr hn hes
      | frag f =>
          rw [fragsOf_frag] at hes
          have hpos : 0 < f.seq := by
            have := le_seq_of_mem_fragsFrom (hes.subset List.mem_cons_self); omega
          by_cases hlong : 0 < c ∧ c < t.length
          · rw [fragsFrom_cons hlong.1 hlong.2] at hes
            rcases List.sublist_cons_iff.mp hes with hes | ⟨_, heq, hes⟩
            · -- the expected fragment is lost, so every later one is ahead
              apply Or.inl
              have hdead := out_dead (l := .frag f :: es) (r := r) fun g hg => by
                have := le_seq_of_mem_fragsFrom (hes.subset hg); omega
              rw [hdead.1, hr]; rfl
            · obtain ⟨rfl, rfl⟩ := List.cons.inj heq
              have hadd := recv_expected (f := ⟨k, false, t.take c⟩) hr hn.symm hk
              rw [out_frag, hadd, fragsOf_frag, fragsFrom_cons hlong.1 hlong.2]
              have hnext := ih (k := k + 1) (t := t.drop c) (r := r.add ⟨k, false, t.take c⟩)
                (by omega) (by simp [Rcv.add]) (by simp [Rcv.add, hn]) hes
              rcases hnext with h | ⟨h, hall⟩
              · exact Or.inl h
              · exact Or.inr ⟨by rw [h]; simp [Rcv.add], by rw [hall]⟩
          · rw [fragsFrom, if_neg hlong] at hes ⊢
            obtain ⟨rfl, hnil⟩ : f = ⟨k, true, t⟩ ∧ fragsOf es = [] := by
              rcases List.sublist_cons_iff.mp hes with hes | ⟨_, heq, hes⟩
              · simp at hes
              · obtain ⟨rfl, rfl⟩ := List.cons.inj heq
                exact ⟨rfl, by simpa using hes⟩
            have hadd := recv_expected (f := ⟨k, true, t⟩) hr hn.symm hk
            rw [out_frag, hadd, fragsOf_frag, hnil]
            refine Or.inr ⟨?_, rfl⟩
            rw [(out_dead (by simp [hnil])).1]
            simp [Rcv.add]

/-- The received fragments of `msg`: some of them, the first one among them if there is any. -/
def HeadFirst (c : Nat) (msg : List α) (fs : List (Frag α)) : Prop :=
  fs.Sublist (frags c msg) ∧ (fs = [] ∨ fs.head? = (frags c msg).head?)

theorem frags_eq_cons (c : Nat) (msg : List α) :
    ∃ f fs, frags c msg = f :: fs ∧ f.seq = 0 ∧ (∀ g ∈ fs, 0 < g.seq) ∧
      (f.last = true → f.body = msg ∧ fs = []) ∧
      (f.last = false → f.body ++ msg.drop c = msg ∧ fs = fragsFrom c 1 (msg.drop c)) := by
  by_cases h : 0 < c ∧ c < msg.length
  · refine ⟨_, _, fragsFrom_cons h.1 h.2, rfl, fun g hg => ?_, by simp, by simp⟩
    have := le_seq_of_mem_fragsFrom hg; omega
  · refine ⟨⟨0, true, msg⟩, [], by rw [frags, fragsFrom, if_neg h], rfl, by simp, by simp, by simp⟩

theorem out_message {c : Nat} {msg : List α} {es : List (Ev α)} {r : Rcv α} (hr : r.Clean)
    (hes : HeadFirst c msg (fragsOf es)) :
    out es r = r.ready.toList ∨ out es r = r.ready.toList ++ [msg] ∧ fragsOf es = frags c msg := by
  induction es generalizing r with
  | nil => exact Or.inl (by simp [out, run])
  | cons e es ih =>
      cases e with
      | take =>
          rw [out_take]
          rcases ih (Rcv.Clean.taken r) hes with h | ⟨h, hall⟩
          · exact Or.inl (by rw [h]; simp [Rcv.taken])
          · exact Or.inr ⟨by rw [h]; simp [Rcv.taken], by simpa using hall⟩
      | frag f =>
          obtain ⟨hsub, hhead⟩ := hes
          obtain ⟨g, gs, hfs, hg0, hgs, hlast, hnot⟩ := frags_eq_cons c msg
          rw [fragsOf_frag, hfs] at hsub
          obtain rfl : f = g := by simpa [hfs] using hhead
          have hrest : (fragsOf es).Sublist gs := List.cons_sublist_cons.mp hsub
          rw [out_frag, fragsOf_frag, hfs]
          by_cases hw : r.ready.isSome
          · -- the first fragment is dropped, so the rest is ahead of the 0 that is expected
            have hdead := out_dead (l := es) (r := r) fun x hx => by
              rw [hr hw]; exact hgs x (hrest.subset hx)
            exact Or.inl (by rw [recv_waiting hw, hdead.1])
          · have hnone : r.ready = none := by simpa using hw
            rw [recv_first hnone hg0, hnone]
            cases hl : f.last with
            | true =>
                obtain ⟨hbody, rfl⟩ := hlast hl
                have hnil : fragsOf es = [] := by simpa using hrest
                refine Or.inr ⟨?_, by rw [hnil]⟩
                rw [(out_dead (by simp [hnil])).1]
                simp [Rcv.add, hl, hbody]
            | false =>
                obtain ⟨hbody, rfl⟩ := hnot hl
                have hnext := out_rest (r := Rcv.add ⟨none, 0, []⟩ f) (k := 1) (by omega)
                  (by simp [Rcv.add, hl]) (by simp [Rcv.add, hl]) hrest
                rcases hnext with h | ⟨h, hall⟩
                · exact Or.inl (by simpa using h)
                · exact Or.inr ⟨by simpa [Rcv.add, hl, hbody] using h, by rw [hall]⟩

/-- The messages whose fragments all arrived. -/
def complete [DecidableEq α] (c : Nat) (msgs : List (List α)) (rs : List (List (Frag α))) : List (List α) :=
  ((msgs.zip rs).filter fun p => p.2 = frags c p.1).map Prod.fst

theorem complete_cons [DecidableEq α] (c : Nat) (msg : List α) (fs : List (Frag α)) (msgs : List (List α))
    (rs : List (List (Frag α))) :
    complete c (msg :: msgs) (fs :: rs) = (if fs = frags c msg then [msg] else []) ++ complete c msgs rs := by
  by_cases h : fs = frags c msg <;> simp [complete, h]

theorem complete_sublist_left [DecidableEq α] (c : Nat) (msgs : List (List α)) (rs : List (List (Frag α))) :
    (complete c msgs rs).Sublist msgs := by
  induction msgs generalizing rs with
  | nil => exact List.Sublist.refl []
  | cons msg msgs ih =>
      cases rs with
      | nil => exact List.nil_sublist _
      | cons fs rs =>
          rw [complete_cons]
          split
          · exact (ih rs).cons_cons msg
          · exact (ih rs).cons msg

/-- No message loses its first fragment alone: what comes out is an in-order part of the messages whose
fragments all arrived. -/
theorem out_sublist [DecidableEq α] {c : Nat} {msgs : List (List α)} {rs : List (List (Frag α))}
    {es : List (Ev α)} {r : Rcv α} (hr : r.Clean) (hrs : List.Forall₂ (HeadFirst c) msgs rs)
    (hes : fragsOf es = rs.flatten) :
    (out es r).Sublist (r.ready.toList ++ complete c msgs rs) := by
  induction hrs generalizing es r with
  | nil =>
      have h := (out_dead (l := es) (r := r) (by simp [hes])).1
      simp [h, complete]
  | @cons msg fs msgs rs hfs hrs ih =>
      obtain ⟨es₁, es₂, rfl, h₁, h₂⟩ := exists_split_of_fragsOf_eq (by simpa using hes)
      have htail := ih (run_clean hr) h₂ (r := (run es₁ r).2)
      rw [out_append]
      have hstep : ((run es₁ r).1 ++ out es₂ (run es₁ r).2).Sublist (out es₁ r ++ complete c msgs rs) := by
        simpa only [out, List.append_assoc] using (List.Sublist.refl (run es₁ r).1).append htail
      apply hstep.trans
      rcases out_message hr (by rwa [h₁]) with h | ⟨h, hall⟩
      · rw [h, complete_cons]
        exact (List.Sublist.refl _).append (List.sublist_append_right _ _)
      · rw [h, complete_cons, if_pos (h₁.symm.trans hall), List.append_assoc]

/-- A prefix of several lists in a row, cut into a prefix of each. -/
theorem exists_prefixes_of_prefix_flatten {β : Type*} {ls : List (List β)} {l : List β} (h : l <+: ls.flatten) :
    ∃ rs, List.Forall₂ (· <+: ·) rs ls ∧ rs.flatten = l := by
  induction ls generalizing l with
  | nil => exact ⟨[], .nil, (List.prefix_nil.mp h).symm⟩
  | cons x ls ih =>
      rw [List.flatten_cons] at h
      rcases List.prefix_or_prefix_of_prefix h (List.prefix_append x _) with hx | ⟨t, rfl⟩
      · obtain ⟨rs, hrs, hflat⟩ := ih (List.nil_prefix (l := ls.flatten))
        exact ⟨l :: rs, .cons hx hrs, by rw [List.flatten_cons, hflat, List.append_nil]⟩
      · obtain ⟨rs, hrs, hflat⟩ := ih ((List.prefix_append_right_inj x).mp h)
        exact ⟨x :: rs, .cons (List.prefix_refl x) hrs, by rw [List.flatten_cons, hflat]⟩

theorem headFirst_of_isInit {c : Nat} {msg : List α} {fs : List (Frag α)} (h : fs <+: frags c msg) :
    HeadFirst c msg fs := by
  refine ⟨h.sublist, ?_⟩
  obtain ⟨gs, hgs⟩ := h
  cases fs with
  | nil => exact Or.inl rfl
  | cons f fs => exact Or.inr (by rw [← hgs]; rfl)

/-- Fewer fragments make fewer complete messages. -/
theorem complete_sublist [DecidableEq α] {c : Nat} {msgs : List (List α)} {rs qs : List (List (Frag α))}
    (hrs : List.Forall₂ (· <+: ·) rs qs) (hqs : List.Forall₂ (fun msg q => q <+: frags c msg) msgs qs) :
    (complete c msgs rs).Sublist (complete c msgs qs) := by
  induction hrs generalizing msgs with
  | nil => cases hqs; exact List.Sublist.refl _
  | @cons r q rs qs hrq _ ih =>
      obtain _ | ⟨hq, hqs⟩ := hqs
      rename_i msg msgs
      rw [complete_cons, complete_cons]
      refine List.Sublist.append ?_ (ih hqs)
      by_cases hr : r = frags c msg
      · have heq : q = frags c msg := hq.eq_of_length_le (by rw [← hr]; exact hrq.length_le)
        rw [if_pos hr, if_pos heq]
      · rw [if_neg hr]
        exact List.nil_sublist _

theorem headFirst_of_prefixes {c : Nat} {msgs : List (List α)} {rs qs : List (List (Frag α))}
    (hrs : List.Forall₂ (· <+: ·) rs qs) (hqs : List.Forall₂ (fun msg q => q <+: frags c msg) msgs qs) :
    List.Forall₂ (HeadFirst c) msgs rs := by
  induction hrs generalizing msgs with
  | nil => cases hqs; exact .nil
  | cons hrq _ ih =>
      obtain _ | ⟨hq, hqs⟩ := hqs
      exact .cons (headFirst_of_isInit (hrq.trans hq)) (ih hqs)

/-- The first fragments of each message get through, and those are handled up to some point. -/
theorem out_prefixes [DecidableEq α] {c : Nat} {msgs : List (List α)} {qs : List (List (Frag α))} {es : List (Ev α)}
    {r : Rcv α} (hr : r.Clean) (hqs : List.Forall₂ (fun msg q => q <+: frags c msg) msgs qs)
    (hes : fragsOf es <+: qs.flatten) : (out es r).Sublist (r.ready.toList ++ complete c msgs qs) := by
  obtain ⟨rs, hrs, hflat⟩ := exists_prefixes_of_prefix_flatten hes
  exact (out_sublist hr (headFirst_of_prefixes hrs hqs) hflat.symm).trans
    ((List.Sublist.refl _).append (complete_sublist hrs hqs))

/-! ## Nothing lost -/

/-- Whenever a first fragment arrives, no message waits. -/
def Prompt : List (Ev α) → Rcv α → Prop
  | [], _ => True
  | .frag f :: es, r => (f.seq = 0 → r.ready = none) ∧ Prompt es (r.recv f)
  | .take :: es, r => Prompt es r.taken

theorem prompt_append {es₁ es₂ : List (Ev α)} {r : Rcv α} :
    Prompt (es₁ ++ es₂) r ↔ Prompt es₁ r ∧ Prompt es₂ (run es₁ r).2 := by
  induction es₁ generalizing r with
  | nil => simp [Prompt, run]
  | cons e es₁ ih => cases e <;> simp [Prompt, run, ih, and_assoc]

theorem out_rest_all {c k : Nat} {t : List α} {l : List (Ev α)} {r : Rcv α} (hk : 0 < k)
    (hr : r.ready = none) (hn : r.next = k) (hes : fragsOf l = fragsFrom c k t) :
    out l r = [r.acc ++ t] ∧ (run l r).2.next = 0 ∧ (run l r).2.acc = [] := by
  induction l generalizing k t r with
  | nil => exact absurd hes.symm (fragsFrom_ne_nil c k t)
  | cons e l ih =>
      cases e with
      | take =>
          rw [out_take, run, taken_of_ready_none hr, hr]
          exact ih hk hr hn hes
      | frag f =>
          rw [fragsOf_frag] at hes
          by_cases hlong : 0 < c ∧ c < t.length
          · rw [fragsFrom_cons hlong.1 hlong.2, List.cons.injEq] at hes
            obtain ⟨rfl, hes⟩ := hes
            have hadd := recv_expected (f := ⟨k, false, t.take c⟩) hr hn.symm hk
            have hnext := ih (k := k + 1) (t := t.drop c) (r := r.add ⟨k, false, t.take c⟩) (by omega)
              (by simp [Rcv.add]) (by simp [Rcv.add, hn]) hes
            rw [out_frag, run, hadd]
            exact ⟨by rw [hnext.1]; simp [Rcv.add], hnext.2⟩
          · rw [fragsFrom, if_neg hlong, List.cons.injEq] at hes
            obtain ⟨rfl, hes⟩ := hes
            have hadd := recv_expected (f := ⟨k, true, t⟩) hr hn.symm hk
            have hdead := out_dead (l := l) (r := r.add ⟨k, true, t⟩) (by simp [hes])
            rw [out_frag, run, hadd]
            exact ⟨by rw [hdead.1]; simp [Rcv.add], by rw [hdead.2.1]; simp [Rcv.add],
              by rw [hdead.2.2]; simp [Rcv.add]⟩

/-- All fragments of a message arrive, and its first one finds no message waiting. -/
theorem out_message_all {c : Nat} {msg : List α} {es : List (Ev α)} {r : Rcv α} (hp : Prompt es r)
    (hes : fragsOf es = frags c msg) :
    out es r = r.ready.toList ++ [msg] ∧ (run es r).2.next = 0 ∧ (run es r).2.acc = [] := by
  induction es generalizing r with
  | nil => exact absurd hes.symm (fragsFrom_ne_nil c 0 msg)
  | cons e es ih =>
      cases e with
      | take =>
          obtain ⟨h₁, h₂⟩ := ih (r := r.taken) hp hes
          exact ⟨by rw [out_take, h₁]; simp [Rcv.taken], h₂⟩
      | frag f =>
          obtain ⟨g, gs, hfs, hg0, hgs, hlast, hnot⟩ := frags_eq_cons c msg
          rw [fragsOf_frag, hfs, List.cons.injEq] at hes
          obtain ⟨rfl, hes⟩ := hes
          have hnone := hp.1 hg0
          rw [out_frag, run, recv_first hnone hg0, hnone]
          cases hl : f.last with
          | true =>
              obtain ⟨hbody, rfl⟩ := hlast hl
              have hdead := out_dead (l := es) (r := Rcv.add ⟨none, 0, []⟩ f) (by simp [hes])
              exact ⟨by rw [hdead.1]; simp [Rcv.add, hl, hbody], by rw [hdead.2.1]; simp [Rcv.add, hl],
                by rw [hdead.2.2]; simp [Rcv.add, hl]⟩
          | false =>
              obtain ⟨hbody, rfl⟩ := hnot hl
              have hall := out_rest_all (r := Rcv.add ⟨none, 0, []⟩ f) (k := 1) (by omega)
                (by simp [Rcv.add, hl]) (by simp [Rcv.add, hl]) hes
              exact ⟨by rw [hall.1]; simp [Rcv.add, hl, hbody], hall.2⟩

/-- Nothing lost and every message taken in time: what comes out is what went in. -/
theorem out_eq {c : Nat} {msgs : List (List α)} {es : List (Ev α)} {r : Rcv α} (hp : Prompt es r)
    (hes : fragsOf es = msgs.flatMap (frags c)) : out es r = r.ready.toList ++ msgs := by
  induction msgs generalizing es r with
  | nil => simpa using (out_dead (l := es) (r := r) (by simp [hes])).1
  | cons msg msgs ih =>
      obtain ⟨es₁, es₂, rfl, h₁, h₂⟩ := exists_split_of_fragsOf_eq (by simpa using hes)
      obtain ⟨hp₁, hp₂⟩ := prompt_append.mp hp
      have hmsg := (out_message_all hp₁ h₁).1
      rw [out] at hmsg
      rw [out_append, ih hp₂ h₂, ← List.append_assoc, hmsg]
      simp

/-! ## Anything lost -/

/-- `gs` are fragments numbered from 0, none of them final. -/
def Numbered (gs : List (Frag α)) : Prop := ∀ i (h : i < gs.length), gs[i].seq = i ∧ gs[i].last = false

/-- `msg` is put together from fragments numbered from 0 to a final one, in the order of `fs`. -/
def Assembled (fs : List (Frag α)) (msg : List α) : Prop :=
  ∃ gs g, (gs ++ [g]).Sublist fs ∧ Numbered gs ∧ g.seq = gs.length ∧ g.last = true ∧
    msg = (gs ++ [g]).flatMap Frag.body

theorem Assembled.append {fs : List (Frag α)} {msg : List α} (h : Assembled fs msg) (gs : List (Frag α)) :
    Assembled (fs ++ gs) msg := by
  obtain ⟨as, a, hsub, rest⟩ := h
  exact ⟨as, a, hsub.trans (List.sublist_append_left fs gs), rest⟩

theorem Assembled.mono {fs gs : List (Frag α)} {msg : List α} (h : Assembled fs msg) (hfs : fs.Sublist gs) :
    Assembled gs msg := by
  obtain ⟨as, a, hsub, rest⟩ := h
  exact ⟨as, a, hsub.trans hfs, rest⟩

/-- What the receiver holds comes from the fragments `fs`. -/
structure Holds (fs : List (Frag α)) (r : Rcv α) : Prop where
  waiting : ∀ msg, r.ready = some msg → Assembled fs msg
  partly : ∃ gs, gs.Sublist fs ∧ Numbered gs ∧ gs.length = r.next ∧ gs.flatMap Frag.body = r.acc

theorem numbered_nil : Numbered ([] : List (Frag α)) := fun i h => by simp at h

theorem Numbered.snoc {gs : List (Frag α)} {f : Frag α} (h : Numbered gs) (hf : f.seq = gs.length)
    (hl : f.last = false) : Numbered (gs ++ [f]) := by
  intro i hi
  by_cases hlt : i < gs.length
  · simpa [List.getElem_append_left hlt] using h i hlt
  · have : i = gs.length := by simp at hi; omega
    subst this
    simpa using ⟨hf, hl⟩

theorem Holds.add {fs : List (Frag α)} {r : Rcv α} {f : Frag α} (h : Holds fs r) (hf : f.seq = r.next) :
    Holds (fs ++ [f]) (r.add f) := by
  obtain ⟨gs, hsub, hnum, hlen, hacc⟩ := h.partly
  have hsnoc : (gs ++ [f]).Sublist (fs ++ [f]) := hsub.append (List.Sublist.refl _)
  unfold Rcv.add
  cases hl : f.last with
  | true =>
      refine ⟨fun msg hm => ?_, [], List.nil_sublist _, numbered_nil, rfl, rfl⟩
      obtain rfl : r.acc ++ f.body = msg := by simpa using hm
      exact ⟨gs, f, hsnoc, hnum, by omega, hl, by simp [hacc]⟩
  | false =>
      exact ⟨by simp, gs ++ [f], hsnoc, hnum.snoc (by omega) hl, by simp [hlen], by simp [hacc]⟩

theorem Holds.recv {fs : List (Frag α)} {r : Rcv α} {f : Frag α} (h : Holds fs r) :
    Holds (fs ++ [f]) (r.recv f) := by
  have hkeep : ∀ {q : Rcv α}, Holds fs q → Holds (fs ++ [f]) q := fun {q} hq =>
    ⟨fun msg hm => (hq.waiting msg hm).append _, by
      obtain ⟨gs, hsub, rest⟩ := hq.partly
      exact ⟨gs, hsub.trans (List.sublist_append_left fs [f]), rest⟩⟩
  have hrestart : Holds fs (r.restart f) := by
    unfold Rcv.restart
    split
    · exact ⟨h.waiting, [], List.nil_sublist _, numbered_nil, rfl, rfl⟩
    · exact h
  unfold Rcv.recv
  split
  · exact hkeep h
  · split
    · rename_i hf
      exact hrestart.add hf
    · exact hkeep hrestart

theorem Holds.taken {fs : List (Frag α)} {r : Rcv α} (h : Holds fs r) : Holds fs r.taken :=
  ⟨by simp [Rcv.taken], h.partly⟩

/-- Whatever arrives, a message that comes out is put together from fragments numbered from 0 to a final
one, in the order in which they arrived. -/
theorem out_assembled {fs : List (Frag α)} {es : List (Ev α)} {r : Rcv α} (h : Holds fs r) :
    ∀ msg ∈ out es r, Assembled (fs ++ fragsOf es) msg := by
  induction es generalizing fs r with
  | nil =>
      intro msg hm
      simpa using h.waiting msg (by simpa [out, run] using hm)
  | cons e es ih =>
      cases e with
      | frag f =>
          intro msg hm
          simpa using ih h.recv msg hm
      | take =>
          intro msg hm
          rw [out_take, List.mem_append] at hm
          rcases hm with hm | hm
          · exact (h.waiting msg (by simpa using hm)).append _
          · exact ih h.taken msg hm

/-! ## Repeated fragments -/

/-- `ys` is `xs` with every element once or several times in a row. -/
inductive Repeats {β : Type*} : List β → List β → Prop
  | nil : Repeats [] []
  | cons (x : β) (n : Nat) {xs ys : List β} : Repeats xs ys →
      Repeats (x :: xs) (List.replicate (n + 1) x ++ ys)

/-- The fragments `fs` arrive, each one or several times, and a read follows the first copy of the final
one. -/
def Copies (fs : List (Frag α)) (es : List (Ev α)) : Prop :=
  ∃ es₁ es₂ x n, es = es₁ ++ .take :: es₂ ∧ Repeats fs (fragsOf es₁) ∧ fs.getLast? = some x ∧
    fragsOf es₂ = List.replicate n x

/-- The fragments of `msg` arrive that way. -/
def Delivery (c : Nat) (msg : List α) (es : List (Ev α)) : Prop := Copies (frags c msg) es

def TakenBetween (es : List (Ev α)) : Prop :=
  ∃ es₁ f es₂ es₃ g es₄, es = es₁ ++ .frag f :: (es₂ ++ .take :: (es₃ ++ .frag g :: es₄))

theorem repeats_cons {β : Type*} {x : β} {xs zs : List β} (h : Repeats (x :: xs) zs) :
    ∃ n ys, zs = List.replicate (n + 1) x ++ ys ∧ Repeats xs ys := by
  cases h with
  | cons _ n h => exact ⟨n, _, rfl, h⟩

theorem repeats_nil {β : Type*} {zs : List β} (h : Repeats [] zs) : zs = [] := by cases h; rfl

theorem mem_of_repeats {β : Type*} {xs ys : List β} (h : Repeats xs ys) : ∀ y ∈ ys, y ∈ xs := by
  induction h with
  | nil => simp
  | cons x n _ ih =>
      intro y hy
      rcases List.mem_append.mp hy with hy | hy
      · rw [List.eq_of_mem_replicate hy]; exact List.mem_cons_self
      · exact List.mem_cons_of_mem x (ih y hy)

theorem Copies.mem {fs : List (Frag α)} {es : List (Ev α)} (h : Copies fs es) {f : Frag α} (hf : f ∈ fragsOf es) :
    f ∈ fs := by
  obtain ⟨es₁, es₂, x, n, rfl, hrep, hx, hes₂⟩ := h
  rw [fragsOf_append, fragsOf_take, hes₂, List.mem_append] at hf
  rcases hf with hf | hf
  · exact mem_of_repeats hrep f hf
  · rw [List.eq_of_mem_replicate hf]; exact List.mem_of_getLast? hx

theorem mem_of_deliveries {c : Nat} {msgs : List (List α)} {segs : List (List (Ev α))}
    (h : List.Forall₂ (Delivery c) msgs segs) {f : Frag α} (hf : f ∈ fragsOf segs.flatten) :
    ∃ msg ∈ msgs, f ∈ frags c msg := by
  induction h with
  | nil => simp at hf
  | @cons msg es msgs segs hes _ ih =>
      rw [List.flatten_cons, fragsOf_append, List.mem_append] at hf
      rcases hf with hf | hf
      · exact ⟨msg, List.mem_cons_self, Copies.mem hes hf⟩
      · obtain ⟨m, hm, hmem⟩ := ih hf
        exact ⟨m, List.mem_cons_of_mem msg hm, hmem⟩

/-- Copies of a fragment that the receiver ignores once it has it. -/
theorem run_copies {es : List (Ev α)} {r q : Rcv α} {f : Frag α} {n : Nat} (hr : r.ready = none)
    (hq : q.ready = none) (hrq : r.recv f = q) (hqq : q.recv f = q)
    (hes : fragsOf es = List.replicate (n + 1) f) : run es r = ([], q) := by
  have hstay : ∀ {es : List (Ev α)} {n : Nat}, fragsOf es = List.replicate n f → run es q = ([], q) := by
    intro es
    induction es with
    | nil => simp [run]
    | cons e es ih =>
        intro n hes
        cases e with
        | take => rw [run, taken_of_ready_none hq, ih hes, hq]; rfl
        | frag g =>
            cases n with
            | zero => simp at hes
            | succ n =>
                rw [fragsOf_frag, List.replicate_succ, List.cons.injEq] at hes
                rw [run, hes.1, hqq, ih hes.2]
  induction es with
  | nil => simp at hes
  | cons e es ih =>
      cases e with
      | take => rw [run, taken_of_ready_none hr, ih hes, hr]; rfl
      | frag g =>
          rw [fragsOf_frag, List.replicate_succ, List.cons.injEq] at hes
          rw [run, hes.1, hrq, hstay hes.2]

theorem out_final_copies {es : List (Ev α)} {r : Rcv α} {f : Frag α} {n : Nat} {msg : List α}
    (hr : r.ready = none) (hf : 0 < f.seq) (hadd : r.recv f = ⟨some msg, 0, []⟩)
    (hes : fragsOf es = List.replicate (n + 1) f) :
    out es r = [msg] ∧ (run es r).2.next = 0 ∧ (run es r).2.acc = [] := by
  induction es with
  | nil => simp at hes
  | cons e es ih =>
      cases e with
      | take => rw [out_take, run, taken_of_ready_none hr, hr]; exact ih hes
      | frag g =>
          rw [fragsOf_frag, List.replicate_succ, List.cons.injEq] at hes
          rw [out_frag, run, hes.1, hadd]
          have hdead := out_dead (l := es) (r := ⟨some msg, 0, []⟩) fun x hx => by
            rw [hes.2] at hx
            rw [List.eq_of_mem_replicate hx]; exact hf
          simpa using hdead

theorem out_repeats_rest {c k : Nat} {t : List α} {l : List (Ev α)} {r : Rcv α} (hk : 0 < k)
    (hr : r.ready = none) (hn : r.next = k) (hes : Repeats (fragsFrom c k t) (fragsOf l)) :
    out l r = [r.acc ++ t] ∧ (run l r).2.next = 0 ∧ (run l r).2.acc = [] := by
  induction k, t using fragsFrom.induct c generalizing l r with
  | case1 k t hc ih =>
      rw [fragsFrom_cons hc.1 hc.2] at hes
      obtain ⟨n, ys, hcopies, hrest⟩ := repeats_cons hes
      obtain ⟨es₁, es₂, rfl, h₁, h₂⟩ := exists_split_of_fragsOf_eq hcopies
      have hadd := recv_expected (f := ⟨k, false, t.take c⟩) hr hn.symm hk
      have hagain : (r.add ⟨k, false, t.take c⟩).recv ⟨k, false, t.take c⟩ =
          r.add ⟨k, false, t.take c⟩ := recv_other (by simp [Rcv.add, hn]) hk
      have hrun := run_copies hr (by simp [Rcv.add]) hadd hagain h₁
      have hnext := ih (l := es₂) (r := r.add ⟨k, false, t.take c⟩) (by omega) (by simp [Rcv.add])
        (by simp [Rcv.add, hn]) (by rwa [h₂])
      rw [out_append, run_append, hrun]
      exact ⟨by rw [List.nil_append, hnext.1]; simp [Rcv.add], hnext.2⟩
  | case2 k t hc =>
      rw [fragsFrom, if_neg hc] at hes
      obtain ⟨n, ys, hcopies, hrest⟩ := repeats_cons hes
      rw [repeats_nil hrest, List.append_nil] at hcopies
      have hadd := recv_expected (f := ⟨k, true, t⟩) hr hn.symm hk
      exact out_final_copies hr hk (hadd.trans (by simp [Rcv.add])) hcopies

/-- The final fragment of a message of several fragments does not have number 0. -/
theorem getLast_fragsFrom_seq {c k : Nat} {t : List α} {x : Frag α}
    (h : (fragsFrom c k t).getLast? = some x) : k ≤ x.seq :=
  le_seq_of_mem_fragsFrom (List.mem_of_getLast? h)

/-- A message of several fragments: whatever is repeated, it is delivered once. -/
theorem run_repeats {c : Nat} {msg : List α} {es : List (Ev α)} {r : Rcv α} (hc : 0 < c)
    (hlong : c < msg.length) (hr : r.ready = none) (hes : Delivery c msg es) :
    run es r = ([msg], ⟨none, 0, []⟩) := by
  obtain ⟨es₁, es₂, x, n, rfl, hrep, hx, hes₂⟩ := hes
  rw [frags, fragsFrom_cons hc hlong] at hrep hx
  obtain ⟨m, ys, hcopies, hrest⟩ := repeats_cons hrep
  obtain ⟨es₃, es₄, rfl, h₃, h₄⟩ := exists_split_of_fragsOf_eq hcopies
  have hx1 : 0 < x.seq := by
    obtain ⟨y, ys', hy⟩ := List.exists_cons_of_ne_nil (fragsFrom_ne_nil c (0 + 1) (msg.drop c))
    rw [hy, List.getLast?_cons_cons, ← hy] at hx
    exact getLast_fragsFrom_seq hx
  have hfirst : r.recv ⟨0, false, msg.take c⟩ = ⟨none, 1, msg.take c⟩ := by
    rw [recv_first hr rfl]; simp [Rcv.add]
  have hagain : Rcv.recv ⟨none, 1, msg.take c⟩ ⟨0, false, msg.take c⟩ = ⟨none, 1, msg.take c⟩ := by
    rw [recv_first rfl rfl]; simp [Rcv.add]
  have hhead := run_copies hr rfl hfirst hagain h₃
  have htail := out_repeats_rest (l := es₄) (r := ⟨none, 1, msg.take c⟩) (k := 1) (by omega) rfl rfl
    (by rwa [h₄])
  obtain ⟨hout, hnext, hacc⟩ := htail
  simp only [List.take_append_drop] at hout
  -- the read takes the message, and what follows are copies of a fragment that is not number 0
  generalize hq : (run es₄ ⟨none, 1, msg.take c⟩).2 = q at hnext hacc
  have hafter := out_dead (l := es₂) (r := q.taken) fun g hg => by
    rw [hes₂] at hg
    rw [List.eq_of_mem_replicate hg, Rcv.taken]
    dsimp only
    omega
  obtain ⟨ha₁, ha₂, ha₃⟩ := hafter
  have hnil : (run es₂ q.taken).1 = [] ∧ (run es₂ q.taken).2.ready = none := by
    simpa [out, Rcv.taken, List.append_eq_nil_iff] using ha₁
  have hlast : (run es₂ q.taken).2 = ⟨none, 0, []⟩ := by
    rw [← hnil.2, ← hnext, ← hacc]
    rw [show q.next = (run es₂ q.taken).2.next from ha₂.symm,
      show q.acc = (run es₂ q.taken).2.acc from ha₃.symm]
  have hout' : (run es₄ ⟨none, 1, msg.take c⟩).1 ++ q.ready.toList = [msg] := by rw [← hq]; exact hout
  rw [List.append_assoc, run_append, hhead, run_append, hq, run, hnil.1, hlast]
  simpa using hout'

theorem exists_frag_of_ne_nil {l : List (Ev α)} (h : fragsOf l ≠ []) : ∃ a f b, l = a ++ .frag f :: b := by
  induction l with
  | nil => exact absurd rfl h
  | cons e l ih =>
      cases e with
      | frag f => exact ⟨[], f, l, rfl⟩
      | take =>
          obtain ⟨a, f, b, rfl⟩ := ih h
          exact ⟨.take :: a, f, b, rfl⟩

theorem run_reads {es : List (Ev α)} {r : Rcv α} (hr : r.ready = none) (h : fragsOf es = []) :
    run es r = ([], r) := by
  induction es with
  | nil => rfl
  | cons e es ih =>
      cases e with
      | frag f => simp at h
      | take => rw [run, taken_of_ready_none hr, ih h, hr]; rfl

section Single
variable {c : Nat} {msg : List α} {es : List (Ev α)} {r : Rcv α}

/-- Every fragment that arrives is the only one of `msg`. -/
def Only (msg : List α) (es : List (Ev α)) : Prop := ∀ f ∈ fragsOf es, f = ⟨0, true, msg⟩

theorem recv_only (hr : r.ready = none) : r.recv ⟨0, true, msg⟩ = ⟨some msg, 0, []⟩ := by
  rw [recv_first hr rfl]; simp [Rcv.add]

/-- With a message waiting, further copies are dropped, and the first read takes it. -/
theorem run_waiting_only (htake : .take ∈ es)
    (hno : ¬ ∃ a b g d, es = a ++ .take :: (b ++ .frag g :: d)) :
    run es ⟨some msg, 0, []⟩ = ([msg], ⟨none, 0, []⟩) := by
  induction es with
  | nil => simp at htake
  | cons e es ih =>
      cases e with
      | frag f =>
          rw [run, recv_waiting rfl]
          apply ih (by simpa using htake)
          rintro ⟨a, b, g, d, rfl⟩
          exact hno ⟨.frag f :: a, b, g, d, rfl⟩
      | take =>
          have hnil : fragsOf es = [] := by
            by_contra hne
            obtain ⟨a, g, b, rfl⟩ := exists_frag_of_ne_nil hne
            exact hno ⟨[], a, g, b, rfl⟩
          rw [run, run_reads rfl hnil]
          rfl

theorem run_only (hr : r.ready = none) (hes : Only msg es)
    (htake : ∃ a f b d, es = a ++ .frag f :: (b ++ .take :: d)) (hno : ¬ TakenBetween es) :
    run es r = ([msg], ⟨none, 0, []⟩) := by
  induction es with
  | nil => obtain ⟨a, f, b, d, h⟩ := htake; simp at h
  | cons e es ih =>
      cases e with
      | take =>
          rw [run, taken_of_ready_none hr, hr, ih hes]
          · rfl
          · obtain ⟨a, f, b, d, h⟩ := htake
            cases a with
            | nil => simp at h
            | cons _ a => exact ⟨a, f, b, d, (List.cons.inj h).2⟩
          · rintro ⟨a, f, b, b', g, d, rfl⟩
            exact hno ⟨.take :: a, f, b, b', g, d, rfl⟩
      | frag f =>
          have hf : f = ⟨0, true, msg⟩ := hes f List.mem_cons_self
          rw [run, hf, recv_only hr]
          refine run_waiting_only ?_ ?_
          · obtain ⟨a, g, b, d, h⟩ := htake
            cases a with
            | nil => rw [(List.cons.inj h).2]; simp
            | cons _ a => rw [(List.cons.inj h).2]; simp
          · rintro ⟨a, b, g, d, rfl⟩
            exact hno ⟨[], f, a, b, g, d, rfl⟩

/-- Whatever waits or arrives comes out. -/
theorem out_only_ne_nil (hes : Only msg es) (h : r.ready.isSome ∨ fragsOf es ≠ []) : out es r ≠ [] := by
  induction es generalizing r with
  | nil =>
      obtain ⟨m, hm⟩ := Option.isSome_iff_exists.mp (h.resolve_right (by simp))
      simp [out, run, hm]
  | cons e es ih =>
      cases e with
      | frag f =>
          rw [out_frag]
          refine ih (fun g hg => hes g (List.mem_cons_of_mem f hg)) (Or.inl ?_)
          by_cases hw : r.ready.isSome
          · rwa [recv_waiting hw]
          · rw [hes f List.mem_cons_self, recv_only (by simpa using hw)]
            rfl
      | take =>
          rw [out_take]
          by_cases hw : r.ready.isSome
          · obtain ⟨m, hm⟩ := Option.isSome_iff_exists.mp hw
            simp [hm]
          · have hne := ih (r := r.taken) hes (Or.inr (h.resolve_left hw))
            simp [hne]

theorem two_le_length_out (hes : Only msg es) (h : TakenBetween es) : 2 ≤ (out es r).length := by
  obtain ⟨a, f, b, b', g, d, rfl⟩ := h
  have hf : f = ⟨0, true, msg⟩ := hes f (by simp [fragsOf_append])
  have hb : Only msg b := fun x hx => hes x (by simp [fragsOf_append, hx])
  have hd : Only msg (b' ++ .frag g :: d) := fun x hx => hes x (by
    simp only [fragsOf_append, fragsOf_frag, fragsOf_take, List.mem_append, List.mem_cons] at hx ⊢; tauto)
  generalize hs : (run a r).2.recv f = s
  have hwait : s.ready.isSome := by
    rw [← hs]
    by_cases hw : (run a r).2.ready.isSome
    · rwa [recv_waiting hw]
    · rw [hf, recv_only (by simpa using hw)]; rfl
  have h₁ := List.length_pos_of_ne_nil (out_only_ne_nil hb (Or.inl hwait))
  have h₂ := List.length_pos_of_ne_nil (out_only_ne_nil (r := (run b s).2.taken) hd (Or.inr (by simp [fragsOf_append])))
  rw [out_append, out_frag, hs, out_append, out_take]
  simp only [out, List.length_append] at h₁ h₂ ⊢
  omega

theorem Delivery.only (hes : Delivery c msg es) (hshort : msg.length ≤ c) : Only msg es := by
  obtain ⟨es₁, es₂, x, n, rfl, hrep, hx, hes₂⟩ := hes
  rw [frags, fragsFrom_single hshort] at hrep hx
  obtain ⟨m, ys, hcopies, hnil⟩ := repeats_cons hrep
  rw [repeats_nil hnil, List.append_nil] at hcopies
  obtain rfl : ⟨0, true, msg⟩ = x := by simpa using hx
  intro f hf
  rw [fragsOf_append, fragsOf_take, hcopies, hes₂, List.mem_append] at hf
  rcases hf with hf | hf <;> exact List.eq_of_mem_replicate hf

theorem Delivery.taken_after (hes : Delivery c msg es) : ∃ a f b d, es = a ++ .frag f :: (b ++ .take :: d) := by
  obtain ⟨es₁, es₂, x, n, rfl, hrep, -, -⟩ := hes
  obtain ⟨f, fs, hfs, -⟩ := frags_eq_cons c msg
  rw [hfs] at hrep
  obtain ⟨m, ys, hcopies, -⟩ := repeats_cons hrep
  obtain ⟨a, g, b, rfl⟩ := exists_frag_of_ne_nil (l := es₁) (by simp [hcopies])
  exact ⟨a, g, b, es₂, by simp⟩

/-- A message of one fragment is delivered once exactly when it is not taken between two copies. -/
theorem run_repeats_single_iff (hshort : msg.length ≤ c) (hr : r.ready = none) (hes : Delivery c msg es) :
    ((run es r).1 = [msg] ∧ (run es r).2.ready = none) ↔ ¬ TakenBetween es := by
  have honly := hes.only hshort
  constructor
  · rintro ⟨h₁, h₂⟩ hbetween
    have := two_le_length_out (r := r) honly hbetween
    simp [out, h₁, h₂] at this
  · intro hno
    rw [run_only hr honly hes.taken_after hno]
    exact ⟨rfl, rfl⟩

end Single

/-- Repeated fragments in a whole run: at every message boundary exactly the messages so far are
delivered, if and only if no message of one fragment is taken between two of its copies. -/
theorem run_deliveries_iff {c : Nat} (hc : 0 < c) {msgs : List (List α)} {segs : List (List (Ev α))} {r : Rcv α}
    (h : List.Forall₂ (Delivery c) msgs segs) (hr : r.ready = none) :
    (∀ i ≤ msgs.length, (run (segs.take i).flatten r).1 = msgs.take i ∧
        (run (segs.take i).flatten r).2.ready = none) ↔
      ∀ p ∈ msgs.zip segs, p.1.length ≤ c → ¬ TakenBetween p.2 := by
  induction h generalizing r with
  | nil => simp [run, hr]
  | @cons msg es msgs segs hes hrest ih =>
      have hmsg : ((run es r).1 = [msg] ∧ (run es r).2.ready = none) ↔ (msg.length ≤ c → ¬ TakenBetween es) := by
        by_cases hshort : msg.length ≤ c
        · rw [run_repeats_single_iff hshort hr hes]
          exact ⟨fun h _ => h, fun h => h hshort⟩
        · rw [run_repeats hc (by omega) hr hes]
          exact ⟨fun _ h => absurd h hshort, fun _ => ⟨rfl, rfl⟩⟩
      simp only [List.zip_cons_cons, List.forall_mem_cons, ← hmsg]
      constructor
      · intro hall
        have h₁ := hall 1 (by simp)
        simp only [List.take_succ_cons, List.take_zero, List.flatten_cons, List.flatten_nil,
          List.append_nil] at h₁
        refine ⟨h₁, (ih h₁.2).mp fun i hi => ?_⟩
        have hi1 := hall (i + 1) (by simpa using hi)
        simp only [List.take_succ_cons, List.flatten_cons, run_append, h₁.1, List.singleton_append,
          List.cons.injEq, true_and] at hi1
        exact hi1
      · rintro ⟨h₁, hall⟩ i hi
        cases i with
        | zero => simp [run, hr]
        | succ i =>
            have hi1 := (ih h₁.2).mpr hall i (by simpa using hi)
            simp only [List.take_succ_cons, List.flatten_cons, run_append, h₁.1, List.singleton_append,
              List.cons.injEq, true_and]
            exact hi1

theorem out_waiting {es : List (Ev α)} {r : Rcv α} {m : List α} (h : r.ready = some m) : ∃ l, out es r = m :: l := by
  induction es generalizing r with
  | nil => exact ⟨[], by simp [out, run, h]⟩
  | cons e es ih =>
      cases e with
      | frag f =>
          rw [out_frag, recv_waiting (by simp [h])]
          exact ih h
      | take => exact ⟨out es r.taken, by rw [out_take, h]; rfl⟩

theorem out_append_prefix (es₁ es₂ : List (Ev α)) (r : Rcv α) : ∃ l, out (es₁ ++ es₂) r = out es₁ r ++ l := by
  have hfirst : out es₁ r = (run es₁ r).1 ++ (run es₁ r).2.ready.toList := rfl
  cases hq : (run es₁ r).2.ready with
  | none => exact ⟨out es₂ (run es₁ r).2, by rw [out_append, hfirst, hq, Option.toList_none, List.append_nil]⟩
  | some m =>
      obtain ⟨l, hl⟩ : ∃ l, out es₂ (run es₁ r).2 = m :: l := out_waiting hq
      exact ⟨l, by rw [out_append, hl, hfirst, hq]; simp⟩

theorem out_only_eq {msg : List α} {es : List (Ev α)} {r : Rcv α} (hes : Only msg es) (hr : ∀ m ∈ r.ready, m = msg) :
    ∀ m ∈ out es r, m = msg := by
  induction es generalizing r with
  | nil => intro m hm; exact hr m (by simpa [out, run] using hm)
  | cons e es ih =>
      cases e with
      | frag f =>
          apply ih (fun g hg => hes g (List.mem_cons_of_mem f hg))
          by_cases hw : r.ready.isSome
          · rwa [recv_waiting hw]
          · rw [hes f List.mem_cons_self, recv_only (by simpa using hw)]
            rintro m ⟨⟩
            rfl
      | take =>
          intro m hm
          rw [out_take, List.mem_append] at hm
          rcases hm with hm | hm
          · exact hr m (by simpa using hm)
          · exact ih hes (by simp [Rcv.taken]) m hm

/-- Where no message equals the one before it, the list of what comes out alone tells that none of one
fragment was taken between two copies. -/
theorem not_takenBetween_of_out_eq {c : Nat} (hc : 0 < c) {msgs : List (List α)} {segs : List (List (Ev α))} {r : Rcv α}
    (h : List.Forall₂ (Delivery c) msgs segs) (hr : r.ready = none) (hne : msgs.IsChain (· ≠ ·))
    (hout : out segs.flatten r = msgs) : ∀ p ∈ msgs.zip segs, p.1.length ≤ c → ¬ TakenBetween p.2 := by
  induction h generalizing r with
  | nil => simp
  | @cons msg es msgs segs hes hrest ih =>
      rw [List.flatten_cons] at hout
      -- a segment that delivers its message leaves the rest of the list to the other segments
      have hgo : run es r = ([msg], (run es r).2) → (run es r).2.ready = none →
          ∀ p ∈ msgs.zip segs, p.1.length ≤ c → ¬ TakenBetween p.2 := by
        intro hrun hnone
        apply ih hnone hne.tail
        rw [out_append, hrun, List.singleton_append, List.cons.injEq] at hout
        exact hout.2
      rw [List.zip_cons_cons, List.forall_mem_cons]
      by_cases hshort : msg.length ≤ c
      · by_cases hbetween : TakenBetween es
        · have hlen := two_le_length_out (r := r) (hes.only hshort) hbetween
          have hmem := out_only_eq (r := r) (hes.only hshort) (by simp [hr])
          obtain ⟨l, hl⟩ := out_append_prefix es segs.flatten r
          rw [hout] at hl
          obtain ⟨x, y, zs, hxy⟩ : ∃ x y zs, out es r = x :: y :: zs := by
            match hm : out es r with
            | [] | [_] => simp [hm] at hlen
            | x :: y :: zs => exact ⟨x, y, zs, rfl⟩
          have hy : y = msg := hmem y (by simp [hxy])
          rw [hxy, List.cons_append, List.cons_append, List.cons.injEq] at hl
          obtain ⟨-, rfl⟩ := hl
          exact absurd hy.symm (List.isChain_cons_cons.mp hne).1
        · have hdone := run_only hr (hes.only hshort) hes.taken_after hbetween
          exact ⟨fun _ => hbetween, hgo (by rw [hdone]) (by rw [hdone])⟩
      · have hdone := run_repeats hc (by omega) hr hes
        exact ⟨fun h => absurd h hshort, hgo (by rw [hdone]) (by rw [hdone])⟩

end KnotHal.Reassembly
