import KnotHal.Nrf24.Feed
import KnotHal.Nrf24.Link

/-!
# What a pipe delivers

The two ends of a pipe are two runs of the API, each on its own build and its own slot, with any other
calls and pipes in between. What links them is a hypothesis on the air: which of the fragments sent are
received, and in which order.

* `write_then_read` : nothing lost, for one message through `read_raw` and for whole runs;
* `delivers_heard` : attempts that fail, with the fragment received or not;
* `delivers_assembled` : any fragments lost;
* `delivers_copies` : fragments repeated.
-/

namespace KnotHal.Nrf24

open Machine Reassembly

variable {b b' : Build}

/-! ## On the air -/

/-- The fragments sent on pipe `n`, with their outcomes. -/
def onAir (n : Nat) (past : List Entry) : List (Frag UInt8 × Outcome) := past.flatMap fun x => fragsOut n x.2.ops

/-- The fragments that the other side received. -/
def heard (l : List (Frag UInt8 × Outcome)) : List (Frag UInt8) := (l.filter (·.2.received)).map Prod.fst

/-- The accepted messages that `write_raw` has tried to send. -/
def transmitted (n : Nat) (past : List Entry) : List (List UInt8) := (accepted n past).take (groups n past).length

theorem flatten_filter_ne_nil {α : Type*} [DecidableEq α] (ls : List (List α)) :
    (ls.filter (· ≠ [])).flatten = ls.flatten := by
  induction ls with
  | nil => rfl
  | cons l ls ih =>
      by_cases h : l = []
      · rw [List.filter_cons_of_neg (by simp [h]), ih, h]; rfl
      · rw [List.filter_cons_of_pos (by simp [h]), List.flatten_cons, List.flatten_cons, ih]

theorem flatten_groups (n : Nat) (past : List Entry) : (groups n past).flatten = onAir n past := by
  rw [groups, flatten_filter_ne_nil, onAir, List.flatMap_def]

theorem exists_of_forall₂_mem {α β : Type*} {R : α → β → Prop} {as : List α} {bs : List β} (h : List.Forall₂ R as bs)
    {y : β} (hy : y ∈ bs) : ∃ x ∈ as, R x y := by
  induction h with
  | nil => cases hy
  | @cons a b as bs hab _ ih =>
      rcases List.mem_cons.mp hy with rfl | hy
      · exact ⟨a, List.mem_cons_self, hab⟩
      · obtain ⟨x, hx, hR⟩ := ih hy
        exact ⟨x, List.mem_cons_of_mem a hx, hR⟩

theorem outcome_of_mem_attempts {α : Type} {out : Nat → Outcome} {k : Nat} {xs : List α} {x : α × Outcome}
    (h : x ∈ attempts out k xs) : ∃ m, x.2 = out m := by
  induction xs generalizing k with
  | nil => cases h
  | cons y ys ih =>
      rw [attempts, List.mem_cons] at h
      rcases h with rfl | h
      · exact ⟨k, rfl⟩
      · split at h
        · exact ih h
        · cases h

theorem attempts_all {α : Type} {out : Nat → Outcome} {k : Nat} {xs : List α}
    (h : ∀ x ∈ attempts out k xs, x.2.ok = true) : (attempts out k xs).map Prod.fst = xs := by
  induction xs generalizing k with
  | nil => rfl
  | cons x xs ih =>
      rw [attempts] at h ⊢
      have hok : (out k).ok = true := h (x, out k) List.mem_cons_self
      rw [if_pos hok] at h ⊢
      rw [List.map_cons, ih fun y hy => h y (List.mem_cons_of_mem _ hy)]

/-- Where what is reported as sent is received, the fragments received are the first ones. -/
theorem heard_attempts {out : Nat → Outcome} {k : Nat} {fs : List (Frag UInt8)}
    (h : ∀ x ∈ attempts out k fs, x.2.ok = true → x.2.received = true) : heard (attempts out k fs) <+: fs := by
  induction fs generalizing k with
  | nil => exact List.prefix_refl []
  | cons f fs ih =>
      rw [attempts] at h ⊢
      by_cases hok : (out k).ok = true
      · rw [if_pos hok] at h ⊢
        have hrec : (out k).received = true := h (f, out k) List.mem_cons_self hok
        have hcons : heard ((f, out k) :: attempts out (k + 1) fs) = f :: heard (attempts out (k + 1) fs) := by
          simp [heard, hrec]
        rw [hcons]
        exact List.prefix_cons_inj f |>.mpr (ih fun y hy => h y (List.mem_cons_of_mem _ hy))
      · rw [if_neg hok]
        by_cases hrec : (out k).received = true
        · exact ⟨fs, by simp [heard, hrec]⟩
        · exact ⟨f :: fs, by simp [heard, hrec]⟩

/-! ## The two ends -/

/-- A run of the API from a reachable state, in the course of which slot `j` is not given to another
connection. -/
structure Session (j : Fin b.connections) (s : Nrf b) (past : List Entry) (s' : Nrf b) : Prop where
  start : Reachable s
  run : ∃ is os, exec step is s = .ok (os, s') ∧ Along (Keeps j) step is s ∧ past = is.zip os

/-- The sending end: a session that starts with nothing to send. -/
structure Sender (i : Fin b.connections) (t : Nrf b) (past : List Entry) (t' : Nrf b) : Prop
    extends Session i t past t' where
  idle : (t.peers i).lenTx = 0

/-- The receiving end: a session that starts with no message waiting, with reads that have room for any
message. -/
structure Receiver (j : Fin b.connections) (s : Nrf b) (past : List Entry) (s' : Nrf b) : Prop
    extends Session j s past s' where
  empty : (s.peers j).lenRx = 0
  full : ∀ x ∈ past, FullReads (j + 1) x.1

section Sender
variable {i : Fin b.connections} {t t' : Nrf b} {past : List Entry}

theorem Sender.sent (h : Sender i t past t') :
    accepted (i + 1) past = transmitted (i + 1) past ++ (t'.peers i).pending.toList ∧
      List.Forall₂ Transmission (transmitted (i + 1) past) (groups (i + 1) past) ∧
      ∀ m ∈ accepted (i + 1) past, 0 < m.length ∧ m.length ≤ dataSize := by
  obtain ⟨is, os, hrun, hkeep, rfl⟩ := h.run
  obtain ⟨-, done, hacc, htr, hlen⟩ := sender_run (h.start.slotInv i) h.idle hkeep hrun
  have hdone : transmitted (i + 1) (is.zip os) = done := by
    rw [transmitted, hacc, ← htr.length_eq, List.take_left]
  rw [hdone]
  exact ⟨hacc, htr, hlen⟩

theorem Sender.mem_accepted (h : Sender i t past t') {m : List UInt8} (hm : m ∈ transmitted (i + 1) past) :
    m ∈ accepted (i + 1) past := by
  rw [h.sent.1]; exact List.mem_append_left _ hm

theorem Sender.sound (h : Sender i t past t') {x : Frag UInt8 × Outcome} (hx : x ∈ onAir (i + 1) past) : Sound x.1 := by
  obtain ⟨-, htr, hlen⟩ := h.sent
  rw [← flatten_groups, List.mem_flatten] at hx
  obtain ⟨l, hl, hx⟩ := hx
  obtain ⟨m, hm, out, rfl⟩ := exists_of_forall₂_mem htr hl
  obtain ⟨h0, hle⟩ := hlen m (h.mem_accepted hm)
  exact sound_of_mem_frags h0 hle (mem_attempts hx)

theorem Sender.groups_eq (h : Sender i t past t') (hok : ∀ x ∈ onAir (i + 1) past, x.2.ok = true) :
    (groups (i + 1) past).map (·.map Prod.fst) = (transmitted (i + 1) past).map (frags pwMsgSize) := by
  obtain ⟨-, htr, -⟩ := h.sent
  rw [← flatten_groups] at hok
  generalize groups (i + 1) past = gs at htr hok ⊢
  generalize transmitted (i + 1) past = ms at htr ⊢
  induction htr with
  | nil => rfl
  | @cons m l ms gs hml _ ih =>
      obtain ⟨out, rfl⟩ := hml
      rw [List.map_cons, List.map_cons, attempts_all fun x hx => hok x (List.mem_append_left _ hx)]
      rw [ih fun x hx => hok x (List.mem_append_right _ hx)]

theorem Sender.heard_prefixes (h : Sender i t past t')
    (hair : ∀ x ∈ onAir (i + 1) past, x.2.ok = true → x.2.received = true) :
    List.Forall₂ (fun m fs => fs <+: frags pwMsgSize m) (transmitted (i + 1) past) ((groups (i + 1) past).map heard) := by
  obtain ⟨-, htr, -⟩ := h.sent
  rw [← flatten_groups] at hair
  generalize groups (i + 1) past = gs at htr hair ⊢
  generalize transmitted (i + 1) past = ms at htr ⊢
  induction htr with
  | nil => exact .nil
  | @cons m l ms gs hml _ ih =>
      obtain ⟨out, rfl⟩ := hml
      exact .cons (heard_attempts fun x hx => hair x (List.mem_append_left _ hx))
        (ih fun x hx => hair x (List.mem_append_right _ hx))

theorem Sender.onAir_eq (h : Sender i t past t') (hok : ∀ x ∈ onAir (i + 1) past, x.2.ok = true) :
    (onAir (i + 1) past).map Prod.fst = (transmitted (i + 1) past).flatMap (frags pwMsgSize) := by
  rw [← flatten_groups, List.map_flatten, h.groups_eq hok, List.flatMap_def]

end Sender

section Receiver
variable {j : Fin b.connections} {s s' : Nrf b} {past : List Entry}

def Nrf24Data.waiting (d : Nrf24Data) : List (List UInt8) := d.rcv.ready.toList

theorem Receiver.received (h : Receiver j s past s') (hsound : ∀ f ∈ fragsOf (events (j + 1) past), Sound f) :
    Reassembly.run (events (j + 1) past) (s.peers j).rcv = (delivered (j + 1) past, (s'.peers j).rcv) := by
  obtain ⟨is, os, hrun, hkeep, rfl⟩ := h.run
  refine receiver_run (h.start.slotInv j) ?_ hrun hsound
  apply hkeep.and_mem
  intro ce hce
  rw [← List.map_fst_zip (length_exec hrun).ge] at hce
  obtain ⟨x, hx, rfl⟩ := List.mem_map.mp hce
  exact h.full x hx

theorem Receiver.out_eq (h : Receiver j s past s') (hsound : ∀ f ∈ fragsOf (events (j + 1) past), Sound f) :
    out (events (j + 1) past) (s.peers j).rcv = delivered (j + 1) past ++ (s'.peers j).waiting := by
  rw [out, h.received hsound, Nrf24Data.waiting]

theorem Receiver.ready (h : Receiver j s past s') : (s.peers j).rcv.ready = none := if_pos h.empty

end Receiver

/-! ## Concrete runs -/

/-- The outputs of a run from `s` and the state after it. -/
def ran (is : List (Call × Env)) (s : Nrf b) : List Out × Nrf b :=
  match exec step is s with
  | .ok r => r
  | .error _ => ([], s)

def history (is : List (Call × Env)) (s : Nrf b) : List Entry := is.zip (ran is s).1

/-- Calls that allocate no slot. -/
def Call.plain : Call → Bool
  | .deinit | .accept | .socket _ _ => false
  | _ => true

theorem session_of_plain {is : List (Call × Env)} {s : Nrf b} (j : Fin b.connections) (hs : Reachable s)
    (hok : (exec step is s).isOk = true) (hplain : is.all (·.1.plain) = true) :
    Session j s (history is s) (ran is s).2 where
  start := hs
  run := by
    refine ⟨is, (ran is s).1, ?_, along_of_forall (fun ce hce s => ?_) s, rfl⟩
    · unfold ran
      split
      · assumption
      · rename_i f hf
        rw [hf] at hok
        cases hok
    · have hp := List.all_eq_true.mp hplain ce hce
      obtain ⟨c, e⟩ := ce
      have hne : c ≠ .deinit ∧ c ≠ .accept ∧ ∀ domain protocol, c ≠ .socket domain protocol := by
        cases c <;> simp_all [Call.plain]
      exact ⟨hne.1, Or.inr hne.2⟩

def opened : Nrf .linux := after opening

theorem reachable_opened : Reachable opened := reachable_after rfl

/-- A message of 31 bytes, which takes two packets. -/
def twoPackets (x : UInt8) : List UInt8 := List.replicate 31 x

def headPacket (x : UInt8) : Pdu := ⟨0x00 :: 0x00 :: List.replicate 30 x, by simp, by simp [mtu]⟩

def tailPacket (x : UInt8) : Pdu := ⟨[0x05, 0x00, x], by simp, by simp [mtu]⟩

def onlyPacket (x : UInt8) : Pdu := ⟨[0x01, 0x00, x], by simp, by simp [mtu]⟩

def succeeding : WriteSite → Outcome := fun _ => ⟨true, true⟩

/-- Every second fragment is received and reported as lost. -/
def unacknowledged : WriteSite → Outcome
  | .frag 1 => ⟨false, true⟩
  | _ => ⟨true, true⟩

/-- The messages are written to pipe 1, each one followed by a pass for every slot with outcomes `out`. -/
def sending (out : WriteSite → Outcome) (msgs : List (List UInt8)) : List (Call × Env) :=
  msgs.flatMap fun m => (.write 1 m, .still 100) :: List.replicate 5 (.read 0 64, { Env.still 100 with outcome := out })

/-- Groups of packets come in on pipe 1, each one followed by a read and by a pass for every other slot. -/
def receiving (groups : List (List Pdu)) : List (Call × Env) :=
  groups.flatMap fun pdus => (.read 1 128, arriving 100 pdus) :: List.replicate 4 (.read 0 64, .still 100)

theorem receiver_opened (groups : List (List Pdu)) (hok : (exec step (receiving groups) opened).isOk = true) :
    Receiver 0 opened (history (receiving groups) opened) (ran (receiving groups) opened).2 where
  toSession := session_of_plain 0 reachable_opened hok (by simp [receiving, Call.plain])
  empty := rfl
  full := by
    intro x hx count hcall
    have hx' := (List.of_mem_zip hx).1
    simp only [receiving, List.mem_flatMap, List.mem_cons, List.mem_replicate] at hx'
    obtain ⟨pdus, -, h | ⟨-, h⟩⟩ := hx'
    · rw [h] at hcall
      obtain ⟨-, rfl⟩ := Call.read.inj hcall
      exact le_refl 128
    · rw [h] at hcall
      cases (Call.read.inj hcall).1

theorem sender_opened (out : WriteSite → Outcome) (msgs : List (List UInt8))
    (hok : (exec step (sending out msgs) opened).isOk = true) :
    Sender 0 opened (history (sending out msgs) opened) (ran (sending out msgs) opened).2 where
  toSession := session_of_plain 0 reachable_opened hok (by simp [sending, Call.plain])
  idle := rfl

/-! ## One message -/

def DriverOp.packet (n : Nat) : DriverOp → Option (List UInt8)
  | write pipe data _ => if pipe = n then some data else none
  | _ => none

def packetsSince (n : Nat) (t t' : Nrf b) : List (List UInt8) :=
  (t'.log.drop t.log.length).filterMap (·.packet n)

def dataPackets (rx : List Rx) : List (List UInt8) := (rx.filter fun r => lid r.pdu.head ≠ lidControl).map (·.pdu.bytes)

theorem rxFrags_eq (rx : List Rx) : rxFrags rx = (dataPackets rx).filterMap frag? := by
  induction rx with
  | nil => rfl
  | cons r rx ih =>
      have hcons : rxFrags (r :: rx) = (frag? r.pdu.bytes).toList ++ rxFrags rx := by
        cases hf : frag? r.pdu.bytes <;> simp [rxFrags, hf]
      rw [hcons, ih]
      by_cases hc : lid r.pdu.head = lidControl
      · rw [frag?_of_control hc]
        simp [dataPackets, hc]
      · cases hf : frag? r.pdu.bytes <;> simp [dataPackets, hc, hf]

theorem packet_writes (n : Nat) (rfu : UInt8) (l : List (Frag UInt8 × Outcome)) :
    (writes n rfu l).filterMap (·.packet n) = (l.map Prod.fst).map (fragBytes rfu) := by
  induction l with
  | nil => rfl
  | cons fo l ih =>
      have hhead : DriverOp.packet n (.write n (fragBytes rfu fo.1) fo.2) = some (fragBytes rfu fo.1) := if_pos rfl
      have hcons : writes n rfu (fo :: l) = .write n (fragBytes rfu fo.1) fo.2 :: writes n rfu l := rfl
      rw [hcons, List.filterMap_cons, hhead, ih, List.map_cons, List.map_cons]

/-- The packets `pkts` make `data` in a slot in which no message waits, whatever else it holds: over any
calls of `read_raw`, with any control packets among them and any packets with a header for the other
slots, which are as the API leaves them. -/
def Makes (b : Build) (pkts : List (List UInt8)) (data : List UInt8) : Prop :=
  ∀ (j : Fin b.connections) (s s₀ : Nrf b) (calls : List (Fin b.connections × Env)), Reachable s₀ →
    (∀ k, k ≠ j → s.peers k = s₀.peers k) → s.driverIndex = 0 → (s.peers j).lenRx = 0 →
    dataPackets (arrivals j calls) = pkts → (∀ r ∈ others j calls, dataHdrSize ≤ r.pdu.length) →
    ∃ cs s', exec readSlot calls s = .ok (cs, s') ∧ (s'.peers j).lenRx = data.length ∧
      (s'.peers j).bufferRx.read 0 (s'.peers j).lenRx = data ∧ (s'.peers j).offsetRx = 0 ∧
      (s'.peers j).seqnumberRx = 0

theorem makes_frags {rfu : UInt8} {data : List UInt8} (h0 : 0 < data.length) (hle : data.length ≤ dataSize) :
    Makes b ((frags pwMsgSize data).map (fragBytes rfu)) data := by
  intro j s s₀ calls hs hother hd hempty hdata hwhole
  have hsound : ∀ f ∈ frags pwMsgSize data, Sound f := fun f hf => sound_of_mem_frags h0 hle hf
  have hfrag : ∀ f ∈ frags pwMsgSize data, frag? (fragBytes rfu f) = some f := fun f hf => by
    have := (hsound f hf).seq_lt
    exact frag?_fragBytes rfu (by omega)
  have hfs : rxFrags (arrivals j calls) = frags pwMsgSize data := by
    rw [rxFrags_eq, hdata, List.filterMap_map]
    exact (List.filterMap_congr hfrag).trans List.filterMap_some
  have hfol : Follows [] (rxFrags (arrivals j calls)) := by
    rw [hfs]
    refine ⟨hsound, fun g hg => ?_⟩
    obtain ⟨f, fs, hcons, hseq, -⟩ := frags_eq_cons pwMsgSize data
    rw [List.nil_append, hcons] at hg
    obtain rfl : f = g := by simpa using hg
    exact hseq
  have hrx : ∀ r ∈ arrivals j calls, lid r.pdu.head = lidControl ∨ ∃ f, frag? r.pdu.bytes = some f := by
    intro r hr
    by_cases hc : lid r.pdu.head = lidControl
    · exact Or.inl hc
    · have hmem : r.pdu.bytes ∈ dataPackets (arrivals j calls) :=
        List.mem_map_of_mem (List.mem_filter.mpr ⟨hr, by simpa using hc⟩)
      rw [hdata] at hmem
      obtain ⟨f, hf, hb⟩ := List.mem_map.mp hmem
      exact Or.inr ⟨f, by rw [← hb]; exact hfrag f hf⟩
  have hfed₀ : Fed [] (s.peers j) := hempty
  obtain ⟨cs, s', hrun, hfed⟩ := readSlots_fed hd hfed₀
    (fun k hk => by rw [hother k hk]; exact (hs.slotInv k).rx) hrx hfol hwhole
  rw [List.nil_append, hfs] at hfed
  exact ⟨cs, s', hrun, hfed.message⟩

/-- A message that `hal_comm_write` accepts is sent by `write_raw`, where every `phy_write` succeeds, in
packets that make it. -/
theorem message_through {i : Fin b'.connections} {t t₁ : Nrf b'} {data : List UInt8} {e₁ e₂ : Env} (ht : Reachable t)
    (hacc : t.halCommWrite e₁ (i + 1) data = .ok (⟨data.length, []⟩, t₁)) (hd : t₁.driverIndex = 0)
    (hok : ∀ k, (e₂.outcome (.frag k)).ok = true) :
    ∃ n t₂, t₁.writeRaw e₂ i = .ok (n, t₂) ∧ (t₂.peers i).lenTx = 0 ∧ (t₂.peers i).seqnumberTx = 0 ∧
      Makes b (packetsSince (i + 1) t₁ t₂) data := by
  obtain ⟨t₀, hrun, h⟩ := Nrf.halCommWrite_cases hacc
  rcases h with ⟨hneg, -⟩ | ⟨k, hk, h0, hle, -, -, ht₁⟩
  · exact absurd hneg (by simp)
  obtain rfl : i = k := Fin.ext (by omega)
  have hslot : t₁.peers i = { t₀.peers i with bufferTx := (t₀.peers i).bufferTx.write 0 data, lenTx := data.length } := by
    rw [ht₁, Nrf.setPeer_self]
  have hlen : (t₁.peers i).lenTx = data.length := by rw [hslot]
  have hseq : (t₁.peers i).seqnumberTx = 0 := by
    rw [hslot]; exact ((ht.slotInv i).running hrun).seqnumberTx
  have hmsg : (t₁.peers i).bufferTx.read 0 (t₁.peers i).lenTx = data := by
    rw [hslot]; exact Buf.read_write_self _ (by simpa using hle)
  obtain ⟨n, hw⟩ := Nrf.writeRaw_eq e₂ hd (by omega) (by omega) hseq
  rw [hmsg] at hw
  refine ⟨n, _, hw, by simp [Nrf.sent, Nrf.setPeer], by simp [Nrf.sent, Nrf.setPeer], ?_⟩
  have hall : (attempts (fun k => e₂.outcome (.frag k)) 0 (frags pwMsgSize data)).map Prod.fst = frags pwMsgSize data :=
    attempts_all fun x hx => by
      obtain ⟨k, hk⟩ := outcome_of_mem_attempts hx
      rw [hk]; exact hok k
  have hpkts := packet_writes (i + 1) ((e₂.frame (.frag 0)).get 1)
    (attempts (fun k => e₂.outcome (.frag k)) 0 (frags pwMsgSize data))
  rw [packetsSince, Nrf.sent, List.drop_left, hpkts, hall]
  exact makes_frags h0 hle

/-! ## Whole runs -/

section Runs
variable {i : Fin b'.connections} {j : Fin b.connections} {t t' : Nrf b'} {s s' : Nrf b} {past past' : List Entry}

/-- Nothing is lost, and each message is taken before the next one begins. -/
theorem delivers_all (hs : Sender i t past t') (hr : Receiver j s past' s')
    (hair : ∀ x ∈ onAir (i + 1) past, x.2.ok = true)
    (hlink : fragsOf (events (j + 1) past') = (onAir (i + 1) past).map Prod.fst)
    (hprompt : Prompt (events (j + 1) past') (s.peers j).rcv) :
    delivered (j + 1) past' ++ (s'.peers j).waiting ++ (t'.peers i).pending.toList = accepted (i + 1) past := by
  have hsound : ∀ f ∈ fragsOf (events (j + 1) past'), Sound f := by
    rw [hlink]
    intro f hf
    obtain ⟨x, hx, rfl⟩ := List.mem_map.mp hf
    exact hs.sound hx
  have hout := out_eq hprompt (hlink.trans (hs.onAir_eq hair))
  rw [hr.out_eq hsound, hr.ready, Option.toList_none, List.nil_append] at hout
  rw [hout]
  exact hs.sent.1.symm

/-- The messages that the other side received whole, among those that `write_raw` tried to send. -/
def heardWhole (n : Nat) (past : List Entry) : List (List UInt8) :=
  complete pwMsgSize (transmitted n past) ((groups n past).map heard)

/-- Attempts fail, with or without the fragment being received; what is received is handled up to some
point, and a message that waits makes fragments be dropped. What comes out are messages received whole, in
order. -/
theorem delivers_heard (hs : Sender i t past t') (hr : Receiver j s past' s')
    (hair : ∀ x ∈ onAir (i + 1) past, x.2.ok = true → x.2.received = true)
    (hlink : fragsOf (events (j + 1) past') <+: heard (onAir (i + 1) past)) :
    (delivered (j + 1) past' ++ (s'.peers j).waiting).Sublist (heardWhole (i + 1) past) ∧
      (heardWhole (i + 1) past).Sublist (accepted (i + 1) past) := by
  refine ⟨?_, (complete_sublist_left _ _ _).trans (List.take_sublist _ _)⟩
  have hsound : ∀ f ∈ fragsOf (events (j + 1) past'), Sound f := by
    intro f hf
    obtain ⟨x, hx, rfl⟩ := List.mem_map.mp (hlink.subset hf)
    exact hs.sound (List.mem_filter.mp hx).1
  have hheard : heard (onAir (i + 1) past) = ((groups (i + 1) past).map heard).flatten := by
    rw [← flatten_groups]
    simp [heard, List.filter_flatten, List.map_flatten, Function.comp_def]
    rfl
  rw [hheard] at hlink
  have hsub := out_prefixes (r := (s.peers j).rcv) (hr.start.slotInv j).rx.clean_rcv (hs.heard_prefixes hair) hlink
  rwa [hr.out_eq hsound, hr.ready, Option.toList_none, List.nil_append] at hsub

/-- Two messages whose second fragments are received and reported as lost. -/
theorem delivers_heard_unacknowledged :
    let past := history (sending unacknowledged [twoPackets 0xAA, twoPackets 0xBB]) opened
    let run := receiving [[headPacket 0xAA, tailPacket 0xAA], [headPacket 0xBB]]
    (delivered 1 (history run opened) ++ ((ran run opened).2.peers 0).waiting).Sublist (heardWhole 1 past) ∧
      (heardWhole 1 past).Sublist (accepted 1 past) :=
  delivers_heard (sender_opened _ _ (by decide +kernel)) (receiver_opened _ rfl) (by decide +kernel)
    ⟨[⟨1, true, [0xBB]⟩], by decide +kernel⟩

theorem Receiver.holds_nil (hr : Receiver j s past' s') (hfresh : (s.peers j).seqnumberRx = 0) :
    Reassembly.Holds [] (s.peers j).rcv where
  waiting := fun msg h => by rw [hr.ready] at h; cases h
  partly := by
    have hoff := (hr.start.slotInv j).rx.offset
    rw [hfresh] at hoff
    exact ⟨[], List.Sublist.refl _, numbered_nil, hfresh.symm, by
      rw [Nrf24Data.rcv, hoff]; simp [Buf.read]⟩

/-- `write_raw` and `read_raw` are inverse to each other: for one message, from whatever the receiving slot
holds besides a message, and for whole runs on both sides. -/
theorem write_then_read :
    (∀ (b b' : Build) (i : Fin b'.connections) (t t₁ : Nrf b') (data : List UInt8) (e₁ e₂ : Env), Reachable t →
      t.halCommWrite e₁ (i + 1) data = .ok (⟨data.length, []⟩, t₁) → t₁.driverIndex = 0 →
      (∀ k, (e₂.outcome (.frag k)).ok = true) →
      ∃ n t₂, t₁.writeRaw e₂ i = .ok (n, t₂) ∧ (t₂.peers i).lenTx = 0 ∧ (t₂.peers i).seqnumberTx = 0 ∧
        Makes b (packetsSince (i + 1) t₁ t₂) data) ∧
    (∀ (b b' : Build) (i : Fin b'.connections) (j : Fin b.connections) (t t' : Nrf b') (s s' : Nrf b)
      (past past' : List Entry), Sender i t past t' → Receiver j s past' s' →
      (∀ x ∈ onAir (i + 1) past, x.2.ok = true) →
      fragsOf (events (j + 1) past') = (onAir (i + 1) past).map Prod.fst →
      Prompt (events (j + 1) past') (s.peers j).rcv →
      delivered (j + 1) past' ++ (s'.peers j).waiting ++ (t'.peers i).pending.toList = accepted (i + 1) past) :=
  ⟨fun _ _ _ _ _ _ _ _ ht hacc hd hok => message_through ht hacc hd hok,
    fun _ _ _ _ _ _ _ _ _ _ hs hr hair hlink hprompt => delivers_all hs hr hair hlink hprompt⟩

def written : Nrf .linux := stateOf (opened.halCommWrite (.still 100) 1 (twoPackets 0xAA))

def stale : Nrf .linux := opened.setPeer 0 { opened.peers 0 with offsetRx := 17, seqnumberRx := 9 }

/-- The two packets of a message reach a stale slot in two calls, with a packet for another slot in between;
and a message is written, sent, received and read. -/
theorem write_then_read_twoPackets :
    (∃ cs s', exec readSlot [(0, arriving 100 [headPacket 0xAA]), (1, arriving 100 [headPacket 0xBB]),
        (0, arriving 100 [tailPacket 0xAA])] stale = .ok (cs, s') ∧ (s'.peers 0).lenRx = 31 ∧
      (s'.peers 0).bufferRx.read 0 (s'.peers 0).lenRx = twoPackets 0xAA ∧ (s'.peers 0).offsetRx = 0 ∧
      (s'.peers 0).seqnumberRx = 0) ∧
    delivered 1 (history (receiving [[headPacket 0xAA], [tailPacket 0xAA]]) opened) ++
        ((ran (receiving [[headPacket 0xAA], [tailPacket 0xAA]]) opened).2.peers 0).waiting ++
        ((ran (sending succeeding [twoPackets 0xAA]) opened).2.peers 0).pending.toList =
      accepted 1 (history (sending succeeding [twoPackets 0xAA]) opened) := by
  constructor
  · obtain ⟨n, t₂, hw, -, -, hmakes⟩ := write_then_read.1 .linux .linux 0 opened written (twoPackets 0xAA) (.still 100)
      (.still 100) reachable_opened rfl rfl fun _ => rfl
    have hpkts : (match written.writeRaw (.still 100) 0 with
        | .ok (_, t₂) => packetsSince 1 written t₂
        | .error _ => []) = [(headPacket 0xAA).bytes, (tailPacket 0xAA).bytes] := by decide +kernel
    rw [hw] at hpkts
    exact hmakes 0 stale opened _ reachable_opened (fun k hk => opened.setPeer_of_ne _ hk) rfl rfl hpkts.symm
      (by decide)
  · refine write_then_read.2 .linux .linux 0 0 opened _ opened _ _ _ (sender_opened _ _ (by decide +kernel))
      (receiver_opened _ rfl) (by decide +kernel) (by decide +kernel) ?_
    exact ⟨fun _ => rfl, fun h => absurd h (by decide), trivial⟩

/-- Any of the fragments sent are lost. -/
theorem delivers_assembled (hs : Sender i t past t') (hr : Receiver j s past' s') (hfresh : (s.peers j).seqnumberRx = 0)
    (hlink : (fragsOf (events (j + 1) past')).Sublist ((onAir (i + 1) past).map Prod.fst)) :
    (∀ m ∈ delivered (j + 1) past' ++ (s'.peers j).waiting, Assembled (fragsOf (events (j + 1) past')) m) ∧
      ∀ rs, List.Forall₂ (HeadFirst pwMsgSize) (transmitted (i + 1) past) rs →
        fragsOf (events (j + 1) past') = rs.flatten →
        (delivered (j + 1) past' ++ (s'.peers j).waiting).Sublist (complete pwMsgSize (transmitted (i + 1) past) rs) := by
  have hsound : ∀ f ∈ fragsOf (events (j + 1) past'), Sound f := by
    intro f hf
    obtain ⟨x, hx, rfl⟩ := List.mem_map.mp (hlink.subset hf)
    exact hs.sound hx
  have hout := hr.out_eq hsound
  constructor
  · rw [← hout]
    exact out_assembled (hr.holds_nil hfresh)
  · intro rs hrs hflat
    have hsub := out_sublist (hr.start.slotInv j).rx.clean_rcv hrs hflat
    rwa [hout, hr.ready, Option.toList_none, List.nil_append] at hsub

/-- The tail of the first message is lost. -/
theorem delivers_assembled_tail_lost :
    let run := receiving [[headPacket 0xAA], [headPacket 0xBB, tailPacket 0xBB]]
    (∀ m ∈ delivered 1 (history run opened) ++ ((ran run opened).2.peers 0).waiting,
        Assembled (fragsOf (events 1 (history run opened))) m) ∧
      ∀ rs, List.Forall₂ (HeadFirst pwMsgSize)
          (transmitted 1 (history (sending succeeding [twoPackets 0xAA, twoPackets 0xBB]) opened)) rs →
        fragsOf (events 1 (history run opened)) = rs.flatten →
        (delivered 1 (history run opened) ++ ((ran run opened).2.peers 0).waiting).Sublist (complete pwMsgSize
          (transmitted 1 (history (sending succeeding [twoPackets 0xAA, twoPackets 0xBB]) opened)) rs) :=
  delivers_assembled (sender_opened _ _ (by decide +kernel)) (receiver_opened _ rfl) rfl (by decide +kernel)

/-- The tail of the first message and the head of the second are lost, and a message that was never sent is
delivered. -/
theorem lost_fragments_splice :
    ∃ past t' past' s', Sender 0 opened past t' ∧ Receiver 0 opened past' s' ∧
      (∀ x ∈ onAir 1 past, x.2 = ⟨true, true⟩) ∧
      (fragsOf (events 1 past')).Sublist ((onAir 1 past).map Prod.fst) ∧
      accepted 1 past = [twoPackets 0xAA, twoPackets 0xBB] ∧
      delivered 1 past' = [List.replicate 30 0xAA ++ [0xBB]] ∧ ∀ m ∈ delivered 1 past', m ∉ accepted 1 past :=
  ⟨_, _, _, _, sender_opened succeeding [twoPackets 0xAA, twoPackets 0xBB] (by decide +kernel),
    receiver_opened [[headPacket 0xAA, tailPacket 0xBB]] rfl, by decide +kernel, by decide +kernel, by decide +kernel,
    by decide +kernel, by decide +kernel⟩

/-- Every fragment is received, each one or several times in a row, and each message is taken after its
final fragment and before the next message begins. -/
theorem delivers_copies (hs : Sender i t past t') (hr : Receiver j s past' s')
    (hair : ∀ x ∈ onAir (i + 1) past, x.2.ok = true) {segs : List (List (Ev UInt8))}
    (hevents : events (j + 1) past' = segs.flatten)
    (hsegs : List.Forall₂ Copies ((groups (i + 1) past).map (·.map Prod.fst)) segs) :
    ((∀ p ∈ (transmitted (i + 1) past).zip segs, p.1.length ≤ pwMsgSize → ¬ TakenBetween p.2) →
        delivered (j + 1) past' = transmitted (i + 1) past ∧ (s'.peers j).lenRx = 0) ∧
      ((transmitted (i + 1) past).IsChain (· ≠ ·) →
        delivered (j + 1) past' ++ (s'.peers j).waiting = transmitted (i + 1) past →
        ∀ p ∈ (transmitted (i + 1) past).zip segs, p.1.length ≤ pwMsgSize → ¬ TakenBetween p.2) := by
  rw [hs.groups_eq hair, List.forall₂_map_left_iff] at hsegs
  have hdel : List.Forall₂ (Delivery pwMsgSize) (transmitted (i + 1) past) segs := hsegs
  have hsound : ∀ f ∈ fragsOf (events (j + 1) past'), Sound f := by
    intro f hf
    rw [hevents] at hf
    obtain ⟨m, hm, hmem⟩ := mem_of_deliveries hdel hf
    have hlen := hs.sent.2.2 m (hs.mem_accepted hm)
    exact sound_of_mem_frags hlen.1 hlen.2 hmem
  have hrun := hr.received hsound
  have hout := hr.out_eq hsound
  rw [hevents] at hrun hout
  constructor
  · intro hcond
    have hall := (run_deliveries_iff (by decide) hdel hr.ready).mpr hcond _ (le_refl _)
    rw [hdel.length_eq, List.take_length, ← hdel.length_eq, List.take_length, hrun] at hall
    obtain ⟨h₁, h₂⟩ := hall
    refine ⟨h₁, ?_⟩
    by_contra hne
    simp [Nrf24Data.rcv, hne] at h₂
  · intro hne heq
    exact not_takenBetween_of_out_eq (by decide) hdel hr.ready hne (hout.trans heq)

/-- Copies of the first and of the second packet, with a read between the copies of the second. -/
theorem delivers_copies_twoPackets :
    let run := receiving [[headPacket 0xAA, headPacket 0xAA], [tailPacket 0xAA], [tailPacket 0xAA]]
    let segs := [events 1 (history run opened)]
    let past := history (sending succeeding [twoPackets 0xAA]) opened
    ((∀ p ∈ (transmitted 1 past).zip segs, p.1.length ≤ pwMsgSize → ¬ TakenBetween p.2) →
        delivered 1 (history run opened) = transmitted 1 past ∧ ((ran run opened).2.peers 0).lenRx = 0) ∧
      ((transmitted 1 past).IsChain (· ≠ ·) →
        delivered 1 (history run opened) ++ ((ran run opened).2.peers 0).waiting = transmitted 1 past →
        ∀ p ∈ (transmitted 1 past).zip segs, p.1.length ≤ pwMsgSize → ¬ TakenBetween p.2) := by
  refine delivers_copies (sender_opened _ _ (by decide +kernel)) (receiver_opened _ rfl) (by decide +kernel)
    (List.append_nil _).symm ?_
  have hgroups : (groups 1 (history (sending succeeding [twoPackets 0xAA]) opened)).map (·.map Prod.fst) =
      [[⟨0, false, List.replicate 30 0xAA⟩, ⟨1, true, [0xAA]⟩]] := by decide +kernel
  have hrep : Repeats [⟨0, false, List.replicate 30 0xAA⟩, ⟨1, true, [0xAA]⟩] [(⟨0, false, List.replicate 30 0xAA⟩ :
      Frag UInt8), ⟨0, false, List.replicate 30 0xAA⟩, ⟨1, true, [0xAA]⟩] := .cons _ 1 (.cons _ 0 .nil)
  exact hgroups ▸ .cons ⟨[.frag ⟨0, false, List.replicate 30 0xAA⟩, .frag ⟨0, false, List.replicate 30 0xAA⟩, .take,
    .frag ⟨1, true, [0xAA]⟩], [.frag ⟨1, true, [0xAA]⟩, .take], ⟨1, true, [0xAA]⟩, 1, rfl, hrep, rfl, rfl⟩ .nil

/-- A message of one packet is taken between two copies, and delivered twice. -/
theorem copy_delivered_again :
    ∃ past t' past' s', Sender 0 opened past t' ∧ Receiver 0 opened past' s' ∧
      (∀ x ∈ onAir 1 past, x.2 = ⟨true, true⟩) ∧
      List.Forall₂ Copies ((groups 1 past).map (·.map Prod.fst)) [events 1 past'] ∧
      accepted 1 past = [[0x2A]] ∧ delivered 1 past' = [[0x2A], [0x2A]] := by
  refine ⟨_, _, _, _, sender_opened succeeding [[0x2A]] (by decide +kernel),
    receiver_opened [[onlyPacket 0x2A], [onlyPacket 0x2A]] rfl, by decide +kernel, ?_, by decide +kernel, by decide +kernel⟩
  have hgroups : (groups 1 (history (sending succeeding [[0x2A]]) opened)).map (·.map Prod.fst) =
      [[⟨0, true, [0x2A]⟩]] := by decide +kernel
  exact hgroups ▸ .cons ⟨[.frag ⟨0, true, [0x2A]⟩], [.frag ⟨0, true, [0x2A]⟩, .take], ⟨0, true, [0x2A]⟩, 1, rfl,
    .cons _ 0 .nil, rfl, rfl⟩ .nil

end Runs

end KnotHal.Nrf24
