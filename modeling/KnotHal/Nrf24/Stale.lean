import KnotHal.Nrf24.Bounds
import KnotHal.Nrf24.Expiry

/-!
# What `read_raw` takes from its stack buffer

The packets of one call go through the same buffer, and a control packet is read through its structure whatever
its length. A field that a packet is too short for holds what an earlier packet, or an earlier function, left
there.

* `ActsOnReceived` : what a round does is the same for every content of the buffer;
* `actsOnReceived_iff` : the packets of which that holds;
* `onlyReceived_iff` : the same for a whole call.
-/

namespace KnotHal.Nrf24

open Machine

variable {b : Build}

/-! ## The buffer after a packet -/

def Pdu.byte (pdu : Pdu) (k : Nat) : UInt8 := pdu.bytes.getD k 0

section Buffer
variable (p q : Payload) (pdu : Pdu)

theorem bytes_received : (p.write 0 pdu.bytes).bytes = pdu.bytes ++ p.bytes.drop pdu.length := by
  rw [Buf.bytes_write p (by simpa [mtu] using pdu.le_mtu), List.take_zero, List.nil_append, Nat.zero_add]
  rfl

theorem get_received {k : Nat} (h : k < pdu.length) : (p.write 0 pdu.bytes).get k = pdu.byte k := by
  rw [Buf.get, bytes_received, Pdu.byte, List.getD_eq_getElem?_getD, List.getD_eq_getElem?_getD,
    List.getElem?_append_left h]

theorem read_received {off len : Nat} (h : off + len ≤ pdu.length) :
    (p.write 0 pdu.bytes).read off len = (q.write 0 pdu.bytes).read off len := by
  have hread : ∀ p : Payload, (p.write 0 pdu.bytes).read off len = (pdu.bytes.drop off).take len := by
    intro p
    have hlen : off ≤ pdu.bytes.length := by unfold Pdu.length at h; omega
    have htake : len ≤ (pdu.bytes.drop off).length := by rw [List.length_drop]; unfold Pdu.length at h; omega
    rw [Buf.read, bytes_received, List.drop_append_of_le_length hlen, List.take_append_of_le_length htake]
  rw [hread p, hread q]

theorem read_agreeing {k len : Nat} (hk : k ≤ pdu.length) (hlen : pdu.length ≤ k + len)
    (h : pdu.bytes.drop k <+: p.read k len) : (p.write 0 pdu.bytes).read k len = p.read k len := by
  have hbytes : pdu.bytes.length = pdu.length := rfl
  have hhead : pdu.bytes.drop k = (p.bytes.drop k).take (pdu.length - k) := by
    have htake := List.prefix_iff_eq_take.mp h
    rw [List.length_drop, hbytes, Buf.read, List.take_take, Nat.min_eq_left (by omega)] at htake
    exact htake
  have htail : p.bytes.drop pdu.length = (p.bytes.drop k).drop (pdu.length - k) := by
    rw [List.drop_drop, Nat.add_sub_cancel' hk]
  rw [Buf.read, bytes_received, List.drop_append_of_le_length hk, hhead, htail, List.take_append_drop]
  rfl

def leftover (k : Nat) (x : UInt8) : Payload := (Buf.zero 32).write k [x]

theorem get_leftover {k : Nat} (x : UInt8) (h : pdu.length ≤ k) (hk : k < 32) :
    ((leftover k x).write 0 pdu.bytes).get k = x := by
  have hself : (leftover k x).get (k + 0) = x := Buf.get_write_self _ (by simp) (by simp; omega)
  rw [Buf.get_write_of_disjoint _ (Or.inl (by simpa [Pdu.length] using h))]
  exact hself

end Buffer

namespace Nrf

/-! ## The control case -/

section Control
variable {i : Fin b.connections} {r : Rx} {p q : Payload} {s : Nrf b}

/-- A control packet has every byte that the control case looks at: the opcode, the addresses of a request unless
what there is of them is wrong, the source of a disconnect unless an event waits. -/
structure CompleteControl (i : Fin b.connections) (pdu : Pdu) (s : Nrf b) : Prop where
  opcode : 2 < pdu.length
  request : pdu.byte 2 = opKeepaliveReq → pdu.length < controlLen →
    ¬ pdu.bytes.drop 3 <+: (s.peers i).mac.bytes ++ s.macLocal.bytes
  disconnect : pdu.byte 2 = opDisconnect → s.mgmt.lenRx = 0 → 11 ≤ pdu.length

theorem addresses_iff : (p.sub 3 8 = (s.peers i).mac ∧ p.sub 11 8 = s.macLocal) ↔
    p.read 3 16 = (s.peers i).mac.bytes ++ s.macLocal.bytes := by
  have hread : p.read 3 16 = (p.sub 3 8).bytes ++ (p.sub 11 8).bytes := by
    rw [Buf.bytes_sub p (by decide), Buf.bytes_sub p (by decide)]
    exact p.read_add 3 8 8
  rw [hread]
  constructor
  · rintro ⟨hsrc, hdst⟩
    rw [hsrc, hdst]
  · intro h
    obtain ⟨hsrc, hdst⟩ := List.append_inj h (by simp)
    exact ⟨Buf.ext hsrc, Buf.ext hdst⟩

/-- A request that does not carry the addresses of the link is ignored. -/
theorem rxControl_foreign (hop : p.get 2 = opKeepaliveReq)
    (h : p.read 3 16 ≠ (s.peers i).mac.bytes ++ s.macLocal.bytes) : s.rxControl i p r = .ok s := by
  unfold rxControl
  dsimp only
  rw [if_neg fun hreq => h (addresses_iff.mp hreq.2), hop, if_neg (by decide),
    if_neg fun hdis => absurd hdis.1 (by decide)]
  rfl

theorem rxControl_request (hd : s.driverIndex = 0) (hop : p.get 2 = opKeepaliveReq)
    (h : p.read 3 16 = (s.peers i).mac.bytes ++ s.macLocal.bytes) :
    s.rxControl i p r = .ok { s with log := s.log ++
      [.write (i + 1) ((controlPdu r.frame opKeepaliveRsp (s.peers i).mac s.macLocal).read 0 controlLen)
        r.outcome] } := by
  obtain ⟨n, hwrite⟩ : ∃ n, s.writeKeepalive i opKeepaliveRsp (s.peers i).mac s.macLocal r.frame r.outcome =
      .ok (n, { s with log := s.log ++
        [.write (i + 1) ((controlPdu r.frame opKeepaliveRsp (s.peers i).mac s.macLocal).read 0 controlLen)
          r.outcome] }) :=
    ⟨_, writeKeepalive_eq_ok.mpr ⟨hd, rfl, rfl⟩⟩
  unfold rxControl
  dsimp only
  rw [if_pos ⟨hop, addresses_iff.mpr h⟩]
  exact bind_eq_ok.mpr ⟨_, hwrite, rfl⟩

theorem rxControl_unknown (hop : p.get 2 = 0) : s.rxControl i p r = .ok s := by
  unfold rxControl
  dsimp only
  rw [hop, if_neg fun h => absurd h.1 (by decide), if_neg (by decide), if_neg fun h => absurd h.1 (by decide)]
  rfl

/-- Three fields of the buffer matter, and two of them only for some packets. -/
theorem rxControl_congr (hop : p.get 2 = q.get 2)
    (hreq : p.get 2 = opKeepaliveReq → (p.read 3 16 = (s.peers i).mac.bytes ++ s.macLocal.bytes ↔
      q.read 3 16 = (s.peers i).mac.bytes ++ s.macLocal.bytes))
    (hdis : p.get 2 = opDisconnect → s.mgmt.lenRx = 0 → (p.sub 3 8 : Mac) = q.sub 3 8) :
    s.rxControl i p r = s.rxControl i q r := by
  have hreq' : (p.get 2 = opKeepaliveReq ∧ (p.sub 3 8 : Mac) = (s.peers i).mac ∧ (p.sub 11 8 : Mac) = s.macLocal) ↔
      p.get 2 = opKeepaliveReq ∧ (q.sub 3 8 : Mac) = (s.peers i).mac ∧ (q.sub 11 8 : Mac) = s.macLocal := by
    rw [addresses_iff, addresses_iff]
    exact and_congr_right hreq
  unfold rxControl
  dsimp only
  rw [← hop]
  by_cases hanswer : p.get 2 = opKeepaliveReq ∧ (p.sub 3 8 : Mac) = (s.peers i).mac ∧ (p.sub 11 8 : Mac) = s.macLocal
  · rw [if_pos hanswer, if_pos (hreq'.mp hanswer)]
  · rw [if_neg hanswer, if_neg fun h => hanswer (hreq'.mpr h)]
    by_cases hend : p.get 2 = opDisconnect ∧ s.mgmt.lenRx = 0
    · rw [if_pos hend, if_pos hend, hdis hend.1 hend.2]
    · rw [if_neg hend, if_neg hend]

/-- A complete packet has the same effect whatever the buffer held before. -/
theorem rxControl_complete (h : CompleteControl i r.pdu s) :
    s.rxControl i (p.write 0 r.pdu.bytes) r = s.rxControl i (q.write 0 r.pdu.bytes) r := by
  have hop : ∀ p : Payload, (p.write 0 r.pdu.bytes).get 2 = r.pdu.byte 2 := fun p => get_received p r.pdu h.opcode
  refine rxControl_congr ((hop p).trans (hop q).symm) (fun hreq => ?_) fun hdis hunread => ?_
  · rw [hop] at hreq
    by_cases hlen : controlLen ≤ r.pdu.length
    · rw [read_received p q r.pdu (show 3 + 16 ≤ r.pdu.length from hlen)]
    · -- what there is of the addresses is wrong already
      have hno : ∀ p : Payload, (p.write 0 r.pdu.bytes).read 3 16 ≠ (s.peers i).mac.bytes ++ s.macLocal.bytes := by
        intro p heq
        apply h.request hreq (by omega)
        rw [← heq, Buf.read, bytes_received,
          List.drop_append_of_le_length (show 3 ≤ r.pdu.bytes.length from h.opcode)]
        refine List.prefix_take_iff.mpr ⟨List.prefix_append _ _, ?_⟩
        have hctl : controlLen = 19 := rfl
        have hbytes : r.pdu.bytes.length = r.pdu.length := rfl
        rw [List.length_drop]
        omega
      exact ⟨fun heq => absurd heq (hno p), fun heq => absurd heq (hno q)⟩
  · rw [hop] at hdis
    exact Buf.sub_congr (read_received p q r.pdu (h.disconnect hdis hunread))

/-- A packet has one effect only if the buffer cannot turn it into a request that is answered. -/
theorem not_both {t : Nrf b} {q : Payload} (hd : s.driverIndex = 0)
    (h : ∀ p : Payload, s.rxControl i (p.write 0 r.pdu.bytes) r = .ok t)
    (hignored : s.rxControl i (p.write 0 r.pdu.bytes) r = .ok s)
    (hop : (q.write 0 r.pdu.bytes).get 2 = opKeepaliveReq)
    (haddr : (q.write 0 r.pdu.bytes).read 3 16 = (s.peers i).mac.bytes ++ s.macLocal.bytes) : False := by
  have hsame : t = s := Except.ok.inj ((h p).symm.trans hignored)
  have hanswer := Except.ok.inj ((h q).symm.trans (rxControl_request hd hop haddr))
  have hlen := congrArg (fun u : Nrf b => u.log.length) (hsame.symm.trans hanswer)
  simp at hlen

theorem queueDisconnected_injective {mac mac' : Mac} (h : s.queueDisconnected mac = s.queueDisconnected mac') :
    mac = mac' := by
  have hmac := (disconnected_queue mac s).mac
  rw [h, (disconnected_queue mac' s).mac] at hmac
  exact hmac.symm

/-- A packet that has one effect is complete. -/
theorem complete_of_rxControl {t : Nrf b} (hd : s.driverIndex = 0)
    (h : ∀ p : Payload, s.rxControl i (p.write 0 r.pdu.bytes) r = .ok t) : CompleteControl i r.pdu s := by
  -- the buffer holds a request that the link would answer
  obtain ⟨ask, hop, haddr⟩ : ∃ q : Payload, q.get 2 = opKeepaliveReq ∧
      q.read 3 16 = (s.peers i).mac.bytes ++ s.macLocal.bytes :=
    ⟨controlPdu (Buf.zero 32) opKeepaliveReq s.macLocal (s.peers i).mac, controlPdu_opcode .., addresses_iff.mp
      ⟨controlPdu_src .., controlPdu_dst ..⟩⟩
  have hbytes : r.pdu.bytes.length = r.pdu.length := rfl
  have hopcode : 2 < r.pdu.length := by
    by_contra hshort
    have hignored : s.rxControl i ((leftover 2 0).write 0 r.pdu.bytes) r = .ok s :=
      rxControl_unknown (get_leftover r.pdu 0 (by omega) (by decide))
    refine not_both hd h hignored (q := ask) ?_ ?_
    · rw [Buf.get_write_of_disjoint _ (by omega), hop]
    · rw [Buf.read_write_of_disjoint _ (by omega), haddr]
  have hkept : ∀ p : Payload, (p.write 0 r.pdu.bytes).get 2 = r.pdu.byte 2 := fun p => get_received p r.pdu hopcode
  have hctl : controlLen = 19 := rfl
  refine ⟨hopcode, fun hreq hshort hagree => ?_, fun hdis hunread => ?_⟩
  · have hignored : s.rxControl i ((leftover 18 (s.macLocal.get 7 + 1)).write 0 r.pdu.bytes) r = .ok s := by
      refine rxControl_foreign ((hkept _).trans hreq) fun heq => ?_
      have hdst := congrArg (fun m : Mac => m.get 7) (addresses_iff.mpr heq).2
      rw [Buf.get_sub _ (by decide) (by decide), get_leftover r.pdu _ (by omega) (by decide)] at hdst
      exact absurd hdst (by simp)
    refine not_both hd h hignored (q := ask) ((hkept _).trans hreq) ?_
    rw [← haddr] at hagree ⊢
    exact read_agreeing ask r.pdu (by omega) (by omega) hagree
  · by_contra hshort
    have hqueue : ∀ x, t = s.queueDisconnected (((leftover 10 x).write 0 r.pdu.bytes).sub 3 8) := fun x =>
      Except.ok.inj ((h (leftover 10 x)).symm.trans (rxControl_disconnect ((hkept _).trans hdis) hunread))
    have hmac := congrArg (fun m : Mac => m.get 7) (queueDisconnected_injective ((hqueue 0).symm.trans (hqueue 1)))
    rw [Buf.get_sub _ (by decide) (by decide), Buf.get_sub _ (by decide) (by decide),
      get_leftover r.pdu 0 (by omega) (by decide), get_leftover r.pdu 1 (by omega) (by decide)] at hmac
    exact absurd hmac (by decide)

end Control

/-! ## The data case -/

section Data
variable {r : Rx} {p q : Payload} {d : Nrf24Data} {ilen : Nat}

theorem restart_congr (h : p.get 0 = q.get 0) : restart p d = restart q d := by
  unfold restart
  rw [h]

theorem dataCopy_congr (h : p.get 0 = q.get 0) : dataCopy b p ilen d = dataCopy b q ilen d := by
  unfold dataCopy
  rw [h]

theorem store_congr {c : Copy} (h : p.get 0 = q.get 0) (hread : p.read dataHdrSize c.len = q.read dataHdrSize c.len) :
    store p c d = store q c d := by
  unfold store
  rw [h, hread]

/-- A copy that is inside the packet takes nothing else from the buffer. -/
theorem rxData_received (hinv : RxInv d) (hno : ¬ LiveRunt r d)
    (hlid : lid r.pdu.head = lidDataFrag ∨ lid r.pdu.head = lidDataEnd) :
    rxData b (p.write 0 r.pdu.bytes) r.pdu.length d = rxData b (q.write 0 r.pdu.bytes) r.pdu.length d := by
  have hhead : (p.write 0 r.pdu.bytes).get 0 = (q.write 0 r.pdu.bytes).get 0 :=
    (get_write_pdu p r.pdu).trans (get_write_pdu q r.pdu).symm
  obtain ⟨x, d', hok, hwithin⟩ := rxData_ok (b := b) (p := p) hinv hno hlid
  unfold rxData at hok ⊢
  dsimp only at hok ⊢
  rw [← restart_congr hhead, ← dataCopy_congr hhead]
  cases hc : dataCopy b (p.write 0 r.pdu.bytes) r.pdu.length (restart (p.write 0 r.pdu.bytes) d) with
  | none => rfl
  | some c =>
      rw [hc] at hok
      dsimp only at hok ⊢
      split at hok
      · rename_i hfits
        obtain ⟨rfl, -⟩ := Prod.mk.inj (Except.ok.inj hok)
        rw [if_pos hfits, if_pos hfits, store_congr hhead (read_received p q r.pdu (hwithin c rfl).2)]
      · cases hok

end Data

/-! ## A round -/

section Round
variable {i : Fin b.connections} {r : Rx} {s : Nrf b}

/-- Whatever the stack buffer holds, the packet has the same effect, and it has one. -/
def ActsOnReceived (i : Fin b.connections) (r : Rx) (s : Nrf b) : Prop :=
  ∃ t, ∀ p : Payload, ∃ c p', readRawStep i r (p, s) = .ok (c, p', t)

/-- A control packet is complete, and a data packet of one byte is not accepted. -/
def Complete (i : Fin b.connections) (r : Rx) (s : Nrf b) : Prop :=
  (lid r.pdu.head = lidControl → CompleteControl i r.pdu s) ∧ ¬ LiveRunt r (s.peers i)

theorem completeControl_received : CompleteControl i r.pdu (received i r s) ↔ CompleteControl i r.pdu s := by
  have hmac : ((received i r s).peers i).mac = (s.peers i).mac := by simp [received]
  constructor
  · rintro ⟨hop, hreq, hdis⟩
    rw [hmac] at hreq
    exact ⟨hop, hreq, hdis⟩
  · rintro ⟨hop, hreq, hdis⟩
    rw [← hmac] at hreq
    exact ⟨hop, hreq, hdis⟩

theorem actsOnReceived_iff (hd : s.driverIndex = 0) (hinv : RxInv (s.peers i)) :
    ActsOnReceived i r s ↔ Complete i r s := by
  have hhead : ∀ p : Payload, (p.write 0 r.pdu.bytes).get 0 = r.pdu.head := fun p => get_write_pdu p r.pdu
  constructor
  · rintro ⟨t, ht⟩
    constructor
    · intro hctl
      rw [← completeControl_received (r := r)]
      refine complete_of_rxControl (t := t) hd fun p => ?_
      obtain ⟨c, p', h⟩ := ht p
      obtain ⟨s', hs'⟩ := rxControl_ok (i := i) (s := received i r s) (q := p.write 0 r.pdu.bytes) (r := r) hd
      rw [readRawStep_control hd (by rwa [hhead]) hs'] at h
      rw [hs', (Prod.mk.inj (Prod.mk.inj (Except.ok.inj h)).2).2]
    · intro hrunt
      obtain ⟨f, hf⟩ := readRawStep_runt (q := (Buf.zero 32, s)) ⟨hd, hinv⟩ (not_not.mpr hrunt)
      obtain ⟨c, p', h⟩ := ht (Buf.zero 32)
      rw [hf] at h
      cases h
  · rintro ⟨hcomplete, hno⟩
    by_cases hctl : lid r.pdu.head = lidControl
    · obtain ⟨t, ht⟩ := rxControl_ok (i := i) (s := received i r s) (q := (Buf.zero 32).write 0 r.pdu.bytes) (r := r)
        hd
      refine ⟨t, fun p => ⟨_, _, readRawStep_control hd (by rwa [hhead]) ?_⟩⟩
      rw [rxControl_complete (completeControl_received.mpr (hcomplete hctl)), ht]
    · by_cases hdat : lid r.pdu.head = lidDataFrag ∨ lid r.pdu.head = lidDataEnd
      · have hinv₁ : RxInv ((received i r s).peers i) := hinv.of_keeps (by constructor <;> simp [received])
        have hno₁ : ¬ LiveRunt r ((received i r s).peers i) := by simpa [LiveRunt, received] using hno
        obtain ⟨c, d, hrx, -⟩ := rxData_ok (b := b) (p := Buf.zero 32) hinv₁ hno₁ hdat
        refine ⟨(received i r s).setPeer i d, fun p => ⟨c, p.write 0 r.pdu.bytes, ?_⟩⟩
        rw [readRawStep_data hd (by rwa [hhead]), rxData_received hinv₁ hno₁ hdat, hrx]
        rfl
      · exact ⟨received i r s, fun p => ⟨_, _, readRawStep_other hd (by rwa [hhead]) (by rwa [hhead])⟩⟩

end Round

/-! ## A call -/

section Call
variable {e : Env} {i : Fin b.connections} {rx : List Rx} {s : Nrf b}

def clearRound (i : Fin b.connections) (r : Rx) (s : Nrf b) : Except Fault (Option Copy × Nrf b) :=
  (readRawStep i r (Buf.zero 32, s)).map fun x => (x.1, x.2.2)

/-- The call ends in the same state whatever the stack buffer holds at its start, and what each of its packets does
does not depend on the bytes that the packets before have left there. -/
structure OnlyReceived (e : Env) (i : Fin b.connections) (s : Nrf b) : Prop where
  call : ∃ t, ∀ p : Payload, ∃ cs, s.readRaw { e with rxFrame := p } i = .ok (cs, t)
  packets : Along (ActsOnReceived i) (clearRound i) e.rx s

theorem clearRound_eq_ok {r : Rx} {c : Option Copy} {t : Nrf b} :
    clearRound i r s = .ok (c, t) ↔ ∃ p', readRawStep i r (Buf.zero 32, s) = .ok (c, p', t) := by
  unfold clearRound
  cases readRawStep i r (Buf.zero 32, s) with
  | error f => simp [Except.map]
  | ok x => simp [Except.map, Prod.ext_iff]

theorem ready_clearRound {r : Rx} {c : Option Copy} {t : Nrf b} (hd : s.driverIndex = 0) (hinv : RxInv (s.peers i))
    (h : clearRound i r s = .ok (c, t)) : t.driverIndex = 0 ∧ RxInv (t.peers i) := by
  obtain ⟨p', h⟩ := clearRound_eq_ok.mp h
  exact ⟨(Frame.readRawStep h).driverIndex.trans hd, readRawStep_rxInv h hinv⟩

theorem packets_iff (hd : s.driverIndex = 0) (hinv : RxInv (s.peers i)) :
    Along (ActsOnReceived i) (clearRound i) rx s ↔ Along (Complete i) (clearRound i) rx s := by
  constructor
  · refine Along.of_invariant (I := fun s : Nrf b => s.driverIndex = 0 ∧ RxInv (s.peers i))
      (fun r s hs hacts => ⟨(actsOnReceived_iff hs.1 hs.2).mp hacts, fun c t h => ?_⟩) ⟨hd, hinv⟩
    exact ready_clearRound hs.1 hs.2 h
  · refine Along.of_invariant (I := fun s : Nrf b => s.driverIndex = 0 ∧ RxInv (s.peers i))
      (fun r s hs hcomplete => ⟨(actsOnReceived_iff hs.1 hs.2).mpr hcomplete, fun c t h => ?_⟩) ⟨hd, hinv⟩
    exact ready_clearRound hs.1 hs.2 h

theorem exec_received (h : Along (ActsOnReceived i) (clearRound i) rx s) :
    ∃ t, ∀ p : Payload, ∃ cs q, exec (readRawStep i) rx (p, s) = .ok (cs, q, t) := by
  induction rx generalizing s with
  | nil => exact ⟨s, fun p => ⟨[], p, rfl⟩⟩
  | cons r rx ih =>
      obtain ⟨⟨s₁, hround⟩, hrest⟩ := h
      obtain ⟨c₀, p₀, h₀⟩ := hround (Buf.zero 32)
      obtain ⟨t, ht⟩ := ih (hrest c₀ s₁ (clearRound_eq_ok.mpr ⟨p₀, h₀⟩))
      refine ⟨t, fun p => ?_⟩
      obtain ⟨c, p₁, h₁⟩ := hround p
      obtain ⟨cs, q, hq⟩ := ht p₁
      exact ⟨c :: cs, q, exec_cons_ok.mpr ⟨c, (p₁, s₁), cs, h₁, hq, rfl⟩⟩

end Call

end Nrf

/-- In every reachable slot and for every packets that arrive: what `read_raw` does depends on the bytes received and
on nothing else of the stack buffer, exactly when each control packet is complete and no data packet of one byte is
accepted. -/
theorem onlyReceived_iff {s t : Nrf b} (hs : Reachable s) (i : Fin b.connections) (ht : t.peers i = s.peers i)
    (hd : t.driverIndex = 0) (e : Env) :
    Nrf.OnlyReceived e i t ↔ Along (Nrf.Complete i) (Nrf.clearRound i) e.rx t := by
  have hinv : RxInv (t.peers i) := by
    rw [ht]
    exact (hs.slotInv i).rx
  rw [← Nrf.packets_iff hd hinv]
  constructor
  · intro h
    exact h.packets
  · intro h
    obtain ⟨u, hu⟩ := Nrf.exec_received h
    refine ⟨⟨u, fun p => ?_⟩, h⟩
    obtain ⟨cs, q, hq⟩ := hu (p.write 0 [0])
    exact ⟨cs, Nrf.readRaw_eq_ok.mpr ⟨hd, q, hq⟩⟩

def disconnectPdu (src dst : Mac) : Pdu where
  bytes := (controlPdu (Buf.zero 32) opDisconnect dst src).read 0 controlLen
  pos := by rw [Buf.length_read _ (by decide)]; decide
  le_mtu := by rw [Buf.length_read _ (by decide)]; decide

/-- A disconnect packet arrives in the open pipe. -/
theorem onlyReceived_opened :
    Nrf.OnlyReceived (arriving 100 [disconnectPdu gatewayMac gatewayMac]) 0 (after opening : Nrf .linux) := by
  refine (onlyReceived_iff (reachable_after rfl) 0 rfl rfl _).mpr ⟨⟨fun _ => ?_, ?_⟩, fun _ _ _ => trivial⟩
  · exact ⟨by decide, fun h => absurd h (by decide), fun _ _ => by decide⟩
  · exact fun hrunt => absurd hrunt.1 (by decide)

/-- A disconnect packet without its addresses: the event carries what the stack buffer held. -/
theorem disconnect_reads_stack :
    ¬ ∀ (s : Nrf .linux) (i : Fin Build.linux.connections) (e : Env), Reachable s → s.driverIndex = 0 →
      Nrf.OnlyReceived e i s := by
  intro hall
  have honly := hall (after opening) 0 (arriving 100 [⟨[0x03, 0x00, 0x04], by decide, by decide⟩])
    (reachable_after rfl) rfl
  obtain ⟨t, ht⟩ := honly.call
  obtain ⟨cs, h₀⟩ := ht (leftover 10 0)
  obtain ⟨cs', h₁⟩ := ht (leftover 10 1)
  have hsrc₀ : 0 = t.mgmt.bufferRx.get 10 := congrArg (fun r => (stateOf r).mgmt.bufferRx.get 10) h₀
  have hsrc₁ : 1 = t.mgmt.bufferRx.get 10 := congrArg (fun r => (stateOf r).mgmt.bufferRx.get 10) h₁
  exact absurd (hsrc₀.trans hsrc₁.symm) (by decide)

end KnotHal.Nrf24
