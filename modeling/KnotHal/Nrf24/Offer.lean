import KnotHal.Nrf24.Expiry
import KnotHal.Nrf24.Handshake

/-!
# Connect requests on the air

`hal_comm_connect` leaves a request in `mgmt.buffer_tx`, and a pass over the management channel sends it, calls
later. In between the slot it names can be closed or time out.

* `OfferInv` : the request that waits names a slot that is allocated to the peer it is for;
* `perform_queues`, `step_offers` : what a call does to the request, and when the invariant is kept;
* `offers_fresh` : the runs in which no stale request is sent.
-/

namespace KnotHal.Nrf24

open Machine

variable {b : Build}

/-- The low byte of the access address and the destination in a connect request. -/
def DriverOp.offer? : DriverOp → Option (UInt8 × List UInt8)
  | write 0 data _ =>
      if pduType (data.headD 0) = typeConnectReq then some (data.getD 18 0, (data.drop 9).take 8) else none
  | _ => none

/-- A connect request on the air names an allocated slot with the peer it is for. -/
def Nrf.FreshOffer (s : Nrf b) (op : DriverOp) : Prop :=
  ∀ n dst, op.offer? = some (n, dst) →
    ∃ j : Fin b.connections, n = UInt8.ofNat (j + 1) ∧ (s.peers j).pipe ≠ -1 ∧ (s.peers j).mac.bytes = dst

theorem offer?_of_pipe {op : DriverOp} (h : op.pipe? ≠ some 0) : op.offer? = none := by
  cases op with
  | write pipe data o =>
      cases pipe with
      | zero => exact absurd rfl h
      | succ n => rfl
  | _ => rfl

section ConnectPdu
variable (buf : Buf mgmtSize) (src dst : Mac) (n : Nat)

theorem connectPdu_slot : (Nrf.connectPdu buf src dst n).get 18 = UInt8.ofNat n := by
  have hget := (Nrf.connectPdu buf src dst n).get_sub (show 18 + 5 ≤ mgmtSize by decide) (show 0 < 5 by decide)
  rw [connectPdu_aa] at hget
  have hself : (accessAddress src n).get (0 + 0) = UInt8.ofNat n := Buf.get_write_self _ (by simp) (by simp)
  exact hget.symm.trans hself

theorem offer?_connectPdu (o : Outcome) :
    (DriverOp.write 0 ((Nrf.connectPdu buf src dst n).read 0 connectLen) o).offer? =
      some (UInt8.ofNat n, dst.bytes) := by
  have htype := connectPdu_type buf src dst n
  have hdst : (Nrf.connectPdu buf src dst n).read 9 8 = dst.bytes := by
    rw [← Buf.bytes_sub _ (by decide), connectPdu_dst]
  have hhead : ((Nrf.connectPdu buf src dst n).read 0 connectLen).headD 0 = (Nrf.connectPdu buf src dst n).get 0 := by
    rw [List.headD_eq_head?_getD, Buf.head?_read _ (by decide) (by decide)]
    rfl
  rw [DriverOp.offer?, hhead, if_pos htype, ← Buf.get_of_read (by decide), connectPdu_slot,
    Buf.take_drop_read _ (by decide), hdst]

end ConnectPdu

namespace Nrf

variable {e : Env} {s s' : Nrf b}

/-! ## A pass -/

theorem presencePdu_type (b : Build) (frame : Payload) (mac : Mac) :
    pduType ((presencePdu b frame mac).headD 0) = typePresence := by
  unfold presencePdu
  dsimp only [List.headD_cons]
  rw [pduType_setType]
  rfl

theorem running_offers (h : s.running e = .ok s') :
    ∃ ops, s'.log = s.log ++ ops ∧ ∀ op ∈ ops, op.offer? = none ∨
      s.mgmt.lenTx ≠ 0 ∧ op = .write 0 (s.mgmt.bufferTx.read 0 s.mgmt.lenTx) (e.outcome .mgmt) := by
  rcases running_cases h with ⟨ch, rs, -, rfl⟩ | ⟨-, h⟩ | ⟨-, h⟩
  · exact ⟨_, rfl, by simp [DriverOp.offer?]⟩
  · obtain ⟨⟨ops, hlog, hops⟩, -⟩ := mgmtPass_ops h
    refine ⟨ops, hlog, fun op hop => ?_⟩
    cases hops op hop with
    | read pdu => exact Or.inl rfl
    | request waits => exact Or.inr ⟨waits, rfl⟩
    | presence =>
        refine Or.inl (if_neg ?_)
        rw [presencePdu_type]
        decide
    | standby => exact Or.inl rfl
  · obtain ⟨⟨ops, hlog, hops⟩, -⟩ := rawPass_ops h
    refine ⟨ops, hlog, fun op hop => Or.inl (offer?_of_pipe ?_)⟩
    rw [hops op hop]
    simp

/-! ## The calls -/

/-- What a call does after its pass, `s₁` to `s'`, to the request that waits and to the slots it can name. -/
inductive Queues (c : Call) (s₁ s' : Nrf b) : Prop
  | kept (bufferTx : s'.mgmt.bufferTx = s₁.mgmt.bufferTx) (lenTx : s'.mgmt.lenTx = s₁.mgmt.lenTx)
      (slots : ∀ j : Fin b.connections, (s₁.peers j).pipe ≠ -1 → c ≠ .close (j + 1) →
        (s'.peers j).pipe = (s₁.peers j).pipe ∧ (s'.peers j).mac = (s₁.peers j).mac)
  | dropped (lenTx : s'.mgmt.lenTx = 0)
  | offered (i : Fin b.connections) (addr : Mac) (call : c = .connect (i + 1) addr) (free : s₁.mgmt.lenTx = 0)
      (bufferTx : s'.mgmt.bufferTx = connectPdu s₁.mgmt.bufferTx s₁.macLocal addr (i + 1))
      (lenTx : s'.mgmt.lenTx = connectLen) (pipe : (s'.peers i).pipe = (s₁.peers i).pipe)
      (mac : (s'.peers i).mac = addr)

theorem Queues.of_same {c : Call} (hm : s'.mgmt = s.mgmt) (hp : s'.peers = s.peers) : Queues c s s' :=
  .kept (by rw [hm]) (by rw [hm]) fun j _ _ => by rw [hp]; exact ⟨rfl, rfl⟩

theorem Queues.setPeer {c : Call} {i : Fin b.connections} {d : Nrf24Data} (hpipe : d.pipe = (s.peers i).pipe)
    (hmac : d.mac = (s.peers i).mac) : Queues c s (s.setPeer i d) := by
  refine .kept rfl rfl fun j _ _ => ?_
  by_cases hj : j = i
  · subst hj
    rw [setPeer_self]
    exact ⟨hpipe, hmac⟩
  · rw [s.setPeer_of_ne d hj]
    exact ⟨rfl, rfl⟩

theorem Queues.taken {c : Call} {i : Fin b.connections} (hb : s'.mgmt.bufferTx = s.mgmt.bufferTx)
    (hl : s'.mgmt.lenTx = s.mgmt.lenTx) (hfree : (s.peers i).pipe = -1) (hp : ∀ j, j ≠ i → s'.peers j = s.peers j) :
    Queues c s s' := by
  refine .kept hb hl fun j hheld _ => ?_
  have hj : j ≠ i := fun hj => hheld (by rw [hj, hfree])
  rw [hp j hj]
  exact ⟨rfl, rfl⟩

theorem halCommClose_queues {sockfd : Int} {r : Ret} (h : s.halCommClose e sockfd = .ok (r, s')) :
    Queues (.close sockfd) s s' ∧ ∃ ops, s'.log = s.log ++ ops ∧ ∀ op ∈ ops, op.offer? = none := by
  rcases halCommClose_cases h with ⟨-, rfl | ⟨i, rfl, -, ops, hops, hfree⟩⟩
  · exact ⟨.of_same rfl rfl, [], by simp, by simp⟩
  · have hframe := Frame.freePipe hfree
    have hmgmt := freePipe_mgmt hfree
    obtain ⟨ops', hlog, hops'⟩ := hframe.log
    constructor
    · refine .kept (by rw [hmgmt]) (by rw [hmgmt]) fun j _ hother => ?_
      have hj : j ≠ i := fun hj => hother (by rw [hj])
      rw [hframe.peers j hj]
      exact ⟨rfl, rfl⟩
    · refine ⟨ops ++ ops', by rw [hlog, List.append_assoc], fun op hop => offer?_of_pipe ?_⟩
      have hpipe : op.pipe? = some (i.val + 1) := (List.mem_append.mp hop).elim (fun h => (hops op h).2) (hops' op)
      rw [hpipe]
      simp

/-- A pass or none, and then what the call does to the request itself; it sends none there. -/
theorem perform_queues {c : Call} {r : Ret} (h : c.perform e s = .ok (r, s')) :
    ∃ s₁, (c.runs = true ∧ s.running e = .ok s₁ ∨ c.runs = false ∧ s₁ = s) ∧ Queues c s₁ s' ∧
      ∃ ops, s'.log = s₁.log ++ ops ∧ ∀ op ∈ ops, op.offer? = none := by
  cases c with
  | init mac err =>
      have hs := halCommInit_cases h
      exact ⟨s, Or.inr ⟨rfl, rfl⟩, .of_same (by rw [hs]) (by rw [hs]), [], by rw [hs]; simp, by simp⟩
  | deinit =>
      refine ⟨s, Or.inr ⟨rfl, rfl⟩, ?_⟩
      rcases halCommDeinit_cases h with rfl | rfl
      · exact ⟨.of_same rfl rfl, [], by simp, by simp⟩
      · exact ⟨.dropped rfl, [], by simp, by simp⟩
  | socket domain protocol =>
      refine ⟨s, Or.inr ⟨rfl, rfl⟩, ?_⟩
      rcases halCommSocket_cases h with ⟨-, rfl⟩ | ⟨-, -, -, rfl⟩ | ⟨-, -, -, i, s₁, halloc, -, rfl⟩
      · exact ⟨.of_same rfl rfl, [], by simp, by simp⟩
      · exact ⟨.kept rfl rfl fun _ _ _ => ⟨rfl, rfl⟩, _, rfl, by simp [DriverOp.offer?]⟩
      · obtain ⟨hfree, -, rfl⟩ := allocPipe_eq_some halloc
        exact ⟨.taken rfl rfl hfree fun _ hj => s.setPeer_of_ne _ hj, _, rfl, by simp [DriverOp.offer?]⟩
  | close sockfd => exact ⟨s, Or.inr ⟨rfl, rfl⟩, halCommClose_queues h⟩
  | read sockfd count =>
      obtain ⟨s₁, hrun, h⟩ := halCommRead_cases h
      refine ⟨s₁, Or.inl ⟨rfl, hrun⟩, ?_⟩
      rcases h with ⟨-, rfl, -⟩ | ⟨-, -, -, -, rfl⟩ | ⟨i, -, -, -, -, rfl⟩
      · exact ⟨.of_same rfl rfl, [], by simp, by simp⟩
      · exact ⟨.kept rfl rfl fun _ _ _ => ⟨rfl, rfl⟩, [], by simp, by simp⟩
      · exact ⟨.setPeer rfl rfl, [], by simp, by simp⟩
  | write sockfd data =>
      obtain ⟨s₁, hrun, h⟩ := halCommWrite_cases h
      refine ⟨s₁, Or.inl ⟨rfl, hrun⟩, ?_⟩
      rcases h with ⟨-, rfl⟩ | ⟨i, -, -, -, -, -, rfl⟩
      · exact ⟨.of_same rfl rfl, [], by simp, by simp⟩
      · exact ⟨.setPeer rfl rfl, [], by simp, by simp⟩
  | listen =>
      cases h
      exact ⟨s, Or.inr ⟨rfl, rfl⟩, .of_same rfl rfl, [], by simp, by simp⟩
  | accept =>
      obtain ⟨s₁, hrun, h⟩ := halCommAccept_cases h
      refine ⟨s₁, Or.inl ⟨rfl, hrun⟩, ?_⟩
      rcases h with ⟨-, -, rfl⟩ | ⟨-, -, rfl⟩ | ⟨-, -, i, s₂, halloc, -, -, rfl⟩
      · exact ⟨.of_same rfl rfl, [], by simp, by simp⟩
      · exact ⟨.kept rfl rfl fun _ _ _ => ⟨rfl, rfl⟩, [], by simp, by simp⟩
      · obtain ⟨hfree, -, rfl⟩ := allocPipe_eq_some halloc
        refine ⟨.taken rfl rfl hfree fun j hj => ?_, _, rfl, by simp [DriverOp.offer?]⟩
        rw [setPeer_of_ne _ _ hj]
        exact s₁.setPeer_of_ne _ hj
  | connect sockfd addr =>
      obtain ⟨s₁, hrun, h⟩ := halCommConnect_cases h
      refine ⟨s₁, Or.inl ⟨rfl, hrun⟩, ?_⟩
      rcases h with ⟨-, -, rfl⟩ | ⟨hfree, i, rfl, -, rfl⟩
      · exact ⟨.of_same rfl rfl, [], by simp, by simp⟩
      · refine ⟨.offered i addr rfl hfree rfl rfl ?_ ?_, [], by simp, by simp⟩
        · show ((s₁.setPeer i _).peers i).pipe = _
          rw [setPeer_self]
        · show ((s₁.setPeer i _).peers i).mac = _
          rw [setPeer_self]

/-! ## The invariant -/

/-- The request that waits is for the peer of slot `j`, and the slot is allocated. -/
structure Offered (j : Fin b.connections) (s : Nrf b) : Prop where
  lenTx : s.mgmt.lenTx = connectLen
  bufferTx : ∃ buf own, s.mgmt.bufferTx = connectPdu buf own (s.peers j).mac (j + 1)
  held : (s.peers j).pipe ≠ -1

/-- If a request waits, it is for the peer of an allocated slot. -/
def OfferInv (s : Nrf b) : Prop := s.mgmt.lenTx ≠ 0 → ∃ j, s.Offered j

def Requested (j : Fin b.connections) (s : Nrf b) : Prop :=
  s.mgmt.lenTx ≠ 0 ∧ s.mgmt.bufferTx.get 18 = UInt8.ofNat (j + 1)

theorem Offered.requested {j : Fin b.connections} (h : s.Offered j) : s.Requested j := by
  obtain ⟨buf, own, hbuf⟩ := h.bufferTx
  constructor
  · rw [h.lenTx]
    decide
  · rw [hbuf, connectPdu_slot]

theorem OfferInv.relog (h : s.OfferInv) (ops : List DriverOp) : OfferInv { s with log := ops } := by
  intro hlen
  obtain ⟨j, hj⟩ := h hlen
  exact ⟨j, hj.lenTx, hj.bufferTx, hj.held⟩

theorem Offered.fresh {j : Fin b.connections} (h : s.Offered j) (o : Outcome) :
    s.FreshOffer (.write 0 (s.mgmt.bufferTx.read 0 s.mgmt.lenTx) o) := by
  obtain ⟨buf, own, hbuf⟩ := h.bufferTx
  intro n dst hoffer
  rw [h.lenTx, hbuf, offer?_connectPdu] at hoffer
  obtain ⟨rfl, rfl⟩ := Prod.mk.inj (Option.some.inj hoffer)
  exact ⟨j, rfl, h.held, rfl⟩

theorem OfferInv.running {s₁ : Nrf b} (hinv : s.OfferInv) (hexpire : ∀ j, s.Requested j → ¬ s.Expires e j)
    (h : s.running e = .ok s₁) : s₁.OfferInv := by
  have hran := running_ran h
  intro hlen
  have hsame := hran.lenTx.resolve_right hlen
  rw [hsame] at hlen
  obtain ⟨j, hj⟩ := hinv hlen
  refine ⟨j, hsame.trans hj.lenTx, ?_, ?_⟩
  · rw [hran.bufferTx, hran.mac j]
    exact hj.bufferTx
  · intro hfreed
    exact hexpire j hj.requested ((running_frees h hj.held).mp hfreed)

theorem OfferInv.queues {c : Call} {s₁ : Nrf b} (hinv : s₁.OfferInv) (h : Queues c s₁ s')
    (hclose : ∀ j, s₁.Requested j → c ≠ .close (j + 1))
    (hconnect : ∀ (j : Fin b.connections) addr, c = .connect (j + 1) addr → s₁.mgmt.lenTx = 0 →
      (s₁.peers j).pipe ≠ -1) : s'.OfferInv := by
  intro hlen
  cases h with
  | kept bufferTx lenTx slots =>
      rw [lenTx] at hlen
      obtain ⟨j, hj⟩ := hinv hlen
      obtain ⟨hpipe, hmac⟩ := slots j hj.held (hclose j hj.requested)
      refine ⟨j, lenTx.trans hj.lenTx, ?_, ?_⟩
      · rw [bufferTx, hmac]
        exact hj.bufferTx
      · rw [hpipe]
        exact hj.held
  | dropped lenTx => exact absurd lenTx hlen
  | offered i addr call free bufferTx lenTx pipe mac =>
      refine ⟨i, lenTx, ⟨_, _, by rw [bufferTx, mac]⟩, ?_⟩
      rw [pipe]
      exact hconnect i addr call free

end Nrf

/-! ## Runs -/

section Runs
variable {s s' : Nrf b}

/-- As long as a request waits, its slot is not closed and does not expire; and a request is queued for a slot
that is allocated and does not expire in the pass before. -/
structure KeepsOffer (ce : Call × Env) (s : Nrf b) : Prop where
  close : ∀ j, s.Requested j → ce.1 ≠ .close (j + 1)
  expire : ∀ j, s.Requested j → ce.1.runs = true → ¬ s.Expires ce.2 j
  connect : ∀ (j : Fin b.connections) addr, ce.1 = .connect (j + 1) addr → s.Flushes ce.2 →
    (s.peers j).pipe ≠ -1 ∧ ¬ s.Expires ce.2 j

/-- Every connect request that goes out in the step names an allocated slot with the peer it is for. -/
def OffersFresh (ce : Call × Env) (s : Nrf b) : Prop :=
  ∀ o s', step ce s = .ok (o, s') → ∀ op ∈ o.ops, s.FreshOffer op

theorem perform_offers {e : Env} {c : Call} {r : Ret} (hinv : s.OfferInv) (hkeep : KeepsOffer (c, e) s)
    (h : c.perform e s = .ok (r, s')) :
    (∃ ops, s'.log = s.log ++ ops ∧ ∀ op ∈ ops, s.FreshOffer op) ∧ s'.OfferInv := by
  have hnone : ∀ {op : DriverOp}, op.offer? = none → s.FreshOffer op := by
    intro op hop n dst hoffer
    rw [hop] at hoffer
    cases hoffer
  obtain ⟨s₁, hrun, hqueues, ops₂, hlog₂, hops₂⟩ := Nrf.perform_queues h
  have hfresh₂ : ∀ op ∈ ops₂, s.FreshOffer op := fun op hop => hnone (hops₂ op hop)
  rcases hrun with ⟨hruns, hrun⟩ | ⟨hruns, rfl⟩
  · have hinv₁ : s₁.OfferInv := hinv.running (fun j hj => hkeep.expire j hj hruns) hrun
    obtain ⟨ops₁, hlog₁, hops₁⟩ := Nrf.running_offers hrun
    have hfresh₁ : ∀ op ∈ ops₁, s.FreshOffer op := by
      intro op hop
      rcases hops₁ op hop with hop | ⟨hwaits, rfl⟩
      · exact hnone hop
      · obtain ⟨j, hj⟩ := hinv hwaits
        exact hj.fresh _
    constructor
    · refine ⟨ops₁ ++ ops₂, by rw [hlog₂, hlog₁, List.append_assoc], fun op hop => ?_⟩
      exact (List.mem_append.mp hop).elim (hfresh₁ op) (hfresh₂ op)
    · refine hinv₁.queues hqueues (fun j _ hc => ?_) fun j addr hc hfree => ?_
      · rw [hc] at hruns
        cases hruns
      · obtain ⟨hheld, hexpire⟩ := hkeep.connect j addr hc ((Nrf.running_flushes hrun).mp hfree)
        intro hfreed
        exact hexpire ((Nrf.running_frees hrun hheld).mp hfreed)
  · refine ⟨⟨ops₂, hlog₂, hfresh₂⟩, hinv.queues hqueues (fun j hj => hkeep.close j hj) fun j addr hc _ => ?_⟩
    rw [hc] at hruns
    cases hruns

theorem step_offers {ce : Call × Env} {o : Out} (hinv : s.OfferInv) (hkeep : KeepsOffer ce s)
    (h : step ce s = .ok (o, s')) : (∀ op ∈ o.ops, s.FreshOffer op) ∧ s'.OfferInv := by
  obtain ⟨hperf, hout⟩ := step_eq_ok.mp h
  have hkeep₀ : KeepsOffer ce { s with log := [] } := by
    refine ⟨hkeep.close, fun j hj hruns hexp => ?_, fun j addr hc hflush => ?_⟩
    · exact hkeep.expire j hj hruns (Nrf.expires_relog.mp hexp)
    · obtain ⟨hheld, hexpire⟩ := hkeep.connect j addr hc hflush
      exact ⟨hheld, fun hexp => hexpire (Nrf.expires_relog.mp hexp)⟩
  obtain ⟨⟨ops, hlog, hops⟩, hinv'⟩ := perform_offers (s := { s with log := [] }) (hinv.relog []) hkeep₀ hperf
  rw [List.nil_append] at hlog
  rw [hout, hlog]
  exact ⟨hops, hinv'⟩

theorem offerInv_boot : (Nrf.boot b).OfferInv := fun h => absurd rfl h

end Runs

/-- In every run that neither closes nor expires the slot of a request that waits, and that queues requests for
allocated slots only, every connect request on the air names an allocated slot with the peer it is for. -/
theorem offers_fresh {is : List (Call × Env)} (hkeep : Along KeepsOffer step is (Nrf.boot b)) :
    Along OffersFresh step is (Nrf.boot b) := by
  refine Along.of_invariant (I := Nrf.OfferInv) (fun ce s hinv hP => ?_) offerInv_boot hkeep
  constructor
  · intro o s' h
    exact (step_offers hinv hP h).1
  · intro o s' h
    exact (step_offers hinv hP h).2

def offering : List (Call × Env) :=
  [(.init gatewayMac 0, .still 0), (.socket pfNrf24 protoMgmt, .still 0), (.socket pfNrf24 protoRaw, .still 0),
    (.connect 1 (thingMac true), .still 0), (.read 0 64, .still 0)]

/-- The request goes out for the slot that was opened. -/
theorem offers_fresh_offering : Along OffersFresh step offering (Nrf.boot .linux) := by
  apply offers_fresh
  have hidle : ∀ {c : Call} {e : Env} {s : Nrf .linux}, c.runs = false → (∀ sockfd, c ≠ .close sockfd) →
      KeepsOffer (c, e) s := by
    intro c e s hruns hclose
    refine ⟨fun j _ => hclose _, fun j _ h => ?_, fun j addr h => ?_⟩
    · rw [hruns] at h
      cases h
    · rw [show c = _ from h] at hruns
      cases hruns
  refine Along.cons (hidle rfl (by simp)) rfl ?_
  refine Along.cons (hidle rfl (by simp)) rfl ?_
  refine Along.cons (hidle rfl (by simp)) rfl ?_
  refine Along.cons ?_ rfl ?_
  · refine ⟨fun j _ h => ?_, fun j _ _ hexp => ?_, fun j addr hc _ => ⟨?_, fun hexp => ?_⟩⟩
    · cases h
    · cases hexp.state
    · have hj : j = 0 := Fin.ext (by
        have hfd := (Call.connect.inj hc).1
        simp only [Fin.val_zero]
        omega)
      rw [hj]
      decide
    · cases hexp.state
  refine Along.cons ?_ rfl trivial
  refine ⟨fun j _ h => ?_, fun j _ _ hexp => ?_, fun j addr h => ?_⟩
  · cases h
  · cases hexp.state
  · cases h

/-- The sockets that `hal_comm_socket` has returned for the data channel and that have not been closed since. -/
def noteSockets (fds : List Int) (ce : Call × Env) (o : Out) : List Int :=
  match ce.1 with
  | .socket _ protocol => if protocol = protoRaw ∧ 0 ≤ o.ret then o.ret :: fds else fds
  | .close sockfd => fds.filter (· ≠ sockfd)
  | .deinit => []
  | _ => fds

/-- `hal_comm_connect` is called with one of these sockets. -/
def ConnectsOpen (ce : Call × Env) (q : List Int × Nrf b) : Prop :=
  ∀ sockfd addr, ce.1 = .connect sockfd addr → sockfd ∈ q.1

def closing : List (Call × Env) :=
  [(.init gatewayMac 0, .still 0), (.socket pfNrf24 protoMgmt, .still 0), (.socket pfNrf24 protoRaw, .still 0),
    (.connect 1 (thingMac true), .still 0), (.close 1, .still 0), (.read 0 64, .still 0)]

/-- The request names a slot that is free. -/
theorem offer_outlives_close :
    ¬ ∀ is : List (Call × Env), Along ConnectsOpen (recorded noteSockets step) is ([], Nrf.boot .linux) →
      Along OffersFresh step is (Nrf.boot .linux) := by
  intro hall
  have hother : ∀ {c : Call} {e : Env} {q : List Int × Nrf .linux}, (∀ sockfd addr, c ≠ .connect sockfd addr) →
      ConnectsOpen (c, e) q := fun hc sockfd addr h => absurd h (hc sockfd addr)
  have hcalls : Along ConnectsOpen (recorded noteSockets step) closing ([], Nrf.boot .linux) := by
    refine Along.cons (hother (by simp)) rfl ?_
    refine Along.cons (hother (by simp)) rfl ?_
    refine Along.cons (hother (by simp)) rfl ?_
    refine Along.cons (fun sockfd addr h => ?_) rfl ?_
    · rw [← (Call.connect.inj h).1]
      decide
    refine Along.cons (hother (by simp)) rfl ?_
    exact Along.cons (hother (by simp)) rfl trivial
  obtain ⟨-, h₁⟩ := hall closing hcalls
  obtain ⟨-, h₂⟩ := h₁ _ _ rfl
  obtain ⟨-, h₃⟩ := h₂ _ _ rfl
  obtain ⟨-, h₄⟩ := h₃ _ _ rfl
  obtain ⟨-, h₅⟩ := h₄ _ _ rfl
  obtain ⟨h₆, -⟩ := h₅ _ _ rfl
  obtain ⟨j, -, hheld, -⟩ := h₆ _ _ rfl _ (List.mem_singleton.mpr rfl) _ _ rfl
  apply hheld
  clear hheld
  revert j
  decide

end KnotHal.Nrf24
