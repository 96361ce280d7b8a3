import KnotHal.Nrf24.Channel
import KnotHal.Nrf24.Pipes
import KnotHal.Radio.Deliveries

/-!
# A gateway on its radio

`comm_nrf24l01.c` keeps in `mgmt` and `peers` which pipes it has opened, and in `running_state` which channel it has
set. The driver keeps them in the registers of the chip. Here the one runs on the other, with packets on the air at any
time.

* `Carries`, `Interleaves` : what the driver gets to do while the stack performs its operations;
* `view` : the pipes as the stack believes them to be;
* `Opens`, `perform_opens` : each call changes the pipes of the driver as it changes the view;
* `Interleaves.follows` : the radio follows the operations, whatever else it gets to do;
* `gateway_attached` : the chip listens as the stack believes, in every run.
-/

namespace KnotHal.Radio

open Machine Nrf24.Nrf
open Nrf24 (DriverOp Nrf Mac Env Ret aaPipe0 accessAddress channelMgmt channelRaw)

/-! ## The operations -/

/-- What `phy_ioctl`, `phy_write` and `phy_read` make of an operation. -/
inductive Carries : DriverOp → Receiver.Input → Prop
  | setPipe (pipe : Nat) (aa : Address) : Carries (.setPipe pipe aa) (.call (.setPipe (UInt8.ofNat pipe) aa))
  | resetPipe (pipe : Nat) : Carries (.resetPipe pipe) (.call (.resetPipe pipe))
  | setChannel (ch : Nrf24.Channel) : Carries (.setChannel ch) (.call (.setChannel (UInt8.ofNat ch.value) ch.ack))
  | setStandby : Carries .setStandby (.call .setStandby)
  | read (pipe : Nat) (pdu : Nrf24.Pdu) : Carries (.read pipe pdu) (.read (UInt8.ofNat pipe) 32)
  | write (pipe : Nat) (data : List UInt8) (o : Nrf24.Outcome) (acked : Bool) (stack : Address) :
      Carries (.write pipe data o) (.call (.write (UInt8.ofNat pipe) data acked stack))

/-- The operations one after the other, with packets on the air and reads that find nothing in between. -/
inductive Interleaves : List DriverOp → List Receiver.Input → Prop
  | done : Interleaves [] []
  | air {ops : List DriverOp} {is : List Receiver.Input} (channel : BitVec 8) (addr : Address) (payload : Payload)
      (rest : Interleaves ops is) : Interleaves ops (.packet channel addr payload :: is)
  | miss {ops : List DriverOp} {is : List Receiver.Input} (pipe : UInt8) (rest : Interleaves ops is) :
      Interleaves ops (.read pipe 32 :: is)
  | op {ops : List DriverOp} {is : List Receiver.Input} {op : DriverOp} {i : Receiver.Input} (carries : Carries op i)
      (rest : Interleaves ops is) : Interleaves (op :: ops) (i :: is)

def effect (op : DriverOp) (ps : Pipes) : Pipes :=
  match op with
  | .setPipe pipe aa => ps.openPipe pipe aa
  | .resetPipe pipe => ps.closePipe pipe
  | .setChannel _ | .setStandby | .read _ _ | .write _ _ _ => ps

def effects (ops : List DriverOp) (ps : Pipes) : Pipes := ops.foldl (fun ps op => effect op ps) ps

/-- The operations of a gateway with the address `mac`. -/
def Sane (mac : Mac) : DriverOp → Prop
  | .setPipe pipe aa => pipe = 0 ∧ aa = aaPipe0 ∨ 1 ≤ pipe ∧ pipe ≤ 5 ∧ aa = accessAddress mac pipe
  | .resetPipe pipe => 1 ≤ pipe ∧ pipe ≤ 5
  | .read pipe _ | .write pipe _ _ => pipe ≤ 5
  | .setChannel ch => ch = channelMgmt ∨ ch = channelRaw
  | .setStandby => True

/-- The same without those that open or close a pipe. -/
def Talks : DriverOp → Prop
  | .read pipe _ | .write pipe _ _ => pipe ≤ 5
  | .setChannel ch => ch = channelMgmt ∨ ch = channelRaw
  | .setStandby => True
  | .setPipe _ _ | .resetPipe _ => False

theorem Talks.sane {op : DriverOp} (h : Talks op) (mac : Mac) : Sane mac op := by
  cases op with
  | setPipe pipe aa => exact h.elim
  | resetPipe pipe => exact h.elim
  | setChannel ch => exact h
  | setStandby => trivial
  | read pipe pdu => exact h
  | write pipe data o => exact h

theorem Talks.effect {op : DriverOp} (h : Talks op) (ps : Pipes) : effect op ps = ps := by
  cases op with
  | setPipe pipe aa => exact h.elim
  | resetPipe pipe => exact h.elim
  | _ => rfl

theorem effects_append (ops ops' : List DriverOp) (ps : Pipes) :
    effects (ops ++ ops') ps = effects ops' (effects ops ps) :=
  List.foldl_append

theorem effects_of_talks {ops : List DriverOp} (h : ∀ op ∈ ops, Talks op) (ps : Pipes) : effects ops ps = ps := by
  induction ops with
  | nil => rfl
  | cons op ops ih =>
      show effects ops (effect op ps) = ps
      rw [(h op List.mem_cons_self).effect, ih fun op hop => h op (List.mem_cons_of_mem _ hop)]

/-! ## What the stack believes -/

variable {b : Build} {e : Env} {s s' s₁ s₂ : Nrf b}

/-- The pipes that the stack has opened: pipe 0 for the management socket, and one for each slot in use. -/
def view (s : Nrf b) : Pipes := fun p =>
  if p.val = 0 then if s.mgmt.pipe = 0 then some aaPipe0 else none
  else if ∃ i : Fin b.connections, p.val = i + 1 ∧ (s.peers i).pipe ≠ -1 then some (accessAddress s.macLocal p)
  else none

theorem view_zero (s : Nrf b) : view s 0 = if s.mgmt.pipe = 0 then some aaPipe0 else none := if_pos rfl

def pipeOf (i : Fin b.connections) : Fin 6 := ⟨i + 1, by have := i.isLt; have := b.connections_le; omega⟩

theorem view_pipeOf (s : Nrf b) (i : Fin b.connections) :
    view s (pipeOf i) = if (s.peers i).pipe ≠ -1 then some (accessAddress s.macLocal (i + 1)) else none := by
  have hne : (pipeOf i).val ≠ 0 := Nat.succ_ne_zero i.val
  have hheld : (∃ j : Fin b.connections, (pipeOf i).val = j + 1 ∧ (s.peers j).pipe ≠ -1) ↔ (s.peers i).pipe ≠ -1 := by
    constructor
    · rintro ⟨j, hj, hpipe⟩
      obtain rfl : i = j := Fin.ext (Nat.succ_injective hj)
      exact hpipe
    · intro hpipe
      exact ⟨i, rfl, hpipe⟩
  unfold view
  rw [if_neg hne]
  exact if_congr hheld rfl rfl

/-- A pipe is pipe 0, or that of a slot, or none that the stack uses. -/
theorem pipe_cases (b : Build) (p : Fin 6) :
    p = 0 ∨ (∃ i : Fin b.connections, p = pipeOf i) ∨ ∀ s : Nrf b, view s p = none := by
  by_cases hp : p = 0
  · exact .inl hp
  · by_cases hslot : ∃ i : Fin b.connections, p = pipeOf i
    · exact .inr (.inl hslot)
    · refine .inr (.inr fun s => ?_)
      have hne : p.val ≠ 0 := fun hzero => hp (Fin.ext hzero)
      unfold view
      rw [if_neg hne, if_neg]
      rintro ⟨i, hi, -⟩
      exact hslot ⟨i, Fin.ext hi⟩

theorem view_congr (hmac : s'.macLocal = s.macLocal) (hmgmt : s'.mgmt.pipe = s.mgmt.pipe)
    (hpipe : ∀ j, (s'.peers j).pipe = (s.peers j).pipe) : view s' = view s := by
  funext p
  unfold view
  rw [hmac, hmgmt]
  simp only [hpipe]

/-- Opening or closing the pipe of a slot changes the view there. -/
theorem view_update {i : Fin b.connections} (hmac : s'.macLocal = s.macLocal) (hmgmt : s'.mgmt.pipe = s.mgmt.pipe)
    (hothers : ∀ j, j ≠ i → (s'.peers j).pipe = (s.peers j).pipe) :
    view s' = Function.update (view s) (pipeOf i) (view s' (pipeOf i)) := by
  funext p
  by_cases hp : p = pipeOf i
  · rw [hp, Function.update_self]
  · rw [Function.update_of_ne hp]
    rcases pipe_cases b p with rfl | ⟨j, rfl⟩ | hnone
    · rw [view_zero, view_zero, hmgmt]
    · have hj : j ≠ i := fun heq => hp (by rw [heq])
      rw [view_pipeOf, view_pipeOf, hothers j hj, hmac]
    · rw [hnone, hnone]

/-! ## What a call does to the pipes -/

/-- What is put out is sane, and opens and closes the pipes as the view changes. -/
structure Opens (s s' : Nrf b) : Prop where
  mac : s'.macLocal = s.macLocal
  ops : ∃ ops, s'.log = s.log ++ ops ∧ (∀ op ∈ ops, Sane s.macLocal op) ∧ effects ops (view s) = view s'

theorem Opens.trans (h : Opens s s₁) (h' : Opens s₁ s') : Opens s s' where
  mac := h'.mac.trans h.mac
  ops := by
    obtain ⟨ops, hlog, hsane, hview⟩ := h.ops
    obtain ⟨ops', hlog', hsane', hview'⟩ := h'.ops
    refine ⟨ops ++ ops', by rw [hlog', hlog, List.append_assoc], fun op hop => ?_, ?_⟩
    · rcases List.mem_append.mp hop with hop | hop
      · exact hsane op hop
      · exact h.mac ▸ hsane' op hop
    · rw [effects_append, hview, hview']

/-- Nothing but talk, and the same pipes. -/
structure Talked (s s' : Nrf b) : Prop where
  mac : s'.macLocal = s.macLocal
  mgmt : s'.mgmt.pipe = s.mgmt.pipe
  pipe : ∀ j, (s'.peers j).pipe = (s.peers j).pipe
  ops : ∃ ops, s'.log = s.log ++ ops ∧ ∀ op ∈ ops, Talks op

theorem Talked.of_same (hmac : s'.macLocal = s.macLocal) (hmgmt : s'.mgmt.pipe = s.mgmt.pipe)
    (hpipe : ∀ j, (s'.peers j).pipe = (s.peers j).pipe) (hlog : s'.log = s.log) : Talked s s' :=
  ⟨hmac, hmgmt, hpipe, [], by rw [hlog, List.append_nil], fun _ hop => absurd hop List.not_mem_nil⟩

theorem Talked.of_op (op : DriverOp) (hop : Talks op) (hmac : s'.macLocal = s.macLocal)
    (hmgmt : s'.mgmt.pipe = s.mgmt.pipe) (hpipe : ∀ j, (s'.peers j).pipe = (s.peers j).pipe)
    (hlog : s'.log = s.log ++ [op]) : Talked s s' := by
  refine ⟨hmac, hmgmt, hpipe, [op], hlog, fun op' hop' => ?_⟩
  rw [List.mem_singleton.mp hop']
  exact hop

theorem Talked.refl (s : Nrf b) : Talked s s := .of_same rfl rfl (fun _ => rfl) rfl

theorem Talked.trans (h : Talked s s₁) (h' : Talked s₁ s') : Talked s s' where
  mac := h'.mac.trans h.mac
  mgmt := h'.mgmt.trans h.mgmt
  pipe := fun j => (h'.pipe j).trans (h.pipe j)
  ops := by
    obtain ⟨ops, hlog, hops⟩ := h.ops
    obtain ⟨ops', hlog', hops'⟩ := h'.ops
    refine ⟨ops ++ ops', by rw [hlog', hlog, List.append_assoc], fun op hop => ?_⟩
    rcases List.mem_append.mp hop with hop | hop
    · exact hops op hop
    · exact hops' op hop

theorem Talked.opens (h : Talked s s') : Opens s s' := by
  obtain ⟨ops, hlog, htalks⟩ := h.ops
  refine ⟨h.mac, ops, hlog, fun op hop => (htalks op hop).sane _, ?_⟩
  rw [effects_of_talks htalks, view_congr h.mac h.mgmt h.pipe]

/-! ## A pass -/

variable {i : Fin b.connections}

theorem slot_le (i : Fin b.connections) : i.val + 1 ≤ 5 := by
  have hlt := i.isLt
  have hle := b.connections_le
  omega

theorem setPeer_talked {d : Nrf24.Nrf24Data} (h : d.pipe = (s.peers i).pipe) : Talked s (s.setPeer i d) := by
  refine .of_same rfl rfl (fun j => ?_) rfl
  by_cases hj : j = i
  · subst hj
    rw [setPeer_self, h]
  · rw [s.setPeer_of_ne d hj]

theorem writeKeepalive_talked {op : UInt8} {dst src : Mac} {frame : Nrf24.Payload} {o : Nrf24.Outcome} {n : Int}
    (h : s.writeKeepalive i op dst src frame o = .ok (n, s')) : Talked s s' := by
  obtain ⟨-, -, rfl⟩ := writeKeepalive_eq_ok.mp h
  exact .of_op (.write (i + 1) _ o) (slot_le i) rfl rfl (fun _ => rfl) rfl

theorem rxControl_talked {p : Nrf24.Payload} {r : Nrf24.Rx} (h : s.rxControl i p r = .ok s') : Talked s s' := by
  rcases rxControl_cases h with ⟨-, -, -, n, h⟩ | rfl | ⟨-, -, rfl⟩ | rfl
  · exact writeKeepalive_talked h
  · exact setPeer_talked rfl
  · exact .of_same rfl rfl (fun _ => rfl) rfl
  · exact .refl _

theorem readRawStep_talked {r : Nrf24.Rx} {p p' : Nrf24.Payload} {c : Option Nrf.Copy}
    (h : readRawStep i r (p, s) = .ok (c, p', s')) : Talked s s' := by
  have hreceived : Talked s (received i r s) :=
    (setPeer_talked (i := i) (d := { s.peers i with keepaliveAnchor := halTimeMs r.time }) rfl).trans
      (.of_op (.read (i + 1) r.pdu) (slot_le i) rfl rfl (fun _ => rfl) rfl)
  obtain ⟨-, -, ⟨-, -, h⟩ | ⟨-, d, hdata, rfl⟩ | ⟨-, -, -, -, rfl⟩⟩ := readRawStep_cases h
  · exact hreceived.trans (rxControl_talked h)
  · exact hreceived.trans (setPeer_talked (rxData_keepsTx hdata).pipe)
  · exact hreceived

theorem readRaw_talked {cs : List (Option Nrf.Copy)} (h : s.readRaw e i = .ok (cs, s')) : Talked s s' := by
  obtain ⟨-, p', h⟩ := readRaw_eq_ok.mp h
  exact exec_keeps (I := fun q : Nrf24.Payload × Nrf b => Talked s q.2)
    (fun _ _ _ _ hq h => hq.trans (readRawStep_talked h)) (.refl s) h

theorem writeRaw_talked {n : Int} (h : s.writeRaw e i = .ok (n, s')) : Talked s s' := by
  refine writeRaw_rule (I := Talked s) (fun t t' data o ht hphy => ?_) (fun t len seq ht => ?_) (.refl s) h
  · obtain ⟨-, rfl⟩ := phy_eq_ok.mp hphy
    exact ht.trans (.of_op (.write (i + 1) data o) (slot_le i) rfl rfl (fun _ => rfl) rfl)
  · exact ht.trans (setPeer_talked rfl)

theorem checkKeepalive_talked {n : Int} (h : s.checkKeepalive e i = .ok (n, s')) : Talked s s' := by
  rcases checkKeepalive_cases h with rfl | ⟨-, -, h⟩
  · exact .refl _
  · have hcount : Talked s (s.setPeer i { s.peers i with keepalive := ((s.peers i).keepalive + 1) % 256 }) :=
      setPeer_talked rfl
    exact hcount.trans (writeKeepalive_talked h)

theorem freePipe_opens (h : s.freePipe i = .ok s') : Opens s s' := by
  have hpeer := freePipe_peer h
  have hframe := Frame.freePipe h
  obtain ⟨-, heq⟩ := freePipe_eq_ok.mp h
  have hlog : s'.log = s.log ++ [.resetPipe (i + 1)] := by
    rw [heq]
    rfl
  refine ⟨hframe.macLocal, _, hlog, ?_, ?_⟩
  · intro op hop
    rw [List.mem_singleton.mp hop]
    exact ⟨Nat.succ_pos _, slot_le i⟩
  · rw [view_update hframe.macLocal hframe.mgmtPipe fun j hj => by rw [hframe.peers j hj], view_pipeOf, hpeer]
    exact dif_pos ⟨by omega, by have := slot_le i; omega⟩

theorem servePipe_opens (h : s.servePipe e i = .ok s') : Opens s s' := by
  obtain ⟨cs, s₁, n, s₂, err, s₃, hread, hwrite, hcheck, h⟩ := servePipe_cases h
  have hstamp : Talked s₂ { s₂ with rtStamp := halTimeMs (e.clock .rtStamp) % 256 } :=
    .of_same rfl rfl (fun _ => rfl) rfl
  have htalked : Talked s s₃ :=
    (readRaw_talked hread).trans ((writeRaw_talked hwrite).trans (hstamp.trans (checkKeepalive_talked hcheck)))
  rcases h with rfl | ⟨-, -, hfree⟩
  · exact htalked.opens
  · have hevent : Talked s₃ (s₃.queueDisconnected (s₃.peers i).mac) := .of_same rfl rfl (fun _ => rfl) rfl
    exact (htalked.trans hevent).opens.trans (freePipe_opens hfree)

theorem MgmtOp.talks {op : DriverOp} (h : MgmtOp e s op) : Talks op := by
  cases h with
  | read pdu => exact Nat.zero_le 5
  | request waits => exact Nat.zero_le 5
  | presence => exact Nat.zero_le 5
  | standby => trivial

theorem Tunes.talks {rs rs' : Nrf24.RunningState} {ch : Nrf24.Channel} (h : Tunes rs ch rs') :
    Talks (.setChannel ch) := by
  cases h with
  | mgmt => exact .inl rfl
  | raw => exact .inr rfl

theorem running_opens (h : s.running e = .ok s') : Opens s s' := by
  rcases running_cases h with ⟨ch, rs, htunes, rfl⟩ | ⟨-, h⟩ | ⟨-, h⟩
  · apply Talked.opens
    exact .of_op (.setChannel ch) (Tunes.talks htunes) rfl rfl (fun _ => rfl) rfl
  · obtain ⟨n, s₁, m, s₂, s₃, rs, hread, hwrite, hf₃, -, rfl⟩ := mgmtPass_cases h
    have hframe : Frame0 s s₃ := (Frame0.readMgmt hread).trans ((Frame0.writeMgmt hwrite).trans hf₃)
    obtain ⟨⟨ops, hlog, hops⟩, -⟩ := mgmtPass_ops h
    have htalked : Talked s { s₃ with runningState := rs } := {
      mac := hframe.macLocal
      mgmt := hframe.mgmtPipe
      pipe := fun j => by rw [hframe.peers]
      ops := ⟨ops, hlog, fun op hop => MgmtOp.talks (hops op hop)⟩ }
    exact htalked.opens
  · obtain ⟨rs, -, ⟨-, rfl⟩ | ⟨-, s₁, hserve, rfl⟩⟩ := rawPass_cases h
    · apply Talked.opens
      exact .of_same rfl rfl (fun _ => rfl) rfl
    · have hstate : Talked s { s with runningState := rs } := .of_same rfl rfl (fun _ => rfl) rfl
      have hnext : Talked s₁ { s₁ with sockIndex := s.sockIndex + 1 } := .of_same rfl rfl (fun _ => rfl) rfl
      exact hstate.opens.trans ((servePipe_opens hserve).trans hnext.opens)

/-! ## The calls -/

/-- The calls of a gateway after `hal_comm_init`; `hal_comm_accept` is what a thing calls. -/
def Gateway : Nrf24.Call → Prop
  | .socket _ _ | .close _ | .read _ _ | .write _ _ | .listen | .connect _ _ => True
  | .init _ _ | .deinit | .accept => False

theorem openPipe_of_none {ps : Pipes} {p : Fin 6} (h : ps p = none) (addr : Address) :
    ps.openPipe p.val addr = Function.update ps p (some addr) := by
  unfold Pipes.openPipe
  rw [dif_pos p.isLt]
  split
  · rfl
  · rename_i a ha
    cases h.symm.trans ha

theorem halCommSocket_opens {domain protocol : Int} {r : Ret} (h : s.halCommSocket domain protocol = .ok (r, s')) :
    Opens s s' := by
  rcases halCommSocket_cases h with ⟨-, rfl⟩ | ⟨-, hclosed, -, heq⟩ | ⟨-, -, -, i, s₁, halloc, -, heq⟩
  · exact (Talked.refl s').opens
  · have hlog : s'.log = s.log ++ [.setPipe 0 aaPipe0] := by rw [heq]
    have hzero : view s 0 = none := (view_zero s).trans (if_neg hclosed)
    refine ⟨by rw [heq], _, hlog, ?_, (openPipe_of_none hzero aaPipe0).trans ?_⟩
    · intro op hop
      rw [List.mem_singleton.mp hop]
      exact .inl ⟨rfl, rfl⟩
    · funext p
      by_cases hp : p = 0
      · rw [hp, Function.update_self, view_zero, heq]
        rfl
      · have hne : p.val ≠ 0 := fun hzero => hp (Fin.ext hzero)
        rw [Function.update_of_ne hp, heq]
        unfold view
        rw [if_neg hne, if_neg hne]
  · obtain ⟨hfree, -, rfl⟩ := allocPipe_eq_some halloc
    have hlog : s'.log = s.log ++ [.setPipe (i + 1) (accessAddress s.macLocal (i + 1))] := by rw [heq]
    have hmac : s'.macLocal = s.macLocal := by rw [heq]; rfl
    have hmgmt : s'.mgmt.pipe = s.mgmt.pipe := by rw [heq]; rfl
    have hpeers : s'.peers = (s.setPeer i { Nrf24.Nrf24Data.zero with pipe := i + 1 }).peers := by rw [heq]
    have hnone : view s (pipeOf i) = none := by rw [view_pipeOf, if_neg (not_not_intro hfree)]
    refine ⟨hmac, _, hlog, ?_, (openPipe_of_none hnone _).trans ?_⟩
    · intro op hop
      rw [List.mem_singleton.mp hop]
      exact .inr ⟨Nat.succ_pos _, slot_le i, rfl⟩
    · have hothers : ∀ j, j ≠ i → (s'.peers j).pipe = (s.peers j).pipe := by
        intro j hj
        rw [hpeers, s.setPeer_of_ne _ hj]
      have hheld : (s'.peers i).pipe ≠ -1 := by
        rw [hpeers, setPeer_self]
        show (i.val + 1 : Int) ≠ -1
        omega
      rw [view_update hmac hmgmt hothers, view_pipeOf, if_pos hheld, hmac]

/-- The disconnect packet goes out before the pipe is closed. -/
theorem halCommClose_opens {sockfd : Int} {r : Ret} (h : s.halCommClose e sockfd = .ok (r, s')) : Opens s s' := by
  have hsame : s' = s → Opens s s' := fun heq => heq ▸ (Talked.refl s).opens
  unfold halCommClose at h
  split at h
  · exact hsame (Prod.mk.inj (Except.ok.inj h)).2.symm
  · split at h
    · obtain ⟨i, -, hclose⟩ := bind_eq_ok.mp h
      split at hclose
      · obtain ⟨s₁, hdis, hrest⟩ := bind_eq_ok.mp hclose
        obtain ⟨s₂, hfree, hret⟩ := bind_eq_ok.mp hrest
        obtain ⟨-, rfl⟩ := Prod.mk.inj (Except.ok.inj hret)
        have htalked : Talked s s₁ := by
          split at hdis
          · obtain ⟨-, rfl⟩ := phy_eq_ok.mp hdis
            refine .of_op _ ?_ rfl rfl (fun _ => rfl) rfl
            exact slot_le i
          · cases hdis
            exact .refl s
        exact htalked.opens.trans (freePipe_opens hfree)
      · exact hsame (Prod.mk.inj (Except.ok.inj hclose)).2.symm
    · exact hsame (Prod.mk.inj (Except.ok.inj h)).2.symm

/-- A pass or none, and then what the call does itself. -/
theorem perform_opens {c : Nrf24.Call} {r : Ret} (hc : Gateway c) (h : c.perform e s = .ok (r, s')) : Opens s s' := by
  cases c with
  | init mac err => exact hc.elim
  | deinit => exact hc.elim
  | accept => exact hc.elim
  | socket domain protocol => exact halCommSocket_opens h
  | close sockfd => exact halCommClose_opens h
  | read sockfd count =>
      obtain ⟨s₁, hrun, h⟩ := halCommRead_cases h
      refine (running_opens hrun).trans ?_
      rcases h with ⟨-, rfl, -⟩ | ⟨-, -, -, -, rfl⟩ | ⟨i, -, -, -, -, rfl⟩
      · exact (Talked.refl s').opens
      · apply Talked.opens
        exact .of_same rfl rfl (fun _ => rfl) rfl
      · apply Talked.opens
        exact setPeer_talked rfl
  | write sockfd data =>
      obtain ⟨s₁, hrun, h⟩ := halCommWrite_cases h
      refine (running_opens hrun).trans ?_
      rcases h with ⟨-, rfl⟩ | ⟨i, -, -, -, -, -, rfl⟩
      · exact (Talked.refl s').opens
      · apply Talked.opens
        exact setPeer_talked rfl
  | listen =>
      obtain ⟨-, rfl⟩ := Prod.mk.inj (Except.ok.inj h)
      apply Talked.opens
      exact .of_same rfl rfl (fun _ => rfl) rfl
  | connect sockfd addr =>
      obtain ⟨s₁, hrun, h⟩ := halCommConnect_cases h
      refine (running_opens hrun).trans ?_
      rcases h with ⟨-, -, rfl⟩ | ⟨-, i, -, -, heq⟩
      · exact (Talked.refl s').opens
      · apply Talked.opens
        refine (setPeer_talked (i := i) (d := { s₁.peers i with
          mac := addr
          keepaliveAnchor := halTimeMs (e.clock .anchor)
          keepalive := 1 }) rfl).trans (.of_same ?_ ?_ (fun j => ?_) ?_)
        · rw [heq]
        · rw [heq]
          rfl
        · rw [heq]
        · rw [heq]

/-! ## Runs of the stack -/

section Runs
variable {is : List (Nrf24.Call × Env)} {os : List Nrf24.Out} {ch : Option Nrf24.Channel}

theorem gateway_step {ce : Nrf24.Call × Env} {o : Nrf24.Out} (hc : Gateway ce.1) (h : Nrf24.step ce s = .ok (o, s')) :
    s'.macLocal = s.macLocal ∧ (∀ op ∈ o.ops, Sane s.macLocal op) ∧ effects o.ops (view s) = view s' := by
  obtain ⟨hperf, hlog⟩ := Nrf24.step_eq_ok.mp h
  obtain ⟨hmac, ops, hops, hsane, hview⟩ := perform_opens hc hperf
  rw [List.nil_append] at hops
  rw [hlog, hops]
  exact ⟨hmac, hsane, hview⟩

theorem gateway_run (his : ∀ ce ∈ is, Gateway ce.1) (h : exec Nrf24.step is s = .ok (os, s')) :
    s'.macLocal = s.macLocal ∧ (∀ op ∈ os.flatMap Nrf24.Out.ops, Sane s.macLocal op) ∧
      effects (os.flatMap Nrf24.Out.ops) (view s) = view s' := by
  induction is generalizing s os with
  | nil =>
      obtain ⟨rfl, rfl⟩ := exec_nil_ok.mp h
      exact ⟨rfl, fun _ hop => absurd hop List.not_mem_nil, rfl⟩
  | cons ce is ih =>
      obtain ⟨o, s₁, os₁, h₁, h₂, rfl⟩ := exec_cons_ok.mp h
      obtain ⟨hmac, hsane, hview⟩ := gateway_step (his ce List.mem_cons_self) h₁
      obtain ⟨hmac', hsane', hview'⟩ := ih (fun ce' hce' => his ce' (List.mem_cons_of_mem _ hce')) h₂
      rw [hmac] at hmac' hsane'
      refine ⟨hmac', fun op hop => ?_, ?_⟩
      · rw [List.flatMap_cons] at hop
        rcases List.mem_append.mp hop with hop | hop
        · exact hsane op hop
        · exact hsane' op hop
      · rw [List.flatMap_cons, effects_append, hview, hview']

theorem tuned_run (hs : s.Tuned ch) (h : exec Nrf24.step is s = .ok (os, s')) :
    s'.Tuned (Nrf24.tuned ch (os.flatMap Nrf24.Out.ops)) := by
  induction is generalizing s os ch with
  | nil =>
      obtain ⟨rfl, rfl⟩ := exec_nil_ok.mp h
      exact hs
  | cons ce is ih =>
      obtain ⟨o, s₁, os₁, h₁, h₂, rfl⟩ := exec_cons_ok.mp h
      rw [List.flatMap_cons, Nrf24.tuned_append]
      exact ih (Nrf24.step_channel hs h₁).2 h₂

end Runs

/-! ## The radio beside it -/

section Beside
variable {mac : Mac} {op : DriverOp} {ops : List DriverOp} {i : Receiver.Input} {is : List Receiver.Input} {t : Inbox}
  {ch : Option Nrf24.Channel}

theorem toNat_ofNat_pipe {pipe : Nat} (h : pipe ≤ 5) : (UInt8.ofNat pipe).toNat = pipe := by
  rw [UInt8.toNat_ofNat']
  omega

theorem int8_pipe {pipe : Nat} (h : pipe ≤ 5) : int8 pipe = pipe := by
  unfold int8
  rw [Int.bmod_def]
  omega

/-- What an operation becomes is sound. -/
theorem Carries.sound (h : Carries op i) (hop : Sane mac op) : Sound ((mac.sub 3 5).read 1 4) i := by
  cases h with
  | setPipe pipe aa =>
      refine ⟨fun hpos => ?_, trivial⟩
      rcases hop with ⟨rfl, -⟩ | ⟨-, -, rfl⟩
      · exact absurd hpos (by decide)
      · exact upper_accessAddress mac pipe
  | resetPipe pipe => exact ⟨trivial, trivial⟩
  | setChannel ch => exact ⟨trivial, trivial⟩
  | setStandby => exact ⟨trivial, trivial⟩
  | read pipe pdu => exact ⟨trivial, (by decide : payloadSize ≤ (32 : UInt16).toNat)⟩
  | write pipe data o acked stack =>
      refine ⟨?_, trivial⟩
      show (UInt8.ofNat pipe).toNat < 6
      rw [toNat_ofNat_pipe hop]
      exact Nat.lt_succ_of_le hop

theorem Interleaves.sound (h : Interleaves ops is) (hops : ∀ op ∈ ops, Sane mac op) :
    ∀ i ∈ is, Sound ((mac.sub 3 5).read 1 4) i := by
  induction h with
  | done => exact fun _ hi => absurd hi List.not_mem_nil
  | air channel addr payload rest ih => exact List.forall_mem_cons.mpr ⟨⟨trivial, trivial⟩, ih hops⟩
  | miss pipe rest ih =>
      exact List.forall_mem_cons.mpr ⟨⟨trivial, (by decide : payloadSize ≤ (32 : UInt16).toNat)⟩, ih hops⟩
  | op carries rest ih =>
      obtain ⟨hop, hrest⟩ := List.forall_mem_cons.mp hops
      exact List.forall_mem_cons.mpr ⟨carries.sound hop, ih hrest⟩

theorem read_kept (p : UInt8) (len : UInt16) (t : Inbox) :
    (t.step (.read p len)).2.pipes = t.pipes ∧ (t.step (.read p len)).2.channel = t.channel := by
  obtain ⟨⟨q, hq⟩, -⟩ := Inbox.read_settings p len t
  unfold Inbox.step
  dsimp only
  rw [hq]
  exact ⟨rfl, rfl⟩

theorem step_calls (c : Call) (t : Inbox) :
    (t.step (.call c)).2.pipes = t.pipes.step c ∧ (t.step (.call c)).2.channel = c.tunes t.channel := ⟨rfl, rfl⟩

theorem Carries.pipes (h : Carries op i) (hop : Sane mac op) (t : Inbox) :
    (t.step i).2.pipes = effect op t.pipes := by
  cases h with
  | setPipe pipe aa =>
      have hle : pipe ≤ 5 := by
        rcases hop with ⟨rfl, -⟩ | ⟨-, hle, -⟩
        · exact Nat.zero_le 5
        · exact hle
      rw [(step_calls _ t).1, Pipes.step, toNat_ofNat_pipe hle]
      rfl
  | resetPipe pipe =>
      rw [(step_calls _ t).1, Pipes.step, int8_pipe hop.2]
      rfl
  | setChannel ch => exact (step_calls _ t).1
  | setStandby => exact (step_calls _ t).1
  | read pipe pdu => exact (read_kept _ _ t).1
  | write pipe data o acked stack => exact (step_calls _ t).1

/-- The inbox is on the channel that was set, where one was. -/
def OnSet (ch : Option Nrf24.Channel) (t : Inbox) : Prop := ∀ c, ch = some c → t.channel = BitVec.ofNat 8 c.value

theorem OnSet.congr {t' : Inbox} (ht : OnSet ch t) (h : t'.channel = t.channel) : OnSet ch t' :=
  fun c hc => h.trans (ht c hc)

theorem Carries.onSet (h : Carries op i) (hop : Sane mac op) (ht : OnSet ch t) :
    OnSet (Nrf24.tuned ch [op]) (t.step i).2 := by
  cases h with
  | setChannel c =>
      intro c' hc'
      obtain rfl : c = c' := Option.some.inj hc'
      rw [(step_calls _ t).2, Call.tunes]
      rcases hop with rfl | rfl
      · exact if_pos (by decide)
      · exact if_pos (by decide)
  | read pipe pdu => exact ht.congr (read_kept _ _ t).2
  | setPipe pipe aa => exact ht.congr (step_calls _ t).2
  | resetPipe pipe => exact ht.congr (step_calls _ t).2
  | setStandby => exact ht.congr (step_calls _ t).2
  | write pipe data o acked stack => exact ht.congr (step_calls _ t).2

/-- The inbox follows the operations. -/
theorem Interleaves.follows (h : Interleaves ops is) (hops : ∀ op ∈ ops, Sane mac op) (ht : OnSet ch t) :
    (final Inbox.step is t).pipes = effects ops t.pipes ∧ OnSet (Nrf24.tuned ch ops) (final Inbox.step is t) := by
  induction h generalizing t ch with
  | done => exact ⟨rfl, ht⟩
  | air channel addr payload rest ih =>
      obtain ⟨q, hq⟩ := Inbox.packet_settings channel addr payload t
      rw [final, hq]
      exact ih hops ht
  | miss pipe rest ih =>
      obtain ⟨hpipes, hchannel⟩ := read_kept pipe 32 t
      obtain ⟨hfinal, hset⟩ := ih hops (ht.congr hchannel)
      rw [final]
      exact ⟨hfinal.trans (by rw [hpipes]), hset⟩
  | op carries rest ih =>
      obtain ⟨hop, hrest⟩ := List.forall_mem_cons.mp hops
      obtain ⟨hfinal, hset⟩ := ih hrest (carries.onSet hop ht)
      rw [final, Nrf24.tuned_cons]
      exact ⟨hfinal.trans (by rw [carries.pipes hop]; rfl), hset⟩

end Beside

/-! ## The two together -/

/-- The radio is as the stack believes it to be. -/
structure Attached (s : Nrf b) (r : Receiver) : Prop where
  mgmtPipe : 0 ∈ r.driver.chip.enabled ↔ s.mgmt.pipe = 0
  mgmtAddress : s.mgmt.pipe = 0 → r.driver.chip.receives 0 = aaPipe0
  rawPipe : ∀ i : Fin b.connections, i.val + 1 ∈ r.driver.chip.enabled ↔ (s.peers i).pipe = i + 1
  rawAddress : ∀ i : Fin b.connections, (s.peers i).pipe = i + 1 →
    r.driver.chip.receives (i + 1) = accessAddress s.macLocal (i + 1)
  noPipe : ∀ p : Fin 6, b.connections < p.val → p.val ∉ r.driver.chip.enabled
  mgmtChannel : s.runningState = .mgmt → r.driver.chip.channel = BitVec.ofNat 8 channelMgmt.value
  rawChannel : s.runningState = .raw → r.driver.chip.channel = BitVec.ofNat 8 channelRaw.value

theorem attached_of_refines {high : List UInt8} {r : Receiver} {t : Inbox} {ch : Option Nrf24.Channel}
    (h : Refines high r t) (hnum : s.Numbered) (hpipes : t.pipes = view s) (hset : OnSet ch t) (hs : s.Tuned ch) :
    Attached s r := by
  have henabled (p : Fin 6) : p.val ∈ r.driver.chip.enabled ↔ (view s p).isSome := by
    rw [h.addressed.enabled, hpipes]
  have hreceives {p : Fin 6} {a : Address} (ha : view s p = some a) : r.driver.chip.receives p.val = a :=
    h.addressed.receives p a (by rw [hpipes, ha])
  have hheld (i : Fin b.connections) : (s.peers i).pipe = i + 1 ↔ (s.peers i).pipe ≠ -1 := by
    have := hnum i
    omega
  refine ⟨?_, fun hopen => ?_, fun i => ?_, fun i hi => ?_, fun p hp => ?_, fun hstate => ?_, fun hstate => ?_⟩
  · have hzero := henabled 0
    rw [view_zero] at hzero
    exact hzero.trans (by split <;> simp [*])
  · exact hreceives (p := 0) ((view_zero s).trans (if_pos hopen))
  · have hslot := henabled (pipeOf i)
    rw [view_pipeOf] at hslot
    exact (hslot.trans (by split <;> simp [*])).trans (hheld i).symm
  · exact hreceives (p := pipeOf i) ((view_pipeOf s i).trans (if_pos ((hheld i).mp hi)))
  · have hnone : view s p = none := by
      unfold view
      rw [if_neg (Nat.ne_of_gt (Nat.zero_lt_of_lt hp)), if_neg]
      rintro ⟨i, hi, -⟩
      have := i.isLt
      omega
    rw [henabled, hnone]
    exact Bool.false_ne_true
  · rw [h.channel]
    unfold Nrf.Tuned at hs
    rw [hstate] at hs
    exact hset _ hs
  · rw [h.channel]
    unfold Nrf.Tuned at hs
    rw [hstate] at hs
    exact hset _ hs

section Together
variable {mac : Mac} {e₀ : Env} {is : List (Nrf24.Call × Env)} {os : List Nrf24.Out} {js : List Receiver.Input}

/-- What the stack does from the start, where the driver is opened with the address `mac`. -/
theorem gateway_runs (his : ∀ ce ∈ is, Gateway ce.1)
    (hrun : exec Nrf24.step ((.init mac 0, e₀) :: is) (Nrf.boot b) = .ok (os, s)) :
    s.macLocal = mac ∧ (∀ op ∈ os.flatMap Nrf24.Out.ops, Sane mac op) ∧
      effects (os.flatMap Nrf24.Out.ops) Pipes.none = view s := by
  obtain ⟨o, s₁, os₁, h₁, h₂, rfl⟩ := exec_cons_ok.mp hrun
  obtain ⟨hinit, hops⟩ := Nrf24.step_eq_ok.mp h₁
  obtain rfl : { Nrf.boot b with driverIndex := 0, macLocal := mac } = s₁ := (Prod.mk.inj (Except.ok.inj hinit)).2
  have hnone : view { Nrf.boot b with driverIndex := 0, macLocal := mac } = Pipes.none := by
    funext p
    rcases pipe_cases b p with rfl | ⟨i, rfl⟩ | hnone
    · exact (view_zero _).trans (if_neg (show ¬ (-1 : Int) = 0 by decide))
    · exact (view_pipeOf _ i).trans (if_neg (not_not_intro rfl))
    · exact hnone _
  obtain ⟨hmac, hsane, hview⟩ := gateway_run his h₂
  rw [List.flatMap_cons, show o.ops = [] from hops, List.nil_append]
  rw [hnone] at hview
  exact ⟨hmac, hsane, hview⟩

/-- In every run of a gateway, with anything on the air and whatever the chip held before, the driver never faults, and
in the end the chip listens on the pipes that the stack believes to be open, with the addresses that it has announced,
and on the channel that it works on. -/
theorem gateway_attached (mac : Mac) (e₀ : Env) (his : ∀ ce ∈ is, Gateway ce.1)
    (hrun : exec Nrf24.step ((.init mac 0, e₀) :: is) (Nrf.boot b) = .ok (os, s))
    (hjs : Interleaves (os.flatMap Nrf24.Out.ops) js) (c : Chip) (opened : Address) :
    ∃ os' r, exec Receiver.step js (Receiver.init c opened) = .ok (os', r) ∧ Attached s r := by
  obtain ⟨-, hsane, hview⟩ := gateway_runs his hrun
  obtain ⟨r, hok, hrefines⟩ := exec_refines_inbox c opened fun i hi => (hjs.sound hsane i hi).1
  have hreach : Nrf24.Reachable s := ⟨_, os, hrun⟩
  have hstart : OnSet none Inbox.start := by
    intro c hc
    cases hc
  have htuned : s.Tuned (Nrf24.tuned none (os.flatMap Nrf24.Out.ops)) := tuned_run (s := Nrf.boot b) trivial hrun
  obtain ⟨hpipes, hset⟩ := hjs.follows hsane hstart
  exact ⟨_, r, hok, attached_of_refines hrefines hreach.pipesInv.numbered (hpipes.trans hview) hset htuned⟩

end Together

/-! ## A run -/

def carried : DriverOp → Receiver.Input
  | .setPipe pipe aa => .call (.setPipe (UInt8.ofNat pipe) aa)
  | .resetPipe pipe => .call (.resetPipe pipe)
  | .setChannel ch => .call (.setChannel (UInt8.ofNat ch.value) ch.ack)
  | .setStandby => .call .setStandby
  | .read pipe _ => .read (UInt8.ofNat pipe) 32
  | .write pipe data o => .call (.write (UInt8.ofNat pipe) data o.ok (Buf.zero 5))

theorem carries_carried (op : DriverOp) : Carries op (carried op) := by
  cases op with
  | setPipe pipe aa => exact .setPipe pipe aa
  | resetPipe pipe => exact .resetPipe pipe
  | setChannel ch => exact .setChannel ch
  | setStandby => exact .setStandby
  | read pipe pdu => exact .read pipe pdu
  | write pipe data o => exact .write pipe data o _ _

theorem interleaves_carried (ops : List DriverOp) : Interleaves ops (ops.map carried) := by
  induction ops with
  | nil => exact .done
  | cons op ops ih => exact .op (carries_carried op) ih

theorem Interleaves.append {ops ops' : List DriverOp} {is is' : List Receiver.Input} (h : Interleaves ops is)
    (h' : Interleaves ops' is') : Interleaves (ops ++ ops') (is ++ is') := by
  induction h with
  | done => exact h'
  | air channel addr payload rest ih => exact .air channel addr payload ih
  | miss pipe rest ih => exact .miss pipe ih
  | op carries rest ih => exact .op carries ih

theorem gateway_opening : ∀ ce ∈ Nrf24.opening.tail, Gateway ce.1 := by
  simp only [Nrf24.opening, List.tail_cons, List.forall_mem_cons]
  exact ⟨trivial, trivial, trivial, trivial, trivial, fun _ h => absurd h List.not_mem_nil⟩

/-- The radio is opened with the management socket and one pipe. -/
theorem gateway_attached_opening : ∃ os s, exec Nrf24.step Nrf24.opening (Nrf.boot .linux) = .ok (os, s) ∧
    ∃ os' r, exec Receiver.step ((os.flatMap Nrf24.Out.ops).map carried) (Receiver.init blank (Buf.zero 5)) =
      .ok (os', r) ∧ Attached s r :=
  ⟨_, _, rfl, gateway_attached Nrf24.gatewayMac (.still 0) gateway_opening rfl (interleaves_carried _) blank
    (Buf.zero 5)⟩

end KnotHal.Radio
