import KnotHal.Radio.Addressing

/-!
# What goes on the air

A transmission is queued by `nrf24l01_ptx_data`, sent by a pulse on CE, and flushed by `nrf24l01_ptx_wait_datasent`
where it fails; the other functions of the driver leave the queue alone.

* `Chip.traffic` : what is queued and what has been sent, with its simp set;
* `ptxData_sends`, `ptxWaitDatasent_sent`, `ptxWaitDatasent_lost` : the stages of a transmission;
* `Idle`, `step_clean` : what holds between two operations, and what each of them does;
* `no_leak` : in every run each payload is sent by the call it was given to, and to the address of its pipe.
-/

namespace KnotHal.Radio

open Machine

variable {c c' : Chip} {d d' : Driver} {pipe r : Nat} {payload : List UInt8}

/-! ## The queue and the air -/

/-- What is queued, and what has been sent. -/
def Chip.traffic (c : Chip) : List (List UInt8) × List (Address × List UInt8) := (c.txFifo, c.air)

section Traffic

@[simp] theorem traffic_dataWrite (r : Nat) (bytes : List UInt8) (c : Chip) :
    (c.dataWrite r bytes).traffic = c.traffic := rfl

@[simp] theorem traffic_regWrite (r : Nat) (value : BitVec 8) (c : Chip) :
    (c.regWrite r value).traffic = c.traffic := by
  unfold Chip.regWrite
  split <;> rfl

@[simp] theorem traffic_disable (c : Chip) : c.disable.traffic = c.traffic := rfl

@[simp] theorem traffic_setAddressPipe (reg : Nat) (addr : Address) (c : Chip) :
    (c.setAddressPipe reg addr).traffic = c.traffic := rfl

theorem traffic_flushTx (h : c.txFifo = []) : c.flushTx.traffic = c.traffic := by
  unfold Chip.traffic
  rw [h]
  rfl

@[simp] theorem traffic_setRetr (pipe : Nat) (c : Chip) : (c.setRetr pipe).traffic = c.traffic := by
  unfold Chip.setRetr
  split <;> simp

@[simp] theorem traffic_listenForAck (addr : Address) (c : Chip) : (c.listenForAck addr).traffic = c.traffic := by
  unfold Chip.listenForAck
  split <;> simp

@[simp] theorem traffic_setPtx (pipe : Nat) (stack : Address) (c : Chip) :
    (c.setPtx pipe stack).2.traffic = c.traffic := by
  unfold Chip.setPtx
  split <;> simp

theorem traffic_retune (h : c.txFifo = []) (ch : BitVec 8) : (c.retune ch).traffic = c.traffic := by
  unfold Chip.retune
  split
  · have hfifo : (c.regWrite Reg.status (stRxDr ||| stTxDs ||| stMaxRt)).txFifo = [] := by
      have hkept := traffic_regWrite Reg.status (stRxDr ||| stTxDs ||| stMaxRt) c
      exact (Prod.mk.inj hkept).1.trans h
    dsimp only
    rw [traffic_regWrite, traffic_flushTx hfifo, traffic_regWrite]
  · rfl

theorem traffic_setChannel (h : c.txFifo = []) (ch : BitVec 8) (ack : Bool) :
    (c.setChannel ch ack).2.traffic = c.traffic := by
  have htune : (c.disable.retune ch).traffic = c.traffic := traffic_retune (c := c.disable) h ch
  unfold Chip.setChannel
  dsimp only
  generalize (if c.regRead Reg.rfSetup &&& rfDrMask = dr2Mbps then chMax2Mbps else chMax1Mbps) = max
  split
  · rfl
  · split <;> simp [htune]

@[simp] theorem traffic_writePipe (pipe : Nat) (value : BitVec 8) (addr : Address) (c : Chip) :
    (Driver.writePipe pipe value addr c).traffic = c.traffic := by
  unfold Driver.writePipe
  dsimp only
  split <;> simp

theorem traffic_openPipe (pipe : Nat) (addr : Address) (d : Driver) :
    (d.openPipe pipe addr).2.chip.traffic = d.chip.traffic := by
  unfold Driver.openPipe
  dsimp only
  split
  · rfl
  · split
    · split <;> simp
    · rfl

theorem traffic_closePipe (pipe : Int) (d : Driver) : (d.closePipe pipe).2.chip.traffic = d.chip.traffic := by
  unfold Driver.closePipe
  split
  · rfl
  · split <;> simp

theorem traffic_enable (h : ¬ c.Ptx) (acked : Bool) : (c.enable acked).traffic = c.traffic := by
  have hno : ¬ ({ c with ce := true } : Chip).Ptx := h
  unfold Chip.enable
  dsimp only
  rw [if_neg hno]
  rfl

theorem traffic_setPrx (d : Driver) : d.setPrx.chip.traffic = d.chip.traffic := by
  unfold Driver.setPrx
  dsimp only
  rw [traffic_enable, traffic_regWrite, traffic_regWrite]
  · split <;> simp
  · rw [ptx_iff, regRead_regWrite (by decide), bits_or]
    exact fun hptx => hptx.2 (Or.inr (by decide))

end Traffic

/-! ## A transmission -/

/-- The payloads that `nrf24l01_ptx_data` takes. -/
def Fits (payload : List UInt8) : Prop := 0 < payload.length ∧ payload.length ≤ payloadSize

instance (payload : List UInt8) : Decidable (Fits payload) := inferInstanceAs (Decidable (_ ∧ _))

section Transmission
variable {k : Nat}

theorem stTxFull_eq : stTxFull = 1#8 <<< 0 := rfl

theorem mem_status_iff (hk : k ≠ 0) : k ∈ bits (c.regRead Reg.status) ↔ k ∈ bits c.flags := by
  refine ⟨fun hmem => ?_, mem_status hk⟩
  have hread : c.regRead Reg.status =
      c.flags &&& ~~~(1#8 <<< 0) ||| (if c.txFifo.length < 3 then 0#8 else 1#8 <<< 0) := rfl
  rw [hread, bits_or, bits_clear] at hmem
  rcases hmem with hmem | hmem
  · exact hmem.1
  · split at hmem
    · rw [bits_zero] at hmem
      exact hmem.elim
    · exact absurd ((getLsbD_one_shiftLeft 0 k).mp hmem).1 hk

theorem flags_regWrite_status (value : BitVec 8) (c : Chip) :
    (c.regWrite Reg.status value).flags = c.flags &&& ~~~(value &&& (stRxDr ||| stTxDs ||| stMaxRt)) := by
  unfold Chip.regWrite
  rw [if_pos rfl]
  unfold Chip.flags
  rw [get_dataWrite]

theorem setPtx_flags (hp : pipe ≤ pipeMax) (stack : Address) (c : Chip) : 4 ∉ bits (c.setPtx pipe stack).2.flags := by
  unfold Chip.setPtx
  rw [if_neg (Nat.not_lt.mpr hp)]
  dsimp only
  generalize Chip.setAddressPipe Reg.txAddr _ _ = c₁
  -- only the write to STATUS touches the flags
  have hkeep (value : BitVec 8) (c₂ : Chip) : (c₂.regWrite Reg.config value).flags = c₂.flags := by
    unfold Chip.flags
    rw [((Keeps.refl _ _).regWrite (W := [Reg.config]) List.mem_cons_self _) _ (by decide)]
  rw [hkeep, flags_regWrite_status, bits_and, bits_not]
  exact fun hmem => hmem.2.2 (by decide)

/-- A payload that fits an empty queue is sent at once, and is no longer queued where it was acknowledged. -/
theorem ptxData_sends (hptx : c.Ptx) (hfifo : c.txFifo = []) (hfit : Fits payload) (acked : Bool) :
    (c.ptxData payload acked).1 = 0 ∧
      (c.ptxData payload acked).2.traffic = (if acked then [] else [payload], c.air ++ [(c.file Reg.txAddr, payload)]) ∧
      (c.ptxData payload acked).2.flags = c.flags ||| (if acked then stTxDs else stMaxRt) := by
  have hlen : ¬ (payload.length = 0 ∨ payloadSize < payload.length) := by
    obtain ⟨hpos, hle⟩ := hfit
    omega
  have hpush : c.pushTx payload = { c with txFifo := [payload] } := by
    unfold Chip.pushTx
    rw [hfifo]
    rfl
  have hroom : Chip.status { c with txFifo := [payload] } &&& stTxFull = 0 := by
    have hread : Chip.status { c with txFifo := [payload] } = c.flags &&& ~~~(1#8 <<< 0) ||| 0#8 := rfl
    rw [hread, BitVec.or_zero, stTxFull_eq, and_one_shiftLeft_eq_zero_iff (by decide), bits_clear]
    exact fun hmem => hmem.2 rfl
  have hon : ({ c with txFifo := [payload], ce := true } : Chip).Ptx := hptx
  unfold Chip.ptxData
  rw [if_neg hlen, hpush]
  dsimp only
  rw [if_pos hroom]
  unfold Chip.enable
  dsimp only
  rw [if_pos hon]
  cases acked with
  | true => exact ⟨rfl, rfl, flags_raise stTxDs _⟩
  | false => exact ⟨rfl, rfl, flags_raise stMaxRt _⟩

theorem ptxWaitDatasent_sent (hds : 5 ∈ bits c.flags) (hmax : 4 ∉ bits c.flags) : c.ptxWaitDatasent = .ok (0, c) := by
  unfold Chip.ptxWaitDatasent
  rw [if_neg, if_pos]
  · rw [stTxDs_eq, ne_eq, and_one_shiftLeft_eq_zero_iff (by decide), not_not]
    exact (mem_status_iff (by decide)).mpr hds
  · rw [stMaxRt_eq, ne_eq, and_one_shiftLeft_eq_zero_iff (by decide), not_not]
    exact fun hmem => hmax ((mem_status_iff (by decide)).mp hmem)

theorem ptxWaitDatasent_lost (hmax : 4 ∈ bits c.flags) : c.ptxWaitDatasent = .ok (-1, c.flushTx) := by
  unfold Chip.ptxWaitDatasent
  rw [if_pos]
  rw [stMaxRt_eq, ne_eq, and_one_shiftLeft_eq_zero_iff (by decide), not_not]
  exact (mem_status_iff (by decide)).mpr hmax

theorem ptxData_refuses (h : ¬ Fits payload) (acked : Bool) : c.ptxData payload acked = (-1, c) := by
  apply if_pos
  unfold Fits at h
  omega

/-- From `nrf24l01_ptx_data` to the end of the polling. -/
theorem transmission_ends (hptx : c.Ptx) (hfifo : c.txFifo = []) (hmax : 4 ∉ bits c.flags) (payload : List UInt8)
    (acked : Bool) :
    ∃ err done, (if (c.ptxData payload acked).1 = 0 then (c.ptxData payload acked).2.ptxWaitDatasent
        else .ok (c.ptxData payload acked)) = .ok (err, done) ∧ Keeps c done [Reg.status] ∧
      done.traffic = ([], c.air ++ if Fits payload then [(c.file Reg.txAddr, payload)] else []) ∧
      err = (if Fits payload ∧ acked = true then 0 else -1) ∧ (c.ptxData payload acked).1 ≠ 1 := by
  have hkeep := keeps_ptxData payload acked c
  by_cases hfit : Fits payload
  · obtain ⟨hst, htraffic, hflags⟩ := ptxData_sends hptx hfifo hfit acked
    rw [if_pos hst, if_pos hfit, hst]
    generalize (c.ptxData payload acked).2 = sent at hkeep htraffic hflags ⊢
    cases acked with
    | true =>
        have hds : 5 ∈ bits sent.flags := by
          rw [hflags, bits_or]
          exact Or.inr (by decide)
        have hno : 4 ∉ bits sent.flags := by
          rw [hflags, bits_or]
          exact fun hmem => hmem.elim hmax (by decide)
        exact ⟨0, sent, ptxWaitDatasent_sent hds hno, hkeep, htraffic, (if_pos ⟨hfit, rfl⟩).symm, by decide⟩
    | false =>
        have hlost : 4 ∈ bits sent.flags := by
          rw [hflags, bits_or]
          exact Or.inr (by decide)
        have hair : sent.air = c.air ++ [(c.file Reg.txAddr, payload)] := (Prod.mk.inj htraffic).2
        refine ⟨-1, sent.flushTx, ptxWaitDatasent_lost hlost, hkeep.flushTx, ?_, ?_, by decide⟩
        · unfold Chip.traffic
          rw [← hair]
          rfl
        · rw [if_neg fun h => Bool.false_ne_true h.2]
  · have hno : ¬ (-1 : Int) = 0 := by decide
    have hone : (-1 : Int) ≠ 1 := by decide
    rw [ptxData_refuses hfit, if_neg hfit, if_neg hno, if_neg fun h => hfit h.1]
    refine ⟨-1, c, rfl, Keeps.refl c _, ?_, rfl, hone⟩
    unfold Chip.traffic
    rw [hfifo, List.append_nil]

end Transmission

/-! ## Between the operations -/

/-- What holds between two operations: nothing is queued, and pipe 0, where it is open, has its own address. -/
structure Idle (d : Driver) : Prop where
  wide : d.chip.Wide
  powered : d.chip.Powered
  fifo : d.chip.txFifo = []
  home : 0 ∈ d.chip.enabled → d.pipe0Open = true ∧ d.chip.file Reg.rxAddrP0 = d.pipe0Address

/-- The open pipes stay open, and keep their addresses. -/
def SameOpen (c c' : Chip) : Prop := ∀ p ∈ c.enabled, p ≤ pipeMax → p ∈ c'.enabled ∧ c'.receives p = c.receives p

section Operations

theorem idle_setPrx (hwide : d.chip.Wide) (hpow : d.chip.Powered) (hfifo : d.chip.txFifo = []) : Idle d.setPrx := by
  have hl := setPrx_listens hwide
  have htraffic := traffic_setPrx d
  refine ⟨hl.keeps.wide (by decide) hwide, hl.powered hpow, ?_, fun hmem => ?_⟩
  · exact (Prod.mk.inj htraffic).1.trans hfifo
  · rw [hl.open_eq, hl.address_eq]
    cases hopen : d.pipe0Open with
    | true => exact ⟨rfl, (hl.opened hopen).1⟩
    | false =>
        rw [hl.closed hopen] at hmem
        exact absurd rfl hmem.2

/-- Whatever a function did to the address of pipe 0, `nrf24l01_set_prx` brings it back. -/
theorem setPrx_sameOpen {W : List Nat} (h : Idle d) (hkeep : Keeps d.chip c W) (hwide : c.Wide)
    (hW : ∀ r ∈ W, r < Reg.rxAddrPipe 1 ∨ Reg.txAddr ≤ r) (hen : d.chip.enabled ⊆ c.enabled) :
    SameOpen d.chip { d with chip := c }.setPrx.chip := by
  intro p hmem hp
  have hl := setPrx_listens (d := { d with chip := c }) hwide
  have hc : p ∈ c.enabled := hen hmem
  by_cases hzero : p = 0
  · subst hzero
    obtain ⟨hopen, haddr⟩ := h.home hmem
    obtain ⟨hfile, hsame⟩ := hl.opened hopen
    rw [hsame]
    exact ⟨hc, hfile.trans haddr.symm⟩
  · have hpos : 1 ≤ p := Nat.pos_of_ne_zero hzero
    constructor
    · by_cases hopen : d.pipe0Open = true
      · rw [(hl.opened hopen).2]
        exact hc
      · rw [hl.closed (Bool.eq_false_of_not_eq_true hopen)]
        exact ⟨hc, hzero⟩
    · have hback : { d with chip := c }.setPrx.chip.receives p = c.receives p :=
        hl.keeps.receives (by decide) (rxAddrPipe_not_mem 1 hpos hp (by decide))
      have hthere : c.receives p = d.chip.receives p :=
        hkeep.receives (rxAddrPipe_not_mem 1 (Nat.le_refl 1) (by decide) hW) (rxAddrPipe_not_mem 1 hpos hp hW)
      exact hback.trans hthere

/-- What an operation sends: the payload that it was given, to the address of its pipe. -/
def Call.sends (d : Driver) : Call → List (Address × List UInt8)
  | .write pipe payload _ _ => if Fits payload then [(d.chip.receives pipe.toNat, payload)] else []
  | .setPipe _ _ | .resetPipe _ | .setChannel _ _ | .setStandby | .otherCommand => []

/-- The operations that change an address or close a pipe. -/
def Call.Readdresses : Call → Prop
  | .setPipe _ _ | .resetPipe _ => True
  | .setChannel _ _ | .setStandby | .otherCommand | .write _ _ _ _ => False

def Call.InRange : Call → Prop
  | .write pipe _ _ _ => pipe.toNat ≤ pipeMax
  | .setPipe _ _ | .resetPipe _ | .setChannel _ _ | .setStandby | .otherCommand => True

/-- An operation that leaves nothing behind. -/
structure Clean (c : Call) (d : Driver) (out : Out) (d' : Driver) : Prop where
  fifo : d'.chip.txFifo = []
  air : d'.chip.air = d.chip.air ++ c.sends d
  room : ∀ pipe payload acked stack, c = .write pipe payload acked stack →
    ((d.chip.setPtx pipe.toNat stack).2.ptxData payload acked).1 ≠ 1
  ret : ∀ pipe payload acked stack, c = .write pipe payload acked stack →
    (out.ret = payload.length ↔ Fits payload ∧ acked = true)
  pipes : ¬ c.Readdresses → SameOpen d.chip d'.chip

/-- The pipes that are open stay open while the radio sends. -/
theorem Aims.opens {c c' : Chip} {pipe : Nat} (h : Aims c c' pipe) : c.enabled ⊆ c'.enabled := by
  intro p hmem
  by_cases hzero : p = 0
  · subst hzero
    exact h.enabled hmem
  · have hother : p ∈ c.enabled \ {0} := ⟨hmem, hzero⟩
    rw [← h.others] at hother
    exact hother.1

theorem write_clean {pipe : UInt8} (h : Idle d) (hp : pipe.toNat ≤ pipeMax) (payload : List UInt8) (acked : Bool)
    (stack : Address) :
    ∃ out d', d.nrf24l01Write pipe payload acked stack = .ok (out, d') ∧ Idle d' ∧
      Clean (.write pipe payload acked stack) d out d' := by
  have haim := setPtx_aims h.wide hp stack
  obtain ⟨hfifo, hair⟩ := Prod.mk.inj (traffic_setPtx pipe.toNat stack d.chip)
  obtain ⟨err, done, hdone, hkeep, htraffic, herr, hroom⟩ := transmission_ends (haim.ptx h.powered)
    (hfifo.trans h.fifo) (setPtx_flags hp stack d.chip) payload acked
  rw [hair, haim.tx] at htraffic
  obtain ⟨hempty, hsent⟩ := Prod.mk.inj htraffic
  have hall := haim.keeps.trans (hkeep.mono (by decide))
  have hwide : done.Wide := hall.wide (by decide) h.wide
  have hpow : done.Powered := hkeep.powered (by decide) (ptx_iff.mp (haim.ptx h.powered)).1
  have hen : d.chip.enabled ⊆ done.enabled := by
    have hsame : done.enabled = (d.chip.setPtx pipe.toNat stack).2.enabled :=
      congrArg bits (hkeep.regRead (by decide) (by decide))
    rw [hsame]
    exact haim.opens
  have hback := traffic_setPrx { d with chip := done }
  have hwrite : d.nrf24l01Write pipe payload acked stack = .ok (⟨if err < 0 ∨ err = 1 then -1 else payload.length,
      [(d.chip.setPtx pipe.toNat stack).2, ((d.chip.setPtx pipe.toNat stack).2.ptxData payload acked).2, done]⟩,
      { d with chip := done }.setPrx) := by
    unfold Driver.nrf24l01Write
    dsimp only
    generalize (d.chip.setPtx pipe.toNat stack).2.ptxData payload acked = out at hdone ⊢
    obtain ⟨st, sent⟩ := out
    rw [hdone]
    rfl
  have hidle : Idle { d with chip := done }.setPrx := idle_setPrx hwide hpow hempty
  refine ⟨_, _, hwrite, hidle, hidle.fifo, (Prod.mk.inj hback).2.trans hsent, ?_, ?_, fun _ => ?_⟩
  · rintro _ _ _ _ ⟨⟩
    exact hroom
  · rintro _ _ _ _ ⟨⟩
    rw [herr]
    by_cases hgood : Fits payload ∧ acked = true
    · rw [if_pos hgood]
      exact ⟨fun _ => hgood, fun _ => rfl⟩
    · rw [if_neg hgood]
      refine ⟨fun hret => absurd hret ?_, fun hno => absurd hno hgood⟩
      rw [if_pos (Or.inl (by decide))]
      intro heq
      change (-1 : Int) = payload.length at heq
      omega
  · exact setPrx_sameOpen h hall hwide (by decide) hen

theorem keeps_openPipe (pipe : Nat) (addr : Address) (d : Driver) :
    Keeps d.chip (d.openPipe pipe addr).2.chip [Reg.enRxaddr, Reg.rxAddrPipe pipe, Reg.rxAddrP1] := by
  have hopened (value : BitVec 8) : Keeps d.chip
      (Driver.writePipe pipe value addr (d.chip.regWrite Reg.enRxaddr (value ||| enRxaddrPipe pipe)))
      [Reg.enRxaddr, Reg.rxAddrPipe pipe, Reg.rxAddrP1] :=
    ((Keeps.refl d.chip _).regWrite List.mem_cons_self _).trans
      ((keeps_writePipe pipe value addr _).mono (List.subset_cons_self _ _))
  unfold Driver.openPipe
  dsimp only
  split
  · exact Keeps.refl _ _
  · split
    · split
      · exact hopened _
      · exact hopened _
    · exact Keeps.refl _ _

theorem keeps_closePipe (pipe : Int) (d : Driver) : Keeps d.chip (d.closePipe pipe).2.chip [Reg.enRxaddr] := by
  unfold Driver.closePipe
  split
  · exact Keeps.refl _ _
  · split
    · exact (Keeps.refl d.chip _).regWrite List.mem_cons_self _
    · exact Keeps.refl _ _

theorem Clean.silent {call : Call} {out : Out} (hidle : Idle d') (htraffic : d'.chip.traffic = d.chip.traffic)
    (hcall : ∀ pipe payload acked stack, call ≠ .write pipe payload acked stack)
    (hpipes : ¬ call.Readdresses → SameOpen d.chip d'.chip) : Clean call d out d' where
  fifo := hidle.fifo
  air := by
    have hnone : call.sends d = [] := by
      cases call with
      | write pipe payload acked stack => exact absurd rfl (hcall _ _ _ _)
      | _ => rfl
    rw [hnone, List.append_nil]
    exact (Prod.mk.inj htraffic).2
  room := fun _ _ _ _ heq => absurd heq (hcall _ _ _ _)
  ret := fun _ _ _ _ heq => absurd heq (hcall _ _ _ _)
  pipes := hpipes

/-- The step lemma: an operation ends, and leaves nothing behind. -/
theorem step_clean (h : Idle d) {c : Call} (hc : c.InRange) :
    ∃ out d', d.step c = .ok (out, d') ∧ Idle d' ∧ Clean c d out d' := by
  have hlow : ∀ pipe, Reg.setupAw ∉ [Reg.enRxaddr, Reg.rxAddrPipe pipe, Reg.rxAddrP1] ∧
      Reg.config ∉ [Reg.enRxaddr, Reg.rxAddrPipe pipe, Reg.rxAddrP1] := fun pipe => by
    simp [Reg.setupAw, Reg.config, Reg.enRxaddr, Reg.rxAddrPipe, Reg.rxAddrP1, Reg.rxAddrP0]
  cases c with
  | setPipe pipe aa =>
      have hkeep := keeps_openPipe pipe.toNat aa { d with chip := d.chip.disable }
      have htraffic := traffic_openPipe pipe.toNat aa { d with chip := d.chip.disable }
      have hidle := idle_setPrx (hkeep.wide (hlow _).1 h.wide) (hkeep.powered (hlow _).2 h.powered)
        ((Prod.mk.inj htraffic).1.trans h.fifo)
      refine ⟨_, _, rfl, hidle, .silent hidle ((traffic_setPrx _).trans htraffic) (by simp) fun hno => ?_⟩
      exact absurd trivial hno
  | resetPipe arg =>
      have hkeep := keeps_closePipe (int8 arg) { d with chip := d.chip.disable }
      have htraffic := traffic_closePipe (int8 arg) { d with chip := d.chip.disable }
      have hidle := idle_setPrx (hkeep.wide (by decide) h.wide) (hkeep.powered (by decide) h.powered)
        ((Prod.mk.inj htraffic).1.trans h.fifo)
      refine ⟨_, _, rfl, hidle, .silent hidle ((traffic_setPrx _).trans htraffic) (by simp) fun hno => ?_⟩
      exact absurd trivial hno
  | setChannel value ack =>
      have hkeep := keeps_setChannel value.toBitVec ack d.chip.disable
      have htraffic := traffic_setChannel (c := d.chip.disable) h.fifo value.toBitVec ack
      have hwide := hkeep.wide (by decide) h.wide
      have hidle := idle_setPrx (d := { d with chip := (d.chip.disable.setChannel value.toBitVec ack).2 }) hwide
        (hkeep.powered (by decide) h.powered) ((Prod.mk.inj htraffic).1.trans h.fifo)
      have hen : (d.chip.disable.setChannel value.toBitVec ack).2.enabled = d.chip.enabled :=
        congrArg bits (hkeep.regRead (by decide) (by decide))
      exact ⟨_, _, rfl, hidle, .silent hidle ((traffic_setPrx _).trans htraffic) (by simp) fun _ =>
        setPrx_sameOpen h hkeep hwide (by decide) hen.ge⟩
  | setStandby =>
      have hidle : Idle { d with chip := d.chip.disable } := ⟨h.wide, h.powered, h.fifo, h.home⟩
      exact ⟨_, _, rfl, hidle, .silent hidle rfl (by simp) fun _ p hmem _ => ⟨hmem, rfl⟩⟩
  | otherCommand =>
      have hidle : Idle { d with chip := d.chip.disable }.setPrx :=
        idle_setPrx (d := { d with chip := d.chip.disable }) h.wide h.powered h.fifo
      have hkeep : Keeps d.chip d.chip.disable [] := (Keeps.refl _ _).disable
      exact ⟨_, _, rfl, hidle, .silent hidle (traffic_setPrx _) (by simp) fun _ =>
        setPrx_sameOpen (c := d.chip.disable) h hkeep h.wide (by decide) fun _ hmem => hmem⟩
  | write pipe payload acked stack => exact write_clean h hc payload acked stack

end Operations

/-! ## Every run -/

/-- After `nrf24l01_init` nothing is queued, whatever was before, and no pipe is open. -/
theorem init_idle (c : Chip) (opened : Bool) (addr : Address) : Idle ⟨c.nrf24l01Init, opened, addr⟩ := by
  have hinit := init_addressed c addr
  refine ⟨hinit.wide, hinit.powered, rfl, fun hmem => ?_⟩
  have hsome := (hinit.enabled 0).mp hmem
  cases hsome

/-- Whatever the chip and the statics held before `nrf24l01_init`, every operation of a run ends with nothing queued:
what it sends is the payload that it was given, to the address of its pipe, and it returns the length of that payload
exactly where it was acknowledged. -/
theorem no_leak (c₀ : Chip) (opened : Bool) (addr : Address) {calls : List Call} (h : ∀ c ∈ calls, c.InRange) :
    Along (fun c d => ∃ out d', d.step c = .ok (out, d') ∧ Clean c d out d') Driver.step calls
      ⟨c₀.nrf24l01Init, opened, addr⟩ := by
  refine Along.of_invariant (I := Idle) (P := fun c _ => c.InRange) (fun c d hd hc => ?_) (init_idle c₀ opened addr)
    (along_of_forall (fun c hmem _ => h c hmem) _)
  obtain ⟨out, d', hstep, hidle, hclean⟩ := step_clean hd hc
  refine ⟨⟨out, d', hstep, hclean⟩, fun o s' hs => ?_⟩
  obtain ⟨-, rfl⟩ := ok_unique hstep hs
  exact hidle

/-- A message to the first of two things is lost, and the next one is for the second. -/
def lostThenSent : List Call :=
  [.setPipe 1 (Nrf24.accessAddress Nrf24.gatewayMac 1), .setPipe 2 (Nrf24.accessAddress Nrf24.gatewayMac 2),
    .setChannel 22 true, .write 1 [0x01, 0x02] false (Buf.zero 5), .write 2 [0x03] true (Buf.zero 5)]

theorem no_leak_lost :
    Along (fun c d => ∃ out d', d.step c = .ok (out, d') ∧ Clean c d out d') Driver.step lostThenSent
      ⟨blank.nrf24l01Init, false, Buf.zero 5⟩ := by
  refine no_leak blank false (Buf.zero 5) ?_
  unfold lostThenSent
  simp only [List.forall_mem_cons]
  exact ⟨trivial, trivial, trivial, (by decide : (1 : UInt8).toNat ≤ pipeMax),
    (by decide : (2 : UInt8).toNat ≤ pipeMax), fun _ h => nomatch h⟩

end KnotHal.Radio
