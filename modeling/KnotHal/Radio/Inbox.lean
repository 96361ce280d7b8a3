import KnotHal.Radio.Receive
import KnotHal.Radio.Transmit

/-!
# The inbox

What the driver is for, as far as it receives, without the registers: the pipes that are open share a queue of three
letters, from which a read takes the first one where it is for the pipe that it asks for.

* `Inbox`, `Inbox.step` : the inbox;
* `Refines` : the registers and the RX FIFO are as the inbox says;
* `refines_step` : the step lemma;
* `receiver_refines_inbox` : the driver does what the inbox does, in every run.
-/

namespace KnotHal.Radio

open Machine Receiver

/-! ## The inbox -/

/-- A packet with the address that it was sent to. -/
structure Letter where
  pipe : Fin 6
  addr : Address
  payload : Payload

def Letter.packet (l : Letter) : Packet := ⟨l.pipe, l.payload⟩

/-- The open pipes, the channel, whether anything is received, and what is there to be read. -/
structure Inbox where
  pipes : Pipes
  channel : BitVec 8
  listening : Bool
  queue : Queue Letter 3

namespace Call

def tunes (c : Call) (channel : BitVec 8) : BitVec 8 :=
  match c with
  | .setChannel value _ => if chMin ≤ value.toBitVec ∧ value.toBitVec ≤ chMax1Mbps then value.toBitVec else channel
  | .setPipe _ _ | .resetPipe _ | .setStandby | .otherCommand | .write _ _ _ _ => channel

def returns : Call → Int
  | .setPipe pipe _ => if pipe.toNat ≤ pipeMax then 0 else -1
  | .resetPipe arg => if 0 ≤ int8 arg ∧ int8 arg ≤ pipeMax then 0 else -1
  | .setChannel value _ => if chMin ≤ value.toBitVec ∧ value.toBitVec ≤ chMax1Mbps then 0 else -1
  | .setStandby | .otherCommand => -1
  | .write _ payload acked _ => if Fits payload ∧ acked = true then payload.length else -1

end Call

namespace Inbox

def start : Inbox := ⟨Pipes.none, channelDefault, false, .empty⟩

def holder (addr : Address) (t : Inbox) : Option (Fin 6) := (List.finRange 6).find? fun p => t.pipes p = some addr

def heard (i : Receiver.Input) (t : Inbox) : Option Letter :=
  match i with
  | .packet channel addr payload =>
      if t.listening = true ∧ channel = t.channel then (t.holder addr).map fun p => ⟨p, addr, payload⟩ else .none
  | .call _ | .read _ _ => .none

/-- A read takes the first letter or nothing. One that is too long takes the others with it, and one that is empty
stays. -/
def read (p : UInt8) (len : UInt16) (t : Inbox) : (UInt8 × List UInt8) × Inbox :=
  match t.queue.list with
  | [] => ((p, []), t)
  | l :: _ =>
      if Wants p l.pipe then
        if payloadSize < l.payload.bytes.length then ((UInt8.ofNat l.pipe.val, []), { t with queue := .empty })
        else if l.payload.bytes ≠ [] then
          ((UInt8.ofNat l.pipe.val, l.payload.bytes.take len.toNat), { t with queue := t.queue.pop })
        else ((UInt8.ofNat l.pipe.val, []), t)
      else ((p, []), t)

section First
variable {t : Inbox} {l : Letter} {rest : List Letter} {p : UInt8} {len : UInt16}

theorem read_nil (h : t.queue.list = []) : t.read p len = ((p, []), t) := by
  unfold read
  rw [h]

theorem read_other (h : t.queue.list = l :: rest) (hp : ¬ Wants p l.pipe) : t.read p len = ((p, []), t) := by
  unfold read
  rw [h]
  exact if_neg hp

theorem read_long (h : t.queue.list = l :: rest) (hp : Wants p l.pipe) (hlong : payloadSize < l.payload.bytes.length) :
    t.read p len = ((UInt8.ofNat l.pipe.val, []), { t with queue := .empty }) := by
  unfold read
  rw [h]
  exact (if_pos hp).trans (if_pos hlong)

theorem read_some (h : t.queue.list = l :: rest) (hp : Wants p l.pipe) (hfit : l.payload.bytes.length ≤ payloadSize)
    (hne : l.payload.bytes ≠ []) :
    t.read p len = ((UInt8.ofNat l.pipe.val, l.payload.bytes.take len.toNat), { t with queue := t.queue.pop }) := by
  unfold read
  rw [h]
  exact ((if_pos hp).trans (if_neg (Nat.not_lt.mpr hfit))).trans (if_pos hne)

theorem read_empty (h : t.queue.list = l :: rest) (hp : Wants p l.pipe) (hnil : l.payload.bytes = []) :
    t.read p len = ((UInt8.ofNat l.pipe.val, []), t) := by
  unfold read
  rw [h]
  refine ((if_pos hp).trans (if_neg ?_)).trans (if_neg (not_not_intro hnil))
  rw [hnil]
  decide

end First

/-- A change of the channel throws away what is there. -/
def step (i : Receiver.Input) (t : Inbox) : Output × Inbox :=
  match i with
  | .call c => (.ret c.returns, {
      pipes := t.pipes.step c
      channel := c.tunes t.channel
      listening := c ≠ .setStandby
      queue := if c.tunes t.channel = t.channel then t.queue else .empty })
  | .read p len => (.got (t.read p len).1.1 (t.read p len).1.2, (t.read p len).2)
  | .packet _ _ _ => (.none, (t.heard i).elim t fun l => { t with queue := t.queue.push l })

theorem read_settings (p : UInt8) (len : UInt16) (t : Inbox) : (∃ q, (t.read p len).2 = { t with queue := q }) ∧
    (p ≠ noPipe → (t.read p len).1.1 = p) := by
  cases hq : t.queue.list with
  | nil =>
      rw [read_nil hq]
      exact ⟨⟨t.queue, rfl⟩, fun _ => rfl⟩
  | cons l rest =>
      by_cases hwants : Wants p l.pipe
      · have hown (hp : p ≠ noPipe) : UInt8.ofNat l.pipe.val = p := (hwants.resolve_left hp).symm
        by_cases hfit : l.payload.bytes.length ≤ payloadSize
        · by_cases hnil : l.payload.bytes = []
          · rw [read_empty hq hwants hnil]
            exact ⟨⟨t.queue, rfl⟩, hown⟩
          · rw [read_some hq hwants hfit hnil]
            exact ⟨⟨t.queue.pop, rfl⟩, hown⟩
        · rw [read_long hq hwants (Nat.lt_of_not_le hfit)]
          exact ⟨⟨.empty, rfl⟩, hown⟩
      · rw [read_other hq hwants]
        exact ⟨⟨t.queue, rfl⟩, fun _ => rfl⟩

theorem packet_settings (channel : BitVec 8) (addr : Address) (payload : Payload) (t : Inbox) :
    ∃ q, (t.step (.packet channel addr payload)).2 = { t with queue := q } := by
  unfold step
  dsimp only
  cases t.heard (.packet channel addr payload) with
  | none => exact ⟨t.queue, rfl⟩
  | some l => exact ⟨t.queue.push l, rfl⟩

end Inbox

/-! ## The operations, once more -/

variable {c c' : Chip} {d d' : Driver} {ps : Pipes} {out : Out}

def Chip.Slow (c : Chip) : Prop := c.regRead Reg.rfSetup &&& rfDrMask ≠ dr2Mbps

theorem Keeps.channel {W : List Nat} (h : Keeps c c' W) (hW : Reg.rfCh ∉ W) : c'.channel = c.channel := by
  unfold Chip.channel
  rw [h.regRead hW (by decide)]

theorem Keeps.slow {W : List Nat} (h : Keeps c c' W) (hW : Reg.rfSetup ∉ W) (hc : c.Slow) : c'.Slow := by
  unfold Chip.Slow
  rw [h.regRead hW (by decide)]
  exact hc

theorem enable_ce (acked : Bool) (c : Chip) : (c.enable acked).ce = true := by
  unfold Chip.enable
  dsimp only
  split
  · split
    · rfl
    · split
      · rfl
      · rfl
  · rfl

theorem setPrx_prx (hwide : d.chip.Wide) (hpow : d.chip.Powered) : d.setPrx.chip.Prx := by
  have hpower := (setPrx_listens hwide).powered hpow
  obtain ⟨c, hc⟩ : ∃ c : Chip,
      d.setPrx.chip = (c.regWrite Reg.config (c.regRead Reg.config ||| cfgPrimRx)).enable false :=
    ⟨_, rfl⟩
  have hkeep := (Keeps.refl (c.regWrite Reg.config (c.regRead Reg.config ||| cfgPrimRx)) [Reg.status]).enable
    (by decide) false
  have hconfig : d.setPrx.chip.regRead Reg.config = c.regRead Reg.config ||| cfgPrimRx := by
    rw [hc, hkeep.regRead (by decide) (by decide), regRead_regWrite (by decide)]
  refine ⟨?_, ?_, ?_⟩
  · rw [hc]
    exact enable_ce false _
  · rw [cfgPwrUp_eq, ne_eq, and_one_shiftLeft_eq_zero_iff (by decide), not_not]
    exact hpower
  · rw [hconfig, cfgPrimRx_eq, ne_eq, and_one_shiftLeft_eq_zero_iff (by decide), not_not, bits_or]
    exact Or.inr (by decide)

/-- What an operation does to the channel and the mode, and what it returns. -/
structure Settles (c : Call) (d : Driver) (out : Out) (d' : Driver) : Prop where
  channel : d'.chip.channel = c.tunes d.chip.channel
  slow : d'.chip.Slow
  prx : d'.chip.Prx ↔ c ≠ .setStandby
  ret : out.ret = c.returns

theorem settles_setPrx {call : Call} (hcall : call ≠ .setStandby) {e : Driver} (hwide : e.chip.Wide)
    (hpow : e.chip.Powered) (hslow : e.chip.Slow) (hchan : e.chip.channel = call.tunes d.chip.channel)
    (hret : out.ret = call.returns) : Settles call d out e.setPrx := by
  have hkeep := (setPrx_listens hwide).keeps
  refine ⟨(hkeep.channel (by decide)).trans hchan, hkeep.slow (by decide) hslow, ?_, hret⟩
  exact iff_of_true (setPrx_prx hwide hpow) hcall

theorem openPipe_ret (pipe : Nat) (addr : Address) (d : Driver) :
    (d.openPipe pipe addr).1 = if pipe ≤ pipeMax then 0 else -1 := by
  unfold Driver.openPipe
  dsimp only
  by_cases hp : pipe ≤ pipeMax
  · rw [if_neg (Nat.not_lt.mpr hp), if_pos hp]
    split
    · split
      · rfl
      · rfl
    · rfl
  · rw [if_pos (Nat.lt_of_not_le hp), if_neg hp]

theorem closePipe_ret (pipe : Int) (d : Driver) :
    (d.closePipe pipe).1 = if 0 ≤ pipe ∧ pipe ≤ pipeMax then 0 else -1 := by
  unfold Driver.closePipe
  by_cases hp : 0 ≤ pipe ∧ pipe ≤ pipeMax
  · rw [if_neg (by omega), if_pos hp]
    split
    · rfl
    · rfl
  · rw [if_pos (by omega), if_neg hp]

/-- With 1 Mbps there are channels up to 116. -/
theorem setChannel_eq (hslow : c.Slow) (ch : BitVec 8) (ack : Bool) :
    (c.setChannel ch ack).1 = (if chMin ≤ ch ∧ ch ≤ chMax1Mbps then 0 else -1) ∧
      (c.setChannel ch ack).2.channel = if chMin ≤ ch ∧ ch ≤ chMax1Mbps then ch else c.channel := by
  have hmax : (if c.regRead Reg.rfSetup &&& rfDrMask = dr2Mbps then chMax2Mbps else chMax1Mbps) = chMax1Mbps :=
    if_neg hslow
  have hrange : (ch < chMin ∨ chMax1Mbps < ch) ↔ ¬ (chMin ≤ ch ∧ ch ≤ chMax1Mbps) := by
    rw [not_and_or, BitVec.not_le, BitVec.not_le]
  have htune : chMin ≤ ch ∧ ch ≤ chMax1Mbps → (c.disable.retune ch).channel = ch := by
    rintro ⟨-, hle⟩
    have hmask : ch &&& rfChMask = ch := by
      have hall : ∀ ch : BitVec 8, ch ≤ chMax1Mbps → ch &&& rfChMask = ch := by decide +kernel
      exact hall ch hle
    unfold Chip.retune
    split
    · show Chip.regRead Reg.rfCh (Chip.regWrite Reg.rfCh _ _) &&& rfChMask = ch
      rw [regRead_regWrite (by decide), hmask, hmask]
    · rename_i hsame
      exact (not_not.mp hsame).symm
  have haa (c : Chip) (v : BitVec 8) : (c.regWrite Reg.enAa v).channel = c.channel :=
    ((Keeps.refl c [Reg.enAa]).regWrite (by decide) v).channel (by decide)
  unfold Chip.setChannel
  dsimp only
  rw [hmax]
  by_cases hin : chMin ≤ ch ∧ ch ≤ chMax1Mbps
  · rw [if_neg (fun hc => hrange.mp hc hin), if_pos hin, if_pos hin]
    split
    · exact ⟨rfl, (haa _ _).trans (htune hin)⟩
    · exact ⟨rfl, (haa _ _).trans (htune hin)⟩
  · rw [if_pos (hrange.mpr hin), if_neg hin, if_neg hin]
    exact ⟨rfl, rfl⟩

theorem retunes_iff (hslow : c.Slow) (ch : BitVec 8) (ack : Bool) :
    c.Retunes ch ack ↔ (chMin ≤ ch ∧ ch ≤ chMax1Mbps) ∧ ch ≠ c.channel := by
  unfold Chip.Retunes
  rw [(setChannel_eq hslow ch ack).1]
  apply and_congr_left
  intro _
  split
  · rename_i hin
    exact iff_of_true rfl hin
  · rename_i hin
    exact iff_of_false (by decide) hin

/-- Where a transmission ended, the chip listens again. -/
theorem write_ends {pipe : UInt8} {payload : List UInt8} {acked : Bool} {stack : Address}
    (haim : Aims d.chip (d.chip.setPtx pipe.toNat stack).2 pipe.toNat)
    (h : d.nrf24l01Write pipe payload acked stack = .ok (out, d')) :
    ∃ done, d' = { d with chip := done }.setPrx ∧
      Keeps d.chip done [Reg.setupRetr, Reg.enRxaddr, Reg.rxAddrP0, Reg.txAddr, Reg.status, Reg.config] ∧
      ((d.chip.setPtx pipe.toNat stack).2.Powered → done.Powered) ∧ (out.ret = -1 ∨ out.ret = payload.length) := by
  have hsent := keeps_ptxData payload acked (d.chip.setPtx pipe.toNat stack).2
  unfold Driver.nrf24l01Write at h
  dsimp only at h
  generalize (d.chip.setPtx pipe.toNat stack).2.ptxData payload acked = q at h hsent
  obtain ⟨st, sent⟩ := q
  obtain ⟨⟨err, done⟩, hdone, hrest⟩ := bind_eq_ok.mp h
  obtain ⟨rfl, rfl⟩ := Prod.mk.inj (Except.ok.inj hrest)
  have hkeep : Keeps sent done [] := by
    by_cases hst : st = 0
    · rw [if_pos hst] at hdone
      exact keeps_ptxWaitDatasent hdone
    · rw [if_neg hst] at hdone
      obtain ⟨-, rfl⟩ := Prod.mk.inj (Except.ok.inj hdone)
      exact Keeps.refl sent _
  have hall := hsent.trans (hkeep.mono (List.nil_subset [Reg.status]))
  refine ⟨done, rfl, haim.keeps.trans (hall.mono (by decide)), hall.powered (by decide), ?_⟩
  dsimp only
  split
  · exact .inl rfl
  · exact .inr rfl

theorem step_settles (h : Idle d) (hslow : d.chip.Slow) {c : Call} (hc : c.InRange) (hstep : d.step c = .ok (out, d')) :
    Settles c d out d' := by
  cases c with
  | setPipe pipe aa =>
      obtain ⟨rfl, rfl⟩ := Prod.mk.inj (Except.ok.inj hstep)
      have hkeep := keeps_openPipe pipe.toNat aa { d with chip := d.chip.disable }
      have hnot : ∀ r ∈ [Reg.setupAw, Reg.config, Reg.rfCh, Reg.rfSetup],
          r ∉ [Reg.enRxaddr, Reg.rxAddrPipe pipe.toNat, Reg.rxAddrP1] := by
        simp [Reg.setupAw, Reg.config, Reg.enRxaddr, Reg.rxAddrPipe, Reg.rxAddrP1, Reg.rxAddrP0, Reg.rfCh, Reg.rfSetup]
      exact settles_setPrx (by simp) (hkeep.wide (hnot _ (by decide)) h.wide)
        (hkeep.powered (hnot _ (by decide)) h.powered)
        (hkeep.slow (hnot _ (by decide)) hslow) (hkeep.channel (hnot _ (by decide))) (openPipe_ret ..)
  | resetPipe arg =>
      obtain ⟨rfl, rfl⟩ := Prod.mk.inj (Except.ok.inj hstep)
      have hkeep := keeps_closePipe (int8 arg) { d with chip := d.chip.disable }
      exact settles_setPrx (by simp) (hkeep.wide (by decide) h.wide) (hkeep.powered (by decide) h.powered)
        (hkeep.slow (by decide) hslow) (hkeep.channel (by decide)) (closePipe_ret ..)
  | setChannel value ack =>
      obtain ⟨rfl, rfl⟩ := Prod.mk.inj (Except.ok.inj hstep)
      have hkeep := keeps_setChannel value.toBitVec ack d.chip.disable
      obtain ⟨hret, hchan⟩ := setChannel_eq (c := d.chip.disable) hslow value.toBitVec ack
      exact settles_setPrx (e := { d with chip := (d.chip.disable.setChannel value.toBitVec ack).2 }) (by simp)
        (hkeep.wide (by decide) h.wide) (hkeep.powered (by decide) h.powered) (hkeep.slow (by decide) hslow) hchan hret
  | setStandby =>
      obtain ⟨rfl, rfl⟩ := Prod.mk.inj (Except.ok.inj hstep)
      exact ⟨rfl, hslow, iff_of_false (fun hprx => Bool.false_ne_true hprx.1) (fun hne => hne rfl), rfl⟩
  | otherCommand =>
      obtain ⟨rfl, rfl⟩ := Prod.mk.inj (Except.ok.inj hstep)
      exact settles_setPrx (e := { d with chip := d.chip.disable }) (by simp) h.wide h.powered hslow rfl rfl
  | write pipe payload acked stack =>
      obtain ⟨out', d₁, hwrite, -, hclean⟩ := write_clean h hc payload acked stack
      obtain ⟨rfl, rfl⟩ := ok_unique (show d.step (.write pipe payload acked stack) = _ from hwrite) hstep
      have haim := setPtx_aims h.wide hc stack
      obtain ⟨done, rfl, hkeep, hpow, hret⟩ := write_ends haim hwrite
      refine settles_setPrx (e := { d with chip := done }) (by simp) (hkeep.wide (by decide) h.wide)
        (hpow (ptx_iff.mp (haim.ptx h.powered)).1) (hkeep.slow (by decide) hslow) (hkeep.channel (by decide)) ?_
      have hiff := hclean.ret pipe payload acked stack rfl
      show out'.ret = if Fits payload ∧ acked = true then (payload.length : Int) else -1
      split
      · rename_i hgood
        exact hiff.mpr hgood
      · rename_i hbad
        exact hret.resolve_right fun heq => hbad (hiff.mp heq)

/-! ## The refinement -/

theorem Addressed.of_keeps (h : Addressed d ps) (hkeep : Keeps d.chip c [Reg.status]) :
    Addressed { d with chip := c } ps where
  wide := hkeep.wide (by decide) h.wide
  powered := hkeep.powered (by decide) h.powered
  shadow := h.shadow
  saved := h.saved
  enabled p := by
    rw [← h.enabled p]
    exact Eq.to_iff (congrArg (p.val ∈ bits ·) (hkeep.regRead (by decide) (by decide)))
  receives p a ha := by
    have hpipe : Reg.rxAddrPipe p.val ∉ [Reg.status] := rxAddrPipe_not_mem 0 (Nat.zero_le _) (le_pipeMax p) (by decide)
    exact (hkeep.receives (by decide) hpipe).trans (h.receives p a ha)

theorem Idle.of_keeps (h : Idle d) (hkeep : Keeps d.chip c [Reg.status]) (hfifo : c.txFifo = d.chip.txFifo) :
    Idle { d with chip := c } where
  wide := hkeep.wide (by decide) h.wide
  powered := hkeep.powered (by decide) h.powered
  fifo := hfifo.trans h.fifo
  home hmem := by
    have hen : c.enabled = d.chip.enabled := congrArg bits (hkeep.regRead (by decide) (by decide))
    obtain ⟨hopen, haddr⟩ := h.home (hen ▸ hmem)
    exact ⟨hopen, (hkeep _ (by decide)).trans haddr⟩

/-- The registers and the RX FIFO are as the inbox says, and the pipes from 1 on have the high bytes `high`. -/
structure Refines (high : List UInt8) (r : Receiver) (t : Inbox) : Prop where
  addressed : Addressed r.driver t.pipes
  idle : Idle r.driver
  based : ∀ p : Fin 6, p ≠ 0 → ∀ a, t.pipes p = some a → upper a = high
  slow : r.driver.chip.Slow
  channel : r.driver.chip.channel = t.channel
  listening : r.driver.chip.Prx ↔ t.listening = true
  queue : r.rx = t.queue.map Letter.packet

/-- The operations that are proper: the pipes from 1 on share their high bytes. -/
def Proper (high : List UInt8) : Receiver.Input → Prop
  | .call c => Based high c
  | .read _ _ | .packet _ _ _ => True

section Refinement
variable {high : List UInt8} {r : Receiver} {t : Inbox}

theorem Refines.of_status (h : Refines high r t) {c : Chip} (hkeep : Keeps r.driver.chip c [Reg.status])
    (hfifo : c.txFifo = r.driver.chip.txFifo) (hce : c.ce = r.driver.chip.ce) (q : Queue Letter 3) :
    Refines high ⟨{ r.driver with chip := c }, q.map Letter.packet⟩ { t with queue := q } where
  addressed := h.addressed.of_keeps hkeep
  idle := h.idle.of_keeps hkeep hfifo
  based := h.based
  slow := hkeep.slow (by decide) h.slow
  channel := (hkeep.channel (by decide)).trans h.channel
  listening := by
    rw [← h.listening]
    show c.Prx ↔ r.driver.chip.Prx
    unfold Chip.Prx
    rw [hce, hkeep.regRead (by decide) (by decide)]
  queue := rfl

theorem legal_of_based {call : Call} (hc : Based high call)
    (hps : ∀ p : Fin 6, p ≠ 0 → ∀ a, ps p = some a → upper a = high) : Legal call ps := by
  cases call with
  | setPipe pipe addr => exact fun hone p hp a ha => (hps p hp a ha).trans (hc hone).symm
  | write pipe payload acked stack => exact hc
  | resetPipe arg => trivial
  | setChannel value ack => trivial
  | setStandby => trivial
  | otherCommand => trivial

theorem inRange_of_based {call : Call} (hc : Based high call) : call.InRange := by
  cases call with
  | write pipe payload acked stack => exact Nat.le_of_lt_succ hc
  | setPipe pipe addr => trivial
  | resetPipe arg => trivial
  | setChannel value ack => trivial
  | setStandby => trivial
  | otherCommand => trivial

theorem keepsRx_eq (h : Refines high r t) (call : Call) :
    r.keepsRx call = (if call.tunes t.channel = t.channel then t.queue else .empty).map Letter.packet := by
  have hkept : r.rx = (if t.channel = t.channel then t.queue else .empty).map Letter.packet := by
    rw [if_pos rfl]
    exact h.queue
  cases call with
  | setChannel value ack =>
      show (if r.driver.chip.Retunes value.toBitVec ack then Queue.empty else r.rx) = _
      have hsame : Call.tunes (.setChannel value ack) t.channel = t.channel ↔
          ¬ r.driver.chip.Retunes value.toBitVec ack := by
        rw [retunes_iff h.slow, h.channel]
        show (if chMin ≤ value.toBitVec ∧ value.toBitVec ≤ chMax1Mbps then value.toBitVec else t.channel) = _ ↔ _
        split
        · rename_i hin
          exact ⟨fun heq hc => hc.2 heq, fun hc => not_not.mp fun hne => hc ⟨hin, hne⟩⟩
        · rename_i hout
          exact iff_of_true rfl fun hc => hout hc.1
      by_cases htune : r.driver.chip.Retunes value.toBitVec ack
      · rw [if_pos htune, if_neg fun hc => hsame.mp hc htune]
        rfl
      · rw [if_neg htune, if_pos (hsame.mpr htune)]
        exact h.queue
  | setPipe pipe aa => exact hkept
  | resetPipe arg => exact hkept
  | setStandby => exact hkept
  | otherCommand => exact hkept
  | write pipe payload acked stack => exact hkept

theorem step_call (h : Refines high r t) {call : Call} (hc : Based high call) :
    ∃ r', r.step (.call call) = .ok ((t.step (.call call)).1, r') ∧ Refines high r' (t.step (.call call)).2 := by
  obtain ⟨out, d', hstep, haddr⟩ := step_addressed call r.driver t.pipes h.addressed (legal_of_based hc h.based)
  obtain ⟨out', d₁, hstep', hidle, -⟩ := step_clean h.idle (inRange_of_based hc)
  obtain ⟨rfl, rfl⟩ := ok_unique hstep' hstep
  have hsettles := step_settles h.idle h.slow (inRange_of_based hc) hstep
  refine ⟨⟨d₁, r.keepsRx call⟩, ?_, {
    addressed := haddr
    idle := hidle
    based := based_step hc h.based
    slow := hsettles.slow
    channel := hsettles.channel.trans (congrArg call.tunes h.channel)
    listening := hsettles.prx.trans decide_eq_true_iff.symm
    queue := keepsRx_eq h call }⟩
  show (r.driver.step call).map _ = _
  rw [hstep]
  exact congrArg (fun err => Except.ok (Output.ret err, (⟨d₁, r.keepsRx call⟩ : Receiver))) hsettles.ret

theorem step_read (h : Refines high r t) (p : UInt8) (len : UInt16) :
    ∃ r', r.step (.read p len) = .ok ((t.step (.read p len)).1, r') ∧ Refines high r' (t.step (.read p len)).2 := by
  refine ⟨(r.nrf24l01Read p len).2, ?_⟩
  have hack (q : Queue Letter 3) := h.of_status ((Keeps.refl _ _).regWrite List.mem_cons_self stRxDr) rfl rfl q
  have hread : (r.nrf24l01Read p len).1 = (t.read p len).1 ∧
      Refines high (r.nrf24l01Read p len).2 (t.read p len).2 := by
    have hlist : r.rx.list = t.queue.list.map Letter.packet := congrArg Queue.list h.queue
    cases hq : t.queue.list with
    | nil =>
        rw [hq] at hlist
        rw [nrf24l01Read_nil hlist, Inbox.read_nil hq]
        exact ⟨rfl, h⟩
    | cons l rest =>
        rw [hq] at hlist
        by_cases hwants : Wants p l.pipe
        · rw [nrf24l01Read_own hlist hwants]
          by_cases hfit : l.payload.bytes.length ≤ payloadSize
          · by_cases hnil : l.payload.bytes = []
            · have hsame := hack t.queue
              rw [← h.queue] at hsame
              rw [prxData_empty hlist hnil, Inbox.read_empty hq hwants hnil]
              exact ⟨rfl, hsame⟩
            · have hpop : r.rx.pop = t.queue.pop.map Letter.packet := by rw [h.queue, Queue.map_pop]
              rw [prxData_some hlist hfit hnil, Inbox.read_some hq hwants hfit hnil, hpop]
              exact ⟨rfl, hack t.queue.pop⟩
          · rw [prxData_long hlist (Nat.lt_of_not_le hfit), Inbox.read_long hq hwants (Nat.lt_of_not_le hfit)]
            exact ⟨rfl, hack .empty⟩
        · rw [nrf24l01Read_other hlist hwants, Inbox.read_other hq hwants]
          exact ⟨rfl, h⟩
  refine ⟨?_, hread.2⟩
  show Except.ok (Output.got (r.nrf24l01Read p len).1.1 (r.nrf24l01Read p len).1.2, _) = _
  rw [hread.1]
  rfl

theorem takes_eq (h : Refines high r t) (addr : Address) : r.driver.chip.takes addr = t.holder addr := by
  unfold Chip.takes Inbox.holder
  congr 1
  funext p
  rw [decide_eq_decide, ne_eq, and_enRxaddrPipe_eq_zero (le_pipeMax p), not_not]
  have hen := h.addressed.enabled p
  constructor
  · rintro ⟨hmem, hrec⟩
    obtain ⟨a, ha⟩ := Option.isSome_iff_exists.mp (hen.mp hmem)
    rw [ha, ← hrec, h.addressed.receives p a ha]
  · intro ha
    exact ⟨hen.mpr (by rw [ha]; rfl), h.addressed.receives p addr ha⟩

theorem step_packet (h : Refines high r t) (channel : BitVec 8) (addr : Address) (payload : Payload) :
    ∃ r', r.step (.packet channel addr payload) = .ok (.none, r') ∧
      Refines high r' (t.step (.packet channel addr payload)).2 := by
  have hcond : (r.driver.chip.Prx ∧ channel = r.driver.chip.channel) ↔ t.listening = true ∧ channel = t.channel := by
    rw [h.listening, h.channel]
  unfold Receiver.step Inbox.step Inbox.heard
  simp only [hcond, takes_eq h]
  by_cases hheard : t.listening = true ∧ channel = t.channel
  · simp only [if_pos hheard]
    cases t.holder addr with
    | none => exact ⟨r, rfl, h⟩
    | some p =>
        refine ⟨r.receive ⟨p, payload⟩, rfl, ?_⟩
        have hlength : r.rx.list.length = t.queue.list.length := by
          rw [h.queue]
          exact List.length_map ..
        show Refines high (r.receive ⟨p, payload⟩) { t with queue := t.queue.push ⟨p, addr, payload⟩ }
        unfold Receiver.receive
        rw [hlength]
        split
        · have hpush : r.rx.push ⟨p, payload⟩ = (t.queue.push ⟨p, addr, payload⟩).map Letter.packet := by
            rw [Queue.map_push, ← h.queue]
            rfl
          rw [hpush]
          exact h.of_status ((Keeps.refl _ _).dataWrite List.mem_cons_self _) rfl rfl _
        · rename_i hfull
          have hlost : t.queue.push ⟨p, addr, payload⟩ = t.queue := dif_neg hfull
          rw [hlost]
          exact h
  · simp only [if_neg hheard]
    exact ⟨r, rfl, h⟩

theorem refines_step (i : Receiver.Input) (h : Refines high r t) (hi : Proper high i) :
    ∃ r', r.step i = .ok ((t.step i).1, r') ∧ Refines high r' (t.step i).2 := by
  cases i with
  | call call => exact step_call h hi
  | read p len => exact step_read h p len
  | packet channel addr payload => exact step_packet h channel addr payload

end Refinement

/-! ## Every run -/

/-- The registers that `nrf24l01_init` writes after `RF_CH`, and after `RF_SETUP`. -/
theorem init_tunes (c : Chip) : c.nrf24l01Init.channel = channelDefault ∧ c.nrf24l01Init.Slow := by
  obtain ⟨ch, setup, hch, hsetup, htune, v, hv⟩ : ∃ ch setup : Chip,
      Keeps ch c.nrf24l01Init [Reg.rfSetup, Reg.setupAw, Reg.setupRetr, Reg.enAa, Reg.enRxaddr, Reg.feature, Reg.dynpd,
        Reg.status] ∧
      Keeps setup c.nrf24l01Init [Reg.setupAw, Reg.setupRetr, Reg.enAa, Reg.enRxaddr, Reg.feature, Reg.dynpd,
        Reg.status] ∧
      ch.regRead Reg.rfCh = channelDefault &&& rfChMask ∧
      ∃ v, setup.regRead Reg.rfSetup = v &&& ~~~rfSetupMask ||| dr1Mbps &&& rfDrMask ||| rfPwr0dbm := by
    have hsetup : Keeps _ c.nrf24l01Init [Reg.setupAw, Reg.setupRetr, Reg.enAa, Reg.enRxaddr, Reg.feature, Reg.dynpd,
        Reg.status] :=
      ((((((((Keeps.refl _ _).modify (by decide) _).regWrite (by decide) _).modify (by decide) _).modify (by decide)
        _).modify (by decide) _).modify (by decide) _).modify (by decide) _).flushTx
    have hch : Keeps _ c.nrf24l01Init [Reg.rfSetup, Reg.setupAw, Reg.setupRetr, Reg.enAa, Reg.enRxaddr, Reg.feature,
        Reg.dynpd, Reg.status] :=
      (((((((((Keeps.refl _ _).modify (by decide) _).modify (by decide) _).regWrite (by decide) _).modify (by decide)
        _).modify (by decide) _).modify (by decide) _).modify (by decide) _).modify (by decide) _).flushTx
    exact ⟨_, _, hch, hsetup, regRead_regWrite (by decide) _ _, _, regRead_modify (by decide) _ _⟩
  have hrate : ∀ v : BitVec 8, (v &&& ~~~rfSetupMask ||| dr1Mbps &&& rfDrMask ||| rfPwr0dbm) &&& rfDrMask ≠ dr2Mbps := by
    decide +kernel
  constructor
  · rw [hch.channel (by decide), Chip.channel, htune]
    decide
  · apply hsetup.slow (by decide)
    unfold Chip.Slow
    rw [hv]
    exact hrate v

theorem refines_init (high : List UInt8) (c : Chip) (opened : Address) :
    Refines high (Receiver.init c opened) Inbox.start := by
  obtain ⟨cfg, aw, en, hcfg, -, -, ⟨v, hv⟩, -, -⟩ := init_keeps c
  obtain ⟨hchan, hslow⟩ := init_tunes c
  have hprim : ∀ v : BitVec 8, (v &&& ~~~configMask ||| configInit) &&& cfgPrimRx = 0 := by decide +kernel
  refine ⟨init_addressed c opened, init_idle c false opened, ?_, hslow, hchan, ?_, rfl⟩
  · intro p _ a ha
    cases ha
  · apply iff_of_false
    · rintro ⟨-, -, hrx⟩
      have hconfig : c.nrf24l01Init.regRead Reg.config = v &&& ~~~configMask ||| configInit := by
        rw [hcfg.regRead (by decide) (by decide), hv]
      rw [show (Receiver.init c opened).driver.chip = c.nrf24l01Init from rfl, hconfig] at hrx
      exact hrx (hprim v)
    · exact Bool.false_ne_true

/-- Where the two are after a run. -/
theorem exec_refines_inbox (c : Chip) (opened : Address) {high : List UInt8} {is : List Receiver.Input}
    (his : ∀ i ∈ is, Proper high i) :
    ∃ r', exec Receiver.step is (Receiver.init c opened) = .ok (outputs Inbox.step is Inbox.start, r') ∧
      Refines high r' (final Inbox.step is Inbox.start) :=
  exec_refines_final (fun i _ _ h hi => refines_step i h hi) his (refines_init high c opened)

/-- Whatever the chip held before `nrf24l01_init`: in every run of operations that open the pipes from 1 on with the
same high bytes, of reads and of packets on the air, the driver does what the inbox does. -/
theorem receiver_refines_inbox (c : Chip) (opened : Address) {high : List UInt8} {is : List Receiver.Input}
    (his : ∀ i ∈ is, Proper high i) :
    ∃ r', exec Receiver.step is (Receiver.init c opened) = .ok (outputs Inbox.step is Inbox.start, r') := by
  obtain ⟨r', hrun, -⟩ := exec_refines_inbox c opened his
  exact ⟨r', hrun⟩

/-- Two things send, and the second one is read first. -/
def twoSend : List Receiver.Input :=
  [.call (.setPipe 1 (Nrf24.accessAddress Nrf24.gatewayMac 1)),
    .call (.setPipe 2 (Nrf24.accessAddress Nrf24.gatewayMac 2)),
    .packet channelDefault (Nrf24.accessAddress Nrf24.gatewayMac 1) ⟨[1, 2], by decide⟩,
    .packet channelDefault (Nrf24.accessAddress Nrf24.gatewayMac 2) ⟨[3], by decide⟩,
    .read 2 32, .read 1 32, .read 2 32]

theorem proper_twoSend : ∀ i ∈ twoSend, Proper ((Nrf24.gatewayMac.sub 3 5).read 1 4) i := by
  unfold twoSend
  simp only [List.forall_mem_cons]
  exact ⟨fun _ => upper_accessAddress _ 1, fun _ => upper_accessAddress _ 2, trivial, trivial, trivial, trivial,
    trivial, fun _ h => absurd h List.not_mem_nil⟩

theorem receiver_refines_inbox_two : ∃ r', exec Receiver.step twoSend (Receiver.init blank (Buf.zero 5)) =
    .ok ([.ret 0, .ret 0, .none, .none, .got 2 [], .got 1 [1, 2], .got 2 [3]], r') := by
  have houtputs : outputs Inbox.step twoSend Inbox.start =
      [.ret 0, .ret 0, .none, .none, .got 2 [], .got 1 [1, 2], .got 2 [3]] := by decide
  rw [← houtputs]
  exact receiver_refines_inbox blank (Buf.zero 5) proper_twoSend

end KnotHal.Radio
