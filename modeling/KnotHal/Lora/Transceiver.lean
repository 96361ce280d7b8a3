import KnotHal.Lib.Queue
import KnotHal.Lora.RoundTrip
import KnotHal.Lora.Seed

/-!
# The transceiver

What the driver and the chip are together, without registers, buses and bytes: a transceiver that sends or listens or
does nothing, and remembers the last thing that happened until it is asked.

* `Transceiver`, `Transceiver.step` : the transceiver;
* `Refines`, `refines_step` : the driver on the bus, with the chip, is one;
* `lora_refines_transceiver` : and so is every run after `radio_init`;
* `lora_air_sublist`, `lora_buffer_sublist` : what a run puts on the air, and what it hands out.
-/

namespace KnotHal.Lora

open Serial Sx127x Machine

/-! ## What it does -/

/-- What a transceiver is doing, with the settings it began with. -/
inductive Activity
  | idle
  | sending (p : Option Packet)
  | listening (l : Lmic) (single : Bool)
  | sampling

/-- The last thing that happened. -/
inductive Event
  | nothing
  | sent
  | received (payload : List UInt8)
  | timedOut

/-- The settings, what goes on, and what happened last. -/
structure Transceiver where
  lmic : Lmic
  activity : Activity
  event : Event

/-- The packet that is made of a buffer: its length is taken modulo 256, and a packet is not empty. -/
def packet (l : Lmic) (buffer : List UInt8) : Option Packet :=
  if buffer.length % 256 = 0 then none else some ⟨l.modulation, buffer.take (buffer.length % 256)⟩

namespace Event

def flag : Event → UInt8
  | nothing => 0
  | sent => irqLoraTxdoneMask
  | received _ => irqLoraRxdoneMask
  | timedOut => irqLoraRxtoutMask

/-- A packet that nobody asked for is lost when the chip is put to sleep, but for its length. -/
def lose : Event → Event
  | received payload => .received (List.replicate payload.length 0)
  | e => e

/-- What `radio_irq_handler` leaves in `*len_buffer`, and what it puts into the buffer. -/
def handled (len : Nat) : Event → Nat × List UInt8
  | received payload => (payload.length, payload)
  | timedOut => (0, [])
  | _ => (len, [])

end Event

def Transceiver.step (i : Input) (t : Transceiver) : Output × Transceiver :=
  match i with
  | .setConfig freq txpow sf bw cr ih noCRC =>
      (.none, { t with lmic := { t.lmic with freq, txpow, sf, bw, cr, ih, noCRC } })
  | .tx buffer => (.none, { t with activity := .sending (packet t.lmic buffer), event := .nothing })
  | .rx rxmode =>
      (.none, { t with
        activity := if rxmode = rxmodeRssi then .sampling else .listening t.lmic (rxmode = rxmodeSingle)
        event := .nothing })
  | .sleep => (.none, { t with activity := .idle, event := t.event.lose })
  | .irqFlag mask => (.flag (t.event.flag &&& mask), t)
  | .irqHandler _ _ len =>
      (.handled (t.event.handled len).1 (t.event.handled len).2, { t with activity := .idle, event := .nothing })
  | .sent =>
      match t.activity with
      | .sending (some p) => (.packet p, { t with activity := .idle, event := .sent })
      | _ => (.none, t)
  | .received p _ _ _ =>
      match t.activity with
      | .listening l single =>
          if l.Hears p then
            (.none, { t with activity := if single then .idle else t.activity, event := .received p.payload })
          else (.none, t)
      | _ => (.none, t)
  | .timedOut =>
      match t.activity with
      | .listening _ true => (.none, { t with activity := .idle, event := .timedOut })
      | _ => (.none, t)
  | _ => (.none, t)

/-! ## The driver and the chip are one -/

/-- The calls as they are meant: settings that fit into the registers, a mode there is, and a buffer of `N` bytes. -/
def Proper (N : Nat) : Input → Prop
  | .init _ => False
  | .setConfig freq _ sf bw cr ih _ =>
      (1 ≤ sf ∧ sf ≤ 6) ∧ bw ≤ 2 ∧ cr ≤ 3 ∧ freq.toNat < 1024000000 ∧ ih.toNat ≤ N
  | .rx rxmode => rxmode ≤ 2
  | .irqHandler _ capacity _ => N ≤ capacity
  | _ => True

def Sx1272.Doing (N : Nat) (c : Sx1272) (e : Event) : Activity → Prop
  | .idle => c.mode = opmodeSleep ∨ c.mode = opmodeStandby
  | .sending p => c.mode = opmodeTx ∧ c.sends = p ∧ c.reg loraRegIrqFlagsMask = ~~~irqLoraTxdoneMask ∧ e = .nothing
  | .listening l single =>
      c.mode = (if single then opmodeRxSingle else opmodeRx) ∧
        c.Tuned l (if single then rxmodeSingle else rxmodeScan) ∧ l.registers = l.modulation ∧ l.ih.toNat ≤ N ∧
        (e = .nothing ∨ single = false ∧ ∃ payload, e = .received payload)
  | .sampling => c.mode = opmodeRx ∧ c.reg loraRegIrqFlagsMask = 0xFF ∧ e = .nothing

/-- The driver with the chip and the transceiver agree. -/
structure Refines (N : Nat) (b : Board) (t : Transceiver) : Prop where
  released : b.Released
  longRange : b.bus.device.LongRange
  agrees : b.lmic.Agrees t.lmic
  tunable : t.lmic.Tunable
  fits : t.lmic.ih.toNat ≤ N
  flags : b.bus.device.reg loraRegIrqFlags = t.event.flag
  payload : ∀ payload, t.event = .received payload → payload.length ≤ N ∧
    b.bus.device.rxLength.toNat = payload.length ∧ b.bus.device.rxPayload = payload
  doing : b.bus.device.Doing N t.event t.activity

theorem lose_flag (e : Event) : e.lose.flag = e.flag := by
  cases e with
  | nothing => rfl
  | sent => rfl
  | received payload => rfl
  | timedOut => rfl

theorem lose_eq_received {e : Event} {payload : List UInt8} :
    e.lose = .received payload ↔ ∃ payload', e = .received payload' ∧ payload = List.replicate payload'.length 0 := by
  cases e with
  | nothing => simp [Event.lose]
  | sent => simp [Event.lose]
  | received payload' =>
      show Event.received _ = Event.received payload ↔ _
      simp only [Event.received.injEq, exists_eq_left']
      exact eq_comm
  | timedOut => simp [Event.lose]

section Steps
variable {N : Nat} {b : Board} {t : Transceiver} {c : Sx1272} {l : Lmic} {e : Event}

theorem Refines.sf_ne (h : Refines N b t) : b.lmic.sf ≠ sfFsk := by
  intro hc
  have hsf := h.tunable.sf.1
  rw [← h.agrees.2.1, hc] at hsf
  exact absurd hsf (by decide)

theorem Refines.ready (h : Refines N b t) : Ready b := ⟨h.released, .inr h.longRange⟩

theorem step_setConfig (h : Refines N b t) {freq : UInt32} {txpow : Int8} {sf bw cr ih noCRC : UInt8}
    (hi : Proper N (.setConfig freq txpow sf bw cr ih noCRC)) :
    ∃ b', step (.setConfig freq txpow sf bw cr ih noCRC) b =
        .ok ((t.step (.setConfig freq txpow sf bw cr ih noCRC)).1, b') ∧
      Refines N b' (t.step (.setConfig freq txpow sf bw cr ih noCRC)).2 := by
  obtain ⟨hsf, hbw, hcr, hfreq, hih⟩ := hi
  exact ⟨_, rfl, {
    released := h.released
    longRange := h.longRange
    agrees := ⟨rfl, rfl, rfl, rfl, rfl, rfl⟩
    tunable := ⟨hsf, hbw, hcr, hfreq⟩
    fits := hih
    flags := h.flags
    payload := h.payload
    doing := h.doing }⟩

theorem packet_eq (h : b.lmic.Agrees t.lmic) (ht : t.lmic.Tunable) (hsf : b.lmic.sf ≠ sfFsk) (buffer : List UInt8) :
    (if b.lmic.registers.Valid ∧ len8 buffer ≠ 0 then some ⟨b.lmic.registers, buffer.take (len8 buffer).toNat⟩
      else none) = packet t.lmic buffer := by
  rw [h.2.1] at hsf
  obtain ⟨hvalid, hmod⟩ := (registers_eq_iff hsf).mpr ht
  have hlen : (len8 buffer).toNat = buffer.length % 256 := UInt8.toNat_ofNat'
  have hzero : len8 buffer = 0 ↔ buffer.length % 256 = 0 := by
    rw [← UInt8.toNat_inj, hlen]
    rfl
  rw [h.registers, hmod, hlen, packet]
  rw [hmod] at hvalid
  by_cases hz : buffer.length % 256 = 0
  · rw [if_pos hz, if_neg fun hc => hc.2 (hzero.mpr hz)]
  · rw [if_neg hz, if_pos ⟨hvalid, fun hc => hz (hzero.mp hc)⟩]

theorem step_tx (h : Refines N b t) (buffer : List UInt8) :
    ∃ b', step (.tx buffer) b = .ok ((t.step (.tx buffer)).1, b') ∧ Refines N b' (t.step (.tx buffer)).2 := by
  obtain ⟨hok, hb', hl'⟩ := does_radioTx b.lmic buffer b h.released rfl
  have hstep : step (.tx buffer) b = .ok (.none, (b.onChip (Sx1272.starttx b.lmic buffer)).switch 1) :=
    congrArg (Except.map fun r : Unit × Board => (Output.none, r.2)) hok
  have hlong : (b.bus.device.prepare opmodeLoraBit).LongRange := (Sx1272.prepare_longRange _).mpr (.inr h.longRange)
  have hawake : (b.bus.device.prepare opmodeLoraBit).mode ≠ opmodeSleep := by
    rw [Sx1272.prepare_mode]
    decide
  have hloaded : Sx1272.Loaded b.lmic buffer ((b.bus.device.prepare opmodeLoraBit).loadLora b.lmic buffer) :=
    Sx1272.loaded_loadLora hlong hawake
  have hreg := Sx1272.reg_opmode (m := opmodeTx) (by decide)
    ((b.bus.device.prepare opmodeLoraBit).loadLora b.lmic buffer)
  have hchip : b.bus.device.starttx b.lmic buffer = b.bus.device.txlora b.lmic buffer := if_neg h.sf_ne
  refine ⟨_, hstep, {
    released := hb'
    longRange := ?_
    agrees := h.agrees
    tunable := h.tunable
    fits := h.fits
    flags := ?_
    payload := ?_
    doing := ?_ }⟩
  · show (b.bus.device.starttx b.lmic buffer).LongRange
    rw [hchip]
    exact (Sx1272.opmode_longRange (by decide) _).mpr hloaded.longRange
  · show (b.bus.device.starttx b.lmic buffer).reg _ = _
    rw [hchip]
    exact (hreg _).trans hloaded.flags
  · intro payload hp
    exact absurd hp (by simp [Transceiver.step])
  · show (b.bus.device.starttx b.lmic buffer).mode = _ ∧ (b.bus.device.starttx b.lmic buffer).sends = _ ∧
      (b.bus.device.starttx b.lmic buffer).reg _ = _ ∧ _
    rw [hchip]
    refine ⟨Sx1272.opmode_mode (by decide) _, ?_, (hreg _).trans hloaded.mask, rfl⟩
    rw [← packet_eq h.agrees h.tunable h.sf_ne]
    exact Sx1272.sends_loaded hloaded

theorem Sx1272.Tuned.agrees {l' : Lmic} {rxmode : UInt8} (h : c.Tuned l rxmode) (hl : l.Agrees l') :
    c.Tuned l' rxmode := by
  obtain ⟨hfreq, hsf, hbw, hcr, hih, hcrc⟩ := hl
  have hfrf : l.frf = l'.frf := by rw [Lmic.frf, hfreq, Lmic.frf]
  have hmc1 : l.mc1 = l'.mc1 := by rw [Lmic.mc1, hsf, hbw, hcr, hih, hcrc, Lmic.mc1]
  have hmc2 : l.mc2 = l'.mc2 := by rw [Lmic.mc2, hsf, Lmic.mc2]
  refine ⟨h.longRange, ⟨?_, ?_, ?_, ?_, ?_⟩, h.syncWord, h.mask, h.maxLength, ?_⟩
  · rw [← hfrf]
    exact h.configured.frfMsb
  · rw [← hfrf]
    exact h.configured.frfMid
  · rw [← hfrf]
    exact h.configured.frfLsb
  · rw [← hmc1]
    exact h.configured.mc1
  · rw [← hmc2]
    exact h.configured.mc2
  · rw [← hih]
    exact h.length

theorem step_rx (h : Refines N b t) {rxmode : UInt8} (hi : rxmode ≤ 2) :
    ∃ b', step (.rx rxmode) b = .ok ((t.step (.rx rxmode)).1, b') ∧ Refines N b' (t.step (.rx rxmode)).2 := by
  obtain ⟨hok, hb', hl'⟩ := does_radioRx b.lmic (.inr hi) b h.released rfl
  have hstep : step (.rx rxmode) b = .ok (.none, (b.onChip (Sx1272.startrx b.lmic rxmode)).switch 0) :=
    congrArg (Except.map fun r : Unit × Board => (Output.none, r.2)) hok
  by_cases hrssi : rxmode = rxmodeRssi
  · subst hrssi
    have hchip : b.bus.device.startrx b.lmic rxmodeRssi = b.bus.device.rxlora b.lmic rxmodeRssi := if_neg h.sf_ne
    obtain ⟨hlong, ⟨hflags, hmask⟩, hmode⟩ := Sx1272.rxlora_rssi (l := b.lmic) (.inr h.longRange)
    rw [← hchip] at hlong hflags hmask hmode
    refine ⟨_, hstep, {
      released := hb'
      longRange := hlong
      agrees := h.agrees
      tunable := h.tunable
      fits := h.fits
      flags := hflags
      payload := fun payload hp => absurd hp (by simp [Transceiver.step])
      doing := ⟨hmode, hmask, rfl⟩ }⟩
  · obtain ⟨hlisten, hmode⟩ := listening_startrx (l := b.lmic) (.inr h.longRange) h.sf_ne hrssi
    have hdoing : (t.step (.rx rxmode)).2.activity = .listening t.lmic (rxmode = rxmodeSingle) := if_neg hrssi
    have hscan : rxmode = if (rxmode = rxmodeSingle : Bool) then rxmodeSingle else rxmodeScan :=
      forall_uint8 (p := fun m => m ≤ 2 → m ≠ rxmodeRssi →
        m = if (m = rxmodeSingle : Bool) then rxmodeSingle else rxmodeScan) (by decide) rxmode hi hrssi
    have heq : t.lmic.registers = t.lmic.modulation := by
      have hsf := h.sf_ne
      rw [h.agrees.2.1] at hsf
      exact ((registers_eq_iff hsf).mpr h.tunable).2
    refine ⟨_, hstep, {
      released := hb'
      longRange := hlisten.longRange
      agrees := h.agrees
      tunable := h.tunable
      fits := h.fits
      flags := hlisten.flags
      payload := fun payload hp => absurd hp (by simp [Transceiver.step])
      doing := ?_ }⟩
    rw [hdoing]
    refine ⟨?_, ?_, heq, h.fits, .inl rfl⟩
    · have hchip : b.bus.device.startrx b.lmic rxmode = b.bus.device.rxlora b.lmic rxmode := if_neg h.sf_ne
      show (b.bus.device.startrx b.lmic rxmode).mode = _
      rw [hchip, Sx1272.rxlora]
      by_cases hsingle : rxmode = rxmodeSingle
      · rw [if_pos hsingle, if_pos (decide_eq_true hsingle)]
        exact Sx1272.opmode_mode (by decide) _
      · rw [if_neg hsingle, if_neg fun hc => hsingle (of_decide_eq_true hc)]
        exact Sx1272.opmode_mode (by decide) _
    · rw [← hscan]
      exact hlisten.toTuned.agrees h.agrees

theorem step_sleep (h : Refines N b t) :
    ∃ b', step .sleep b = .ok ((t.step .sleep).1, b') ∧ Refines N b' (t.step .sleep).2 := by
  obtain ⟨hok, -, -⟩ := does_opmode (l := b.lmic) opmodeSleep b h.released rfl
  have hstep : step .sleep b = .ok (.none, b.onChip (Sx1272.opmode opmodeSleep)) :=
    congrArg (Except.map fun r : Unit × Board => (Output.none, r.2)) hok
  have hreg := Sx1272.reg_opmode (m := opmodeSleep) (by decide) b.bus.device
  have hmode : (b.bus.device.opmode opmodeSleep).mode = opmodeSleep := Sx1272.opmode_mode (by decide) _
  have hlen : (b.bus.device.opmode opmodeSleep).rxLength = b.bus.device.rxLength := by
    rw [Sx1272.rxLength, hreg, hreg, hreg, Sx1272.rxLength]
  refine ⟨_, hstep, {
    released := h.released
    longRange := (Sx1272.opmode_longRange (by decide) _).mpr h.longRange
    agrees := h.agrees
    tunable := h.tunable
    fits := h.fits
    flags := ?_
    payload := ?_
    doing := .inl hmode }⟩
  · rw [show (t.step .sleep).2.event.flag = t.event.flag from lose_flag t.event, ← h.flags]
    exact hreg _
  · intro payload hp
    obtain ⟨payload', he, hz⟩ := lose_eq_received.mp hp
    obtain ⟨hN', hlen', -⟩ := h.payload payload' he
    have hl : payload.length = payload'.length := by rw [hz, List.length_replicate]
    refine ⟨by omega, ?_, ?_⟩
    · show (b.bus.device.opmode opmodeSleep).rxLength.toNat = _
      rw [hlen, hlen', hl]
    · show (b.bus.device.opmode opmodeSleep).rxPayload = _
      rw [Sx1272.rxPayload, if_pos hmode, hlen, hlen', hz]

theorem step_irqFlag (h : Refines N b t) (mask : UInt8) :
    ∃ b', step (.irqFlag mask) b = .ok ((t.step (.irqFlag mask)).1, b') ∧ Refines N b' (t.step (.irqFlag mask)).2 := by
  have hread : readReg loraRegIrqFlags b = .ok (b.bus.device.reg loraRegIrqFlags, b) :=
    readReg_plain h.released rfl (by decide)
  refine ⟨b, ?_, h⟩
  rw [h.flags] at hread
  have hflag : radioIrqFlag mask b = .ok (t.event.flag &&& mask, b) := by
    rw [radioIrqFlag, bind_ok hread]
    rfl
  show (radioIrqFlag mask b).map _ = _
  rw [hflag]
  rfl

theorem finish_regs (hlong : c.LongRange) : c.finish.LongRange ∧ c.finish.mode = opmodeSleep ∧
    c.finish.reg loraRegIrqFlags = 0 := by
  have hmask : Sx1272.Plain loraRegIrqFlagsMask := by decide
  have hfinish : c.finish = ((c.setReg loraRegIrqFlagsMask 0xFF).setReg loraRegIrqFlags
      ((c.setReg loraRegIrqFlagsMask 0xFF).reg loraRegIrqFlags &&& ~~~0xFF)).opmode opmodeSleep := by
    rw [Sx1272.finish, Sx1272.write_plain hmask, Sx1272.write_irqFlags (Sx1272.setReg_longRange.mpr hlong)]
  rw [hfinish]
  refine ⟨(Sx1272.opmode_longRange (by decide) _).mpr hlong, Sx1272.opmode_mode (by decide) _, ?_⟩
  rw [Sx1272.reg_opmode (by decide), Sx1272.reg_setReg, if_pos rfl, Sx1272.and_not_all]

theorem loraIrq_event (h : Refines N b t) (now : Int32) {capacity : Nat} (hcap : N ≤ capacity) (len : Nat) :
    ∃ b', loraIrq (b.bus.device.reg loraRegIrqFlags) now capacity len b = .ok (t.event.handled len, b') ∧ b'.Released ∧
      b'.bus.device.LongRange ∧ b'.lmic.Agrees t.lmic := by
  rw [h.flags]
  cases he : t.event with
  | nothing => exact ⟨b, loraIrq_none (by decide) (by decide), h.released, h.longRange, h.agrees⟩
  | sent => exact ⟨_, loraIrq_txdone (by decide), h.released, h.longRange, h.agrees⟩
  | timedOut => exact ⟨b, loraIrq_none (by decide) (by decide), h.released, h.longRange, h.agrees⟩
  | received payload =>
      obtain ⟨hN, hlen, hpayload⟩ := h.payload payload he
      have hsf : b.lmic.bw = bw125 → b.lmic.sf ≤ 6 := by
        intro _
        rw [h.agrees.2.1]
        exact h.tunable.sf.2
      have hroom : b.bus.device.rxLength.toNat ≤ capacity := by omega
      obtain ⟨rxtime, hirq⟩ := loraIrq_rxdone now len h.released h.longRange
        (show irqLoraRxdoneMask &&& irqLoraTxdoneMask = 0 by decide) (by decide) hsf hroom
      rw [hlen, hpayload] at hirq
      exact ⟨_, hirq, h.released, h.longRange, h.agrees⟩

theorem step_irqHandler (h : Refines N b t) (ticks : UInt32) {capacity : Nat} (hcap : N ≤ capacity) (len : Nat) :
    ∃ b', step (.irqHandler ticks capacity len) b = .ok ((t.step (.irqHandler ticks capacity len)).1, b') ∧
      Refines N b' (t.step (.irqHandler ticks capacity len)).2 := by
  obtain ⟨b', hirq, hb', hlong', hagrees⟩ := loraIrq_event h (osGetTime ticks) hcap len
  have hhandler := radioIrqHandler_lora h.released h.longRange ticks capacity len hirq hb'
  obtain ⟨hlong, hmode, hflags⟩ := finish_regs hlong'
  have hstep : step (.irqHandler ticks capacity len) b =
      .ok (.handled (t.event.handled len).1 (t.event.handled len).2, b'.onChip Sx1272.finish) :=
    congrArg (Except.map fun r : (Nat × List UInt8) × Board => (Output.handled r.1.1 r.1.2, r.2)) hhandler
  exact ⟨_, hstep, {
    released := hb'
    longRange := hlong
    agrees := hagrees
    tunable := h.tunable
    fits := h.fits
    flags := hflags
    payload := fun payload hp => absurd hp (by simp [Transceiver.step])
    doing := .inl hmode }⟩

/-! ### What the chip does by itself -/

theorem sends_eq_none (h : c.mode ≠ opmodeTx) : c.sends = none := if_neg fun hc => h hc.2.1

theorem not_hears (h : c.mode ≠ opmodeRx) (h' : c.mode ≠ opmodeRxSingle) (p : Packet) : ¬ c.Hears p := by
  rintro ⟨-, hm | hm, -⟩
  · exact h hm
  · exact h' hm

theorem standby_refines (c' : Sx1272) (e : Event) (h : Refines N b t) (hlong : c'.LongRange)
    (hmode : c'.mode = opmodeStandby) (hflags : c'.reg loraRegIrqFlags = e.flag)
    (he : ∀ payload, e = .received payload → payload.length ≤ N ∧
      c'.rxLength.toNat = payload.length ∧ c'.rxPayload = payload) :
    Refines N (b.onChip fun _ => c') { t with activity := .idle, event := e } where
  released := h.released
  longRange := hlong
  agrees := h.agrees
  tunable := h.tunable
  fits := h.fits
  flags := hflags
  payload := he
  doing := .inr hmode

theorem step_sent (h : Refines N b t) :
    ∃ b', step .sent b = .ok ((t.step .sent).1, b') ∧ Refines N b' (t.step .sent).2 := by
  have hquiet (hmode : b.bus.device.mode ≠ opmodeTx) : step .sent b = .ok (.none, b) := by
    rw [step, sends_eq_none hmode]
  have hdoing := h.doing
  cases ha : t.activity with
  | idle =>
      rw [ha] at hdoing
      refine ⟨b, ?_, ?_⟩
      · rw [Transceiver.step, ha]
        rcases hdoing with hm | hm
        · exact hquiet (by rw [hm]; decide)
        · exact hquiet (by rw [hm]; decide)
      · rw [Transceiver.step, ha]
        exact h
  | sending p =>
      rw [ha] at hdoing
      obtain ⟨hmode, hsends, hmask, he⟩ := hdoing
      cases p with
      | none =>
          refine ⟨b, ?_, ?_⟩
          · rw [Transceiver.step, ha, step, hsends]
          · rw [Transceiver.step, ha]
            exact h
      | some p =>
          have hflags := h.flags
          rw [he] at hflags
          refine ⟨b.onChip Sx1272.sent, ?_, ?_⟩
          · rw [Transceiver.step, ha, step, hsends]
          · rw [Transceiver.step, ha]
            apply standby_refines b.bus.device.sent .sent h
            · exact (Sx1272.standby_longRange _).mpr h.longRange
            · exact Sx1272.standby_mode _
            · rw [Sx1272.sent, Sx1272.reg_standby, Sx1272.raise, Sx1272.reg_setReg, if_pos rfl, hflags, hmask]
              decide
            · intro payload hp
              cases hp
  | listening l single =>
      rw [ha] at hdoing
      refine ⟨b, ?_, ?_⟩
      · rw [Transceiver.step, ha]
        refine hquiet ?_
        rw [hdoing.1]
        cases single <;> decide
      · rw [Transceiver.step, ha]
        exact h
  | sampling =>
      rw [ha] at hdoing
      refine ⟨b, ?_, ?_⟩
      · rw [Transceiver.step, ha]
        exact hquiet (by rw [hdoing.1]; decide)
      · rw [Transceiver.step, ha]
        exact h

theorem step_timedOut (h : Refines N b t) :
    ∃ b', step .timedOut b = .ok ((t.step .timedOut).1, b') ∧ Refines N b' (t.step .timedOut).2 := by
  have hquiet (hmode : b.bus.device.mode ≠ opmodeRxSingle) : step .timedOut b = .ok (.none, b) :=
    congrArg (fun b => Except.ok (Output.none, b)) (if_neg fun hc => hmode hc.2)
  have hdoing := h.doing
  cases ha : t.activity with
  | idle =>
      rw [ha] at hdoing
      refine ⟨b, ?_, ?_⟩
      · rw [Transceiver.step, ha]
        rcases hdoing with hm | hm
        · exact hquiet (by rw [hm]; decide)
        · exact hquiet (by rw [hm]; decide)
      · rw [Transceiver.step, ha]
        exact h
  | sending p =>
      rw [ha] at hdoing
      refine ⟨b, ?_, ?_⟩
      · rw [Transceiver.step, ha]
        exact hquiet (by rw [hdoing.1]; decide)
      · rw [Transceiver.step, ha]
        exact h
  | listening l single =>
      rw [ha] at hdoing
      obtain ⟨hmode, htuned, -, -, he⟩ := hdoing
      cases single with
      | false =>
          refine ⟨b, ?_, ?_⟩
          · rw [Transceiver.step, ha]
            exact hquiet (by rw [hmode]; decide)
          · rw [Transceiver.step, ha]
            exact h
      | true =>
          have hnothing : t.event = .nothing := by
            rcases he with he | ⟨hs, -⟩
            · exact he
            · exact absurd hs (by decide)
          have hflags := h.flags
          rw [hnothing] at hflags
          refine ⟨b.onChip Sx1272.timedOut, ?_, ?_⟩
          · rw [Transceiver.step, ha]
            exact congrArg (fun b => Except.ok (Output.none, b)) (if_pos ⟨h.longRange, hmode⟩)
          · rw [Transceiver.step, ha]
            apply standby_refines b.bus.device.timedOut .timedOut h
            · exact (Sx1272.standby_longRange _).mpr h.longRange
            · exact Sx1272.standby_mode _
            · rw [Sx1272.timedOut, Sx1272.reg_standby, Sx1272.raise, Sx1272.reg_setReg, if_pos rfl, hflags, htuned.mask]
              decide
            · intro payload hp
              cases hp
  | sampling =>
      rw [ha] at hdoing
      refine ⟨b, ?_, ?_⟩
      · rw [Transceiver.step, ha]
        exact hquiet (by rw [hdoing.1]; decide)
      · rw [Transceiver.step, ha]
        exact h

theorem Lmic.Hears.length_le {p : Packet} (h : l.Hears p) (hN : 64 ≤ N) (hih : l.ih.toNat ≤ N) :
    p.payload.length ≤ N := by
  obtain ⟨-, hlen⟩ := h
  split at hlen
  · omega
  · omega

section Received
variable {p : Packet} {start snr rssi : UInt8}

theorem received_sampling (h : Refines N b t) (ha : t.activity = .sampling) :
    Refines N (b.onChip (Sx1272.received p start snr rssi)) t := by
  have hdoing := h.doing
  rw [ha] at hdoing
  obtain ⟨hmode, hmask, he⟩ := hdoing
  have hstored : b.bus.device.received p start snr rssi = b.bus.device.stored p start snr rssi := by
    rw [Sx1272.received_eq, if_neg (by rw [hmode]; decide)]
  have hflags := h.flags
  rw [he] at hflags
  have hflags' : (b.bus.device.received p start snr rssi).reg loraRegIrqFlags = t.event.flag := by
    rw [Sx1272.reg_received, Sx1272.reg_stored, if_pos rfl, hflags, hmask, he]
    decide
  refine {
    released := h.released
    longRange := Sx1272.received_longRange.mpr h.longRange
    agrees := h.agrees
    tunable := h.tunable
    fits := h.fits
    flags := hflags'
    payload := fun payload hp => absurd (he.symm.trans hp) (by simp)
    doing := ?_ }
  rw [ha]
  refine ⟨?_, ?_, he⟩
  · show (b.bus.device.received p start snr rssi).mode = _
    rw [hstored]
    exact hmode
  · show (b.bus.device.received p start snr rssi).reg _ = _
    rw [Sx1272.reg_received, Sx1272.reg_stored]
    exact hmask

theorem received_listening (h : Refines N b t) (hN : 64 ≤ N) {single : Bool} (ha : t.activity = .listening l single)
    (hp : l.Hears p) : Refines N (b.onChip (Sx1272.received p start snr rssi))
      { t with activity := if single then .idle else t.activity, event := .received p.payload } := by
  have hdoing := h.doing
  rw [ha] at hdoing
  obtain ⟨hmode, htuned, heq, hih, he⟩ := hdoing
  have hawake : b.bus.device.mode ≠ opmodeSleep := by
    rw [hmode]
    cases single <;> decide
  obtain ⟨hlen, hpayload⟩ := htuned.rx start snr rssi hawake hp.2
  have hold : b.bus.device.reg loraRegIrqFlags = 0 ∨ b.bus.device.reg loraRegIrqFlags = irqLoraRxdoneMask := by
    rw [h.flags]
    rcases he with he | ⟨-, payload, he⟩
    · exact .inl (by rw [he]; rfl)
    · exact .inr (by rw [he]; rfl)
  have hflags := htuned.flags_received p start snr rssi (by cases single <;> decide) hold
  have hlong : (b.bus.device.received p start snr rssi).LongRange := Sx1272.received_longRange.mpr h.longRange
  have hevent (payload : List UInt8) (hpay : Event.received p.payload = .received payload) : payload.length ≤ N ∧
      (b.bus.device.received p start snr rssi).rxLength.toNat = payload.length ∧
      (b.bus.device.received p start snr rssi).rxPayload = payload := by
    cases hpay
    exact ⟨hp.length_le hN hih, hlen, hpayload⟩
  cases single with
  | true =>
      have hstandby : (b.bus.device.received p start snr rssi).mode = opmodeStandby := by
        have hsingle : b.bus.device.mode = opmodeRxSingle := hmode
        rw [Sx1272.received_eq, if_pos hsingle]
        exact Sx1272.standby_mode _
      exact standby_refines _ _ h hlong hstandby hflags hevent
  | false =>
      have hstored : b.bus.device.received p start snr rssi = b.bus.device.stored p start snr rssi := by
        rw [Sx1272.received_eq, if_neg (by rw [hmode]; decide)]
      have hreg (a : UInt8) : (b.bus.device.received p start snr rssi).reg a = _ :=
        (Sx1272.reg_received a).trans (Sx1272.reg_stored a)
      refine {
        released := h.released
        longRange := hlong
        agrees := h.agrees
        tunable := h.tunable
        fits := h.fits
        flags := hflags
        payload := hevent
        doing := ?_ }
      show Sx1272.Doing N (b.bus.device.received p start snr rssi) (.received p.payload) t.activity
      rw [ha]
      refine ⟨?_, ?_, heq, hih, .inr ⟨rfl, p.payload, rfl⟩⟩
      · rw [hstored]
        exact hmode
      · apply htuned.congr hlong
        intro a hmem
        rw [hreg]
        simp only [List.mem_cons, List.not_mem_nil, or_false] at hmem
        rcases hmem with rfl | rfl | rfl | rfl | rfl | rfl | rfl | rfl | rfl <;> rfl

theorem step_received (h : Refines N b t) (hN : 64 ≤ N) :
    ∃ b', step (.received p start snr rssi) b = .ok ((t.step (.received p start snr rssi)).1, b') ∧
      Refines N b' (t.step (.received p start snr rssi)).2 := by
  have hheard (hc : b.bus.device.Hears p) : step (.received p start snr rssi) b =
      .ok (.none, b.onChip (Sx1272.received p start snr rssi)) :=
    congrArg (fun b => Except.ok (Output.none, b)) (if_pos hc)
  have hquiet (hc : ¬ b.bus.device.Hears p) : step (.received p start snr rssi) b = .ok (.none, b) :=
    congrArg (fun b => Except.ok (Output.none, b)) (if_neg hc)
  have hdoing := h.doing
  cases ha : t.activity with
  | idle =>
      rw [ha] at hdoing
      rw [Transceiver.step, ha]
      refine ⟨b, hquiet ?_, h⟩
      rcases hdoing with hm | hm
      · exact not_hears (by rw [hm]; decide) (by rw [hm]; decide) p
      · exact not_hears (by rw [hm]; decide) (by rw [hm]; decide) p
  | sending q =>
      rw [ha] at hdoing
      rw [Transceiver.step, ha]
      exact ⟨b, hquiet (not_hears (by rw [hdoing.1]; decide) (by rw [hdoing.1]; decide) p), h⟩
  | listening l single =>
      rw [ha] at hdoing
      obtain ⟨hmode, htuned, heq, -, -⟩ := hdoing
      have hiff : b.bus.device.Hears p ↔ l.Hears p := by
        apply htuned.hears_iff heq
        cases single with
        | true => exact .inr hmode
        | false => exact .inl hmode
      rw [Transceiver.step, ha]
      by_cases hp : l.Hears p
      · have hrefines : Refines N (b.onChip (Sx1272.received p start snr rssi)) _ := received_listening h hN ha hp
        rw [ha] at hrefines
        simp only [if_pos hp]
        exact ⟨_, hheard (hiff.mpr hp), hrefines⟩
      · simp only [if_neg hp]
        exact ⟨b, hquiet fun hc => hp (hiff.mp hc), h⟩
  | sampling =>
      rw [Transceiver.step, ha]
      by_cases hc : b.bus.device.Hears p
      · exact ⟨_, hheard hc, received_sampling h ha⟩
      · exact ⟨b, hquiet hc, h⟩

end Received

theorem refines_step (hN : 64 ≤ N) (i : Input) (b : Board) (t : Transceiver) (h : Refines N b t) (hi : Proper N i) :
    ∃ b', step i b = .ok ((t.step i).1, b') ∧ Refines N b' (t.step i).2 := by
  cases i with
  | init reset => exact absurd hi id
  | setConfig freq txpow sf bw cr ih noCRC => exact step_setConfig h hi
  | tx buffer => exact step_tx h buffer
  | rx rxmode => exact step_rx h hi
  | sleep => exact step_sleep h
  | irqFlag mask => exact step_irqFlag h mask
  | irqHandler ticks capacity len => exact step_irqHandler h ticks hi len
  | sent => exact step_sent h
  | received p start snr rssi => exact step_received h hN
  | timedOut => exact step_timedOut h
  | fskSent =>
      have hnone : b.bus.device.fskSends = none := if_neg fun hc => hc.1 h.longRange
      refine ⟨b, ?_, h⟩
      rw [step, hnone]
      rfl
  | fskReceived payload =>
      refine ⟨b, ?_, h⟩
      exact congrArg (fun b => Except.ok (Output.none, b)) (if_neg fun hc => hc.1 h.longRange)
  | fskTimedOut =>
      refine ⟨b, ?_, h⟩
      exact congrArg (fun b => Except.ok (Output.none, b)) (if_neg fun hc => hc.1 h.longRange)

end Steps

/-! ## Whole runs -/

theorem refines_initialized {N : Nat} {b : Board} (hb : b.Released) (ht : b.lmic.Tunable) (hih : b.lmic.ih.toNat ≤ N)
    (reset : Sx1272) (bits : List Bool) (noise : List UInt8) :
    Refines N (initialized reset bits noise b) ⟨b.lmic, .idle, .nothing⟩ := by
  have hasleep : (reset.opmode opmodeSleep).mode = opmodeSleep := Sx1272.opmode_mode (by decide) _
  obtain ⟨hlong, ⟨hflags, -⟩, -⟩ := Sx1272.rxlora_rssi (l := b.lmic) (.inl hasleep)
  let c : Sx1272 := { (reset.opmode opmodeSleep).rxlora b.lmic rxmodeRssi with noise }
  exact {
    released := hb
    longRange := (Sx1272.opmode_longRange (by decide) c).mpr hlong
    agrees := ⟨rfl, rfl, rfl, rfl, rfl, rfl⟩
    tunable := ht
    fits := hih
    flags := (Sx1272.reg_opmode (by decide) c _).trans hflags
    payload := fun payload hp => by cases hp
    doing := .inl (Sx1272.opmode_mode (by decide) c) }

theorem refines_radioInit {N : Nat} {b b₀ : Board} (hb : b.Released) (ht : b.lmic.Tunable) (hih : b.lmic.ih.toNat ≤ N)
    {reset : Sx1272} (hinit : radioInit reset b = .ok ((), b₀)) : Refines N b₀ ⟨b.lmic, .idle, .nothing⟩ := by
  rw [radioInit_eq hb] at hinit
  cases htake : Extractor.takeBits lastBit 120 reset.noise with
  | none =>
      rw [htake] at hinit
      cases hinit
  | some r =>
      rw [htake] at hinit
      obtain rfl : initialized reset r.1 r.2 b = b₀ := (Prod.mk.inj (Except.ok.inj hinit)).2
      exact refines_initialized hb ht hih reset r.1 r.2

theorem refines_run {N : Nat} (hN : 64 ≤ N) {b : Board} {t : Transceiver} (h : Refines N b t) {is : List Input}
    (his : ∀ i ∈ is, Proper N i) : ∃ b', exec step is b = .ok (outputs Transceiver.step is t, b') :=
  exec_refines (fun i s t h hi => refines_step hN i s t h hi) his h

/-- After `radio_init`, the driver with the chip, byte by byte on the bus, is the transceiver, along every run of
proper calls and of what the chip does by itself. No such run ends in a fault. -/
theorem lora_refines_transceiver {N : Nat} (hN : 64 ≤ N) {b b₀ : Board} (hb : b.Released) (ht : b.lmic.Tunable)
    (hih : b.lmic.ih.toNat ≤ N) {reset : Sx1272} (hinit : radioInit reset b = .ok ((), b₀)) {is : List Input}
    (his : ∀ i ∈ is, Proper N i) :
    ∃ b', exec step is b₀ = .ok (outputs Transceiver.step is ⟨b.lmic, .idle, .nothing⟩, b') :=
  refines_run hN (refines_radioInit hb ht hih hinit) his

theorem transceiver_sf7 : ∃ b₀ b', radioInit .noisy (.blank .sf7) = .ok ((), b₀) ∧
    exec step [.tx [1, 2, 3], .sent, .irqHandler 0 64 0, .rx rxmodeSingle, .timedOut, .irqHandler 0 64 5] b₀ =
      .ok ([.none, .packet ⟨Lmic.sf7.modulation, [1, 2, 3]⟩, .handled 0 [], .none, .none, .handled 0 []], b') := by
  obtain ⟨b₀, hinit⟩ := radioInit_noisy
  have his : ∀ i ∈ ([.tx [1, 2, 3], .sent, .irqHandler 0 64 0, .rx rxmodeSingle, .timedOut, .irqHandler 0 64 5] :
      List Input), Proper 64 i := by
    simp [Proper]
    decide
  obtain ⟨b', hrun⟩ := lora_refines_transceiver (N := 64) (by decide) (b := .blank .sf7) (released_blank _) (by decide)
    (by decide) hinit his
  exact ⟨b₀, b', hinit, hrun⟩

def Output.air : Output → Option Packet
  | .packet p => some p
  | _ => Option.none

def Input.settings (l : Lmic) : Input → Lmic
  | .setConfig freq txpow sf bw cr ih noCRC => { l with freq, txpow, sf, bw, cr, ih, noCRC }
  | _ => l

def Input.asks (l : Lmic) : Input → Option Packet
  | .tx buffer => packet l buffer
  | _ => Option.none

/-- The packets that a run asks for, with the settings that are in force. -/
def asked : List Input → Lmic → List Packet
  | [], _ => []
  | i :: is, l => (i.asks l).toList ++ asked is (i.settings l)

def Activity.packet : Activity → Option Packet
  | .sending p => p
  | _ => Option.none

theorem settings_step (i : Input) (t : Transceiver) : (t.step i).2.lmic = i.settings t.lmic := by
  cases i with
  | sent =>
      rw [Transceiver.step]
      split <;> rfl
  | received p start snr rssi =>
      rw [Transceiver.step]
      split
      · split <;> rfl
      · rfl
  | timedOut =>
      rw [Transceiver.step]
      split <;> rfl
  | _ => rfl

/-- What a step puts on the air was on its way, and what is on its way after it was there or was asked for. -/
theorem air_step (i : Input) (t : Transceiver) :
    ((t.step i).1.air.toList ++ (t.step i).2.activity.packet.toList).Sublist
      (t.activity.packet.toList ++ (i.asks t.lmic).toList) := by
  have hidle : ([] : List Packet).Sublist (t.activity.packet.toList ++ (i.asks t.lmic).toList) := List.nil_sublist _
  cases i with
  | init reset => exact List.sublist_append_left _ _
  | setConfig freq txpow sf bw cr ih noCRC => exact List.sublist_append_left _ _
  | tx buffer => exact List.sublist_append_right _ _
  | rx rxmode =>
      rw [Transceiver.step]
      split
      · exact hidle
      · exact hidle
  | sleep => exact hidle
  | irqFlag mask => exact List.sublist_append_left _ _
  | irqHandler ticks capacity len => exact hidle
  | sent =>
      rw [Transceiver.step]
      split
      · rename_i p ha
        rw [ha]
        exact List.Sublist.refl _
      · exact List.sublist_append_left _ _
  | received p start snr rssi =>
      rw [Transceiver.step]
      split
      · rename_i l single ha
        rw [ha]
        split
        · cases single
          · exact List.Sublist.refl _
          · exact List.nil_sublist _
        · rw [ha]
          exact List.Sublist.refl _
      · exact List.sublist_append_left _ _
  | timedOut =>
      rw [Transceiver.step]
      split
      · exact hidle
      · exact List.sublist_append_left _ _
  | fskSent => exact List.sublist_append_left _ _
  | fskReceived payload => exact List.sublist_append_left _ _
  | fskTimedOut => exact List.sublist_append_left _ _

theorem offers_asked (is : List Input) (t : Transceiver) :
    offers Transceiver.step (fun i t => (i.asks t.lmic).toList) is t = asked is t.lmic := by
  induction is generalizing t with
  | nil => rfl
  | cons i is ih => rw [offers, asked, ih, settings_step]

theorem air_sublist (is : List Input) (t : Transceiver) :
    ((outputs Transceiver.step is t).filterMap Output.air).Sublist (t.activity.packet.toList ++ asked is t.lmic) := by
  have hqueue := outputs_sublist (P := fun _ => True) Transceiver.step Output.air (fun t => t.activity.packet.toList)
    (fun i t => (i.asks t.lmic).toList) (fun i t _ => air_step i t) (fun i (_ : i ∈ is) => trivial) t
  rw [offers_asked] at hqueue
  exact (List.sublist_append_left _ _).trans hqueue

/-- What a run puts on the air are packets that it asked for, unaltered, each one at most once, and in this order. -/
theorem lora_air_sublist {N : Nat} (hN : 64 ≤ N) {b b₀ : Board} (hb : b.Released) (ht : b.lmic.Tunable)
    (hih : b.lmic.ih.toNat ≤ N) {reset : Sx1272} (hinit : radioInit reset b = .ok ((), b₀)) {is : List Input}
    (his : ∀ i ∈ is, Proper N i) {os : List Output} {b' : Board} (hrun : exec step is b₀ = .ok (os, b')) :
    (os.filterMap Output.air).Sublist (asked is b.lmic) := by
  obtain ⟨b₁, hok⟩ := refines_run hN (refines_radioInit hb ht hih hinit) his
  obtain ⟨rfl, -⟩ := ok_unique hrun hok
  exact air_sublist is ⟨b.lmic, .idle, .nothing⟩

theorem lora_air_sf7 : ∃ b₀ os b', radioInit .noisy (.blank .sf7) = .ok ((), b₀) ∧
    exec step [.tx [1, 2, 3], .tx [4], .sent, .sent] b₀ = .ok (os, b') ∧
      (os.filterMap Output.air).Sublist (asked [.tx [1, 2, 3], .tx [4], .sent, .sent] .sf7) := by
  obtain ⟨b₀, hinit⟩ := radioInit_noisy
  have hproper : ∀ i ∈ ([.tx [1, 2, 3], .tx [4], .sent, .sent] : List Input), Proper 64 i := by simp [Proper]
  obtain ⟨b', hrun⟩ := refines_run (N := 64) (by decide)
    (refines_radioInit (released_blank _) (by decide) (by decide) hinit) hproper
  exact ⟨b₀, _, b', hinit, hrun, lora_air_sublist (N := 64) (by decide) (released_blank _) (by decide) (by decide) hinit
    hproper hrun⟩

/-! ### What is handed out -/

def Output.buffer : Output → Option (List UInt8)
  | .handled _ (x :: xs) => some (x :: xs)
  | _ => Option.none

def Input.payload : Input → Option (List UInt8)
  | .received p _ _ _ => some p.payload
  | _ => Option.none

def Event.waiting : Event → Option (List UInt8)
  | .received payload => some payload
  | _ => none

/-- What a step hands out was waiting, and what is waiting after it was there or came in, unless the chip was put to
sleep. -/
theorem buffer_step {i : Input} (t : Transceiver) (hi : i ≠ .sleep) :
    ((t.step i).1.buffer.toList ++ (t.step i).2.event.waiting.toList).Sublist
      (t.event.waiting.toList ++ i.payload.toList) := by
  have hidle : ([] : List (List UInt8)).Sublist (t.event.waiting.toList ++ i.payload.toList) := List.nil_sublist _
  cases i with
  | sleep => exact absurd rfl hi
  | rx rxmode => exact hidle
  | tx buffer => exact hidle
  | irqHandler ticks capacity len =>
      show ((Output.handled (t.event.handled len).1 (t.event.handled len).2).buffer.toList ++ []).Sublist _
      rw [List.append_nil]
      cases t.event with
      | nothing => exact List.nil_sublist _
      | sent => exact List.nil_sublist _
      | timedOut => exact List.nil_sublist _
      | received payload =>
          cases payload with
          | nil => exact List.nil_sublist _
          | cons x xs => exact List.Sublist.refl _
  | sent =>
      rw [Transceiver.step]
      split
      · exact hidle
      · exact List.sublist_append_left _ _
  | received p start snr rssi =>
      rw [Transceiver.step]
      split
      · split
        · exact List.sublist_append_right _ _
        · exact List.sublist_append_left _ _
      · exact List.sublist_append_left _ _
  | timedOut =>
      rw [Transceiver.step]
      split
      · exact hidle
      · exact List.sublist_append_left _ _
  | _ => exact List.sublist_append_left _ _

theorem buffer_sublist {is : List Input} (h : ∀ i ∈ is, i ≠ .sleep) (t : Transceiver) :
    ((outputs Transceiver.step is t).filterMap Output.buffer).Sublist
      (t.event.waiting.toList ++ is.filterMap Input.payload) := by
  have hqueue := outputs_sublist Transceiver.step Output.buffer (fun t => t.event.waiting.toList)
    (fun i _ => (Input.payload i).toList) (fun i t hi => buffer_step t hi) h t
  rw [offers_eq_filterMap] at hqueue
  exact (List.sublist_append_left _ _).trans hqueue

/-- What the handler hands out came in over the air, unaltered, each packet at most once, and in this order, as long as
the chip is not put to sleep in between. -/
theorem lora_buffer_sublist {N : Nat} (hN : 64 ≤ N) {b b₀ : Board} (hb : b.Released) (ht : b.lmic.Tunable)
    (hih : b.lmic.ih.toNat ≤ N) {reset : Sx1272} (hinit : radioInit reset b = .ok ((), b₀)) {is : List Input}
    (his : ∀ i ∈ is, Proper N i) (hawake : ∀ i ∈ is, i ≠ .sleep) {os : List Output} {b' : Board}
    (hrun : exec step is b₀ = .ok (os, b')) :
    (os.filterMap Output.buffer).Sublist (is.filterMap Input.payload) := by
  obtain ⟨b₁, hok⟩ := refines_run hN (refines_radioInit hb ht hih hinit) his
  obtain ⟨rfl, -⟩ := ok_unique hrun hok
  exact buffer_sublist hawake ⟨b.lmic, .idle, .nothing⟩

theorem lora_buffer_sf7 : ∃ b₀ os b', radioInit .noisy (.blank .sf7) = .ok ((), b₀) ∧
    exec step [.rx rxmodeScan, .received ⟨Lmic.sf7.modulation, [9]⟩ 0 0 0, .irqHandler 0 64 0] b₀ = .ok (os, b') ∧
      (os.filterMap Output.buffer).Sublist [[9]] := by
  obtain ⟨b₀, hinit⟩ := radioInit_noisy
  have hproper : ∀ i ∈ ([.rx rxmodeScan, .received ⟨Lmic.sf7.modulation, [9]⟩ 0 0 0, .irqHandler 0 64 0] : List Input),
      Proper 64 i := by
    simp [Proper]
    decide
  obtain ⟨b', hrun⟩ := refines_run (N := 64) (by decide)
    (refines_radioInit (released_blank _) (by decide) (by decide) hinit) hproper
  exact ⟨b₀, _, b', hinit, hrun, lora_buffer_sublist (N := 64) (by decide) (released_blank _) (by decide) (by decide)
    hinit hproper (by simp) hrun⟩

end KnotHal.Lora
