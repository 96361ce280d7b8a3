import KnotHal.Lib.Triple
import KnotHal.Lora.Seed

/-!
# No byte outside a window

* `Framed`, `Framed.bind`, `framed_writeReg`, `framed_readReg`, ... : what opens no window and leaves it open, and
  exchanges no byte outside one, statement by statement;
* `framed_step` : each call does;
* `bytes_framed` : and so does every run, whatever the settings, the buffers and the chip are.
-/

namespace KnotHal.Lora

open Machine Serial Sx127x

variable {α β : Type}

/-- Started with no window open, the program leaves none open, and exchanges no byte outside a window. -/
def Framed (p : Radio α) : Prop := Triple Board.Released p (fun _ => Board.Released) (· ≠ .released)

/-! ## Statements -/

theorem Framed.bind {p : Radio α} {k : α → Radio β} (hp : Framed p) (hk : ∀ a, Framed (k a)) : Framed (p >>= k) :=
  Triple.bind hp hk

theorem Framed.ite {c : Prop} [Decidable c] {p q : Radio α} (hp : Framed p) (hq : Framed q) :
    Framed (if c then p else q) := Triple.ite (fun _ => hp) fun _ => hq

namespace Sx127x

variable {addr data : UInt8}

theorem framed_pure (a : α) : Framed (pure a : Radio α) := triple_pure fun _ h => h

theorem framed_get : Framed (get : Radio Board) := triple_get fun _ h => h

theorem framed_modify {f : Board → Board} (h : ∀ b : Board, b.Released → (f b).Released) :
    Framed (modify f : Radio PUnit) := triple_modify h

theorem framed_fail {f : Fault} (h : f ≠ .released) : Framed (fail f : Radio α) := triple_fault h

theorem framed_of_does {p : Radio Unit} (h : ∀ l, ∃ F, Does l p F) : Framed p := by
  intro b hb
  obtain ⟨F, hdoes⟩ := h b.lmic
  obtain ⟨hok, hb', -⟩ := hdoes b hb rfl
  rw [hok]
  exact hb'

theorem read_error {c : Sx1272} {f : Fault} (h : c.read addr = .error f) : f = .noise := by
  rw [Sx1272.read] at h
  split at h
  · cases h
  · split at h
    · cases h
    · split at h
      · split at h
        · exact (Except.error.inj h).symm
        · cases h
      · split at h
        · cases h
        · split at h
          · cases h
          · cases h

theorem readAll_error {c : Sx1272} {n : Nat} {f : Fault} (h : sx1272.readAll addr n c = .error f) : f = .noise := by
  induction n generalizing addr c with
  | zero => cases h
  | succ n ih =>
      rw [Device.readAll] at h
      cases hread : sx1272.read addr c with
      | error e =>
          rw [hread] at h
          obtain rfl : e = f := Except.error.inj h
          exact read_error hread
      | ok r =>
          rw [hread] at h
          cases hall : sx1272.readAll (sx1272.next addr) n r.2 with
          | error e =>
              have h' : (sx1272.readAll (sx1272.next addr) n r.2 >>= _) = Except.error f := h
              rw [hall] at h'
              obtain rfl : e = f := Except.error.inj h'
              exact ih hall
          | ok q =>
              have h' : (sx1272.readAll (sx1272.next addr) n r.2 >>= _) = Except.error f := h
              rw [hall] at h'
              cases h'

theorem framed_readBuf (n : Nat) : Framed (readBuf addr n) := by
  intro b hb
  rw [readBuf_eq hb]
  cases hall : sx1272.readAll (addr &&& 0x7F) n b.bus.device with
  | ok r => exact hb
  | error f =>
      rw [readAll_error hall]
      exact Fault.noConfusion

theorem framed_readReg (addr : UInt8) : Framed (readReg addr) := by
  intro b hb
  rw [readReg_eq hb]
  cases hread : b.bus.device.read (addr &&& 0x7F) with
  | ok r => exact hb
  | error f =>
      rw [read_error hread]
      exact Fault.noConfusion

theorem framed_writeReg (addr data : UInt8) : Framed (writeReg addr data) := by
  intro b hb
  rw [writeReg_eq hb]
  exact hb

theorem framed_modifyReg (addr : UInt8) (f : UInt8 → UInt8) : Framed (modifyReg addr f) :=
  (framed_readReg addr).bind fun v => framed_writeReg addr (f v)

theorem framed_opmode (mode : UInt8) : Framed (opmode mode) := framed_modifyReg regOpMode _

theorem framed_writeRegs (xs : List (UInt8 × UInt8)) : Framed (writeRegs xs) := by
  induction xs with
  | nil => exact framed_pure ()
  | cons p xs ih => exact (framed_writeReg p.1 p.2).bind fun _ => ih

/-! ## Functions -/

theorem framed_rxlorairqmask (rxmode : UInt8) : Framed (rxlorairqmask rxmode) :=
  (framed_pure _).ite ((framed_pure _).ite ((framed_pure _).ite (framed_fail (by decide))))

theorem framed_configLoraModem : Framed configLoraModem := framed_get.bind fun _ => framed_writeRegs _

theorem framed_configChannel : Framed configChannel := framed_get.bind fun _ => framed_writeRegs _

theorem framed_rxlora (rxmode : UInt8) : Framed (rxlora rxmode) := by
  have htail : Framed (do
      writeReg regLna (0x20 ||| 0x03)
      writeReg loraRegPayloadMaxLength 64
      writeReg loraRegSymbTimeoutLsb (← get).lmic.rxsyms
      writeReg loraRegSyncWord 0x34
      writeReg regDioMapping1 (0x00 ||| 0x00 ||| 0xC0)
      writeReg loraRegIrqFlags 0xFF
      writeReg loraRegIrqFlagsMask (~~~(← rxlorairqmask rxmode))
      halPinRxtx 0
      if rxmode = rxmodeSingle then opmode opmodeRxSingle else opmode opmodeRx) :=
    (framed_writeReg _ _).bind fun _ => (framed_writeReg _ _).bind fun _ => framed_get.bind fun _ =>
    (framed_writeReg _ _).bind fun _ => (framed_writeReg _ _).bind fun _ => (framed_writeReg _ _).bind fun _ =>
    (framed_writeReg _ _).bind fun _ => (framed_rxlorairqmask rxmode).bind fun _ => (framed_writeReg _ _).bind fun _ =>
    (framed_modify (by exact fun _ h => h)).bind fun _ => (framed_opmode _).ite (framed_opmode _)
  rw [rxlora]
  refine (framed_writeReg _ _).bind fun _ => (framed_opmode _).bind fun _ => Framed.ite ?_ ?_
  · exact (framed_writeRegs _).bind fun _ => htail
  · exact framed_configLoraModem.bind fun _ => framed_configChannel.bind fun _ => htail

theorem framed_radioRx (rxmode : UInt8) : Framed (radioRx rxmode) :=
  framed_get.bind fun _ => (framed_of_does fun l => ⟨_, does_rxfsk l⟩).ite (framed_rxlora rxmode)

theorem framed_radioTx (buffer : List UInt8) : Framed (radioTx buffer) :=
  framed_of_does fun l => ⟨_, does_radioTx l buffer⟩

theorem framed_room (capacity len : Nat) : Framed (room capacity len) :=
  (framed_pure ()).ite (framed_fail (by decide))

theorem framed_loraRxdoneFixup (sf : UInt8) : Framed (loraRxdoneFixup sf) :=
  (framed_pure _).ite <| (framed_pure _).ite <| (framed_pure _).ite <| (framed_pure _).ite <| (framed_pure _).ite <|
    (framed_pure _).ite (framed_fail (by decide))

theorem framed_rxNbBytes : Framed rxNbBytes :=
  (framed_readReg _).bind fun _ => (framed_readReg _).ite (framed_readReg _)

theorem framed_loraRxdone (now : Int32) (capacity : Nat) : Framed (loraRxdone now capacity) := by
  have hfixup : Framed rxdoneFixup := framed_get.bind fun _ => (framed_loraRxdoneFixup _).ite (framed_pure 0)
  exact hfixup.bind fun _ => (framed_modify (by exact fun _ h => h)).bind fun _ => framed_rxNbBytes.bind fun len =>
    (framed_readReg _).bind fun _ => (framed_writeReg _ _).bind fun _ => (framed_room capacity _).bind fun _ =>
    (framed_readBuf _).bind fun _ => (framed_readReg _).bind fun _ => (framed_readReg _).bind fun _ =>
    (framed_modify (by exact fun _ h => h)).bind fun _ => framed_pure _

theorem framed_loraIrq (flags : UInt8) (now : Int32) (capacity len : Nat) : Framed (loraIrq flags now capacity len) :=
  ((framed_modify (by exact fun _ h => h)).bind fun _ => framed_pure _).ite <| (framed_loraRxdone now capacity).ite <|
    (framed_pure _).ite (framed_pure _)

theorem framed_fskIrq (flags1 flags2 : UInt8) (now : Int32) (capacity len : Nat) :
    Framed (fskIrq flags1 flags2 now capacity len) := by
  have hready : Framed (do
      modify fun b : Board => { b with lmic := { b.lmic with rxtime := now } }
      let len ← readReg fskRegPayloadLength
      room capacity len.toNat
      let buf ← readBuf regFifo len.toNat
      modify fun b : Board => { b with lmic := { b.lmic with snr := 0, rssi := 0 } }
      return (len.toNat, buf)) :=
    (framed_modify (by exact fun _ h => h)).bind fun _ => (framed_readReg _).bind fun _ =>
      (framed_room capacity _).bind fun _ => (framed_readBuf _).bind fun _ =>
        (framed_modify (by exact fun _ h => h)).bind fun _ => framed_pure _
  exact ((framed_modify (by exact fun _ h => h)).bind fun _ => framed_pure _).ite <| hready.ite <|
    (framed_pure _).ite (framed_fail (by decide))

theorem framed_radioIrqHandler (ticks : UInt32) (capacity len : Nat) : Framed (radioIrqHandler ticks capacity len) := by
  have hlora : Framed (do
      let flags ← readReg loraRegIrqFlags
      let r ← loraIrq flags (osGetTime ticks) capacity len
      writeReg loraRegIrqFlagsMask 0xFF
      writeReg loraRegIrqFlags 0xFF
      opmode opmodeSleep
      return r) :=
    (framed_readReg _).bind fun _ => (framed_loraIrq _ _ capacity len).bind fun _ => (framed_writeReg _ _).bind fun _ =>
      (framed_writeReg _ _).bind fun _ => (framed_opmode _).bind fun _ => framed_pure _
  have hfsk : Framed (do
      let flags1 ← readReg fskRegIrqFlags1
      let flags2 ← readReg fskRegIrqFlags2
      let r ← fskIrq flags1 flags2 (osGetTime ticks) capacity len
      opmode opmodeSleep
      return r) :=
    (framed_readReg _).bind fun _ => (framed_readReg _).bind fun _ => (framed_fskIrq _ _ _ capacity len).bind fun _ =>
      (framed_opmode _).bind fun _ => framed_pure _
  exact (framed_readReg _).bind fun _ => hlora.ite hfsk

/-! ## The random bytes -/

theorem framed_differing (fuel : Nat) : Framed (differing fuel) := by
  induction fuel with
  | zero => exact framed_fail (by decide)
  | succ fuel ih => exact (framed_readReg _).bind fun _ => (framed_readReg _).bind fun _ => ih.ite (framed_pure _)

theorem framed_randBits (i : Fin 16) (n : Nat) : Framed (randBits i n) := by
  induction n with
  | zero => exact framed_pure ()
  | succ n ih =>
      exact framed_get.bind fun _ => (framed_differing _).bind fun _ =>
        (framed_modify (by exact fun _ h => h)).bind fun _ => ih

theorem framed_randBytes (is : List (Fin 16)) : Framed (randBytes is) := by
  induction is with
  | nil => exact framed_pure ()
  | cons i is ih => exact (framed_randBits i 8).bind fun _ => ih

theorem framed_radioInit (reset : Sx1272) : Framed (radioInit reset) := by
  have hlast : Framed (do
      randBytes ((List.finRange 16).drop 1)
      modify fun b : Board => { b with randbuf := Function.update b.randbuf randIndex 16 }
      opmode opmodeSleep) :=
    (framed_randBytes _).bind fun _ => (framed_modify (by exact fun _ h => h)).bind fun _ => framed_opmode _
  exact (framed_modify (by exact fun _ h => h)).bind fun _ => (framed_opmode _).bind fun _ =>
    (framed_rxlora _).bind fun _ => (framed_readReg _).bind fun _ => ((framed_fail (by decide)).bind fun _ => hlast).ite hlast

end Sx127x

/-! ## Runs -/

theorem Framed.output {p : Radio α} (h : Framed p) (out : α → Output) :
    Framed (fun b => (p b).map fun r => (out r.1, r.2)) := h.bind fun a => framed_pure (out a)

theorem framed_chip {i : Input} (h : ∀ b : Board, b.Released → ∃ o b', step i b = .ok (o, b') ∧ b'.Released) :
    Framed (step i) := by
  intro b hb
  obtain ⟨o, b', hok, hb'⟩ := h b hb
  rw [hok]
  exact hb'

theorem framed_step (i : Input) : Framed (step i) := by
  cases i with
  | init reset => exact (framed_radioInit reset).output fun _ => .none
  | setConfig freq txpow sf bw cr ih noCRC => exact fun _ h => h
  | tx buffer => exact (framed_radioTx buffer).output fun _ => .none
  | rx rxmode => exact (framed_radioRx rxmode).output fun _ => .none
  | sleep => exact (framed_opmode _).output fun _ => .none
  | irqFlag mask => exact ((framed_readReg _).bind fun _ => framed_pure _).output .flag
  | irqHandler ticks capacity len =>
      exact (framed_radioIrqHandler ticks capacity len).output fun r => .handled r.1 r.2
  | sent => exact framed_chip fun b hb => by rw [step]; split <;> exact ⟨_, _, rfl, hb⟩
  | received p start snr rssi => exact framed_chip fun b hb => by rw [step]; split <;> exact ⟨_, _, rfl, hb⟩
  | timedOut => exact framed_chip fun b hb => by rw [step]; split <;> exact ⟨_, _, rfl, hb⟩
  | fskSent => exact framed_chip fun b hb => by rw [step]; split <;> exact ⟨_, _, rfl, hb⟩
  | fskReceived payload => exact framed_chip fun b hb => by rw [step]; split <;> exact ⟨_, _, rfl, hb⟩
  | fskTimedOut => exact framed_chip fun b hb => by rw [step]; split <;> exact ⟨_, _, rfl, hb⟩

/-- In no run, whatever the settings, the buffers and the chip are, is a byte exchanged outside a window, and after it
no window is open. -/
theorem bytes_framed (is : List Input) {b : Board} (hb : b.Released) :
    exec step is b ≠ .error .released ∧ ∀ os b', exec step is b = .ok (os, b') → b'.Released := by
  have hrun : Triple (·.Released) (exec step is) _ _ := exec_triple fun i _ => framed_step i
  exact ⟨fun h => hrun.of_error hb h rfl, fun os b' h => hrun.of_ok hb h⟩

theorem bytes_framed_blank : exec step [.tx [1, 2, 3], .rx 7] (.blank .sf7) ≠ .error .released :=
  (bytes_framed [.tx [1, 2, 3], .rx 7] (released_blank .sf7)).1

end KnotHal.Lora
