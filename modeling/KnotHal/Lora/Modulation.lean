import KnotHal.Lora.Registers

/-!
# The settings in the registers

`configLoraModem` and `configChannel` pack the settings into a few registers, and cut what does not fit.

* `Lmic.modulation` : what the settings ask for; `Lmic.registers` : what the registers then hold;
* `Lmic.Tunable` : settings that fit;
* `registers_eq_iff` : exactly these are held as they were asked for;
* `frf_close` : how far the carrier is off;
* `Configured`, `modulation_eq` : the registers after the two functions.
-/

namespace KnotHal.Lora

open Serial

variable {c : Sx1272} {a v : UInt8} {l : Lmic}

/-! ## Asked and held -/

/-- The carrier that is asked for, in steps of 32 MHz / 2 ^ 19. -/
def Lmic.carrier (l : Lmic) : Nat := l.freq.toNat * 2 ^ 19 / 32000000

/-- What the settings ask for. -/
def Lmic.modulation (l : Lmic) : Modulation where
  frf := l.carrier
  bw := l.bw
  cr := l.cr + 1
  sf := l.sf + 6
  implicit := l.ih ≠ 0
  crc := l.noCRC = 0
  lowDataRate := (l.sf = sf11 ∨ l.sf = sf12) ∧ l.bw = bw125
  syncWord := 0x34

def mc2Sf (sf : UInt8) : UInt8 := (((0x70 : UInt8) + ((sf - 1) <<< 4)) ||| 0x04) >>> 4

/-- What the registers hold of them. -/
def Lmic.registers (l : Lmic) : Modulation where
  frf := l.carrier % 2 ^ 24
  bw := l.bw &&& 3
  cr := mc1Cr l.cr >>> 3
  sf := mc2Sf l.sf
  implicit := l.ih ≠ 0
  crc := l.noCRC = 0
  lowDataRate := (l.sf = sf11 ∨ l.sf = sf12) ∧ l.bw = bw125
  syncWord := 0x34

/-- Settings of the LoRa modem that fit into the registers. -/
structure Lmic.Tunable (l : Lmic) : Prop where
  sf : 1 ≤ l.sf ∧ l.sf ≤ 6
  bw : l.bw ≤ 2
  cr : l.cr ≤ 3
  freq : l.freq.toNat < 1024000000

instance (l : Lmic) : Decidable l.Tunable :=
  decidable_of_iff ((1 ≤ l.sf ∧ l.sf ≤ 6) ∧ l.bw ≤ 2 ∧ l.cr ≤ 3 ∧ l.freq.toNat < 1024000000)
    ⟨fun h => ⟨h.1, h.2.1, h.2.2.1, h.2.2.2⟩, fun h => ⟨h.sf, h.bw, h.cr, h.freq⟩⟩

theorem carrier_lt_iff (l : Lmic) : l.carrier < 2 ^ 24 ↔ l.freq.toNat < 1024000000 := by
  rw [Lmic.carrier]
  omega

theorem held_bw (bw : UInt8) : bw &&& 3 ≤ 2 ∧ bw &&& 3 = bw ↔ bw ≤ 2 :=
  forall_uint8 (p := fun bw => bw &&& 3 ≤ 2 ∧ bw &&& 3 = bw ↔ bw ≤ 2) (by decide) bw

theorem held_cr (cr : UInt8) :
    ((1 : UInt8) ≤ mc1Cr cr >>> 3 ∧ mc1Cr cr >>> 3 ≤ (4 : UInt8)) ∧ mc1Cr cr >>> 3 = cr + 1 ↔ cr ≤ 3 :=
  forall_uint8 (p := fun cr => ((1 : UInt8) ≤ mc1Cr cr >>> 3 ∧ mc1Cr cr >>> 3 ≤ (4 : UInt8)) ∧
    mc1Cr cr >>> 3 = cr + 1 ↔ cr ≤ 3) (by decide) cr

theorem held_sf {sf : UInt8} (h : sf ≠ sfFsk) : (6 ≤ mc2Sf sf ∧ mc2Sf sf ≤ 12) ∧ mc2Sf sf = sf + 6 ↔ 1 ≤ sf ∧ sf ≤ 6 :=
  forall_uint8 (p := fun sf => sf ≠ sfFsk → ((6 ≤ mc2Sf sf ∧ mc2Sf sf ≤ 12) ∧ mc2Sf sf = sf + 6 ↔ 1 ≤ sf ∧ sf ≤ 6))
    (by decide) sf h

/-- The settings that the registers hold as they were asked for, with values that mean something. -/
theorem registers_eq_iff (h : l.sf ≠ sfFsk) : l.registers.Valid ∧ l.registers = l.modulation ↔ l.Tunable := by
  constructor
  · rintro ⟨hvalid, heq⟩
    have hfrf : l.carrier % 2 ^ 24 = l.carrier := congrArg Modulation.frf heq
    exact {
      sf := (held_sf h).mp ⟨hvalid.sf, congrArg Modulation.sf heq⟩
      bw := (held_bw l.bw).mp ⟨hvalid.bw, congrArg Modulation.bw heq⟩
      cr := (held_cr l.cr).mp ⟨hvalid.cr, congrArg Modulation.cr heq⟩
      freq := (carrier_lt_iff l).mp (by omega) }
  · intro ht
    obtain ⟨hsf, hsf'⟩ := (held_sf h).mpr ht.sf
    obtain ⟨hbw, hbw'⟩ := (held_bw l.bw).mpr ht.bw
    obtain ⟨hcr, hcr'⟩ := (held_cr l.cr).mpr ht.cr
    have hfrf : l.carrier % 2 ^ 24 = l.carrier := Nat.mod_eq_of_lt ((carrier_lt_iff l).mpr ht.freq)
    refine ⟨⟨hbw, hcr, hsf⟩, ?_⟩
    rw [Lmic.registers, Lmic.modulation, hfrf, hbw', hcr', hsf']

/-- The carrier is less than 62 Hz below the frequency that is asked for, and never above it. -/
theorem frf_close (l : Lmic) :
    l.carrier * 32000000 ≤ l.freq.toNat * 2 ^ 19 ∧ l.freq.toNat * 2 ^ 19 < l.carrier * 32000000 + 62 * 2 ^ 19 := by
  rw [Lmic.carrier]
  omega

/-! ## The fields of `ModemConfig1` -/

def mc1Byte (bw cr : UInt8) (low crc ih : Bool) : UInt8 :=
  (bw <<< 6) ||| cr ||| (if low then mc1LowDataRateOptimize else 0) ||| (if crc then mc1RxPayloadCrcon else 0) |||
    (if ih then mc1ImplicitHeaderModeOn else 0)

theorem mc1_eq (l : Lmic) : l.mc1 = mc1Byte l.bw (mc1Cr l.cr) ((l.sf = sf11 ∨ l.sf = sf12) ∧ l.bw = bw125)
    (l.noCRC = 0) (l.ih ≠ 0) := by
  rw [Lmic.mc1, mc1Byte]
  simp only [decide_eq_true_eq]

theorem mc1Byte_fields (bw : UInt8) {cr : UInt8} (h : cr ∈ [(0x08 : UInt8), 0x10, 0x18, 0x20, 0]) (low crc ih : Bool) :
    mc1Byte bw cr low crc ih >>> 6 = bw &&& (3 : UInt8) ∧
      (mc1Byte bw cr low crc ih >>> 3) &&& (7 : UInt8) = cr >>> 3 ∧
      (mc1Byte bw cr low crc ih &&& mc1LowDataRateOptimize ≠ 0 ↔ low) ∧
      (mc1Byte bw cr low crc ih &&& mc1RxPayloadCrcon ≠ 0 ↔ crc) ∧
      (mc1Byte bw cr low crc ih &&& mc1ImplicitHeaderModeOn ≠ 0 ↔ ih) := by
  have hcut : bw <<< 6 = (bw &&& 3) <<< 6 :=
    forall_uint8 (p := fun bw => bw <<< 6 = (bw &&& (3 : UInt8)) <<< 6) (by decide) bw
  have hmem : bw &&& 3 ∈ [(0 : UInt8), 1, 2, 3] :=
    forall_uint8 (p := fun bw => bw &&& (3 : UInt8) ∈ [(0 : UInt8), 1, 2, 3]) (by decide) bw
  have hfields : ∀ k ∈ [(0 : UInt8), 1, 2, 3], ∀ cr ∈ [(0x08 : UInt8), 0x10, 0x18, 0x20, 0], ∀ low crc ih,
      mc1Byte k cr low crc ih >>> 6 = k ∧ (mc1Byte k cr low crc ih >>> 3) &&& (7 : UInt8) = cr >>> 3 ∧
        (mc1Byte k cr low crc ih &&& mc1LowDataRateOptimize ≠ 0 ↔ low) ∧
        (mc1Byte k cr low crc ih &&& mc1RxPayloadCrcon ≠ 0 ↔ crc) ∧
        (mc1Byte k cr low crc ih &&& mc1ImplicitHeaderModeOn ≠ 0 ↔ ih) := by decide +kernel
  have hbyte : mc1Byte bw cr low crc ih = mc1Byte (bw &&& 3) cr low crc ih := by rw [mc1Byte, hcut, mc1Byte]
  rw [hbyte]
  exact hfields (bw &&& 3) hmem cr h low crc ih

theorem mc1Cr_mem (cr : UInt8) : mc1Cr cr ∈ [(0x08 : UInt8), 0x10, 0x18, 0x20, 0] :=
  forall_uint8 (p := fun cr => mc1Cr cr ∈ [(0x08 : UInt8), 0x10, 0x18, 0x20, 0]) (by decide) cr

/-! ## The registers after `configLoraModem` and `configChannel` -/

theorem carrier_eq (l : Lmic) : l.frf.toNat = l.carrier := by
  have := l.freq.toNat_lt
  rw [Lmic.frf, Lmic.carrier, UInt64.toNat_div, UInt64.toNat_shiftLeft, UInt32.toNat_toUInt64, Nat.shiftLeft_eq]
  have h19 : (19 : UInt64).toNat % 64 = 19 := rfl
  have h32 : (32000000 : UInt64).toNat = 32000000 := rfl
  rw [h19, h32, Nat.mod_eq_of_lt (by omega)]

theorem frf_bytes (x : UInt64) : (x >>> 16).toUInt8.toNat * 0x10000 + (x >>> 8).toUInt8.toNat * 0x100 +
    x.toUInt8.toNat = x.toNat % 2 ^ 24 := by
  have h16 : (16 : UInt64).toNat % 64 = 16 := rfl
  have h8 : (8 : UInt64).toNat % 64 = 8 := rfl
  rw [UInt64.toNat_toUInt8, UInt64.toNat_toUInt8, UInt64.toNat_toUInt8, UInt64.toNat_shiftRight,
    UInt64.toNat_shiftRight, h16, h8, Nat.shiftRight_eq_div_pow, Nat.shiftRight_eq_div_pow]
  omega

namespace Sx1272

open Sx127x

theorem plain_modemConfig (l : Lmic) : ∀ p ∈ l.modemConfig, Plain p.1 :=
  modemConfig_all (by decide) (by decide) (by decide)

theorem plain_channel (l : Lmic) : ∀ p ∈ l.channel, Plain p.1 := channel_all (by decide) (by decide) (by decide)

theorem plain_power (l : Lmic) : ∀ p ∈ l.power, Plain p.1 := power_all (by decide)

theorem configure_rest (l : Lmic) (c : Sx1272) : (c.configure l).opMode = c.opMode ∧ (c.configure l).fifo = c.fifo ∧
    (c.configure l).fsk = c.fsk ∧ (c.configure l).noise = c.noise := by
  rw [configure, ← writes_append]
  apply writes_rest
  intro p hp
  rcases List.mem_append.mp hp with hp | hp
  · exact (plain_modemConfig l p hp).register
  · exact (plain_channel l p hp).register

theorem reg_modemConfig (l : Lmic) (c : Sx1272) (a : UInt8) : (c.writes l.modemConfig).reg a =
    if a = loraRegModemConfig2 then l.mc2 else if a = loraRegModemConfig1 then l.mc1
    else if a = loraRegPayloadLength ∧ l.ih ≠ 0 then l.ih else c.reg a := by
  have hlen : Plain loraRegPayloadLength := by decide
  have hmc1 : Plain loraRegModemConfig1 := by decide
  have hmc2 : Plain loraRegModemConfig2 := by decide
  rw [Lmic.modemConfig]
  by_cases hih : l.ih = 0
  · simp only [writes, hih, ne_eq, not_true_eq_false, if_false, List.nil_append, List.foldl_cons, List.foldl_nil,
      write_plain hmc1, write_plain hmc2, reg_setReg, and_false]
  · simp only [writes, hih, ne_eq, not_false_eq_true, if_true, List.cons_append, List.nil_append, List.foldl_cons,
      List.foldl_nil, write_plain hlen, write_plain hmc1, write_plain hmc2, reg_setReg, and_true]

theorem reg_channel (l : Lmic) (c : Sx1272) (a : UInt8) : (c.writes l.channel).reg a =
    if a = regFrfLsb then l.frf.toUInt8 else if a = regFrfMid then (l.frf >>> 8).toUInt8
    else if a = regFrfMsb then (l.frf >>> 16).toUInt8 else c.reg a := by
  have hmsb : Plain regFrfMsb := by decide
  have hmid : Plain regFrfMid := by decide
  have hlsb : Plain regFrfLsb := by decide
  simp only [Lmic.channel, writes, List.foldl_cons, List.foldl_nil, write_plain hmsb, write_plain hmid,
    write_plain hlsb, reg_setReg]

/-- The registers that tell the modulation are those of the settings. -/
structure Configured (l : Lmic) (c : Sx1272) : Prop where
  frfMsb : c.reg regFrfMsb = (l.frf >>> 16).toUInt8
  frfMid : c.reg regFrfMid = (l.frf >>> 8).toUInt8
  frfLsb : c.reg regFrfLsb = l.frf.toUInt8
  mc1 : c.reg loraRegModemConfig1 = l.mc1
  mc2 : c.reg loraRegModemConfig2 = l.mc2

theorem configured_configure (l : Lmic) (c : Sx1272) : Configured l (c.configure l) := by
  constructor
  · rw [configure, reg_channel, if_neg (by decide), if_neg (by decide), if_pos rfl]
  · rw [configure, reg_channel, if_neg (by decide), if_pos rfl]
  · rw [configure, reg_channel, if_pos rfl]
  · rw [configure, reg_channel, if_neg (by decide), if_neg (by decide), if_neg (by decide), reg_modemConfig,
      if_neg (by decide), if_pos rfl]
  · rw [configure, reg_channel, if_neg (by decide), if_neg (by decide), if_neg (by decide), reg_modemConfig,
      if_pos rfl]

theorem modulation_eq (h : Configured l c) (hsync : c.reg loraRegSyncWord = 0x34) : c.modulation = l.registers := by
  obtain ⟨hbw, hcr, hlow, hcrc, hih⟩ := mc1Byte_fields l.bw (mc1Cr_mem l.cr)
    ((l.sf = sf11 ∨ l.sf = sf12) ∧ l.bw = bw125) (l.noCRC = 0) (l.ih ≠ 0)
  rw [← mc1_eq, ← h.mc1] at hbw hcr hlow hcrc hih
  have hfrf : c.frf = l.carrier % 2 ^ 24 := by
    rw [frf, h.frfMsb, h.frfMid, h.frfLsb, frf_bytes, carrier_eq]
  have hsf : c.reg loraRegModemConfig2 >>> 4 = mc2Sf l.sf := by
    rw [h.mc2]
    rfl
  rw [modulation, Lmic.registers, hfrf, hbw, hcr, hsf, hsync]
  simp only [hlow, hcrc, hih, decide_eq_true_eq]

end Sx1272

end KnotHal.Lora
