import KnotHal.Lib.Extractor
import KnotHal.Lora.Handler

/-!
# `radio_init`

The driver fills `randbuf` with bits from the noise. Of two samples in a row, it takes the first one, if their last
bits differ.

* `differing_eq`, `randBits_eq`, `randBytes_eq` : the loops;
* `radioInit_eq` : the whole of `radio_init`;
* `seed_unbiased` : no content of `randbuf` is more likely than another one.
-/

namespace KnotHal.Lora

open Serial Sx127x Extractor

def lastBit (v : UInt8) : Bool := v &&& 0x01 ≠ 0

def bitValue (b : Bool) : UInt8 := if b then 1 else 0

def shiftIn (v : UInt8) (bits : List Bool) : UInt8 := bits.foldl (fun v b => (v <<< 1) ||| bitValue b) v

/-- Eight bits for each of some bytes of `randbuf`. -/
def fillBytes : List (Fin 16) → List Bool → (Fin 16 → UInt8) → Fin 16 → UInt8
  | [], _, buf => buf
  | i :: is, bits, buf => fillBytes is (bits.drop 8) (Function.update buf i (shiftIn (buf i) (bits.take 8)))

def Board.withNoise (noise : List UInt8) (b : Board) : Board := b.onChip fun c => { c with noise }

def Board.withRandbuf (randbuf : Fin 16 → UInt8) (b : Board) : Board := { b with randbuf }

namespace Sx127x

variable {b : Board}

theorem lastBit_value (v : UInt8) : v &&& 0x01 = bitValue (lastBit v) :=
  forall_uint8 (p := fun v => v &&& 0x01 = bitValue (lastBit v)) (by decide) v

theorem lastBit_eq_iff (x y : UInt8) : x &&& 0x01 = y &&& 0x01 ↔ lastBit x = lastBit y := by
  rw [lastBit_value, lastBit_value]
  cases lastBit x <;> cases lastBit y <;> decide

theorem readReg_noise (hb : b.Released) (hlong : b.bus.device.LongRange) :
    readReg loraRegRssiWideband b = match b.bus.device.noise with
      | [] => .error .noise
      | x :: rest => .ok (x, b.withNoise rest) := by
  have hread : b.bus.device.read loraRegRssiWideband = match b.bus.device.noise with
      | [] => .error .noise
      | x :: rest => .ok (x, { b.bus.device with noise := rest }) := by
    rw [Sx1272.read, if_neg (by decide), if_neg (by decide)]
    exact if_pos ⟨rfl, hlong⟩
  rw [readReg_eq hb]
  show (b.bus.device.read loraRegRssiWideband).map _ = _
  rw [hread]
  cases b.bus.device.noise with
  | nil => rfl
  | cons x rest => rfl

theorem differing_eq (hb : b.Released) (hlong : b.bus.device.LongRange) {fuel : Nat}
    (hfuel : b.bus.device.noise.length < fuel) :
    differing fuel b = (next lastBit b.bus.device.noise).elim (.error .noise) fun r =>
      .ok (bitValue r.1, b.withNoise r.2) := by
  induction fuel generalizing b with
  | zero => exact absurd hfuel (Nat.not_lt_zero _)
  | succ fuel ih =>
      rw [differing]
      have hfirst := readReg_noise hb hlong
      cases hnoise : b.bus.device.noise with
      | nil =>
          rw [hnoise] at hfirst
          exact bind_error hfirst
      | cons x rest =>
          rw [hnoise] at hfirst hfuel
          rw [bind_ok hfirst]
          have hsecond := readReg_noise (b := b.withNoise rest) hb hlong
          cases rest with
          | nil => exact bind_error hsecond
          | cons y rest =>
              have hsecond' : readReg loraRegRssiWideband (b.withNoise (y :: rest)) = .ok (y, b.withNoise rest) :=
                hsecond
              rw [bind_ok hsecond', next]
              by_cases hsame : lastBit x = lastBit y
              · rw [if_pos ((lastBit_eq_iff x y).mpr hsame), if_pos hsame]
                refine ih (b := b.withNoise rest) hb hlong ?_
                simp only [List.length_cons] at hfuel
                show rest.length < _
                omega
              · rw [if_neg fun hc => hsame ((lastBit_eq_iff x y).mp hc), if_neg hsame, lastBit_value]
                rfl

theorem randBits_eq (hb : b.Released) (hlong : b.bus.device.LongRange) (i : Fin 16) (n : Nat) :
    randBits i n b = (takeBits lastBit n b.bus.device.noise).elim (.error .noise) fun r =>
      .ok ((), (b.withNoise r.2).withRandbuf (Function.update b.randbuf i (shiftIn (b.randbuf i) r.1))) := by
  induction n generalizing b with
  | zero =>
      have hself : Function.update b.randbuf i (shiftIn (b.randbuf i) []) = b.randbuf :=
        Function.update_eq_self i b.randbuf
      show Except.ok ((), b) = Except.ok ((), (b.withNoise b.bus.device.noise).withRandbuf _)
      rw [hself]
      rfl
  | succ n ih =>
      have hget : (get : Radio Board) b = .ok (b, b) := rfl
      have hdiff := differing_eq hb hlong (Nat.lt_succ_self b.bus.device.noise.length)
      rw [randBits, bind_ok hget, takeBits]
      cases hnext : next lastBit b.bus.device.noise with
      | none =>
          rw [hnext] at hdiff
          exact bind_error hdiff
      | some r =>
          rw [hnext] at hdiff
          have hdiff' : differing (b.bus.device.noise.length + 1) b = .ok (bitValue r.1, b.withNoise r.2) := hdiff
          let byte := (b.randbuf i <<< 1) ||| bitValue r.1
          have hrest := ih (b := (b.withNoise r.2).withRandbuf (Function.update b.randbuf i byte)) hb hlong
          have hbyte : ((b.withNoise r.2).withRandbuf (Function.update b.randbuf i byte)).randbuf i = byte :=
            Function.update_self ..
          have hidem (v : UInt8) :
              Function.update ((b.withNoise r.2).withRandbuf (Function.update b.randbuf i byte)).randbuf i v =
                Function.update b.randbuf i v := Function.update_idem ..
          rw [hbyte] at hrest
          simp only [hidem] at hrest
          rw [bind_ok hdiff']
          show randBits i n ((b.withNoise r.2).withRandbuf (Function.update b.randbuf i byte)) =
            Option.elim (takeBits lastBit n r.2 >>= _) _ _
          rw [hrest]
          show Option.elim (takeBits lastBit n r.2) _ _ = _
          cases takeBits lastBit n r.2 with
          | none => rfl
          | some q => rfl

theorem randBytes_eq (hb : b.Released) (hlong : b.bus.device.LongRange) (is : List (Fin 16)) :
    randBytes is b = (takeBits lastBit (8 * is.length) b.bus.device.noise).elim (.error .noise) fun r =>
      .ok ((), (b.withNoise r.2).withRandbuf (fillBytes is r.1 b.randbuf)) := by
  induction is generalizing b with
  | nil => rfl
  | cons i is ih =>
      have hlen : 8 * (i :: is).length = 8 + 8 * is.length := by
        rw [List.length_cons]
        omega
      have hbits := randBits_eq hb hlong i 8
      rw [randBytes, hlen, takeBits_add]
      cases htake : takeBits lastBit 8 b.bus.device.noise with
      | none =>
          rw [htake] at hbits
          exact bind_error hbits
      | some r =>
          rw [htake] at hbits
          have hbits' : randBits i 8 b = .ok ((), (b.withNoise r.2).withRandbuf
            (Function.update b.randbuf i (shiftIn (b.randbuf i) r.1))) := hbits
          have hrest := ih (b := (b.withNoise r.2).withRandbuf
            (Function.update b.randbuf i (shiftIn (b.randbuf i) r.1))) hb hlong
          have hr : r.1.length = 8 := length_takeBits htake
          rw [bind_ok hbits', hrest]
          show Option.elim (takeBits lastBit (8 * is.length) r.2) _ _ =
            Option.elim (takeBits lastBit (8 * is.length) r.2 >>= _) _ _
          cases takeBits lastBit (8 * is.length) r.2 with
          | none => rfl
          | some q =>
              have hfill : fillBytes (i :: is) (r.1 ++ q.1) b.randbuf =
                  fillBytes is q.1 (Function.update b.randbuf i (shiftIn (b.randbuf i) r.1)) := by
                rw [fillBytes, List.drop_left' hr, List.take_left' hr]
              show _ = Except.ok ((), (b.withNoise q.2).withRandbuf (fillBytes (i :: is) (r.1 ++ q.1) b.randbuf))
              rw [hfill]
              rfl

def filled : List (Fin 16) := (List.finRange 16).drop 1

/-- The board when the first sample is taken. -/
def sampling (reset : Sx1272) (b : Board) : Board :=
  (b.onChip fun _ => (reset.opmode opmodeSleep).rxlora b.lmic rxmodeRssi).switch 0

/-- The board when `radio_init` returns. -/
def initialized (reset : Sx1272) (bits : List Bool) (noise : List UInt8) (b : Board) : Board :=
  (((sampling reset b).withNoise noise).withRandbuf
    (Function.update (fillBytes filled bits b.randbuf) randIndex 16)).onChip (Sx1272.opmode opmodeSleep)

/-- `radio_init` returns exactly where there are 120 bits in the noise. -/
theorem radioInit_eq (hb : b.Released) (reset : Sx1272) :
    radioInit reset b = (takeBits lastBit 120 reset.noise).elim (.error .noise) fun r =>
      .ok ((), initialized reset r.1 r.2 b) := by
  have hreset : (modify fun b : Board => { b with bus := { b.bus with device := reset } } : Radio PUnit) b =
      .ok (⟨⟩, b.onChip fun _ => reset) := rfl
  obtain ⟨hsleep, -, -⟩ := does_opmode (l := b.lmic) opmodeSleep (b.onChip fun _ => reset) hb rfl
  have hasleep : (reset.opmode opmodeSleep).mode = opmodeSleep := Sx1272.opmode_mode (by decide) _
  obtain ⟨hlong, -, hmode⟩ := Sx1272.rxlora_rssi (l := b.lmic) (.inl hasleep)
  obtain ⟨hrx, hb', -⟩ := does_rxlora b.lmic (show rxmodeRssi ≤ 2 by decide)
    ((b.onChip fun _ => reset).onChip (Sx1272.opmode opmodeSleep)) hb rfl
  have hrx' : rxlora rxmodeRssi ((b.onChip fun _ => reset).onChip (Sx1272.opmode opmodeSleep)) =
      .ok ((), sampling reset b) := hrx
  have hread : readReg regOpMode (sampling reset b) = .ok ((sampling reset b).bus.device.opMode, sampling reset b) :=
    readReg_opMode hb'
  have hpoll : ¬ (sampling reset b).bus.device.opMode &&& opmodeMask ≠ opmodeRx := not_not_intro hmode
  have hbytes := randBytes_eq (b := sampling reset b) hb' hlong filled
  have hnoise : (sampling reset b).bus.device.noise = reset.noise := by
    show ((reset.opmode opmodeSleep).rxlora b.lmic rxmodeRssi).noise = _
    rw [Sx1272.rxlora_noise, Sx1272.opmode, Sx1272.setOpMode_noise]
  have hcount : 8 * filled.length = 120 := by decide
  rw [hnoise, hcount] at hbytes
  rw [radioInit, bind_ok hreset, bind_ok hsleep, bind_ok hrx', bind_ok hread, if_neg hpoll]
  show (randBytes filled >>= _) (sampling reset b) = _
  cases htake : takeBits lastBit 120 reset.noise with
  | none =>
      rw [htake] at hbytes
      exact bind_error hbytes
  | some r =>
      rw [htake] at hbytes
      have hbytes' : randBytes filled (sampling reset b) = .ok ((), ((sampling reset b).withNoise r.2).withRandbuf
        (fillBytes filled r.1 b.randbuf)) := hbytes
      rw [bind_ok hbytes']
      obtain ⟨hend, -, -⟩ := does_opmode (l := b.lmic) opmodeSleep (((sampling reset b).withNoise r.2).withRandbuf
        (Function.update (fillBytes filled r.1 b.randbuf) randIndex 16)) hb' rfl
      exact hend

end Sx127x

/-! ## The seed -/

/-- The bits of a byte, the top one first. -/
def byteBits (v : UInt8) : List Bool := [7, 6, 5, 4, 3, 2, 1, 0].map fun k => v.toNat.testBit k

def bitsVal (bits : List Bool) : Nat := bits.foldl (fun n b => 2 * n + b.toNat) 0

theorem shift_toNat (v : UInt8) (b : Bool) : ((v <<< 1) ||| bitValue b).toNat = (2 * v.toNat + b.toNat) % 256 :=
  forall_uint8 (p := fun v => ∀ b, ((v <<< 1) ||| bitValue b).toNat = (2 * v.toNat + b.toNat) % 256)
    (by decide) v b

theorem double_shift (n x k : Nat) : (2 * n + x) * 2 ^ k = n * 2 ^ (k + 1) + x * 2 ^ k := by
  rw [Nat.add_mul, Nat.mul_comm 2 n, Nat.mul_assoc, ← Nat.pow_succ']

theorem foldl_bits (n : Nat) (bits : List Bool) :
    bits.foldl (fun n b => 2 * n + b.toNat) n = n * 2 ^ bits.length + bitsVal bits := by
  induction bits generalizing n with
  | nil => rw [List.foldl_nil, List.length_nil, Nat.pow_zero, Nat.mul_one]; rfl
  | cons b bits ih =>
      rw [bitsVal, List.foldl_cons, List.foldl_cons, ih, ih (2 * 0 + b.toNat), List.length_cons, double_shift,
        double_shift, Nat.zero_mul, Nat.zero_add, Nat.add_assoc]

theorem shiftIn_toNat (v : UInt8) (bits : List Bool) :
    (shiftIn v bits).toNat = (v.toNat * 2 ^ bits.length + bitsVal bits) % 256 := by
  induction bits generalizing v with
  | nil =>
      show v.toNat = (v.toNat * 1 + 0) % 256
      have := v.toNat_lt
      omega
  | cons b bits ih =>
      have hcons : shiftIn v (b :: bits) = shiftIn ((v <<< 1) ||| bitValue b) bits := rfl
      have hval : bitsVal (b :: bits) = b.toNat * 2 ^ bits.length + bitsVal bits := by
        rw [bitsVal, List.foldl_cons, foldl_bits, Nat.mul_zero, Nat.zero_add]
      rw [hcons, ih, shift_toNat, hval, List.length_cons, Nat.add_mod, Nat.mod_mul_mod, ← Nat.add_mod, double_shift,
        Nat.add_assoc]

/-- Eight bits shift out what was in a byte. -/
theorem shiftIn_eq_iff {bits : List Bool} (h : bits.length = 8) (v s : UInt8) :
    shiftIn v bits = s ↔ bits = byteBits s := by
  have hold : shiftIn v bits = shiftIn 0 bits := by
    apply UInt8.toNat_inj.mp
    rw [shiftIn_toNat, shiftIn_toNat, h]
    show (v.toNat * 256 + bitsVal bits) % 256 = (0 * 256 + bitsVal bits) % 256
    omega
  have hback : ∀ s, shiftIn 0 (byteBits s) = s :=
    forall_uint8 (p := fun s => shiftIn 0 (byteBits s) = s) (by decide)
  have hforth : ∀ a b c d e f g h : Bool, byteBits (shiftIn 0 [a, b, c, d, e, f, g, h]) = [a, b, c, d, e, f, g, h] := by
    decide
  rw [hold]
  constructor
  · intro hs
    match bits, h with
    | [a, b, c, d, e, f, g, h], _ => rw [← hs, hforth]
  · intro hbits
    rw [hbits, hback]

theorem fillBytes_outside {is : List (Fin 16)} {i : Fin 16} (h : i ∉ is) (bits : List Bool) (buf : Fin 16 → UInt8) :
    fillBytes is bits buf i = buf i := by
  induction is generalizing bits buf with
  | nil => rfl
  | cons j is ih =>
      have hne : i ≠ j := fun hc => h (hc ▸ List.mem_cons_self)
      rw [fillBytes, ih fun hc => h (List.mem_cons_of_mem j hc), Function.update_of_ne hne]

theorem fillBytes_iff {is : List (Fin 16)} (hnodup : is.Nodup) {bits : List Bool} (hlen : bits.length = 8 * is.length)
    (buf s : Fin 16 → UInt8) :
    (∀ i ∈ is, fillBytes is bits buf i = s i) ↔ bits = is.flatMap fun i => byteBits (s i) := by
  induction is generalizing bits buf with
  | nil =>
      rw [List.length_eq_zero_iff.mp hlen]
      exact iff_of_true (fun i hi => absurd hi List.not_mem_nil) rfl
  | cons i is ih =>
      rw [List.length_cons] at hlen
      obtain ⟨hi, hnodup'⟩ := List.nodup_cons.mp hnodup
      have htake : (bits.take 8).length = 8 := by
        rw [List.length_take]
        omega
      have hdrop : (bits.drop 8).length = 8 * is.length := by
        rw [List.length_drop]
        omega
      have hrest := ih hnodup' hdrop (Function.update buf i (shiftIn (buf i) (bits.take 8)))
      have hhead : fillBytes (i :: is) bits buf i = s i ↔ bits.take 8 = byteBits (s i) := by
        rw [fillBytes, fillBytes_outside hi, Function.update_self]
        exact shiftIn_eq_iff htake (buf i) (s i)
      have hbyte : (byteBits (s i)).length = 8 := rfl
      rw [List.forall_mem_cons, hhead, List.flatMap_cons]
      show _ ∧ (∀ j ∈ is, fillBytes is (bits.drop 8) _ j = s j) ↔ _
      rw [hrest]
      constructor
      · rintro ⟨h1, h2⟩
        rw [← h1, ← h2, List.take_append_drop]
      · intro hbits
        rw [hbits]
        exact ⟨List.take_left' hbyte, List.drop_left' hbyte⟩

/-- `radio_init` returns and leaves these random bytes. -/
def Seeds (reset : Sx1272) (b : Board) (noise : List UInt8) (s : Fin 16 → UInt8) : Prop :=
  ∃ b', radioInit { reset with noise } b = .ok ((), b') ∧ b'.randbuf = s

theorem seeds_iff {b : Board} (hb : b.Released) (reset : Sx1272) (noise : List UInt8) {s : Fin 16 → UInt8}
    (hs : s randIndex = 16) : Seeds reset b noise s ↔
      (takeBits lastBit 120 noise).map Prod.fst = some (filled.flatMap fun i => byteBits (s i)) := by
  have hmem : ∀ i : Fin 16, i ∈ filled ↔ i ≠ randIndex := by decide
  have hnodup : filled.Nodup := by decide
  rw [Seeds, radioInit_eq hb]
  cases htake : takeBits lastBit 120 noise with
  | none => exact iff_of_false (by rintro ⟨b', h, -⟩; cases h) (by simp)
  | some r =>
      have hlen : r.1.length = 8 * filled.length := length_takeBits htake
      show (∃ b', Except.ok ((), initialized _ r.1 r.2 b) = Except.ok ((), b') ∧ b'.randbuf = s) ↔ some r.1 = some _
      rw [Option.some.injEq, ← fillBytes_iff hnodup hlen b.randbuf s]
      constructor
      · rintro ⟨b', h, hbuf⟩ i hi
        obtain rfl : initialized _ r.1 r.2 b = b' := (Prod.mk.inj (Except.ok.inj h)).2
        rw [← hbuf]
        exact (Function.update_of_ne ((hmem i).mp hi) _ _).symm
      · intro hbytes
        refine ⟨_, rfl, funext fun i => ?_⟩
        show Function.update (fillBytes filled r.1 b.randbuf) randIndex 16 i = s i
        by_cases hi : i = randIndex
        · rw [hi, Function.update_self, hs]
        · rw [Function.update_of_ne hi, hbytes i ((hmem i).mpr hi)]

/-- Whatever the noise is, each content of `randbuf` comes of as many samples as any other one: the samples that give
the one become those that give the other by an exchange of samples, which changes no sample and how often it is
there. -/
theorem seed_unbiased {b : Board} (hb : b.Released) (reset : Sx1272) {s s' : Fin 16 → UInt8} (hs : s randIndex = 16)
    (hs' : s' randIndex = 16) : ∃ φ : List UInt8 → List UInt8, φ.Involutive ∧ (∀ noise, (φ noise).Perm noise) ∧
      ∀ noise, Seeds reset b noise s ↔ Seeds reset b (φ noise) s' := by
  have hlen (s : Fin 16 → UInt8) : (filled.flatMap fun i => byteBits (s i)).length = 120 := rfl
  refine ⟨exchange lastBit
      ((filled.flatMap fun i => byteBits (s i)).zipWith xor (filled.flatMap fun i => byteBits (s' i))),
    exchange_involutive _, exchange_perm _, fun noise => ?_⟩
  have hturn := unbiased (f := lastBit) ((hlen s).trans (hlen s').symm) noise
  rw [hlen, hlen] at hturn
  rw [seeds_iff hb reset noise hs, seeds_iff hb reset _ hs', hturn]

theorem seed_unbiased_sf7 : ∃ φ : List UInt8 → List UInt8, φ.Involutive ∧ (∀ noise, (φ noise).Perm noise) ∧
    ∀ noise, Seeds .blank (.blank .sf7) noise (fun _ => 16) ↔
      Seeds .blank (.blank .sf7) (φ noise) (fun i => if i = randIndex then 16 else 0xAA) :=
  seed_unbiased (released_blank _) .blank rfl rfl

/-- A chip whose next samples differ in pairs. -/
def Sx1272.noisy : Sx1272 := { Sx1272.blank with noise := (List.replicate 120 [1, 0]).flatten }

theorem radioInit_noisy : ∃ b₀, radioInit .noisy (.blank .sf7) = .ok ((), b₀) := by
  have hbits : (takeBits lastBit 120 Sx1272.noisy.noise).isSome = true := by decide +kernel
  obtain ⟨r, hr⟩ := Option.isSome_iff_exists.mp hbits
  rw [radioInit_eq (released_blank _), hr]
  exact ⟨_, rfl⟩

end KnotHal.Lora
