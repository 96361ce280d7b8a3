import KnotHal.Storage.Avr

/-!
# The EEPROM store is a map

A `Store` is what the calls are for: a value for each identifier of a fixed size, and a config once there
is one. `Holds e st` says that the EEPROM `e` stores `st`. The free area does not occur in a `Store`; that
writing to it leaves the store alone is part of the result.

* `Holds.update`, `Holds.setConfig`, `Holds.free` : writes to a region, to the config, and below it;
* `writeEnd_cases`, `clearFrom_ok` : what `hal_storage_write_end` and `hal_storage_reset_end` do;
* `step_holds`, `exec_holds` : calls do to the EEPROM what `Store.step` does to the store;
* `readEnd_other`, `refused_keeps` : what a write leaves alone;
* `storage_refines` : what `hal_storage_read_end` returns after any calls.
-/

namespace KnotHal.Storage

open Machine

/-! ## The abstract store -/

/-- A value for each region; no config before the first one is written. -/
structure Store where
  value : Region → List UInt8
  config : Option (List UInt8)

namespace Store

/-- What is written replaces the start of the value. -/
def update (st : Store) (r : Region) (value : List UInt8) : Store :=
  { st with value := Function.update st.value r (value ++ (st.value r).drop value.length) }

/-- A write of more than the capacity is rejected. -/
def writeEnd (b : Board) (id : UInt8) (value : List UInt8) (st : Store) : Store :=
  match item id with
  | some (.region r) => if value.length ≤ b.capacity (.region r) then st.update r value else st
  | some .config => if value.length ≤ b.capacity .config then { st with config := some value } else st
  | none => st

def reset : Store := ⟨fun r => List.replicate r.size 0, some []⟩

def step (b : Board) (c : Call) (st : Store) : Store :=
  match c with
  | .writeEnd id value => st.writeEnd b id value
  | .resetEnd => reset
  | .readEnd _ _ | .write _ _ | .read _ _ => st

end Store

section Refinement
variable {b : Board}

/-- What is in the EEPROM at first. -/
def Store.of (e : Eeprom b) : Store := ⟨fun r => e.read (b.addr r) r.size, none⟩

structure Holds (e : Eeprom b) (st : Store) : Prop where
  value : ∀ r, e.read (b.addr r) r.size = st.value r
  config : ∀ c, st.config = some c → c.length ≤ b.configMax ∧ configLen e = c.length ∧
    e.read (b.addrOffsetConfig - c.length) c.length = c

/-- The largest config fits below its length word. -/
def Board.Fits (b : Board) : Prop := configSizeUnity * b.knotThingDataMax ≤ b.addrOffsetConfig

instance (b : Board) : Decidable b.Fits :=
  inferInstanceAs (Decidable (configSizeUnity * b.knotThingDataMax ≤ b.addrOffsetConfig))

theorem Board.Fits.le {b : Board} (h : b.Fits) : b.configMax ≤ b.addrOffsetConfig :=
  Nat.le_trans (Nat.mod_le ..) h

variable {e : Eeprom b} {st : Store} {r : Region} {value : List UInt8}

theorem holds_of (e : Eeprom b) : Holds e (Store.of e) where
  value _ := rfl
  config _ h := nomatch h

/-! ## Writes -/

theorem read_write_region {t : Region} (h : r ≠ t) (hv : value.length ≤ r.size) (e : Eeprom b) :
    (e.write (b.addr r) value).read (b.addr t) t.size = e.read (b.addr t) t.size := by
  have hdis := addr_disjoint b h
  exact e.read_write_of_disjoint (by omega)

theorem read_write_below {addr : Nat} (h : addr + value.length ≤ b.addrOffsetConfig + 2) (e : Eeprom b) (r : Region) :
    (e.write addr value).read (b.addr r) r.size = e.read (b.addr r) r.size := by
  have hr := word_le_addr b r
  exact e.read_write_of_disjoint (Or.inl (by omega))

theorem Holds.update (hb : b.Fits) (h : Holds e st) (hv : value.length ≤ r.size) :
    Holds (e.write (b.addr r) value) (st.update r value) where
  value t := by
    by_cases ht : r = t
    · subst ht
      have hvalue : (st.update r value).value r = value ++ (st.value r).drop value.length := Function.update_self ..
      rw [hvalue, e.read_write_head (addr_fits b r) hv, h.value]
    · have hvalue : (st.update r value).value t = st.value t := Function.update_of_ne (Ne.symm ht) ..
      rw [hvalue, read_write_region ht hv, h.value]
  config c hc := by
    obtain ⟨hmax, hlen, hread⟩ := h.config c hc
    have hr := word_le_addr b r
    have hle := hb.le
    refine ⟨hmax, ?_, ?_⟩
    · rw [configLen_write e (Or.inr hr), hlen]
    · rw [e.read_write_of_disjoint (by omega), hread]

theorem Holds.setConfig (hb : b.Fits) (h : Holds e st) (hv : value.length ≤ b.configMax) :
    Holds ((e.write b.addrOffsetConfig (wordBytes value.length)).write (b.addrOffsetConfig - value.length) value)
      { st with config := some value } where
  value r := by
    have hle := hb.le
    rw [read_write_below (by omega), read_write_below (Nat.le_refl _), h.value]
  config c hc := by
    obtain rfl : value = c := Option.some.inj hc
    have hle := hb.le
    have hword := word_fits b
    have hsize := eepromSize_le b
    have hlen := configLen_write_word (w := value.length) (by omega) e
    refine ⟨hv, ?_, ?_⟩
    · rw [configLen_write _ (by omega), hlen]
    · exact Buf.read_write_self _ (by omega)

theorem Holds.free (hb : b.Fits) (h : Holds e st) {addr : Nat}
    (hv : value = [] ∨ addr + value.length ≤ b.addrOffsetConfig - configLen e) : Holds (e.write addr value) st := by
  rcases hv with rfl | hv
  · rw [Buf.write_nil]
    exact h
  · constructor
    · intro r
      rw [read_write_below (by omega), h.value]
    · intro c hc
      obtain ⟨hmax, hlen, hread⟩ := h.config c hc
      have hle := hb.le
      refine ⟨hmax, ?_, ?_⟩
      · rw [configLen_write e (by omega), hlen]
      · rw [e.read_write_of_disjoint (by omega), hread]

/-! ## Calls -/

/-- The three things that `hal_storage_write_end` can do. -/
theorem writeEnd_cases (hb : b.Fits) (id : UInt8) (value : List UInt8) (e : Eeprom b) :
    (halStorageWriteEnd id value e = .ok (-einval, e) ∧ ∀ x, item id = some x → b.capacity x < value.length) ∨
    (∃ r : Region, id = (Item.region r).id ∧ value.length ≤ r.size ∧
      halStorageWriteEnd id value e = .ok (value.length, e.write (b.addr r) value)) ∨
    (id = idConfig ∧ value.length ≤ b.configMax ∧
      halStorageWriteEnd id value e = .ok (value.length,
        (e.write b.addrOffsetConfig (wordBytes value.length)).write (b.addrOffsetConfig - value.length) value)) := by
  by_cases hrej : ∀ x, item id = some x → b.capacity x < value.length
  · exact Or.inl ⟨writeEnd_rejected e hrej, hrej⟩
  · right
    obtain ⟨x, hrej⟩ := not_forall.mp hrej
    obtain ⟨hx, hle⟩ := Classical.not_imp.mp hrej
    have hid := eq_id_of_item hx
    subst hid
    cases x with
    | region r => exact Or.inl ⟨r, rfl, Nat.not_lt.mp hle, writeEnd_region (Nat.not_lt.mp hle) e⟩
    | config =>
        have hmax : value.length ≤ b.configMax := Nat.not_lt.mp hle
        exact Or.inr ⟨rfl, hmax, writeEnd_config hmax (Nat.le_trans hmax hb.le) e⟩

theorem writeEnd_holds (hb : b.Fits) (id : UInt8) (value : List UInt8) (h : Holds e st) :
    ∃ ret e', halStorageWriteEnd id value e = .ok (ret, e') ∧ Holds e' (st.writeEnd b id value) := by
  rcases writeEnd_cases hb id value e with ⟨hw, hrej⟩ | ⟨r, rfl, hle, hw⟩ | ⟨rfl, hle, hw⟩
  · refine ⟨_, _, hw, ?_⟩
    have hst : st.writeEnd b id value = st := by
      unfold Store.writeEnd
      split
      · exact if_neg (Nat.not_le.mpr (hrej _ ‹_›))
      · exact if_neg (Nat.not_le.mpr (hrej _ ‹_›))
      · rfl
    rw [hst]
    exact h
  · refine ⟨_, _, hw, ?_⟩
    have hst : st.writeEnd b (Item.region r).id value = st.update r value := by
      unfold Store.writeEnd
      rw [item_id]
      exact if_pos hle
    rw [hst]
    exact h.update hb hle
  · refine ⟨_, _, hw, ?_⟩
    have hst : st.writeEnd b idConfig value = { st with config := some value } := if_pos hle
    rw [hst]
    exact h.setConfig hb hle

theorem write_holds (hb : b.Fits) (addr : UInt16) (value : List UInt8) (h : Holds e st) :
    ∃ ret e', halStorageWrite addr value e = .ok (ret, e') ∧ Holds e' st := by
  by_cases hlen : configLen e ≤ b.addrOffsetConfig
  · refine ⟨_, _, write_eq hlen addr value, h.free hb ?_⟩
    rw [List.length_take]
    by_cases hroom : b.addrOffsetConfig - configLen e ≤ addr.toNat
    · left
      rw [Nat.sub_eq_zero_of_le hroom, List.take_zero]
    · right; omega
  · exact ⟨_, _, write_bad (Nat.not_le.mp hlen) addr value, h⟩

theorem clearFrom_ok (rs : List Region) (e : Eeprom b) :
    ∃ e', clearFrom rs e = .ok e' ∧
      ∀ r, e'.read (b.addr r) r.size = if r ∈ rs then List.replicate r.size 0 else e.read (b.addr r) r.size := by
  induction rs generalizing e with
  | nil => exact ⟨e, rfl, fun r => (if_neg List.not_mem_nil).symm⟩
  | cons t rs ih =>
      have hsize : (List.replicate t.size (0 : UInt8)).length = t.size := List.length_replicate ..
      have hwrite := writeEnd_region (b := b) (Nat.le_of_eq hsize) e
      obtain ⟨e', hrest, hread⟩ := ih (e.write (b.addr t) (List.replicate t.size 0))
      refine ⟨e', ?_, fun r => ?_⟩
      · rw [clearFrom, hwrite]
        exact hrest
      · rw [hread r]
        by_cases hmem : r ∈ rs
        · rw [if_pos hmem, if_pos (List.mem_cons_of_mem t hmem)]
        · rw [if_neg hmem]
          by_cases hrt : r = t
          · subst hrt
            have hfit : b.addr r + (List.replicate r.size (0 : UInt8)).length ≤ b.eepromSize := by
              rw [hsize]
              exact addr_fits b r
            have hself := e.read_write_self hfit
            rw [hsize] at hself
            rw [if_pos List.mem_cons_self, hself]
          · have hno : r ∉ t :: rs := fun h => (List.mem_cons.mp h).elim hrt hmem
            rw [if_neg hno, read_write_region (Ne.symm hrt) (Nat.le_of_eq hsize)]

theorem mem_cleared (r : Region) : r ∈ cleared := by
  cases r <;> decide

theorem resetEnd_holds (e : Eeprom b) : ∃ e', halStorageResetEnd e = .ok e' ∧ Holds e' Store.reset := by
  obtain ⟨e₁, hclear, hread⟩ := clearFrom_ok cleared e
  refine ⟨e₁.write b.addrOffsetConfig (wordBytes 0), ?_, ?_, ?_⟩
  · rw [halStorageResetEnd, hclear]
    exact writeWord_config 0 e₁
  · intro r
    rw [read_write_below (Nat.le_refl _), hread r, if_pos (mem_cleared r)]
    rfl
  · intro c hc
    obtain rfl : [] = c := Option.some.inj hc
    exact ⟨Nat.zero_le _, configLen_write_word (by decide) e₁, Buf.read_zero_len _ _⟩

theorem readEnd_ok (id : UInt8) (len : Nat) (e : Eeprom b) :
    ∃ out, halStorageReadEnd id len e = .ok out := by
  cases hid : item id with
  | none => exact ⟨_, readEnd_none len e hid⟩
  | some x =>
      rw [eq_id_of_item hid]
      cases x with
      | region r => exact ⟨_, readEnd_region r len e⟩
      | config =>
          by_cases hlen : configLen e ≤ b.addrOffsetConfig
          · exact ⟨_, readEnd_config len hlen⟩
          · exact ⟨_, readEnd_config_bad (Nat.not_le.mp hlen)⟩

theorem step_holds (hb : b.Fits) (c : Call) (e : Eeprom b) (st : Store) (h : Holds e st) :
    ∃ out e', step c e = .ok (out, e') ∧ Holds e' (st.step b c) := by
  cases c with
  | writeEnd id value =>
      obtain ⟨ret, e', hw, h'⟩ := writeEnd_holds hb id value h
      exact ⟨(ret, []), e', by rw [step, hw]; rfl, h'⟩
  | readEnd id len =>
      obtain ⟨out, hr⟩ := readEnd_ok id len e
      exact ⟨out, e, by rw [step, hr]; rfl, h⟩
  | write addr value =>
      obtain ⟨ret, e', hw, h'⟩ := write_holds hb addr value h
      exact ⟨(ret, []), e', by rw [step, hw]; rfl, h'⟩
  | read addr len =>
      obtain ⟨out, hr⟩ := read_ok addr len e
      exact ⟨out, e, by rw [step, hr]; rfl, h⟩
  | resetEnd =>
      obtain ⟨e', hw, h'⟩ := resetEnd_holds e
      exact ⟨(0, []), e', by rw [step, hw]; rfl, h'⟩

/-! ## Reads -/

/-- What is stored is what `hal_storage_read_end` gives. -/
theorem Holds.readEnd_region (h : Holds e st) (r : Region) (len : Nat) :
    halStorageReadEnd (Item.region r).id len e = .ok ((min len r.size : Nat), (st.value r).take len) := by
  rw [Storage.readEnd_region, h.value]

theorem Holds.readEnd_config (hb : b.Fits) (h : Holds e st) {c : List UInt8} (hc : st.config = some c) (len : Nat) :
    halStorageReadEnd idConfig len e = .ok ((min len c.length : Nat), c.take len) := by
  obtain ⟨hmax, hlen, hread⟩ := h.config c hc
  have hle := hb.le
  have hmin : configRead len e = min len c.length := by
    unfold configRead
    omega
  have htake : c.take len = e.read (b.addrOffsetConfig - c.length) (min len c.length) := by
    rw [← Buf.take_read, hread]
  rw [Storage.readEnd_config len (by omega), hmin, hlen, htake]

theorem readEnd_region_congr {e' : Eeprom b} (len : Nat) (h : e'.read (b.addr r) r.size = e.read (b.addr r) r.size) :
    halStorageReadEnd (Item.region r).id len e' = halStorageReadEnd (Item.region r).id len e := by
  rw [Storage.readEnd_region, Storage.readEnd_region, h]

/-- A write above the length word does not show in the config. -/
theorem readEnd_config_write {addr : Nat} (len : Nat) (h : b.addrOffsetConfig + 2 ≤ addr) (e : Eeprom b) :
    halStorageReadEnd idConfig len (e.write addr value) = halStorageReadEnd idConfig len e := by
  have hword : configLen (e.write addr value) = configLen e := configLen_write e (Or.inr h)
  have hcount : configRead len (e.write addr value) = configRead len e := by rw [configRead, configRead, hword]
  have hmin : configRead len e ≤ configLen e := Nat.min_le_right ..
  by_cases hlen : configLen e ≤ b.addrOffsetConfig
  · rw [Storage.readEnd_config len hlen, Storage.readEnd_config len (hword.symm ▸ hlen), hcount, hword,
      e.read_write_of_disjoint (by omega)]
  · have hbad := Nat.not_le.mp hlen
    rw [readEnd_config_bad hbad, readEnd_config_bad (hword.symm ▸ hbad)]

theorem readEnd_other (hb : b.Fits) {id id' : UInt8} (hid : id ≠ id') {ret : Int} {e' : Eeprom b} (len : Nat)
    (hw : halStorageWriteEnd id value e = .ok (ret, e')) :
    halStorageReadEnd id' len e' = halStorageReadEnd id' len e := by
  cases hx : item id' with
  | none => rw [readEnd_none len e' hx, readEnd_none len e hx]
  | some x =>
      have hid' := eq_id_of_item hx
      subst hid'
      rcases writeEnd_cases hb id value e with ⟨hdone, -⟩ | ⟨r, rfl, hle, hdone⟩ | ⟨rfl, hle, hdone⟩
      all_goals
        obtain ⟨-, rfl⟩ := ok_unique hdone hw
      · rfl
      · cases x with
        | region t =>
            have hne : r ≠ t := fun h => hid (by rw [h])
            exact readEnd_region_congr len (read_write_region hne hle e)
        | config => exact readEnd_config_write len (word_le_addr b r) e
      · cases x with
        | region t =>
            have hmax := hb.le
            apply readEnd_region_congr len
            rw [read_write_below (by omega), read_write_below (Nat.le_refl _)]
        | config => exact absurd rfl hid

/-! ## Results -/

/-- What a caller sees as a rejected write: an error, or that nothing was written. -/
def Refused : Call → Int × List UInt8 → Prop
  | .writeEnd _ _, out => out.1 < 0
  | .write _ _, out => out.1 = 0
  | _, _ => False

theorem refused_keeps (hb : b.Fits) {c : Call} {out : Int × List UInt8} {e' : Eeprom b}
    (h : step c e = .ok (out, e')) (hout : Refused c out) : e' = e := by
  cases c with
  | writeEnd id value =>
      have hneg : out.1 < 0 := hout
      obtain ⟨⟨ret, e₁⟩, hw, h⟩ := bind_eq_ok.mp h
      obtain ⟨rfl, rfl⟩ := Prod.mk.inj (Except.ok.inj h)
      rcases writeEnd_cases hb id value e with ⟨hdone, -⟩ | ⟨r, -, -, hdone⟩ | ⟨-, -, hdone⟩
      all_goals
        obtain ⟨rfl, rfl⟩ := ok_unique hdone hw
      · rfl
      · exact absurd hneg (by simp)
      · exact absurd hneg (by simp)
  | write addr value =>
      have hzero : out.1 = 0 := hout
      obtain ⟨⟨ret, e₁⟩, hw, h⟩ := bind_eq_ok.mp h
      obtain ⟨rfl, rfl⟩ := Prod.mk.inj (Except.ok.inj h)
      by_cases hlen : configLen e ≤ b.addrOffsetConfig
      · rw [write_eq hlen] at hw
        obtain ⟨rfl, rfl⟩ := Prod.mk.inj (Except.ok.inj hw)
        have hmin : min value.length (b.addrOffsetConfig - configLen e - addr.toNat) = 0 := Int.ofNat.inj hzero
        have hnil : value.take (b.addrOffsetConfig - configLen e - addr.toNat) = [] :=
          List.eq_nil_of_length_eq_zero (by rw [List.length_take, Nat.min_comm, hmin])
        rw [hnil, Buf.write_nil]
      · rw [write_bad (Nat.not_le.mp hlen)] at hw
        exact (Prod.mk.inj (Except.ok.inj hw)).2.symm
  | readEnd id len => exact hout.elim
  | read addr len => exact hout.elim
  | resetEnd => exact hout.elim

/-- An ATmega328P with at most five configs. -/
def Board.nano : Board where
  e2end := 1023
  knotThingDataMax := 5
  size_ge := by decide
  size_le := by decide

/-- All calls succeed and keep the EEPROM what the store should be. -/
theorem exec_holds (hb : b.Fits) (calls : List Call) (e : Eeprom b) :
    ∃ outs e', exec step calls e = .ok (outs, e') ∧ Holds e' (calls.foldl (fun st c => st.step b c) (Store.of e)) :=
  exec_simulates (P := fun _ _ => True) (fun c e st h _ => step_holds hb c e st h) (holds_of e)
    (along_of_forall (fun _ _ _ => trivial) _)

/-- After any calls, whatever was in the EEPROM, `hal_storage_read_end` gives what the map holds; a rejected write
changes nothing, and a write through one identifier does not show through another one. -/
theorem storage_refines (e₀ : Eeprom .nano) (calls : List Call) :
    ∃ outs e, exec step calls e₀ = .ok (outs, e) ∧
      (∀ r len, halStorageReadEnd (Item.region r).id len e = .ok ((min len r.size : Nat),
        ((calls.foldl (fun st c => st.step .nano c) (Store.of e₀)).value r).take len)) ∧
      (∀ config, (calls.foldl (fun st c => st.step .nano c) (Store.of e₀)).config = some config → ∀ len,
        halStorageReadEnd idConfig len e = .ok ((min len config.length : Nat), config.take len)) ∧
      (∀ c out e', step c e = .ok (out, e') → Refused c out → e' = e) ∧
      ∀ id id' value ret e' len, id ≠ id' → halStorageWriteEnd id value e = .ok (ret, e') →
        halStorageReadEnd id' len e' = halStorageReadEnd id' len e := by
  have hb : Board.nano.Fits := by decide
  obtain ⟨outs, e, hrun, hholds⟩ := exec_holds hb calls e₀
  refine ⟨outs, e, hrun, ?_, ?_, ?_, ?_⟩
  · exact hholds.readEnd_region
  · intro config hc len
    exact hholds.readEnd_config hb hc len
  · intro c out e' h hout
    exact refused_keeps hb h hout
  · intro id id' value ret e' len hid hw
    exact readEnd_other hb hid len hw

end Refinement

end KnotHal.Storage
