import KnotHal.Storage.Avr

/-!
# Where the free area ends

The length word moves the boundary: the config starts as many bytes below it as it says, and the free area ends
there. `hal_storage_write_end` moves the boundary without a look at what is below; `hal_storage_read` and
`hal_storage_write` stop at it.

* `ConfigStored`, `config_stored_iff` : the configs that are accepted and stored as they should be;
* `freeSize`, `read_free`, `write_free` : the free area, and what the two calls do there;
* `SameFree`, `free_step` : images that agree in the free area;
* `free_area_confined` : runs of the two calls see the free area and nothing else.
-/

namespace KnotHal.Storage

open Machine

variable {b : Board}

/-! ## Configs -/

/-- The config lies whole between the free area and its length word, nothing else has changed, and
`hal_storage_read_end` gives it back. -/
structure ConfigStored (value : List UInt8) (e e' : Eeprom b) : Prop where
  fits : value.length ≤ b.addrOffsetConfig
  start : sub16 b.addrOffsetConfig value.length = b.addrOffsetConfig - value.length
  stored : e'.read (b.addrOffsetConfig - value.length) value.length = value
  others : ∀ k, k < b.addrOffsetConfig - value.length ∨ b.addrOffsetConfig + 2 ≤ k → e'.get k = e.get k
  back : halStorageReadEnd idConfig value.length e' = .ok (value.length, value)

theorem writeEnd_stores {value : List UInt8} (h : value.length ≤ b.configMax)
    (hfit : value.length ≤ b.addrOffsetConfig) (e : Eeprom b) :
    ∃ e', halStorageWriteEnd idConfig value e = .ok (value.length, e') ∧ ConfigStored value e e' := by
  have hword := word_fits b
  have hsize := eepromSize_le b
  have hbytes : (wordBytes value.length).length = 2 := rfl
  have hread : ((e.write b.addrOffsetConfig (wordBytes value.length)).write (b.addrOffsetConfig - value.length)
      value).read (b.addrOffsetConfig - value.length) value.length = value := Buf.read_write_self _ (by omega)
  have hlen : configLen ((e.write b.addrOffsetConfig (wordBytes value.length)).write
      (b.addrOffsetConfig - value.length) value) = value.length := by
    rw [configLen_write _ (by omega), configLen_write_word (by omega)]
  refine ⟨_, writeEnd_config h hfit e, hfit, sub16_eq hfit (by omega), hread, fun k hk => ?_, ?_⟩
  · rw [Buf.get_write_of_disjoint _ (by omega), Buf.get_write_of_disjoint _ (by omega)]
  · have hcount : configRead value.length ((e.write b.addrOffsetConfig (wordBytes value.length)).write
        (b.addrOffsetConfig - value.length) value) = value.length := by
      unfold configRead
      rw [hlen]
      omega
    rw [readEnd_config _ (by omega), hcount, hlen, hread]

theorem writeEnd_outside {value : List UInt8} (h : value.length ≤ b.configMax) (hsize : value.length ≤ b.eepromSize)
    (hlong : b.addrOffsetConfig < value.length) (e : Eeprom b) :
    halStorageWriteEnd idConfig value e = .error (.outside (2 ^ 16 + b.addrOffsetConfig - value.length)) := by
  have hadd := addrOffsetConfig_add b
  have hmax := eepromSize_le b
  have hid : item idConfig = some .config := rfl
  have hwrap : sub16 b.addrOffsetConfig value.length = 2 ^ 16 + b.addrOffsetConfig - value.length := by
    unfold sub16
    omega
  unfold halStorageWriteEnd
  simp only [hid]
  rw [if_neg (by omega), writeWord_config, hwrap]
  show (do
    let e ← (if value.length ≠ 0 then eepromWriteBlock _ value _ else .ok _ : Except Fault (Eeprom b))
    return ((value.length : Int), e)) = _
  rw [if_pos (by omega), eepromWriteBlock, if_neg (by omega)]
  rfl

/-- A config is rejected or stored, except where it is accepted and does not fit below its length word. -/
theorem config_stored_iff (value : List UInt8) (e : Eeprom b) :
    (halStorageWriteEnd idConfig value e = .ok (-einval, e) ∨
      ∃ e', halStorageWriteEnd idConfig value e = .ok (value.length, e') ∧ ConfigStored value e e') ↔
      ¬ (b.addrOffsetConfig < value.length ∧ value.length ≤ b.configMax ∧ value.length ≤ b.eepromSize) := by
  constructor
  · rintro hdone ⟨hlong, hmax, hsize⟩
    rw [writeEnd_outside hmax hsize hlong] at hdone
    rcases hdone with hdone | ⟨e', hdone, -⟩ <;> cases hdone
  · intro hno
    by_cases hacc : value.length ≤ b.configMax ∧ value.length ≤ b.eepromSize
    · have hfit : value.length ≤ b.addrOffsetConfig := Nat.le_of_not_lt fun hlong => hno ⟨hlong, hacc⟩
      exact Or.inr (writeEnd_stores hacc.1 hfit e)
    · have hrej : b.configMax < value.length ∨ b.eepromSize < value.length := by omega
      have hid : item idConfig = some .config := rfl
      left
      unfold halStorageWriteEnd
      simp only [hid]
      exact if_pos hrej

/-- An ATmega168 with at most ten configs. -/
def Board.pro : Board where
  e2end := 511
  knotThingDataMax := 10
  size_ge := by decide
  size_le := by decide

/-- An EEPROM of it with nothing in it. -/
def blank : Eeprom .pro := Buf.zero _

/-- Ten configs do not fit it: the write goes to an address outside the EEPROM, and with this length word there is no
config any more. -/
theorem tenth_config_lost :
    ¬ (halStorageWriteEnd idConfig (List.replicate 280 0x2A) blank = .ok (-einval, blank) ∨
      ∃ e', halStorageWriteEnd idConfig (List.replicate 280 0x2A) blank = .ok (280, e') ∧
        ConfigStored (List.replicate 280 0x2A) blank e') ∧
    halStorageReadEnd idConfig 280 (blank.write Board.pro.addrOffsetConfig (wordBytes 280)) = .ok (-efault, []) := by
  have hlen : (List.replicate 280 (0x2A : UInt8)).length = 280 := List.length_replicate ..
  have hout : halStorageWriteEnd idConfig (List.replicate 280 0x2A) blank = _ :=
    writeEnd_outside (by rw [hlen]; decide) (by rw [hlen]; decide) (by rw [hlen]; decide) blank
  refine ⟨?_, ?_⟩
  · rw [hout]
    rintro (hdone | ⟨e', hdone, -⟩) <;> cases hdone
  · apply readEnd_config_bad
    rw [configLen_write_word (by decide)]
    decide

/-! ## The free area -/

/-- The free area ends where the config starts; where the length word makes no sense it is closed. -/
def freeSize (e : Eeprom b) : Nat := if configLen e ≤ b.eepromSizeFree then b.addrOffsetConfig - configLen e else 0

theorem freeSize_le (e : Eeprom b) : freeSize e ≤ b.addrOffsetConfig := by
  unfold freeSize
  split
  · exact Nat.sub_le ..
  · exact Nat.zero_le _

theorem read_free (addr : UInt16) (len : Nat) (e : Eeprom b) :
    halStorageRead addr len e = .ok ((e.read addr.toNat (min len (freeSize e - addr.toNat))).length,
      e.read addr.toNat (min len (freeSize e - addr.toNat))) := by
  unfold freeSize
  by_cases h : configLen e ≤ b.eepromSizeFree
  · rw [if_pos h]
    exact read_eq h addr len
  · rw [if_neg h, Nat.zero_sub, Nat.min_zero, Buf.read_zero_len]
    exact read_bad (Nat.lt_of_not_le h) addr len

theorem write_free (addr : UInt16) (value : List UInt8) (e : Eeprom b) :
    halStorageWrite addr value e = .ok ((min value.length (freeSize e - addr.toNat) : Nat),
      e.write addr.toNat (value.take (freeSize e - addr.toNat))) := by
  unfold freeSize
  by_cases h : configLen e ≤ b.eepromSizeFree
  · rw [if_pos h]
    exact write_eq h addr value
  · rw [if_neg h, Nat.zero_sub, List.take_zero, Buf.write_nil, Nat.min_zero]
    exact write_bad (Nat.lt_of_not_le h) addr value

def KeepsProtected (e e' : Eeprom b) : Prop := ∀ k, freeSize e ≤ k → e'.get k = e.get k

/-- The images have one length word, and agree in the free area. -/
structure SameFree (e₁ e₂ : Eeprom b) : Prop where
  word : configLen e₁ = configLen e₂
  bytes : ∀ k < freeSize e₁, e₁.get k = e₂.get k

section Free
variable {e e' e₁ e₂ : Eeprom b}

theorem SameFree.size (h : SameFree e₁ e₂) : freeSize e₁ = freeSize e₂ := by
  unfold freeSize
  rw [h.word]

theorem KeepsProtected.word (h : KeepsProtected e e') : configLen e' = configLen e := by
  have hle := freeSize_le e
  unfold configLen
  rw [h _ hle, h _ (Nat.le_succ_of_le hle)]

theorem KeepsProtected.size (h : KeepsProtected e e') : freeSize e' = freeSize e := by
  unfold freeSize
  rw [h.word]

theorem KeepsProtected.trans {e'' : Eeprom b} (h : KeepsProtected e e') (h' : KeepsProtected e' e'') :
    KeepsProtected e e'' := by
  intro k hk
  rw [h' k (by rwa [h.size]), h k hk]

theorem keepsProtected_write (addr : UInt16) (value : List UInt8) (e : Eeprom b) :
    KeepsProtected e (e.write addr.toNat (value.take (freeSize e - addr.toNat))) := by
  intro k hk
  have hlen : (value.take (freeSize e - addr.toNat)).length ≤ freeSize e - addr.toNat := List.length_take_le ..
  by_cases hnone : value.take (freeSize e - addr.toNat) = []
  · rw [hnone, Buf.write_nil]
  · have hpos := List.length_pos_iff.mpr hnone
    exact e.get_write_of_disjoint (Or.inl (by omega))

theorem SameFree.write (h : SameFree e₁ e₂) (addr : UInt16) (value : List UInt8) :
    SameFree (e₁.write addr.toNat (value.take (freeSize e₁ - addr.toNat)))
      (e₂.write addr.toNat (value.take (freeSize e₂ - addr.toNat))) := by
  have hkeep₁ := keepsProtected_write addr value e₁
  have hkeep₂ := keepsProtected_write addr value e₂
  refine ⟨?_, fun k hk => ?_⟩
  · rw [hkeep₁.word, hkeep₂.word, h.word]
  · rw [hkeep₁.size] at hk
    have hfree := freeSize_le e₁
    have hword := word_fits b
    have hlen : (value.take (freeSize e₁ - addr.toNat)).length ≤ freeSize e₁ - addr.toNat := List.length_take_le ..
    rw [← h.size]
    by_cases hin : addr.toNat ≤ k ∧ k < addr.toNat + (value.take (freeSize e₁ - addr.toNat)).length
    · obtain ⟨i, rfl⟩ := Nat.exists_eq_add_of_le hin.1
      rw [e₁.get_write_self (by omega) (by omega), e₂.get_write_self (by omega) (by omega)]
    · rw [e₁.get_write_of_disjoint (by omega), e₂.get_write_of_disjoint (by omega)]
      exact h.bytes k hk

theorem SameFree.read (h : SameFree e₁ e₂) (addr : UInt16) (len : Nat) :
    halStorageRead addr len e₁ = halStorageRead addr len e₂ := by
  have hread : e₁.read addr.toNat (min len (freeSize e₁ - addr.toNat)) =
      e₂.read addr.toNat (min len (freeSize e₁ - addr.toNat)) :=
    Buf.read_congr fun k _ hk => h.bytes k (by omega)
  rw [read_free, read_free, ← h.size, hread]

end Free

inductive FreeCall
  | read (addr : UInt16) (len : Nat)
  | write (addr : UInt16) (value : List UInt8)

def FreeCall.call : FreeCall → Call
  | read addr len => .read addr len
  | write addr value => .write addr value

def freeStep (c : FreeCall) (e : Eeprom b) : Except Fault ((Int × List UInt8) × Eeprom b) := step c.call e

theorem free_step (c : FreeCall) {e₁ e₂ : Eeprom b} (h : SameFree e₁ e₂) :
    ∃ out e₁' e₂', freeStep c e₁ = .ok (out, e₁') ∧ freeStep c e₂ = .ok (out, e₂') ∧
      SameFree e₁' e₂' ∧ KeepsProtected e₁ e₁' ∧ KeepsProtected e₂ e₂' := by
  cases c with
  | read addr len =>
      obtain ⟨out, hread⟩ := read_ok addr len e₁
      have hread₂ := h.read addr len ▸ hread
      refine ⟨out, e₁, e₂, ?_, ?_, h, fun _ _ => rfl, fun _ _ => rfl⟩
      · rw [freeStep, FreeCall.call, step, hread]
        rfl
      · rw [freeStep, FreeCall.call, step, hread₂]
        rfl
  | write addr value =>
      refine ⟨((min value.length (freeSize e₁ - addr.toNat) : Nat), []), _, _, ?_, ?_, h.write addr value,
        keepsProtected_write addr value e₁, keepsProtected_write addr value e₂⟩
      · rw [freeStep, FreeCall.call, step, write_free]
        rfl
      · rw [freeStep, FreeCall.call, step, write_free, ← h.size]
        rfl

/-- Two images that agree in the length word and in the free area answer all the calls of the free-area API alike,
whatever they hold elsewhere, and end with equal free areas; what is protected stays as it was. -/
theorem free_area_confined {e₁ e₂ : Eeprom b} (h : SameFree e₁ e₂) (calls : List FreeCall) :
    ∃ outs e₁' e₂', exec freeStep calls e₁ = .ok (outs, e₁') ∧ exec freeStep calls e₂ = .ok (outs, e₂') ∧
      SameFree e₁' e₂' ∧ KeepsProtected e₁ e₁' ∧ KeepsProtected e₂ e₂' := by
  refine exec_both (R := fun e₁' e₂' => SameFree e₁' e₂' ∧ KeepsProtected e₁ e₁' ∧ KeepsProtected e₂ e₂') ?_
    ⟨h, fun _ _ => rfl, fun _ _ => rfl⟩ calls
  rintro c e e' ⟨hsame, hkeep₁, hkeep₂⟩
  obtain ⟨out, e₁', e₂', h₁, h₂, hsame', hkeep₁', hkeep₂'⟩ := free_step c hsame
  exact ⟨out, e₁', e₂', h₁, h₂, hsame', hkeep₁.trans hkeep₁', hkeep₂.trans hkeep₂'⟩

/-- An image with a config of two bytes. -/
def configured : Eeprom .pro := Buf.write (Buf.zero _) Board.pro.addrOffsetConfig (wordBytes 2)

/-- The same image with another key. -/
def rekeyed : Eeprom .pro := configured.write 300 [0x07]

/-- A write to the free area and a read of all of it, on both images. -/
theorem free_area_confined_keys :
    ∃ outs e₁' e₂', exec freeStep [.write 0 [0x2A], .read 0 300] configured = .ok (outs, e₁') ∧
      exec freeStep [.write 0 [0x2A], .read 0 300] rekeyed = .ok (outs, e₂') ∧
      SameFree e₁' e₂' ∧ KeepsProtected configured e₁' ∧ KeepsProtected rekeyed e₂' := by
  apply free_area_confined
  refine ⟨(configLen_write configured (Or.inr (by decide))).symm, fun k hk => ?_⟩
  have hfree := freeSize_le configured
  have hsmall : Board.pro.addrOffsetConfig < 300 := by decide
  exact (configured.get_write_of_disjoint (Or.inr (by omega))).symm

end KnotHal.Storage
