import KnotHal.Lib.Buf
import KnotHal.Lib.Machine
import Mathlib.Algebra.Ring.Nat

/-!
# The EEPROM store of the AVR build

Identifiers, token, keys and schema flag lie at fixed places at the end of the EEPROM. Below them is a
length word, and below that the config, which grows downwards. What is left at the start of the EEPROM
belongs to the user. An access outside the EEPROM is a `Fault`.

* `Board` : what the external headers fix, and the addresses that follow from it;
* `halStorageWriteEnd`, `halStorageReadEnd`, `halStorageWrite`, `halStorageRead`, `halStorageResetEnd` : the
  calls of `hal/storage.h`, and `step`, one of them;
* `addr_disjoint`, `word_le_addr` : what has a fixed place does not overlap;
* `configLen` : the length word;
* `writeEnd_region`, `writeEnd_config`, `readEnd_region`, `readEnd_config`, `write_eq`, `read_eq` : what the calls
  compute.
-/

namespace KnotHal.Storage

/-! ## The layout -/

def uuidSize : Nat := 36

def tokenSize : Nat := 40

def macSize : Nat := 8

def schemaFlagSize : Nat := 1

def privateKeySize : Nat := 32

def publicKeySize : Nat := 64

def foreignKeySize : Nat := 64

/-- `CONFIG_SIZE`, the size of the length word. -/
def configSize : Nat := 2

def configSizeUnity : Nat := 28

/-- `E2END` and `KNOT_THING_DATA_MAX`. All that the layout places has to fit the EEPROM, whose addresses
are positive `int`s of 16 bits. -/
structure Board where
  e2end : Nat
  knotThingDataMax : Nat
  size_ge : 247 ≤ e2end + 1
  size_le : e2end + 1 ≤ 2 ^ 15

namespace Board
variable (b : Board)

def eepromSize : Nat := b.e2end + 1

def addrUuid : Nat := b.eepromSize - uuidSize

def addrToken : Nat := b.addrUuid - tokenSize

def addrMac : Nat := b.addrToken - macSize

def addrSchemaFlag : Nat := b.addrMac - schemaFlagSize

def addrPrivateKey : Nat := b.addrSchemaFlag - privateKeySize

def addrPublicKey : Nat := b.addrPrivateKey - publicKeySize

def addrForeignKey : Nat := b.addrPublicKey - foreignKeySize

/-- `ADDR_OFFSET_CONFIG`, the address of the length word. -/
def addrOffsetConfig : Nat := b.addrForeignKey - configSize

def eepromSizeFree : Nat := b.addrOffsetConfig

/-- `CONFIG_SIZE_UNITY * KNOT_THING_DATA_MAX`, an `int` that is compared with a `size_t` of 16 bits. -/
def configMax : Nat := configSizeUnity * b.knotThingDataMax % 2 ^ 16

end Board

/-- The values of a fixed size. -/
inductive Region
  | uuid | token | mac | schemaFlag | privateKey | publicKey | foreignKey
deriving DecidableEq

namespace Region

def size : Region → Nat
  | uuid => uuidSize
  | token => tokenSize
  | mac => macSize
  | schemaFlag => schemaFlagSize
  | privateKey => privateKeySize
  | publicKey => publicKeySize
  | foreignKey => foreignKeySize

def above : Region → Nat
  | uuid => 0
  | token => 36
  | mac => 76
  | schemaFlag => 84
  | privateKey => 85
  | publicKey => 117
  | foreignKey => 181

theorem above_disjoint {r t : Region} (h : r ≠ t) : r.above + r.size ≤ t.above ∨ t.above + t.size ≤ r.above := by
  revert h
  cases r <;> cases t <;> decide

theorem above_le (r : Region) : r.above + r.size ≤ 245 := by
  cases r <;> decide

end Region

def Board.addr (b : Board) : Region → Nat
  | .uuid => b.addrUuid
  | .token => b.addrToken
  | .mac => b.addrMac
  | .schemaFlag => b.addrSchemaFlag
  | .privateKey => b.addrPrivateKey
  | .publicKey => b.addrPublicKey
  | .foreignKey => b.addrForeignKey

inductive Item
  | region (r : Region)
  | config
deriving DecidableEq

def idUuid : UInt8 := 0

def idToken : UInt8 := 1

def idMac : UInt8 := 2

def idSchemaFlag : UInt8 := 3

def idConfig : UInt8 := 4

def idPrivateKey : UInt8 := 5

def idPublicKey : UInt8 := 6

def idForeignKey : UInt8 := 7

def Item.id : Item → UInt8
  | .region .uuid => idUuid
  | .region .token => idToken
  | .region .mac => idMac
  | .region .schemaFlag => idSchemaFlag
  | .region .privateKey => idPrivateKey
  | .region .publicKey => idPublicKey
  | .region .foreignKey => idForeignKey
  | .config => idConfig

/-- The `switch` over the identifier. -/
def item (id : UInt8) : Option Item :=
  if id = idUuid then some (.region .uuid)
  else if id = idToken then some (.region .token)
  else if id = idMac then some (.region .mac)
  else if id = idSchemaFlag then some (.region .schemaFlag)
  else if id = idPrivateKey then some (.region .privateKey)
  else if id = idPublicKey then some (.region .publicKey)
  else if id = idForeignKey then some (.region .foreignKey)
  else if id = idConfig then some .config
  else none

@[simp] theorem item_id (x : Item) : item x.id = some x := by
  cases x with
  | region r => cases r <;> rfl
  | config => rfl

theorem eq_id_of_item {id : UInt8} {x : Item} (h : item id = some x) : id = x.id := by
  unfold item at h
  split_ifs at h with h₀ h₁ h₂ h₃ h₄ h₅ h₆ h₇ <;> cases h <;> assumption

/-! ## The EEPROM -/

/-- An access to an address outside the EEPROM. -/
inductive Fault
  | outside (addr : Nat)
deriving DecidableEq

abbrev Eeprom (b : Board) : Type := Buf b.eepromSize

def sub16 (a n : Nat) : Nat := (a + (2 ^ 16 - n % 2 ^ 16)) % 2 ^ 16

theorem sub16_eq {a n : Nat} (h : n ≤ a) (ha : a < 2 ^ 16) : sub16 a n = a - n := by
  unfold sub16
  omega

section Access
variable {b : Board}

def eepromReadBlock (addr len : Nat) (e : Eeprom b) : Except Fault (List UInt8) :=
  if addr + len ≤ b.eepromSize then .ok (e.read addr len) else .error (.outside addr)

def eepromWriteBlock (addr : Nat) (value : List UInt8) (e : Eeprom b) : Except Fault (Eeprom b) :=
  if addr + value.length ≤ b.eepromSize then .ok (e.write addr value) else .error (.outside addr)

def eepromReadByte (addr : Nat) (e : Eeprom b) : Except Fault UInt8 :=
  if addr < b.eepromSize then .ok (e.get addr) else .error (.outside addr)

def eepromWriteByte (addr : Nat) (x : UInt8) (e : Eeprom b) : Except Fault (Eeprom b) := eepromWriteBlock addr [x] e

/-- `eeprom_read_word`, the low byte first. -/
def eepromReadWord (addr : Nat) (e : Eeprom b) : Except Fault Nat := do
  let lo ← eepromReadByte addr e
  let hi ← eepromReadByte (addr + 1) e
  return lo.toNat + 256 * hi.toNat

def eepromWriteWord (addr w : Nat) (e : Eeprom b) : Except Fault (Eeprom b) :=
  eepromWriteBlock addr [UInt8.ofNat (w % 256), UInt8.ofNat (w / 256)] e

/-! ## The calls -/

def einval : Int := 22

def efault : Int := 14

/-- `hal_storage_write_end`, with the `len` bytes at `value`. -/
def halStorageWriteEnd (id : UInt8) (value : List UInt8) (e : Eeprom b) : Except Fault (Int × Eeprom b) :=
  match item id with
  | some (.region r) =>
      if r.size < value.length then .ok (-einval, e)
      else do
        let e ← (if value.length ≠ 0 then eepromWriteBlock (b.addr r) value e else .ok e)
        return (value.length, e)
  | some .config =>
      if b.configMax < value.length ∨ b.eepromSize < value.length then .ok (-einval, e)
      else do
        let e ← eepromWriteWord b.addrOffsetConfig value.length e
        let dst := sub16 b.addrOffsetConfig value.length
        let e ← (if value.length ≠ 0 then eepromWriteBlock dst value e else .ok e)
        return (value.length, e)
  | none => .ok (-einval, e)

/-- The end of `hal_storage_read_end`: the return value, and what was stored at `value`. -/
def readOut (src len : Nat) (e : Eeprom b) : Except Fault (Int × List UInt8) := do
  let value ← (if len ≠ 0 then eepromReadBlock src len e else .ok [])
  return (len, value)

def halStorageReadEnd (id : UInt8) (len : Nat) (e : Eeprom b) : Except Fault (Int × List UInt8) :=
  match item id with
  | some (.region r) =>
      let len := if r.size < len then r.size else len
      readOut (b.addr r) len e
  | some .config => do
      let len := if b.configMax < len then b.configMax else len
      let src ← eepromReadWord b.addrOffsetConfig e
      if b.eepromSizeFree < src then return (-efault, [])
      let len := if src < len then src else len
      if src = 0 then return (0, [])
      if b.eepromSize < len then return (-einval, [])
      readOut (sub16 b.addrOffsetConfig src) len e
  | none => .ok (-einval, [])

/-- The loop of `hal_storage_write`: how many bytes it wrote, and the EEPROM. -/
def writeFrom (limit : Nat) : Nat → List UInt8 → Eeprom b → Except Fault (Nat × Eeprom b)
  | _, [], e => .ok (0, e)
  | offset, x :: xs, e =>
      if offset < limit then do
        let e ← eepromWriteByte offset x e
        let (n, e) ← writeFrom limit (offset + 1) xs e
        return (n + 1, e)
      else .ok (0, e)

def halStorageWrite (addr : UInt16) (value : List UInt8) (e : Eeprom b) : Except Fault (Int × Eeprom b) := do
  let size ← eepromReadWord b.addrOffsetConfig e
  if b.eepromSizeFree < size then return (0, e)
  let (n, e) ← writeFrom (sub16 b.addrOffsetConfig size) addr.toNat value e
  return (n, e)

/-- The loop of `hal_storage_read`. -/
def readFrom (limit : Nat) (e : Eeprom b) : (offset len : Nat) → Except Fault (List UInt8)
  | _, 0 => .ok []
  | offset, len + 1 =>
      if offset < limit then do
        let x ← eepromReadByte offset e
        let xs ← readFrom limit e (offset + 1) len
        return x :: xs
      else .ok []

def halStorageRead (addr : UInt16) (len : Nat) (e : Eeprom b) : Except Fault (Int × List UInt8) := do
  let size ← eepromReadWord b.addrOffsetConfig e
  if b.eepromSizeFree < size then return (0, [])
  let value ← readFrom (sub16 b.addrOffsetConfig size) e addr.toNat len
  return (value.length, value)

/-- The identifiers that `hal_storage_reset_end` clears, in its order. -/
def cleared : List Region := [.uuid, .token, .mac, .schemaFlag, .privateKey, .publicKey, .foreignKey]

/-- The calls of `hal_storage_write_end` with zeros; their return values are not looked at. -/
def clearFrom : List Region → Eeprom b → Except Fault (Eeprom b)
  | [], e => .ok e
  | r :: rs, e => do
      let (_, e) ← halStorageWriteEnd (Item.region r).id (List.replicate r.size 0) e
      clearFrom rs e

def halStorageResetEnd (e : Eeprom b) : Except Fault (Eeprom b) := do
  let e ← clearFrom cleared e
  eepromWriteWord b.addrOffsetConfig 0 e

inductive Call
  | writeEnd (id : UInt8) (value : List UInt8)
  | readEnd (id : UInt8) (len : Nat)
  | write (addr : UInt16) (value : List UInt8)
  | read (addr : UInt16) (len : Nat)
  | resetEnd
deriving DecidableEq

/-- One call: what it returns, what it stores at `value`, and the EEPROM after it. -/
def step (c : Call) (e : Eeprom b) : Except Fault ((Int × List UInt8) × Eeprom b) :=
  match c with
  | .writeEnd id value => do
      let (ret, e) ← halStorageWriteEnd id value e
      return ((ret, []), e)
  | .readEnd id len => do
      let out ← halStorageReadEnd id len e
      return (out, e)
  | .write addr value => do
      let (ret, e) ← halStorageWrite addr value e
      return ((ret, []), e)
  | .read addr len => do
      let out ← halStorageRead addr len e
      return (out, e)
  | .resetEnd => do
      let e ← halStorageResetEnd e
      return ((0, []), e)

/-! ## Where things are -/

theorem addr_add (b : Board) (r : Region) : b.addr r + (r.above + r.size) = b.eepromSize := by
  have hsize : 247 ≤ b.eepromSize := b.size_ge
  cases r <;>
    simp only [Board.addr, Board.addrForeignKey, Board.addrPublicKey, Board.addrPrivateKey, Board.addrSchemaFlag,
      Board.addrMac, Board.addrToken, Board.addrUuid, Region.above, Region.size, uuidSize, tokenSize, macSize,
      schemaFlagSize, privateKeySize, publicKeySize, foreignKeySize] <;>
    omega

theorem addrOffsetConfig_add (b : Board) : b.addrOffsetConfig + 247 = b.eepromSize := by
  have hsize : 247 ≤ b.eepromSize := b.size_ge
  have hkey : b.addrForeignKey + (181 + 64) = b.eepromSize := addr_add b .foreignKey
  unfold Board.addrOffsetConfig configSize
  omega

theorem eepromSize_le (b : Board) : b.eepromSize ≤ 2 ^ 15 := b.size_le

theorem addr_fits (b : Board) (r : Region) : b.addr r + r.size ≤ b.eepromSize := by
  have := addr_add b r
  omega

theorem word_le_addr (b : Board) (r : Region) : b.addrOffsetConfig + 2 ≤ b.addr r := by
  have hr := addr_add b r
  have ho := addrOffsetConfig_add b
  have := r.above_le
  omega

theorem addr_disjoint (b : Board) {r t : Region} (h : r ≠ t) :
    b.addr r + r.size ≤ b.addr t ∨ b.addr t + t.size ≤ b.addr r := by
  have hr := addr_add b r
  have ht := addr_add b t
  rcases Region.above_disjoint h with hlt | hlt
  · right; omega
  · left; omega

theorem word_fits (b : Board) : b.addrOffsetConfig + 2 ≤ b.eepromSize := by
  have := addrOffsetConfig_add b
  omega

/-! ## The length word -/

def configLen (e : Eeprom b) : Nat := (e.get b.addrOffsetConfig).toNat + 256 * (e.get (b.addrOffsetConfig + 1)).toNat

theorem readWord_config (e : Eeprom b) : eepromReadWord b.addrOffsetConfig e = .ok (configLen e) := by
  have hfit := word_fits b
  have hlo : eepromReadByte b.addrOffsetConfig e = .ok (e.get b.addrOffsetConfig) := if_pos (by omega)
  have hhi : eepromReadByte (b.addrOffsetConfig + 1) e = .ok (e.get (b.addrOffsetConfig + 1)) := if_pos (by omega)
  rw [eepromReadWord, hlo, hhi]
  rfl

def wordBytes (w : Nat) : List UInt8 := [UInt8.ofNat (w % 256), UInt8.ofNat (w / 256)]

theorem writeWord_config (w : Nat) (e : Eeprom b) :
    eepromWriteWord b.addrOffsetConfig w e = .ok (e.write b.addrOffsetConfig (wordBytes w)) :=
  if_pos (word_fits b)

theorem configLen_write_word {w : Nat} (hw : w < 2 ^ 16) (e : Eeprom b) :
    configLen (e.write b.addrOffsetConfig (wordBytes w)) = w := by
  have hfit : b.addrOffsetConfig + (wordBytes w).length ≤ b.eepromSize := word_fits b
  have h₀ : 0 < (wordBytes w).length := Nat.zero_lt_succ 1
  have h₁ : 1 < (wordBytes w).length := Nat.lt_succ_self 1
  have hlo : (e.write b.addrOffsetConfig (wordBytes w)).get (b.addrOffsetConfig + 0) = (wordBytes w)[0] :=
    e.get_write_self h₀ hfit
  have hhi : (e.write b.addrOffsetConfig (wordBytes w)).get (b.addrOffsetConfig + 1) = (wordBytes w)[1] :=
    e.get_write_self h₁ hfit
  rw [Nat.add_zero] at hlo
  rw [configLen, hlo, hhi]
  show (UInt8.ofNat (w % 256)).toNat + 256 * (UInt8.ofNat (w / 256)).toNat = w
  rw [UInt8.toNat_ofNat', UInt8.toNat_ofNat']
  omega

theorem configLen_write {addr : Nat} {value : List UInt8} (e : Eeprom b)
    (h : addr + value.length ≤ b.addrOffsetConfig ∨ b.addrOffsetConfig + 2 ≤ addr) :
    configLen (e.write addr value) = configLen e := by
  rw [configLen, e.get_write_of_disjoint (by omega), e.get_write_of_disjoint (by omega)]
  rfl

/-! ## What the calls compute -/

theorem writeBlock_eq {addr : Nat} {value : List UInt8} (e : Eeprom b) (h : addr + value.length ≤ b.eepromSize) :
    (if value.length ≠ 0 then eepromWriteBlock addr value e else .ok e : Except Fault (Eeprom b)) =
      .ok (e.write addr value) := by
  split
  · exact if_pos h
  · rename_i hlen
    rw [List.eq_nil_of_length_eq_zero (not_not.mp hlen), Buf.write_nil]

theorem readOut_eq {src len : Nat} (e : Eeprom b) (h : src + len ≤ b.eepromSize) :
    readOut src len e = .ok (len, e.read src len) := by
  unfold readOut
  by_cases hlen : len = 0
  · rw [hlen, Buf.read_zero_len]
    rfl
  · rw [if_pos hlen, eepromReadBlock, if_pos h]
    rfl

theorem writeEnd_region {r : Region} {value : List UInt8} (h : value.length ≤ r.size) (e : Eeprom b) :
    halStorageWriteEnd (Item.region r).id value e = .ok (value.length, e.write (b.addr r) value) := by
  have hfit := addr_fits b r
  unfold halStorageWriteEnd
  simp only [item_id]
  rw [if_neg (by omega), writeBlock_eq e (by omega)]
  rfl

/-- The config goes right below its length word. -/
theorem writeEnd_config {value : List UInt8} (h : value.length ≤ b.configMax)
    (hfit : value.length ≤ b.addrOffsetConfig) (e : Eeprom b) :
    halStorageWriteEnd idConfig value e = .ok (value.length,
      (e.write b.addrOffsetConfig (wordBytes value.length)).write (b.addrOffsetConfig - value.length) value) := by
  have hword := word_fits b
  have hsize := eepromSize_le b
  have hid : item idConfig = some .config := rfl
  unfold halStorageWriteEnd
  simp only [hid]
  rw [if_neg (by omega), writeWord_config, sub16_eq hfit (by omega)]
  show (do
    let e ← (if value.length ≠ 0 then eepromWriteBlock _ value _ else .ok _ : Except Fault (Eeprom b))
    return ((value.length : Int), e)) = _
  rw [writeBlock_eq _ (by omega)]
  rfl

def Board.capacity (b : Board) : Item → Nat
  | .region r => r.size
  | .config => b.configMax

theorem writeEnd_rejected {id : UInt8} {value : List UInt8} (e : Eeprom b)
    (h : ∀ x, item id = some x → b.capacity x < value.length) : halStorageWriteEnd id value e = .ok (-einval, e) := by
  unfold halStorageWriteEnd
  cases hid : item id with
  | none => rfl
  | some x =>
      cases x with
      | region r => exact if_pos (h _ hid)
      | config => exact if_pos (Or.inl (h _ hid))

theorem readEnd_region (r : Region) (len : Nat) (e : Eeprom b) :
    halStorageReadEnd (Item.region r).id len e =
      .ok ((min len r.size : Nat), (e.read (b.addr r) r.size).take len) := by
  have hfit := addr_fits b r
  have hmin : (if r.size < len then r.size else len) = min len r.size := by split <;> omega
  unfold halStorageReadEnd
  simp only [item_id]
  rw [hmin, readOut_eq e (by omega), Buf.take_read]

/-- How many bytes of the config `hal_storage_read_end` gives. -/
def configRead (len : Nat) (e : Eeprom b) : Nat := min (min len b.configMax) (configLen e)

theorem readEnd_config (len : Nat) {e : Eeprom b} (h : configLen e ≤ b.addrOffsetConfig) :
    halStorageReadEnd idConfig len e =
      .ok (configRead len e, e.read (b.addrOffsetConfig - configLen e) (configRead len e)) := by
  have hword := word_fits b
  have hsize := eepromSize_le b
  have hid : item idConfig = some .config := rfl
  have hmax : (if b.configMax < len then b.configMax else len) = min len b.configMax := by split <;> omega
  have hmin : (if configLen e < min len b.configMax then configLen e else min len b.configMax) =
      configRead len e := by
    unfold configRead
    split <;> omega
  have hle : configRead len e ≤ configLen e := Nat.min_le_right ..
  unfold halStorageReadEnd
  simp only [hid, hmax, readWord_config]
  show (if b.addrOffsetConfig < configLen e then (.ok (-efault, []) : Except Fault (Int × List UInt8)) else
    if configLen e = 0 then .ok (0, []) else
    if b.eepromSize < (if configLen e < min len b.configMax then configLen e else min len b.configMax) then
      .ok (-einval, []) else readOut (sub16 b.addrOffsetConfig (configLen e)) _ e) = _
  rw [if_neg (by omega), hmin]
  by_cases hzero : configLen e = 0
  · have : configRead len e = 0 := by omega
    rw [if_pos hzero, this, Buf.read_zero_len]
    rfl
  · rw [if_neg hzero, if_neg (by omega), sub16_eq h (by omega), readOut_eq e (by omega)]

theorem readEnd_config_bad {len : Nat} {e : Eeprom b} (h : b.addrOffsetConfig < configLen e) :
    halStorageReadEnd idConfig len e = .ok (-efault, []) := by
  have hid : item idConfig = some .config := rfl
  unfold halStorageReadEnd
  simp only [hid, readWord_config]
  exact if_pos h

theorem readEnd_none {id : UInt8} (len : Nat) (e : Eeprom b) (h : item id = none) :
    halStorageReadEnd id len e = .ok (-einval, []) := by
  unfold halStorageReadEnd
  simp only [h]

/-- The loop of `hal_storage_write` fills what it is given up to the limit. -/
theorem writeFrom_eq {limit : Nat} (hlimit : limit ≤ b.eepromSize) (offset : Nat) (value : List UInt8)
    (e : Eeprom b) : writeFrom limit offset value e =
      .ok (min value.length (limit - offset), e.write offset (value.take (limit - offset))) := by
  induction value generalizing offset e with
  | nil => rw [List.take_nil, Buf.write_nil, List.length_nil, Nat.zero_min]; rfl
  | cons x xs ih =>
      unfold writeFrom
      split
      · rename_i hlt
        have hbyte : eepromWriteByte offset x e = .ok (e.write offset [x]) :=
          if_pos (by rw [List.length_singleton]; omega)
        have hsub : limit - offset = limit - (offset + 1) + 1 := by omega
        have hlen : (xs.take (limit - (offset + 1))).length ≤ limit - (offset + 1) := List.length_take_le ..
        have hcons : (e.write offset [x]).write (offset + 1) (xs.take (limit - (offset + 1))) =
            e.write offset (x :: xs.take (limit - (offset + 1))) := e.write_cons (by omega)
        rw [hbyte]
        show (do
          let (n, e) ← writeFrom limit (offset + 1) xs (e.write offset [x])
          return (n + 1, e)) = _
        rw [ih, hsub, List.take_succ_cons, hcons, List.length_cons, Nat.add_min_add_right]
        rfl
      · rename_i hge
        have hzero : limit - offset = 0 := by omega
        rw [hzero, List.take_zero, Buf.write_nil, Nat.min_zero]

theorem write_eq {e : Eeprom b} (h : configLen e ≤ b.addrOffsetConfig) (addr : UInt16) (value : List UInt8) :
    halStorageWrite addr value e =
      .ok ((min value.length (b.addrOffsetConfig - configLen e - addr.toNat) : Nat),
        e.write addr.toNat (value.take (b.addrOffsetConfig - configLen e - addr.toNat))) := by
  have hword := word_fits b
  have hsize := eepromSize_le b
  unfold halStorageWrite
  simp only [readWord_config]
  show (if b.addrOffsetConfig < configLen e then (.ok (0, e) : Except Fault (Int × Eeprom b)) else do
    let (n, e) ← writeFrom (sub16 b.addrOffsetConfig (configLen e)) addr.toNat value e
    return (n, e)) = _
  rw [if_neg (by omega), sub16_eq h (by omega), writeFrom_eq (by omega)]
  rfl

theorem write_bad {e : Eeprom b} (h : b.addrOffsetConfig < configLen e) (addr : UInt16) (value : List UInt8) :
    halStorageWrite addr value e = .ok (0, e) := by
  unfold halStorageWrite
  simp only [readWord_config]
  exact if_pos h

/-- The loop of `hal_storage_read` takes what there is up to the limit. -/
theorem readFrom_eq {limit : Nat} (hlimit : limit ≤ b.eepromSize) (e : Eeprom b) (offset len : Nat) :
    readFrom limit e offset len = .ok (e.read offset (min len (limit - offset))) := by
  induction len generalizing offset with
  | zero => rw [Nat.zero_min, Buf.read_zero_len]; rfl
  | succ len ih =>
      unfold readFrom
      split
      · rename_i hlt
        have hbyte : eepromReadByte offset e = .ok (e.get offset) := if_pos (by omega)
        have hsub : min (len + 1) (limit - offset) = 1 + min len (limit - (offset + 1)) := by omega
        rw [hbyte, hsub, Buf.read_add, e.read_one (by omega)]
        show (do
          let xs ← readFrom limit e (offset + 1) len
          return e.get offset :: xs) = _
        rw [ih]
        rfl
      · rename_i hge
        have hzero : limit - offset = 0 := by omega
        rw [hzero, Nat.min_zero, Buf.read_zero_len]

theorem read_eq {e : Eeprom b} (h : configLen e ≤ b.addrOffsetConfig) (addr : UInt16) (len : Nat) :
    halStorageRead addr len e =
      .ok ((e.read addr.toNat (min len (b.addrOffsetConfig - configLen e - addr.toNat))).length,
        e.read addr.toNat (min len (b.addrOffsetConfig - configLen e - addr.toNat))) := by
  have hword := word_fits b
  have hsize := eepromSize_le b
  unfold halStorageRead
  simp only [readWord_config]
  show (if b.addrOffsetConfig < configLen e then (.ok (0, []) : Except Fault (Int × List UInt8)) else do
    let value ← readFrom (sub16 b.addrOffsetConfig (configLen e)) e addr.toNat len
    return (value.length, value)) = _
  rw [if_neg (by omega), sub16_eq h (by omega), readFrom_eq (by omega)]
  rfl

theorem read_bad {e : Eeprom b} (h : b.addrOffsetConfig < configLen e) (addr : UInt16) (len : Nat) :
    halStorageRead addr len e = .ok (0, []) := by
  unfold halStorageRead
  simp only [readWord_config]
  exact if_pos h

theorem read_ok (addr : UInt16) (len : Nat) (e : Eeprom b) : ∃ out, halStorageRead addr len e = .ok out := by
  by_cases h : b.addrOffsetConfig < configLen e
  · exact ⟨_, read_bad h addr len⟩
  · exact ⟨_, read_eq (Nat.le_of_not_lt h) addr len⟩

end Access

end KnotHal.Storage
