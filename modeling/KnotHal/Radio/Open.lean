import KnotHal.Nrf24.Step
import KnotHal.Radio.Addressing

/-!
# Opening and closing the radio

`hal_comm_init` keeps what `phy_open` returns in `driverIndex`, and takes -1 there for a radio that is not open.
The value comes from the system calls of `io_setup` and `spi_bus_init` by way of `nrf24l01_init`, which returns an
`int8_t`.

* `spiBusInit`, `ioSetup`, `nrf24l01Open`, `phyOpen`, `phyClose` : the layers below;
* `halCommInit`, `halCommDeinit` : the two calls with these layers;
* `int8_ioSetup_eq`, `phyOpen_eq_neg_one` : when opening the device fails with -1;
* `Closed`, `init_failure_iff` : when a failed `hal_comm_init` leaves the module as it was.
-/

namespace KnotHal.Radio

open Machine Nrf24

/-! ## The device -/

/-- What the system does while the device is opened, and `m_init` of the Arduino's SPI. -/
structure OpenEnv where
  /-- the error of `open` of `/dev/mem` -/
  mem : Option Nat
  /-- the error of `mmap` -/
  map : Option Nat
  /-- what `open` of the device returns -/
  dev : Int
  /-- `errno` after that -/
  errno : Nat
  /-- the error of `ioctl` -/
  speed : Option Nat
  /-- whether `malloc` finds memory -/
  memory : Bool
  spiInit : Bool

def spiBusInit (b : Build) (e : OpenEnv) : Int :=
  if b.arduino then if e.spiInit then 1 else 0
  else if e.dev < 1 then int8 (-e.errno)
  else
    match e.speed with
    | some err => int8 (-err)
    | none => if e.memory then int8 e.dev else int8 (-enomem)

def ioSetup (b : Build) (e : OpenEnv) : Int :=
  if b.arduino then spiBusInit b e
  else
    match e.mem with
    | some err => -err
    | none =>
      match e.map with
      | some err => -err
      | none => spiBusInit b e

/-- `nrf24l01_open`, with `nrf24l01_init`: the chip is set up where the SPI bus is open. -/
def Driver.nrf24l01Open (b : Build) (e : OpenEnv) (d : Driver) : Int × Driver :=
  let spiFd := int8 (ioSetup b e)
  if spiFd < 0 then (spiFd, d) else (spiFd, { d with chip := d.chip.nrf24l01Init })

/-- `nrf24l01_close`, with `nrf24l01_deinit`. -/
def Driver.nrf24l01Close (d : Driver) : Driver :=
  { d with chip := d.chip.disable.modify Reg.config fun v => v &&& ~~~cfgPwrUp }

/-! ## `phy_driver.c` -/

/-- `struct phy_driver` of the one driver in the table. -/
structure PhyDriver where
  refOpen : Nat
  fd : Int
  driver : Driver

/-- The initial values, with the chip as it is found. -/
def PhyDriver.boot (c : Chip) : PhyDriver where
  refOpen := 0
  fd := -1
  driver := ⟨c, false, Buf.zero 5⟩

def phyOpen (b : Build) (pathname : String) (e : OpenEnv) (p : PhyDriver) : Int × PhyDriver :=
  if pathname ≠ "NRF0" then (-1, p)
  else if p.refOpen = 0 then
    let (err, d) := p.driver.nrf24l01Open b e
    if err < 0 then (err, { p with driver := d }) else (0, { refOpen := 1, fd := err, driver := d })
  else (0, { p with refOpen := p.refOpen + 1 })

/-- `phy_close`; an index past the table is not refused. -/
def phyClose (sockfd : Int) (p : PhyDriver) : Except KnotHal.Fault (Int × PhyDriver) :=
  if sockfd < 0 ∨ 1 < sockfd then .ok (-einval, p)
  else if sockfd = 1 then .error (.driver 1)
  else if p.refOpen = 0 then .ok (0, p)
  else if p.refOpen = 1 then .ok (0, { refOpen := 0, fd := -1, driver := p.driver.nrf24l01Close })
  else .ok (0, { p with refOpen := p.refOpen - 1 })

/-! ## `hal_comm_init` and `hal_comm_deinit` -/

/-- The statics of `comm_nrf24l01.c` and of the layers below. -/
structure Stack (b : Build) where
  nrf : Nrf b
  phy : PhyDriver

namespace Stack

variable {b : Build}

def halCommInit (pathname : String) (mac : Mac) (e : OpenEnv) (q : Stack b) :
    Except KnotHal.Fault (Ret × Stack b) :=
  if q.nrf.driverIndex ≠ -1 then .ok (⟨-eperm, []⟩, q)
  else do
    let (index, phy) := phyOpen b pathname e q.phy
    let (r, nrf) ← q.nrf.halCommInit mac (-index).toNat
    return (r, ⟨nrf, phy⟩)

def halCommDeinit (q : Stack b) : Except KnotHal.Fault (Ret × Stack b) :=
  if q.nrf.driverIndex = -1 then .ok (⟨-eperm, []⟩, q)
  else do
    let (err, phy) ← phyClose q.nrf.driverIndex q.phy
    if err < 0 then return (⟨err, []⟩, { q with phy := phy })
    else
      let (r, nrf) ← q.nrf.halCommDeinit
      return (r, ⟨nrf, phy⟩)

end Stack

/-! ## What opening returns -/

variable {b : Build} {e : OpenEnv} {p : PhyDriver} {pathname : String}

theorem int8_eq_neg_one {n : Int} : int8 n = -1 ↔ n % 256 = 255 := by
  unfold int8
  rw [Int.bmod_def]
  split <;> omega

/-- The index of the driver, or an error. -/
theorem phyOpen_le (b : Build) (pathname : String) (e : OpenEnv) (p : PhyDriver) : (phyOpen b pathname e p).1 ≤ 0 := by
  unfold phyOpen
  split
  · show (-1 : Int) ≤ 0
    decide
  · split
    · dsimp only
      split
      · rename_i hneg
        exact hneg.le
      · exact le_refl 0
    · exact le_refl 0

/-- Opening the device ends with EPERM: the system call that fails has this error, or all succeed and the
descriptor is taken for it. -/
def RefusedAsEperm (e : OpenEnv) : Prop :=
  match e.mem with
  | some err => err % 256 = 1
  | none =>
    match e.map with
    | some err => err % 256 = 1
    | none =>
      if e.dev < 1 then e.errno % 256 = 1
      else
        match e.speed with
        | some err => err % 256 = 1
        | none => e.memory = true ∧ e.dev % 256 = 255

theorem int8_ioSetup_eq (hb : b.arduino = false) : int8 (ioSetup b e) = -1 ↔ RefusedAsEperm e := by
  have herr : ∀ err : Nat, (-(err : Int)) % 256 = 255 ↔ err % 256 = 1 := fun err => by omega
  have hidem : ∀ n : Int, int8 (int8 n) = int8 n := fun n => Int.bmod_bmod
  unfold ioSetup spiBusInit RefusedAsEperm
  rw [if_neg (by rw [hb]; decide), if_neg (by rw [hb]; decide)]
  cases e.mem with
  | some err => exact int8_eq_neg_one.trans (herr err)
  | none =>
      cases e.map with
      | some err => exact int8_eq_neg_one.trans (herr err)
      | none =>
          dsimp only
          by_cases hdev : e.dev < 1
          · rw [if_pos hdev, if_pos hdev, hidem]
            exact int8_eq_neg_one.trans (herr e.errno)
          · rw [if_neg hdev, if_neg hdev]
            cases e.speed with
            | some err =>
                dsimp only
                rw [hidem]
                exact int8_eq_neg_one.trans (herr err)
            | none =>
                dsimp only
                by_cases hmem : e.memory = true
                · rw [if_pos hmem, hidem, int8_eq_neg_one]
                  exact (and_iff_right hmem).symm
                · rw [if_neg hmem, hidem]
                  exact ⟨fun h => absurd h (by decide), fun h => absurd h.1 hmem⟩

theorem ioSetup_arduino (hb : b.arduino = true) : 0 ≤ int8 (ioSetup b e) := by
  unfold ioSetup spiBusInit
  rw [if_pos hb, if_pos hb]
  split <;> decide

/-- Where `phy_open` fails, its error is -1 exactly for an unknown driver or EPERM. -/
theorem phyOpen_eq_neg_one (hfail : (phyOpen b pathname e p).1 < 0) :
    (phyOpen b pathname e p).1 = -1 ↔ pathname ≠ "NRF0" ∨ RefusedAsEperm e := by
  unfold phyOpen at hfail ⊢
  by_cases hname : pathname ≠ "NRF0"
  · rw [if_pos hname]
    exact ⟨fun _ => Or.inl hname, fun _ => rfl⟩
  · rw [if_neg hname] at hfail ⊢
    by_cases hopen : p.refOpen = 0
    · rw [if_pos hopen] at hfail ⊢
      unfold Driver.nrf24l01Open at hfail ⊢
      dsimp only at hfail ⊢
      by_cases hneg : int8 (ioSetup b e) < 0
      · have hlinux : b.arduino = false := by
          by_contra hard
          exact absurd hneg (not_lt.mpr (ioSetup_arduino (by simpa using hard)))
        rw [if_pos hneg, if_pos hneg]
        exact (int8_ioSetup_eq hlinux).trans (or_iff_right hname).symm
      · rw [if_neg hneg, if_neg hneg] at hfail
        exact absurd hfail (lt_irrefl 0)
    · rw [if_neg hopen] at hfail
      exact absurd hfail (lt_irrefl 0)

/-! ## A failed `hal_comm_init` -/

/-- The module is not open: `hal_comm_init` returns what `phy_open` does, and the other calls return -EPERM and
change nothing. -/
structure Closed (q : Stack b) : Prop where
  init : ∀ pathname mac e, ∃ q', q.halCommInit pathname mac e = .ok (⟨(phyOpen b pathname e q.phy).1, []⟩, q') ∧
    q'.phy = (phyOpen b pathname e q.phy).2
  socket : ∀ domain protocol, q.nrf.halCommSocket domain protocol = .ok (⟨-eperm, []⟩, q.nrf)
  close : ∀ e sockfd, q.nrf.halCommClose e sockfd = .ok (⟨-eperm, []⟩, q.nrf)
  deinit : q.halCommDeinit = .ok (⟨-eperm, []⟩, q)

variable {q q' : Stack b} {mac : Mac} {r : Ret}

theorem nrf_halCommInit {s : Nrf b} (hd : s.driverIndex = -1) (mac : Mac) (err : Nat) :
    ∃ s', s.halCommInit mac err = .ok (⟨-err, []⟩, s') ∧ s'.driverIndex = -err ∧
      (err = 0 → s' = { s with driverIndex := 0, macLocal := mac }) := by
  unfold Nrf.halCommInit
  rw [if_neg (not_not.mpr hd)]
  split
  · rename_i hne
    exact ⟨_, rfl, rfl, fun h0 => absurd h0 hne⟩
  · rename_i h0
    obtain rfl : err = 0 := not_not.mp h0
    exact ⟨_, rfl, rfl, fun _ => rfl⟩

theorem halCommInit_closed (hd : q.nrf.driverIndex = -1) (pathname : String) (mac : Mac) (e : OpenEnv) :
    ∃ nrf, q.halCommInit pathname mac e =
        .ok (⟨(phyOpen b pathname e q.phy).1, []⟩, ⟨nrf, (phyOpen b pathname e q.phy).2⟩) ∧
      nrf.driverIndex = (phyOpen b pathname e q.phy).1 ∧
      ((phyOpen b pathname e q.phy).1 = 0 → nrf = { q.nrf with driverIndex := 0, macLocal := mac }) := by
  have hback : -((-(phyOpen b pathname e q.phy).1).toNat : Int) = (phyOpen b pathname e q.phy).1 := by
    have hle := phyOpen_le b pathname e q.phy
    omega
  obtain ⟨nrf, h, hindex, hopen⟩ := nrf_halCommInit hd mac (-(phyOpen b pathname e q.phy).1).toNat
  rw [hback] at h hindex
  refine ⟨nrf, ?_, hindex, fun h0 => hopen (by rw [h0]; rfl)⟩
  unfold Stack.halCommInit
  rw [if_neg (not_not.mpr hd)]
  dsimp only
  rw [h]
  rfl

theorem closed_of_driverIndex (hd : q.nrf.driverIndex = -1) : Closed q where
  init := fun pathname mac e => by
    obtain ⟨nrf, h, -⟩ := halCommInit_closed hd pathname mac e
    exact ⟨_, h, rfl⟩
  socket := fun domain protocol => by
    unfold Nrf.halCommSocket
    by_cases hdom : domain ≠ pfNrf24
    · rw [if_pos hdom]
    · rw [if_neg hdom, if_pos hd]
  close := fun e sockfd => by
    unfold Nrf.halCommClose
    rw [if_pos hd]
  deinit := by
    unfold Stack.halCommDeinit
    rw [if_pos hd]

/-- Nothing but -1 counts as not open. -/
theorem driverIndex_of_deinit (h : q.halCommDeinit = .ok (⟨-eperm, []⟩, q')) : q.nrf.driverIndex = -1 := by
  by_contra hd
  unfold Stack.halCommDeinit at h
  rw [if_neg hd] at h
  obtain ⟨⟨err, phy⟩, hclose, h⟩ := bind_eq_ok.mp h
  dsimp only at h
  split at h
  · -- `phy_close` has one error, and it is another one
    rename_i hneg
    have herr : err = -eperm := congrArg Ret.ret (Prod.mk.inj (Except.ok.inj h)).1
    unfold phyClose at hclose
    split at hclose
    · have := (Prod.mk.inj (Except.ok.inj hclose)).1
      rw [herr] at this
      exact absurd this (by decide)
    · split at hclose
      · cases hclose
      · split at hclose
        · have := (Prod.mk.inj (Except.ok.inj hclose)).1
          omega
        · split at hclose <;>
          · have := (Prod.mk.inj (Except.ok.inj hclose)).1
            omega
  · rename_i hpos
    obtain ⟨⟨r, nrf⟩, hnrf, h⟩ := bind_eq_ok.mp h
    obtain ⟨rfl, -⟩ := Prod.mk.inj (Except.ok.inj h)
    unfold Nrf.halCommDeinit at hnrf
    rw [if_neg hd] at hnrf
    split at hnrf
    · exact absurd (congrArg Ret.ret (Prod.mk.inj (Except.ok.inj hnrf)).1) (by decide)
    · exact absurd (congrArg Ret.ret (Prod.mk.inj (Except.ok.inj hnrf)).1) (by decide)

/-- A `hal_comm_init` that fails leaves the module as it was before exactly when the driver is unknown, or opening
the device fails with EPERM. -/
theorem init_failure_iff (hd : q.nrf.driverIndex = -1) (h : q.halCommInit pathname mac e = .ok (r, q'))
    (hfail : r.ret < 0) : Closed q' ↔ pathname ≠ "NRF0" ∨ RefusedAsEperm e := by
  obtain ⟨nrf, hinit, hindex, -⟩ := halCommInit_closed hd pathname mac e
  obtain ⟨rfl, rfl⟩ := ok_unique hinit h
  rw [← phyOpen_eq_neg_one hfail, ← hindex]
  exact ⟨fun h => driverIndex_of_deinit h.deinit, fun hd => closed_of_driverIndex hd⟩

def OpenEnv.fine : OpenEnv where
  mem := none
  map := none
  dev := 4
  errno := 0
  speed := none
  memory := true
  spiInit := false

/-- A program that has just started, and a chip that was just switched on. -/
def Stack.start : Stack .linux := ⟨Nrf.boot .linux, .boot blank⟩

theorem init_failure_unknown :
    ∃ r q', Stack.start.halCommInit "NRF1" gatewayMac .fine = .ok (r, q') ∧ r.ret < 0 ∧
      (Closed q' ↔ "NRF1" ≠ "NRF0" ∨ RefusedAsEperm .fine) := by
  obtain ⟨nrf, h, -⟩ := halCommInit_closed (q := Stack.start) rfl "NRF1" gatewayMac .fine
  have hfail : (phyOpen .linux "NRF1" .fine Stack.start.phy).1 < 0 := by decide
  exact ⟨_, _, h, hfail, init_failure_iff rfl h hfail⟩

/-- `/dev/mem` cannot be opened (EACCES): the next `hal_comm_init` is refused although everything can be opened
now, and `hal_comm_socket` looks for a driver with the number -13. -/
theorem init_failure_stays :
    ∃ q', Stack.start.halCommInit "NRF0" gatewayMac { OpenEnv.fine with mem := some 13 } = .ok (⟨-13, []⟩, q') ∧
      q'.halCommInit "NRF0" gatewayMac .fine = .ok (⟨-eperm, []⟩, q') ∧
      q'.nrf.halCommSocket pfNrf24 protoMgmt = .error (.driver (-13)) ∧
      q'.nrf.halCommClose (.still 0) 1 = .ok (⟨0, []⟩, q'.nrf) ∧ q'.halCommDeinit = .ok (⟨-einval, []⟩, q') ∧
      ¬ Closed q' :=
  ⟨_, rfl, rfl, rfl, rfl, rfl, fun h => absurd (driverIndex_of_deinit h.deinit) (by decide)⟩

end KnotHal.Radio
