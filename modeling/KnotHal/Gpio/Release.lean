import KnotHal.Gpio.Sysfs

/-!
# The pins that are released

The map records under index `i` that pin `i + 1` was exported, and `hal_gpio_unmap` unexports the index.

* `Tracks` : the recorded pins are those in a list;
* `ChangesMode.tracks`, `withMode_tracks`, `step_tracks`, `run_tracks` : the map tracks the pins that a run exports;
* `acquires_none_iff`, `run_acquires_none_iff` : the calls and the runs that export no pin;
* `released_exact_iff` : the map for which exactly the pins are unexported;
* `unmap_exact_iff` : the runs after which `hal_gpio_unmap` releases what was acquired.
-/

namespace KnotHal.Gpio

open Machine

/-- The map says of the pins in a list that they were exported, and of no other. -/
structure Tracks (map : GpioMap) (pins : List Nat) : Prop where
  nodup : pins.Nodup
  mem_iff : ∀ p, p ∈ pins ↔ ∃ i : Fin highestGpio, p = i + 1 ∧ Initialized (map i)

def Call.InRange (c : Call) : Prop := 1 ≤ c.gpio.toNat ∧ c.gpio.toNat ≤ highestGpio

/-- A call to change a mode that fails because the pin cannot be exported. -/
def ExportFails (ce : Call × Env) : Prop :=
  ∃ gpio mode, ce.1 = .pinMode gpio mode ∧ gpioExport ce.2.files gpio.toNat < 0

variable {f : Files} {gpio mode : UInt8} {i : Fin highestGpio} {map map' : GpioMap} {o : Out} {pins : List Nat}
  {ce : Call × Env} {is : List (Call × Env)} {os : List Out}

theorem tracks_setup : Tracks halGpioSetup.2 [] := by
  refine ⟨List.nodup_nil, fun p => ⟨fun h => absurd h List.not_mem_nil, ?_⟩⟩
  rintro ⟨i, -, hinit⟩
  exact absurd hinit not_initialized_zero

theorem Call.InRange.pin {c : Call} (h : c.InRange) : ∃ i : Fin highestGpio, c.gpio.toNat = i + 1 :=
  ⟨⟨c.gpio.toNat - 1, by have := h.1; have := h.2; omega⟩, by have := h.1; simp only; omega⟩

/-- What a call exports is new in the list, and new in the map. -/
theorem ChangesMode.tracks (h : ChangesMode f gpio mode i map o map') (hgpio : gpio.toNat = i + 1)
    (hpins : Tracks map pins) : Tracks map' (pins ++ acquired o.ops) := by
  have hmem : gpio.toNat ∈ pins ↔ Initialized (map i) := by
    rw [hpins.mem_iff]
    constructor
    · rintro ⟨j, hj, hinit⟩
      have : j = i := by ext; omega
      exact this ▸ hinit
    · exact fun hinit => ⟨i, hgpio, hinit⟩
  have hkeep : Initialized (map i) → Initialized (map' i) := fun hinit => h.initialized.mpr (.inl hinit)
  rw [h.exported]
  constructor
  · split
    · rename_i hnew
      exact List.nodup_append'.mpr ⟨hpins.nodup, List.nodup_singleton _, fun p hp hp' =>
        hnew.2 (hmem.mp (List.mem_singleton.mp hp' ▸ hp))⟩
    · rw [List.append_nil]
      exact hpins.nodup
  · intro p
    rw [List.mem_append, hpins.mem_iff]
    constructor
    · rintro (⟨j, rfl, hinit⟩ | hnew)
      · refine ⟨j, rfl, ?_⟩
        by_cases hj : j = i
        · exact hj ▸ hkeep (hj ▸ hinit)
        · rw [h.others j hj]
          exact hinit
      · split at hnew
        · rename_i hinit
          exact ⟨i, (List.mem_singleton.mp hnew).trans hgpio, hinit.1⟩
        · exact absurd hnew List.not_mem_nil
    · rintro ⟨j, rfl, hinit⟩
      by_cases hj : j = i
      · subst hj
        by_cases hold : Initialized (map j)
        · exact .inl ⟨j, rfl, hold⟩
        · rw [if_pos ⟨hinit, hold⟩]
          exact .inr (List.mem_singleton.mpr hgpio.symm)
      · exact .inl ⟨j, rfl, h.others j hj ▸ hinit⟩

theorem withMode_tracks {ready : BitVec 8 → Bool} {last : Out} {fs : List Files} (hgpio : gpio.toNat = i + 1)
    (hready : ∀ data, ready data = true → Initialized data) (hlast : acquired last.ops = [])
    (h : withMode gpio mode ready last fs map = .ok (o, map')) (hpins : Tracks map pins) :
    Tracks map' (pins ++ acquired o.ops) ∧ Initialized (map' i) := by
  induction fs generalizing map pins o with
  | nil =>
      obtain ⟨hi, rfl, rfl⟩ := (withMode_nil_ok hgpio).mp h
      rw [hlast, List.append_nil]
      exact ⟨hpins, hready _ hi⟩
  | cons f fs ih =>
      obtain ⟨hi, rfl, rfl⟩ | ⟨-, o₁, map₁, o₂, h₁, h₂, rfl⟩ := (withMode_cons_ok hgpio).mp h
      · rw [hlast, List.append_nil]
        exact ⟨hpins, hready _ hi⟩
      · rw [acquired_append, ← List.append_assoc]
        exact ih h₂ ((changesMode_of_ok hgpio h₁).tracks hgpio hpins)

theorem exportFails_pinMode {env : Env} :
    ExportFails (.pinMode gpio mode, env) ↔ gpioExport env.files gpio.toNat < 0 := by
  constructor
  · rintro ⟨_, _, heq, hfails⟩
    obtain ⟨rfl, rfl⟩ := Call.pinMode.inj heq
    exact hfails
  · exact fun hfails => ⟨gpio, mode, rfl, hfails⟩

/-- A call that is not a change of the mode. -/
def Call.NeedsMode (c : Call) : Prop := ∀ gpio mode, c ≠ .pinMode gpio mode

theorem Call.NeedsMode.not_exportFails (h : ce.1.NeedsMode) : ¬ ExportFails ce := by
  rintro ⟨gpio, mode, heq, -⟩
  exact h gpio mode heq

theorem Call.NeedsMode.spec (hneeds : ce.1.NeedsMode) (hgpio : ce.1.gpio.toNat = i + 1)
    (h : step ce map = .ok (o, map')) (hpins : Tracks map pins) :
    Tracks map' (pins ++ acquired o.ops) ∧ Initialized (map' i) := by
  obtain ⟨c, env⟩ := ce
  cases c with
  | pinMode gpio mode => exact absurd rfl (hneeds gpio mode)
  | digitalWrite gpio value =>
      exact withMode_tracks hgpio (fun _ hdata => chkBit_initialized.mp ((Bool.and_eq_true _ _).mp hdata).2) rfl h
        hpins
  | digitalRead gpio =>
      exact withMode_tracks hgpio (fun _ hdata => chkBit_initialized.mp ((Bool.and_eq_true _ _).mp hdata).2) rfl h
        hpins

theorem Call.pinMode_or (c : Call) : (∃ gpio mode, c = .pinMode gpio mode) ∨ c.NeedsMode := by
  cases c with
  | pinMode gpio mode => exact .inl ⟨gpio, mode, rfl⟩
  | digitalWrite gpio value => exact .inr (by simp [NeedsMode])
  | digitalRead gpio => exact .inr (by simp [NeedsMode])

theorem step_tracks (hc : ce.1.InRange) (h : step ce map = .ok (o, map')) (hpins : Tracks map pins) :
    Tracks map' (pins ++ acquired o.ops) := by
  obtain ⟨i, hgpio⟩ := hc.pin
  obtain ⟨c, env⟩ := ce
  obtain ⟨gpio, mode, rfl⟩ | hneeds := c.pinMode_or
  · exact (changesMode_of_ok hgpio h).tracks hgpio hpins
  · exact ((show (c, env).1.NeedsMode from hneeds).spec hgpio h hpins).1

/-- Where no pin was exported, a call that returns exports one, unless it fails to. -/
theorem acquires_none_iff (hc : ce.1.InRange) (h : step ce map = .ok (o, map')) (hpins : Tracks map []) :
    acquired o.ops = [] ↔ ExportFails ce := by
  obtain ⟨i, hgpio⟩ := hc.pin
  have hnone : ¬ Initialized (map i) := fun hinit => List.not_mem_nil ((hpins.mem_iff _).mpr ⟨i, rfl, hinit⟩)
  obtain ⟨c, env⟩ := ce
  obtain ⟨gpio, mode, rfl⟩ | hneeds := c.pinMode_or
  · have hmode : ChangesMode env.files gpio mode i map o map' := changesMode_of_ok hgpio h
    rw [exportFails_pinMode, hmode.exported, ite_eq_right_iff]
    rw [hmode.initialized, or_iff_right hnone]
    simp [hnone]
  · obtain ⟨htracks, hinit⟩ := (show (c, env).1.NeedsMode from hneeds).spec hgpio h hpins
    refine iff_of_false (fun hops => ?_) hneeds.not_exportFails
    rw [hops, List.append_nil] at htracks
    exact List.not_mem_nil ((htracks.mem_iff _).mpr ⟨i, rfl, hinit⟩)

def acquiredIn (os : List Out) : List Nat := os.flatMap fun o => acquired o.ops

/-- The run lemma. -/
theorem run_tracks (hc : ∀ ce ∈ is, ce.1.InRange) (h : exec step is map = .ok (os, map')) (hpins : Tracks map pins) :
    Tracks map' (pins ++ acquiredIn os) := by
  induction is generalizing map pins os with
  | nil =>
      obtain ⟨rfl, rfl⟩ := exec_nil_ok.mp h
      simpa [acquiredIn] using hpins
  | cons ce is ih =>
      obtain ⟨o, map₁, os₁, h₁, h₂, rfl⟩ := exec_cons_ok.mp h
      have htracks := ih (fun ce' hce' => hc ce' (List.mem_cons_of_mem ce hce')) h₂
        (step_tracks (hc ce List.mem_cons_self) h₁ hpins)
      rw [List.append_assoc] at htracks
      exact htracks

theorem run_acquires_none_iff (hc : ∀ ce ∈ is, ce.1.InRange) (h : exec step is map = .ok (os, map'))
    (hpins : Tracks map []) : acquiredIn os = [] ↔ ∀ ce ∈ is, ExportFails ce := by
  induction is generalizing map os with
  | nil =>
      rw [(exec_nil_ok.mp h).1]
      exact iff_of_true rfl fun _ hce => absurd hce List.not_mem_nil
  | cons ce is ih =>
      obtain ⟨o, map₁, os₁, h₁, h₂, rfl⟩ := exec_cons_ok.mp h
      have hfirst := acquires_none_iff (hc ce List.mem_cons_self) h₁ hpins
      have htracks := step_tracks (hc ce List.mem_cons_self) h₁ hpins
      have hrest := ih (fun ce' hce' => hc ce' (List.mem_cons_of_mem ce hce')) h₂
      rw [acquiredIn, List.flatMap_cons, List.append_eq_nil_iff, List.forall_mem_cons, ← hfirst]
      refine and_congr_right fun hops => hrest ?_
      rw [hops] at htracks
      exact htracks

/-! ## The release -/

/-- What was acquired is released, each pin once, and nothing else. -/
def ReleasedExactly (ops : List Op) (pins : List Nat) : Prop :=
  (released ops).Nodup ∧ ∀ p, p ∈ released ops ↔ p ∈ pins

theorem mem_released_iff (unmap : Fin highestGpio → Files) (hpins : Tracks map pins) {p : Nat} :
    p ∈ released (halGpioUnmap unmap map).1 ↔ p + 1 ∈ pins := by
  rw [mem_released_unmap, hpins.mem_iff]
  simp only [Nat.add_right_cancel_iff]

/-- Each index is released for the pin above it, so only where there is none do they agree. -/
theorem released_exact_iff (unmap : Fin highestGpio → Files) (hpins : Tracks map pins) :
    ReleasedExactly (halGpioUnmap unmap map).1 pins ↔ pins = [] := by
  rw [ReleasedExactly, and_iff_right (nodup_released_unmap unmap)]
  simp only [mem_released_iff unmap hpins]
  constructor
  · intro hshift
    have hnone : ∀ p, p ∉ pins := by
      intro p
      induction p with
      | zero =>
          intro hzero
          obtain ⟨i, hi, -⟩ := (hpins.mem_iff 0).mp hzero
          omega
      | succ p ih => exact mt (hshift p).mp ih
    exact List.eq_nil_iff_forall_not_mem.mpr hnone
  · rintro rfl p
    exact iff_of_false List.not_mem_nil List.not_mem_nil

/-- After `hal_gpio_setup` and any calls that return, `hal_gpio_unmap` unexports the pins that were exported, and no
other, if and only if none was. -/
theorem unmap_exact_iff (hc : ∀ ce ∈ is, ce.1.InRange) (h : exec step is halGpioSetup.2 = .ok (os, map))
    (unmap : Fin highestGpio → Files) :
    ReleasedExactly (halGpioUnmap unmap map).1 (acquiredIn os) ↔ ∀ ce ∈ is, ExportFails ce := by
  rw [← run_acquires_none_iff hc h tracks_setup]
  exact released_exact_iff unmap (run_tracks hc h tracks_setup)

/-- A pin that cannot be exported is not unexported. -/
theorem unmap_exact_forbidden :
    ReleasedExactly (halGpioUnmap (fun _ => .working) halGpioSetup.2).1
        (acquiredIn [⟨-13, [.gpioExport 17 (-13)]⟩]) ↔
      ∀ ce ∈ [(Call.pinMode 17 halGpioOutput, (⟨[], .forbidden⟩ : Env))], ExportFails ce :=
  unmap_exact_iff (by simp [Call.InRange, Call.gpio, highestGpio]) rfl _

/-- Pin 25 is exported and made an output; `hal_gpio_unmap` unexports pin 24. -/
theorem unmap_releases_neighbour :
    ∃ os map, exec step [(Call.pinMode 25 halGpioOutput, (⟨[], .working⟩ : Env))] halGpioSetup.2 = .ok (os, map) ∧
      acquiredIn os = [25] ∧ released (halGpioUnmap (fun _ => .working) map).1 = [24] ∧
      ¬ ReleasedExactly (halGpioUnmap (fun _ => .working) map).1 (acquiredIn os) := by
  refine ⟨_, _, rfl, rfl, by decide, fun hexact => ?_⟩
  exact absurd ((hexact.2 24).mp (by decide)) (by decide)

end KnotHal.Gpio
