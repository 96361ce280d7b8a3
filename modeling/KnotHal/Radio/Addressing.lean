import KnotHal.Nrf24.Step
import KnotHal.Radio.Nrf24l01

/-!
# Pipes and their addresses

`Pipes` is what the caller of the driver believes: which pipes are open and with which addresses. `Addressed`
says that the chip listens accordingly. `Held` is what is left of it while pipe 0 is lent to a transmission;
`nrf24l01_set_prx` makes one from the other.

* `Held.setPrx` : the pipes listen again;
* `openPipe_held`, `closePipe_held`, `Held.of_keeps`, `setPtx_held` : what each function leaves in place;
* `step_addressed` : an operation ends, and does to the chip what it should do to the pipes;
* `along_legal` : the addresses of `hal_comm_socket` are ones that the driver can do with;
* `addresses_kept` : what the chip listens to after any operations, and what it sends to.
-/

namespace KnotHal.Radio

open Machine

/-! ## The open pipes -/

abbrev Pipes : Type := Fin 6 → Option Address

namespace Pipes

/-- A pipe that is open keeps its address. -/
def openPipe (pipe : Nat) (addr : Address) (ps : Pipes) : Pipes :=
  if h : pipe < 6 then
    match ps ⟨pipe, h⟩ with
    | none => Function.update ps ⟨pipe, h⟩ (some addr)
    | some _ => ps
  else ps

def closePipe (pipe : Int) (ps : Pipes) : Pipes :=
  if h : 0 ≤ pipe ∧ pipe < 6 then Function.update ps ⟨pipe.toNat, by omega⟩ none else ps

def step (c : Call) (ps : Pipes) : Pipes :=
  match c with
  | .setPipe pipe addr => ps.openPipe pipe.toNat addr
  | .resetPipe arg => ps.closePipe (int8 arg)
  | .setChannel _ _ | .setStandby | .otherCommand | .write _ _ _ _ => ps

def none : Pipes := fun _ => .none

def after (calls : List Call) : Pipes := calls.foldl (fun ps c => step c ps) none

end Pipes

def upper (a : Address) : List UInt8 := a.read 1 4

/-- The pipes from 1 on are opened with the high bytes that the open ones have, and there are six pipes to
write to. -/
def Legal (c : Call) (ps : Pipes) : Prop :=
  match c with
  | .setPipe pipe addr => 1 ≤ pipe.toNat → ∀ p : Fin 6, p ≠ 0 → ∀ a, ps p = some a → upper a = upper addr
  | .write pipe _ _ _ => pipe.toNat < 6
  | .resetPipe _ | .setChannel _ _ | .setStandby | .otherCommand => True

variable {d : Driver} {ps : Pipes}

/-! ## What the chip listens to -/

/-- The chip listens as the pipes say. -/
structure Addressed (d : Driver) (ps : Pipes) : Prop where
  wide : d.chip.Wide
  powered : d.chip.Powered
  shadow : d.pipe0Open = (ps 0).isSome
  saved : ∀ a, ps 0 = some a → d.pipe0Address = a
  enabled : ∀ p : Fin 6, p.val ∈ d.chip.enabled ↔ (ps p).isSome
  receives : ∀ p a, ps p = some a → d.chip.receives p.val = a

/-- The chip listens as the pipes from 1 on say, and pipe 0 can be brought back. -/
structure Held (d : Driver) (ps : Pipes) : Prop where
  wide : d.chip.Wide
  powered : d.chip.Powered
  shadow : d.pipe0Open = (ps 0).isSome
  saved : ∀ a, ps 0 = some a → d.pipe0Address = a
  lent : (ps 0).isSome → 0 ∈ d.chip.enabled
  enabled : ∀ p : Fin 6, p ≠ 0 → (p.val ∈ d.chip.enabled ↔ (ps p).isSome)
  receives : ∀ p a, p ≠ 0 → ps p = some a → d.chip.receives p.val = a

theorem Addressed.held (h : Addressed d ps) : Held d ps where
  wide := h.wide
  powered := h.powered
  shadow := h.shadow
  saved := h.saved
  lent hsome := (h.enabled 0).mpr hsome
  enabled p _ := h.enabled p
  receives p a _ := h.receives p a

theorem le_pipeMax (p : Fin 6) : p.val ≤ pipeMax := Nat.le_of_lt_succ p.isLt

theorem one_le_val {p : Fin 6} (h : p ≠ 0) : 1 ≤ p.val := Nat.pos_of_ne_zero fun hz => h (Fin.ext hz)

theorem Keeps.receives_high {c c' : Chip} {W : List Nat} (h : Keeps c c' W)
    (hW : ∀ r ∈ W, r < Reg.rxAddrPipe 1 ∨ Reg.txAddr ≤ r) {p : Fin 6} (hp : p ≠ 0) :
    c'.receives p.val = c.receives p.val :=
  h.receives (rxAddrPipe_not_mem 1 (Nat.le_refl 1) (by decide) hW)
    (rxAddrPipe_not_mem 1 (one_le_val hp) (le_pipeMax p) hW)

theorem Held.setPrx (h : Held d ps) : Addressed d.setPrx ps := by
  have hl := setPrx_listens h.wide
  have hhigh : ∀ p : Fin 6, p ≠ 0 → (p.val ∈ d.setPrx.chip.enabled ↔ (ps p).isSome) := by
    intro p hp
    have hval : p.val ≠ 0 := Nat.pos_iff_ne_zero.mp (one_le_val hp)
    cases hopen : d.pipe0Open with
    | true => rw [(hl.opened hopen).2, h.enabled p hp]
    | false =>
        rw [hl.closed hopen, ← h.enabled p hp]
        exact ⟨fun hmem => hmem.1, fun hmem => ⟨hmem, hval⟩⟩
  constructor
  · exact hl.keeps.wide (by decide) h.wide
  · exact hl.powered h.powered
  · rw [hl.open_eq, h.shadow]
  · intro a ha
    rw [hl.address_eq, h.saved a ha]
  · intro p
    by_cases hp : p = 0
    · subst hp
      cases hopen : d.pipe0Open with
      | true =>
          have hsome : (ps 0).isSome := by rw [← h.shadow, hopen]
          rw [(hl.opened hopen).2]
          exact ⟨fun _ => hsome, fun _ => h.lent hsome⟩
      | false =>
          rw [hl.closed hopen, ← h.shadow, hopen]
          exact ⟨fun hmem => absurd rfl hmem.2, fun hfalse => by cases hfalse⟩
    · exact hhigh p hp
  · intro p a ha
    by_cases hp : p = 0
    · subst hp
      have hopen : d.pipe0Open = true := by rw [h.shadow, ha]; rfl
      have hfile : d.setPrx.chip.receives 0 = d.setPrx.chip.file Reg.rxAddrP0 := rfl
      exact hfile.trans ((hl.opened hopen).1.trans (h.saved a ha))
    · rw [hl.keeps.receives_high (by decide) hp, h.receives p a hp ha]

/-! ## Opening a pipe -/

section Open
variable {c : Chip} {pipe : Nat} {addr : Address} {value : BitVec 8}

theorem receives_of_low {p : Nat} (hp : 1 < p) : c.receives p =
    (c.file Reg.rxAddrP1).write 0 [(c.file (Reg.rxAddrPipe p)).get 0] := if_neg (Nat.not_le.mpr hp)

theorem get_receives {p : Nat} (hp : 1 < p) : (c.receives p).get 0 = (c.file (Reg.rxAddrPipe p)).get 0 := by
  have hone : 0 < [(c.file (Reg.rxAddrPipe p)).get 0].length := Nat.zero_lt_succ 0
  rw [receives_of_low hp]
  exact Buf.get_write_self _ hone (Nat.le_of_ble_eq_true rfl)

/-- A pipe from 2 on receives an address if its own register has the low byte and that of pipe 1 the others. -/
theorem receives_eq {p : Nat} (hp : 1 < p) {a : Address} (hlow : (c.file (Reg.rxAddrPipe p)).get 0 = a.get 0)
    (hup : upper (c.file Reg.rxAddrP1) = upper a) : c.receives p = a := by
  rw [receives_of_low hp, hlow]
  exact Buf.write_get_zero a _ hup

theorem keeps_writePipe (pipe : Nat) (value : BitVec 8) (addr : Address) (c : Chip) :
    Keeps c (Driver.writePipe pipe value addr c) [Reg.rxAddrPipe pipe, Reg.rxAddrP1] := by
  have hown : Keeps c (c.setAddressPipe (Reg.rxAddrPipe pipe) addr) [Reg.rxAddrPipe pipe, Reg.rxAddrP1] :=
    (Keeps.refl c _).setAddressPipe List.mem_cons_self addr
  unfold Driver.writePipe
  dsimp only
  split
  · exact hown.setAddressPipe (List.mem_cons_of_mem _ List.mem_cons_self) addr
  · exact hown

theorem writePipe_own (h : pipe ≤ 1 ∨ 1 ∈ bits value) :
    Driver.writePipe pipe value addr c = c.setAddressPipe (Reg.rxAddrPipe pipe) addr := by
  apply if_neg
  rw [and_enRxaddrPipe_eq_zero (by decide)]
  rintro ⟨hgt, hno⟩
  rcases h with hle | hmem
  · exact absurd hgt (Nat.not_lt.mpr hle)
  · exact hno hmem

theorem writePipe_both (h : 1 < pipe) (hno : 1 ∉ bits value) : Driver.writePipe pipe value addr c =
    (c.setAddressPipe (Reg.rxAddrPipe pipe) addr).setAddressPipe Reg.rxAddrP1 addr := by
  apply if_pos
  rw [and_enRxaddrPipe_eq_zero (by decide)]
  exact ⟨h, hno⟩

theorem rxAddrPipe_ne {p q : Nat} (h : p ≠ q) : Reg.rxAddrPipe p ≠ Reg.rxAddrPipe q :=
  fun heq => h (Nat.add_right_cancel heq)

/-- The pipe gets its address. Where pipe 1 is not enabled, or is the one that is opened, its register gets it
too; else it stays as it is. -/
theorem writePipe_file (h : c.Wide) (h₁ : 1 ≤ pipe) (hp : pipe ≤ pipeMax) :
    (pipe = 1 ∨ ((Driver.writePipe pipe value addr c).file (Reg.rxAddrPipe pipe)).get 0 = addr.get 0) ∧
    ((1 ∈ bits value ∧ pipe ≠ 1 ∧ (Driver.writePipe pipe value addr c).file Reg.rxAddrP1 = c.file Reg.rxAddrP1) ∨
      ((1 ∉ bits value ∨ pipe = 1) ∧ (Driver.writePipe pipe value addr c).file Reg.rxAddrP1 = addr)) := by
  have hown : Keeps c (c.setAddressPipe (Reg.rxAddrPipe pipe) addr) [Reg.rxAddrPipe pipe] :=
    (Keeps.refl c _).setAddressPipe List.mem_cons_self addr
  rcases Nat.eq_or_lt_of_le h₁ with rfl | hgt
  · rw [writePipe_own (Or.inl (Nat.le_refl 1))]
    exact ⟨Or.inl rfl, Or.inr ⟨Or.inr rfl, setAddressPipe_full h (Or.inr (Or.inr rfl))⟩⟩
  · have hlow := setAddressPipe_low (c := c) (a := addr) hgt hp
    have hne : Reg.rxAddrPipe pipe ≠ Reg.rxAddrP1 := rxAddrPipe_ne (q := 1) (by omega)
    by_cases hone : 1 ∈ bits value
    · rw [writePipe_own (Or.inr hone)]
      exact ⟨Or.inr hlow, Or.inl ⟨hone, by omega, hown _ fun hmem => hne (List.mem_singleton.mp hmem).symm⟩⟩
    · have hwide : (c.setAddressPipe (Reg.rxAddrPipe pipe) addr).Wide :=
        hown.wide (fun hmem => absurd (List.mem_singleton.mp hmem) (by show 3 ≠ pipe + 10; omega)) h
      have hkeep : Keeps (c.setAddressPipe (Reg.rxAddrPipe pipe) addr)
          ((c.setAddressPipe (Reg.rxAddrPipe pipe) addr).setAddressPipe Reg.rxAddrP1 addr) [Reg.rxAddrP1] :=
        (Keeps.refl _ _).setAddressPipe List.mem_cons_self addr
      rw [writePipe_both hgt hone]
      refine ⟨Or.inr ?_, Or.inr ⟨Or.inl hone, setAddressPipe_full hwide (Or.inr (Or.inr rfl))⟩⟩
      rw [hkeep _ fun hmem => hne (List.mem_singleton.mp hmem), hlow]

end Open

/-! ## What the functions leave in place -/

theorem mem_insert_iff_isSome {en : Set Nat} (hen : ∀ p : Fin 6, p.val ∈ en ↔ (ps p).isSome) (p q : Fin 6)
    (addr : Address) : q.val ∈ insert p.val en ↔ (Function.update ps p (some addr) q).isSome := by
  by_cases hq : q = p
  · subst hq
    rw [Function.update_self]
    exact ⟨fun _ => rfl, fun _ => Set.mem_insert ..⟩
  · have hval : q.val ≠ p.val := fun heq => hq (Fin.ext heq)
    rw [Function.update_of_ne hq, ← hen q]
    exact ⟨fun hmem => hmem.resolve_left hval, fun hmem => Or.inr hmem⟩

theorem Addressed.open_zero (h : Addressed d ps) {c : Chip} {addr : Address}
    (hkeep : Keeps d.chip c [Reg.enRxaddr, Reg.rxAddrP0]) (hen : c.enabled = insert 0 d.chip.enabled) :
    Held ⟨c, true, addr⟩ (Function.update ps 0 (some addr)) where
  wide := hkeep.wide (by decide) h.wide
  powered := hkeep.powered (by decide) h.powered
  shadow := by rw [Function.update_self]; rfl
  saved a ha := by
    rw [Function.update_self] at ha
    exact Option.some.inj ha
  lent _ := hen ▸ Set.mem_insert ..
  enabled q _ := by
    show q.val ∈ c.enabled ↔ _
    rw [hen]
    exact mem_insert_iff_isSome h.enabled 0 q addr
  receives q a hq ha := by
    rw [Function.update_of_ne hq] at ha
    show c.receives q.val = a
    rw [hkeep.receives_high (by decide) hq, h.receives q a ha]

theorem Addressed.open_high (h : Addressed d ps) {c : Chip} {addr : Address} {p : Fin 6} (hp : p ≠ 0)
    {W : List Nat} (hkeep : Keeps d.chip c W) (hW : ∀ r ∈ W, r = Reg.enRxaddr ∨ Reg.rxAddrP0 ≤ r)
    (hen : c.enabled = insert p.val d.chip.enabled) (hown : c.receives p.val = addr)
    (hrest : ∀ q a, q ≠ 0 → q ≠ p → ps q = some a → c.receives q.val = a) :
    Held { d with chip := c } (Function.update ps p (some addr)) where
  wide := hkeep.wide (fun hmem => absurd (hW _ hmem) (by decide)) h.wide
  powered := hkeep.powered (fun hmem => absurd (hW _ hmem) (by decide)) h.powered
  shadow := by rw [Function.update_of_ne hp.symm]; exact h.shadow
  saved a ha := by
    rw [Function.update_of_ne hp.symm] at ha
    exact h.saved a ha
  lent hsome := by
    rw [Function.update_of_ne hp.symm] at hsome
    show 0 ∈ c.enabled
    rw [hen]
    exact Or.inr ((h.enabled 0).mpr hsome)
  enabled q _ := by
    show q.val ∈ c.enabled ↔ _
    rw [hen]
    exact mem_insert_iff_isSome h.enabled p q addr
  receives q a hq ha := by
    show c.receives q.val = a
    by_cases hqp : q = p
    · subst hqp
      rw [Function.update_self] at ha
      rw [hown, Option.some.inj ha]
    · rw [Function.update_of_ne hqp] at ha
      exact hrest q a hq hqp ha

/-- The registers of the pipes from 1 on, after one of them got an address with the high bytes of the others. -/
theorem writePipe_receives (h : Addressed d ps) {c : Chip} (hkeep : Keeps d.chip c [Reg.enRxaddr]) {p : Fin 6}
    (hp : p ≠ 0) {addr : Address} (hs : ∀ q : Fin 6, q ≠ 0 → ∀ a, ps q = some a → upper a = upper addr) :
    (Driver.writePipe p.val (d.chip.regRead Reg.enRxaddr) addr c).receives p.val = addr ∧
    ∀ q a, q ≠ 0 → q ≠ p → ps q = some a →
      (Driver.writePipe p.val (d.chip.regRead Reg.enRxaddr) addr c).receives q.val = a := by
  have hwide := hkeep.wide (by decide) h.wide
  have hfile := @writePipe_file c p.val addr (d.chip.regRead Reg.enRxaddr) hwide (one_le_val hp) (le_pipeMax p)
  have hkept := keeps_writePipe p.val (d.chip.regRead Reg.enRxaddr) addr c
  generalize Driver.writePipe p.val (d.chip.regRead Reg.enRxaddr) addr c = c' at hfile hkept ⊢
  obtain ⟨hlow, hone⟩ := hfile
  -- the register of pipe 1 has the shared high bytes, and the whole address of pipe 1 while that is open
  have hup : upper (c'.file Reg.rxAddrP1) = upper addr := by
    rcases hone with ⟨hmem, -, hsame⟩ | ⟨-, hnew⟩
    · obtain ⟨a, ha⟩ := Option.isSome_iff_exists.mp ((h.enabled 1).mp hmem)
      have hrec : d.chip.file Reg.rxAddrP1 = a := h.receives 1 a ha
      rw [hsame, hkeep _ (by decide), hrec, hs 1 (by decide) a ha]
    · rw [hnew]
  constructor
  · rcases Nat.eq_or_lt_of_le (one_le_val hp) with heq | hgt
    · rcases hone with ⟨-, hne, -⟩ | ⟨-, hnew⟩
      · exact absurd heq.symm hne
      · rw [← heq]
        exact hnew
    · exact receives_eq hgt (hlow.resolve_left (Nat.ne_of_gt hgt)) hup
  · intro q a hq hqp ha
    have hold := h.receives q a ha
    have hval : q.val ≠ p.val := fun heq => hqp (Fin.ext heq)
    rcases Nat.eq_or_lt_of_le (one_le_val hq) with heq | hgt
    · have hqone : q = 1 := Fin.ext heq.symm
      subst hqone
      rcases hone with ⟨-, -, hsame⟩ | ⟨hclosed | hpone, -⟩
      · rw [← hold]
        exact hsame.trans (hkeep _ (by decide))
      · exact absurd ((h.enabled 1).mpr (by rw [ha]; rfl)) hclosed
      · exact absurd hpone.symm hval
    · have hreg : Reg.rxAddrPipe q.val ∉ [Reg.rxAddrPipe p.val, Reg.rxAddrP1] := by
        intro hmem
        rcases List.mem_cons.mp hmem with heq | hmem
        · exact rxAddrPipe_ne hval heq
        · exact rxAddrPipe_ne (q := 1) (Nat.ne_of_gt hgt) (List.mem_singleton.mp hmem)
      have hen : Reg.rxAddrPipe q.val ∉ [Reg.enRxaddr] :=
        rxAddrPipe_not_mem 0 (Nat.zero_le _) (le_pipeMax q) (by decide)
      apply receives_eq hgt
      · rw [hkept _ hreg, hkeep _ hen, ← get_receives hgt, hold]
      · rw [hup, hs q hq a ha]

section OpenPipe
variable {c : Chip} {p : Fin 6} (hkeep : Keeps d.chip c [Reg.enRxaddr])
  (hread : c.regRead Reg.enRxaddr = d.chip.regRead Reg.enRxaddr ||| enRxaddrPipe p.val)

include hread in
theorem writePipe_enabled (addr : Address) :
    (Driver.writePipe p.val (d.chip.regRead Reg.enRxaddr) addr c).enabled = insert p.val d.chip.enabled := by
  have hout : Reg.enRxaddr ∉ [Reg.rxAddrPipe p.val, Reg.rxAddrP1] := by
    intro hmem
    rcases List.mem_cons.mp hmem with heq | hmem
    · exact absurd (show 2 = p.val + 10 from heq) (by omega)
    · exact absurd hmem (by decide)
  unfold Chip.enabled
  rw [(keeps_writePipe p.val (d.chip.regRead Reg.enRxaddr) addr c).regRead hout (by decide), hread,
    enRxaddrPipe_eq (le_pipeMax p), bits_set (Nat.lt_trans p.isLt (by decide))]

include hkeep hread

theorem Addressed.enabled_zero (h : Addressed d ps) (hp : p = 0) (addr : Address) :
    Held ⟨Driver.writePipe p.val (d.chip.regRead Reg.enRxaddr) addr c, true, addr⟩
      (Function.update ps p (some addr)) := by
  have hset := writePipe_enabled hread addr
  subst hp
  have hown : Keeps d.chip (Driver.writePipe 0 (d.chip.regRead Reg.enRxaddr) addr c) [Reg.enRxaddr, Reg.rxAddrP0] := by
    rw [writePipe_own (Or.inl (Nat.zero_le 1))]
    exact (hkeep.mono (by decide)).setAddressPipe (by decide) addr
  exact h.open_zero hown hset

theorem Addressed.enabled_high (h : Addressed d ps) (hp : p ≠ 0) {addr : Address}
    (hs : ∀ q : Fin 6, q ≠ 0 → ∀ a, ps q = some a → upper a = upper addr) :
    Held { d with chip := Driver.writePipe p.val (d.chip.regRead Reg.enRxaddr) addr c }
      (Function.update ps p (some addr)) := by
  have hall : Keeps d.chip (Driver.writePipe p.val (d.chip.regRead Reg.enRxaddr) addr c)
      [Reg.enRxaddr, Reg.rxAddrPipe p.val, Reg.rxAddrP1] := by
    apply (hkeep.mono (List.cons_subset_cons _ (List.nil_subset _))).trans
    exact (keeps_writePipe p.val (d.chip.regRead Reg.enRxaddr) addr c).mono (List.subset_cons_self ..)
  have hW : ∀ r ∈ [Reg.enRxaddr, Reg.rxAddrPipe p.val, Reg.rxAddrP1], r = Reg.enRxaddr ∨ Reg.rxAddrP0 ≤ r := by
    intro r hr
    rcases List.mem_cons.mp hr with rfl | hr
    · exact Or.inl rfl
    · rcases List.mem_cons.mp hr with rfl | hr
      · exact Or.inr (Nat.le_add_left ..)
      · exact Or.inr (List.mem_singleton.mp hr ▸ by decide)
  obtain ⟨hown, hrest⟩ := writePipe_receives h hkeep hp hs
  exact h.open_high hp hall hW (writePipe_enabled hread addr) hown hrest

end OpenPipe

theorem openPipe_held {pipe : Nat} {addr : Address} (h : Addressed d ps)
    (hs : 1 ≤ pipe → ∀ p : Fin 6, p ≠ 0 → ∀ a, ps p = some a → upper a = upper addr) :
    Held (d.openPipe pipe addr).2 (ps.openPipe pipe addr) := by
  unfold Driver.openPipe Pipes.openPipe
  by_cases hrange : pipe < 6
  · have hle : pipe ≤ pipeMax := Nat.le_of_lt_succ hrange
    rw [if_neg (Nat.not_lt.mpr hle), dif_pos hrange]
    dsimp only
    have hen := h.enabled ⟨pipe, hrange⟩
    cases hps : ps ⟨pipe, hrange⟩ with
    | some a =>
        rw [hps] at hen
        have hmem : pipe ∈ bits (d.chip.regRead Reg.enRxaddr) := hen.mpr rfl
        rw [if_neg fun hz => (and_enRxaddrPipe_eq_zero hle).mp hz hmem]
        exact h.held
    | none =>
        rw [hps] at hen
        have hno : pipe ∉ bits (d.chip.regRead Reg.enRxaddr) := fun hmem => by cases hen.mp hmem
        rw [if_pos ((and_enRxaddrPipe_eq_zero hle).mpr hno)]
        have hkeep : Keeps d.chip (d.chip.regWrite Reg.enRxaddr (d.chip.regRead Reg.enRxaddr ||| enRxaddrPipe pipe))
            [Reg.enRxaddr] := (Keeps.refl _ _).regWrite (by decide) _
        have hread := regRead_regWrite (r := Reg.enRxaddr) (by decide)
          (d.chip.regRead Reg.enRxaddr ||| enRxaddrPipe pipe) d.chip
        by_cases hzero : pipe = 0
        · rw [if_pos hzero]
          exact h.enabled_zero (p := ⟨pipe, hrange⟩) hkeep hread (Fin.ext hzero) addr
        · have hp : (⟨pipe, hrange⟩ : Fin 6) ≠ 0 := fun heq => hzero (congrArg Fin.val heq)
          rw [if_neg hzero]
          exact h.enabled_high (p := ⟨pipe, hrange⟩) hkeep hread hp (hs (Nat.pos_of_ne_zero hzero))
  · have hgt : pipeMax < pipe := by unfold pipeMax; omega
    rw [if_pos hgt, dif_neg hrange]
    exact h.held

theorem Addressed.close (h : Addressed d ps) {c : Chip} {o : Bool} {p : Fin 6} (hkeep : Keeps d.chip c [Reg.enRxaddr])
    (hen : c.enabled = d.chip.enabled \ {p.val}) (ho : o = if p = 0 then false else d.pipe0Open) :
    Held { d with chip := c, pipe0Open := o } (Function.update ps p none) := by
  have hkept : ∀ q : Fin 6, q ≠ p → Function.update ps p none q = ps q := fun q hq => Function.update_of_ne hq ..
  have hgone : Function.update ps p none p = none := Function.update_self ..
  constructor
  · exact hkeep.wide (by decide) h.wide
  · exact hkeep.powered (by decide) h.powered
  · show o = _
    by_cases hp : p = 0
    · subst hp
      rw [ho, if_pos rfl, hgone]
      rfl
    · rw [ho, if_neg hp, hkept 0 (Ne.symm hp), h.shadow]
  · intro a ha
    by_cases hp : p = 0
    · subst hp
      cases hgone.symm.trans ha
    · rw [hkept 0 (Ne.symm hp)] at ha
      exact h.saved a ha
  · intro hsome
    show 0 ∈ c.enabled
    rw [hen]
    by_cases hp : p = 0
    · subst hp
      rw [hgone] at hsome
      cases hsome
    · rw [hkept 0 (Ne.symm hp)] at hsome
      exact ⟨(h.enabled 0).mpr hsome, fun heq => hp (Fin.ext heq.symm)⟩
  · intro q _
    show q.val ∈ c.enabled ↔ _
    rw [hen]
    by_cases hq : q = p
    · subst hq
      rw [hgone]
      exact ⟨fun hmem => absurd rfl hmem.2, fun hsome => by cases hsome⟩
    · rw [hkept q hq, ← h.enabled q]
      exact ⟨fun hmem => hmem.1, fun hmem => ⟨hmem, fun heq => hq (Fin.ext heq)⟩⟩
  · intro q a hq ha
    show c.receives q.val = a
    by_cases hqp : q = p
    · subst hqp
      cases hgone.symm.trans ha
    · rw [hkept q hqp] at ha
      rw [hkeep.receives_high (by decide) hq, h.receives q a ha]

theorem closePipe_held (h : Addressed d ps) (pipe : Int) : Held (d.closePipe pipe).2 (ps.closePipe pipe) := by
  unfold Driver.closePipe Pipes.closePipe
  by_cases hrange : 0 ≤ pipe ∧ pipe < 6
  · have hle : pipe.toNat ≤ pipeMax := by unfold pipeMax; omega
    have hfin : pipe.toNat < 6 := by omega
    have hen := h.enabled ⟨pipe.toNat, hfin⟩
    rw [if_neg (by unfold pipeMax; omega), dif_pos hrange]
    by_cases hbit : pipe.toNat ∈ bits (d.chip.regRead Reg.enRxaddr)
    · have hkeep : Keeps d.chip (d.chip.regWrite Reg.enRxaddr
          (d.chip.regRead Reg.enRxaddr &&& ~~~enRxaddrPipe pipe.toNat)) [Reg.enRxaddr] :=
        (Keeps.refl _ _).regWrite (by decide) _
      have hclear : (d.chip.regWrite Reg.enRxaddr
          (d.chip.regRead Reg.enRxaddr &&& ~~~enRxaddrPipe pipe.toNat)).enabled = d.chip.enabled \ {pipe.toNat} := by
        unfold Chip.enabled
        rw [regRead_regWrite (by decide), enRxaddrPipe_eq hle, bits_clear]
      have hzero : (⟨pipe.toNat, hfin⟩ : Fin 6) = 0 ↔ pipe = 0 := by
        rw [Fin.ext_iff]
        show pipe.toNat = 0 ↔ pipe = 0
        omega
      rw [if_pos fun hz => (and_enRxaddrPipe_eq_zero hle).mp hz hbit]
      exact h.close hkeep hclear (by simp only [hzero])
    · have hnone : ps ⟨pipe.toNat, hfin⟩ = none := by
        cases hps : ps ⟨pipe.toNat, hfin⟩ with
        | none => rfl
        | some a =>
            rw [hps] at hen
            exact absurd (hen.mpr rfl) hbit
      have hsame : Function.update ps ⟨pipe.toNat, hfin⟩ none = ps := by
        rw [← hnone]
        exact Function.update_eq_self ..
      rw [if_neg (not_not.mpr ((and_enRxaddrPipe_eq_zero hle).mpr hbit)), hsame]
      exact h.held
  · rw [if_pos (by unfold pipeMax; omega), dif_neg hrange]
    exact h.held

theorem Held.of_keeps (h : Held d ps) {c : Chip} {W : List Nat} (hkeep : Keeps d.chip c W)
    (hW : ∀ r ∈ W, (r < Reg.rxAddrP0 ∨ Reg.txAddr ≤ r) ∧ r ≠ Reg.enRxaddr ∧ r ≠ Reg.setupAw ∧ r ≠ Reg.config) :
    Held { d with chip := c } ps := by
  have hen : c.enabled = d.chip.enabled :=
    congrArg bits (hkeep.regRead (fun hmem => (hW _ hmem).2.1 rfl) (by decide))
  constructor
  · exact hkeep.wide (fun hmem => (hW _ hmem).2.2.1 rfl) h.wide
  · exact hkeep.powered (fun hmem => (hW _ hmem).2.2.2 rfl) h.powered
  · exact h.shadow
  · exact h.saved
  · exact hen ▸ h.lent
  · exact hen ▸ h.enabled
  · intro p a hp ha
    have hhigh : ∀ r ∈ W, r < Reg.rxAddrPipe 1 ∨ Reg.txAddr ≤ r := fun r hr =>
      (hW r hr).1.imp_left fun hlt => Nat.lt_trans hlt (by decide)
    exact (hkeep.receives_high hhigh hp).trans (h.receives p a hp ha)

theorem setPtx_held (h : Addressed d ps) {c : Chip} {pipe : Nat} (haim : Aims d.chip c pipe) :
    Held { d with chip := c } ps := by
  have hothers : ∀ p : Fin 6, p ≠ 0 → (p.val ∈ c.enabled ↔ p.val ∈ d.chip.enabled) := by
    intro p hp
    have hval : p.val ≠ 0 := Nat.pos_iff_ne_zero.mp (one_le_val hp)
    have hmem : p.val ∈ c.enabled \ {0} ↔ p.val ∈ d.chip.enabled \ {0} := by rw [haim.others]
    exact ⟨fun hc => (hmem.mp ⟨hc, hval⟩).1, fun hd => (hmem.mpr ⟨hd, hval⟩).1⟩
  constructor
  · exact haim.keeps.wide (by decide) h.wide
  · exact (ptx_iff.mp (haim.ptx h.powered)).1
  · exact h.shadow
  · exact h.saved
  · exact fun hsome => haim.enabled ((h.enabled 0).mpr hsome)
  · exact fun p hp => (hothers p hp).trans (h.enabled p)
  · exact fun p a hp ha => (haim.keeps.receives_high (by decide) hp).trans (h.receives p a ha)

/-! ## Operations -/

/-- While `nrf24l01_write` transmits, the chip sends to the address `a`, and with auto acknowledgment on it
receives there on pipe 0. -/
def Sends (a : Address) (c : Chip) : Prop :=
  c.file Reg.txAddr = a ∧ (c.regRead Reg.enAa &&& pipesMask ≠ 0 → c.file Reg.rxAddrP0 = c.file Reg.txAddr)

theorem Sends.of_keeps {a : Address} {c c' : Chip} (h : Sends a c) (hkeep : Keeps c c' [Reg.status]) :
    Sends a c' := by
  unfold Sends
  rw [hkeep _ (by decide), hkeep _ (by decide), hkeep.regRead (by decide) (by decide)]
  exact h

theorem write_addressed (h : Addressed d ps) {pipe : UInt8} (hp : pipe.toNat < 6) (payload : List UInt8)
    (acked : Bool) (stack : Address) :
    ∃ out d', d.nrf24l01Write pipe payload acked stack = .ok (out, d') ∧ Addressed d' ps ∧ out.during ≠ [] ∧
      ∀ a, ps ⟨pipe.toNat, hp⟩ = some a → ∀ c ∈ out.during, Sends a c := by
  have haim := setPtx_aims h.wide (Nat.le_of_lt_succ hp) stack
  unfold Driver.nrf24l01Write
  dsimp only
  generalize (d.chip.setPtx pipe.toNat stack).2 = ready at haim ⊢
  have hready := setPtx_held h haim
  have hsent := keeps_ptxData payload acked ready
  have hend := ptxWaitDatasent_ok (haim.ptx h.powered) payload acked
  generalize ready.ptxData payload acked = out at hsent hend ⊢
  obtain ⟨st, sent⟩ := out
  have hsends : ∀ a, ps ⟨pipe.toNat, hp⟩ = some a → Sends a ready := by
    intro a ha
    have hrec := h.receives _ a ha
    have htx : ready.file Reg.txAddr = a := haim.tx.trans hrec
    exact ⟨htx, fun hon => (haim.ack hon).trans haim.tx.symm⟩
  obtain ⟨err, done, hdone, hkeep⟩ : ∃ err done, (if st = 0 then sent.ptxWaitDatasent else .ok (st, sent)) =
      (.ok (err, done) : Except Fault (Int × Chip)) ∧ Keeps sent done [] := by
    by_cases hst : st = 0
    · obtain ⟨⟨err, done⟩, hwait⟩ := hend hst
      exact ⟨err, done, by rw [if_pos hst, hwait], keeps_ptxWaitDatasent hwait⟩
    · exact ⟨st, sent, if_neg hst, Keeps.refl sent _⟩
  have hall : Keeps ready done [Reg.status] := hsent.trans (hkeep.mono (List.nil_subset _))
  rw [hdone]
  refine ⟨_, _, rfl, (hready.of_keeps hall (by decide)).setPrx, List.cons_ne_nil _ _, ?_⟩
  intro a ha c hc
  have ha := hsends a ha
  rcases List.mem_cons.mp hc with rfl | hc
  · exact ha
  · rcases List.mem_cons.mp hc with rfl | hc
    · exact ha.of_keeps hsent
    · exact List.mem_singleton.mp hc ▸ ha.of_keeps hall

theorem step_addressed (c : Call) (d : Driver) (ps : Pipes) (h : Addressed d ps) (hs : Legal c ps) :
    ∃ out d', d.step c = .ok (out, d') ∧ Addressed d' (ps.step c) := by
  have hstandby : Addressed { d with chip := d.chip.disable } ps := ⟨h.1, h.2, h.3, h.4, h.5, h.6⟩
  cases c with
  | setPipe pipe addr => exact ⟨_, _, rfl, (openPipe_held hstandby hs).setPrx⟩
  | resetPipe arg => exact ⟨_, _, rfl, (closePipe_held hstandby (int8 arg)).setPrx⟩
  | setChannel value ack =>
      have hkeep := keeps_setChannel value.toBitVec ack d.chip.disable
      exact ⟨_, _, rfl, (hstandby.held.of_keeps hkeep (by decide)).setPrx⟩
  | setStandby => exact ⟨_, _, rfl, hstandby⟩
  | otherCommand => exact ⟨_, _, rfl, hstandby.held.setPrx⟩
  | write pipe payload acked stack =>
      obtain ⟨out, d', hw, h', -⟩ := write_addressed h hs payload acked stack
      exact ⟨out, d', hw, h'⟩

/-! ## Runs -/

theorem init_keeps (c : Chip) : ∃ cfg aw en : Chip,
    Keeps cfg c.nrf24l01Init [Reg.rfCh, Reg.rfSetup, Reg.setupAw, Reg.setupRetr, Reg.enAa, Reg.enRxaddr, Reg.feature,
      Reg.dynpd, Reg.status] ∧
    Keeps aw c.nrf24l01Init [Reg.setupRetr, Reg.enAa, Reg.enRxaddr, Reg.feature, Reg.dynpd, Reg.status] ∧
    Keeps en c.nrf24l01Init [Reg.feature, Reg.dynpd, Reg.status] ∧
    (∃ v, cfg.regRead Reg.config = v &&& ~~~configMask ||| configInit) ∧
    (∃ v, aw.regRead Reg.setupAw = v &&& ~~~setupAwMask ||| aw5Bytes) ∧
    ∃ v, en.regRead Reg.enRxaddr = v &&& ~~~pipesMask := by
  have hen : Keeps _ c.nrf24l01Init [Reg.feature, Reg.dynpd, Reg.status] :=
    ((((Keeps.refl _ _).modify (by decide) _).modify (by decide) _).modify (by decide) _).flushTx
  have haw : Keeps _ c.nrf24l01Init [Reg.setupRetr, Reg.enAa, Reg.enRxaddr, Reg.feature, Reg.dynpd, Reg.status] :=
    (((((((Keeps.refl _ _).regWrite (by decide) _).modify (by decide) _).modify (by decide) _).modify (by decide)
      _).modify (by decide) _).modify (by decide) _).flushTx
  have hcfg : Keeps _ c.nrf24l01Init [Reg.rfCh, Reg.rfSetup, Reg.setupAw, Reg.setupRetr, Reg.enAa, Reg.enRxaddr,
      Reg.feature, Reg.dynpd, Reg.status] :=
    (((((((((((Keeps.refl _ _).modify (by decide) _).regWrite (by decide) _).modify (by decide) _).modify (by decide)
      _).regWrite (by decide) _).modify (by decide) _).modify (by decide) _).modify (by decide) _).modify (by decide)
      _).modify (by decide) _).flushTx
  exact ⟨_, _, _, hcfg, haw, hen, ⟨_, regRead_modify (by decide) _ _⟩, ⟨_, regRead_modify (by decide) _ _⟩,
    ⟨_, regRead_modify (by decide) _ _⟩⟩

theorem init_addressed (c : Chip) (addr : Address) : Addressed ⟨c.nrf24l01Init, false, addr⟩ Pipes.none := by
  obtain ⟨cfg, aw, en, hcfg, haw, hen, ⟨v, hv⟩, ⟨w, hw⟩, ⟨u, hu⟩⟩ := init_keeps c
  constructor
  · apply haw.wide (by decide)
    unfold Chip.Wide
    rw [hw]
    exact and_eq_right_iff.mpr (by rw [bits_or]; exact Set.subset_union_right)
  · apply hcfg.powered (by decide)
    unfold Chip.Powered
    rw [hv, bits_or]
    exact Or.inr (by decide)
  · rfl
  · intro a ha
    cases ha
  · intro p
    have hpipe : ∀ p : Fin 6, p.val ∈ bits pipesMask := by decide
    have hmask : p.val ∉ bits (u &&& ~~~pipesMask) := by
      rw [bits_and, bits_not]
      exact fun hmem => hmem.2.2 (hpipe p)
    have hread : Chip.enabled (c.nrf24l01Init) = bits (u &&& ~~~pipesMask) := by
      rw [← hu]
      exact congrArg bits (hen.regRead (by decide) (by decide))
    show p.val ∈ Chip.enabled (c.nrf24l01Init) ↔ _
    rw [hread]
    exact ⟨fun hmem => absurd hmem hmask, fun hsome => by cases hsome⟩
  · intro p a ha
    cases ha

/-! ## The addresses of `hal_comm_socket` -/

/-- The high bytes of the addresses that `hal_comm_socket` opens pipes with do not depend on the pipe. -/
theorem upper_accessAddress (mac : Nrf24.Mac) (n : Nat) :
    upper (Nrf24.accessAddress mac n) = (mac.sub 3 5).read 1 4 :=
  Buf.read_write_of_disjoint _ (Or.inl (Nat.le_refl 1))

/-- The pipes from 1 on are opened with the high bytes `high`. -/
def Based (high : List UInt8) (c : Call) : Prop :=
  match c with
  | .setPipe pipe addr => 1 ≤ pipe.toNat → upper addr = high
  | .write pipe _ _ _ => pipe.toNat < 6
  | .resetPipe _ | .setChannel _ _ | .setStandby | .otherCommand => True

theorem based_step {high : List UInt8} {c : Call} (hc : Based high c)
    (hps : ∀ p : Fin 6, p ≠ 0 → ∀ a, ps p = some a → upper a = high) :
    ∀ p : Fin 6, p ≠ 0 → ∀ a, Pipes.step c ps p = some a → upper a = high := by
  intro p hp a ha
  cases c with
  | setPipe pipe addr =>
      change Pipes.openPipe pipe.toNat addr ps p = some a at ha
      unfold Pipes.openPipe at ha
      split at ha
      · rename_i hrange
        cases hold : ps ⟨pipe.toNat, hrange⟩ with
        | some a' =>
            rw [hold] at ha
            exact hps p hp a ha
        | none =>
            rw [hold] at ha
            by_cases hpq : p = ⟨pipe.toNat, hrange⟩
            · have hone : 1 ≤ pipe.toNat := by
                have := one_le_val hp
                rw [hpq] at this
                exact this
              rw [hpq] at ha
              have hself : Function.update ps ⟨pipe.toNat, hrange⟩ (some addr) ⟨pipe.toNat, hrange⟩ = some addr :=
                Function.update_self ..
              rw [← Option.some.inj (hself.symm.trans ha)]
              exact hc hone
            · have hother : Function.update ps ⟨pipe.toNat, hrange⟩ (some addr) p = ps p :=
                Function.update_of_ne hpq ..
              exact hps p hp a (hother.symm.trans ha)
      · exact hps p hp a ha
  | resetPipe arg =>
      change Pipes.closePipe (int8 arg) ps p = some a at ha
      unfold Pipes.closePipe at ha
      split at ha
      · rename_i hrange
        by_cases hpq : p = ⟨(int8 arg).toNat, by omega⟩
        · rw [hpq, Function.update_self] at ha
          cases ha
        · rw [Function.update_of_ne hpq] at ha
          exact hps p hp a ha
      · exact hps p hp a ha
  | setChannel value ack => exact hps p hp a ha
  | setStandby => exact hps p hp a ha
  | otherCommand => exact hps p hp a ha
  | write pipe payload acked stack => exact hps p hp a ha

theorem along_legal {high : List UInt8} {calls : List Call} (h : ∀ c ∈ calls, Based high c)
    (hps : ∀ p : Fin 6, p ≠ 0 → ∀ a, ps p = some a → upper a = high) :
    Along Legal (total Pipes.step) calls ps := by
  induction calls generalizing ps with
  | nil => trivial
  | cons c calls ih =>
      have hc := h c List.mem_cons_self
      have hrest : Along Legal (total Pipes.step) calls (Pipes.step c ps) :=
        ih (fun c hmem => h c (List.mem_cons_of_mem _ hmem)) (based_step hc hps)
      refine Along.cons (o := ()) ?_ rfl hrest
      cases c with
      | setPipe pipe addr => exact fun hone p hp a ha => (hps p hp a ha).trans (hc hone).symm
      | write pipe payload acked stack => exact hc
      | resetPipe arg => trivial
      | setChannel value ack => trivial
      | setStandby => trivial
      | otherCommand => trivial

/-! ## Every run -/

/-- Whatever the chip held before `nrf24l01_init`, after any operations it has the open pipes enabled, each with the
address it was opened with, and a transmission goes to the address of its pipe. -/
theorem addresses_kept (c₀ : Chip) (addr : Address) (calls : List Call)
    (hlegal : Along Legal (total Pipes.step) calls Pipes.none) :
    ∃ outs d, exec Driver.step calls ⟨c₀.nrf24l01Init, false, addr⟩ = .ok (outs, d) ∧
      (∀ p : Fin 6, p.val ∈ bits (d.chip.regRead Reg.enRxaddr) ↔ (Pipes.after calls p).isSome) ∧
      (∀ p a, Pipes.after calls p = some a → d.chip.receives p.val = a) ∧
      ∀ (pipe : UInt8) payload acked stack (hp : pipe.toNat < 6), ∃ out d',
        d.step (.write pipe payload acked stack) = .ok (out, d') ∧ out.during ≠ [] ∧
        ∀ a, Pipes.after calls ⟨pipe.toNat, hp⟩ = some a → ∀ c ∈ out.during, c.file Reg.txAddr = a ∧
          (c.regRead Reg.enAa &&& pipesMask ≠ 0 → c.file Reg.rxAddrP0 = c.file Reg.txAddr) := by
  obtain ⟨outs, d, hrun, h⟩ := exec_simulates step_addressed (init_addressed c₀ addr) hlegal
  refine ⟨outs, d, hrun, h.enabled, h.receives, ?_⟩
  intro pipe payload acked stack hp
  obtain ⟨out, d', hw, -, hne, hsends⟩ := write_addressed h hp payload acked stack
  exact ⟨out, d', hw, hne, hsends⟩

/-- A chip that was just switched on. -/
def blank : Chip := ⟨fun _ => Buf.zero 5, false, [], []⟩

/-- Two things are connected, the first one leaves, and a message to the second one is lost. -/
def twoThings : List Call :=
  [.setPipe 0 Nrf24.aaPipe0, .setPipe 1 (Nrf24.accessAddress Nrf24.gatewayMac 1),
    .setPipe 2 (Nrf24.accessAddress Nrf24.gatewayMac 2), .setChannel 22 true, .resetPipe 1,
    .write 2 [0x01, 0x02] false (Buf.zero 5)]

theorem addresses_kept_two : ∃ outs d, exec Driver.step twoThings ⟨blank.nrf24l01Init, false, Buf.zero 5⟩ =
    .ok (outs, d) ∧ d.chip.receives 0 = Nrf24.aaPipe0 ∧
      d.chip.receives 2 = Nrf24.accessAddress Nrf24.gatewayMac 2 := by
  have hbased : ∀ c ∈ twoThings, Based ((Nrf24.gatewayMac.sub 3 5).read 1 4) c := by
    unfold twoThings
    simp only [List.forall_mem_cons]
    refine ⟨fun h => absurd h (by decide), fun _ => ?_, fun _ => ?_, trivial, trivial, ?_, fun _ h => nomatch h⟩
    · exact upper_accessAddress _ 1
    · exact upper_accessAddress _ 2
    · show (2 : UInt8).toNat < 6
      decide
  have hnone : ∀ p : Fin 6, p ≠ 0 → ∀ a, Pipes.none p = some a → upper a = (Nrf24.gatewayMac.sub 3 5).read 1 4 := by
    intro p _ a ha
    cases ha
  obtain ⟨outs, d, hrun, -, hrec, -⟩ := addresses_kept blank (Buf.zero 5) twoThings (along_legal hbased hnone)
  exact ⟨outs, d, hrun, hrec 0 _ rfl, hrec 2 _ rfl⟩

end KnotHal.Radio
