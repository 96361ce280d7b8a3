import KnotHal.Lib.CString
import KnotHal.Nrf24.MacText
import KnotHal.Radio.Inbox

/-!
# The sniffer

`sniffer.c` listens on the management channel and prints what it hears. Where a connection is offered to the thing that
it was told to follow, it tunes to the channel and the address of the offer, until nothing has come for five seconds.
The radio is a parameter: the driver on its registers, or the inbox.

* `Fault.name` : the name of a beacon is printed up to a zero that need not be there;
* `Sniffer.turn` : one turn of the loop of `sniffer_start`;
* `start_alike`, `step_alike` : the sniffer does the same with the driver and with the inbox.
-/

namespace KnotHal.Tools

open Machine Radio Nrf24

/-! ## The program -/

/-- How a run can end before it returns: the radio faults, or a name is printed past the end of the packet. -/
inductive Fault
  | radio (f : Radio.Fault)
  | name
deriving DecidableEq

/-- What is printed, without the time. -/
inductive Line
  | beacon (plen : Nat) (src : Text) (name : List UInt8)
  | connectReq (plen : Nat) (src dst : Text) (channel : UInt8) (aa : Aa)
  | unknownMgmt (type plen : Nat) (payload : List UInt8)
  | keepAliveReq (opcode : UInt8) (plen : Nat) (src dst : Text)
  | keepAliveRsp (opcode : UInt8) (plen : Nat) (src dst : Text)
  | data (nseq plen : Nat) (payload : List UInt8)
  | unknownRaw (lid plen : Nat) (payload : List UInt8)
deriving DecidableEq

def channelMgmt : UInt8 := 76

def longMax : Int := 2 ^ 63 - 1

/-- The radio, the `struct nrf24_io_pack` that is read into, the access address of `raw_pipe` and the time of the last
packet. -/
structure Sniffer (ρ : Type) where
  radio : ρ
  pipe : UInt8
  payload : Nrf24.Payload
  rawAa : Aa
  lastSec : Int

/-- What comes over the air, and a turn of the loop at some second. -/
inductive Input
  | air (channel : BitVec 8) (addr : Address) (payload : Radio.Payload)
  | turn (sec : Int)

def decodeRaw (payload : Nrf24.Payload) (plen : Nat) : Line :=
  let head := payload.get 0
  if lid head = lidControl then
    let opcode := payload.get 2
    let src := nrf24Mac2str (payload.sub 3 8)
    let dst := nrf24Mac2str (payload.sub 11 8)
    if opcode = opKeepaliveReq then .keepAliveReq opcode plen src dst else .keepAliveRsp opcode plen src dst
  else if lid head = lidDataFrag ∨ lid head = lidDataEnd then .data (nseq head) plen (payload.read 0 plen)
  else .unknownRaw (lid head) plen (payload.read 0 plen)

namespace Sniffer
variable {ρ : Type} (radio : Receiver.Input → ρ → Except Radio.Fault (Receiver.Output × ρ))

def ask (i : Receiver.Input) (s : Sniffer ρ) : Except Fault (Receiver.Output × Sniffer ρ) := do
  let (out, radio) ← (radio i s.radio).mapError Fault.radio
  return (out, { s with radio })

/-- `decode_mgmt`, and the pipe that it returns; `mac` is `option_mac`. -/
def decodeMgmt (mac : Option Text) (plen : Nat) (s : Sniffer ρ) : Except Fault (List Line × Sniffer ρ) :=
  let head := s.payload.get 0
  if pduType head = typePresence then
    let src := nrf24Mac2str (s.payload.sub 1 8)
    if mac ≠ none ∧ mac ≠ some src then .ok ([], { s with pipe := 0 })
    else
      match terminated (s.payload.bytes.drop 9) with
      | some name => .ok ([.beacon plen src name], { s with pipe := 0 })
      | none => .error .name
  else if pduType head = typeConnectReq then do
    let src := nrf24Mac2str (s.payload.sub 1 8)
    let dst := nrf24Mac2str (s.payload.sub 9 8)
    let channel := s.payload.get 17
    let aa := s.payload.sub 18 5
    let lines := [.connectReq plen src dst channel aa]
    if mac ≠ some dst then .ok (lines, { s with pipe := 0 })
    else
      let (_, s) ← s.ask radio (.call (.setChannel channel false))
      let s := { s with rawAa := aa }
      let (_, s) ← s.ask radio (.call (.setPipe 1 s.rawAa))
      return (lines, { s with pipe := 1 })
  else .ok ([.unknownMgmt (pduType head) plen (s.payload.read 0 plen)], { s with pipe := 0 })

/-- Probably disconnected: back to the broadcast channel. -/
def checkTime (now : Int) (s : Sniffer ρ) : Except Fault (Sniffer ρ) :=
  if 5 < now - s.lastSec then do
    let s := { s with lastSec := now, pipe := 0 }
    let (_, s) ← s.ask radio (.call (.setChannel channelMgmt false))
    return s
  else .ok s

def decode (mac : Option Text) (now : Int) (pipe : UInt8) (data : List UInt8) (s : Sniffer ρ) :
    Except Fault (List Line × Sniffer ρ) :=
  let s := { s with pipe, payload := s.payload.write 0 data }
  if data = [] then .ok ([], s)
  else if s.pipe = 0 then { s with lastSec := now }.decodeMgmt radio mac data.length
  else .ok ([decodeRaw s.payload data.length], { s with lastSec := now })

def turn (mac : Option Text) (now : Int) (s : Sniffer ρ) : Except Fault (List Line × Sniffer ρ) := do
  let s ← s.checkTime radio now
  let (out, s) ← s.ask radio (.read s.pipe 32)
  match out with
  | .got pipe data => s.decode radio mac now pipe data
  | .ret _ | .none => .ok ([], s)

def step (mac : Option Text) (i : Input) (s : Sniffer ρ) : Except Fault (List Line × Sniffer ρ) :=
  match i with
  | .air channel addr payload => do
      let (_, s) ← s.ask radio (.packet channel addr payload)
      return ([], s)
  | .turn now => s.turn radio mac now

/-- What `sniffer_start` does before its loop, with a radio that `phy_open` has initialised. -/
def start (r : ρ) (stack : Nrf24.Payload) : Except Fault (Sniffer ρ) := do
  let (_, s) ← (⟨r, 0, stack, aaPipe0, longMax⟩ : Sniffer ρ).ask radio (.call (.setChannel channelMgmt false))
  let (_, s) ← s.ask radio (.call (.setPipe 0 aaPipe0))
  return s

end Sniffer

/-! ## Names without an end -/

/-- A presence that is printed, and in which no zero follows the address. -/
def Overread (mac : Option Text) (payload : Nrf24.Payload) : Prop :=
  pduType (payload.get 0) = typePresence ∧ (mac = none ∨ mac = some (nrf24Mac2str (payload.sub 1 8))) ∧
    0 ∉ payload.bytes.drop 9

instance (mac : Option Text) (payload : Nrf24.Payload) : Decidable (Overread mac payload) := by
  unfold Overread
  infer_instance

namespace Sniffer
variable {ρ : Type} {radio : Receiver.Input → ρ → Except Radio.Fault (Receiver.Output × ρ)} {mac : Option Text}
  {s : Sniffer ρ}

variable (radio mac) in
/-- The turn reads such a packet from the management pipe. What was in the buffer before stands behind it. -/
def Overreads (now : Int) (s : Sniffer ρ) : Prop :=
  ∃ s₁ data s₂, s.checkTime radio now = .ok s₁ ∧ s₁.ask radio (.read s₁.pipe 32) = .ok (.got 0 data, s₂) ∧
    data ≠ [] ∧ Overread mac (s₂.payload.write 0 data)

theorem ask_ne_name (i : Receiver.Input) : s.ask radio i ≠ .error .name := by
  intro h
  unfold ask at h
  cases hradio : radio i s.radio with
  | error f =>
      rw [hradio] at h
      cases h
  | ok r =>
      rw [hradio] at h
      cases h

theorem checkTime_ne_name (now : Int) : s.checkTime radio now ≠ .error .name := by
  intro h
  unfold checkTime at h
  split at h
  · rcases bind_eq_error.mp h with hask | ⟨r, -, hok⟩
    · exact ask_ne_name _ hask
    · cases hok
  · cases h

theorem decodeMgmt_name_iff (plen : Nat) :
    s.decodeMgmt radio mac plen = .error .name ↔ Overread mac s.payload := by
  unfold decodeMgmt Overread
  dsimp only
  by_cases hpresence : pduType (s.payload.get 0) = typePresence
  · rw [if_pos hpresence, and_iff_right hpresence]
    by_cases hother : mac ≠ none ∧ mac ≠ some (nrf24Mac2str (s.payload.sub 1 8))
    · rw [if_pos hother]
      refine iff_of_false (fun h => by cases h) ?_
      rintro ⟨hnone | hsome, -⟩
      · exact hother.1 hnone
      · exact hother.2 hsome
    · rw [if_neg hother, and_iff_right (by tauto), terminated]
      by_cases hzero : 0 ∈ s.payload.bytes.drop 9
      · rw [if_pos hzero]
        exact iff_of_false (fun h => by cases h) (not_not.mpr hzero)
      · rw [if_neg hzero]
        exact iff_of_true rfl hzero
  · rw [if_neg hpresence]
    refine iff_of_false (fun h => ?_) fun h => hpresence h.1
    split at h
    · split at h
      · cases h
      · rcases bind_eq_error.mp h with hask | ⟨r, -, h⟩
        · exact ask_ne_name _ hask
        · rcases bind_eq_error.mp h with hask | ⟨r', -, hok⟩
          · exact ask_ne_name _ hask
          · cases hok
    · cases h

theorem decode_name_iff (now : Int) (pipe : UInt8) (data : List UInt8) :
    s.decode radio mac now pipe data = .error .name ↔ pipe = 0 ∧ data ≠ [] ∧ Overread mac (s.payload.write 0 data) := by
  unfold decode
  dsimp only
  by_cases hnil : data = []
  · rw [if_pos hnil]
    exact iff_of_false (fun h => by cases h) fun h => h.2.1 hnil
  · rw [if_neg hnil]
    by_cases hzero : pipe = 0
    · rw [if_pos hzero, decodeMgmt_name_iff, and_iff_right hzero, and_iff_right hnil]
    · rw [if_neg hzero]
      exact iff_of_false (fun h => by cases h) fun h => hzero h.1

/-- A turn prints past the end of the buffer exactly where it reads such a packet. -/
theorem step_name_iff (i : Input) :
    s.step radio mac i = .error .name ↔ ∃ now, i = .turn now ∧ s.Overreads radio mac now := by
  cases i with
  | air channel addr payload =>
      refine iff_of_false (fun h => ?_) fun ⟨now, hi, _⟩ => by cases hi
      rcases bind_eq_error.mp h with hask | ⟨r, -, hok⟩
      · exact ask_ne_name _ hask
      · cases hok
  | turn now =>
      constructor
      · intro h
        rcases bind_eq_error.mp h with hcheck | ⟨s₁, hcheck, h⟩
        · exact absurd hcheck (checkTime_ne_name now)
        · rcases bind_eq_error.mp h with hask | ⟨⟨out, s₂⟩, hask, h⟩
          · exact absurd hask (ask_ne_name _)
          · cases out with
            | got pipe data =>
                obtain ⟨rfl, hdata, hover⟩ := (decode_name_iff now pipe data).mp h
                exact ⟨now, rfl, s₁, data, s₂, hcheck, hask, hdata, hover⟩
            | ret err => cases h
            | none => cases h
      · rintro ⟨now', hi, s₁, data, s₂, hcheck, hask, hdata, hover⟩
        obtain rfl := Input.turn.inj hi
        exact bind_eq_error.mpr (.inr ⟨s₁, hcheck, bind_eq_error.mpr (.inr ⟨_, hask,
          (decode_name_iff now 0 data).mpr ⟨rfl, hdata, hover⟩⟩)⟩)

end Sniffer

/-! ## On the inbox -/

def inbox (i : Receiver.Input) (t : Inbox) : Except Radio.Fault (Receiver.Output × Inbox) := .ok (Inbox.step i t)

def Asks : Receiver.Input → Prop
  | .call (.setChannel _ _) | .read _ _ | .packet _ _ _ => True
  | .call (.setPipe pipe _) => pipe ≤ 1
  | .call _ => False

/-- The driver refines the inbox, and no pipe from 2 on is open. -/
structure Serves (r : Receiver) (t : Inbox) : Prop where
  refines : ∃ high, Refines high r t
  free : ∀ p : Fin 6, 1 < p.val → t.pipes p = none

section Radio
variable {r : Receiver} {t : Inbox}

theorem openPipe_free {ps : Pipes} (h : ∀ p : Fin 6, 1 < p.val → ps p = none) {pipe : UInt8} (hpipe : pipe ≤ 1)
    (aa : Address) : ∀ p : Fin 6, 1 < p.val → ps.openPipe pipe.toNat aa p = none := by
  intro p hp
  have hle : pipe.toNat ≤ 1 := hpipe
  have hne (hrange : pipe.toNat < 6) : p ≠ ⟨pipe.toNat, hrange⟩ := by
    rintro rfl
    exact absurd hp (Nat.not_lt.mpr hle)
  unfold Pipes.openPipe
  split
  · rename_i hrange
    cases ps ⟨pipe.toNat, hrange⟩ with
    | none => exact (Function.update_of_ne (hne hrange) _ _).trans (h p hp)
    | some a => exact h p hp
  · exact h p hp

theorem step_free (h : ∀ p : Fin 6, 1 < p.val → t.pipes p = none) {i : Receiver.Input} (hi : Asks i) :
    ∀ p : Fin 6, 1 < p.val → (t.step i).2.pipes p = none := by
  cases i with
  | read q len =>
      obtain ⟨⟨queue, hread⟩, -⟩ := Inbox.read_settings q len t
      have hstep : (t.step (.read q len)).2 = { t with queue } := hread
      rw [hstep]
      exact h
  | packet channel addr payload =>
      obtain ⟨queue, hstep⟩ := Inbox.packet_settings channel addr payload t
      rw [hstep]
      exact h
  | call c =>
      cases c with
      | setPipe pipe aa => exact openPipe_free h hi aa
      | setChannel value ack => exact h
      | resetPipe arg => exact hi.elim
      | setStandby => exact hi.elim
      | otherCommand => exact hi.elim
      | write pipe payload acked stack => exact hi.elim

/-- Another address for an open pipe is ignored. -/
theorem step_reopen {high : List UInt8} (h : Refines high r t) {p : Fin 6} {a : Address} (ha : t.pipes p = some a)
    (aa : Address) : Receiver.step (.call (.setPipe (UInt8.ofNat p.val) aa)) r =
        Receiver.step (.call (.setPipe (UInt8.ofNat p.val) a)) r ∧
      t.step (.call (.setPipe (UInt8.ofNat p.val) aa)) = t.step (.call (.setPipe (UInt8.ofNat p.val) a)) := by
  have hval : (UInt8.ofNat p.val).toNat = p.val := by
    rw [UInt8.toNat_ofNat', Nat.mod_eq_of_lt (by omega)]
  have hen : r.driver.chip.disable.regRead Reg.enRxaddr &&& enRxaddrPipe p.val ≠ 0 := by
    rw [ne_eq, and_enRxaddrPipe_eq_zero (le_pipeMax p), not_not]
    exact (h.addressed.enabled p).mpr (by rw [ha]; rfl)
  have hopen (b : Address) (d : Driver) (hd : d.chip.regRead Reg.enRxaddr &&& enRxaddrPipe p.val ≠ 0) :
      d.openPipe p.val b = (0, d) := by
    unfold Driver.openPipe
    rw [if_neg (Nat.not_lt.mpr (le_pipeMax p))]
    exact if_neg hd
  have hpipes (b : Address) : t.pipes.openPipe p.val b = t.pipes := by
    unfold Pipes.openPipe
    rw [dif_pos p.isLt, ha]
  constructor
  · unfold Receiver.step Driver.step
    dsimp only
    rw [hval, hopen aa { r.driver with chip := r.driver.chip.disable } hen,
      hopen a { r.driver with chip := r.driver.chip.disable } hen]
    rfl
  · unfold Inbox.step Pipes.step
    dsimp only
    rw [hval, hpipes aa, hpipes a]
    rfl

/-- Each operation that a sniffer asks for is proper, or is one for a pipe that is open. -/
theorem step_serves (h : Serves r t) {i : Receiver.Input} (hi : Asks i) :
    EndsAlike (Both Serves) (Receiver.step i r) (inbox i t) := by
  obtain ⟨⟨high, hrefines⟩, hfree⟩ := h
  have hproper {high : List UInt8} (hrefines : Refines high r t) (hp : Proper high i) :
      EndsAlike (Both Serves) (Receiver.step i r) (inbox i t) := by
    obtain ⟨r', hstep, hrefines'⟩ := refines_step i hrefines hp
    rw [hstep]
    exact .ok ⟨rfl, ⟨high, hrefines'⟩, step_free hfree hi⟩
  cases i with
  | read p len => exact hproper hrefines trivial
  | packet channel addr payload => exact hproper hrefines trivial
  | call c =>
      cases c with
      | setChannel value ack => exact hproper hrefines trivial
      | resetPipe arg => exact hi.elim
      | setStandby => exact hi.elim
      | otherCommand => exact hi.elim
      | write pipe payload acked stack => exact hi.elim
      | setPipe pipe aa =>
          by_cases hzero : pipe = 0
          · exact hproper hrefines fun hone => by
              rw [hzero] at hone
              exact absurd hone (by decide)
          · have hle : pipe.toNat ≤ 1 := hi
            have hone : pipe = UInt8.ofNat (1 : Fin 6).val := by
              apply UInt8.toNat_inj.mp
              show pipe.toNat = 1
              have hpos : pipe.toNat ≠ 0 := fun hz => hzero (UInt8.toNat_inj.mp hz)
              omega
            cases hold : t.pipes 1 with
            | none =>
                -- no pipe from 1 on is open, so the high bytes are free
                have hbased : Refines (upper aa) r t := { hrefines with
                  based := fun p hp a ha => by
                    by_cases hp1 : p = 1
                    · rw [hp1, hold] at ha
                      cases ha
                    · rw [hfree p (by omega)] at ha
                      cases ha }
                exact hproper hbased fun _ => rfl
            | some a =>
                obtain ⟨hr, ht⟩ := step_reopen hrefines hold aa
                have hbased : Proper high (.call (.setPipe (UInt8.ofNat (1 : Fin 6).val) a)) := fun _ =>
                  hrefines.based 1 (by decide) a hold
                obtain ⟨r', hstep, hrefines'⟩ := refines_step _ hrefines hbased
                rw [hone] at hi ⊢
                rw [hr, inbox, ht, hstep]
                refine .ok ⟨rfl, ⟨high, hrefines'⟩, ?_⟩
                rw [← ht]
                exact step_free hfree hi

end Radio

/-! ## With either radio -/

def Sniffer.on {ρ ρ' : Type} (r : ρ') (s : Sniffer ρ) : Sniffer ρ' := { s with radio := r }

/-- Two sniffers that differ in their radios only. -/
def Paired (s : Sniffer Receiver) (t : Sniffer Inbox) : Prop := ∃ r, s = t.on r ∧ Serves r t.radio

section Paired
variable {t : Sniffer Inbox} {r : Receiver}

theorem ask_alike (h : Serves r t.radio) {i : Receiver.Input} (hi : Asks i) :
    EndsAlike (Both Paired) ((t.on r).ask Receiver.step i) (t.ask inbox i) := by
  refine ((step_serves h hi).mapError Fault.radio).bind fun p q hpq => ?_
  exact .ok ⟨hpq.1, p.2, rfl, hpq.2⟩

theorem decodeMgmt_alike (h : Serves r t.radio) (mac : Option Text) (plen : Nat) :
    EndsAlike (Both Paired) ((t.on r).decodeMgmt Receiver.step mac plen) (t.decodeMgmt inbox mac plen) := by
  have hsame (lines : List Line) (pipe : UInt8) : EndsAlike (Both Paired)
      (.ok (lines, { t.on r with pipe }) : Except Fault _) (.ok (lines, { t with pipe })) := .ok ⟨rfl, r, rfl, h⟩
  refine .ite Iff.rfl (fun _ => .ite Iff.rfl (fun _ => hsame [] 0) fun _ => ?_) fun _ => ?_
  · have hpayload : (t.on r).payload = t.payload := rfl
    rw [hpayload]
    cases terminated (t.payload.bytes.drop 9) with
    | none => exact .error _
    | some name => exact hsame _ 0
  refine .ite Iff.rfl (fun _ => .ite Iff.rfl (fun _ => hsame _ 0) fun _ => ?_) fun _ => hsame _ 0
  refine (ask_alike (i := .call (.setChannel (t.payload.get 17) false)) h trivial).bind fun p q hpq => ?_
  obtain ⟨-, r₁, hp, h₁⟩ := hpq
  obtain ⟨out, s₁⟩ := p
  obtain ⟨out', t₁⟩ := q
  obtain rfl : s₁ = t₁.on r₁ := hp
  have hone : Asks (.call (.setPipe 1 (t.payload.sub 18 5))) := show (1 : UInt8) ≤ 1 by decide
  refine (ask_alike (t := { t₁ with rawAa := t.payload.sub 18 5 }) h₁ hone).bind fun p' q' hpq' => ?_
  obtain ⟨-, r₂, hp', h₂⟩ := hpq'
  obtain ⟨out₂, s₂⟩ := p'
  obtain ⟨out₂', t₂⟩ := q'
  obtain rfl : s₂ = t₂.on r₂ := hp'
  exact .ok ⟨rfl, r₂, rfl, h₂⟩

theorem checkTime_alike (h : Serves r t.radio) (now : Int) :
    EndsAlike Paired ((t.on r).checkTime Receiver.step now) (t.checkTime inbox now) := by
  refine .ite Iff.rfl (fun _ => ?_) fun _ => .ok ⟨r, rfl, h⟩
  refine (ask_alike (t := { t with lastSec := now, pipe := 0 }) (i := .call (.setChannel channelMgmt false)) h
    trivial).bind fun p q hpq => ?_
  exact .ok hpq.2

theorem decode_alike (h : Serves r t.radio) (mac : Option Text) (now : Int) (pipe : UInt8) (data : List UInt8) :
    EndsAlike (Both Paired) ((t.on r).decode Receiver.step mac now pipe data) (t.decode inbox mac now pipe data) := by
  refine .ite Iff.rfl (fun _ => .ok ⟨rfl, r, rfl, h⟩) fun _ => .ite Iff.rfl (fun _ => ?_) fun _ => .ok ⟨rfl, r, rfl, h⟩
  exact decodeMgmt_alike
    (t := { t with pipe, payload := t.payload.write 0 data, lastSec := now }) h mac data.length

theorem step_alike (mac : Option Text) (i : Input) (s : Sniffer Receiver) (t : Sniffer Inbox) (h : Paired s t) :
    EndsAlike (Both Paired) (s.step Receiver.step mac i) (t.step inbox mac i) := by
  obtain ⟨r, rfl, hserves⟩ := h
  cases i with
  | air channel addr payload =>
      refine (ask_alike (i := .packet channel addr payload) hserves trivial).bind fun p q hpq => ?_
      exact .ok ⟨rfl, hpq.2⟩
  | turn now =>
      refine (checkTime_alike hserves now).bind fun s₁ t₁ h₁ => ?_
      obtain ⟨r₁, rfl, hserves₁⟩ := h₁
      refine (ask_alike (i := .read t₁.pipe 32) hserves₁ trivial).bind fun p q hpq => ?_
      obtain ⟨hout, r₂, hp, hserves₂⟩ := hpq
      obtain ⟨out, s₂⟩ := p
      obtain ⟨out', t₂⟩ := q
      obtain rfl : out = out' := hout
      obtain rfl : s₂ = t₂.on r₂ := hp
      cases out with
      | got pipe data => exact decode_alike hserves₂ mac now pipe data
      | ret err => exact .ok ⟨rfl, r₂, rfl, hserves₂⟩
      | none => exact .ok ⟨rfl, r₂, rfl, hserves₂⟩

theorem start_alike (c : Chip) (opened : Address) (stack : Nrf24.Payload) :
    EndsAlike Paired (Sniffer.start Receiver.step (Receiver.init c opened) stack)
      (Sniffer.start inbox Inbox.start stack) := by
  have hserves : Serves (Receiver.init c opened) Inbox.start := ⟨⟨[], refines_init [] c opened⟩, fun _ _ => rfl⟩
  refine (ask_alike (t := ⟨Inbox.start, 0, stack, aaPipe0, longMax⟩) (i := .call (.setChannel channelMgmt false))
    hserves trivial).bind fun p q hpq => ?_
  obtain ⟨-, r₁, hp, h₁⟩ := hpq
  obtain ⟨out, s₁⟩ := p
  obtain ⟨out', t₁⟩ := q
  obtain rfl : s₁ = t₁.on r₁ := hp
  have hzero : Asks (.call (.setPipe 0 aaPipe0)) := show (0 : UInt8) ≤ 1 by decide
  refine (ask_alike h₁ hzero).bind fun p' q' hpq' => ?_
  exact .ok hpq'.2

end Paired

end KnotHal.Tools
