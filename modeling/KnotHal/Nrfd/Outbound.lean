import KnotHal.Nrf24.Queue
import KnotHal.Nrfd.Access

/-!
# Messages from knotd

The callback of a watch takes a message from the socket to knotd and gives it to `hal_comm_write`, which refuses it
where another message waits in the slot; then the message is gone.

* `consumed`, `accepted` : what the callbacks of an entry took from the socket, and what the radio queue took of it;
* `Forwardable` : the condition on one turn;
* `step_forwards_iff` : exactly which turns lose nothing;
* `forwarded_throughout_iff` : exactly which runs do.
-/

namespace KnotHal.Nrfd

open Machine Nrf24

variable {b : Build}

/-! ## What was taken -/

/-- The message that a turn took from the socket of entry `i`; a callback without any act is one for a watch that
is gone. -/
def consumedBy (i : Fin maxPeers) (io : (Event × DaemonEnv) × Out) : List (List UInt8) :=
  match io.1.1 with
  | .knotd j =>
    if j = i ∧ io.1.2.hangup = false ∧ io.2.acts ≠ [] then
      match io.1.2.read with
      | .normal waiting => [waiting.take 128]
      | .error | .none => []
    else []
  | .idle | .request _ | .busAcquired | .timeout => []

/-- The message of a call of `hal_comm_write` that accepts it. -/
def acceptedCall : (Call × Nrf24.Env) × Nrf24.Out → Option (List UInt8)
  | ((.write _ data, _), out) => if 0 ≤ out.ret then some data else none
  | _ => none

/-- The messages that `hal_comm_write` accepted in a turn of the watch of entry `i`. -/
def acceptedBy (i : Fin maxPeers) (io : (Event × DaemonEnv) × Out) : List (List UInt8) :=
  match io.1.1 with
  | .knotd j => if j = i then (radioCalls io.2.acts).filterMap acceptedCall else []
  | .idle | .request _ | .busAcquired | .timeout => []

/-- What was taken from the socket of entry `i` so far. -/
def consumed (i : Fin maxPeers) (past : List ((Event × DaemonEnv) × Out)) : List (List UInt8) :=
  past.flatMap (consumedBy i)

/-- What the radio queue accepted of it. -/
def accepted (i : Fin maxPeers) (past : List ((Event × DaemonEnv) × Out)) : List (List UInt8) :=
  past.flatMap (acceptedBy i)

/-- A callback that takes a message finds a slot that has nothing queued or is served by the next pass. -/
def Forwardable (ee : Event × DaemonEnv) (m : Manager b) : Prop :=
  ∀ i, ee.1 = .knotd i → (m.peers i).kwatch ≠ 0 → ee.2.hangup = false → (∃ waiting, ee.2.read = .normal waiting) →
    m.radio.Accepts (m.peers i).socketFd

/-- A message of knotd has 1 to 128 bytes. -/
def Fits (ee : Event × DaemonEnv) : Prop :=
  ∀ i waiting, ee.1 = .knotd i → ee.2.read = .normal waiting → 1 ≤ waiting.length ∧ waiting.length ≤ 128

/-! ## One turn -/

section Step
variable {ee : Event × DaemonEnv} {m m' : Manager b} {o : Out} {i : Fin maxPeers}

theorem slots_radioed {acts : List Act} {s s' : Nrf b} (hs : ∀ j, SlotInv j (s.peers j)) (h : Radioed acts s s') :
    ∀ j, SlotInv j (s'.peers j) :=
  exec_keeps (I := fun s : Nrf b => ∀ j, SlotInv j (s.peers j)) (fun _ _ _ _ hs h j => slotInv_step (hs j) h) hs h

/-- A callback that reads a message does not end. -/
theorem ends_of_read {e : DaemonEnv} {waiting : List UInt8} (hhangup : e.hangup = false)
    (hread : e.read = .normal waiting) : e.ends = false := by
  simp [DaemonEnv.ends, hhangup, hread]

/-- A turn that polls takes no message. -/
theorem polls_forwards (hpolls : ∀ c ∈ radioCalls o.acts, Polls c.1.1)
    (hquiet : ∀ i, ee.1 = .knotd i → (m.peers i).kwatch = 0 ∧ o.acts = [] ∨ ee.2.ends = true) (i : Fin maxPeers) :
    acceptedBy i (ee, o) = [] ∧ consumedBy i (ee, o) = [] := by
  obtain ⟨event, e⟩ := ee
  have hnone : (radioCalls o.acts).filterMap acceptedCall = [] := by
    apply List.filterMap_eq_nil_iff.mpr
    rintro ⟨⟨c, he⟩, out⟩ hc
    have hpoll := hpolls _ hc
    cases c <;> first | rfl | exact hpoll.elim
  cases event with
  | knotd j =>
      refine ⟨?_, ?_⟩
      · show (if j = i then _ else _) = _
        rw [hnone, ite_self]
      · show (if j = i ∧ e.hangup = false ∧ o.acts ≠ [] then _ else _) = _
        split
        · rename_i hall
          rcases hquiet j rfl with ⟨-, hempty⟩ | hends
          · exact absurd hempty hall.2.2
          · cases hread : e.read with
            | normal waiting =>
                have hgoes := ends_of_read hall.2.1 hread
                exact Bool.noConfusion (hgoes.symm.trans hends)
            | error => rfl
            | none => rfl
        · rfl
  | idle => exact ⟨rfl, rfl⟩
  | request req => exact ⟨rfl, rfl⟩
  | busAcquired => exact ⟨rfl, rfl⟩
  | timeout => exact ⟨rfl, rfl⟩

/-- A turn loses nothing exactly when the slot can take the message. -/
theorem step_forwards_iff (hslots : ∀ j, SlotInv j (m.radio.peers j)) (hfits : Fits ee)
    (h : step ee m = .ok (o, m')) : (∀ i, acceptedBy i (ee, o) = consumedBy i (ee, o)) ↔ Forwardable ee m := by
  have hturn := step_turned h
  rcases hturn.calls with ⟨hpolls, hquiet⟩ | ⟨j, message, out, hforwards⟩
  · refine iff_of_true (fun i => ?_) fun i hevent hwatch hhangup ⟨waiting, hread⟩ => ?_
    · obtain ⟨haccepted, hconsumed⟩ := polls_forwards hpolls hquiet i
      rw [haccepted, hconsumed]
    · rcases hquiet i hevent with ⟨hgone, -⟩ | hends
      · exact absurd hgone hwatch
      · have hgoes := ends_of_read hhangup hread
        exact Bool.noConfusion (hgoes.symm.trans hends)
  · obtain ⟨hevent, hwatch, hends, ⟨waiting, hread, rfl⟩, hacts⟩ := hforwards
    obtain ⟨event, e⟩ := ee
    cases hevent
    have hhangup : e.hangup = false := by
      by_contra hno
      simp [DaemonEnv.ends, hno] at hends
    obtain ⟨hpos, hle⟩ := hfits j waiting rfl hread
    -- what the queue did with the message
    have hradio := hturn.radio
    rw [hacts] at hradio
    obtain ⟨out', s₁, os₁, hwrite, hnil, hout⟩ := exec_cons_ok.mp hradio
    obtain rfl : out = out' := (List.cons.inj hout).1
    rw [List.take_of_length_le hle] at hwrite
    have hiff := Nrf.step_write_iff hslots hpos hle hwrite
    have hconsumed : ∀ i, consumedBy i ((.knotd j, e), o) = if j = i then [waiting] else [] := by
      intro i
      show (if j = i ∧ e.hangup = false ∧ o.acts ≠ [] then _ else _) = _
      rw [hread, hacts]
      simp [hhangup, List.take_of_length_le hle]
    have haccepted : ∀ i, acceptedBy i ((.knotd j, e), o) = if j = i ∧ 0 ≤ out.ret then [waiting] else [] := by
      intro i
      show (if j = i then (radioCalls o.acts).filterMap acceptedCall else []) = _
      rw [hacts]
      by_cases hji : j = i
      · by_cases hret : 0 ≤ out.ret <;> simp [radioCalls, acceptedCall, hji, hret, List.take_of_length_le hle]
      · simp [hji]
    constructor
    · intro hall i hevent _ _ _
      cases hevent
      have hj := hall j
      rw [hconsumed, haccepted, if_pos rfl] at hj
      apply hiff.mp
      by_contra hret
      rw [if_neg fun hboth => hret hboth.2] at hj
      cases hj
    · intro hforward i
      have hret := hiff.mpr (hforward j rfl hwatch hhangup ⟨waiting, hread⟩)
      rw [hconsumed, haccepted]
      simp [hret]

end Step

/-! ## Runs -/

section Runs
variable {created : Bool} {file : KeysFile} {mac : Mac} {tcp : Bool} {err : Nat} {e₀ : Nrf24.Env} {m₀ m m' : Manager b}

theorem slots_hal {c : Call} {he : Nrf24.Env} {o : Nrf24.Out} (hm : ∀ j, SlotInv j (m.radio.peers j))
    (h : m.hal c he = .ok (o, m')) : ∀ j, SlotInv j (m'.radio.peers j) := by
  obtain ⟨radio, hstep, rfl⟩ := Manager.hal_eq_ok.mp h
  exact fun j => slotInv_step (hm j) hstep

theorem slots_start (h : Manager.managerStart b created file mac tcp err e₀ = .ok (0, m)) :
    ∀ j, SlotInv j (m.radio.peers j) := by
  obtain ⟨⟨ret, a⟩, -, h₁⟩ := bind_eq_ok.mp h
  dsimp only at h₁
  split at h₁
  · obtain ⟨-, rfl⟩ := Prod.mk.inj (Except.ok.inj h₁)
    exact slotInv_boot
  · obtain ⟨⟨o₁, m₁⟩, hinit, h₂⟩ := bind_eq_ok.mp h₁
    have hs₁ := slots_hal (m := { Manager.boot b file tcp with adapter := a }) slotInv_boot hinit
    dsimp only at h₂
    split at h₂
    · obtain ⟨-, rfl⟩ := Prod.mk.inj (Except.ok.inj h₂)
      exact hs₁
    · obtain ⟨⟨o₂, m₂⟩, hsocket, h₃⟩ := bind_eq_ok.mp h₂
      have hs₂ := slots_hal hs₁ hsocket
      dsimp only at h₃
      split at h₃
      · obtain ⟨⟨o₃, m₃⟩, hdeinit, h₄⟩ := bind_eq_ok.mp h₃
        obtain ⟨-, rfl⟩ := Prod.mk.inj (Except.ok.inj h₄)
        have hs₃ := slots_hal hs₂ hdeinit
        exact hs₃
      · obtain ⟨-, rfl⟩ := Prod.mk.inj (Except.ok.inj h₃)
        exact hs₂

/-- In every run in which knotd sends messages of 1 to 128 bytes, the radio queue has accepted exactly the messages
taken from the socket of each entry, in order and in every state reached, exactly when every callback that takes a
message finds nothing queued in the slot, or the next pass serves the slot. -/
theorem forwarded_throughout_iff (hstart : Manager.managerStart b created file mac tcp err e₀ = .ok (0, m₀))
    {is : List (Event × DaemonEnv)} {os : List Out} (hfits : ∀ ee ∈ is, Fits ee) (hrun : exec step is m₀ = .ok (os, m)) :
    (∀ js os₁ t, js <+: is → exec step js m₀ = .ok (os₁, t) → ∀ i,
      accepted i (js.zip os₁) = consumed i (js.zip os₁)) ↔ Along Forwardable step is m₀ := by
  apply exec_traced_iff (I := fun m : Manager b => ∀ j, SlotInv j (m.radio.peers j))
    (R := fun past _ => ∀ i, accepted i past = consumed i past) _ _ [] (slots_start hstart) (fun _ => rfl) hrun
  · intro ee m o m' hm h
    exact slots_radioed hm (step_turned h).radio
  · intro past ee hee m o m' hm hpast h
    rw [← step_forwards_iff hm (hfits ee hee) h]
    apply forall_congr'
    intro i
    have haccepted : accepted i (past ++ [(ee, o)]) = accepted i past ++ acceptedBy i (ee, o) := by simp [accepted]
    have hconsumed : consumed i (past ++ [(ee, o)]) = consumed i past ++ consumedBy i (ee, o) := by simp [consumed]
    rw [haccepted, hconsumed, hpast i]
    exact List.append_right_inj _

end Runs

def sending (message : List UInt8) : Event × DaemonEnv :=
  (.knotd (0 : Fin 5), { (idling 10 fun _ => []).2 with read := .normal message })

def oneMessage : List (Event × DaemonEnv) := [idling 0 fun _ => [], announcing 5 lampMac, sending [0x2A]]

/-- The message is accepted. -/
theorem forwarded_throughout_one :
    ∃ m₀ os m, starting = .ok (0, m₀) ∧ exec step oneMessage m₀ = .ok (os, m) ∧
      accepted (0 : Fin 5) (oneMessage.zip os) = consumed (0 : Fin 5) (oneMessage.zip os) ∧
      consumed (0 : Fin 5) (oneMessage.zip os) = [[0x2A]] := by
  obtain ⟨m₀, hstart⟩ : ∃ m₀, starting = .ok (0, m₀) := ⟨_, rfl⟩
  have hfits : ∀ ee ∈ oneMessage, Fits ee := by
    intro ee hee i waiting hevent hread
    simp only [oneMessage, List.mem_cons, List.not_mem_nil, or_false] at hee
    rcases hee with rfl | rfl | rfl
    · cases hevent
    · cases hevent
    · cases hread
      decide
  have hforward : Along Forwardable step oneMessage m₀ := by
    cases hstart
    refine Along.cons (fun i hevent => ?_) rfl (Along.cons (fun i hevent => ?_) rfl
      (Along.cons (fun i hevent _ _ _ => ?_) rfl trivial))
    · cases hevent
    · cases hevent
    · cases hevent
      exact ⟨(0 : Fin 5), rfl, Or.inl rfl⟩
  obtain ⟨os, m, hrun, hmessage⟩ : ∃ os m, exec step oneMessage m₀ = .ok (os, m) ∧
      consumed (0 : Fin 5) (oneMessage.zip os) = [[0x2A]] := by
    cases hstart
    exact ⟨_, _, rfl, rfl⟩
  have hall := (forwarded_throughout_iff hstart hfits hrun).mpr hforward
  exact ⟨m₀, os, m, hstart, hrun, hall oneMessage os m (List.prefix_refl _) hrun (0 : Fin 5), hmessage⟩

/-- Two messages follow each other before the slot is served: both are taken from the socket, and the second one is
lost. -/
theorem second_message_lost :
    ∃ m₀ os m, starting = .ok (0, m₀) ∧ exec step (oneMessage ++ [sending [0x2B]]) m₀ = .ok (os, m) ∧
      consumed (0 : Fin 5) ((oneMessage ++ [sending [0x2B]]).zip os) = [[0x2A], [0x2B]] ∧
      accepted (0 : Fin 5) ((oneMessage ++ [sending [0x2B]]).zip os) = [[0x2A]] ∧ (m.peers (0 : Fin 5)).socketFd = 1 :=
  ⟨_, _, _, rfl, rfl, rfl, rfl, rfl⟩

end KnotHal.Nrfd
