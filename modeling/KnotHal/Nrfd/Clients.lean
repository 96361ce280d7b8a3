import KnotHal.Nrfd.Access

/-!
# The table of clients is consistent

The functions that write the table are called by the main loop and by GLib, when a source goes. In every state
between two callbacks, and after the stop, the table is consistent.

* `Effect.clients` : what a turn can do keeps it consistent;
* `stop_frees` : behind the stop every entry is free;
* `evtPresence_early` : where `evt_presence` returns early, the table is as before;
* `clients_consistent` : the invariant over runs.
-/

namespace KnotHal.Nrfd

open Machine Slots Nrf24

variable {b : Build}

/-! ## A turn -/

section Step
variable {e : DaemonEnv} {tcp : Bool} {t t' : Tables} {a : Applicant}

theorem int8_nsk (hpos : 0 ≤ a.nsk) (hle : a.nsk ≤ 5) : int8 a.nsk = a.nsk := by
  rw [int8, Int.bmod_eq_of_le_mul_two] <;> omega

theorem Effect.clients {leave : Option (Fin maxPeers)} {apply : Option Applicant} {acts : List Act} (h : Clients t)
    (heffect : Effect e tcp t leave apply acts t') : Clients t' := by
  cases heffect with
  | kept => exact h
  | left i watch => exact h.free ((h.watch i).mpr watch)
  | refused a sock => exact h
  | joined a sock free new room pos le =>
      apply h.join free new _ _ e.watch.property
      rw [int8_nsk pos le]
      omega

end Step

/-! ## The stop -/

section Stop
variable {e : Fin maxPeers → DaemonEnv} {he : Nrf24.Env} {m m' : Manager b}

/-- The stop keeps the table consistent while it frees the entries. -/
theorem closeClientsFrom_frees {is : List (Fin maxPeers)} (hm : Clients m.tables)
    (h : Manager.closeClientsFrom e is m = .ok m') : ∀ i ∈ is, m'.tables.fds i = -1 := by
  induction is generalizing m with
  | nil => simp
  | cons i is ih =>
      obtain ⟨m₁, hone, hrest⟩ := bind_eq_ok.mp h
      have hfreed : Clients m₁.tables ∧ m₁.tables.fds i = -1 := by
        split at hone
        · rename_i hfree
          cases hone
          exact ⟨hm, hfree⟩
        · rename_i hactive
          have hwatch : (m.peers i).kwatch ≠ 0 := (hm.watch i).mp hactive
          rw [Manager.sourceRemove, if_neg hwatch] at hone
          obtain ⟨o, radio, -, rfl⟩ := Manager.removeWatch_cases hone
          refine ⟨hm.free hactive, ?_⟩
          show (m.tables.free i).fds i = -1
          rw [fds_free, Function.update_self]
      intro k hk
      rcases List.mem_cons.mp hk with rfl | hk
      · apply closeClientsFrom_keeps (I := fun t _ => t.fds k = -1) _ hfreed.2 hrest
        intro j t _ ht _ _
        rw [fds_free]
        by_cases hkj : k = j
        · rw [hkj, Function.update_self]
        · rw [Function.update_of_ne hkj]
          exact ht
      · exact ih hfreed.1 hrest k hk

/-- Behind the stop every entry is free. -/
theorem stop_frees {o : Out} (hm : Clients m.tables) (h : serve (.stop e he) m = .ok (o, m')) (i : Fin maxPeers) :
    m'.tables.fds i = -1 := by
  obtain ⟨m₁, hclients, htables, -⟩ := stop_cases h
  rw [htables]
  exact closeClientsFrom_frees (m := { m with acts := [] }) hm hclients i (List.mem_finRange i)

end Stop

/-! ## Early returns -/

/-- Either `evt_presence` calls `hal_comm_connect` in the end, or it leaves the table as it was. -/
theorem evtPresence_early {e : DaemonEnv} {buffer : Buf 256} {m m' : Manager b} {r : Int}
    (h : m.evtPresence e buffer = .ok (r, m')) : ∃ acts, m'.acts = m.acts ++ acts ∧
      ((∃ fd he o, Act.hal (.connect fd (buffer.sub mgmtHdrLen 8), he) o ∈ acts) ∨
        m'.peers = m.peers ∧ m'.countClients = m.countClients) := by
  unfold Manager.evtPresence at h
  dsimp only at h
  generalize buffer.sub mgmtHdrLen 8 = mac at h
  obtain ⟨⟨err, m₁⟩, hnote, h₁⟩ := bind_eq_ok.mp h
  obtain ⟨-, table, rfl⟩ := Manager.noteBeacon_cases hnote
  dsimp only at h₁
  split at h₁
  · cases h₁
    exact ⟨[], by simp, Or.inr ⟨rfl, rfl⟩⟩
  · obtain ⟨⟨p, m₂⟩, hpeer, h₂⟩ := bind_eq_ok.mp h₁
    have hbusy : ∃ acts, m₂.acts = m.acts ++ acts := by
      rcases Manager.presencePeer_cases hpeer with ⟨-, -, rfl⟩ | ⟨-, -, ⟨position, -, -, rfl⟩ | ⟨-, hnew⟩⟩
      · exact ⟨[], by simp⟩
      · exact ⟨[], by simp⟩
      · obtain ⟨acts, hacts, -⟩ := (newPeer_busy hnew).acts
        exact ⟨acts, hacts⟩
    obtain ⟨acts, hacts⟩ := hbusy
    cases p with
    | error err₂ =>
        cases h₂
        refine ⟨acts, hacts, Or.inr ?_⟩
        rcases Manager.presencePeer_cases hpeer with ⟨-, -, rfl⟩ | ⟨-, -, ⟨position, hp, -⟩ | ⟨-, hnew⟩⟩
        · exact ⟨rfl, rfl⟩
        · cases hp
        · rcases Manager.newPeer_cases hnew with ⟨-, -, rfl⟩ | ⟨position, o, radio, -, -, hrest⟩
          · exact ⟨rfl, rfl⟩
          · rcases hrest with ⟨-, -, rfl⟩ | ⟨-, -, -, o₂, radio₂, -, rfl⟩ | ⟨-, -, hp, -⟩
            · exact ⟨rfl, rfl⟩
            · exact ⟨rfl, rfl⟩
            · cases hp
    | ok position =>
        obtain ⟨⟨o, m₃⟩, hconn, h₃⟩ := bind_eq_ok.mp h₂
        obtain ⟨radio, -, rfl⟩ := Manager.hal_eq_ok.mp hconn
        cases h₃
        refine ⟨acts ++ [.hal (.connect (m₂.peers position).socketFd mac, e.hal .connect) o], ?_, ?_⟩
        · rw [hacts, List.append_assoc]
        · exact Or.inl ⟨_, _, o, List.mem_append_right acts List.mem_cons_self⟩

/-! ## Runs -/

section Runs
variable {created : Bool} {file : KeysFile} {mac : Mac} {tcp : Bool} {err : Nat} {e₀ : Nrf24.Env} {m₀ m m' : Manager b}

theorem clients_step {ee : Event × DaemonEnv} {o : Out} (hm : Clients m.tables) (h : step ee m = .ok (o, m')) :
    Clients m'.tables := by
  obtain ⟨a, -, heffect⟩ := (step_turned h).tables
  have ha : Clients { m.tables with adapter := a } := ⟨hm.count, hm.macs, hm.watch⟩
  exact heffect.clients ha

theorem clients_serve {input : Input} {o : Out} (hm : Clients m.tables) (h : serve input m = .ok (o, m')) :
    Clients m'.tables := by
  cases input with
  | turn ee => exact clients_step hm h
  | stop e he =>
      apply stop_keeps (I := fun t _ => Clients t) _ hm h
      intro i t _ ht hactive _
      exact ht.free hactive

/-- In every state of every run, the counter is the number of entries in use and so at most `MAX_PEERS`, no two
entries in use have the same address, and an entry has a watch exactly when it is in use; and every return of
`evt_presence` before `hal_comm_connect` leaves the entries and the counter as they were. -/
theorem clients_consistent (hstart : Manager.managerStart b created file mac tcp err e₀ = .ok (0, m₀))
    {is : List Input} {os : List Out} (hrun : exec serve is m₀ = .ok (os, m)) :
    m.countClients = (List.finRange maxPeers).countP (fun i => (m.peers i).socketFd ≠ -1) ∧
      m.countClients ≤ maxPeers ∧
      (∀ i j, (m.peers i).socketFd ≠ -1 → (m.peers j).socketFd ≠ -1 → (m.peers i).mac = (m.peers j).mac → i = j) ∧
      (∀ i, (m.peers i).kwatch ≠ 0 ↔ (m.peers i).socketFd ≠ -1) ∧
      ∀ e buffer r m', m.evtPresence e buffer = .ok (r, m') → ∃ acts, m'.acts = m.acts ++ acts ∧
        ((∀ fd he o, Act.hal (.connect fd (buffer.sub mgmtHdrLen 8), he) o ∉ acts) →
          m'.peers = m.peers ∧ m'.countClients = m.countClients) := by
  have h : Clients m.tables :=
    exec_keeps (I := fun m => Clients m.tables) (fun _ _ _ _ hm h => clients_serve hm h) (clients_start hstart) hrun
  refine ⟨h.count, h.le, fun i j hi hj hij => h.macs hi hj hij, fun i => (h.watch i).symm, ?_⟩
  intro e buffer r m' hpresence
  obtain ⟨acts, hacts, hor⟩ := evtPresence_early hpresence
  refine ⟨acts, hacts, fun hno => ?_⟩
  rcases hor with ⟨fd, he, o, hmem⟩ | hsame
  · exact absurd hmem (hno fd he o)
  · exact hsame

end Runs

/-- Two devices announce themselves and are connected, and the daemon stops. -/
def twoAndStop : List Input :=
  [.turn (idling 0 fun _ => []), .turn (announcing 5 lampMac), .turn (announcing 8 doorMac),
    .stop (fun _ => (idling 8 fun _ => []).2) (.still 8)]

/-- Up to the stop there are two clients, behind it none. -/
theorem clients_consistent_two :
    ∃ m₀ os m os' m', starting = .ok (0, m₀) ∧ exec serve (twoAndStop.take 3) m₀ = .ok (os, m) ∧
      m.countClients = 2 ∧ exec serve twoAndStop m₀ = .ok (os', m') ∧
      m'.countClients = (List.finRange maxPeers).countP (fun i => (m'.peers i).socketFd ≠ -1) ∧ m'.countClients = 0 := by
  obtain ⟨m₀, hstart⟩ : ∃ m₀, starting = .ok (0, m₀) := ⟨_, rfl⟩
  obtain ⟨os, m, hrun, hcount, os', m', hrun', hcount'⟩ : ∃ os m, exec serve (twoAndStop.take 3) m₀ = .ok (os, m) ∧
      m.countClients = 2 ∧ ∃ os' m', exec serve twoAndStop m₀ = .ok (os', m') ∧ m'.countClients = 0 := by
    cases hstart
    exact ⟨_, _, rfl, rfl, _, _, rfl, rfl⟩
  exact ⟨m₀, os, m, os', m', hstart, hrun, hcount, hrun', (clients_consistent hstart hrun').1, hcount'⟩

end KnotHal.Nrfd
