import KnotHal.Nrfd.Manager

/-!
# The table of clients

The counter, the marker of the free entries, the addresses and the watches are written in different functions. An
entry is freed in one way and comes into use in one way, and both keep them in agreement.

* `Tables.free`, `Tables.join` : the two changes;
* `Clients` : the invariant;
* `clients_start`, `Clients.free`, `Clients.join` : it holds at the start, and the changes keep it.
-/

namespace KnotHal.Nrfd

open Machine Slots Nrf24

variable {b : Build}

/-! ## Entries -/

def Manager.fds (m : Manager b) (i : Fin maxPeers) : Int := (m.peers i).socketFd

def Manager.macs (m : Manager b) (i : Fin maxPeers) : Mac := (m.peers i).mac

section Table
variable {m : Manager b} {i : Fin maxPeers} {mac : Mac}

theorem fds_setPeer (m : Manager b) (i : Fin maxPeers) (p : Peer) :
    (m.setPeer i p).fds = Function.update m.fds i p.socketFd := by
  funext k
  by_cases hk : k = i
  · subst hk; simp [Manager.fds, Manager.setPeer]
  · simp [Manager.fds, Manager.setPeer, hk]

theorem macs_setPeer (m : Manager b) (i : Fin maxPeers) (p : Peer) :
    (m.setPeer i p).macs = Function.update m.macs i p.mac := by
  funext k
  by_cases hk : k = i
  · subst hk; simp [Manager.macs, Manager.setPeer]
  · simp [Manager.macs, Manager.setPeer, hk]

theorem getPeer_eq_some (h : m.getPeer mac = some i) : m.fds i ≠ -1 ∧ m.macs i = mac := by
  exact of_decide_eq_true (find_finRange h).1

theorem getPeer_eq_none (h : m.getPeer mac = none) (i : Fin maxPeers) (hi : m.fds i ≠ -1) :
    m.macs i ≠ mac := by
  have := List.find?_eq_none.mp h i (List.mem_finRange i)
  simp only [ne_eq, decide_not, Bool.decide_and, Bool.and_eq_true, Bool.not_eq_true', decide_eq_false_iff_not,
    decide_eq_true_eq, not_and] at this
  exact this hi

theorem getPeerIndex_eq_some (h : m.getPeerIndex = some i) : m.fds i = -1 := of_decide_eq_true (find_finRange h).1

end Table

/-! ## Changes -/

structure Tables where
  peers : Fin maxPeers → Peer
  countClients : Nat
  adapter : Adapter

def Manager.tables (m : Manager b) : Tables := ⟨m.peers, m.countClients, m.adapter⟩

/-- A thing that gets a radio socket for a free entry, and for which the manager then turns to knotd. -/
structure Applicant where
  mac : Mac
  position : Fin maxPeers
  nsk : Int

def Tables.free (t : Tables) (i : Fin maxPeers) : Tables :=
  { t with
    peers := Function.update t.peers i { t.peers i with socketFd := -1, kwatch := 0 }
    countClients := (t.countClients + 255) % 256 }

def Tables.join (t : Tables) (a : Applicant) (sock : Int) (watch : Nat) : Tables where
  peers := Function.update t.peers a.position ⟨a.mac, int8 a.nsk, int8 sock, watch⟩
  countClients := (t.countClients + 1) % 256
  adapter := Manager.setStatus a.mac t.adapter

/-! ## The invariant -/

namespace Tables

def fds (t : Tables) (i : Fin maxPeers) : Int := (t.peers i).socketFd

def macs (t : Tables) (i : Fin maxPeers) : Mac := (t.peers i).mac

end Tables

/-- The counter is the number of entries in use, their addresses differ, and they are the ones with a watch. -/
structure Clients (t : Tables) : Prop where
  count : t.countClients = taken (-1) t.fds (List.finRange maxPeers)
  macs : Set.InjOn t.macs {i | t.fds i ≠ -1}
  watch : ∀ i, t.fds i ≠ -1 ↔ (t.peers i).kwatch ≠ 0

section Step
variable {t : Tables} {i : Fin maxPeers} {a : Applicant}

theorem fds_free (t : Tables) (i : Fin maxPeers) : (t.free i).fds = Function.update t.fds i (-1) := by
  funext k
  by_cases hk : k = i
  · subst hk; simp [Tables.fds, Tables.free]
  · simp [Tables.fds, Tables.free, hk]

theorem macs_free (t : Tables) (i : Fin maxPeers) : (t.free i).macs = t.macs := by
  funext k
  by_cases hk : k = i
  · subst hk; simp [Tables.macs, Tables.free]
  · simp [Tables.macs, Tables.free, hk]

theorem fds_join (t : Tables) (a : Applicant) (sock : Int) (watch : Nat) :
    (t.join a sock watch).fds = Function.update t.fds a.position (int8 a.nsk) := by
  funext k
  by_cases hk : k = a.position
  · subst hk; simp [Tables.fds, Tables.join]
  · simp [Tables.fds, Tables.join, hk]

theorem macs_join (t : Tables) (a : Applicant) (sock : Int) (watch : Nat) :
    (t.join a sock watch).macs = Function.update t.macs a.position a.mac := by
  funext k
  by_cases hk : k = a.position
  · subst hk; simp [Tables.macs, Tables.join]
  · simp [Tables.macs, Tables.join, hk]

theorem Clients.le (h : Clients t) : t.countClients ≤ maxPeers := by
  have := taken_le_length (-1) t.fds (List.finRange maxPeers)
  rwa [← h.count, List.length_finRange] at this

theorem Clients.free (h : Clients t) (hi : t.fds i ≠ -1) : Clients (t.free i) := by
  have hfds := fds_free t i
  refine ⟨?_, ?_, fun k => ?_⟩
  · have htaken := taken_release (List.nodup_finRange maxPeers) (List.mem_finRange i) hi
    have hle := h.le
    have hmax : maxPeers = 5 := rfl
    rw [← h.count] at htaken
    rw [hfds]
    show (t.countClients + 255) % 256 = _
    omega
  · have hinj := injOn_release h.macs i (t.macs i)
    rw [Function.update_eq_self, ← hfds] at hinj
    rw [macs_free]
    exact hinj
  · by_cases hk : k = i
    · subst hk
      simp [Tables.fds, Tables.free]
    · rw [hfds, Function.update_of_ne hk]
      show _ ↔ (Function.update t.peers i _ k).kwatch ≠ 0
      rw [Function.update_of_ne hk]
      exact h.watch k

theorem Clients.join (h : Clients t) (hfree : t.fds a.position = -1) (hnew : ∀ k, t.fds k ≠ -1 → t.macs k ≠ a.mac)
    (hnsk : int8 a.nsk ≠ -1) (sock : Int) {watch : Nat} (hwatch : watch ≠ 0) : Clients (t.join a sock watch) := by
  have hfds := fds_join t a sock watch
  refine ⟨?_, ?_, fun k => ?_⟩
  · have htaken := taken_occupy (List.nodup_finRange maxPeers) (List.mem_finRange a.position) hfree hnsk
    have hle := taken_le_length (-1) (t.join a sock watch).fds (List.finRange maxPeers)
    have hmax : maxPeers = 5 := rfl
    rw [List.length_finRange, hfds, htaken, ← h.count] at hle
    rw [hfds, htaken, ← h.count]
    show (t.countClients + 1) % 256 = _
    omega
  · have hinj := injOn_occupy h.macs hnew a.position (int8 a.nsk)
    rw [← hfds, ← macs_join t a sock watch] at hinj
    exact hinj
  · by_cases hk : k = a.position
    · subst hk
      rw [hfds, Function.update_self]
      apply iff_of_true hnsk
      show (Function.update t.peers _ _ _).kwatch ≠ 0
      rw [Function.update_self]
      exact hwatch
    · rw [hfds, Function.update_of_ne hk]
      show _ ↔ (Function.update t.peers _ _ k).kwatch ≠ 0
      rw [Function.update_of_ne hk]
      exact h.watch k

end Step

theorem clients_start {created : Bool} {file : KeysFile} {mac : Mac} {tcp : Bool} {err : Nat} {e : Nrf24.Env}
    {m : Manager b} (h : Manager.managerStart b created file mac tcp err e = .ok (0, m)) : Clients m.tables := by
  obtain ⟨-, -, -, -, hcount, hpeers⟩ := Manager.managerStart_started h
  have hfree : ∀ i, m.tables.fds i = -1 := fun i => congrArg Peer.socketFd (hpeers i)
  refine ⟨?_, fun i hi => absurd (hfree i) hi, fun i => ?_⟩
  · rw [taken_eq_zero.mpr fun i _ => hfree i]
    exact hcount
  · apply iff_of_false (not_not.mpr (hfree i))
    exact not_not.mpr (congrArg Peer.kwatch (hpeers i))

end KnotHal.Nrfd
