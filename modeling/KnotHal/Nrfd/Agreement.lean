import KnotHal.Nrf24.Bounds
import KnotHal.Nrf24.Expiry
import KnotHal.Nrfd.Devices
import KnotHal.Nrfd.Turn

/-!
# The manager and the radio layer agree on connections

An entry of the manager's `peers` names a slot of the radio layer. The radio layer frees slots on its own,
when a thing falls silent, and tells so by an event that carries the address in the slot; the manager
frees the entry when it reads the event.

* `Consistent` : the invariant, up to the peers in `lost`;
* `Carries` : what a call of the radio layer leaves of the allocation of slots;
* `removeWatch_consistent`, `newPeer_consistent`, `connect_consistent` : one lemma per change of the tables;
* `tables_agree` : the invariant holds in every state between two callbacks.
-/

namespace KnotHal.Nrfd

open Machine Slots Nrf24

variable {b : Build}

/-! ## The invariant -/

def Owned (s : Nrf b) (j : Fin b.connections) (mac : Mac) : Prop :=
  (s.peers j).pipe ≠ -1 ∧ (s.peers j).mac = mac

/-- Every entry in use names a slot of its own, which is allocated to the thing of the entry unless that is
`lost`. -/
structure Consistent (lost : Mac → Prop) (m : Manager b) : Prop where
  driverIndex : m.radio.driverIndex = 0
  mgmtPipe : m.radio.mgmt.pipe = 0
  mgmtfd : m.mgmtfd = 0
  slot : ∀ i, m.fds i ≠ -1 → ∃ j : Fin b.connections, m.fds i = j + 1 ∧ (Owned m.radio j (m.macs i) ∨ lost (m.macs i))
  fds : ∀ i i', m.fds i ≠ -1 → m.fds i = m.fds i' → i = i'
  macs : ∀ i i', m.fds i ≠ -1 → m.fds i' ≠ -1 → m.macs i = m.macs i' → i = i'
  count : m.countClients = taken (-1) m.fds (List.finRange maxPeers)
  watch : ∀ i, m.fds i ≠ -1 ↔ (m.peers i).kwatch ≠ 0

/-- The things whose DISCONNECTED event waits. -/
def unread (s : Nrf b) (mac : Mac) : Prop := Nrf.Disconnected mac s.mgmt

def nobody (_ : Mac) : Prop := False

section
variable {lost lost' : Mac → Prop} {m m' : Manager b}

theorem Consistent.mono (h : Consistent lost m) (himp : ∀ i, m.fds i ≠ -1 → lost (m.macs i) → lost' (m.macs i)) :
    Consistent lost' m where
  __ := h
  slot := fun i hi => by
    obtain ⟨j, hj, hor⟩ := h.slot i hi
    exact ⟨j, hj, hor.imp_right (himp i hi)⟩

theorem Consistent.fds_injOn (h : Consistent lost m) : Set.InjOn m.fds {i | m.fds i ≠ -1} :=
  fun i hi i' _ heq => h.fds i i' hi heq

theorem Consistent.clients (h : Consistent lost m) : Clients m.tables :=
  ⟨h.count, fun i hi i' hi' heq => h.macs i i' hi hi' heq, h.watch⟩

theorem Consistent.same (h : Consistent lost m) (hpeers : m'.peers = m.peers) (hcount : m'.countClients = m.countClients)
    (hfd : m'.mgmtfd = m.mgmtfd) (hd : m'.radio.driverIndex = m.radio.driverIndex)
    (hp : m'.radio.mgmt.pipe = m.radio.mgmt.pipe)
    (hslot : ∀ j mac, Owned m.radio j mac ∨ lost mac → Owned m'.radio j mac ∨ lost' mac) : Consistent lost' m' := by
  have hfds : m'.fds = m.fds := by ext1 i; simp only [Manager.fds, hpeers]
  have hmacs : m'.macs = m.macs := by ext1 i; simp only [Manager.macs, hpeers]
  refine ⟨hd.trans h.driverIndex, hp.trans h.mgmtPipe, hfd.trans h.mgmtfd, fun i hi => ?_, ?_, ?_, ?_, ?_⟩
  · rw [hfds] at hi ⊢
    rw [hmacs]
    obtain ⟨j, hj, hor⟩ := h.slot i hi
    exact ⟨j, hj, hslot j _ hor⟩
  · rw [hfds]; exact h.fds
  · rw [hfds, hmacs]; exact h.macs
  · rw [hfds, hcount]; exact h.count
  · rw [hfds, hpeers]; exact h.watch

end

/-! ## Calls of the radio layer -/

/-- What a call that neither opens nor closes a socket leaves of the slots: one that is freed leaves an event,
and an event that waits is kept. -/
structure Carries (s s' : Nrf b) : Prop where
  driverIndex : s'.driverIndex = s.driverIndex
  mgmtPipe : s'.mgmt.pipe = s.mgmt.pipe
  owned : ∀ j mac, Owned s j mac → Owned s' j mac ∨ unread s' mac
  event : ∀ mac, unread s mac → unread s' mac

section Radio
variable {s s' : Nrf b} {e : Nrf24.Env}

theorem Carries.of_ran (h : Nrf.Ran s s') : Carries s s' where
  driverIndex := h.driverIndex
  mgmtPipe := h.mgmtPipe
  owned := fun j mac ⟨hp, hm⟩ => by
    rcases h.pipe j with hsame | ⟨-, -, hdis⟩
    · exact Or.inl ⟨by rw [hsame]; exact hp, (h.mac j).trans hm⟩
    · rw [hm] at hdis
      exact Or.inr hdis
  event := fun mac hdis => by
    have hne : s.mgmt.lenRx ≠ 0 := by rw [hdis.lenRx]; decide
    obtain ⟨hbuf, hlen⟩ := h.unread hne
    exact ⟨hlen.trans hdis.lenRx, by rw [hbuf]; exact hdis.opcode, by rw [hbuf]; exact hdis.mac⟩

theorem Carries.refl (s : Nrf b) : Carries s s := ⟨rfl, rfl, fun _ _ => Or.inl, fun _ => id⟩

theorem Carries.of_same {s₁ : Nrf b} (h : Carries s s₁) (hd : s'.driverIndex = s₁.driverIndex)
    (hm : s'.mgmt = s₁.mgmt) (hp : ∀ j, (s'.peers j).pipe = (s₁.peers j).pipe)
    (hmac : ∀ j, (s'.peers j).mac = (s₁.peers j).mac) : Carries s s' where
  driverIndex := hd.trans h.driverIndex
  mgmtPipe := (congrArg Nrf24Mgmt.pipe hm).trans h.mgmtPipe
  owned := fun j mac hown => by
    rw [unread, hm, Owned, hp, hmac]
    exact h.owned j mac hown
  event := fun mac hun => by
    rw [unread, hm]
    exact h.event mac hun

theorem Carries.setPeer {s₁ : Nrf b} {i : Fin b.connections} {d : Nrf24Data} (h : Carries s s₁)
    (hp : d.pipe = (s₁.peers i).pipe) (hm : d.mac = (s₁.peers i).mac) : Carries s (s₁.setPeer i d) := by
  refine h.of_same rfl rfl (fun j => ?_) (fun j => ?_)
  all_goals
    by_cases hj : j = i
    · subst hj
      rw [Nrf.setPeer_self]
      assumption
    · rw [Nrf.setPeer_of_ne s₁ d hj]

/-- The pass of a call, which starts with an empty log. -/
theorem running_carries {s₁ : Nrf b} (h : Nrf.running e { s with log := [] } = .ok s₁) : Carries s s₁ :=
  have h₁ := Carries.of_ran (Nrf.running_ran h)
  ⟨h₁.driverIndex, h₁.mgmtPipe, h₁.owned, h₁.event⟩

variable {o : Nrf24.Out}

theorem read_carries {sockfd : Int} {count : Nat} (hfd : sockfd ≠ 0)
    (h : Nrf24.step (.read sockfd count, e) s = .ok (o, s')) : Carries s s' := by
  obtain ⟨s₁, hrun, h⟩ := Nrf.halCommRead_cases (step_eq_ok.mp h).1
  have h₁ := running_carries hrun
  rcases h with ⟨-, rfl, -⟩ | ⟨h0, -⟩ | ⟨i, -, -, -, -, rfl⟩
  · exact h₁
  · exact absurd h0 hfd
  · exact h₁.setPeer rfl rfl

theorem write_carries {sockfd : Int} {data : List UInt8} (h : Nrf24.step (.write sockfd data, e) s = .ok (o, s')) :
    Carries s s' := by
  obtain ⟨s₁, hrun, h⟩ := Nrf.halCommWrite_cases (step_eq_ok.mp h).1
  have h₁ := running_carries hrun
  rcases h with ⟨-, rfl⟩ | ⟨i, -, -, -, -, -, rfl⟩
  · exact h₁
  · exact h₁.setPeer rfl rfl

theorem read_mgmt (h : Nrf24.step (.read 0 256, e) s = .ok (o, s')) :
    ∃ s₁, Carries s s₁ ∧ s'.driverIndex = s₁.driverIndex ∧ s'.mgmt.pipe = s₁.mgmt.pipe ∧ s'.peers = s₁.peers ∧
      s'.mgmt.lenRx = 0 ∧ (o.ret < 0 ∧ s₁.mgmt.lenRx = 0 ∨
        0 ≤ o.ret ∧ o.data = s₁.mgmt.bufferRx.read 0 (min s₁.mgmt.lenRx 256)) := by
  obtain ⟨s₁, hrun, h⟩ := Nrf.halCommRead_cases (step_eq_ok.mp h).1
  refine ⟨s₁, running_carries hrun, ?_⟩
  rcases h with ⟨hret, rfl, h0, -⟩ | ⟨-, -, -, ho, rfl⟩ | ⟨i, hi, -⟩
  · have hlen := h0 rfl (by decide)
    exact ⟨rfl, rfl, rfl, hlen, Or.inl ⟨hret, hlen⟩⟩
  · refine ⟨rfl, rfl, rfl, rfl, Or.inr ⟨?_, congrArg Ret.data ho⟩⟩
    have hret : o.ret = _ := congrArg Ret.ret ho
    rw [hret]
    exact Int.natCast_nonneg _
  · omega

theorem close_slot {i : Fin b.connections} (h : Nrf24.step (.close (i + 1), e) s = .ok (o, s')) :
    s'.driverIndex = s.driverIndex ∧ s'.mgmt = s.mgmt ∧ ∀ j, j ≠ i → s'.peers j = s.peers j := by
  rcases (Nrf.halCommClose_cases (step_eq_ok.mp h).1).2 with rfl | ⟨k, hk, -, ops, -, hfree⟩
  · exact ⟨rfl, rfl, fun _ _ => rfl⟩
  · obtain rfl : k = i := Fin.ext (by omega)
    have hf := Nrf.Frame.freePipe hfree
    have hm := Nrf.freePipe_mgmt hfree
    exact ⟨hf.driverIndex, hm, fun j hj => hf.peers j hj⟩

theorem socket_slot (hp : s.mgmt.pipe = 0) (h : Nrf24.step (.socket pfNrf24 protoRaw, e) s = .ok (o, s')) :
    s'.driverIndex = s.driverIndex ∧ s'.mgmt = s.mgmt ∧
      ((o.ret < 0 ∧ s'.peers = s.peers) ∨ ∃ i : Fin b.connections, o.ret = i + 1 ∧ (s.peers i).pipe = -1 ∧
        s'.peers i = { Nrf24Data.zero with pipe := i + 1 } ∧ ∀ j, j ≠ i → s'.peers j = s.peers j) := by
  rcases Nrf.halCommSocket_cases (step_eq_ok.mp h).1 with ⟨hret, rfl⟩ | ⟨-, hne, -⟩ | ⟨-, -, -, i, s₁, halloc, hr, rfl⟩
  · exact ⟨rfl, rfl, Or.inl ⟨hret, rfl⟩⟩
  · exact absurd hp hne
  · obtain ⟨hfree, -, rfl⟩ := Nrf.allocPipe_eq_some halloc
    refine ⟨rfl, rfl, Or.inr ⟨i, congrArg Ret.ret hr, hfree, ?_, fun j hj => ?_⟩⟩
    · exact Nrf.setPeer_self { s with log := [] } i { Nrf24Data.zero with pipe := i + 1 }
    · exact Nrf.setPeer_of_ne { s with log := [] } { Nrf24Data.zero with pipe := i + 1 } hj

/-- Connecting runs a pass; then nothing happens where a packet is queued, and else the address is recorded. -/
theorem connect_slot {i : Fin b.connections} {mac : Mac}
    (h : Nrf24.step (.connect (i + 1) mac, e) s = .ok (o, s')) :
    ∃ s₁, Nrf.running e { s with log := [] } = .ok s₁ ∧ Carries s s₁ ∧ s'.driverIndex = s₁.driverIndex ∧
      s'.mgmt.pipe = s₁.mgmt.pipe ∧ (∀ mac, unread s₁ mac → unread s' mac) ∧
      (∀ j, j ≠ i → s'.peers j = s₁.peers j) ∧ (s'.peers i).pipe = (s₁.peers i).pipe ∧
      (s'.peers i).mac = if s₁.mgmt.lenTx = 0 then mac else (s₁.peers i).mac := by
  obtain ⟨s₁, hrun, h⟩ := Nrf.halCommConnect_cases (step_eq_ok.mp h).1
  refine ⟨s₁, hrun, running_carries hrun, ?_⟩
  rcases h with ⟨hbusy, -, rfl⟩ | ⟨hidle, k, hk, -, rfl⟩
  · exact ⟨rfl, rfl, fun _ => id, fun _ _ => rfl, rfl, by rw [if_neg hbusy]⟩
  · obtain rfl : k = i := Fin.ext (by omega)
    refine ⟨rfl, rfl, fun _ h => ⟨h.lenRx, h.opcode, h.mac⟩, fun j hj => ?_, ?_, ?_⟩
    · exact Nrf.setPeer_of_ne s₁ _ hj
    · simp [Nrf.setPeer]
    · simp [Nrf.setPeer, hidle]

end Radio

/-! ## Changes of the table -/

section Table
variable {lost : Mac → Prop} {m m' : Manager b} {e : DaemonEnv} {i : Fin maxPeers}

theorem Consistent.carries (h : Consistent (unread m.radio) m) (hpeers : m'.peers = m.peers)
    (hcount : m'.countClients = m.countClients) (hfd : m'.mgmtfd = m.mgmtfd) (hc : Carries m.radio m'.radio) :
    Consistent (unread m'.radio) m' := by
  apply h.same hpeers hcount hfd hc.driverIndex hc.mgmtPipe
  intro j mac hor
  rcases hor with hown | hun
  · exact hc.owned j mac hown
  · exact Or.inr (hc.event mac hun)

theorem Consistent.freed (h : Consistent lost m) (hi : m.fds i ≠ -1) (htables : m'.tables = m.tables.free i)
    (hd : m'.radio.driverIndex = 0) (hp : m'.radio.mgmt.pipe = 0) (hfd : m'.mgmtfd = 0)
    (hslot : ∀ j : Fin b.connections, m.fds i ≠ j + 1 → ∀ mac, Owned m.radio j mac → Owned m'.radio j mac) :
    Consistent lost m' := by
  have hclients : Clients m'.tables := htables ▸ h.clients.free hi
  have hfds : m'.fds = Function.update m.fds i (-1) := (congrArg Tables.fds htables).trans (fds_free m.tables i)
  have hmacs : m'.macs = m.macs := (congrArg Tables.macs htables).trans (macs_free m.tables i)
  refine ⟨hd, hp, hfd, fun k hk => ?_, fun k k' hk hkk' => ?_, fun k k' hk hk' => hclients.macs hk hk', hclients.count,
    hclients.watch⟩
  · have hki : k ≠ i := fun hki => hk (by rw [hfds, hki, Function.update_self])
    rw [hfds, Function.update_of_ne hki] at hk ⊢
    obtain ⟨j, hj, hor⟩ := h.slot k hk
    rw [hmacs]
    refine ⟨j, hj, hor.imp_left (hslot j (fun hij => hki ?_) _)⟩
    exact h.fds k i hk (hj.trans hij.symm)
  · have hinj := injOn_release h.fds_injOn i (-1)
    rw [← hfds] at hinj
    exact hinj hk (hkk' ▸ hk : m'.fds k' ≠ -1) hkk'

/-- An entry in use goes, and its slot with it. -/
theorem removeWatch_consistent (h : Consistent lost m) (hi : m.fds i ≠ -1) (hr : m.removeWatch e i = .ok m') :
    m'.radio.mgmt = m.radio.mgmt ∧ m'.fds = Function.update m.fds i (-1) ∧ m'.macs = m.macs ∧ Consistent lost m' := by
  obtain ⟨j, hj, -⟩ := h.slot i hi
  obtain ⟨o, radio, hclose, rfl⟩ := Manager.removeWatch_cases hr
  rw [show (m.peers i).socketFd = j + 1 from hj] at hclose
  obtain ⟨hd, hm, hother⟩ := close_slot hclose
  refine ⟨hm, fds_free m.tables i, macs_free m.tables i, ?_⟩
  refine h.freed hi rfl (hd.trans h.driverIndex) ((congrArg Nrf24Mgmt.pipe hm).trans h.mgmtPipe) h.mgmtfd
    fun l hl mac hown => ?_
  have hlj : l ≠ j := fun hlj => hl (by rw [hj, hlj])
  dsimp only
  rw [Owned, hother l hlj]
  exact hown

/-- A thing whose entry is in use is not lost any more when its event has been handled. -/
theorem evtDisconnected_consistent {buffer : Buf 256} {r : Int} (h : Consistent lost m)
    (hlost : ∀ mac, lost mac → mac = buffer.sub mgmtHdrLen 8) (hr : m.evtDisconnected e buffer = .ok (r, m')) :
    m'.radio.mgmt = m.radio.mgmt ∧ Consistent nobody m' := by
  unfold Manager.evtDisconnected at hr
  split at hr
  · rename_i hcount
    obtain ⟨-, rfl⟩ := Prod.mk.inj (Except.ok.inj hr)
    have hfree := taken_eq_zero.mp (h.count.symm.trans hcount)
    exact ⟨rfl, h.mono fun i hi => absurd (hfree i (List.mem_finRange i)) hi⟩
  · split at hr
    · rename_i hnone
      obtain ⟨-, rfl⟩ := Prod.mk.inj (Except.ok.inj hr)
      exact ⟨rfl, h.mono fun i hi hl => getPeer_eq_none hnone i hi (hlost _ hl)⟩
    · rename_i position hsome
      obtain ⟨hi, hmac⟩ := getPeer_eq_some hsome
      obtain ⟨m₁, hremove, hr⟩ := bind_eq_ok.mp hr
      obtain ⟨-, rfl⟩ := Prod.mk.inj (Except.ok.inj hr)
      rw [Manager.sourceRemove, if_neg ((h.watch position).mp hi)] at hremove
      obtain ⟨hm, hfds, hmacs, h₁⟩ := removeWatch_consistent h hi hremove
      refine ⟨hm, h₁.mono fun k hk hl => ?_⟩
      -- the entry of the thing is gone
      have hkpos : k ≠ position := fun hkpos => hk (by rw [hfds, hkpos, Function.update_self])
      rw [hfds, Function.update_of_ne hkpos] at hk
      rw [hmacs] at hl
      exact hkpos (h.macs k position hk hi ((hlost _ hl).trans hmac.symm))

theorem Consistent.added (h : Consistent nobody m) {a : Applicant} {sock : Int} {watch : Nat} {j : Fin b.connections}
    (hfree : m.fds a.position = -1) (hnew : ∀ k, m.fds k ≠ -1 → m.macs k ≠ a.mac) (hnsk : int8 a.nsk = j + 1)
    (hwatch : watch ≠ 0) (htables : m'.tables = m.tables.join a sock watch) (hd : m'.radio.driverIndex = 0)
    (hp : m'.radio.mgmt.pipe = 0) (hfd : m'.mgmtfd = 0)
    (hslot : ∀ l mac, Owned m.radio l mac → l ≠ j ∧ Owned m'.radio l mac) : Consistent (· = a.mac) m' := by
  have hclients : Clients m'.tables := htables ▸ h.clients.join hfree hnew (by omega) sock hwatch
  have hfds : m'.fds = Function.update m.fds a.position (j + 1) := by
    rw [← hnsk]
    exact (congrArg Tables.fds htables).trans (fds_join m.tables a sock watch)
  have hmacs : m'.macs = Function.update m.macs a.position a.mac :=
    (congrArg Tables.macs htables).trans (macs_join m.tables a sock watch)
  have hown : ∀ k, m.fds k ≠ -1 → ∃ l : Fin b.connections, m.fds k = l + 1 ∧ Owned m.radio l (m.macs k) := fun k hk => by
    obtain ⟨l, hl, hor⟩ := h.slot k hk
    exact ⟨l, hl, hor.resolve_right id⟩
  have hfresh : ∀ k, m.fds k ≠ -1 → m.fds k ≠ j + 1 := fun k hk heq => by
    obtain ⟨l, hl, howned⟩ := hown k hk
    apply (hslot l _ howned).1
    apply Fin.ext
    omega
  refine ⟨hd, hp, hfd, fun k hk => ?_, fun k k' hk hkk' => ?_, fun k k' hk hk' => hclients.macs hk hk', hclients.count,
    hclients.watch⟩
  · by_cases hki : k = a.position
    · rw [hki, hfds, hmacs, Function.update_self, Function.update_self]
      exact ⟨j, rfl, Or.inr rfl⟩
    · rw [hfds, Function.update_of_ne hki] at hk ⊢
      rw [hmacs, Function.update_of_ne hki]
      obtain ⟨l, hl, howned⟩ := hown k hk
      exact ⟨l, hl, Or.inl (hslot l _ howned).2⟩
  · have hinj := injOn_occupy h.fds_injOn hfresh a.position (j + 1)
    rw [← hfds] at hinj
    exact hinj hk (hkk' ▸ hk : m'.fds k' ≠ -1) hkk'

/-- The entry at `position` was given to the thing `mac`, and its slot was just opened. -/
structure Joined (position : Fin maxPeers) (mac : Mac) (m : Manager b) : Prop where
  consistent : Consistent (· = mac) m
  mac : m.macs position = mac
  slot : ∃ j : Fin b.connections, m.fds position = j + 1 ∧ m.radio.peers j = { Nrf24Data.zero with pipe := j + 1 }

/-- The radio socket of a new peer may fail, or the socket to knotd may; else there is a new entry. -/
theorem newPeer_consistent {mac : Mac} {r : Except Int (Fin maxPeers)} (h : Consistent nobody m)
    (hnone : m.getPeer mac = none) (hr : m.newPeer e mac = .ok (r, m')) :
    (∃ err, r = .error err ∧ Consistent nobody m') ∨ ∃ position, r = .ok position ∧ Joined position mac m' := by
  rcases Manager.newPeer_cases hr with ⟨rfl, -, rfl⟩ | ⟨position, o, radio, hindex, hstep, hrest⟩
  · exact Or.inl ⟨_, rfl, h⟩
  obtain ⟨hd, hm, hslot⟩ := socket_slot h.mgmtPipe hstep
  rcases hrest with ⟨hneg, rfl, rfl⟩ | hrest
  · obtain ⟨-, hpeers⟩ := hslot.resolve_right fun ⟨j, hret, _⟩ => by omega
    refine Or.inl ⟨_, rfl, h.same rfl rfl rfl hd (congrArg Nrf24Mgmt.pipe hm) fun j mac hor => ?_⟩
    dsimp only
    rw [Owned, hpeers]
    exact hor
  have hpos : 0 ≤ o.ret := hrest.elim And.left And.left
  obtain ⟨j, hret, hfreeSlot, hfresh, hother⟩ := hslot.resolve_left fun h => by omega
  -- the slots in use are other ones
  have hkeep : ∀ l mac, Owned m.radio l mac → l ≠ j ∧ Owned radio l mac := fun l mac hown => by
    have hlj : l ≠ j := fun hlj => hown.1 (hlj ▸ hfreeSlot)
    exact ⟨hlj, by rw [Owned, hother l hlj]; exact hown⟩
  rcases hrest with ⟨-, -, rfl, o₂, radio₂, hstep₂, rfl⟩ | ⟨-, -, rfl, rfl⟩
  · rw [hret] at hstep₂
    obtain ⟨hd₂, hm₂, hother₂⟩ := close_slot hstep₂
    refine Or.inl ⟨_, rfl, h.same rfl rfl rfl (hd₂.trans hd) (congrArg Nrf24Mgmt.pipe (hm₂.trans hm))
      fun l mac hor => hor.imp_left fun hown => ?_⟩
    obtain ⟨hlj, hown⟩ := hkeep l mac hown
    dsimp only
    rw [Owned, hother₂ l hlj]
    exact hown
  · have hfree : m.fds position = -1 := of_decide_eq_true (find_finRange hindex).1
    have hint : int8 o.ret = j + 1 := by
      have hj := j.isLt
      have hc := b.connections_le
      rw [hret, int8, Int.bmod_eq_of_le_mul_two] <;> omega
    refine Or.inr ⟨position, rfl, ?_, ?_, j, ?_, hfresh⟩
    · exact h.added (a := ⟨mac, position, o.ret⟩) hfree (getPeer_eq_none hnone) hint e.watch.property rfl
        (hd.trans h.driverIndex) ((congrArg Nrf24Mgmt.pipe hm).trans h.mgmtPipe) h.mgmtfd hkeep
    · exact (congrFun (macs_setPeer m position _) position).trans (Function.update_self ..)
    · refine (congrFun (fds_setPeer m position _) position).trans ?_
      rw [Function.update_self]
      exact hint

end Table

/-! ## Presence -/

section Presence
variable {m m' : Manager b} {e : DaemonEnv} {mac : Mac} {position : Fin maxPeers}

/-- Connecting on the slot `j` of an entry keeps the tables in step where the slot belongs to the thing in the
end, or its event waits. -/
theorem connect_consistent {he : Nrf24.Env} {o : Nrf24.Out} {radio : Nrf b} {acts : List Act} {j : Fin b.connections}
    (h : Consistent (· = mac) m) (hj : m.fds position = j + 1) (hmac : m.macs position = mac)
    (hstep : Nrf24.step (.connect (j + 1) mac, he) m.radio = .ok (o, radio))
    (hown : Owned radio j mac ∨ unread radio mac) :
    Consistent (unread radio) { m with radio := radio, acts := acts } := by
  obtain ⟨s₁, -, hc, hd, hp, hevent, hother, -, -⟩ := connect_slot hstep
  have hact : m.fds position ≠ -1 := by omega
  refine ⟨(hd.trans hc.driverIndex).trans h.driverIndex, (hp.trans hc.mgmtPipe).trans h.mgmtPipe, h.mgmtfd,
    fun k hk => ?_, h.fds, h.macs, h.count, h.watch⟩
  by_cases hkp : k = position
  · subst hkp
    refine ⟨j, hj, ?_⟩
    have hmac' : Manager.macs { m with radio := radio, acts := acts } k = mac := hmac
    rw [hmac']
    exact hown
  · obtain ⟨l, hl, hor⟩ := h.slot k hk
    refine ⟨l, hl, ?_⟩
    have howned : Owned m.radio l (m.macs k) := hor.resolve_right fun hk' =>
      hkp (h.macs k position hk hact (hk'.trans hmac.symm))
    have hlj : l ≠ j := fun hlj => hkp (h.fds k position hk (by rw [hl, hj, hlj]))
    rcases hc.owned l _ howned with h₁ | h₁
    · apply Or.inl
      dsimp only
      rw [Owned, hother l hlj]
      exact h₁
    · exact Or.inr (hevent _ h₁)

/-- On a slot that belongs to the thing already, nothing can go wrong. -/
theorem connect_owned {he : Nrf24.Env} {o : Nrf24.Out} {s s' : Nrf b} {j : Fin b.connections} (hown : Owned s j mac)
    (hstep : Nrf24.step (.connect (j + 1) mac, he) s = .ok (o, s')) : Owned s' j mac ∨ unread s' mac := by
  obtain ⟨s₁, -, hc, -, -, hevent, -, hpipe, hmac⟩ := connect_slot hstep
  rcases hc.owned j mac hown with ⟨hp₁, hm₁⟩ | hun
  · refine Or.inl ⟨by rw [hpipe]; exact hp₁, ?_⟩
    rw [hmac]
    split
    · rfl
    · exact hm₁
  · exact Or.inr (hevent mac hun)

/-- On a slot that was just opened the address has to be recorded, and the slot has to survive the pass. -/
theorem connect_fresh {he : Nrf24.Env} {o : Nrf24.Out} {s s' : Nrf b} {j : Fin b.connections}
    (hfresh : s.peers j = { Nrf24Data.zero with pipe := j + 1 })
    (hsafe : mac = noMac ∨ s.Flushes he ∧ ¬ s.Expires he j)
    (hstep : Nrf24.step (.connect (j + 1) mac, he) s = .ok (o, s')) : Owned s' j mac ∨ unread s' mac := by
  have hpipe₀ : (s.peers j).pipe ≠ -1 := by
    rw [hfresh]
    dsimp only
    omega
  have hmac₀ : (s.peers j).mac = noMac := by rw [hfresh]; rfl
  rcases hsafe with hno | ⟨hflush, halive⟩
  · exact connect_owned ⟨hpipe₀, hmac₀.trans hno.symm⟩ hstep
  · obtain ⟨s₁, hrun, -, -, -, -, -, hpipe, hmac⟩ := connect_slot hstep
    have hsent : s₁.mgmt.lenTx = 0 := (Nrf.running_flushes hrun).mpr hflush
    refine Or.inl ⟨?_, by rw [hmac, if_pos hsent]⟩
    rw [hpipe]
    intro hfreed
    have := (Nrf.running_frees (s := { s with log := [] }) hrun hpipe₀).mp hfreed
    exact halive ⟨this.state, this.turn, this.unread, this.quiet, this.timeout⟩

/-- The thing that a presence event gives a new entry, the entry, and the state in which the manager then calls
`hal_comm_connect`. -/
def presenceNewcomer (e : DaemonEnv) (buffer : Buf 256) (m : Manager b) : Option (Mac × Fin maxPeers × Manager b) :=
  let mac : Mac := buffer.sub mgmtHdrLen 8
  match m.noteBeacon e mac buffer with
  | .error _ => none
  | .ok (err, m) =>
    if err < 0 ∨ (m.getPeer mac).isSome then none
    else
      match m.presencePeer e mac with
      | .ok (.ok position, m) => some (mac, position, m)
      | _ => none

def newcomer (e : DaemonEnv) (m : Manager b) : Option (Mac × Fin maxPeers × Manager b) :=
  match m.hal (.read m.mgmtfd 256) (e.hal .mgmtRead) with
  | .error _ => none
  | .ok (o, m) =>
    let buffer := e.buffer.write 0 o.data
    if o.ret < 0 ∨ buffer.get 1 &&& 0x02 = 0 ∨ buffer.read 0 2 ≠ evtBcastPresence then none
    else presenceNewcomer e buffer m

/-- The pass in `hal_comm_connect` leaves nothing queued for pipe 0, and does not free the slot that was just
opened. Address 0 is the one that the slot has anyway. -/
def SafeJoin (e : DaemonEnv) : Mac × Fin maxPeers × Manager b → Prop
  | (mac, position, m) => mac = noMac ∨ m.radio.Flushes (e.hal .connect) ∧
      ∀ j : Fin b.connections, m.fds position = j + 1 → ¬ m.radio.Expires (e.hal .connect) j

/-- Where the idle callback gives a thing a new entry, it does so safely. -/
def Safe (ee : Event × DaemonEnv) (m : Manager b) : Prop :=
  ee.1 = .idle → ∀ n ∈ newcomer ee.2 { m with acts := [] }, SafeJoin ee.2 n

theorem evtPresence_consistent {buffer : Buf 256} {r : Int} (h : Consistent nobody m)
    (hsafe : ∀ n ∈ presenceNewcomer e buffer m, SafeJoin e n) (hr : m.evtPresence e buffer = .ok (r, m')) :
    Consistent (unread m'.radio) m' := by
  have hnobody : ∀ {m : Manager b}, Consistent nobody m → Consistent (unread m.radio) m :=
    fun h => h.mono fun _ _ hl => hl.elim
  unfold Manager.evtPresence at hr
  unfold presenceNewcomer at hsafe
  dsimp only at hr hsafe
  generalize buffer.sub mgmtHdrLen 8 = mac at hr hsafe
  obtain ⟨⟨err, m₁⟩, hnote, hr₁⟩ := bind_eq_ok.mp hr
  clear hr
  have h₁ : Consistent nobody m₁ := by
    obtain ⟨-, table, rfl⟩ := Manager.noteBeacon_cases hnote
    exact h.same rfl rfl rfl rfl rfl fun _ _ => id
  rw [hnote] at hsafe
  dsimp only at hr₁ hsafe
  split at hr₁
  · obtain ⟨-, rfl⟩ := Prod.mk.inj (Except.ok.inj hr₁)
    exact hnobody h₁
  · rename_i herr
    obtain ⟨⟨p, m₂⟩, hpeer, hr₂⟩ := bind_eq_ok.mp hr₁
    clear hr₁
    dsimp only at hr₂
    rcases Manager.presencePeer_cases hpeer with
      ⟨-, ⟨err₂, rfl⟩, hm₂⟩ | ⟨-, -, ⟨position, rfl, hsome, hm₂⟩ | ⟨hnone, hnew⟩⟩
    · obtain ⟨-, rfl⟩ := Prod.mk.inj (Except.ok.inj hr₂)
      rw [hm₂]
      exact hnobody h₁
    · -- the thing has an entry
      subst hm₂
      obtain ⟨⟨o, m₃⟩, hconn, hr₃⟩ := bind_eq_ok.mp hr₂
      obtain ⟨-, rfl⟩ := Prod.mk.inj (Except.ok.inj hr₃)
      obtain ⟨hact, hmac⟩ := getPeer_eq_some hsome
      obtain ⟨j, hj, hor⟩ := h₁.slot position hact
      have hown : Owned m₂.radio j mac := hmac ▸ hor.resolve_right id
      have hfd : (m₂.peers position).socketFd = j + 1 := hj
      rw [hfd] at hconn
      obtain ⟨radio, hstep, rfl⟩ := Manager.hal_eq_ok.mp hconn
      exact connect_consistent (h₁.mono fun _ _ hl => hl.elim) hj hmac hstep (connect_owned hown hstep)
    · rcases newPeer_consistent h₁ hnone hnew with ⟨err₂, rfl, h₂⟩ | ⟨position, rfl, hjoin⟩
      · obtain ⟨-, rfl⟩ := Prod.mk.inj (Except.ok.inj hr₂)
        exact hnobody h₂
      · -- the thing has a new entry
        obtain ⟨⟨o, m₃⟩, hconn, hr₃⟩ := bind_eq_ok.mp hr₂
        obtain ⟨-, rfl⟩ := Prod.mk.inj (Except.ok.inj hr₃)
        obtain ⟨j, hj, hfresh⟩ := hjoin.slot
        rw [if_neg (by simpa [hnone] using herr), hpeer] at hsafe
        have hjoinSafe := hsafe _ rfl
        have hfd : (m₂.peers position).socketFd = j + 1 := hj
        rw [hfd] at hconn
        obtain ⟨radio, hstep, rfl⟩ := Manager.hal_eq_ok.mp hconn
        exact connect_consistent hjoin.consistent hj hjoin.mac hstep
          (connect_fresh hfresh (hjoinSafe.imp_right fun hs => ⟨hs.1, hs.2 j hj⟩) hstep)

end Presence

/-! ## Callbacks -/

section Callbacks
variable {m m' : Manager b} {e : DaemonEnv}

/-- An event that waits is the one that `mgmt_read` finds in its buffer. -/
theorem unread_buffer {s : Nrf b} {mac : Mac} {buffer : Buf 256} (h : unread s mac)
    (hbuf : buffer = e.buffer.write 0 (s.mgmt.bufferRx.read 0 (min s.mgmt.lenRx 256))) :
    buffer.get 1 &&& 0x02 ≠ 0 ∧ buffer.read 0 2 = Nrf24.evtDisconnected ∧ buffer.sub mgmtHdrLen 8 = mac := by
  have hlen : min s.mgmt.lenRx 256 = disconnectedLen := by rw [h.lenRx]; rfl
  rw [hlen] at hbuf
  have hread : ∀ k len, k + len ≤ disconnectedLen → buffer.read k len = s.mgmt.bufferRx.read k len := fun k len hk => by
    rw [hbuf]
    exact Buf.read_write_read _ _ hk (by decide) (by decide)
  have hop : buffer.read 0 2 = Nrf24.evtDisconnected := (hread 0 2 (by decide)).trans h.opcode
  refine ⟨?_, hop, ?_⟩
  · rw [Buf.get_of_read (show 1 < 2 by decide), hop]
    decide
  · rw [← h.mac]
    ext1
    simp only [Buf.sub]
    rw [hread mgmtHdrLen 8 (by decide)]

/-- Handling an event makes up for the thing that it concerns. -/
theorem mgmtEvent_consistent {lost : Mac → Prop} {buffer : Buf 256} {r : Int} (h : Consistent lost m)
    (hlost : ∀ mac, lost mac → buffer.get 1 &&& 0x02 ≠ 0 ∧ buffer.read 0 2 = Nrf24.evtDisconnected ∧
      buffer.sub mgmtHdrLen 8 = mac)
    (hsafe : buffer.get 1 &&& 0x02 ≠ 0 → buffer.read 0 2 = evtBcastPresence →
      ∀ n ∈ presenceNewcomer e buffer m, SafeJoin e n)
    (hr : m.mgmtEvent e buffer = .ok (r, m')) : Consistent (unread m'.radio) m' := by
  have hnobody : (∀ mac, ¬ lost mac) → Consistent nobody m := fun hno => h.mono fun _ _ hl => (hno _ hl).elim
  unfold Manager.mgmtEvent at hr
  split at hr
  · rename_i hdir
    obtain ⟨-, rfl⟩ := Prod.mk.inj (Except.ok.inj hr)
    exact h.mono fun _ _ hl => absurd hdir (hlost _ hl).1
  · rename_i hdir
    split at hr
    · rename_i hop
      obtain ⟨⟨r₁, m₁⟩, hpresence, hr₁⟩ := bind_eq_ok.mp hr
      obtain ⟨-, rfl⟩ := Prod.mk.inj (Except.ok.inj hr₁)
      refine evtPresence_consistent (hnobody fun mac hl => ?_) (hsafe hdir hop) hpresence
      exact absurd (hop.symm.trans (hlost mac hl).2.1) (by decide)
    · split at hr
      · obtain ⟨⟨r₁, m₁⟩, hdis, hr₁⟩ := bind_eq_ok.mp hr
        obtain ⟨-, rfl⟩ := Prod.mk.inj (Except.ok.inj hr₁)
        exact (evtDisconnected_consistent h (fun mac hl => (hlost mac hl).2.2.symm) hdis).2.mono fun _ _ hl => hl.elim
      · rename_i hop
        obtain ⟨-, rfl⟩ := Prod.mk.inj (Except.ok.inj hr)
        exact h.mono fun _ _ hl => absurd (hlost _ hl).2.1 hop

theorem mgmtRead_consistent {r : Int} (h : Consistent (unread m.radio) m) (hsafe : ∀ n ∈ newcomer e m, SafeJoin e n)
    (hr : m.mgmtRead e = .ok (r, m')) : Consistent (unread m'.radio) m' := by
  unfold Manager.mgmtRead at hr
  unfold newcomer at hsafe
  obtain ⟨⟨o, m₁⟩, hread, hr⟩ := bind_eq_ok.mp hr
  rw [hread] at hsafe
  dsimp only at hr hsafe
  rw [h.mgmtfd] at hread
  obtain ⟨radio, hstep, rfl⟩ := Manager.hal_eq_ok.mp hread
  obtain ⟨s₁, hc, hd, hp, hpeers, hempty, hdata⟩ := read_mgmt hstep
  have h₁ : Consistent (unread s₁) { m with
      radio := radio
      acts := m.acts ++ [.hal (.read 0 256, e.hal .mgmtRead) o] } := by
    refine h.same rfl rfl rfl (hd.trans hc.driverIndex) (hp.trans hc.mgmtPipe) fun j mac hor => ?_
    dsimp only
    rw [Owned, hpeers]
    rcases hor with hown | hun
    · exact hc.owned j mac hown
    · exact Or.inr (hc.event mac hun)
  split at hr
  · rename_i hneg
    obtain ⟨-, rfl⟩ := Prod.mk.inj (Except.ok.inj hr)
    have hnone : s₁.mgmt.lenRx = 0 := (hdata.resolve_right fun h => by omega).2
    exact h₁.mono fun _ _ hl => absurd (hl.lenRx.symm.trans hnone) (by decide)
  · rename_i hpos
    have hbuf := (hdata.resolve_left fun h => hpos h.1).2
    refine mgmtEvent_consistent h₁ (fun mac hl => unread_buffer hl (by rw [hbuf])) (fun hdir hop => ?_) hr
    rwa [if_neg (by simp [hpos, hdir, hop])] at hsafe

/-- Reading from a client concerns no other slot. -/
theorem clientRead_consistent {i : Fin maxPeers} (h : Consistent (unread m.radio) m)
    (hr : m.clientRead e i = .ok m') : Consistent (unread m'.radio) m' := by
  rcases Manager.clientRead_cases hr with rfl | ⟨hact, o, radio, sent, hstep, -, rfl⟩
  · exact h
  · obtain ⟨j, hj, -⟩ := h.slot i hact
    have hfd : (m.peers i).socketFd ≠ 0 := by
      rw [show (m.peers i).socketFd = j + 1 from hj]
      omega
    exact h.carries rfl rfl rfl (read_carries hfd hstep)

theorem clientsReadFrom_consistent {is : List (Fin maxPeers)} (h : Consistent (unread m.radio) m)
    (hr : m.clientsReadFrom e is = .ok m') : Consistent (unread m'.radio) m' := by
  induction is generalizing m with
  | nil =>
      cases hr
      exact h
  | cons i is ih =>
      obtain ⟨m₁, hclient, hrest⟩ := bind_eq_ok.mp hr
      exact ih (clientRead_consistent h hclient) hrest

theorem readIdle_consistent (h : Consistent (unread m.radio) m) (hsafe : ∀ n ∈ newcomer e m, SafeJoin e n)
    (hr : m.readIdle e = .ok m') : Consistent (unread m'.radio) m' := by
  obtain ⟨⟨r, m₁⟩, hmgmt, hr₁⟩ := bind_eq_ok.mp hr
  have h₁ := mgmtRead_consistent h hsafe hmgmt
  dsimp only at hr₁
  unfold Manager.clientsRead at hr₁
  split at hr₁
  · cases hr₁
    exact h₁
  · exact clientsReadFrom_consistent h₁ hr₁

/-- The watch of an entry writes to its slot, or the entry goes. -/
theorem watchReady_consistent {i : Fin maxPeers} (h : Consistent (unread m.radio) m)
    (hr : m.watchReady e i = .ok m') : Consistent (unread m'.radio) m' := by
  rcases Manager.watchReady_cases hr with ⟨-, rfl⟩ | ⟨hwatch, ⟨-, hremove⟩ | ⟨-, waiting, o, -, hwrite⟩⟩
  · exact h
  · obtain ⟨hm, -, -, h₁⟩ := removeWatch_consistent h ((h.watch i).mpr hwatch) hremove
    exact h₁.mono fun k _ hl => by rwa [unread, hm]
  · obtain ⟨radio, hstep, rfl⟩ := Manager.hal_eq_ok.mp hwrite
    exact h.carries rfl rfl rfl (write_carries hstep)

/-! ## Runs -/

theorem Consistent.untouched (h : Consistent (unread m.radio) m) (m' : Manager b) (hradio : m'.radio = m.radio)
    (hpeers : m'.peers = m.peers) (hcount : m'.countClients = m.countClients) (hfd : m'.mgmtfd = m.mgmtfd) :
    Consistent (unread m'.radio) m' :=
  h.carries hpeers hcount hfd (hradio ▸ Carries.refl _)

theorem step_consistent {ee : Event × DaemonEnv} {o : Out} (h : Consistent (unread m.radio) m) (hsafe : Safe ee m)
    (hr : step ee m = .ok (o, m')) : Consistent (unread m'.radio) m' := by
  obtain ⟨⟨response, m₁⟩, hdispatch, hr₁⟩ := bind_eq_ok.mp hr
  obtain ⟨-, rfl⟩ := Prod.mk.inj (Except.ok.inj hr₁)
  have h₀ := h.untouched { m with acts := [] } rfl rfl rfl rfl
  obtain ⟨event, e⟩ := ee
  cases event with
  | idle =>
      obtain ⟨m₂, hidle, hr₂⟩ := bind_eq_ok.mp hdispatch
      cases hr₂
      exact readIdle_consistent h₀ (hsafe rfl) hidle
  | knotd i =>
      obtain ⟨m₂, hwatch, hr₂⟩ := bind_eq_ok.mp hdispatch
      cases hr₂
      exact watchReady_consistent h₀ hwatch
  | request req =>
      obtain ⟨⟨res, a⟩, -, hr₂⟩ := bind_eq_ok.mp hdispatch
      cases hr₂
      exact h.untouched { m with adapter := a, acts := [] } rfl rfl rfl rfl
  | busAcquired =>
      obtain ⟨a, -, hr₂⟩ := bind_eq_ok.mp hdispatch
      cases hr₂
      exact h.untouched { m with adapter := a, acts := [] } rfl rfl rfl rfl
  | timeout =>
      cases hdispatch
      exact h.untouched (Manager.timeoutIterator e { m with acts := [] }) rfl rfl rfl rfl

end Callbacks

section Runs
variable {created : Bool} {file : KeysFile} {mac : Mac} {tcp : Bool} {err : Nat} {e₀ : Nrf24.Env} {m₀ m : Manager b}

theorem start_consistent (h : Manager.managerStart b created file mac tcp err e₀ = .ok (0, m₀)) :
    Consistent (unread m₀.radio) m₀ := by
  obtain ⟨-, hd, hp, hfd, -, hpeers⟩ := Manager.managerStart_started h
  have hfree : ∀ i, m₀.fds i = -1 := fun i => congrArg Peer.socketFd (hpeers i)
  have hclients := clients_start h
  exact ⟨hd, hp, hfd, fun i hi => absurd (hfree i) hi, fun i _ hi => absurd (hfree i) hi,
    fun i _ hi => absurd (hfree i) hi, hclients.count, hclients.watch⟩

/-- Every entry in use names an allocated slot with the address of the entry, or its DISCONNECTED event waits;
and no two name the same. -/
structure Agree (m : Manager b) : Prop where
  slot : ∀ k, (m.peers k).socketFd ≠ -1 → ∃ j : Fin b.connections, (m.peers k).socketFd = j + 1 ∧
    (((m.radio.peers j).pipe ≠ -1 ∧ (m.radio.peers j).mac = (m.peers k).mac) ∨
      Nrf.Disconnected (m.peers k).mac m.radio.mgmt)
  apart : ∀ k k', (m.peers k).socketFd ≠ -1 → (m.peers k).socketFd = (m.peers k').socketFd → k = k'

/-- Where every new peer is connected safely, the tables agree in every state between two callbacks. -/
theorem tables_agree (hstart : Manager.managerStart b created file mac tcp err e₀ = .ok (0, m₀))
    {is : List (Event × DaemonEnv)} {os : List Out} (hsafe : Along Safe step is m₀)
    (hrun : exec step is m₀ = .ok (os, m)) : Agree m := by
  have h : Consistent (unread m.radio) m := by
    refine exec_invariant (I := fun m => Consistent (unread m.radio) m) (fun ee m o m' h hs hr => ?_)
      (start_consistent hstart) hsafe hrun
    exact step_consistent h hs hr
  exact ⟨h.slot, h.fds⟩

end Runs

def presence (mac : Mac) : Pdu := ⟨0x01 :: (mac.bytes ++ [0]), by simp, by simp [mac.size, mtu]⟩

/-- An idle callback at time `t`; `heard` arrives on the radio, and knotd takes every connection. -/
def idling (t : Nat) (heard : HalSite → List Pdu) : Event × DaemonEnv :=
  (.idle, {
    hal := fun site => arriving t (heard site)
    buffer := Buf.zero 256
    clock := t
    clockAt := fun _ => t
    memory := true
    makeValid := some
    knotd := ⟨.ok 9, none, none⟩
    watch := ⟨1, by decide⟩
    hangup := false
    read := .normal []
    device := obliging
    ids := fun _ => 7 })

def shedMac : Mac := ⟨[0x03, 0x00, 0x00, 0x00, 0x00, 0x00, 0x00, 0x03], rfl⟩

/-- Three devices are known, and the radio can be opened. -/
def starting : Except Fault (Int × Manager .linux) :=
  Manager.managerStart .linux true (.keys [node lampMac, node doorMac, node shedMac]) gatewayMac false 0 (.still 0)

def announcing (t : Nat) (mac : Mac) : Event × DaemonEnv :=
  idling t fun | .mgmtRead => [presence mac] | _ => []

/-- A device announces itself and is connected. -/
theorem tables_agree_lamp :
    ∃ m₀ os m, starting = .ok (0, m₀) ∧ exec step [idling 0 fun _ => [], announcing 5 lampMac] m₀ = .ok (os, m) ∧
      (m.peers (0 : Fin 5)).mac = lampMac ∧ (m.peers (0 : Fin 5)).socketFd = 1 ∧ Agree m := by
  obtain ⟨m₀, hstart⟩ : ∃ m₀, starting = .ok (0, m₀) := ⟨_, rfl⟩
  have hsafe : Along Safe step [idling 0 fun _ => [], announcing 5 lampMac] m₀ := by
    cases hstart
    refine Along.cons (fun _ n hn => ?_) rfl (Along.cons (fun _ n hn => ?_) rfl trivial)
    · cases hn
    · cases hn
      refine Or.inr ⟨Or.inl rfl, fun j _ hexp => ?_⟩
      cases hexp.state
  obtain ⟨os, m, hrun, hmac, hfd⟩ : ∃ os m, exec step [idling 0 fun _ => [], announcing 5 lampMac] m₀ = .ok (os, m) ∧
      (m.peers (0 : Fin 5)).mac = lampMac ∧ (m.peers (0 : Fin 5)).socketFd = 1 := by
    cases hstart
    exact ⟨_, _, rfl, rfl, rfl⟩
  exact ⟨m₀, os, m, hstart, hrun, hmac, hfd, tables_agree hstart hsafe hrun⟩

/-- Two devices announce themselves: the second one while the first is connected, in a pass that ends the time on
the management channel, so that the first request still waits when the second device is to be connected. -/
def overlapping : List (Event × DaemonEnv) :=
  [idling 0 fun _ => [], idling 100 fun | .mgmtRead => [presence lampMac] | .connect => [presence doorMac] | _ => [],
    idling 100 fun _ => []]

/-- Later the slot of the second device expires, and a third device announces itself. -/
def replacing : List (Event × DaemonEnv) :=
  [idling 7505 fun _ => [], idling 7520 fun _ => [], idling 7520 fun _ => [], idling 7540 fun _ => [],
    announcing 7540 shedMac]

/-- The second device has an entry, but its slot has no address and no event waits; later a third device gets the
same slot, and both entries name it. -/
theorem overlapping_disagrees :
    ∃ m₀ os m os' m', starting = .ok (0, m₀) ∧ exec step overlapping m₀ = .ok (os, m) ∧
      (m.peers (1 : Fin 5)).mac = doorMac ∧ (m.peers (1 : Fin 5)).socketFd = 2 ∧
      (m.radio.peers (1 : Fin 5)).mac = noMac ∧ ¬ Agree m ∧ exec step replacing m = .ok (os', m') ∧
      (m'.peers (1 : Fin 5)).socketFd = 2 ∧ (m'.peers (2 : Fin 5)).socketFd = 2 := by
  obtain ⟨m₀, hstart⟩ : ∃ m₀, starting = .ok (0, m₀) := ⟨_, rfl⟩
  obtain ⟨os, m, hrun, hmac, hfd, hslot, hread, os', m', hrun', hfd₁, hfd₂⟩ :
      ∃ os m, exec step overlapping m₀ = .ok (os, m) ∧ (m.peers (1 : Fin 5)).mac = doorMac ∧
        (m.peers (1 : Fin 5)).socketFd = 2 ∧ (m.radio.peers (1 : Fin 5)).mac = noMac ∧ m.radio.mgmt.lenRx = 0 ∧
        ∃ os' m', exec step replacing m = .ok (os', m') ∧ (m'.peers (1 : Fin 5)).socketFd = 2 ∧
          (m'.peers (2 : Fin 5)).socketFd = 2 := by
    cases hstart
    exact ⟨_, _, rfl, rfl, rfl, rfl, rfl, _, _, rfl, rfl, rfl⟩
  refine ⟨m₀, os, m, os', m', hstart, hrun, hmac, hfd, hslot, fun hagree => ?_, hrun', hfd₁, hfd₂⟩
  obtain ⟨j, hj, ⟨-, hown⟩ | hdis⟩ := hagree.slot (1 : Fin 5) (by rw [hfd]; decide)
  · rw [hfd] at hj
    obtain rfl : j = (1 : Fin 5) := Fin.ext (show j.val = 1 by omega)
    rw [hslot, hmac] at hown
    exact absurd hown (by decide)
  · exact absurd (hdis.lenRx.symm.trans hread) (by decide)

end KnotHal.Nrfd
