import KnotHal.Nrfd.Clients

/-!
# The published status

The flag `status` of a known device is a D-Bus property that tells whether the device is connected. It is set when
the device gets an entry among the peers, cleared when the device is added, and not touched when the entry goes.

* `Truthful` : the flag of every known device is right;
* `truthful_free`, `truthful_join`, `truthful_added` : which changes keep it so;
* `status_throughout_iff` : exactly the runs in which it is right throughout.
-/

namespace KnotHal.Nrfd

open Machine Slots Nrf24

variable {b : Build}

/-! ## The flag and the fact -/

def Connected (t : Tables) (mac : Mac) : Prop := ∃ i, t.fds i ≠ -1 ∧ t.macs i = mac

def Adapter.statuses (a : Adapter) (k : Fin maxPeers) : Bool := (a.knownPeers k).status

/-- The flag of every known device tells whether it is connected. -/
def Truthful (t : Tables) : Prop :=
  ∀ k, t.adapter.addr k ≠ noMac → (t.adapter.statuses k = true ↔ Connected t (t.adapter.addr k))

/-! ## Peers -/

section Peers
variable {t t' : Tables} {i : Fin maxPeers} {a : Applicant} {mac : Mac}

theorem connected_free (hclients : Clients t) (hi : t.fds i ≠ -1) :
    Connected (t.free i) mac ↔ Connected t mac ∧ t.macs i ≠ mac := by
  unfold Connected
  rw [fds_free, macs_free]
  constructor
  · rintro ⟨j, hj, hmac⟩
    have hji : j ≠ i := fun hji => hj (by rw [hji, Function.update_self])
    rw [Function.update_of_ne hji] at hj
    exact ⟨⟨j, hj, hmac⟩, fun hi' => hji (hclients.macs hj hi (hmac.trans hi'.symm))⟩
  · rintro ⟨⟨j, hj, hmac⟩, hi'⟩
    have hji : j ≠ i := fun hji => hi' (hji ▸ hmac)
    exact ⟨j, by rwa [Function.update_of_ne hji], hmac⟩

theorem connected_join (hfree : t.fds a.position = -1) (hnsk : int8 a.nsk ≠ -1) (sock : Int) (watch : Nat) :
    Connected (t.join a sock watch) mac ↔ Connected t mac ∨ mac = a.mac := by
  unfold Connected
  rw [fds_join, macs_join]
  constructor
  · rintro ⟨j, hj, hmac⟩
    by_cases hja : j = a.position
    · rw [hja, Function.update_self] at hmac
      exact Or.inr hmac.symm
    · rw [Function.update_of_ne hja] at hj hmac
      exact Or.inl ⟨j, hj, hmac⟩
  · rintro (⟨j, hj, hmac⟩ | rfl)
    · have hja : j ≠ a.position := fun hja => hj (hja ▸ hfree)
      exact ⟨j, by rwa [Function.update_of_ne hja], by rwa [Function.update_of_ne hja]⟩
    · exact ⟨a.position, by rwa [Function.update_self], by rw [Function.update_self]⟩

theorem truthful_free (hclients : Clients t) (hi : t.fds i ≠ -1) (h : Truthful t) :
    Truthful (t.free i) ↔ t.macs i = noMac ∨ ∀ k, t.adapter.addr k ≠ t.macs i := by
  constructor
  · intro hfree
    by_contra hno
    obtain ⟨hne, k, hk⟩ : t.macs i ≠ noMac ∧ ∃ k, t.adapter.addr k = t.macs i := by simpa using hno
    have hset : t.adapter.statuses k = true := (h k (hk ▸ hne)).mpr ⟨i, hi, hk.symm⟩
    have hgone := (connected_free hclients hi).mp ((hfree k (hk ▸ hne)).mp hset)
    exact hgone.2 hk.symm
  · intro hsafe k hk
    rw [connected_free hclients hi]
    refine (h k hk).trans (iff_self_and.mpr fun _ hmac => ?_)
    rcases hsafe with hno | hother
    · exact hk (hmac.symm.trans hno)
    · exact hother k hmac.symm

/-- `evt_presence` sets the flag of the first known device with the address. -/
theorem setStatus_cases (mac : Mac) (a : Adapter) :
    ((∀ k, a.addr k ≠ mac) ∧ Manager.setStatus mac a = a) ∨ ∃ k, a.addr k = mac ∧
      (Manager.setStatus mac a).statuses = Function.update a.statuses k true := by
  unfold Manager.setStatus
  cases hfind : (List.finRange maxPeers).find? fun i => mac = a.addr i with
  | none =>
      refine Or.inl ⟨fun k hk => ?_, rfl⟩
      have := List.find?_eq_none.mp hfind k (List.mem_finRange k)
      exact this (by simpa using hk.symm)
  | some k =>
      have hk : mac = a.addr k := of_decide_eq_true (find_finRange hfind).1
      refine Or.inr ⟨k, hk.symm, ?_⟩
      funext j
      by_cases hj : j = k
      · subst hj; simp [Adapter.statuses, Adapter.setKnown]
      · simp [Adapter.statuses, Adapter.setKnown, hj]

/-- Of several known devices with the address of the new peer, one gets the flag. -/
theorem truthful_join (h : Truthful t) (hfree : t.fds a.position = -1) (hnew : ∀ i, t.fds i ≠ -1 → t.macs i ≠ a.mac)
    (hnsk : int8 a.nsk ≠ -1) (sock : Int) (watch : Nat) :
    Truthful (t.join a sock watch) ↔
      a.mac = noMac ∨ ∀ k k', t.adapter.addr k = a.mac → t.adapter.addr k' = a.mac → k = k' := by
  have haddr : (t.join a sock watch).adapter.addr = t.adapter.addr := addr_setStatus a.mac t.adapter
  have hfresh : ∀ k, t.adapter.addr k ≠ noMac → t.adapter.addr k = a.mac → t.adapter.statuses k = false := by
    intro k hk hmac
    apply Bool.eq_false_iff.mpr
    intro hset
    obtain ⟨i, hi, hi'⟩ := (h k hk).mp hset
    exact hnew i hi (hi'.trans hmac)
  -- elsewhere the flags and the facts are as before
  have hother : ∀ k, t.adapter.addr k ≠ a.mac → t.adapter.addr k ≠ noMac →
      (t.adapter.statuses k = true ↔ Connected (t.join a sock watch) (t.adapter.addr k)) := by
    intro k hne hk
    rw [connected_join hfree hnsk, or_iff_left hne]
    exact h k hk
  unfold Truthful
  rw [haddr]
  show (∀ k, _ → ((Manager.setStatus a.mac t.adapter).statuses k = true ↔ _)) ↔ _
  rcases setStatus_cases a.mac t.adapter with ⟨hunknown, hsame⟩ | ⟨k₀, hk₀, hstatuses⟩
  · rw [hsame]
    refine iff_of_true (fun k hk => hother k (hunknown k) hk) (Or.inr fun k k' hk _ => absurd hk (hunknown k))
  · rw [hstatuses]
    constructor
    · intro hall
      by_cases hno : a.mac = noMac
      · exact Or.inl hno
      · have honly : ∀ k, t.adapter.addr k = a.mac → k = k₀ := by
          intro k hk
          by_contra hne
          have hkno : t.adapter.addr k ≠ noMac := fun h0 => hno (hk.symm.trans h0)
          have hset := (hall k hkno).mpr ((connected_join hfree hnsk sock watch).mpr (Or.inr hk))
          rw [Function.update_of_ne hne, hfresh k hkno hk] at hset
          cases hset
        exact Or.inr fun k k' hk hk' => (honly k hk).trans (honly k' hk').symm
    · intro hsafe k hk
      by_cases hmac : t.adapter.addr k = a.mac
      · have honly : k = k₀ := by
          rcases hsafe with hno | hone
          · exact absurd (hmac.trans hno) hk
          · exact hone k k₀ hmac hk₀
        rw [honly, Function.update_self, hk₀]
        exact iff_of_true rfl ((connected_join hfree hnsk sock watch).mpr (Or.inr rfl))
      · have hne : k ≠ k₀ := fun hne => hmac (hne ▸ hk₀)
        rw [Function.update_of_ne hne]
        exact hother k hmac hk

end Peers

/-! ## Devices -/

def newDevice (e : DeviceEnv) (mac : Text) (a : Adapter) : Option Mac :=
  (nrf24Str2mac mac).bind fun newDev =>
    match scanKnown newDev a.knownPeersSize a.addr (List.finRange maxPeers) 0 none with
    | .ok (.absent _) => if a.knownPeersSize < maxPeers ∧ e.register ≠ 0 then some newDev else none
    | .ok .found | .error _ => none

section Devices
variable {e : DeviceEnv} {a a' : Adapter} {t : Tables} {mac key name : Text} {r : Bool}

/-- AddDevice leaves the devices alone, or writes one entry, which is not connected yet. -/
theorem addKnownDevice_writes (h : a.addKnownDevice e mac key name = .ok (r, a')) :
    (newDevice e mac a = none ∧ a'.knownPeers = a.knownPeers) ∨ ∃ dev pos, newDevice e mac a = some dev ∧
      a'.knownPeers = Function.update a.knownPeers pos ⟨dev, e.register, some name, false⟩ := by
  unfold Adapter.addKnownDevice at h
  unfold newDevice
  split at h
  · rename_i hmac
    obtain ⟨-, rfl⟩ := Prod.mk.inj (Except.ok.inj h)
    exact Or.inl ⟨by rw [hmac]; rfl, rfl⟩
  · rename_i newDev hmac
    obtain ⟨scan, hscan, h₁⟩ := bind_eq_ok.mp h
    rw [hmac, Option.bind_some, hscan]
    cases scan with
    | found =>
        obtain ⟨-, rfl⟩ := Prod.mk.inj (Except.ok.inj h₁)
        exact Or.inl ⟨rfl, (Adapter.sameTable_writeFile ..).knownPeers⟩
    | absent freePos =>
        dsimp only at h₁ ⊢
        split at h₁
        · rename_i hroom
          split at h₁
          · cases h₁
          · rename_i pos
            unfold Adapter.newDeviceObject at h₁
            by_cases hreg : e.register = 0
            · rw [if_pos hreg] at h₁
              obtain ⟨-, rfl⟩ := Prod.mk.inj (Except.ok.inj h₁)
              exact Or.inl ⟨if_neg fun hall => hall.2 hreg, rfl⟩
            · rw [if_neg hreg] at h₁
              obtain ⟨-, rfl⟩ := Prod.mk.inj (Except.ok.inj h₁)
              refine Or.inr ⟨newDev, pos, if_pos ⟨hroom, hreg⟩, ?_⟩
              dsimp only
              rw [(Adapter.sameTable_writeFile ..).knownPeers]
              simp [Adapter.setKnown]
        · rename_i hfull
          obtain ⟨-, rfl⟩ := Prod.mk.inj (Except.ok.inj h₁)
          exact Or.inl ⟨if_neg fun hall => hfull hall.1, rfl⟩

/-- RemoveDevice leaves the devices alone, or clears the address of an entry. -/
theorem removeKnownDevice_writes (h : a.removeKnownDevice e mac = (r, a')) :
    a'.knownPeers = a.knownPeers ∨ ∃ i k, k.addr = noMac ∧ a'.knownPeers = Function.update a.knownPeers i k := by
  cases hmac : nrf24Str2mac mac with
  | none =>
      simp only [Adapter.removeKnownDevice, hmac] at h
      obtain ⟨-, rfl⟩ := Prod.mk.inj h
      exact Or.inl rfl
  | some dev =>
      obtain ⟨r', a'', hr, hremoved⟩ := Adapter.removeKnownDevice_spec hmac e a
      rw [hr] at h
      obtain ⟨rfl, rfl⟩ := Prod.mk.inj h
      cases hremoved with
      | unknown none => exact Or.inl rfl
      | kept i eq first registered => exact Or.inl rfl
      | removed i eq first unregistered known size => exact Or.inr ⟨i, _, rfl, known⟩

theorem statuses_of_update {i : Fin maxPeers} {k : KnownPeer}
    (h : a'.knownPeers = Function.update a.knownPeers i k) :
    a'.statuses = Function.update a.statuses i k.status := by
  funext j
  unfold Adapter.statuses
  rw [h]
  by_cases hj : j = i
  · subst hj
    rw [Function.update_self, Function.update_self]
  · rw [Function.update_of_ne hj, Function.update_of_ne hj]

theorem Truthful.same (h : Truthful t) (haddr : a'.addr = t.adapter.addr) (hstatus : a'.statuses = t.adapter.statuses) :
    Truthful { t with adapter := a' } := by
  intro k hk
  dsimp only at hk ⊢
  rw [haddr] at hk ⊢
  rw [hstatus]
  exact h k hk

theorem Truthful.same_known (h : Truthful t) (hknown : a'.knownPeers = t.adapter.knownPeers) :
    Truthful { t with adapter := a' } := by
  apply h.same
  · funext k
    simp only [Adapter.addr, hknown]
  · funext k
    simp only [Adapter.statuses, hknown]

theorem truthful_added {dev : Mac} {pos : Fin maxPeers} {id : Nat} {name? : Option Text} (h : Truthful t)
    (hknown : a'.knownPeers = Function.update t.adapter.knownPeers pos ⟨dev, id, name?, false⟩) :
    Truthful { t with adapter := a' } ↔ dev = noMac ∨ ¬ Connected t dev := by
  have haddr := Adapter.addr_of_update hknown
  have hstatus := statuses_of_update hknown
  constructor
  · intro hall
    by_cases hdev : dev = noMac
    · exact Or.inl hdev
    · have hpos := hall pos
      dsimp only at hpos
      rw [haddr, hstatus, Function.update_self, Function.update_self] at hpos
      exact Or.inr fun hconn => Bool.false_ne_true ((hpos hdev).mpr hconn)
  · intro hsafe k hk
    dsimp only at hk ⊢
    rw [haddr] at hk ⊢
    rw [hstatus]
    by_cases hkp : k = pos
    · subst hkp
      rw [Function.update_self] at hk ⊢
      rw [Function.update_self]
      exact iff_of_false Bool.false_ne_true (hsafe.resolve_left hk)
    · rw [Function.update_of_ne hkp] at hk ⊢
      rw [Function.update_of_ne hkp]
      exact h k hk

theorem truthful_removed {i : Fin maxPeers} {k : KnownPeer} (h : Truthful t) (hk : k.addr = noMac)
    (hknown : a'.knownPeers = Function.update t.adapter.knownPeers i k) : Truthful { t with adapter := a' } := by
  intro j hj
  dsimp only at hj ⊢
  rw [Adapter.addr_of_update hknown] at hj ⊢
  rw [statuses_of_update hknown]
  have hji : j ≠ i := fun hji => hj (by rw [hji, Function.update_self, hk])
  rw [Function.update_of_ne hji] at hj ⊢
  rw [Function.update_of_ne hji]
  exact h j hj

theorem truthful_request {req : Request} (h : Truthful t) (hstep : Adapter.step (req, e) t.adapter = .ok (r, a')) :
    Truthful { t with adapter := a' } ↔ ∀ mac key name, req = .addDevice mac key name →
      ∀ dev, newDevice e mac t.adapter = some dev → dev = noMac ∨ ∀ i, t.fds i ≠ -1 → t.macs i ≠ dev := by
  cases req with
  | addDevice mac key name =>
      rcases addKnownDevice_writes hstep with ⟨hnone, hsame⟩ | ⟨dev, pos, hnew, hknown⟩
      · refine iff_of_true (h.same_known hsame) fun mac' key' name' heq dev hdev => ?_
        cases heq
        rw [hnone] at hdev
        cases hdev
      · rw [truthful_added h hknown]
        constructor
        · intro hor mac' key' name' heq dev' hdev'
          cases heq
          rw [hnew] at hdev'
          cases hdev'
          exact hor.imp_right fun hno i hi hmac => hno ⟨i, hi, hmac⟩
        · intro hadd
          apply (hadd mac key name rfl dev hnew).imp_right
          rintro hno ⟨i, hi, hmac⟩
          exact hno i hi hmac
  | removeDevice mac =>
      refine iff_of_true ?_ fun _ _ _ heq => by cases heq
      rcases removeKnownDevice_writes (Except.ok.inj hstep) with hsame | ⟨i, k, hk, hknown⟩
      · exact h.same_known hsame
      · exact truthful_removed h hk hknown

theorem registerFrom_statuses {ids : Nat → Nat} {left j k : Nat} (h : Adapter.registerFrom ids left j k a = .ok a') :
    a'.statuses = a.statuses := by
  apply registerFrom_keeps (I := fun x => x.statuses = a.statuses) _ rfl h
  intro x i id hx
  have hset : (x.setKnown i { x.knownPeers i with registrationId := id }).statuses =
      Function.update x.statuses i (x.statuses i) :=
    statuses_of_update (k := { x.knownPeers i with registrationId := id }) rfl
  rw [hset, Function.update_eq_self, hx]

end Devices

/-! ## Runs -/

/-- A turn frees no entry of a known device, gives no entry to a thing that is stored as several devices, and adds no
device that is connected. -/
structure KeepsStatus (ee : Event × DaemonEnv) (m : Manager b) : Prop where
  leave : ∀ i, leaver ee m = some i → (m.peers i).mac = noMac ∨ ∀ k, m.adapter.addr k ≠ (m.peers i).mac
  join : ∀ a, applicant ee m = some a → 0 ≤ (Manager.knock m.tcp ee.2.knotd).1 →
    a.mac = noMac ∨ ∀ k k', m.adapter.addr k = a.mac → m.adapter.addr k' = a.mac → k = k'
  add : ∀ mac key name, ee.1 = .request (.addDevice mac key name) →
    ∀ dev, newDevice ee.2.device mac m.adapter = some dev →
      dev = noMac ∨ ∀ i, (m.peers i).socketFd ≠ -1 → (m.peers i).mac ≠ dev

section Runs
variable {created : Bool} {file : KeysFile} {mac : Mac} {tcp : Bool} {err : Nat} {e₀ : Nrf24.Env} {m₀ m m' : Manager b}

theorem truthful_effect {e : DaemonEnv} {t t' : Tables} {leave : Option (Fin maxPeers)} {apply : Option Applicant}
    {acts : List Act} (hclients : Clients t) (h : Truthful t) (heffect : Effect e tcp t leave apply acts t') :
    Truthful t' ↔ (∀ i, leave = some i → t.macs i = noMac ∨ ∀ k, t.adapter.addr k ≠ t.macs i) ∧
      ∀ a, apply = some a → 0 ≤ (Manager.knock tcp e.knotd).1 →
        a.mac = noMac ∨ ∀ k k', t.adapter.addr k = a.mac → t.adapter.addr k' = a.mac → k = k' := by
  cases heffect with
  | kept => exact iff_of_true h ⟨by simp, by simp⟩
  | left i watch =>
      rw [truthful_free hclients ((hclients.watch i).mpr watch) h]
      simp
  | refused a sock =>
      refine iff_of_true h ⟨by simp, fun a' _ hpos => ?_⟩
      exact absurd sock (not_lt.mpr hpos)
  | joined a sock free new room pos le =>
      have hnsk : int8 a.nsk ≠ -1 := by
        rw [int8_nsk pos le]
        omega
      rw [truthful_join h free new hnsk]
      simp [sock]

theorem truthful_step {ee : Event × DaemonEnv} {o : Out} (hclients : Clients m.tables) (h : Truthful m.tables)
    (hr : step ee m = .ok (o, m')) : Truthful m'.tables ↔ KeepsStatus ee m := by
  obtain ⟨a, hadmin, heffect⟩ := (step_turned hr).tables
  obtain ⟨event, e⟩ := ee
  -- a turn about the devices does nothing else
  have hidle : leaver (event, e) m = none → applicant (event, e) m = none →
      (Truthful m'.tables ↔ Truthful { m.tables with adapter := a }) := by
    intro hleave happly
    rw [hleave, happly] at heffect
    rw [(Effect.kept_iff.mp heffect).2]
  cases hadmin with
  | answered req hevent r hstep =>
      cases hevent
      rw [hidle rfl rfl]
      rw [truthful_request h hstep]
      constructor
      · intro hadd
        refine ⟨fun i hi => ?_, fun a ha => ?_, fun mac key name heq => hadd mac key name (Event.request.inj heq)⟩
        · cases hi
        · cases ha
      · intro hkeeps mac key name heq
        exact hkeeps.add mac key name (congrArg Event.request heq)
  | acquired hevent bus =>
      cases hevent
      rw [hidle rfl rfl]
      refine iff_of_true (h.same (registerFrom_same bus).1 (registerFrom_statuses bus)) ?_
      refine ⟨fun i hi => ?_, fun a ha => ?_, fun mac key name heq => ?_⟩
      · cases hi
      · cases ha
      · cases heq
  | none hevent =>
      rw [truthful_effect hclients h heffect]
      constructor
      · rintro ⟨hleave, hjoin⟩
        exact ⟨hleave, hjoin, fun _ _ _ heq => absurd heq (hevent _)⟩
      · intro hkeeps
        exact ⟨hkeeps.leave, hkeeps.join⟩

/-- Where `parse_nodes` loads a device, its flag is clear. -/
theorem parseNodesFrom_statuses {ps : List (Fin maxPeers × Node)} {a a' : Adapter}
    (h : Adapter.parseNodesFrom ps a = .ok (0, a')) (ha : ∀ k, a.statuses k = false) (k : Fin maxPeers) :
    a'.statuses k = false := by
  induction ps generalizing a with
  | nil =>
      cases h
      exact ha k
  | cons p ps ih =>
      obtain ⟨i, n⟩ := p
      unfold Adapter.parseNodesFrom at h
      split at h
      · cases h
      · cases h
      · split at h
        · cases h
        · dsimp only at h
          split at h
          · cases h
          · refine ih h fun j => ?_
            by_cases hj : j = i
            · subst hj; simp [Adapter.statuses, Adapter.setKnown]
            · simp only [Adapter.statuses, Adapter.setKnown, Function.update_of_ne hj]
              exact ha j

theorem parseNodes_statuses {a : Adapter} (h : Adapter.parseNodes created file = .ok (0, a)) (k : Fin maxPeers) :
    a.statuses k = false := by
  cases file with
  | keys nodes => exact parseNodesFrom_statuses h (fun _ => rfl) k
  | unreadable =>
      cases created <;> cases h
      rfl
  | noKeys =>
      cases created <;> cases h
      rfl

theorem truthful_start (h : Manager.managerStart b created file mac tcp err e₀ = .ok (0, m)) : Truthful m.tables := by
  obtain ⟨hparse, -, -, -, -, hpeers⟩ := Manager.managerStart_started h
  intro k _
  refine iff_of_false (fun hset => ?_) ?_
  · exact Bool.false_ne_true ((parseNodes_statuses hparse k).symm.trans hset)
  · rintro ⟨i, hi, -⟩
    exact hi (congrArg Peer.socketFd (hpeers i))

/-- In every run, the flag of every known device tells whether some entry in use has its address, in every state
between two callbacks, exactly when no entry of a known device is freed, no thing that is stored as several devices
gets an entry, and no device is added that is connected. -/
theorem status_throughout_iff (hstart : Manager.managerStart b created file mac tcp err e₀ = .ok (0, m₀))
    {is : List (Event × DaemonEnv)} {os : List Out} (hrun : exec step is m₀ = .ok (os, m)) :
    (∀ js os₁ t, js <+: is → exec step js m₀ = .ok (os₁, t) → ∀ k, t.adapter.addr k ≠ noMac →
      ((t.adapter.knownPeers k).status = true ↔
        ∃ i, (t.peers i).socketFd ≠ -1 ∧ (t.peers i).mac = t.adapter.addr k)) ↔
      Along KeepsStatus step is m₀ :=
  exec_throughout_iff (I := fun m : Manager b => Clients m.tables) (Q := fun m => Truthful m.tables)
    (fun _ _ _ _ hm h => clients_step hm h) (fun _ _ _ _ hm h hr => truthful_step hm h hr) (clients_start hstart)
    (truthful_start hstart) hrun

end Runs

/-- A device announces itself and is connected. -/
theorem status_throughout_lamp :
    ∃ m₀ os m, starting = .ok (0, m₀) ∧ exec step [idling 0 fun _ => [], announcing 5 lampMac] m₀ = .ok (os, m) ∧
      ((m.adapter.knownPeers (0 : Fin 5)).status = true ↔
        ∃ i, (m.peers i).socketFd ≠ -1 ∧ (m.peers i).mac = m.adapter.addr (0 : Fin 5)) ∧
      (m.adapter.knownPeers (0 : Fin 5)).status = true := by
  obtain ⟨m₀, hstart⟩ : ∃ m₀, starting = .ok (0, m₀) := ⟨_, rfl⟩
  have hkeeps : Along KeepsStatus step [idling 0 fun _ => [], announcing 5 lampMac] m₀ := by
    cases hstart
    refine Along.cons ⟨fun i hi => ?_, fun a ha => ?_, fun _ _ _ heq => ?_⟩ rfl
      (Along.cons ⟨fun i hi => ?_, fun a ha _ => Or.inr ?_, fun _ _ _ heq => ?_⟩ rfl trivial)
    · cases hi
    · cases ha
    · cases heq
    · cases hi
    · cases ha
      decide
    · cases heq
  obtain ⟨os, m, hrun, haddr, hset⟩ : ∃ os m,
      exec step [idling 0 fun _ => [], announcing 5 lampMac] m₀ = .ok (os, m) ∧ m.adapter.addr (0 : Fin 5) = lampMac ∧
        (m.adapter.knownPeers (0 : Fin 5)).status = true := by
    cases hstart
    exact ⟨_, _, rfl, rfl, rfl⟩
  have htrue := (status_throughout_iff hstart hrun).mpr hkeeps _ os m (List.prefix_refl _) hrun
  refine ⟨m₀, os, m, hstart, hrun, htrue (0 : Fin 5) ?_, hset⟩
  rw [haddr]
  decide

/-- A device is connected, and knotd hangs up: the flag stays TRUE. And a device that is connected is removed and added
again: the flag is FALSE. -/
theorem status_lies :
    ∃ m₀ os m, starting = .ok (0, m₀) ∧ exec step [idling 0 fun _ => [], announcing 5 lampMac] m₀ = .ok (os, m) ∧
      (∃ os' m', exec step [(.knotd (0 : Fin 5), { (idling 8 fun _ => []).2 with hangup := true })] m = .ok (os', m') ∧
        m'.adapter.addr (0 : Fin 5) = lampMac ∧ (m'.adapter.knownPeers (0 : Fin 5)).status = true ∧
        m'.countClients = 0) ∧
      ∃ os' m', exec step [served .busAcquired, served (.request (.removeDevice (nrf24Mac2str lampMac))),
          served (.request (.addDevice (nrf24Mac2str lampMac) [] []))] m = .ok (os', m') ∧
        m'.adapter.addr (0 : Fin 5) = lampMac ∧ (m'.adapter.knownPeers (0 : Fin 5)).status = false ∧
        (m'.peers (0 : Fin 5)).socketFd = 1 ∧ (m'.peers (0 : Fin 5)).mac = lampMac :=
  ⟨_, _, _, rfl, rfl, ⟨_, _, rfl, rfl, rfl, rfl⟩, _, _, rfl, rfl, rfl, rfl, rfl⟩

end KnotHal.Nrfd
