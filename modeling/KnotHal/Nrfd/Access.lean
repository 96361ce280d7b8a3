import KnotHal.Nrfd.Agreement

/-!
# Access control

Which things may connect: those in the keys file, those that AddDevice added, without those that
RemoveDevice removed. The table of known devices stands for this set as long as no address is stored
twice and the address that marks the free entries is none of the devices.

* `authorized` : the set, from the keys file and the requests answered so far;
* `step_grants` : a request does to the table what its response says;
* `evtPresence_opens` : a presence event opens sockets for a thing with permission only;
* `access_controlled` : `check_permission` is right about every address that is not the marker.
-/

namespace KnotHal.Nrfd

open Machine Slots Nrf24

variable {b : Build}

/-! ## The authorized things -/

/-- What a response says about the set of devices. -/
def granted (devices : Set Mac) : Request → Bool → Set Mac
  | .addDevice mac _ _, true => devices ∪ {dev | nrf24Str2mac mac = some dev}
  | .removeDevice mac, true => devices \ {dev | nrf24Str2mac mac = some dev}
  | _, false => devices

def recorded (devices : Set Mac) : (Event × DaemonEnv) × Out → Set Mac
  | ((.request req, _), ⟨some response, _⟩) => granted devices req response
  | _ => devices

def KeysFile.devices (file : KeysFile) : Set Mac := {dev | ∃ n ∈ file.loaded, n.addr? = some dev}

/-- The devices that were loaded or added, and not removed since. -/
def authorized (file : KeysFile) (past : List ((Event × DaemonEnv) × Out)) : Set Mac :=
  past.foldl recorded file.devices

theorem authorized_snoc (file : KeysFile) (past : List ((Event × DaemonEnv) × Out))
    (io : (Event × DaemonEnv) × Out) : authorized file (past ++ [io]) = recorded (authorized file past) io := by
  rw [authorized, List.foldl_append]
  rfl

/-! ## Requests -/

/-- A request that is not answered TRUE for the marker, and does not remove one of two entries with the same
address. -/
def Distinct (re : Request × DeviceEnv) (a : Adapter) : Prop :=
  match re.1 with
  | .addDevice mac _ _ => nrf24Str2mac mac = some noMac →
      (∀ i, a.addr i ≠ noMac) ∨ ¬ Hole a.addr (List.finRange maxPeers) ∧ re.2.register = 0
  | .removeDevice mac => ∀ dev i, nrf24Str2mac mac = some dev → a.addr i = dev → (∀ j < i, a.addr j ≠ dev) →
      (dev ≠ noMac ∧ ∀ j, a.addr j = dev → j = i) ∨ re.2.unregister (a.knownPeers i).registrationId = false

/-- The counter is right, and the table stands for the set. -/
structure Holds (devices : Set Mac) (a : Adapter) : Prop where
  counted : a.Counted
  contents : contents noMac a.addr = devices

section Requests
variable {devices : Set Mac} {a a' : Adapter} {e : DeviceEnv} {r : Bool} {mac key name : Text} {dev newDev : Mac}

theorem Holds.same (h : Holds devices a) (haddr : a'.addr = a.addr)
    (hsize : a'.knownPeersSize = a.knownPeersSize) : Holds devices a' := by
  constructor
  · rw [Adapter.Counted, haddr, hsize]
    exact h.counted
  · rw [haddr]
    exact h.contents

theorem Holds.mem (h : Holds devices a) : dev ∈ devices ↔ dev ≠ noMac ∧ ∃ i, a.addr i = dev := by
  rw [← h.contents]
  exact mem_contents

theorem singleton_of_str2mac (hmac : nrf24Str2mac mac = some dev) : {d | nrf24Str2mac mac = some d} = {dev} := by
  ext d
  rw [hmac, Set.mem_ofPred_eq, Option.some.injEq, Set.mem_singleton_iff]
  exact eq_comm

theorem addDevice_grants (h : Holds devices a) (hdistinct : Distinct (.addDevice mac key name, e) a)
    (hr : a.addKnownDevice e mac key name = .ok (r, a')) :
    Holds (granted devices (.addDevice mac key name) r) a' := by
  cases hmac : nrf24Str2mac mac with
  | none =>
      simp only [Adapter.addKnownDevice, hmac] at hr
      cases hr
      exact h
  | some newDev =>
      obtain ⟨r', a'', hr', hadded⟩ := Adapter.addKnownDevice_spec h.counted hmac e key name
      rw [hr'] at hr
      cases hr
      have hno : newDev = noMac →
          (∀ i, a.addr i ≠ noMac) ∨ ¬ Hole a.addr (List.finRange maxPeers) ∧ e.register = 0 := by
        intro hno
        apply hdistinct
        rw [hmac, hno]
      have hcounted : a'.Counted := by
        apply (hadded.counted_iff h.counted).mpr
        intro heq
        exact Or.inr ((hno heq).imp_right And.right)
      refine ⟨hcounted, ?_⟩
      cases hadded with
      | known i eq hole same =>
          have hne : newDev ≠ noMac := by
            intro heq
            rcases hno heq with hfull | ⟨hnoHole, -⟩
            · exact hfull i (eq.trans heq)
            · exact hnoHole (hole heq)
          have hmem : newDev ∈ devices := h.mem.mpr ⟨hne, i, eq⟩
          show contents noMac a'.addr = devices ∪ {d | nrf24Str2mac mac = some d}
          rw [singleton_of_str2mac hmac, Set.union_singleton, Set.insert_eq_of_mem hmem, same.addr]
          exact h.contents
      | refused why => exact h.contents
      | added pos free registered new known size =>
          have hne : newDev ≠ noMac := by
            intro heq
            rcases hno heq with hfull | ⟨-, hreg⟩
            · exact hfull pos free
            · exact registered hreg
          show contents noMac a'.addr = devices ∪ {d | nrf24Str2mac mac = some d}
          rw [singleton_of_str2mac hmac, Set.union_singleton, Adapter.addr_of_update known, ← h.contents]
          exact contents_occupy free hne

theorem removeDevice_grants (h : Holds devices a) (hdistinct : Distinct (.removeDevice mac, e) a)
    (hr : a.removeKnownDevice e mac = (r, a')) : Holds (granted devices (.removeDevice mac) r) a' := by
  cases hmac : nrf24Str2mac mac with
  | none =>
      simp only [Adapter.removeKnownDevice, hmac] at hr
      cases hr
      exact h
  | some dev =>
      obtain ⟨r', a'', hr', hremoved⟩ := Adapter.removeKnownDevice_spec hmac e a
      rw [hr'] at hr
      cases hr
      have hcounted : a'.Counted := by
        apply (hremoved.counted_iff h.counted).mpr
        intro heq i hi hfirst
        have hi' : a.addr i = dev := hi.trans heq.symm
        apply (hdistinct dev i hmac hi' (heq ▸ hfirst)).resolve_left
        intro hdev
        exact hdev.1 heq
      refine ⟨hcounted, ?_⟩
      cases hremoved with
      | unknown none => exact h.contents
      | kept i eq first registered => exact h.contents
      | removed i eq first unregistered known size =>
          have honly : dev ≠ noMac ∧ ∀ j, a.addr j = dev → j = i := by
            apply (hdistinct dev i hmac eq first).resolve_right
            show e.unregister (a.knownPeers i).registrationId ≠ false
            rw [unregistered]
            decide
          show contents noMac a'.addr = devices \ {d | nrf24Str2mac mac = some d}
          rw [singleton_of_str2mac hmac, Adapter.addr_of_update known, ← h.contents, ← eq]
          apply contents_release
          intro j hj
          exact honly.2 j (hj.trans eq)

theorem step_grants {req : Request} (h : Holds devices a) (hdistinct : Distinct (req, e) a)
    (hr : Adapter.step (req, e) a = .ok (r, a')) : Holds (granted devices req r) a' := by
  cases req with
  | addDevice mac key name => exact addDevice_grants h hdistinct hr
  | removeDevice mac => exact removeDevice_grants h hdistinct (Except.ok.inj hr)

theorem checkPermission_eq_zero : a.checkPermission dev = 0 ↔ ∃ i, dev = a.addr i := by
  unfold Adapter.checkPermission
  split
  · rename_i hknown
    exact iff_of_true rfl hknown
  · rename_i hunknown
    exact iff_of_false (by decide) hunknown

theorem checkPermission_nonneg : 0 ≤ a.checkPermission dev ↔ a.checkPermission dev = 0 := by
  unfold Adapter.checkPermission
  split
  · simp
  · decide

/-- The check is right about every address but the marker while an entry is free. -/
theorem Holds.permission_iff (h : Holds devices a) (dev : Mac) :
    (a.checkPermission dev = 0 ↔ dev ∈ devices) ↔ dev ≠ noMac ∨ ∀ i, a.addr i ≠ noMac := by
  rw [checkPermission_eq_zero, h.mem]
  by_cases hdev : dev = noMac
  · subst hdev
    simp [eq_comm]
  · simp [hdev, eq_comm]

end Requests

/-! ## Callbacks -/

/-- A radio socket or a socket to knotd is opened. -/
def Act.Opens : Act → Prop
  | .hal (.socket _ _, _) _ => True
  | .opened _ => True
  | _ => False

/-- What a function leaves alone: the addresses in the table and the counter. What it does is in `P`. -/
structure Acted (P : Act → Prop) (m m' : Manager b) : Prop where
  addr : m'.adapter.addr = m.adapter.addr
  size : m'.adapter.knownPeersSize = m.adapter.knownPeersSize
  acts : ∃ acts, m'.acts = m.acts ++ acts ∧ ∀ act ∈ acts, P act

abbrev Quiet (m m' : Manager b) : Prop := Acted (fun act => ¬ act.Opens) m m'

abbrev Busy (m m' : Manager b) : Prop := Acted (fun _ => True) m m'

section Callbacks
variable {P : Act → Prop} {m m' m'' : Manager b} {e : DaemonEnv} {i : Fin maxPeers} {mac : Mac}

theorem Acted.refl (m : Manager b) : Acted P m m := ⟨rfl, rfl, [], by simp, by simp⟩

theorem Acted.trans (h : Acted P m m') (h' : Acted P m' m'') : Acted P m m'' := by
  obtain ⟨acts, hacts, hP⟩ := h.acts
  obtain ⟨acts', hacts', hP'⟩ := h'.acts
  refine ⟨h'.addr.trans h.addr, h'.size.trans h.size, acts ++ acts', ?_, ?_⟩
  · rw [hacts', hacts, List.append_assoc]
  · intro act hact
    exact (List.mem_append.mp hact).elim (hP act) (hP' act)

theorem Quiet.busy (h : Quiet m m') : Busy m m' := by
  obtain ⟨acts, hacts, -⟩ := h.acts
  exact ⟨h.addr, h.size, acts, hacts, fun _ _ => trivial⟩

theorem Acted.hal {c : Call} {he : Nrf24.Env} {o : Nrf24.Out} (h : m.hal c he = .ok (o, m'))
    (hP : P (.hal (c, he) o)) : Acted P m m' := by
  obtain ⟨radio, -, rfl⟩ := Manager.hal_eq_ok.mp h
  exact ⟨rfl, rfl, [.hal (c, he) o], rfl, by simpa using hP⟩

theorem removeWatch_quiet (h : m.removeWatch e i = .ok m') : Quiet m m' := by
  obtain ⟨o, radio, -, rfl⟩ := Manager.removeWatch_cases h
  exact ⟨rfl, rfl, _, rfl, by simp [Act.Opens]⟩

theorem watchReady_quiet (h : m.watchReady e i = .ok m') : Quiet m m' := by
  rcases Manager.watchReady_cases h with ⟨-, rfl⟩ | ⟨-, ⟨-, hremove⟩ | ⟨-, waiting, o, -, hwrite⟩⟩
  · exact .refl _
  · exact removeWatch_quiet hremove
  · exact .hal hwrite id

theorem addr_setStatus (mac : Mac) (a : Adapter) : (Manager.setStatus mac a).addr = a.addr := by
  unfold Manager.setStatus
  split
  · apply Adapter.addr_setKnown_same
    rfl
  · rfl

theorem size_setStatus (mac : Mac) (a : Adapter) :
    (Manager.setStatus mac a).knownPeersSize = a.knownPeersSize := by
  unfold Manager.setStatus
  split <;> rfl

theorem newPeer_busy {r : Except Int (Fin maxPeers)} (h : m.newPeer e mac = .ok (r, m')) : Busy m m' := by
  rcases Manager.newPeer_cases h with ⟨-, -, rfl⟩ | ⟨position, o, radio, -, -, hrest⟩
  · exact .refl _
  rcases hrest with ⟨-, -, rfl⟩ | ⟨-, -, -, o₂, radio₂, -, rfl⟩ | ⟨-, -, -, rfl⟩
  · exact ⟨rfl, rfl, _, rfl, fun _ _ => trivial⟩
  · exact ⟨rfl, rfl, _, rfl, fun _ _ => trivial⟩
  · exact ⟨addr_setStatus mac _, size_setStatus mac _, _, rfl, fun _ _ => trivial⟩

/-- A presence event opens sockets for a thing with permission only. -/
theorem evtPresence_opens {buffer : Buf 256} {r : Int} (h : m.evtPresence e buffer = .ok (r, m')) :
    Quiet m m' ∨ m.adapter.checkPermission (buffer.sub mgmtHdrLen 8) = 0 ∧ Busy m m' := by
  unfold Manager.evtPresence at h
  dsimp only at h
  obtain ⟨⟨err, m₁⟩, hnote, h₁⟩ := bind_eq_ok.mp h
  obtain ⟨-, table, rfl⟩ := Manager.noteBeacon_cases hnote
  have hquiet : Quiet m { m with peerBcastTable := table } := ⟨rfl, rfl, [], by simp, by simp⟩
  dsimp only at h₁
  split at h₁
  · cases h₁
    exact Or.inl hquiet
  · obtain ⟨⟨p, m₂⟩, hpeer, h₂⟩ := bind_eq_ok.mp h₁
    rcases Manager.presencePeer_cases hpeer with ⟨-, ⟨err₂, rfl⟩, rfl⟩ | ⟨hpermit, -, hp⟩
    · cases h₂
      exact Or.inl hquiet
    · refine Or.inr ⟨checkPermission_nonneg.mp hpermit, hquiet.busy.trans ?_⟩
      have hpeers : Busy { m with peerBcastTable := table } m₂ := by
        rcases hp with ⟨position, -, -, rfl⟩ | ⟨-, hnew⟩
        · exact .refl _
        · exact newPeer_busy hnew
      apply hpeers.trans
      cases p with
      | error err₂ =>
          cases h₂
          exact .refl _
      | ok position =>
          obtain ⟨⟨o, m₃⟩, hconn, h₃⟩ := bind_eq_ok.mp h₂
          cases h₃
          exact .hal hconn trivial

theorem evtDisconnected_quiet {buffer : Buf 256} {r : Int} (h : m.evtDisconnected e buffer = .ok (r, m')) :
    Quiet m m' := by
  unfold Manager.evtDisconnected at h
  split at h
  · cases h
    exact .refl _
  · split at h
    · cases h
      exact .refl _
    · obtain ⟨m₁, hremove, h₁⟩ := bind_eq_ok.mp h
      cases h₁
      unfold Manager.sourceRemove at hremove
      split at hremove
      · cases hremove
        exact .refl _
      · exact removeWatch_quiet hremove

theorem mgmtEvent_opens {buffer : Buf 256} {r : Int} (h : m.mgmtEvent e buffer = .ok (r, m')) :
    Quiet m m' ∨ m.adapter.checkPermission (buffer.sub mgmtHdrLen 8) = 0 ∧ Busy m m' := by
  unfold Manager.mgmtEvent at h
  split at h
  · cases h
    exact Or.inl (.refl _)
  · split at h
    · obtain ⟨⟨r₁, m₁⟩, hpresence, h₁⟩ := bind_eq_ok.mp h
      cases h₁
      exact evtPresence_opens hpresence
    · split at h
      · obtain ⟨⟨r₁, m₁⟩, hdis, h₁⟩ := bind_eq_ok.mp h
        cases h₁
        exact Or.inl (evtDisconnected_quiet hdis)
      · cases h
        exact Or.inl (.refl _)

theorem clientsRead_quiet (h : m.clientsRead e = .ok m') : Quiet m m' := by
  have hclient : ∀ {i : Fin maxPeers} {m m' : Manager b}, m.clientRead e i = .ok m' → Quiet m m' := by
    intro i m m' h
    rcases Manager.clientRead_cases h with rfl | ⟨-, o, radio, sent, -, hsent, rfl⟩
    · exact .refl _
    · refine ⟨rfl, rfl, _, rfl, ?_⟩
      intro act hact
      rcases List.mem_cons.mp hact with rfl | hact
      · exact id
      · obtain ⟨fd, data, rfl⟩ := hsent act hact
        exact id
  have hloop : ∀ {is : List (Fin maxPeers)} {m : Manager b}, m.clientsReadFrom e is = .ok m' → Quiet m m' := by
    intro is
    induction is with
    | nil =>
        intro m h
        cases h
        exact .refl _
    | cons i is ih =>
        intro m h
        obtain ⟨m₁, hone, hrest⟩ := bind_eq_ok.mp h
        exact (hclient hone).trans (ih hrest)
  unfold Manager.clientsRead at h
  split at h
  · cases h
    exact .refl _
  · exact hloop h

/-- The idle callback reads an event, and opens sockets only for the thing with permission that it names. -/
theorem readIdle_opens (h : m.readIdle e = .ok m') : ∃ o m₁, m.hal (.read m.mgmtfd 256) (e.hal .mgmtRead) = .ok (o, m₁) ∧
    (Quiet m₁ m' ∨ m.adapter.checkPermission ((e.buffer.write 0 o.data).sub mgmtHdrLen 8) = 0 ∧ Busy m₁ m') := by
  obtain ⟨⟨r, m₂⟩, hmgmt, h₁⟩ := bind_eq_ok.mp h
  have hclients := clientsRead_quiet h₁
  obtain ⟨⟨o, m₁⟩, hread, h₂⟩ := bind_eq_ok.mp hmgmt
  refine ⟨o, m₁, hread, ?_⟩
  obtain ⟨radio, -, rfl⟩ := Manager.hal_eq_ok.mp hread
  dsimp only at h₂
  split at h₂
  · cases h₂
    exact Or.inl hclients
  · rcases mgmtEvent_opens h₂ with hquiet | ⟨hpermit, hbusy⟩
    · exact Or.inl (hquiet.trans hclients)
    · exact Or.inr ⟨hpermit, hbusy.trans hclients.busy⟩

theorem registerFrom_keeps {I : Adapter → Prop}
    (hset : ∀ x i id, I x → I (x.setKnown i { x.knownPeers i with registrationId := id })) {ids : Nat → Nat}
    {left j k : Nat} {a a' : Adapter} (ha : I a) (h : Adapter.registerFrom ids left j k a = .ok a') : I a' := by
  induction left generalizing j k a with
  | zero =>
      cases h
      exact ha
  | succ left ih =>
      unfold Adapter.registerFrom at h
      split at h
      · exact ih ha h
      · split at h
        · exact ih (hset a _ _ ha) h
        · cases h

theorem registerFrom_same {ids : Nat → Nat} {left j k : Nat} {a a' : Adapter}
    (h : Adapter.registerFrom ids left j k a = .ok a') : a'.addr = a.addr ∧ a'.knownPeersSize = a.knownPeersSize := by
  apply registerFrom_keeps (I := fun x => x.addr = a.addr ∧ x.knownPeersSize = a.knownPeersSize) _ ⟨rfl, rfl⟩ h
  intro x i id hx
  have haddr : (x.setKnown i { x.knownPeers i with registrationId := id }).addr = x.addr :=
    Adapter.addr_setKnown_same rfl
  exact ⟨haddr.trans hx.1, hx.2⟩

theorem step_cases {ee : Event × DaemonEnv} {o : Out} (h : step ee m = .ok (o, m')) :
    (∃ req r, ee.1 = .request req ∧ Adapter.step (req, ee.2.device) m.adapter = .ok (r, m'.adapter) ∧ o = ⟨some r, []⟩) ∨
      (∀ req, ee.1 ≠ .request req) ∧ o.response = none ∧ m'.adapter.addr = m.adapter.addr ∧
        m'.adapter.knownPeersSize = m.adapter.knownPeersSize ∧ ((∃ act ∈ o.acts, act.Opens) →
          ∃ ho, o.acts.head? = some (.hal (.read m.mgmtfd 256, ee.2.hal .mgmtRead) ho) ∧
            m.adapter.checkPermission ((ee.2.buffer.write 0 ho.data).sub mgmtHdrLen 8) = 0) := by
  obtain ⟨⟨response, m₁⟩, hdispatch, h₁⟩ := bind_eq_ok.mp h
  cases h₁
  obtain ⟨event, e⟩ := ee
  have hsilent : ∀ {m₁ : Manager b}, Quiet { m with acts := [] } m₁ → ¬ ∃ act ∈ m₁.acts, act.Opens := by
    rintro m₁ hquiet ⟨act, hact, hopens⟩
    obtain ⟨acts, hacts, hno⟩ := hquiet.acts
    rw [hacts, List.nil_append] at hact
    exact hno act hact hopens
  cases event with
  | request req =>
      obtain ⟨⟨r, a⟩, hreq, h₂⟩ := bind_eq_ok.mp hdispatch
      cases h₂
      exact Or.inl ⟨req, r, rfl, hreq, rfl⟩
  | idle =>
      obtain ⟨m₂, hidle, h₂⟩ := bind_eq_ok.mp hdispatch
      cases h₂
      obtain ⟨ho, m₁, hread, hrest⟩ := readIdle_opens hidle
      have hbusy : Busy m₁ m' := by
        rcases hrest with hquiet | ⟨-, hbusy⟩
        · exact hquiet.busy
        · exact hbusy
      have hquiet₁ : Quiet { m with acts := [] } m₁ := .hal hread id
      have hall := hquiet₁.busy.trans hbusy
      refine Or.inr ⟨fun req => by simp, rfl, hall.addr, hall.size, fun hopens => ⟨ho, ?_, ?_⟩⟩
      · obtain ⟨radio, -, rfl⟩ := Manager.hal_eq_ok.mp hread
        obtain ⟨acts, hacts, -⟩ := hbusy.acts
        show m'.acts.head? = _
        rw [hacts]
        rfl
      · rcases hrest with hquiet | ⟨hpermit, -⟩
        · exact absurd hopens (hsilent (hquiet₁.trans hquiet))
        · exact hpermit
  | knotd i =>
      obtain ⟨m₂, hwatch, h₂⟩ := bind_eq_ok.mp hdispatch
      cases h₂
      have hquiet := watchReady_quiet hwatch
      exact Or.inr ⟨fun req => by simp, rfl, hquiet.addr, hquiet.size, fun hopens => absurd hopens (hsilent hquiet)⟩
  | busAcquired =>
      obtain ⟨a, hbus, h₂⟩ := bind_eq_ok.mp hdispatch
      cases h₂
      obtain ⟨haddr, hsize⟩ := registerFrom_same hbus
      exact Or.inr ⟨fun req => by simp, rfl, haddr, hsize, by simp⟩
  | timeout =>
      cases hdispatch
      exact Or.inr ⟨fun req => by simp, rfl, rfl, rfl, by simp [Manager.timeoutIterator]⟩

end Callbacks

/-! ## Runs -/

/-- A request among the callbacks is one that keeps the devices distinct from each other and from the marker. -/
def Proper (ee : Event × DaemonEnv) (m : Manager b) : Prop :=
  ∀ req, ee.1 = .request req → Distinct (req, ee.2.device) m.adapter

section Runs
variable {created : Bool} {file : KeysFile} {mac : Mac} {tcp : Bool} {err : Nat} {e₀ : Nrf24.Env} {m₀ m m' : Manager b}

theorem recorded_of_none {devices : Set Mac} {ee : Event × DaemonEnv} {o : Out} (h : o.response = none) :
    recorded devices (ee, o) = devices := by
  obtain ⟨response, acts⟩ := o
  cases h
  obtain ⟨event, e⟩ := ee
  cases event <;> rfl

theorem start_holds (h : Manager.managerStart b created file mac tcp err e₀ = .ok (0, m₀))
    (hfile : ∀ n ∈ file.loaded, n.addr? ≠ some noMac) : Holds file.devices m₀.adapter := by
  obtain ⟨hparse, -⟩ := Manager.managerStart_started h
  obtain ⟨hcounted, hcontents⟩ := Adapter.parseNodes_spec hparse
  refine ⟨hcounted.mpr hfile, ?_⟩
  rw [hcontents]
  ext dev
  rw [KeysFile.devices, Set.mem_ofPred_eq, Set.mem_ofPred_eq, and_iff_right_iff_imp]
  rintro ⟨n, hn, hdev⟩ hno
  exact hfile n hn (hno ▸ hdev)

theorem step_holds {past : List ((Event × DaemonEnv) × Out)} {ee : Event × DaemonEnv} {o : Out}
    (hs : Holds (authorized file past) m.adapter) (hproper : Proper ee m) (h : step ee m = .ok (o, m')) :
    Holds (authorized file (past ++ [(ee, o)])) m'.adapter := by
  rw [authorized_snoc]
  rcases step_cases h with ⟨req, r, hreq, hstep, rfl⟩ | ⟨-, hnone, haddr, hsize, -⟩
  · have := step_grants hs (hproper req hreq) hstep
    obtain ⟨event, e⟩ := ee
    cases hreq
    exact this
  · rw [recorded_of_none hnone]
    exact hs.same haddr hsize

/-- The run lemma: the table stands for the authorized things. -/
theorem run_holds (hstart : Manager.managerStart b created file mac tcp err e₀ = .ok (0, m₀))
    (hfile : ∀ n ∈ file.loaded, n.addr? ≠ some noMac) {is : List (Event × DaemonEnv)} {os : List Out}
    (hproper : Along Proper step is m₀) (hrun : exec step is m₀ = .ok (os, m)) :
    Holds (authorized file (is.zip os)) m.adapter := by
  have h₀ : Holds (authorized file []) m₀.adapter := start_holds hstart hfile
  have h := exec_relates (R := fun past m => Holds (authorized file past) m.adapter)
    (fun past ee m o m' hs hP hr => step_holds hs hP hr) h₀ hproper hrun
  rwa [List.nil_append] at h

/-- The keys file has no device with the address that marks the free entries, and no request makes it a device or
removes one of two entries with the same address. Then `check_permission` is right about an address in every
state between two callbacks exactly when the address is not the marker or no entry is free; and a callback that
opens a radio socket or a socket to knotd has read an event of an authorized thing, or of the marker while an
entry is free. -/
theorem access_controlled (hstart : Manager.managerStart b created file mac tcp err e₀ = .ok (0, m₀))
    (hfile : ∀ n ∈ file.loaded, n.addr? ≠ some noMac) {is : List (Event × DaemonEnv)} {os : List Out}
    (hproper : Along Proper step is m₀) (hrun : exec step is m₀ = .ok (os, m)) :
    (∀ dev, (m.adapter.checkPermission dev = 0 ↔ dev ∈ authorized file (is.zip os)) ↔
      dev ≠ noMac ∨ ∀ i, m.adapter.addr i ≠ noMac) ∧
    ∀ ee o m', step ee m = .ok (o, m') → (∃ act ∈ o.acts, act.Opens) →
      ∃ ho, o.acts.head? = some (.hal (.read m.mgmtfd 256, ee.2.hal .mgmtRead) ho) ∧
        ((ee.2.buffer.write 0 ho.data).sub mgmtHdrLen 8 ∈ authorized file (is.zip os) ∨
          (ee.2.buffer.write 0 ho.data).sub mgmtHdrLen 8 = noMac ∧ ∃ i, m.adapter.addr i = noMac) := by
  have hs := run_holds hstart hfile hproper hrun
  refine ⟨hs.permission_iff, ?_⟩
  intro ee o m' hstep hopens
  rcases step_cases hstep with ⟨req, r, -, -, rfl⟩ | ⟨-, -, -, -, hopen⟩
  · simp at hopens
  · obtain ⟨ho, hhead, hpermit⟩ := hopen hopens
    refine ⟨ho, hhead, ?_⟩
    obtain ⟨i, hi⟩ := checkPermission_eq_zero.mp hpermit
    by_cases hno : (ee.2.buffer.write 0 ho.data).sub mgmtHdrLen 8 = noMac
    · exact Or.inr ⟨hno, i, hi.symm.trans hno⟩
    · exact Or.inl (hs.mem.mpr ⟨hno, i, hi.symm⟩)

end Runs

def served (event : Event) : Event × DaemonEnv := (event, (idling 0 fun _ => []).2)

def yardMac : Mac := ⟨[0x04, 0x00, 0x00, 0x00, 0x00, 0x00, 0x00, 0x04], rfl⟩

def addition : List (Event × DaemonEnv) := [served (.request (.addDevice (nrf24Mac2str yardMac) [] []))]

/-- A device is added to three others. -/
theorem access_controlled_addition :
    ∃ m₀ os m, starting = .ok (0, m₀) ∧ exec step addition m₀ = .ok (os, m) ∧
      m.adapter.checkPermission yardMac = 0 ∧
      ∀ dev, dev ≠ noMac → (m.adapter.checkPermission dev = 0 ↔
        dev ∈ authorized (.keys [node lampMac, node doorMac, node shedMac]) (addition.zip os)) := by
  obtain ⟨m₀, hstart⟩ : ∃ m₀, starting = .ok (0, m₀) := ⟨_, rfl⟩
  have hproper : Along Proper step addition m₀ := by
    refine along_of_forall ?_ m₀
    intro ee hee m req hreq
    obtain rfl := List.mem_singleton.mp hee
    cases hreq
    exact fun hno => absurd hno (by decide)
  obtain ⟨os, m, hrun, hyard⟩ : ∃ os m, exec step addition m₀ = .ok (os, m) ∧
      m.adapter.checkPermission yardMac = 0 := by
    cases hstart
    exact ⟨_, _, rfl, rfl⟩
  have hright := (access_controlled hstart (by decide) hproper hrun).1
  exact ⟨m₀, os, m, hstart, hrun, hyard, fun dev hdev => (hright dev).mpr (Or.inl hdev)⟩

def startingWith (devices : List Mac) : Except Fault (Int × Manager .linux) :=
  Manager.managerStart .linux true (.keys (devices.map node)) gatewayMac false 0 (.still 0)

/-- The objects of the known devices are registered, and one device is removed. -/
def removal : List (Event × DaemonEnv) :=
  [served .busAcquired, served (.request (.removeDevice (nrf24Mac2str lampMac)))]

/-- A daemon without a device gives a slot and a socket to knotd to a thing that calls itself 0. And of two entries
with the same address one is left when the device is removed. -/
theorem marker_permitted :
    (∃ m₀ os m o m', startingWith [] = .ok (0, m₀) ∧ exec step [idling 0 fun _ => []] m₀ = .ok (os, m) ∧
      m.adapter.checkPermission noMac = 0 ∧ noMac ∉ authorized (.keys []) ([idling 0 fun _ => []].zip os) ∧
      step (announcing 5 noMac) m = .ok (o, m') ∧ (∃ act ∈ o.acts, act.Opens) ∧ (m'.peers (0 : Fin 5)).socketFd = 1) ∧
    ∃ m₀ os m, startingWith [lampMac, lampMac] = .ok (0, m₀) ∧ exec step removal m₀ = .ok (os, m) ∧
      m.adapter.checkPermission lampMac = 0 ∧
      lampMac ∉ authorized (.keys [node lampMac, node lampMac]) (removal.zip os) := by
  constructor
  · refine ⟨_, _, _, _, _, rfl, rfl, rfl, ?_, rfl, ⟨_, List.mem_cons_of_mem _ List.mem_cons_self, trivial⟩, rfl⟩
    rintro ⟨n, hn, -⟩
    cases hn
  · refine ⟨_, _, _, rfl, rfl, rfl, ?_⟩
    rintro ⟨-, hkept⟩
    exact hkept rfl

end KnotHal.Nrfd
