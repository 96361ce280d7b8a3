import KnotHal.Nrfd.Devices

/-!
# What a restart finds

The keys file beside the table of known devices. AddDevice puts a node in the file for the entry that it makes, and
RemoveDevice takes out the nodes with the text of its argument, while it finds the entry by the address that the
text stands for. So the file has the devices of the table until one is removed by another text than it was added by.

* `parseNodes_pairs` : what a file of well-formed nodes loads;
* `Mirrors` : the nodes of the file are the entries of the table;
* `step_mirrors` : when a request keeps them the same;
* `devices_survive_iff` : exactly which runs leave a file that loads the same devices.
-/

namespace KnotHal.Nrfd

open Machine Slots Nrf24

/-! ## Devices and their names -/

def KnownPeer.pair (k : KnownPeer) : Mac × Option Text := (k.addr, k.aliasName)

/-- The address and the name in a node, where it has both. -/
def Node.pair? (n : Node) : Option (Mac × Option Text) := do
  let mac ← n.addr?
  let name ← n.name
  return (mac, name)

def Adapter.pairs (a : Adapter) : Set (Mac × Option Text) := {p | p.1 ≠ noMac ∧ ∃ i, (a.knownPeers i).pair = p}

section Pairs
variable {a a' : Adapter} {i : Fin maxPeers} {k : KnownPeer} {n : Node} {mac : Mac} {name : Option Text}
  {p : Mac × Option Text}

theorem Node.pair?_eq : n.pair? = some (mac, name) ↔ n.addr? = some mac ∧ n.name = some name := by
  simp [Node.pair?, Option.bind_eq_some_iff]

theorem Adapter.mem_pairs : p ∈ a.pairs ↔ p.1 ≠ noMac ∧ ∃ i, (a.knownPeers i).pair = p := Iff.rfl

theorem Adapter.pairs_zero (file : KeysFile) : (Adapter.zero file).pairs = ∅ := by
  ext p
  rw [Adapter.mem_pairs, Set.mem_empty_iff_false, iff_false]
  rintro ⟨hp, i, rfl⟩
  exact hp rfl

theorem Adapter.mem_pairs_update (h : a'.knownPeers = Function.update a.knownPeers i k) :
    p ∈ a'.pairs ↔ p.1 ≠ noMac ∧ (k.pair = p ∨ ∃ j ≠ i, (a.knownPeers j).pair = p) := by
  rw [Adapter.mem_pairs, h, Function.exists_update_iff a.knownPeers fun _ k => k.pair = p]

theorem Adapter.pairs_occupy (h : a'.knownPeers = Function.update a.knownPeers i k) (hi : a.addr i = noMac)
    (hk : k.addr ≠ noMac) : a'.pairs = insert k.pair a.pairs := by
  ext p
  rw [Adapter.mem_pairs_update h, Set.mem_insert_iff, Adapter.mem_pairs]
  constructor
  · rintro ⟨hp, rfl | ⟨j, -, hj⟩⟩
    · exact Or.inl rfl
    · exact Or.inr ⟨hp, j, hj⟩
  · rintro (rfl | ⟨hp, j, rfl⟩)
    · exact ⟨hk, Or.inl rfl⟩
    · refine ⟨hp, Or.inr ⟨j, ?_, rfl⟩⟩
      rintro rfl
      exact hp hi

theorem Adapter.pairs_release (h : a'.knownPeers = Function.update a.knownPeers i k) (hk : k.addr = noMac)
    (honly : ∀ j, a.addr j = a.addr i → j = i) : a'.pairs = {p ∈ a.pairs | p.1 ≠ a.addr i} := by
  ext p
  rw [Adapter.mem_pairs_update h, Set.mem_ofPred_eq, Adapter.mem_pairs]
  constructor
  · rintro ⟨hp, rfl | ⟨j, hji, rfl⟩⟩
    · exact absurd hk hp
    · exact ⟨⟨hp, j, rfl⟩, fun heq => hji (honly j heq)⟩
  · rintro ⟨⟨hp, j, rfl⟩, hne⟩
    refine ⟨hp, Or.inr ⟨j, ?_, rfl⟩⟩
    rintro rfl
    exact hne rfl

end Pairs

/-! ## Loading -/

namespace Adapter

variable {a a' : Adapter}

theorem parseNodesFrom_pair {n : Node} {p : Mac × Option Text} (hn : n.pair? = some p) (i : Fin maxPeers)
    (ps : List (Fin maxPeers × Node)) (a : Adapter) :
    ∃ a₁ k, k.pair = p ∧ a₁.knownPeers = Function.update a.knownPeers i k ∧
      parseNodesFrom ((i, n) :: ps) a = parseNodesFrom ps a₁ := by
  obtain ⟨mac, name⟩ := p
  obtain ⟨haddr, hname⟩ := Node.pair?_eq.mp hn
  obtain ⟨str, hstr, hmac⟩ : ∃ str, n.mac = some (some str) ∧ nrf24Str2mac str = some mac := by
    simpa [Node.addr?, Option.bind_eq_some_iff, Option.join_eq_some_iff] using haddr
  refine ⟨{ a.setKnown i ⟨mac, (a.knownPeers i).registrationId, name, false⟩ with
    knownPeersSize := a.knownPeersSize + 1 }, ⟨mac, (a.knownPeers i).registrationId, name, false⟩, rfl, rfl, ?_⟩
  simp only [parseNodesFrom, hstr, hmac, hname, setKnown, Function.update_self, Function.update_idem]

theorem parseNodesFrom_pairs {ps : List (Fin maxPeers × Node)} (hn : (ps.map Prod.fst).Nodup)
    (hfree : ∀ p ∈ ps, a.addr p.1 = noMac) (hwhole : ∀ p ∈ ps, ∃ q, p.2.pair? = some q ∧ q.1 ≠ noMac) :
    ∃ a', parseNodesFrom ps a = .ok (0, a') ∧ a'.pairs = a.pairs ∪ {q | ∃ p ∈ ps, p.2.pair? = some q} := by
  induction ps generalizing a with
  | nil => exact ⟨a, rfl, by simp⟩
  | cons p ps ih =>
      obtain ⟨i, n⟩ := p
      obtain ⟨hi, hn⟩ := List.nodup_cons.mp hn
      obtain ⟨q, hq, hno⟩ := hwhole (i, n) List.mem_cons_self
      obtain ⟨a₁, k, rfl, hknown, hround⟩ := parseNodesFrom_pair hq i ps a
      have hfree₁ : ∀ p ∈ ps, a₁.addr p.1 = noMac := by
        intro p hp
        have hmem : p.1 ∈ ps.map Prod.fst := List.mem_map_of_mem hp
        have hpi : p.1 ≠ i := fun hpi => hi (hpi ▸ hmem)
        rw [addr_of_update hknown, Function.update_of_ne hpi]
        exact hfree p (List.mem_cons_of_mem _ hp)
      obtain ⟨a', hrest, hpairs⟩ := ih hn hfree₁ fun p hp => hwhole p (List.mem_cons_of_mem _ hp)
      refine ⟨a', hround.trans hrest, ?_⟩
      rw [hpairs, pairs_occupy hknown (hfree (i, n) List.mem_cons_self) hno, Set.insert_eq, Set.union_comm {k.pair},
        Set.union_assoc]
      congr 1
      ext q
      simp only [Set.mem_union, Set.mem_singleton_iff, Set.mem_ofPred_eq, List.mem_cons, exists_eq_or_imp, hq,
        Option.some.injEq, eq_comm]

/-- What a file of at most `MAX_PEERS` well-formed nodes loads. -/
theorem parseNodes_pairs (created : Bool) {nodes : List Node} (hlen : nodes.length ≤ maxPeers)
    (hwhole : ∀ n ∈ nodes, ∃ p, n.pair? = some p ∧ p.1 ≠ noMac) :
    ∃ a, parseNodes created (.keys nodes) = .ok (0, a) ∧ a.pairs = {p | ∃ n ∈ nodes, n.pair? = some p} := by
  have hmem : ∀ n, n ∈ nodes ↔ ∃ p ∈ (List.finRange maxPeers).zip nodes, p.2 = n := by
    intro n
    rw [← List.mem_map, map_snd_zip, List.take_of_length_le hlen]
  obtain ⟨a, hparse, hpairs⟩ := parseNodesFrom_pairs (a := zero (.keys nodes)) (nodup_map_fst_zip nodes)
    (fun _ _ => rfl) fun p hp => hwhole p.2 ((hmem p.2).mpr ⟨p, hp, rfl⟩)
  refine ⟨a, hparse, ?_⟩
  rw [hpairs, pairs_zero, Set.empty_union]
  ext q
  constructor
  · rintro ⟨p, hp, hq⟩
    exact ⟨p.2, (hmem p.2).mpr ⟨p, hp, rfl⟩, hq⟩
  · rintro ⟨n, hn, hq⟩
    obtain ⟨p, hp, rfl⟩ := (hmem n).mp hn
    exact ⟨p, hp, hq⟩

end Adapter

/-! ## The file and the table -/

/-- The nodes of the keys file are the entries of the table. -/
structure Mirrors (nodes : List Node) (a : Adapter) : Prop where
  file : a.file = .keys nodes
  counted : a.Counted
  distinct : Set.InjOn a.addr {i | a.addr i ≠ noMac}
  whole : ∀ n ∈ nodes, ∃ p, n.pair? = some p
  once : (nodes.map Node.addr?).Nodup
  pairs : ∀ p, p ∈ a.pairs ↔ ∃ n ∈ nodes, n.pair? = some p

/-- A fresh process would load the devices of the table, with their names. -/
def Survives (a : Adapter) : Prop :=
  ∀ created, ∃ a', Adapter.parseNodes created a.file = .ok (0, a') ∧ a'.pairs = a.pairs

section Mirrors
variable {nodes : List Node} {a a' : Adapter} {n : Node} {dev : Mac}

theorem mirrors_zero : Mirrors [] (Adapter.zero (.keys [])) where
  file := rfl
  counted := (taken_eq_zero.mpr fun _ _ => rfl).symm
  distinct := fun _ hno => absurd rfl hno
  whole := by simp
  once := List.nodup_nil
  pairs := fun p => by simp [Adapter.pairs_zero]

theorem Mirrors.only (h : Mirrors nodes a) {i : Fin maxPeers} (hi : a.addr i ≠ noMac) :
    ∀ j, a.addr j = a.addr i → j = i := by
  intro j hj
  apply h.distinct _ hi hj
  rw [Set.mem_ofPred_eq, hj]
  exact hi

theorem Mirrors.entry (h : Mirrors nodes a) (hn : n ∈ nodes) :
    ∃ i, n.pair? = some (a.knownPeers i).pair ∧ n.addr? = some (a.addr i) ∧ a.addr i ≠ noMac := by
  obtain ⟨p, hp⟩ := h.whole n hn
  obtain ⟨hno, i, rfl⟩ := (h.pairs p).mpr ⟨n, hn, hp⟩
  exact ⟨i, hp, (Node.pair?_eq.mp hp).1, hno⟩

theorem Mirrors.length_le (h : Mirrors nodes a) : nodes.length ≤ maxPeers := by
  have hsub : nodes.map Node.addr? ⊆ (List.finRange maxPeers).map fun i => some (a.addr i) := by
    intro addr haddr
    obtain ⟨n, hn, rfl⟩ := List.mem_map.mp haddr
    obtain ⟨i, -, hi, -⟩ := h.entry hn
    exact List.mem_map.mpr ⟨i, List.mem_finRange i, hi.symm⟩
  simpa using h.once.length_le_of_subset hsub

theorem Mirrors.loaded (h : Mirrors nodes a) : a.file.loaded = nodes := by
  rw [h.file, KeysFile.loaded, List.take_of_length_le h.length_le]

/-- The file loads what its nodes say. -/
theorem Mirrors.parses (h : Mirrors nodes a) (created : Bool) :
    ∃ a', Adapter.parseNodes created (.keys nodes) = .ok (0, a') ∧ a'.pairs = a.pairs := by
  obtain ⟨a', hparse, hpairs⟩ := Adapter.parseNodes_pairs created h.length_le fun n hn => by
    obtain ⟨i, hp, -, hno⟩ := h.entry hn
    exact ⟨_, hp, hno⟩
  refine ⟨a', hparse, ?_⟩
  rw [hpairs]
  ext p
  exact (h.pairs p).symm

theorem Mirrors.survives (h : Mirrors nodes a) : Survives a := by
  rw [Survives, h.file]
  exact h.parses

theorem Mirrors.same (h : Mirrors nodes a) (hsame : Adapter.SameTable a a') (hfile : a'.file = .keys nodes) :
    Mirrors nodes a' where
  file := hfile
  counted := h.counted.same hsame
  distinct := by
    rw [hsame.addr]
    exact h.distinct
  whole := h.whole
  once := h.once
  pairs := by
    intro p
    rw [Adapter.mem_pairs, hsame.knownPeers]
    exact h.pairs p

end Mirrors

/-! ## What a request does to the file -/

def Request.mac : Request → Text
  | .addDevice mac _ _ => mac
  | .removeDevice mac => mac

/-- A request that does not name the address that marks the free entries, while the keys file can be read and
written. -/
structure Plain (re : Request × DeviceEnv) : Prop where
  device : nrf24Str2mac re.1.mac ≠ some noMac
  readable : re.2.readable = true
  spoilt : re.2.spoilt = none

/-- RemoveDevice, where it finds an entry and unregisters its object, gives the address as a node has it. -/
def Spelled (re : Request × DeviceEnv) (a : Adapter) : Prop :=
  match re.1 with
  | .addDevice .. => True
  | .removeDevice mac => ∀ dev i, nrf24Str2mac mac = some dev → a.addr i = dev →
      re.2.unregister (a.knownPeers i).registrationId = true → ∃ n ∈ a.file.loaded, n.mac = some (some mac)

section Requests
variable {nodes : List Node} {a a' : Adapter} {e : DeviceEnv} {r : Bool} {mac key name : Text} {dev newDev : Mac}
  {n : Node}

namespace Adapter

/-- AddDevice writes a node exactly when it makes an entry. -/
theorem addKnownDevice_file (hfile : a.file = .keys nodes) (hread : e.readable = true) (hwrite : e.spoilt = none)
    (h : a.addKnownDevice e mac key name = .ok (r, a')) :
    (a'.knownPeersSize = a.knownPeersSize ∧ a'.file = .keys nodes) ∨
      (a'.knownPeersSize = a.knownPeersSize + 1 ∧
        a'.file = .keys (nodes ++ [⟨some (some mac), some (some name)⟩])) := by
  unfold addKnownDevice at h
  split at h
  · cases h
    exact Or.inl ⟨rfl, hfile⟩
  · obtain ⟨scan, -, h₁⟩ := bind_eq_ok.mp h
    cases scan with
    | found =>
        cases h₁
        rw [writeFile, hread, hfile]
        exact Or.inl ⟨rfl, hfile⟩
    | absent freePos =>
        dsimp only at h₁
        split at h₁
        · cases freePos with
          | none => cases h₁
          | some pos =>
              dsimp only at h₁
              by_cases hreg : e.register = 0
              · rw [newDeviceObject, if_pos hreg] at h₁
                cases h₁
                exact Or.inl ⟨rfl, hfile⟩
              · rw [newDeviceObject, if_neg hreg] at h₁
                cases h₁
                right
                simp only [writeFile, setKnown, hread, hfile, save, hwrite, Option.getD_none, and_self]
        · cases h₁
          exact Or.inl ⟨rfl, hfile⟩

/-- RemoveDevice takes out the nodes with the text of its argument, when it frees an entry. -/
theorem removeKnownDevice_file (hfile : a.file = .keys nodes) (hread : e.readable = true) (hwrite : e.spoilt = none)
    (hnodes : ∀ n ∈ nodes, n.mac ≠ none) (h : a.removeKnownDevice e mac = (true, a')) :
    a'.file = .keys (nodes.filter fun n => n.mac ≠ some (some mac)) := by
  have hany : nodes.any (·.mac.isNone) = false := by
    rw [List.any_eq_false]
    intro n hn hnone
    exact hnodes n hn (Option.isNone_iff_eq_none.mp hnone)
  unfold removeKnownDevice at h
  split at h
  · cases h
  · split at h
    · cases h
    · split at h
      · cases h
        simp only [writeFile, setKnown, hread, hfile, hany, save, hwrite, Option.getD_none, Bool.false_eq_true,
          if_false]
      · cases h

end Adapter

theorem Node.addr?_of_mac (hn : n.mac = some (some mac)) : n.addr? = nrf24Str2mac mac := by
  rw [Node.addr?, hn]
  rfl

theorem Mirrors.added (h : Mirrors nodes a) (hmac : nrf24Str2mac mac = some newDev) (hno : newDev ≠ noMac)
    {pos : Fin maxPeers} (hfree : a.addr pos = noMac) (hnew : ∀ i, a.addr i ≠ newDev) {id : Nat}
    (hknown : a'.knownPeers = Function.update a.knownPeers pos ⟨newDev, id, some name, false⟩) (hcounted : a'.Counted)
    (hfile : a'.file = .keys (nodes ++ [⟨some (some mac), some (some name)⟩])) :
    Mirrors (nodes ++ [⟨some (some mac), some (some name)⟩]) a' := by
  have haddr := Adapter.addr_of_update hknown
  have hpair : Node.pair? ⟨some (some mac), some (some name)⟩ = some (newDev, some name) :=
    Node.pair?_eq.mpr ⟨hmac, rfl⟩
  refine ⟨hfile, hcounted, ?_, ?_, ?_, ?_⟩
  · rw [haddr]
    exact injOn_occupy h.distinct (fun i _ => hnew i) pos newDev
  · intro n hn
    rcases List.mem_append.mp hn with hn | hn
    · exact h.whole n hn
    · rw [List.mem_singleton.mp hn]
      exact ⟨_, hpair⟩
  · rw [List.map_append, List.map_singleton, List.nodup_append]
    refine ⟨h.once, List.nodup_singleton _, ?_⟩
    intro addr haddr addr' haddr' heq
    obtain ⟨n, hn, rfl⟩ := List.mem_map.mp haddr
    obtain ⟨i, -, hi, -⟩ := h.entry hn
    rw [List.mem_singleton.mp haddr', hi, Node.addr?_of_mac rfl, hmac] at heq
    exact hnew i (Option.some.inj heq)
  · intro p
    rw [Adapter.pairs_occupy hknown hfree hno, Set.mem_insert_iff, h.pairs p]
    simp only [List.mem_append, List.mem_singleton, or_and_right, exists_or, exists_eq_left, hpair, Option.some.injEq]
    rw [or_comm, eq_comm]
    rfl

/-- Where a node has the text that is given, it is the one with the address. -/
theorem Mirrors.text_iff (h : Mirrors nodes a) (hmac : nrf24Str2mac mac = some dev)
    (hspelled : ∃ n ∈ nodes, n.mac = some (some mac)) (hn : n ∈ nodes) :
    n.mac = some (some mac) ↔ n.addr? = some dev := by
  constructor
  · intro htext
    rw [Node.addr?_of_mac htext, hmac]
  · intro hdev
    obtain ⟨n₀, hn₀, htext⟩ := hspelled
    have heq : n = n₀ := by
      apply List.inj_on_of_nodup_map h.once hn hn₀
      rw [hdev, Node.addr?_of_mac htext, hmac]
    rw [heq, htext]

/-- A device leaves the table and the file, where a node has the text that is given. -/
theorem Mirrors.removed (h : Mirrors nodes a) (hmac : nrf24Str2mac mac = some dev) (hno : dev ≠ noMac)
    {i : Fin maxPeers} (hi : a.addr i = dev) {k : KnownPeer} (hk : k.addr = noMac)
    (hknown : a'.knownPeers = Function.update a.knownPeers i k) (hcounted : a'.Counted)
    (hspelled : ∃ n ∈ nodes, n.mac = some (some mac))
    (hfile : a'.file = .keys (nodes.filter fun n => n.mac ≠ some (some mac))) :
    Mirrors (nodes.filter fun n => n.mac ≠ some (some mac)) a' := by
  have haddr := Adapter.addr_of_update hknown
  refine ⟨hfile, hcounted, ?_, ?_, ?_, ?_⟩
  · rw [haddr, hk]
    exact injOn_release h.distinct i noMac
  · intro n hn
    exact h.whole n (List.mem_filter.mp hn).1
  · exact h.once.sublist (List.filter_sublist.map _)
  · intro p
    rw [Adapter.pairs_release hknown hk (h.only (hi ▸ hno)), hi, Set.mem_ofPred_eq, h.pairs p]
    constructor
    · rintro ⟨⟨n, hn, hp⟩, hne⟩
      obtain ⟨m, name⟩ := p
      refine ⟨n, List.mem_filter.mpr ⟨hn, decide_eq_true ?_⟩, hp⟩
      rw [Ne, h.text_iff hmac hspelled hn, (Node.pair?_eq.mp hp).1]
      exact fun heq => hne (Option.some.inj heq)
    · rintro ⟨n, hn, hp⟩
      obtain ⟨m, name⟩ := p
      obtain ⟨hn, htext⟩ := List.mem_filter.mp hn
      refine ⟨⟨n, hn, hp⟩, ?_⟩
      rintro rfl
      exact of_decide_eq_true htext ((h.text_iff hmac hspelled hn).mpr (Node.pair?_eq.mp hp).1)

/-- A device that leaves the table and not the file is loaded again. -/
theorem Mirrors.forgotten (h : Mirrors nodes a) {i : Fin maxPeers} (hi : a.addr i ≠ noMac) {k : KnownPeer}
    (hk : k.addr = noMac) (hknown : a'.knownPeers = Function.update a.knownPeers i k)
    (hfile : a'.file = .keys nodes) : ¬ Survives a' := by
  intro hsurvives
  obtain ⟨a₁, hparse, hpairs⟩ := hsurvives true
  obtain ⟨a₂, hparse', hpairs'⟩ := h.parses true
  rw [hfile, hparse'] at hparse
  obtain ⟨-, rfl⟩ := Prod.mk.inj (Except.ok.inj hparse)
  have hback : (a.knownPeers i).pair ∈ a'.pairs := by
    rw [← hpairs, hpairs']
    exact ⟨hi, i, rfl⟩
  rw [Adapter.pairs_release hknown hk (h.only hi)] at hback
  exact hback.2 rfl

theorem add_mirrors (h : Mirrors nodes a) (hplain : Plain (.addDevice mac key name, e)) :
    ∃ r a', a.addKnownDevice e mac key name = .ok (r, a') ∧ ∃ nodes', Mirrors nodes' a' := by
  cases hmac : nrf24Str2mac mac with
  | none => exact ⟨false, a, by simp only [Adapter.addKnownDevice, hmac], nodes, h⟩
  | some newDev =>
      have hno : newDev ≠ noMac := fun heq => hplain.device (hmac.trans (congrArg some heq))
      obtain ⟨r, a', hr, hadded⟩ := Adapter.addKnownDevice_spec h.counted hmac e key name
      have hcounted := (hadded.counted_iff h.counted).mpr fun heq => absurd heq hno
      have hfile := Adapter.addKnownDevice_file h.file hplain.readable hplain.spoilt hr
      refine ⟨r, a', hr, ?_⟩
      cases hadded with
      | known i eq hole same =>
          have hfile' := hfile.resolve_right fun hgrown => by
            have := hgrown.1.symm.trans same.knownPeersSize
            omega
          exact ⟨nodes, h.same same hfile'.2⟩
      | refused why => exact ⟨nodes, h⟩
      | added pos free registered new known size =>
          have hfile' := hfile.resolve_left fun hsame => by
            have := hsame.1.symm.trans size
            omega
          exact ⟨_, h.added hmac hno free (fun i hi => hno (new i hi).1) known hcounted hfile'.2⟩

/-- RemoveDevice keeps them the same exactly when the text of its argument is in the file. -/
theorem remove_mirrors (h : Mirrors nodes a) (hplain : Plain (.removeDevice mac, e)) :
    ∃ r a', a.removeKnownDevice e mac = (r, a') ∧
      (Spelled (.removeDevice mac, e) a → ∃ nodes', Mirrors nodes' a') ∧
      (Survives a' → Spelled (.removeDevice mac, e) a) := by
  cases hmac : nrf24Str2mac mac with
  | none =>
      refine ⟨false, a, by simp only [Adapter.removeKnownDevice, hmac], fun _ => ⟨nodes, h⟩, ?_⟩
      intro _ dev i hdev
      rw [hmac] at hdev
      cases hdev
  | some dev =>
      have hno : dev ≠ noMac := fun heq => hplain.device (hmac.trans (congrArg some heq))
      obtain ⟨r, a', hr, hremoved⟩ := Adapter.removeKnownDevice_spec hmac e a
      have hcounted := (hremoved.counted_iff h.counted).mpr fun heq => absurd heq hno
      refine ⟨r, a', hr, ?_⟩
      cases hremoved with
      | unknown none =>
          refine ⟨fun _ => ⟨nodes, h⟩, ?_⟩
          intro _ dev' i hdev hi
          rw [hmac] at hdev
          obtain rfl := Option.some.inj hdev
          exact absurd hi (none i)
      | kept i eq first registered =>
          refine ⟨fun _ => ⟨nodes, h⟩, ?_⟩
          intro _ dev' j hdev hj hun
          rw [hmac] at hdev
          obtain rfl := Option.some.inj hdev
          obtain rfl := h.only (eq ▸ hno) j (hj.trans eq.symm)
          have hun : e.unregister (a.knownPeers j).registrationId = true := hun
          rw [registered] at hun
          cases hun
      | removed i eq first unregistered known size =>
          have hnodes : ∀ n ∈ nodes, n.mac ≠ none := by
            intro n hn hnone
            obtain ⟨j, -, hj, -⟩ := h.entry hn
            rw [Node.addr?, hnone] at hj
            cases hj
          have hfile := Adapter.removeKnownDevice_file h.file hplain.readable hplain.spoilt hnodes hr
          constructor
          · intro hspelled
            obtain ⟨n, hn, htext⟩ := hspelled dev i hmac eq unregistered
            rw [h.loaded] at hn
            exact ⟨_, h.removed hmac hno eq rfl known hcounted ⟨n, hn, htext⟩ hfile⟩
          · intro hsurvives _ _ _ _ _
            by_contra hmissing
            rw [h.loaded] at hmissing
            -- nothing is taken out of the file
            have hkept : (nodes.filter fun n => n.mac ≠ some (some mac)) = nodes := by
              rw [List.filter_eq_self]
              intro n hn
              exact decide_eq_true fun htext => hmissing ⟨n, hn, htext⟩
            exact h.forgotten (eq ▸ hno) rfl known (hfile.trans (congrArg KeysFile.keys hkept)) hsurvives

/-- A request ends inside the table, and keeps the file and the table the same exactly when it is spelled as the
file is. -/
theorem step_mirrors {re : Request × DeviceEnv} (h : Mirrors nodes a) (hplain : Plain re) :
    ∃ r a', Adapter.step re a = .ok (r, a') ∧ (Spelled re a → ∃ nodes', Mirrors nodes' a') ∧
      (Survives a' → Spelled re a) := by
  obtain ⟨req, e⟩ := re
  cases req with
  | addDevice mac key name =>
      obtain ⟨r, a', hr, hmirrors⟩ := add_mirrors h hplain
      exact ⟨r, a', hr, fun _ => hmirrors, fun _ => trivial⟩
  | removeDevice mac =>
      obtain ⟨r, a', hr, hrest⟩ := remove_mirrors h hplain
      exact ⟨r, a', congrArg Except.ok hr, hrest⟩

end Requests

/-! ## Runs -/

/-- From an empty keys file, after every part of a run a fresh process would load the devices of the table with their
names, exactly when no RemoveDevice that frees an entry spells the address otherwise than the file. -/
theorem devices_survive_iff {created : Bool} {a : Adapter} (h : Adapter.parseNodes created (.keys []) = .ok (0, a))
    {reqs : List (Request × DeviceEnv)} (hplain : ∀ re ∈ reqs, Plain re) :
    (∀ done, done <+: reqs → ∃ rs a', exec Adapter.step done a = .ok (rs, a') ∧ Survives a') ↔
      Along Spelled Adapter.step reqs a := by
  have ha : ∃ nodes, Mirrors nodes a := by
    cases h
    exact ⟨[], mirrors_zero⟩
  refine exec_good_iff (I := fun a => ∃ nodes, Mirrors nodes a) ?_ ?_ ha
  · rintro a ⟨nodes, ha⟩
    exact ha.survives
  · rintro re hre a ⟨nodes, ha⟩
    exact step_mirrors ha (hplain re hre)

/-- Two devices are added, and one is removed as it was added. -/
def lampToDoor : List (Request × DeviceEnv) := [adding lampMac, adding doorMac, removing lampMac]

theorem devices_survive_replacing :
    ∃ a, Adapter.parseNodes true (.keys []) = .ok (0, a) ∧ ∀ done, done <+: lampToDoor →
      ∃ rs a', exec Adapter.step done a = .ok (rs, a') ∧ Survives a' := by
  obtain ⟨a, h⟩ : ∃ a, Adapter.parseNodes true (.keys []) = .ok (0, a) := ⟨_, rfl⟩
  have hplain : ∀ re ∈ lampToDoor, Plain re := by
    intro re hre
    simp only [lampToDoor, List.mem_cons, List.not_mem_nil, or_false] at hre
    rcases hre with rfl | rfl | rfl <;> exact ⟨by decide, rfl, rfl⟩
  refine ⟨a, h, (devices_survive_iff h hplain).mpr ?_⟩
  cases h
  apply Along.cons trivial rfl
  apply Along.cons trivial rfl
  refine Along.cons ?_ rfl trivial
  intro dev i _ _ _
  exact ⟨_, List.mem_cons_self, rfl⟩

def capitals (str : Text) : Text := str.map fun c => if 0x61 ≤ c ∧ c ≤ 0x7A then c - 0x20 else c

def gateMac : Mac := ⟨[0xAB, 0x10, 0xCD, 0x20, 0xEF, 0x30, 0x40, 0x50], rfl⟩

/-- A device is added, and removed by its address in capital letters. -/
def revoking : List (Request × DeviceEnv) :=
  [adding gateMac, (.removeDevice (capitals (nrf24Mac2str gateMac)), obliging)]

/-- The device is removed from the table, but it stays in the file, and the next process loads it. -/
theorem revoked_device_returns :
    (∀ re ∈ revoking, Plain re) ∧ nrf24Str2mac (capitals (nrf24Mac2str gateMac)) = some gateMac ∧
      ∃ a a' a'', Adapter.parseNodes true (.keys []) = .ok (0, a) ∧
        exec Adapter.step revoking a = .ok ([true, true], a') ∧ a'.pairs = ∅ ∧
        Adapter.parseNodes true a'.file = .ok (0, a'') ∧ (gateMac, some []) ∈ a''.pairs ∧ ¬ Survives a' := by
  have hplain : ∀ re ∈ revoking, Plain re := by
    intro re hre
    simp only [revoking, List.mem_cons, List.not_mem_nil, or_false] at hre
    rcases hre with rfl | rfl <;> exact ⟨by decide, rfl, rfl⟩
  obtain ⟨a', hrun, hfree, a'', hparse, hloaded⟩ : ∃ a',
      exec Adapter.step revoking (Adapter.zero (.keys [])) = .ok ([true, true], a') ∧ (∀ i, a'.addr i = noMac) ∧
        ∃ a'', Adapter.parseNodes true a'.file = .ok (0, a'') ∧
          (a''.knownPeers (0 : Fin 5)).pair = (gateMac, some []) :=
    ⟨_, rfl, by decide, _, rfl, rfl⟩
  have hempty : a'.pairs = ∅ := by
    ext p
    rw [Adapter.mem_pairs, Set.mem_empty_iff_false, iff_false]
    rintro ⟨hp, i, rfl⟩
    exact hp (hfree i)
  have hmem : (gateMac, some []) ∈ a''.pairs := ⟨by decide, _, hloaded⟩
  refine ⟨hplain, by decide, _, a', a'', rfl, hrun, hempty, hparse, hmem, ?_⟩
  intro hsurvives
  obtain ⟨a₁, hparse', hpairs⟩ := hsurvives true
  obtain ⟨-, rfl⟩ := ok_unique hparse hparse'
  rw [hpairs, hempty] at hmem
  exact hmem

end KnotHal.Nrfd
