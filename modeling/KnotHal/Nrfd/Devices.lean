import KnotHal.Nrfd.Known

/-!
# Loading, adding and removing devices

Runs of AddDevice and RemoveDevice from what `parse_nodes` loads. The counter `known_peers_size` is right
about the table, and the loop of `add_known_device` stays inside it, as long as no request makes an entry
of the address that marks the free ones.

* `parseNodes_spec` : what an accepted keys file leaves in the table;
* `step_counted` : the effect of one request on the counter;
* `counted_throughout_iff` : exactly which runs keep the counter right.
-/

namespace KnotHal.Nrfd

open Machine Slots Nrf24

/-! ## The keys file -/

/-- The address of a node, where it has one that `nrf24_str2mac` accepts. -/
def Node.addr? (n : Node) : Option Mac := n.mac.join.bind nrf24Str2mac

/-- The nodes that `parse_nodes` loads. -/
def KeysFile.loaded : KeysFile → List Node
  | .keys nodes => nodes.take maxPeers
  | .unreadable | .noKeys => []

namespace Adapter

variable {a a' : Adapter}

theorem parseNodesFrom_cons {i : Fin maxPeers} {n : Node} {ps : List (Fin maxPeers × Node)}
    (h : parseNodesFrom ((i, n) :: ps) a = .ok (0, a')) :
    ∃ mac a₁, n.addr? = some mac ∧ a₁.addr = Function.update a.addr i mac ∧
      a₁.knownPeersSize = a.knownPeersSize + 1 ∧ parseNodesFrom ps a₁ = .ok (0, a') := by
  unfold parseNodesFrom at h
  split at h
  · cases h
  · cases h
  · rename_i str hstr
    split at h
    · cases h
    · rename_i mac hmac
      dsimp only at h
      split at h
      · cases h
      · rename_i name hname
        refine ⟨mac, _, by simp [Node.addr?, hstr, hmac], ?_, rfl, h⟩
        refine Eq.trans (addr_setKnown_same ?_) (addr_setKnown a i { a.knownPeers i with addr := mac })
        rfl

theorem parseNodesFrom_spec {ps : List (Fin maxPeers × Node)} (hn : (ps.map Prod.fst).Nodup)
    (hfree : ∀ p ∈ ps, a.addr p.1 = noMac) (h : parseNodesFrom ps a = .ok (0, a')) :
    a'.knownPeersSize + taken noMac a.addr (List.finRange maxPeers) = a.knownPeersSize +
      taken noMac a'.addr (List.finRange maxPeers) + ps.countP (fun p => p.2.addr? = some noMac) ∧
    contents noMac a'.addr = contents noMac a.addr ∪ {m | m ≠ noMac ∧ ∃ p ∈ ps, p.2.addr? = some m} := by
  induction ps generalizing a with
  | nil =>
      cases h
      simp
  | cons p ps ih =>
      obtain ⟨i, n⟩ := p
      obtain ⟨mac, a₁, hmac, haddr, hsize, h⟩ := parseNodesFrom_cons h
      obtain ⟨hi, hn⟩ := List.nodup_cons.mp hn
      have hi0 : a.addr i = noMac := hfree (i, n) List.mem_cons_self
      have hfree₁ : ∀ p ∈ ps, a₁.addr p.1 = noMac := fun p hp => by
        have hmem : p.1 ∈ ps.map Prod.fst := List.mem_map_of_mem hp
        have hpi : p.1 ≠ i := fun hpi => hi (hpi ▸ hmem)
        rw [haddr, Function.update_of_ne hpi]
        exact hfree p (List.mem_cons_of_mem _ hp)
      obtain ⟨hcount, hset⟩ := ih hn hfree₁ h
      have htaken := taken_update noMac a.addr mac (List.nodup_finRange maxPeers) (List.mem_finRange i)
      rw [if_pos hi0, ← haddr] at htaken
      refine ⟨?_, ?_⟩
      · rw [List.countP_cons]
        by_cases hno : mac = noMac
        · rw [if_pos hno] at htaken
          rw [if_pos (by simpa [hmac] using hno)]
          omega
        · rw [if_neg hno] at htaken
          rw [if_neg (by simpa [hmac] using hno)]
          omega
      · rw [hset, haddr]
        ext m
        by_cases hno : mac = noMac
        · rw [hno, ← hi0, Function.update_eq_self]
          simp only [Set.mem_union, Set.mem_ofPred_eq, List.mem_cons, exists_eq_or_imp, hmac, Option.some.injEq]
          refine or_congr_right (and_congr_right fun hm => (or_iff_right fun h => ?_).symm)
          exact hm (h.symm.trans (hno.trans hi0.symm))
        · rw [contents_occupy hi0 hno]
          simp only [Set.mem_union, Set.mem_insert_iff, Set.mem_ofPred_eq, List.mem_cons, exists_eq_or_imp, hmac,
            Option.some.injEq]
          constructor
          · rintro ((rfl | h) | ⟨hm, h⟩)
            · exact Or.inr ⟨hno, Or.inl rfl⟩
            · exact Or.inl h
            · exact Or.inr ⟨hm, Or.inr h⟩
          · rintro (h | ⟨hm, rfl | h⟩)
            · exact Or.inl (Or.inr h)
            · exact Or.inl (Or.inl rfl)
            · exact Or.inr ⟨hm, h⟩

theorem map_snd_zip (nodes : List Node) :
    ((List.finRange maxPeers).zip nodes).map Prod.snd = nodes.take maxPeers := by
  rw [List.zip_eq_zip_take_min, List.map_snd_zip (by simp)]
  simp

theorem nodup_map_fst_zip (nodes : List Node) : (((List.finRange maxPeers).zip nodes).map Prod.fst).Nodup := by
  rw [List.zip_eq_zip_take_min, List.map_fst_zip (by simp)]
  exact (List.nodup_finRange maxPeers).sublist (List.take_sublist _ _)

theorem parseNodes_spec {created : Bool} {file : KeysFile} (h : parseNodes created file = .ok (0, a)) :
    (a.Counted ↔ ∀ n ∈ file.loaded, n.addr? ≠ some noMac) ∧
      contents noMac a.addr = {m | m ≠ noMac ∧ ∃ n ∈ file.loaded, n.addr? = some m} := by
  have hzero : ∀ file, taken noMac (zero file).addr (List.finRange maxPeers) = 0 := fun file =>
    taken_eq_zero.mpr fun _ _ => rfl
  have hempty : ∀ file, contents noMac (zero file).addr = ∅ := fun file => by
    ext m
    rw [mem_contents]
    constructor
    · rintro ⟨hm, _, hi⟩
      exact absurd hi.symm hm
    · intro hm
      exact hm.elim
  have hfresh : ∀ file, (zero file).Counted ∧ contents noMac (zero file).addr = ∅ := fun file =>
    ⟨(hzero file).symm, hempty file⟩
  cases file with
  | keys nodes =>
      obtain ⟨hcount, hset⟩ := parseNodesFrom_spec (nodup_map_fst_zip nodes) (fun _ _ => rfl) h
      rw [hzero] at hcount
      have hsize : (zero (.keys nodes)).knownPeersSize = 0 := rfl
      refine ⟨?_, ?_⟩
      · have hnone : ((List.finRange maxPeers).zip nodes).countP (fun p => p.2.addr? = some noMac) = 0 ↔
            ∀ n ∈ nodes.take maxPeers, n.addr? ≠ some noMac := by
          rw [← map_snd_zip, List.forall_mem_map, List.countP_eq_zero]
          simp
        rw [KeysFile.loaded, ← hnone, Counted]
        omega
      · rw [hset, hempty, Set.empty_union]
        ext m
        rw [KeysFile.loaded, ← map_snd_zip]
        simp only [Set.mem_ofPred_eq, List.mem_map, Prod.exists, exists_eq_right, and_congr_right_iff]
        intro _
        constructor
        · rintro ⟨i, n, hp, hm⟩
          exact ⟨n, ⟨i, hp⟩, hm⟩
        · rintro ⟨n, ⟨i, hp⟩, hm⟩
          exact ⟨i, n, hp, hm⟩
  | unreadable =>
      obtain ⟨f, rfl⟩ : ∃ f, a = zero f := by
        cases created <;> cases h
        exact ⟨_, rfl⟩
      simp [hfresh f, KeysFile.loaded]
  | noKeys =>
      obtain ⟨f, rfl⟩ : ∃ f, a = zero f := by
        cases created <;> cases h
        exact ⟨_, rfl⟩
      simp [hfresh f, KeysFile.loaded]

end Adapter

/-! ## Requests -/

/-- A request that makes no entry of the address that marks the free ones: it does not add that address
where the loop runs to its end and the object is registered, nor remove it where a free entry has an
object. -/
def Sound (re : Request × DeviceEnv) (a : Adapter) : Prop :=
  match re.1 with
  | .addDevice mac _ _ => nrf24Str2mac mac = some noMac →
      Hole a.addr (List.finRange maxPeers) ∨ (∀ i, a.addr i ≠ noMac) ∨ re.2.register = 0
  | .removeDevice mac => nrf24Str2mac mac = some noMac → ∀ i, a.addr i = noMac → (∀ j < i, a.addr j ≠ noMac) →
      re.2.unregister (a.knownPeers i).registrationId = false

/-- A request ends inside the table, and keeps the counter right exactly when it is sound. -/
theorem step_counted (re : Request × DeviceEnv) (a : Adapter) (ha : a.Counted) :
    ∃ r a', Adapter.step re a = .ok (r, a') ∧ (a'.Counted ↔ Sound re a) := by
  obtain ⟨req, e⟩ := re
  cases req with
  | addDevice mac key name =>
      cases hmac : nrf24Str2mac mac with
      | none =>
          refine ⟨false, a, by simp [Adapter.step, Adapter.addKnownDevice, hmac], ?_⟩
          simp [Sound, hmac, ha]
      | some newDev =>
          obtain ⟨r, a', h, hadded⟩ := Adapter.addKnownDevice_spec ha hmac e key name
          refine ⟨r, a', h, ?_⟩
          rw [hadded.counted_iff ha]
          simp only [Sound, hmac, Option.some.injEq]
  | removeDevice mac =>
      cases hmac : nrf24Str2mac mac with
      | none =>
          refine ⟨false, a, by simp [Adapter.step, Adapter.removeKnownDevice, hmac], ?_⟩
          simp [Sound, hmac, ha]
      | some dev =>
          obtain ⟨r, a', h, hremoved⟩ := Adapter.removeKnownDevice_spec hmac e a
          refine ⟨r, a', congrArg Except.ok h, ?_⟩
          rw [hremoved.counted_iff ha]
          simp only [Sound, hmac, Option.some.injEq]

/-- After every part of a run the counter is right and at most `MAX_PEERS`, and no loop has left the table,
exactly when the keys file has no node with address 0 among those loaded and all requests are sound. -/
theorem counted_throughout_iff {created : Bool} {file : KeysFile} {a : Adapter}
    (h : Adapter.parseNodes created file = .ok (0, a)) (reqs : List (Request × DeviceEnv)) :
    (∀ done, done <+: reqs → ∃ rs a', exec Adapter.step done a = .ok (rs, a') ∧
      a'.knownPeersSize = taken noMac a'.addr (List.finRange maxPeers) ∧ a'.knownPeersSize ≤ maxPeers) ↔
      (∀ n ∈ file.loaded, n.addr? ≠ some noMac) ∧ Along Sound Adapter.step reqs a := by
  rw [← (Adapter.parseNodes_spec h).1]
  have hle : ∀ {a' : Adapter}, a'.knownPeersSize = taken noMac a'.addr (List.finRange maxPeers) ∧
      a'.knownPeersSize ≤ maxPeers ↔ a'.Counted := ⟨fun h => h.1, fun h => ⟨h, Adapter.Counted.le h⟩⟩
  simp only [hle]
  constructor
  · intro hall
    have ha : a.Counted := by
      obtain ⟨rs, a', hrun, ha'⟩ := hall [] (List.nil_prefix)
      rwa [(exec_nil_ok.mp hrun).2] at ha'
    exact ⟨ha, (exec_always_iff step_counted ha).mp hall⟩
  · rintro ⟨ha, hsound⟩
    exact (exec_always_iff step_counted ha).mpr hsound

/-- D-Bus knows the object 7, and the keys file can be read and written. -/
def obliging : DeviceEnv where
  register := 7
  unregister := fun id => id = 7
  readable := true
  spoilt := none

def lampMac : Mac := ⟨[0x88, 0x77, 0x66, 0x55, 0x44, 0x33, 0x22, 0x11], rfl⟩
def doorMac : Mac := ⟨[0x01, 0x00, 0x00, 0x00, 0x00, 0x00, 0x00, 0x02], rfl⟩

def node (mac : Mac) : Node := ⟨some (some (nrf24Mac2str mac)), some (some [])⟩

def adding (mac : Mac) : Request × DeviceEnv := (.addDevice (nrf24Mac2str mac) [] [], obliging)

def removing (mac : Mac) : Request × DeviceEnv := (.removeDevice (nrf24Mac2str mac), obliging)

/-- A device is loaded, another one added, the first one removed and the second one removed. -/
theorem counted_throughout_pair :
    ∃ a, Adapter.parseNodes true (.keys [node lampMac]) = .ok (0, a) ∧
      ∀ done, done <+: [adding doorMac, removing lampMac, removing doorMac] →
        ∃ rs a', exec Adapter.step done a = .ok (rs, a') ∧
          a'.knownPeersSize = taken noMac a'.addr (List.finRange maxPeers) ∧ a'.knownPeersSize ≤ maxPeers := by
  obtain ⟨a, h⟩ : ∃ a, Adapter.parseNodes true (.keys [node lampMac]) = .ok (0, a) := ⟨_, rfl⟩
  refine ⟨a, h, (counted_throughout_iff h _).mpr ⟨by decide, along_of_forall ?_ _⟩⟩
  intro re hre a
  simp only [List.mem_cons, List.not_mem_nil, or_false] at hre
  rcases hre with rfl | rfl | rfl <;> exact fun h => absurd h (by decide)

/-- The address of the free entries is added to an empty table: the counter is 1 and no entry is taken, and
the next AddDevice reads behind the table. -/
theorem noMac_overruns :
    ∃ a, Adapter.parseNodes true (.keys []) = .ok (0, a) ∧
      (∃ a', exec Adapter.step [adding noMac] a = .ok ([true], a') ∧ a'.knownPeersSize = 1 ∧
        taken noMac a'.addr (List.finRange maxPeers) = 0) ∧
      exec Adapter.step [adding noMac, adding lampMac] a = .error (.index maxPeers) :=
  ⟨_, rfl, ⟨_, rfl, rfl, by decide⟩, rfl⟩

end KnotHal.Nrfd
