import KnotHal.Lib.Machine
import KnotHal.Lib.Slots
import KnotHal.Nrf24.MacText

/-!
# The known devices of `manager.c`

The table `known_peers` with its counter, the keys file behind it, and the functions that load, extend,
shrink and search the table. An entry is free where its address is 0. What D-Bus and the file system do is
in `DeviceEnv`. json-c is not part of the repository: a keys file is what its accessors say of it, and what
it writes it reads back.

* `addKnownDevice`, `removeKnownDevice`, `checkPermission`, `parseNodes` : the functions;
* `scanKnown_spec` : what the loop of `add_known_device` finds in a table whose counter is right;
* `addKnownDevice_spec`, `removeKnownDevice_spec` : what a request does to the table;
* `Added.counted_iff`, `Removed.counted_iff` : exactly when the counter stays right.
-/

namespace KnotHal.Nrfd

open Machine Slots Nrf24

def maxPeers : Nat := 5

/-- The address of a free entry. -/
def noMac : Mac := Buf.zero 8

/-! ## The keys file -/

/-- An element of `keys` as `json_object_object_get_ex` and `json_object_get_string` give it: its "mac" and its
"name", if it has them, which are the null pointer for a JSON null. -/
structure Node where
  mac : Option (Option Text)
  name : Option (Option Text)
deriving DecidableEq

/-- What `json_object_from_file` and the search for "keys" make of the keys file. -/
inductive KeysFile
  | unreadable
  | noKeys
  | keys (nodes : List Node)
deriving DecidableEq

/-! ## The table -/

structure KnownPeer where
  addr : Mac
  registrationId : Nat
  aliasName : Option Text
  status : Bool
deriving DecidableEq

/-- `struct adapter`, with the keys file that `file_name` names. -/
structure Adapter where
  file : KeysFile
  knownPeers : Fin maxPeers → KnownPeer
  knownPeersSize : Nat

/-- What D-Bus and the file system do during one request. -/
structure DeviceEnv where
  /-- the id that `g_dbus_connection_register_object` returns, 0 where it fails -/
  register : Nat
  /-- whether `g_dbus_connection_unregister_object` finds the id -/
  unregister : Nat → Bool
  /-- whether the keys file can be read -/
  readable : Bool
  /-- what is left of the keys file where writing it fails -/
  spoilt : Option KeysFile

namespace Adapter

def zero (file : KeysFile) : Adapter where
  file := file
  knownPeers := fun _ => ⟨noMac, 0, none, false⟩
  knownPeersSize := 0

def addr (a : Adapter) (i : Fin maxPeers) : Mac := (a.knownPeers i).addr

def setKnown (a : Adapter) (i : Fin maxPeers) (k : KnownPeer) : Adapter :=
  { a with knownPeers := Function.update a.knownPeers i k }

/-- `json_object_to_file`: what is written is what will be read. -/
def save (e : DeviceEnv) (nodes : List Node) (a : Adapter) : Adapter :=
  { a with file := e.spoilt.getD (.keys nodes) }

/-- `write_file`; without `key` and `name` the address is removed. -/
def writeFile (e : DeviceEnv) (mac : Text) (key name : Option Text) (a : Adapter) : Int × Adapter :=
  match e.readable, a.file with
  | true, .keys nodes =>
      match name, key with
      | none, none =>
          if nodes.any (·.mac.isNone) then (-einval, a)
          else (0, a.save e (nodes.filter fun n => n.mac ≠ some (some mac)))
      | none, some _ => (0, a)
      | some name, _ => (0, a.save e (nodes ++ [⟨some (some mac), some (some name)⟩]))
  | _, _ => (-einval, a)

def newDeviceObject (e : DeviceEnv) (pos : Fin maxPeers) (a : Adapter) : Int × Adapter :=
  if e.register = 0 then (-1, a)
  else (0, a.setKnown pos { a.knownPeers pos with registrationId := e.register })

end Adapter

/-- How the loop of `add_known_device` ends: with an equal address, or behind the entries it counted. -/
inductive Scan
  | found
  | absent (freePos : Option (Fin maxPeers))
deriving DecidableEq

/-- The loop of `add_known_device` over the entries from `i` on, the head of the list. It goes on until
`alloc_pos` taken entries were seen, and reads behind the table where there are fewer. -/
def scanKnown (newDev : Mac) (size : Nat) (addr : Fin maxPeers → Mac) :
    List (Fin maxPeers) → Nat → Option (Fin maxPeers) → Except Fault Scan
  | [], allocPos, freePos =>
    if allocPos < size then .error (.index maxPeers) else .ok (.absent freePos)
  | i :: is, allocPos, freePos =>
    if allocPos < size then
      if addr i = newDev then .ok .found
      else if addr i ≠ noMac then scanKnown newDev size addr is (allocPos + 1) freePos
      else scanKnown newDev size addr is allocPos (freePos.or (some i))
    else .ok (.absent (freePos.or (some i)))

namespace Adapter

def addKnownDevice (e : DeviceEnv) (mac key name : Text) (a : Adapter) : Except Fault (Bool × Adapter) :=
  match nrf24Str2mac mac with
  | none => .ok (false, a)
  | some newDev => do
      let r ← scanKnown newDev a.knownPeersSize a.addr (List.finRange maxPeers) 0 none
      match r with
      | .found => return (true, (a.writeFile e mac (some key) none).2)
      | .absent freePos =>
        if a.knownPeersSize < maxPeers then
          match freePos with
          | none => .error (.index maxPeers)
          | some pos =>
            let (err, a) := a.newDeviceObject e pos
            if err < 0 then return (false, a)
            let a := a.setKnown pos { a.knownPeers pos with addr := newDev, aliasName := some name, status := false }
            let (_, a) := a.writeFile e mac (some key) (some name)
            return (true, { a with knownPeersSize := a.knownPeersSize + 1 })
        else return (false, a)

/-- `remove_known_device`; the counter is a `guint`. -/
def removeKnownDevice (e : DeviceEnv) (mac : Text) (a : Adapter) : Bool × Adapter :=
  match nrf24Str2mac mac with
  | none => (false, a)
  | some dev =>
    match (List.finRange maxPeers).find? fun i => a.addr i = dev with
    | none => (false, a)
    | some i =>
      if e.unregister (a.knownPeers i).registrationId then
        let a := { a.setKnown i { a.knownPeers i with addr := noMac, aliasName := none } with
          knownPeersSize := (a.knownPeersSize + (2 ^ 32 - 1)) % 2 ^ 32 }
        (true, (a.writeFile e mac none none).2)
      else (false, a)

def checkPermission (mac : Mac) (a : Adapter) : Int :=
  if ∃ i, mac = a.addr i then 0 else -eperm

/-- The loop of `parse_nodes`. -/
def parseNodesFrom : List (Fin maxPeers × Node) → Adapter → Except Fault (Int × Adapter)
  | [], a => .ok (0, a)
  | (i, node) :: rest, a =>
    match node.mac with
    | none => .ok (-einval, a)
    | some none => .error .null
    | some (some str) =>
      match nrf24Str2mac str with
      | none => .ok (-einval, a)
      | some mac =>
        let a := { a.setKnown i { a.knownPeers i with addr := mac } with knownPeersSize := a.knownPeersSize + 1 }
        match node.name with
        | none => .ok (-einval, a)
        | some name =>
          parseNodesFrom rest (a.setKnown i { a.knownPeers i with aliasName := name, status := false })

/-- `parse_nodes`; a file that is no JSON or has no "keys" is written anew where `fopen` succeeds. Of more
than `MAX_PEERS` nodes the first ones are loaded. -/
def parseNodes (created : Bool) (file : KeysFile) : Except Fault (Int × Adapter) :=
  match file with
  | .keys nodes => parseNodesFrom ((List.finRange maxPeers).zip nodes) (zero file)
  | .unreadable | .noKeys => .ok (if created then (0, zero (.keys [])) else (-einval, zero file))

/-- The registrations of `on_bus_acquired` with `left` devices to go; `ids j` is what the `j`-th returns. -/
def registerFrom (ids : Nat → Nat) : (left j k : Nat) → Adapter → Except Fault Adapter
  | 0, _, _, a => .ok a
  | left + 1, j, k, a =>
    if ids j = 0 then registerFrom ids left (j + 1) k a
    else if h : k < maxPeers then
      registerFrom ids left (j + 1) (k + 1) (a.setKnown ⟨k, h⟩ { a.knownPeers ⟨k, h⟩ with registrationId := ids j })
    else .error (.index k)

def onBusAcquired (ids : Nat → Nat) (a : Adapter) : Except Fault Adapter :=
  registerFrom ids a.knownPeersSize 0 0 a

end Adapter

inductive Request
  | addDevice (mac key name : Text)
  | removeDevice (mac : Text)

/-- `handle_method_call`, with the response. -/
def Adapter.step (re : Request × DeviceEnv) (a : Adapter) : Except Fault (Bool × Adapter) :=
  match re.1 with
  | .addDevice mac key name => a.addKnownDevice re.2 mac key name
  | .removeDevice mac => .ok (a.removeKnownDevice re.2 mac)

/-! ## What the functions leave alone -/

namespace Adapter

variable {e : DeviceEnv} {a a' : Adapter}

theorem parseNodesFrom_ret {ps : List (Fin maxPeers × Node)} {ret : Int} (h : parseNodesFrom ps a = .ok (ret, a')) :
    ret = 0 ∨ ret < 0 := by
  induction ps generalizing a with
  | nil =>
      cases h
      exact Or.inl rfl
  | cons p ps ih =>
      obtain ⟨i, n⟩ := p
      have herr : -einval < 0 := by decide
      unfold parseNodesFrom at h
      split at h
      · cases h
        exact Or.inr herr
      · cases h
      · split at h
        · cases h
          exact Or.inr herr
        · dsimp only at h
          split at h
          · cases h
            exact Or.inr herr
          · exact ih h

theorem parseNodes_ret {created : Bool} {file : KeysFile} {ret : Int} (h : parseNodes created file = .ok (ret, a)) :
    ret = 0 ∨ ret < 0 := by
  have hnew : ∀ f : KeysFile, (Except.ok (if created then (0, zero (.keys [])) else (-einval, zero f)) :
      Except Fault (Int × Adapter)) = .ok (ret, a) → ret = 0 ∨ ret < 0 := fun f h => by
    cases created <;> cases h
    · exact Or.inr (by decide)
    · exact Or.inl rfl
  cases file with
  | keys nodes => exact parseNodesFrom_ret h
  | unreadable => exact hnew _ h
  | noKeys => exact hnew _ h

theorem addr_setKnown (a : Adapter) (i : Fin maxPeers) (k : KnownPeer) :
    (a.setKnown i k).addr = Function.update a.addr i k.addr := by
  funext j
  by_cases h : j = i
  · subst h; simp [addr, setKnown]
  · simp [addr, setKnown, h]

theorem addr_setKnown_same {i : Fin maxPeers} {k : KnownPeer} (h : k.addr = a.addr i) :
    (a.setKnown i k).addr = a.addr := by
  rw [addr_setKnown, h, Function.update_eq_self]

/-- The two adapters differ in the keys file only. -/
structure SameTable (a a' : Adapter) : Prop where
  knownPeers : a'.knownPeers = a.knownPeers
  knownPeersSize : a'.knownPeersSize = a.knownPeersSize

theorem SameTable.addr (h : SameTable a a') : a'.addr = a.addr := by
  ext1 i; simp only [Adapter.addr, h.knownPeers]

theorem sameTable_writeFile (e : DeviceEnv) (mac : Text) (key name : Option Text) (a : Adapter) :
    SameTable a (a.writeFile e mac key name).2 := by
  unfold writeFile
  split
  · split
    · split <;> exact ⟨rfl, rfl⟩
    · exact ⟨rfl, rfl⟩
    · exact ⟨rfl, rfl⟩
  · exact ⟨rfl, rfl⟩

end Adapter

/-! ## The loop of `add_known_device` -/

section ScanLemmas
variable {newDev : Mac} {size : Nat} {addr : Fin maxPeers → Mac}

/-- A free entry stands before a taken one. -/
def Hole (addr : Fin maxPeers → Mac) (is : List (Fin maxPeers)) : Prop :=
  ∃ i ∈ is, ∃ j ∈ is, i < j ∧ addr i = noMac ∧ addr j ≠ noMac

/-- What the loop finds among the entries `is`, when the counter is right about them. -/
inductive Finds (newDev : Mac) (addr : Fin maxPeers → Mac) (is : List (Fin maxPeers)) (hole : Option (Fin maxPeers)) :
    Scan → Prop
  | found (i : Fin maxPeers) (mem : i ∈ is) (eq : addr i = newDev) (free : newDev = noMac → Hole addr is) :
      Finds newDev addr is hole .found
  | absent (pos : Option (Fin maxPeers)) (new : ∀ i ∈ is, addr i = newDev → newDev = noMac ∧ ¬ Hole addr is)
      (free : ∀ i, pos = some i → hole = some i ∨ i ∈ is ∧ addr i = noMac)
      (full : pos = none → hole = none ∧ ∀ i ∈ is, addr i ≠ noMac) : Finds newDev addr is hole (.absent pos)

section
variable {is : List (Fin maxPeers)} {i : Fin maxPeers} {hole : Option (Fin maxPeers)} {r : Scan}

theorem Hole.cons (i : Fin maxPeers) (h : Hole addr is) : Hole addr (i :: is) := by
  obtain ⟨j, hj, k, hk, h⟩ := h
  exact ⟨j, List.mem_cons_of_mem i hj, k, List.mem_cons_of_mem i hk, h⟩

theorem Hole.of_cons (hlt : ∀ j ∈ is, i < j) (hi : addr i ≠ noMac) (h : Hole addr (i :: is)) : Hole addr is := by
  obtain ⟨j, hj, k, hk, hjk, hfree, htaken⟩ := h
  have hj' : j ∈ is := (List.mem_cons.mp hj).resolve_left fun hji => hi (hji ▸ hfree)
  have hk' : k ∈ is := (List.mem_cons.mp hk).resolve_left fun hki => lt_asymm hjk (hki ▸ hlt j hj')
  exact ⟨j, hj', k, hk', hjk, hfree, htaken⟩

theorem Finds.skipFree (hfree : addr i = noMac) (hne : addr i ≠ newDev)
    (h : Finds newDev addr is (hole.or (some i)) r) : Finds newDev addr (i :: is) hole r := by
  have hno : newDev ≠ noMac := fun hno => hne (hfree.trans hno.symm)
  cases h with
  | found k mem eq free => exact .found k (List.mem_cons_of_mem i mem) eq fun h => absurd h hno
  | absent pos new free full =>
      refine .absent pos (fun k hk heq => ?_) (fun q hq => ?_) (fun hpos => ?_)
      · rcases List.mem_cons.mp hk with rfl | hk
        · exact absurd heq hne
        · exact absurd (new k hk heq).1 hno
      · rcases free q hq with hor | ⟨hmem, hq⟩
        · rcases Option.or_eq_some_iff.mp hor with h | ⟨-, h⟩
          · exact Or.inl h
          · obtain rfl := Option.some.inj h
            exact Or.inr ⟨List.mem_cons_self, hfree⟩
        · exact Or.inr ⟨List.mem_cons_of_mem i hmem, hq⟩
      · have hor := (full hpos).1
        rw [Option.or_eq_none_iff] at hor
        cases hor.2

theorem Finds.skipTaken (hlt : ∀ j ∈ is, i < j) (htaken : addr i ≠ noMac) (hne : addr i ≠ newDev)
    (h : Finds newDev addr is hole r) : Finds newDev addr (i :: is) hole r := by
  cases h with
  | found k mem eq free => exact .found k (List.mem_cons_of_mem i mem) eq fun h => (free h).cons i
  | absent pos new free full =>
      refine .absent pos (fun k hk heq => ?_) (fun q hq => ?_) (fun hpos => ⟨(full hpos).1, ?_⟩)
      · rcases List.mem_cons.mp hk with rfl | hk
        · exact absurd heq hne
        · exact ⟨(new k hk heq).1, fun hhole => (new k hk heq).2 (hhole.of_cons hlt htaken)⟩
      · exact (free q hq).imp_right fun h => ⟨List.mem_cons_of_mem i h.1, h.2⟩
      · rintro k hk
        rcases List.mem_cons.mp hk with rfl | hk
        · exact htaken
        · exact (full hpos).2 k hk

theorem Finds.stop (h : ∀ k ∈ i :: is, addr k = noMac) :
    Finds newDev addr (i :: is) hole (.absent (hole.or (some i))) := by
  refine .absent _ (fun k hk heq => ⟨heq.symm.trans (h k hk), ?_⟩) (fun q hq => ?_) (fun hpos => ?_)
  · rintro ⟨-, -, j, hj, -, -, htaken⟩
    exact htaken (h j hj)
  · rcases Option.or_eq_some_iff.mp hq with hq | ⟨-, hq⟩
    · exact Or.inl hq
    · obtain rfl := Option.some.inj hq
      exact Or.inr ⟨List.mem_cons_self, h i List.mem_cons_self⟩
  · rw [Option.or_eq_none_iff] at hpos
    cases hpos.2

end

/-- The loop ends inside the table, when the counter is right. -/
theorem scanKnown_spec (newDev : Mac) {is : List (Fin maxPeers)} (hsort : is.Pairwise (· < ·)) (allocPos : Nat)
    (hole : Option (Fin maxPeers)) (hsize : size = allocPos + taken noMac addr is) :
    ∃ r, scanKnown newDev size addr is allocPos hole = .ok r ∧ Finds newDev addr is hole r := by
  induction is generalizing allocPos hole with
  | nil =>
      rw [taken_nil] at hsize
      refine ⟨.absent hole, by rw [scanKnown, if_neg (by omega)], .absent hole (by simp) (fun _ => Or.inl) ?_⟩
      exact fun h => ⟨h, by simp⟩
  | cons i is ih =>
      obtain ⟨hlt, hsort⟩ := List.pairwise_cons.mp hsort
      rw [taken_cons] at hsize
      unfold scanKnown
      by_cases hmore : allocPos < size
      · rw [if_pos hmore]
        by_cases heq : addr i = newDev
        · rw [if_pos heq]
          refine ⟨.found, rfl, .found i List.mem_cons_self heq fun hno => ?_⟩
          -- the loop goes on, so a taken entry is still to come
          rw [if_pos (heq.trans hno)] at hsize
          obtain ⟨j, hj, htaken⟩ : ∃ j ∈ is, addr j ≠ noMac := by
            by_contra hall
            have h0 : taken noMac addr is = 0 :=
              taken_eq_zero.mpr fun j hj => not_not.mp fun hne => hall ⟨j, hj, hne⟩
            omega
          exact ⟨i, List.mem_cons_self, j, List.mem_cons_of_mem i hj, hlt j hj, heq.trans hno, htaken⟩
        · rw [if_neg heq]
          by_cases hfree : addr i = noMac
          · rw [if_neg (not_not.mpr hfree)]
            rw [if_pos hfree] at hsize
            obtain ⟨r, hr, hfinds⟩ := ih hsort allocPos (hole.or (some i)) (by omega)
            exact ⟨r, hr, hfinds.skipFree hfree heq⟩
          · rw [if_pos hfree]
            rw [if_neg hfree] at hsize
            obtain ⟨r, hr, hfinds⟩ := ih hsort (allocPos + 1) hole (by omega)
            exact ⟨r, hr, hfinds.skipTaken hlt hfree heq⟩
      · rw [if_neg hmore]
        have hnone : taken noMac addr (i :: is) = 0 := by rw [taken_cons]; omega
        exact ⟨_, rfl, .stop (taken_eq_zero.mp hnone)⟩

end ScanLemmas

/-! ## What a request does to the table -/

namespace Adapter

variable {e : DeviceEnv} {a a' : Adapter} {dev newDev : Mac} {r : Bool} {mac key name : Text}

def Counted (a : Adapter) : Prop := a.knownPeersSize = taken noMac a.addr (List.finRange maxPeers)

theorem Counted.le (ha : a.Counted) : a.knownPeersSize ≤ maxPeers := by
  have := taken_le_length noMac a.addr (List.finRange maxPeers)
  rwa [← ha, List.length_finRange] at this

theorem Counted.lt_iff (ha : a.Counted) : a.knownPeersSize < maxPeers ↔ ∃ i, a.addr i = noMac := by
  have := taken_lt_length noMac a.addr (List.finRange maxPeers)
  rw [← ha, List.length_finRange] at this
  simpa using this

/-- What AddDevice does for an address, in a table whose counter is right. -/
inductive Added (e : DeviceEnv) (newDev : Mac) (name : Text) (a : Adapter) : Bool → Adapter → Prop
  | known (i : Fin maxPeers) (eq : a.addr i = newDev) (hole : newDev = noMac → Hole a.addr (List.finRange maxPeers))
      {a' : Adapter} (same : SameTable a a') : Added e newDev name a true a'
  | refused (why : (∀ i, a.addr i ≠ noMac) ∨ e.register = 0) : Added e newDev name a false a
  | added (pos : Fin maxPeers) (free : a.addr pos = noMac) (registered : e.register ≠ 0)
      (new : ∀ i, a.addr i = newDev → newDev = noMac ∧ ¬ Hole a.addr (List.finRange maxPeers)) {a' : Adapter}
      (known : a'.knownPeers = Function.update a.knownPeers pos ⟨newDev, e.register, some name, false⟩)
      (size : a'.knownPeersSize = a.knownPeersSize + 1) : Added e newDev name a true a'

/-- What RemoveDevice does for an address. -/
inductive Removed (e : DeviceEnv) (dev : Mac) (a : Adapter) : Bool → Adapter → Prop
  | unknown (none : ∀ i, a.addr i ≠ dev) : Removed e dev a false a
  | kept (i : Fin maxPeers) (eq : a.addr i = dev) (first : ∀ j < i, a.addr j ≠ dev)
      (registered : e.unregister (a.knownPeers i).registrationId = false) : Removed e dev a false a
  | removed (i : Fin maxPeers) (eq : a.addr i = dev) (first : ∀ j < i, a.addr j ≠ dev)
      (unregistered : e.unregister (a.knownPeers i).registrationId = true) {a' : Adapter}
      (known : a'.knownPeers = Function.update a.knownPeers i { a.knownPeers i with addr := noMac, aliasName := none })
      (size : a'.knownPeersSize = (a.knownPeersSize + (2 ^ 32 - 1)) % 2 ^ 32) : Removed e dev a true a'

theorem addr_of_update {i : Fin maxPeers} {k : KnownPeer} (h : a'.knownPeers = Function.update a.knownPeers i k) :
    a'.addr = Function.update a.addr i k.addr := by
  rw [← addr_setKnown]
  funext j
  simp only [addr, h, setKnown]

theorem addKnownDevice_spec (ha : a.Counted) (hmac : nrf24Str2mac mac = some newDev) (e : DeviceEnv)
    (key name : Text) : ∃ r a', a.addKnownDevice e mac key name = .ok (r, a') ∧ Added e newDev name a r a' := by
  obtain ⟨r, hscan, hfinds⟩ := scanKnown_spec newDev (List.pairwise_lt_finRange maxPeers) 0 none
    (ha.trans (Nat.zero_add _).symm)
  simp only [addKnownDevice, hmac, hscan, bind, Except.bind]
  cases hfinds with
  | found i mem eq free => exact ⟨true, _, rfl, .known i eq free (sameTable_writeFile ..)⟩
  | absent pos new free full =>
      cases pos with
      | none =>
          have hfull : ∀ i, a.addr i ≠ noMac := fun i => (full rfl).2 i (List.mem_finRange i)
          have hsize : ¬ a.knownPeersSize < maxPeers := fun hlt => by
            obtain ⟨i, hi⟩ := ha.lt_iff.mp hlt
            exact hfull i hi
          dsimp only
          rw [if_neg hsize]
          exact ⟨false, a, rfl, .refused (Or.inl hfull)⟩
      | some pos =>
          have hpos : a.addr pos = noMac := ((free pos rfl).resolve_left (by simp)).2
          dsimp only
          rw [if_pos (ha.lt_iff.mpr ⟨pos, hpos⟩)]
          by_cases hreg : e.register = 0
          · rw [newDeviceObject, if_pos hreg]
            exact ⟨false, a, rfl, .refused (Or.inr hreg)⟩
          · rw [newDeviceObject, if_neg hreg]
            refine ⟨true, _, rfl, .added pos hpos hreg (fun i => new i (List.mem_finRange i)) ?_ ?_⟩
            · dsimp only
              rw [(sameTable_writeFile ..).knownPeers]
              simp [setKnown]
            · dsimp only
              rw [(sameTable_writeFile ..).knownPeersSize]
              rfl

theorem removeKnownDevice_spec (hmac : nrf24Str2mac mac = some dev) (e : DeviceEnv) (a : Adapter) :
    ∃ r a', a.removeKnownDevice e mac = (r, a') ∧ Removed e dev a r a' := by
  simp only [removeKnownDevice, hmac]
  cases hfind : (List.finRange maxPeers).find? fun i => a.addr i = dev with
  | none =>
      refine ⟨false, a, rfl, .unknown fun i => ?_⟩
      simpa using List.find?_eq_none.mp hfind i (List.mem_finRange i)
  | some i =>
      obtain ⟨hi, hfirst⟩ := find_finRange hfind
      have hi : a.addr i = dev := by simpa using hi
      have hfirst : ∀ j < i, a.addr j ≠ dev := fun j hj => by simpa using hfirst j hj
      dsimp only
      by_cases hun : e.unregister (a.knownPeers i).registrationId = true
      · rw [if_pos hun]
        refine ⟨true, _, rfl, .removed i hi hfirst hun ?_ ?_⟩
        · rw [(sameTable_writeFile ..).knownPeers]
          rfl
        · rw [(sameTable_writeFile ..).knownPeersSize]
      · rw [if_neg hun]
        exact ⟨false, a, rfl, .kept i hi hfirst (by simpa using hun)⟩

theorem Counted.same (ha : a.Counted) (h : SameTable a a') : a'.Counted := by
  rw [Counted, h.knownPeersSize, h.addr]
  exact ha

/-- The counter stays right unless address 0 is put in a free entry. -/
theorem Added.counted_iff (ha : a.Counted) (h : Added e newDev name a r a') :
    a'.Counted ↔ (newDev = noMac →
      Hole a.addr (List.finRange maxPeers) ∨ (∀ i, a.addr i ≠ noMac) ∨ e.register = 0) := by
  cases h with
  | known i eq hole same => exact ⟨fun _ hno => Or.inl (hole hno), fun _ => ha.same same⟩
  | refused why => exact ⟨fun _ _ => Or.inr why, fun _ => ha⟩
  | added pos free registered new known size =>
      have haddr := addr_of_update known
      have hcount := taken_update noMac a.addr newDev (List.nodup_finRange maxPeers)
        (List.mem_finRange pos)
      rw [if_pos free, ← ha] at hcount
      rw [Counted, haddr, size]
      constructor
      · intro hright hno
        rw [if_pos hno] at hcount
        dsimp only at hright
        omega
      · intro hwhy
        have hno : newDev ≠ noMac := fun hno => by
          rcases hwhy hno with hhole | hfull | hreg
          · exact (new pos (free.trans hno.symm)).2 hhole
          · exact hfull pos free
          · exact registered hreg
        rw [if_neg hno] at hcount
        dsimp only
        omega

/-- The counter stays right unless a free entry is taken for address 0 and its object is found. -/
theorem Removed.counted_iff (ha : a.Counted) (h : Removed e dev a r a') :
    a'.Counted ↔ (dev = noMac → ∀ i, a.addr i = noMac → (∀ j < i, a.addr j ≠ noMac) →
      e.unregister (a.knownPeers i).registrationId = false) := by
  have hle := ha.le
  have hmax : maxPeers = 5 := rfl
  cases h with
  | unknown none => exact ⟨fun _ hno i hi => absurd (hi.trans hno.symm) (none i), fun _ => ha⟩
  | kept i eq first registered =>
      refine ⟨fun _ hno j hj hfirst => ?_, fun _ => ha⟩
      obtain rfl : j = i := by
        by_contra hne
        rcases lt_or_gt_of_ne hne with hlt | hlt
        · exact first j hlt (hj.trans hno.symm)
        · exact hfirst i hlt (eq.trans hno)
      exact registered
  | removed i eq first unregistered known size =>
      have haddr := addr_of_update known
      have hcount := taken_update noMac a.addr noMac (List.nodup_finRange maxPeers)
        (List.mem_finRange i)
      rw [if_pos rfl, eq, ← ha] at hcount
      rw [Counted, haddr, size]
      dsimp only
      constructor
      · intro hright hno
        rw [if_pos hno] at hcount
        omega
      · intro hwhy
        have hno : dev ≠ noMac := fun hno => by
          have := hwhy hno i (eq.trans hno) fun j hj => hno ▸ first j hj
          rw [unregistered] at this
          cases this
        rw [if_neg hno] at hcount
        omega

end Adapter

end KnotHal.Nrfd
