import KnotHal.Nrfd.Manager

/-!
# The configuration file of `manager_start`

The address of the gateway stands in the configuration file, or is drawn and written there. json-c is not part of the
repository: what the two functions that give an address rely on is in `JsonC`, and the file is what `json_tokener_parse`
makes of its text.

* `JsonC`, `Json.jsonC` : json-c, and one that has the members of an object in a list;
* `parseConfig`, `genSaveMac` : the two functions that give an address;
* `configure`, `start` : `manager_start` up to `radio_init`, and with it;
* `start_eq_managerStart` : what `managerStart` says of it;
* `parseConfig_withMac`, `configure_ok` : where an address comes from;
* `address_stable_iff` : the files with which the gateway has an address that it will have again.
-/

namespace KnotHal.Nrfd

open Machine Nrf24

/-! ## json-c -/

/-- json-c, with what is relied on: a value that is added to an object is the one that is found, and a string is
read as it was given. -/
structure JsonC where
  /-- a `json_object`, and the null pointer that stands for a JSON null -/
  Json : Type
  /-- `json_object_object_get_ex` -/
  objectGetEx : String → Json → Option Json
  /-- `json_object_object_add` -/
  objectAdd : String → Json → Json → Json
  /-- `json_object_new_string` -/
  newString : Text → Json
  /-- `json_object_get_string` -/
  getString : Json → Option Text
  /-- `json_object_get_int` -/
  getInt : Json → Int
  objectGetEx_objectAdd {key : String} {value old obj : Json} (h : objectGetEx key obj = some old) :
    objectGetEx key (objectAdd key value obj) = some value
  getString_newString (text : Text) : getString (newString text) = some text

/-- A document. A string is given as `json_object_get_string` returns it. -/
inductive Json
  | null
  | boolean (value : Bool)
  | number (text : Text)
  | string (text : Text)
  | array (elems : List Json)
  | object (members : List (String × Json))

namespace Json

/-- Only an object has members. -/
def objectGetEx (key : String) : Json → Option Json
  | object members => members.lookup key
  | null | boolean _ | number _ | string _ | array _ => none

/-- A member is replaced, or is new. -/
def put (key : String) (value : Json) : List (String × Json) → List (String × Json)
  | [] => [(key, value)]
  | (k, v) :: members => if key == k then (k, value) :: members else (k, v) :: put key value members

/-- It is only called on objects. -/
def objectAdd (key : String) (value : Json) : Json → Json
  | object members => object (put key value members)
  | null => null
  | boolean b => boolean b
  | number text => number text
  | string text => string text
  | array elems => array elems

/-- The null pointer for a JSON null; anything but a string is printed. -/
def getString (print : Json → Text) (obj : Json) : Option Text :=
  match obj with
  | null => none
  | string text => some text
  | boolean _ | number _ | array _ | object _ => some (print obj)

theorem lookup_put (key : String) (value : Json) (members : List (String × Json)) :
    (put key value members).lookup key = some value := by
  induction members with
  | nil => simp [put]
  | cons member members ih =>
      obtain ⟨k, v⟩ := member
      unfold put
      split
      · rename_i hk
        rw [List.lookup_cons, hk]
      · rename_i hk
        rw [List.lookup_cons, Bool.eq_false_iff.mpr hk]
        exact ih

/-- json-c on these documents, whatever it makes of values that are no numbers or no strings. -/
def jsonC (getInt : Json → Int) (print : Json → Text) : JsonC where
  Json := Json
  objectGetEx := objectGetEx
  objectAdd := objectAdd
  newString := string
  getString := getString print
  getInt := getInt
  objectGetEx_objectAdd {key value old j} h := by
    cases j with
    | object members => exact lookup_put key value members
    | null => cases h
    | boolean b => cases h
    | number text => cases h
    | string text => cases h
    | array elems => cases h
  getString_newString _ := rfl

end Json

/-! ## The two functions -/

/-- The configuration file: what `json_tokener_parse` makes of its text. -/
inductive ConfigFile (α : Type)
  | absent
  | text (doc : Option α)

structure Config where
  channel : Int
  dbm : Int
  mac : Mac

/-- `parse_config`. What an address that cannot be read leaves in `mac` nothing reads. -/
def parseConfig (j : JsonC) (config : Option j.Json) (cfg : Config) : Int × Config :=
  match config with
  | none => (-einval, cfg)
  | some jobj =>
    match j.objectGetEx "radio" jobj with
    | none => (-einval, cfg)
    | some objRadio =>
      let channel := ((j.objectGetEx "channel" objRadio).map j.getInt).getD cfg.channel
      let dbm := ((j.objectGetEx "TxPower" objRadio).map j.getInt).getD cfg.dbm
      match (j.objectGetEx "mac" objRadio).bind j.getString with
      | none => (0, ⟨channel, dbm, cfg.mac⟩)
      | some str =>
        match nrf24Str2mac str with
        | none => (-1, ⟨channel, dbm, cfg.mac⟩)
        | some mac => (0, ⟨channel, dbm, mac⟩)

/-- `gen_save_mac`: `random` is what `hal_getrandom` fills the address with. -/
def genSaveMac (j : JsonC) (config : Option j.Json) (random : Mac) (file : ConfigFile j.Json) (mac : Mac) :
    Int × ConfigFile j.Json × Mac :=
  match config with
  | none => (-einval, file, mac)
  | some jobj =>
    match j.objectGetEx "radio" jobj with
    | none => (-einval, file, mac)
    | some objRadio =>
      match j.objectGetEx "mac" objRadio with
      | none => (0, file, mac)
      | some _ =>
        let macString := nrf24Mac2str random
        if macString.length ≠ 23 then (-1, file, random)
        else
          let objRadio := j.objectAdd "mac" (j.newString macString) objRadio
          (0, .text (some (j.objectAdd "radio" objRadio jobj)), random)

/-! ## The configuration -/

/-- What the outside does while the daemon starts. -/
structure StartEnv where
  /-- whether `malloc` finds memory -/
  memory : Bool
  /-- what `hal_getrandom` draws; that no byte is zero is assumed -/
  random : {mac : Mac // ∀ byte ∈ mac.bytes, byte ≠ 0}
  /-- whether `parse_nodes` can write a new file -/
  created : Bool
  /-- what `tcp_init` returns, where a host is given -/
  tcpInit : Option Int

def loadConfig {α : Type} (memory : Bool) : ConfigFile α → Option (Option α)
  | .absent => none
  | .text doc => if memory then some doc else none

def nrf24ChMin : Int := 10

/-- What `manager_start` initializes `cfg_channel`, `cfg_dbm` and `mac` with. -/
def Config.default : Config := ⟨nrf24ChMin, 0, noMac⟩

/-- The address that was parsed, or else a new one. -/
def chooseMac (j : JsonC) (config : Option j.Json) (random : Mac) (file : ConfigFile j.Json) (err : Int) (mac : Mac) :
    Int × ConfigFile j.Json × Mac :=
  if mac = noMac then genSaveMac j config random file mac else (err, file, mac)

/-- `manager_start` up to `radio_init`: what it returns where it stops before, or the address that it passes. -/
def configure (j : JsonC) (e : StartEnv) (nodes : KeysFile) (file : ConfigFile j.Json) :
    Except Fault (Except Int Mac × Adapter × ConfigFile j.Json) :=
  match loadConfig e.memory file with
  | none => .ok (.error (-1), .zero nodes, file)
  | some config =>
    let (err, cfg) := parseConfig j config .default
    if err < 0 then .ok (.error err, .zero nodes, file)
    else do
      let (err, a) ← Adapter.parseNodes e.created nodes
      if err < 0 then return (.error err, a, file)
      let (err, file, mac) := chooseMac j config e.random file err cfg.mac
      if err < 0 then return (.error err, a, file)
      let err := e.tcpInit.getD 0
      if err < 0 then return (.error err, a, file)
      return (.ok mac, a, file)

/-- `manager_start`, with the configuration file as it then stands. -/
def start (b : Build) (j : JsonC) (e : StartEnv) (nodes : KeysFile) (file : ConfigFile j.Json) (err : Nat)
    (he : Nrf24.Env) : Except Fault (Int × Manager b × ConfigFile j.Json) := do
  let (r, a, file) ← configure j e nodes file
  let m := { Manager.boot b nodes e.tcpInit.isSome with adapter := a }
  match r with
  | .error ret => return (ret, m, file)
  | .ok mac =>
      let (ret, m) ← m.radioInit mac err he
      return (ret, m, file)

/-! ## Where an address comes from -/

variable {j : JsonC} {e : StartEnv} {nodes : KeysFile} {file file' : ConfigFile j.Json} {mac : Mac} {a : Adapter}
  {cfg : Config} {config : Option j.Json} {jobj objRadio value : j.Json}

theorem radio_of_parseConfig (h : ¬ (parseConfig j config cfg).1 < 0) :
    ∃ jobj objRadio, config = some jobj ∧ j.objectGetEx "radio" jobj = some objRadio := by
  unfold parseConfig at h
  split at h
  · exact absurd (show -einval < 0 by decide) h
  · rename_i jobj
    split at h
    · exact absurd (show -einval < 0 by decide) h
    · rename_i objRadio hradio
      exact ⟨jobj, objRadio, rfl, hradio⟩

theorem parseConfig_no_mac (hradio : j.objectGetEx "radio" jobj = some objRadio)
    (hmac : j.objectGetEx "mac" objRadio = none) : (parseConfig j (some jobj) cfg).2.mac = cfg.mac := by
  simp only [parseConfig, hradio, hmac, Option.bind_none]

theorem parseConfig_mac (hradio : j.objectGetEx "radio" jobj = some objRadio)
    (hmac : j.objectGetEx "mac" objRadio = some (j.newString (nrf24Mac2str mac))) :
    (parseConfig j (some jobj) cfg).1 = 0 ∧ (parseConfig j (some jobj) cfg).2.mac = mac := by
  simp only [parseConfig, hradio, hmac, Option.bind_some, j.getString_newString, str2mac_mac2str, and_self]

theorem genSaveMac_no_mac (random : Mac) (hradio : j.objectGetEx "radio" jobj = some objRadio)
    (hmac : j.objectGetEx "mac" objRadio = none) : genSaveMac j (some jobj) random file mac = (0, file, mac) := by
  simp only [genSaveMac, hradio, hmac]

def withMac (j : JsonC) (jobj objRadio : j.Json) (mac : Mac) : j.Json :=
  j.objectAdd "radio" (j.objectAdd "mac" (j.newString (nrf24Mac2str mac)) objRadio) jobj

theorem genSaveMac_mac (random : Mac) (hradio : j.objectGetEx "radio" jobj = some objRadio)
    (hmac : j.objectGetEx "mac" objRadio = some value) :
    genSaveMac j (some jobj) random file mac = (0, .text (some (withMac j jobj objRadio random)), random) := by
  simp only [genSaveMac, hradio, hmac]
  rw [if_neg (not_not.mpr (length_mac2str random))]
  rfl

theorem parseConfig_withMac (hradio : j.objectGetEx "radio" jobj = some objRadio)
    (hmac : j.objectGetEx "mac" objRadio = some value) :
    (parseConfig j (some (withMac j jobj objRadio mac)) cfg).1 = 0 ∧
      (parseConfig j (some (withMac j jobj objRadio mac)) cfg).2.mac = mac :=
  parseConfig_mac (j.objectGetEx_objectAdd hradio) (j.objectGetEx_objectAdd hmac)

theorem parseConfig_ret (h : ¬ (parseConfig j config cfg).1 < 0) : (parseConfig j config cfg).1 = 0 := by
  obtain ⟨jobj, objRadio, rfl, hradio⟩ := radio_of_parseConfig h
  simp only [parseConfig, hradio] at h ⊢
  split
  · rfl
  · rename_i str hstr
    simp only [hstr] at h
    split
    · rename_i hmac
      rw [hmac] at h
      exact absurd (show (-1 : Int) < 0 by decide) h
    · rfl

theorem text_of_loadConfig {memory : Bool} (h : loadConfig memory file = some config) : file = .text config := by
  cases file with
  | absent => cases h
  | text doc =>
      cases memory with
      | false => cases h
      | true =>
          cases h
          rfl

/-- Where `manager_start` gets as far as `radio_init`, the keys file was parsed, the configuration file has a "radio",
and the address is the one that was parsed, or else comes from `gen_save_mac`. -/
theorem configure_ok (h : configure j e nodes file = .ok (.ok mac, a, file')) :
    (∃ ret, Adapter.parseNodes e.created nodes = .ok (ret, a) ∧ ¬ ret < 0) ∧
      ∃ jobj objRadio, file = .text (some jobj) ∧ j.objectGetEx "radio" jobj = some objRadio ∧
      (parseConfig j (some jobj) .default).1 = 0 ∧
      ((parseConfig j (some jobj) .default).2.mac ≠ noMac ∧ mac = (parseConfig j (some jobj) .default).2.mac ∧
          file' = file ∨
        (parseConfig j (some jobj) .default).2.mac = noMac ∧
          ∃ err, genSaveMac j (some jobj) e.random file noMac = (err, file', mac)) := by
  unfold configure at h
  cases hload : loadConfig e.memory file with
  | none =>
      rw [hload] at h
      cases h
  | some config =>
      simp only [hload] at h
      split at h
      · cases h
      · rename_i hparsed
        obtain ⟨jobj, objRadio, rfl, hradio⟩ := radio_of_parseConfig hparsed
        obtain ⟨⟨err, a'⟩, hnodes, h⟩ := bind_eq_ok.mp h
        simp only at h
        split at h
        · cases h
        · rename_i hnone
          rcases hchoose : chooseMac j (some jobj) e.random file err (parseConfig j (some jobj) .default).2.mac
            with ⟨err', file₂, mac₂⟩
          simp only [hchoose] at h
          split at h
          · cases h
          · split at h
            · cases h
            · cases h
              refine ⟨⟨err, hnodes, hnone⟩, jobj, objRadio, text_of_loadConfig hload, hradio, parseConfig_ret hparsed,
                ?_⟩
              unfold chooseMac at hchoose
              split at hchoose
              · rename_i hzero
                rw [hzero] at hchoose
                exact .inr ⟨hzero, err', hchoose⟩
              · rename_i hzero
                cases hchoose
                exact .inl ⟨hzero, rfl, rfl⟩

theorem random_ne_noMac (random : {mac : Mac // ∀ byte ∈ mac.bytes, byte ≠ 0}) : random.val ≠ noMac := by
  intro h
  refine random.property 0 ?_ rfl
  rw [h]
  decide

/-- The gateway has an address, and the configuration file as it stands gives it again. -/
def Stable (j : JsonC) (mac : Mac) (file : ConfigFile j.Json) : Prop :=
  mac ≠ noMac ∧ ∃ config, file = .text config ∧ (parseConfig j config .default).1 = 0 ∧
    (parseConfig j config .default).2.mac = mac

/-- A gateway that gets as far as `radio_init` has an address, and will have it again, if and only if the "radio" of
its configuration file has a "mac", whatever that is. -/
theorem address_stable_iff (h : configure j e nodes file = .ok (.ok mac, a, file')) :
    Stable j mac file' ↔ ∃ jobj objRadio value, file = .text (some jobj) ∧
      j.objectGetEx "radio" jobj = some objRadio ∧ j.objectGetEx "mac" objRadio = some value := by
  obtain ⟨-, jobj, objRadio, rfl, hradio, hret, hmac⟩ := configure_ok h
  cases hmember : j.objectGetEx "mac" objRadio with
  | none =>
      have hparsed : (parseConfig j (some jobj) .default).2.mac = noMac := parseConfig_no_mac hradio hmember
      obtain ⟨hne, -⟩ | ⟨-, err, hgen⟩ := hmac
      · exact absurd hparsed hne
      · rw [genSaveMac_no_mac _ hradio hmember] at hgen
        cases hgen
        refine iff_of_false (fun hstable => hstable.1 rfl) ?_
        rintro ⟨jobj', objRadio', value, heq, hradio', hmac'⟩
        cases heq
        rw [hradio] at hradio'
        cases hradio'
        rw [hmember] at hmac'
        cases hmac'
  | some value =>
      refine iff_of_true ?_ ⟨jobj, objRadio, value, rfl, hradio, hmember⟩
      obtain ⟨hne, rfl, rfl⟩ | ⟨-, err, hgen⟩ := hmac
      · exact ⟨hne, some jobj, rfl, hret, rfl⟩
      · rw [genSaveMac_mac _ hradio hmember] at hgen
        cases hgen
        exact ⟨random_ne_noMac e.random, _, rfl, parseConfig_withMac hradio hmember⟩

/-- A start in which nothing fails, without a host, and with an address that is drawn. -/
def StartEnv.working : StartEnv := ⟨true, ⟨⟨[1, 2, 3, 4, 5, 6, 7, 8], rfl⟩, by simp⟩, true, none⟩

def JsonC.plain : JsonC := Json.jsonC (fun _ => 0) fun _ => []

/-- The file `{"radio":{"mac":value}}`. -/
def fileWith (value : Json) : ConfigFile Json := .text (some (.object [("radio", .object [("mac", value)])]))

/-- With `{"radio":{"mac":null}}` an address is drawn and saved. -/
theorem address_stable_null :
    configure .plain .working .noKeys (fileWith .null) =
        .ok (.ok StartEnv.working.random, .zero (.keys []),
          fileWith (.string (nrf24Mac2str StartEnv.working.random))) ∧
      Stable .plain StartEnv.working.random
        (fileWith (.string (nrf24Mac2str StartEnv.working.random))) := by
  have hrun : configure .plain .working .noKeys (fileWith .null) =
    .ok (.ok StartEnv.working.random, _, _) := rfl
  exact ⟨hrun, (address_stable_iff hrun).mpr ⟨_, .object [("mac", .null)], .null, rfl, rfl, rfl⟩⟩

/-- With `{"radio":{}}` the gateway starts with the address 0. -/
theorem address_zero :
    configure .plain .working .noKeys (.text (some (.object [("radio", .object [])]))) =
        .ok (.ok noMac, .zero (.keys []), .text (some (.object [("radio", .object [])]))) ∧
      ¬ Stable .plain noMac (.text (some (.object [("radio", .object [])]))) :=
  ⟨rfl, fun hstable => hstable.1 rfl⟩

/-! ## The start -/

/-- From there on `manager_start` does what `managerStart` does with the address. -/
theorem start_eq_managerStart (b : Build) (err : Nat) (he : Nrf24.Env)
    (h : configure j e nodes file = .ok (.ok mac, a, file')) :
    start b j e nodes file err he =
      (Manager.managerStart b e.created nodes mac e.tcpInit.isSome err he).map fun r => (r.1, r.2, file') := by
  obtain ⟨⟨ret, hnodes, hret⟩, -⟩ := configure_ok h
  rw [start, h, Manager.managerStart, hnodes]
  simp only [bind, Except.bind, if_neg hret]
  cases Manager.radioInit mac err he { Manager.boot b nodes e.tcpInit.isSome with adapter := a } with
  | error fault => rfl
  | ok r => rfl

end KnotHal.Nrfd
