import KnotHal.Lib.CString
import KnotHal.Nrf24.Unread
import KnotHal.Nrfd.Agreement

/-!
# What becomes of the name of a thing

`presence_connect` puts the address and `THING_NAME` into a packet of at most 32 bytes, `read_mgmt` of the gateway
turns the packet into an event, `mgmt_read` copies the event to its stack, and `evt_presence` looks there for the
end of the name. A name of 23 bytes or more is sent without its terminator.

* `announcedName`, `sentName` : the name as it is meant, and as it is sent;
* `readMgmt_presence`, `hal_event` : the event, and what `mgmt_read` finds in its buffer;
* `Announces` : what `evt_presence` makes of it;
* `announces_iff` : the name arrives exactly when it fits or the stack happens to hold a zero behind it.
-/

namespace KnotHal.Nrfd

open Machine Nrf24

/-! ## The packet -/

/-- `THING_NAME`, or as much of it as fits beside the header and the address. -/
def announcedName (b : Build) : Text :=
  if mgmtSize < presenceHdrLen + (b.thingName.length + 1) then b.thingName.take (mgmtSize - presenceHdrLen)
  else b.thingName

/-- The name as it is sent, with its terminator where that fits. -/
def sentName (b : Build) : List UInt8 := (b.thingName ++ [0]).take (mgmtSize - presenceHdrLen)

theorem sentName_length_le (b : Build) : (sentName b).length ≤ 23 := List.length_take_le ..

theorem sentName_eq (b : Build) :
    sentName b = announcedName b ++ (if b.thingName.length ≤ 22 then [0] else []) ∧
      (22 < b.thingName.length → (announcedName b).length = 23) := by
  unfold sentName announcedName
  have h23 : mgmtSize - presenceHdrLen = 23 := rfl
  have h32 : mgmtSize < presenceHdrLen + (b.thingName.length + 1) ↔ 22 < b.thingName.length := by
    show 32 < 9 + (b.thingName.length + 1) ↔ _
    omega
  rw [h23]
  by_cases hlong : 22 < b.thingName.length
  · rw [if_pos (h32.mpr hlong), if_neg (by omega), List.append_nil, List.take_append_of_le_length (by omega)]
    exact ⟨rfl, fun _ => by rw [List.length_take]; omega⟩
  · rw [if_neg (mt h32.mp hlong), if_pos (by omega), List.take_of_length_le (by simp; omega)]
    exact ⟨rfl, fun h => absurd h hlong⟩

/-- The packet: a header, the address and the name. -/
theorem presencePdu_eq (b : Build) (frame : Payload) (mac : Mac) :
    Nrf.presencePdu b frame mac = setType (frame.get 0) typePresence :: (mac.bytes ++ sentName b) := by
  unfold Nrf.presencePdu sentName
  dsimp only
  have h23 : mgmtSize - presenceHdrLen = 23 := rfl
  split
  · rfl
  · rename_i hfits
    have hsize : b.thingName.length + 1 ≤ 23 := by
      have : ¬ 32 < 9 + (b.thingName.length + 1) := hfits
      omega
    have hall : (b.thingName ++ [0]).length = b.thingName.length + 1 := by simp
    rw [List.take_of_length_le hall.le, List.take_of_length_le (by rw [hall, h23]; exact hsize)]

section Sending
variable {b : Build} {e : Nrf24.Env} {s s' : Nrf b} {data : List UInt8} {o : Outcome}

theorem presenceConnect_sends (h : s.presenceConnect e = .ok s') (hlog : s'.log = s.log ++ [.write 0 data o]) :
    s.macLocal ≠ Buf.zero 8 ∧ data = Nrf.presencePdu b (e.frame .presence) s.macLocal := by
  have hnone : s'.log ≠ s.log := fun heq => by
    rw [heq] at hlog
    exact absurd (congrArg List.length hlog) (by simp)
  unfold Nrf.presenceConnect at h
  split at h
  · split at h
    · cases h
      exact absurd rfl hnone
    · rename_i hmac
      obtain ⟨s₁, hphy, h⟩ := bind_eq_ok.mp h
      obtain ⟨-, rfl⟩ := Nrf.phy_eq_ok.mp hphy
      refine ⟨hmac, ?_⟩
      split at h <;>
      · cases h
        have hop := List.append_cancel_left hlog
        simp only [List.cons.injEq, DriverOp.write.injEq, and_true, true_and] at hop
        exact hop.1.symm
  · dsimp only at h
    split at h
    · cases h
      exact absurd rfl hnone
    · split at h <;>
      · cases h
        exact absurd rfl hnone
  · obtain ⟨s₁, hphy, h⟩ := bind_eq_ok.mp h
    obtain ⟨-, rfl⟩ := Nrf.phy_eq_ok.mp hphy
    cases h
    have hop := List.append_cancel_left hlog
    cases hop
  · dsimp only at h
    split at h <;>
    · cases h
      exact absurd rfl hnone

end Sending

/-! ## The event -/

/-- The event for a presence: the header, the address, and what the packet has behind it. -/
def presenceEvent (mac : Mac) (name : List UInt8) : List UInt8 := evtBcastPresence ++ [0] ++ mac.bytes ++ name

theorem presenceEvent_length (mac : Mac) (name : List UInt8) :
    (presenceEvent mac name).length = mgmtHdrLen + 8 + name.length := by
  simp [presenceEvent, evtBcastPresence, mgmtHdrLen]
  omega

/-- The four stores of `read_mgmt` for a presence, read back. -/
theorem applyStores_presence {n : Nat} (buf : Buf n) (mac : Mac) {name : List UInt8}
    (hfit : mgmtHdrLen + 8 + name.length ≤ n) :
    (applyStores buf [⟨0, evtBcastPresence⟩, ⟨2, [0]⟩, ⟨mgmtHdrLen, mac.bytes⟩, ⟨mgmtHdrLen + 8, name⟩]).read 0
      (mgmtHdrLen + 8 + name.length) = presenceEvent mac name := by
  have h11 : mgmtHdrLen + 8 = 11 := rfl
  have hmac : mac.bytes.length = 8 := mac.size
  rw [h11] at hfit ⊢
  show ((((buf.write 0 evtBcastPresence).write 2 [0]).write 3 mac.bytes).write 11 name).read 0 (11 + name.length) = _
  rw [Buf.read_append_write _ hfit]
  have hread : ∀ (c : Buf n) (off : Nat) (src : List UInt8), off + src.length ≤ 11 →
      (c.write off src).read 0 (off + src.length) = c.read 0 off ++ src :=
    fun c off src hle => c.read_append_write (by omega)
  have h3 := hread ((buf.write 0 evtBcastPresence).write 2 [0]) 3 mac.bytes (by omega)
  have h2 : ((buf.write 0 evtBcastPresence).write 2 [0]).read 0 3 = _ := hread _ 2 [0] (by decide)
  have h0 : (buf.write 0 evtBcastPresence).read 0 2 = _ := hread _ 0 evtBcastPresence (by decide)
  rw [hmac] at h3
  rw [h3, h2, h0, Buf.read_zero_len]
  rfl

section Receiving
variable {b b' : Build} {ge : Nrf24.Env} {g g' : Nrf b'} {n : Int} {r : Rx} {rs : List Rx}

/-- A presence that arrives where no event waits becomes one, unless the device itself listens. -/
theorem readMgmt_presence {hdr : UInt8} {mac : Mac} {name : List UInt8} (hrx : ge.rx = r :: rs)
    (hpdu : r.pdu.bytes = hdr :: (mac.bytes ++ name)) (htype : pduType hdr = typePresence)
    (hname : name.length ≤ 23) (hlisten : g.listen = false) (hempty : g.mgmt.lenRx = 0)
    (h : g.readMgmt ge = .ok (n, g')) :
    g'.mgmt.lenRx = mgmtHdrLen + 8 + name.length ∧ g'.mgmt.bufferRx.read 0 g'.mgmt.lenRx = presenceEvent mac name := by
  have hmac : mac.bytes.length = 8 := mac.size
  have hlen : r.pdu.bytes.length = presenceHdrLen + name.length := by
    rw [hpdu, List.length_cons, List.length_append, hmac, presenceHdrLen]
    omega
  have hfit : 0 + r.pdu.bytes.length ≤ 32 := by rw [hlen]; show 0 + (9 + name.length) ≤ 32; omega
  -- the packet in the stack buffer
  have hwhole : ((ge.rxFrame.write 0 [0]).write 0 r.pdu.bytes).read 0 (presenceHdrLen + name.length) =
      hdr :: (mac.bytes ++ name) := by
    rw [← hlen, ← hpdu]
    exact Buf.read_write_self _ hfit
  have hhead : ((ge.rxFrame.write 0 [0]).write 0 r.pdu.bytes).get 0 = hdr := by
    rw [get_write_pdu, Pdu.head, hpdu]
    rfl
  have hsrc : ((ge.rxFrame.write 0 [0]).write 0 r.pdu.bytes).read 1 8 = mac.bytes := by
    have h1 : 1 + 8 ≤ presenceHdrLen + name.length := by show 9 ≤ 9 + name.length; omega
    rw [← Buf.take_drop_read _ h1, hwhole, List.drop_one, List.tail_cons, List.take_left' hmac]
  have hrest : ((ge.rxFrame.write 0 [0]).write 0 r.pdu.bytes).read presenceHdrLen name.length = name := by
    rw [← Buf.take_drop_read _ (le_refl _), hwhole, presenceHdrLen]
    show ((mac.bytes ++ name).drop 8).take name.length = name
    rw [List.drop_left' hmac, List.take_length]
  have hevent : mgmtEvent g.listen g.macLocal ((ge.rxFrame.write 0 [0]).write 0 r.pdu.bytes) r.pdu.length =
      .ok ([⟨0, evtBcastPresence⟩, ⟨2, [0]⟩, ⟨mgmtHdrLen, mac.bytes⟩, ⟨mgmtHdrLen + 8, name⟩],
        mgmtHdrLen + 8 + name.length) := by
    have hcount : r.pdu.length = presenceHdrLen + name.length := hlen
    unfold mgmtEvent
    rw [if_pos (by rw [hhead]; exact htype), if_neg (by rw [hlisten]; decide), hcount,
      if_neg (by omega), Nat.add_sub_cancel_left, hsrc, hrest]
    have hsum : presenceHdrLen + name.length - 1 + mgmtHdrLen = mgmtHdrLen + 8 + name.length := by
      show 9 + name.length - 1 + 3 = 3 + 8 + name.length
      omega
    rw [hsum]
  unfold Nrf.readMgmt at h
  obtain ⟨rx, hread, h⟩ := bind_eq_ok.mp h
  obtain ⟨-, rfl⟩ := Nrf.phyRead_eq_ok.mp hread
  rw [hrx] at h
  obtain ⟨g₁, hphy, h⟩ := bind_eq_ok.mp h
  obtain ⟨-, rfl⟩ := Nrf.phy_eq_ok.mp hphy
  dsimp only at h
  rw [if_neg (not_not.mpr hempty), hevent] at h
  obtain ⟨-, rfl⟩ := Prod.mk.inj (Except.ok.inj h)
  refine ⟨rfl, applyStores_presence _ mac ?_⟩
  show 3 + 8 + name.length ≤ 32 + 7
  omega

end Receiving

/-! ## The daemon -/

/-- The name of a thing whose name `g_utf8_make_valid` cannot copy. -/
def unknownName : Text := [0x75, 0x6E, 0x6B, 0x6E, 0x6F, 0x77, 0x6E]

/-- `mgmt_read` reads an event and hands it to `evt_presence`, which takes it for one of `mac` and gives `name` to
`g_utf8_make_valid`: whatever that function is, its result becomes the name of the new beacon. -/
def Announces {b : Build} (e : DaemonEnv) (mac : Mac) (name : Text) (m : Manager b) : Prop :=
  ∃ out m₁, m.hal (.read m.mgmtfd 256) (e.hal .mgmtRead) = .ok (out, m₁) ∧
    m.mgmtRead e = (fun r => (0, r.2)) <$> m₁.evtPresence e (e.buffer.write 0 out.data) ∧
    ((e.buffer.write 0 out.data).sub mgmtHdrLen 8 : Mac) = mac ∧
    ∀ f, m₁.noteBeacon { e with makeValid := f } mac (e.buffer.write 0 out.data) = .ok (0, { m₁ with
      peerBcastTable := Function.update m₁.peerBcastTable (nrf24Mac2str mac)
        (some ⟨(f name).getD unknownName, halTimeMs e.clock⟩) })

theorem cString_eq_iff {n off : Nat} {buffer : Buf n} {name rest : List UInt8}
    (hbytes : buffer.bytes.drop off = name ++ rest) (hname : 0 ∉ name) :
    cString buffer off = .ok name ↔ rest.head? = some 0 := by
  have hfirst : cString buffer off = .ok name ↔ terminated (name ++ rest) = some name := by
    unfold cString terminated
    rw [hbytes]
    by_cases hmem : 0 ∈ name ++ rest
    · simp [hmem]
    · simp [hmem]
  rw [hfirst, terminated_append_eq_iff, and_iff_right hname]

section Daemon
variable {b : Build} {e : DaemonEnv} {m m₁ : Manager b} {mac : Mac} {name event : List UInt8} {g : Nrf b}
  {out : Nrf24.Out}

theorem hal_event (hfd : m.mgmtfd = 0) (hpass : ({ m.radio with log := [] } : Nrf b).running (e.hal .mgmtRead) = .ok g)
    (hlen : g.mgmt.lenRx = event.length) (hevent : g.mgmt.bufferRx.read 0 g.mgmt.lenRx = event)
    (hpos : 0 < event.length) (hfit : event.length ≤ 256) :
    ∃ out m₁, m.hal (.read m.mgmtfd 256) (e.hal .mgmtRead) = .ok (out, m₁) ∧ out.ret = event.length ∧
      out.data = event ∧ m₁.peerBcastTable = m.peerBcastTable := by
  have hread : ({ m.radio with log := [] } : Nrf b).halCommRead (e.hal .mgmtRead) 0 256 =
      .ok (⟨event.length, event⟩, { g with mgmt := { g.mgmt with lenRx := 0 } }) := by
    unfold Nrf.halCommRead
    rw [hpass]
    dsimp only [bind, Except.bind]
    rw [if_neg (by decide), if_pos rfl, if_pos (by omega), hlen, Nat.min_eq_left hfit, ← hlen, hevent]
    rfl
  have hstep : Nrf24.step (.read m.mgmtfd 256, e.hal .mgmtRead) m.radio =
      .ok (⟨⟨event.length, event⟩, g.log⟩, { g with mgmt := { g.mgmt with lenRx := 0 } }) := by
    rw [hfd]
    exact step_eq_ok.mpr ⟨hread, rfl⟩
  exact ⟨_, _, Manager.hal_eq_ok.mpr ⟨_, hstep, rfl⟩, rfl, rfl, rfl⟩

theorem mgmtRead_presence (hhal : m.hal (.read m.mgmtfd 256) (e.hal .mgmtRead) = .ok (out, m₁)) (hret : 0 ≤ out.ret)
    (hopcode : (e.buffer.write 0 out.data).read 0 2 = evtBcastPresence) :
    m.mgmtRead e = (fun r => (0, r.2)) <$> m₁.evtPresence e (e.buffer.write 0 out.data) := by
  have hbit : (e.buffer.write 0 out.data).get 1 &&& 0x02 ≠ 0 := by
    rw [Buf.get_of_read (show 1 < 2 by decide), hopcode]
    decide
  unfold Manager.mgmtRead
  rw [hhal]
  dsimp only [bind, Except.bind]
  rw [if_neg (not_lt.mpr hret)]
  unfold Manager.mgmtEvent
  rw [if_neg hbit, if_pos hopcode]
  cases m₁.evtPresence e (e.buffer.write 0 out.data) with
  | error f => rfl
  | ok r => rfl

/-- A beacon that is new gets the name that stands in the buffer. -/
theorem noteBeacon_new {buffer : Buf 256} (hnew : m.peerBcastTable (nrf24Mac2str mac) = none) (hmem : e.memory = true)
    (f : Text → Option Text) :
    m.noteBeacon { e with makeValid := f } mac buffer = (fun name => (0, { m with
      peerBcastTable := Function.update m.peerBcastTable (nrf24Mac2str mac)
        (some ⟨(f name).getD unknownName, halTimeMs e.clock⟩) })) <$> cString buffer (mgmtHdrLen + 8) := by
  unfold Manager.noteBeacon
  dsimp only
  rw [hnew]
  dsimp only
  rw [if_pos hmem]
  cases cString buffer (mgmtHdrLen + 8) with
  | error f => rfl
  | ok name => rfl

theorem announces_iff_cString (hhal : m.hal (.read m.mgmtfd 256) (e.hal .mgmtRead) = .ok (out, m₁)) (hret : 0 ≤ out.ret)
    (hopcode : (e.buffer.write 0 out.data).read 0 2 = evtBcastPresence)
    (hmac : ((e.buffer.write 0 out.data).sub mgmtHdrLen 8 : Mac) = mac)
    (hnew : m₁.peerBcastTable (nrf24Mac2str mac) = none) (hmem : e.memory = true) :
    Announces e mac name m ↔ cString (e.buffer.write 0 out.data) (mgmtHdrLen + 8) = .ok name := by
  constructor
  · rintro ⟨out', m', hhal', -, -, hnoted⟩
    obtain ⟨rfl, rfl⟩ := ok_unique hhal hhal'
    -- `g_utf8_make_valid` may be the identity
    have hnoted := hnoted some
    rw [noteBeacon_new hnew hmem] at hnoted
    cases hstr : cString (e.buffer.write 0 out.data) (mgmtHdrLen + 8) with
    | error f =>
        rw [hstr] at hnoted
        cases hnoted
    | ok name' =>
        rw [hstr] at hnoted
        have htable := congrFun (congrArg Manager.peerBcastTable (Prod.mk.inj (Except.ok.inj hnoted)).2)
          (nrf24Mac2str mac)
        dsimp only at htable
        rw [Function.update_self, Function.update_self] at htable
        exact congrArg _ (congrArg Beacon.name (Option.some.inj htable))
  · intro hstr
    refine ⟨out, m₁, hhal, mgmtRead_presence hhal hret hopcode, hmac, fun f => ?_⟩
    rw [noteBeacon_new hnew hmem, hstr]
    rfl

end Daemon

/-! ## From the thing to the daemon -/

section Whole
variable {b b' : Build} {e ge : Nrf24.Env} {s s' : Nrf b} {g g' g₁ : Nrf b'} {r : Rx} {rs : List Rx} {o : Outcome}
  {n : Int} {de : DaemonEnv} {m : Manager b'}

theorem buffer_presence (buffer : Buf 256) (mac : Mac) {name : List UInt8} (hname : name.length ≤ 23) :
    (buffer.write 0 (presenceEvent mac name)).read 0 2 = evtBcastPresence ∧
      ((buffer.write 0 (presenceEvent mac name)).sub mgmtHdrLen 8 : Mac) = mac ∧
      (buffer.write 0 (presenceEvent mac name)).bytes.drop (mgmtHdrLen + 8) =
        name ++ buffer.bytes.drop (mgmtHdrLen + 8 + name.length) := by
  have hlen := presenceEvent_length mac name
  have hmac : mac.bytes.length = 8 := mac.size
  have h11 : mgmtHdrLen + 8 = 11 := rfl
  have hfit : 0 + (presenceEvent mac name).length ≤ 256 := by rw [hlen, h11]; omega
  have hhdr : (evtBcastPresence ++ [(0 : UInt8)]).length = 3 := rfl
  have hinside : ∀ k len, k + len ≤ 11 →
      (buffer.write 0 (presenceEvent mac name)).read k len = ((presenceEvent mac name).drop k).take len := by
    intro k len hk
    have h := buffer.read_write_inside hfit (show k + len ≤ (presenceEvent mac name).length by rw [hlen, h11]; omega)
    rwa [Nat.zero_add] at h
  refine ⟨hinside 0 2 (by omega), ?_, ?_⟩
  · ext1
    rw [Buf.bytes_sub _ (by decide : mgmtHdrLen + 8 ≤ 256), hinside mgmtHdrLen 8 (by decide)]
    show ((evtBcastPresence ++ [0] ++ mac.bytes ++ name).drop 3).take 8 = mac.bytes
    rw [List.append_assoc, List.drop_left' hhdr, List.take_left' hmac]
  · have hpart : (evtBcastPresence ++ [0] ++ mac.bytes).length = mgmtHdrLen + 8 := by
      rw [List.length_append, hhdr, hmac]
      rfl
    rw [Buf.bytes_write _ hfit, List.take_zero, List.nil_append, hlen, Nat.zero_add, presenceEvent,
      List.append_assoc (evtBcastPresence ++ [0] ++ mac.bytes), List.drop_left' hpart]

/-- A presence packet travels from a thing to a daemon that has not heard of it. The daemon takes its address and the
name that was announced exactly when the name has at most 22 bytes, or the stack holds a 0 right behind the event. -/
theorem announces_iff (hname : 0 ∉ b.thingName)
    (hsend : s.presenceConnect e = .ok s') (hpdu : s'.log = s.log ++ [.write 0 r.pdu.bytes o])
    (hrx : ge.rx = r :: rs) (hlisten : g.listen = false) (hempty : g.mgmt.lenRx = 0)
    (hreceive : g.readMgmt ge = .ok (n, g'))
    (hfd : m.mgmtfd = 0) (hpass : ({ m.radio with log := [] } : Nrf b').running (de.hal .mgmtRead) = .ok g₁)
    (hwaits : SameEvent g' g₁) (hnew : m.peerBcastTable (nrf24Mac2str s.macLocal) = none) (hmem : de.memory = true) :
    Announces de s.macLocal (announcedName b) m ↔ b.thingName.length ≤ 22 ∨ de.buffer.get 34 = 0 := by
  obtain ⟨-, hbytes⟩ := presenceConnect_sends hsend hpdu
  rw [presencePdu_eq] at hbytes
  have hsent := sentName_length_le b
  have htype : pduType (setType ((e.frame .presence).get 0) typePresence) = typePresence := pduType_setType ..
  obtain ⟨hlen, hevent⟩ := readMgmt_presence hrx hbytes htype hsent hlisten hempty hreceive
  rw [← presenceEvent_length s.macLocal] at hlen
  have hcount := presenceEvent_length s.macLocal (sentName b)
  have h11 : mgmtHdrLen + 8 = 11 := rfl
  rw [h11] at hcount
  rw [← hwaits.1] at hlen hevent
  rw [← hwaits.2] at hevent
  obtain ⟨out, m₁, hhal, hret, hdata, htable⟩ := hal_event hfd hpass hlen hevent (by omega) (by omega)
  obtain ⟨hopcode, hmac, hrest⟩ := buffer_presence de.buffer s.macLocal hsent
  rw [← hdata] at hopcode hmac hrest
  rw [announces_iff_cString hhal (by omega) hopcode hmac (by rw [htable]; exact hnew) hmem]
  obtain ⟨hsplit, hfull⟩ := sentName_eq b
  have hclean : 0 ∉ announcedName b := by
    unfold announcedName
    split
    · exact fun h => hname (List.mem_of_mem_take h)
    · exact hname
  by_cases hshort : b.thingName.length ≤ 22
  · rw [hsplit, if_pos hshort, List.append_assoc] at hrest
    exact iff_of_true ((cString_eq_iff hrest hclean).mpr rfl) (Or.inl hshort)
  · rw [hsplit, if_neg hshort, List.append_nil, hfull (by omega)] at hrest
    rw [cString_eq_iff hrest hclean, List.head?_drop, or_iff_right hshort]
    have hin : 34 < de.buffer.bytes.length := by rw [de.buffer.size]; decide
    show de.buffer.bytes[34]? = some 0 ↔ de.buffer.bytes.getD 34 0 = 0
    rw [List.getD_eq_getElem?_getD, List.getElem?_eq_getElem hin]
    simp

end Whole

def longNamed : Build := { Build.avr with thingName := List.replicate 23 0x6C }

def listening (b : Build) : Nrf b := { Nrf.boot b with driverIndex := 0, macLocal := lampMac, listen := true }

def presenceOf (b : Build) : Pdu where
  bytes := Nrf.presencePdu b (Buf.zero 32) lampMac
  pos := Nat.zero_lt_succ _
  le_mtu := by
    have hsent := sentName_length_le b
    rw [presencePdu_eq, List.length_cons, List.length_append, lampMac.size, mtu]
    omega

/-- The packet comes in while `mgmt_read` finds `buffer` on its stack. -/
def hearing (b : Build) (buffer : Buf 256) : DaemonEnv :=
  { (idling 5 fun | .mgmtRead => [presenceOf b] | _ => []).2 with buffer := buffer }

/-- The stack holds an exclamation mark where a name of 23 bytes would end. -/
def marked : Buf 256 := (Buf.zero 256).write 34 [0x21]

/-- The name in `hal/config.h` brings its terminator with it. -/
theorem announces_default :
    ∃ m₀ os m, starting = .ok (0, m₀) ∧ exec step [idling 0 fun _ => []] m₀ = .ok (os, m) ∧
      Announces (hearing .avr marked) lampMac Build.defaultName m := by
  obtain ⟨m₀, hstart⟩ : ∃ m₀, starting = .ok (0, m₀) := ⟨_, rfl⟩
  obtain ⟨os, m, hrun, hlisten, hempty, hfd, hnew, n, g', g₁, hreceive, hpass, hwaits⟩ :
      ∃ os m, exec step [idling 0 fun _ => []] m₀ = .ok (os, m) ∧ m.radio.listen = false ∧ m.radio.mgmt.lenRx = 0 ∧
        m.mgmtfd = 0 ∧ m.peerBcastTable (nrf24Mac2str lampMac) = none ∧
        ∃ n g' g₁, m.radio.readMgmt (arriving 5 [presenceOf .avr]) = .ok (n, g') ∧
          ({ m.radio with log := [] } : Nrf .linux).running (arriving 5 [presenceOf .avr]) = .ok g₁ ∧
          SameEvent g' g₁ := by
    cases hstart
    exact ⟨_, _, rfl, rfl, rfl, rfl, rfl, _, _, _, rfl, rfl, rfl, rfl⟩
  obtain ⟨s', hsend, hpdu⟩ : ∃ s', (listening .avr).presenceConnect (.still 0) = .ok s' ∧
      s'.log = (listening .avr).log ++ [.write 0 (presenceOf .avr).bytes ⟨true, true⟩] := ⟨_, rfl, rfl⟩
  have hsmall : Build.avr.thingName.length ≤ 22 ∨ marked.get 34 = 0 := Or.inl (by decide)
  refine ⟨m₀, os, m, hstart, hrun, ?_⟩
  exact (announces_iff (r := ⟨presenceOf .avr, 5, Buf.zero 32, ⟨true, true⟩⟩) (by decide) hsend hpdu rfl hlisten hempty
    hreceive hfd hpass hwaits hnew rfl).mpr hsmall

/-- A name of 23 bytes is sent whole, and the daemon takes an exclamation mark for its last letter. -/
theorem longNamed_announced :
    0 ∉ longNamed.thingName ∧ announcedName longNamed = longNamed.thingName ∧
      (∃ s', (listening longNamed).presenceConnect (.still 0) = .ok s' ∧
        s'.log = [.write 0 (presenceOf longNamed).bytes ⟨true, true⟩]) ∧
      ∃ m₀ os m, starting = .ok (0, m₀) ∧ exec step [idling 0 fun _ => []] m₀ = .ok (os, m) ∧
        m.radio.listen = false ∧ m.radio.mgmt.lenRx = 0 ∧ m.peerBcastTable (nrf24Mac2str lampMac) = none ∧
        Announces (hearing longNamed marked) lampMac (longNamed.thingName ++ [0x21]) m ∧
        ¬ Announces (hearing longNamed marked) lampMac (announcedName longNamed) m := by
  obtain ⟨m₀, hstart⟩ : ∃ m₀, starting = .ok (0, m₀) := ⟨_, rfl⟩
  obtain ⟨os, m, hrun, hlisten, hempty, hnew, out, m₁, hhal, hret, hopcode, hmac, hnew₁, hstr⟩ :
      ∃ os m, exec step [idling 0 fun _ => []] m₀ = .ok (os, m) ∧ m.radio.listen = false ∧ m.radio.mgmt.lenRx = 0 ∧
        m.peerBcastTable (nrf24Mac2str lampMac) = none ∧
        ∃ out m₁, m.hal (.read m.mgmtfd 256) ((hearing longNamed marked).hal .mgmtRead) = .ok (out, m₁) ∧
          out.ret = 34 ∧ (marked.write 0 out.data).read 0 2 = evtBcastPresence ∧
          ((marked.write 0 out.data).sub mgmtHdrLen 8 : Mac) = lampMac ∧
          m₁.peerBcastTable (nrf24Mac2str lampMac) = none ∧
          cString (marked.write 0 out.data) (mgmtHdrLen + 8) = .ok (longNamed.thingName ++ [0x21]) := by
    cases hstart
    exact ⟨_, _, rfl, rfl, rfl, rfl, _, _, rfl, rfl, rfl, rfl, rfl, rfl⟩
  have hiff (name : List UInt8) : Announces (hearing longNamed marked) lampMac name m ↔
      cString (marked.write 0 out.data) (mgmtHdrLen + 8) = .ok name :=
    announces_iff_cString hhal (by omega) hopcode hmac hnew₁ rfl
  refine ⟨by decide, rfl, ⟨_, rfl, rfl⟩, m₀, os, m, hstart, hrun, hlisten, hempty, hnew, (hiff _).mpr hstr, fun h => ?_⟩
  have hshort : announcedName longNamed = longNamed.thingName ++ [0x21] :=
    Except.ok.inj (((hiff _).mp h).symm.trans hstr)
  exact absurd (congrArg List.length hshort) (by decide)

end KnotHal.Nrfd
