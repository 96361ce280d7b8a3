import KnotHal.Nrf24.Handshake
import KnotHal.Nrf24.Stale

/-!
# Who is disconnected

A disconnect packet on the pipe of a slot becomes an event with the source address that the packet carries, where
no event waits, and is dropped where one does.

* `round_disconnect` : what a round makes of a disconnect packet;
* `LeadsTo` : the events a packet leads to, at once or later;
* `disconnect_heard_iff` : when it leads to the event of the slot's peer and to no other.
-/

namespace KnotHal.Nrf24

open Machine

variable {b : Build}

structure Pdu.FullDisconnect (pdu : Pdu) : Prop where
  control : lid pdu.head = lidControl
  opcode : pdu.byte 2 = opDisconnect
  full : controlLen ≤ pdu.length

def Pdu.srcAddr (pdu : Pdu) : Mac := ((Buf.zero 32).write 0 pdu.bytes).sub 3 8

namespace Nrf

/-! ## What a packet leads to -/

/-- In the run a read of the management socket hands over a DISCONNECTED event for `mac`. -/
def HandsOver (mac : Mac) (is : List (Call × Env)) (os : List Out) : Prop :=
  ∃ x ∈ is.zip os, (∃ count, x.1.1 = .read 0 count) ∧ 0 < x.2.ret ∧ x.2.data.take 2 = evtDisconnected ∧
    (x.2.data.drop mgmtHdrLen).take 8 = mac.bytes

/-- Some run from `s'` hands over a DISCONNECTED event for `mac`, and the same calls from `s` do not. -/
def Owes (mac : Mac) (s s' : Nrf b) : Prop :=
  ∃ is os t os' t', exec step is s = .ok (os, t) ∧ exec step is s' = .ok (os', t') ∧ HandsOver mac is os' ∧
    ¬ HandsOver mac is os

/-- The packet `r`, handled from `s` to `s'`, leads to a DISCONNECTED event for `mac`: where no event waits, it is
queued at once and is there when the call ends in `t`; where one waits, a later run tells that the packet was not
ignored. -/
def LeadsTo (mac : Mac) (i : Fin b.connections) (r : Rx) (s s' t : Nrf b) : Prop :=
  (s.mgmt.lenRx = 0 ∧ Disconnected mac s'.mgmt ∧ Disconnected mac t.mgmt) ∨
    (s.mgmt.lenRx ≠ 0 ∧ Owes mac (received i r s) s')

/-- The packet `r`, read behind the packets `as` in a call from `s` to `t`, leads to an event for the peer of the
slot and to none for anybody else. -/
def Heard (e : Env) (i : Fin b.connections) (as : List Rx) (r : Rx) (s t : Nrf b) : Prop :=
  ∃ cs p u c p' u', exec (readRawStep i) as (e.rxFrame.write 0 [0], s) = .ok (cs, p, u) ∧
    readRawStep i r (p, u) = .ok (c, p', u') ∧ ∀ mac, LeadsTo mac i r u u' t ↔ mac = (s.peers i).mac

section Round
variable {i : Fin b.connections} {r : Rx} {p p' : Payload} {c : Option Copy} {s s' : Nrf b}

theorem Disconnected.unique {mac mac' : Mac} {m : Nrf24Mgmt} (h : Disconnected mac m) (h' : Disconnected mac' m) :
    mac = mac' :=
  h.mac.symm.trans h'.mac

theorem srcAddr_received (hfull : r.pdu.FullDisconnect) : ((p.write 0 r.pdu.bytes).sub 3 8 : Mac) = r.pdu.srcAddr := by
  have hctl : controlLen = 19 := rfl
  have hlen := hfull.full
  exact Buf.sub_congr (read_received p (Buf.zero 32) r.pdu (by omega))

/-- A disconnect packet is dropped where an event waits. -/
theorem rxControl_dropped (hop : p.get 2 = opDisconnect) (hwaits : s.mgmt.lenRx ≠ 0) : s.rxControl i p r = .ok s := by
  unfold rxControl
  dsimp only
  rw [hop, if_neg fun h => absurd h.1 (by decide), if_neg (by decide), if_neg fun h => hwaits h.2]
  rfl

theorem round_disconnect (hfull : r.pdu.FullDisconnect) (h : readRawStep i r (p, s) = .ok (c, p', s')) :
    s' = if s.mgmt.lenRx = 0 then (received i r s).queueDisconnected r.pdu.srcAddr else received i r s := by
  have hctl : controlLen = 19 := rfl
  have hlen := hfull.full
  have hop : (p.write 0 r.pdu.bytes).get 2 = opDisconnect := by
    rw [get_received p r.pdu (by omega), hfull.opcode]
  have hhead : lid ((p.write 0 r.pdu.bytes).get 0) = lidControl := by
    rw [get_write_pdu, hfull.control]
  obtain ⟨-, rfl, hcase⟩ := readRawStep_cases h
  rcases hcase with ⟨-, -, hctl⟩ | ⟨hdat, -⟩ | ⟨hno, -⟩
  · by_cases h0 : s.mgmt.lenRx = 0
    · rw [rxControl_disconnect (s := received i r s) hop h0, srcAddr_received hfull] at hctl
      rw [if_pos h0]
      exact (Except.ok.inj hctl).symm
    · rw [rxControl_dropped (s := received i r s) hop h0] at hctl
      rw [if_neg h0]
      exact (Except.ok.inj hctl).symm
  · rw [hhead] at hdat
    exact absurd hdat (by decide)
  · exact absurd hhead hno

theorem not_owes (mac : Mac) (s : Nrf b) : ¬ Owes mac s s := by
  rintro ⟨is, os, t, os', t', h, h', hover, hno⟩
  obtain ⟨rfl, rfl⟩ := ok_unique h h'
  exact hno hover

/-- What a disconnect packet leads to: an event for its source address where no event waits, and nothing where one
does. -/
theorem leadsTo_iff {t : Nrf b} {mac : Mac} (hfull : r.pdu.FullDisconnect)
    (h : readRawStep i r (p, s) = .ok (c, p', s')) (hrest : Frame i s' t) :
    LeadsTo mac i r s s' t ↔ s.mgmt.lenRx = 0 ∧ mac = r.pdu.srcAddr := by
  have hround := round_disconnect hfull h
  by_cases h0 : s.mgmt.lenRx = 0
  · rw [if_pos h0] at hround
    have hqueued : Disconnected r.pdu.srcAddr s'.mgmt := by
      rw [hround]
      exact disconnected_queue _ _
    have hkept : t.mgmt = s'.mgmt := by
      apply hrest.unread
      rw [hqueued.lenRx]
      decide
    constructor
    · rintro (⟨-, hevt, -⟩ | ⟨hwaits, -⟩)
      · exact ⟨h0, hevt.unique hqueued⟩
      · exact absurd h0 hwaits
    · rintro ⟨-, rfl⟩
      exact Or.inl ⟨h0, hqueued, by rw [hkept]; exact hqueued⟩
  · rw [if_neg h0] at hround
    constructor
    · rintro (⟨hidle, -⟩ | ⟨-, howes⟩)
      · exact absurd hidle h0
      · rw [hround] at howes
        exact absurd howes (not_owes mac _)
    · rintro ⟨hidle, -⟩
      exact absurd hidle h0

end Round

end Nrf

/-- In every call of `read_raw` a full disconnect packet leads to the event of the slot's peer and to no other exactly
when no event waits before the call, no disconnect packet precedes it in the call, and it carries the address of
the peer. -/
theorem disconnect_heard_iff {s t : Nrf b} {e : Env} {i : Fin b.connections} {as bs : List Rx} {r : Rx}
    {cs : List (Option Nrf.Copy)} (hfull : r.pdu.FullDisconnect) (hrx : e.rx = as ++ r :: bs)
    (h : s.readRaw e i = .ok (cs, t)) :
    Nrf.Heard e i as r s t ↔
      s.mgmt.lenRx = 0 ∧ ¬ HearsDisconnect (e.rxFrame.write 0 [0]) as ∧ r.pdu.srcAddr = (s.peers i).mac := by
  obtain ⟨-, q, hrun⟩ := Nrf.readRaw_eq_ok.mp h
  rw [hrx] at hrun
  obtain ⟨cs₁, ⟨p, u⟩, cs₂, hbefore, hfrom, -⟩ := exec_append_ok.mp hrun
  obtain ⟨c, ⟨p', u'⟩, cs₃, hround, hafter, -⟩ := exec_cons_ok.mp hfrom
  have hleads : ∀ mac, Nrf.LeadsTo mac i r u u' t ↔ u.mgmt.lenRx = 0 ∧ mac = r.pdu.srcAddr := fun mac =>
    Nrf.leadsTo_iff hfull hround (.rounds hafter)
  rw [← and_assoc, ← Nrf.rounds_quiet hbefore]
  constructor
  · rintro ⟨cs', p₁, u₁, c', p₂, u₂, hbefore₁, hround₁, hall⟩
    obtain ⟨-, heq⟩ := ok_unique hbefore hbefore₁
    obtain ⟨rfl, rfl⟩ := Prod.mk.inj heq
    obtain ⟨-, heq⟩ := ok_unique hround hround₁
    obtain ⟨rfl, rfl⟩ := Prod.mk.inj heq
    obtain ⟨hidle, hsrc⟩ := (hleads _).mp ((hall _).mpr rfl)
    exact ⟨hidle, hsrc.symm⟩
  · rintro ⟨hidle, hsrc⟩
    refine ⟨cs₁, p, u, c, p', u', hbefore, hround, fun mac => ?_⟩
    rw [hleads mac, hsrc]
    exact and_iff_right hidle

def connectedGateway : Nrf .linux := after (opening ++ [(.connect 1 (thingMac true), .still 100)])

/-- The first thing disconnects. -/
theorem disconnect_heard_connected :
    ∃ cs t, connectedGateway.readRaw (arriving 100 [disconnectPdu (thingMac true) gatewayMac]) 0 = .ok (cs, t) ∧
      (Nrf.Heard (arriving 100 [disconnectPdu (thingMac true) gatewayMac]) 0 []
          ⟨disconnectPdu (thingMac true) gatewayMac, 100, Buf.zero 32, ⟨true, true⟩⟩ connectedGateway t ↔
        connectedGateway.mgmt.lenRx = 0 ∧
          ¬ HearsDisconnect ((arriving 100 [disconnectPdu (thingMac true) gatewayMac]).rxFrame.write 0 [0]) [] ∧
          (disconnectPdu (thingMac true) gatewayMac).srcAddr = (connectedGateway.peers 0).mac) :=
  ⟨_, _, rfl, disconnect_heard_iff ⟨by decide, by decide, by decide⟩ rfl rfl⟩

/-- The second thing's address in a packet on the pipe of the first one. -/
theorem disconnect_spoofed :
    ¬ ∀ (s t : Nrf .linux) (e : Env) (i : Fin Build.linux.connections) (as bs : List Rx) (r : Rx)
        (cs : List (Option Nrf.Copy)), Reachable s → r.pdu.FullDisconnect → e.rx = as ++ r :: bs →
        s.readRaw e i = .ok (cs, t) → Nrf.Heard e i as r s t := by
  intro hall
  have hfull : (disconnectPdu (thingMac false) gatewayMac).FullDisconnect := ⟨by decide, by decide, by decide⟩
  obtain ⟨cs, p, u, c, p', u', hbefore, hround, hleads⟩ := hall connectedGateway _
    (arriving 100 [disconnectPdu (thingMac false) gatewayMac]) 0 [] []
    ⟨disconnectPdu (thingMac false) gatewayMac, 100, Buf.zero 32, ⟨true, true⟩⟩ _ (reachable_after rfl) hfull rfl rfl
  obtain ⟨-, heq⟩ := Prod.mk.inj (Except.ok.inj hbefore)
  obtain ⟨rfl, rfl⟩ := Prod.mk.inj heq
  rcases (hleads (thingMac true)).mpr rfl with ⟨-, hevt, -⟩ | ⟨hwaits, -⟩
  · have hidle : connectedGateway.mgmt.lenRx = 0 := rfl
    rw [Nrf.round_disconnect hfull hround, if_pos hidle] at hevt
    exact absurd (hevt.unique (Nrf.disconnected_queue _ _)) (by decide)
  · exact hwaits rfl

end KnotHal.Nrf24
