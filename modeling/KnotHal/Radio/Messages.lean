import KnotHal.Nrf24.Delivery
import KnotHal.Radio.Gateway

/-!
# From the air to a slot

What the driver hands over for a slot was on the air for the access address of its pipe, and what `read_raw` puts
together from it is what `hal_comm_read` returns.

* `address`, `Addresses` : the address of each pipe, and that none is open with another one;
* `arrivals_sent` : what comes in on a pipe was sent to its address;
* `gateway_reads` : what `phy_read` hands over;
* `gateway_assembled` : the messages of a slot.
-/

namespace KnotHal.Radio

open Machine Reassembly Nrf24.Nrf
open Nrf24 (DriverOp Nrf Mac Env aaPipe0 accessAddress)

/-! ## The addresses -/

def address (mac : Mac) (p : Fin 6) : Address := if p.val = 0 then aaPipe0 else accessAddress mac p

/-- No pipe is open with another address. -/
def Addresses (mac : Mac) (ps : Pipes) : Prop := ∀ p a, ps p = some a → a = address mac p

section Addressed
variable {mac : Mac} {op : DriverOp} {ops : List DriverOp} {js : List Receiver.Input} {t : Inbox} {ps : Pipes}

theorem addresses_none (mac : Mac) : Addresses mac Pipes.none := fun _ _ ha => nomatch ha

theorem addresses_openPipe (h : Addresses mac ps) {q : Fin 6} :
    Addresses mac (ps.openPipe q.val (address mac q)) := by
  cases hq : ps q with
  | some a =>
      have hsame : ps.openPipe q.val (address mac q) = ps := by
        unfold Pipes.openPipe
        rw [dif_pos q.isLt]
        split
        · rename_i hnone
          cases hq.symm.trans hnone
        · rfl
      rw [hsame]
      exact h
  | none =>
      rw [openPipe_of_none hq]
      intro p a ha
      by_cases hp : p = q
      · rw [hp, Function.update_self] at ha
        rw [hp]
        exact (Option.some.inj ha).symm
      · rw [Function.update_of_ne hp] at ha
        exact h p a ha

theorem addresses_closePipe (h : Addresses mac ps) (pipe : Int) : Addresses mac (ps.closePipe pipe) := by
  unfold Pipes.closePipe
  split
  · intro p a ha
    by_cases hp : p = ⟨pipe.toNat, by omega⟩
    · rw [hp, Function.update_self] at ha
      cases ha
    · rw [Function.update_of_ne hp] at ha
      exact h p a ha
  · exact h

theorem addresses_effect (h : Addresses mac ps) (hop : Sane mac op) : Addresses mac (effect op ps) := by
  cases op with
  | setPipe pipe aa =>
      rcases hop with ⟨rfl, rfl⟩ | ⟨hpos, hle, rfl⟩
      · exact addresses_openPipe h (q := 0)
      · have haddr : address mac ⟨pipe, by omega⟩ = accessAddress mac pipe := if_neg (Nat.ne_of_gt hpos)
        have hopen := addresses_openPipe h (q := ⟨pipe, by omega⟩)
        rw [haddr] at hopen
        exact hopen
  | resetPipe pipe => exact addresses_closePipe h pipe
  | setChannel ch => exact h
  | setStandby => exact h
  | read pipe pdu => exact h
  | write pipe data o => exact h

/-! ## On the air -/

/-- What is on the air for an address. -/
def Receiver.Input.sentTo (addr : Address) : Receiver.Input → Option (List UInt8)
  | .packet _ a payload => if a = addr then some payload.bytes else none
  | .call _ | .read _ _ => none

def onPipe (p : Fin 6) (m : UInt8 × List UInt8) : Option (List UInt8) :=
  if m.1 = UInt8.ofNat p.val then some m.2 else none

theorem ofNat_inj {p q : Fin 6} (h : UInt8.ofNat p.val = UInt8.ofNat q.val) : p = q := by
  have hnat := congrArg UInt8.toNat h
  rw [toNat_ofNat_pipe (Nat.le_of_lt_succ p.isLt), toNat_ofNat_pipe (Nat.le_of_lt_succ q.isLt)] at hnat
  exact Fin.ext hnat

/-- A packet that comes in on a pipe was sent to its address. -/
theorem heard_sent (h : Addresses mac t.pipes) (p : Fin 6) (i : Receiver.Input) :
    ((((t.heard i).map Letter.mail).toList).filterMap (onPipe p)).Sublist (i.sentTo (address mac p)).toList := by
  cases hheard : t.heard i with
  | none => exact List.nil_sublist _
  | some l =>
      cases i with
      | call c => cases hheard
      | read pipe len => cases hheard
      | packet channel addr payload =>
          unfold Inbox.heard at hheard
          dsimp only at hheard
          split at hheard
          · obtain ⟨q, hq, rfl⟩ := Option.map_eq_some_iff.mp hheard
            have hopen : t.pipes q = some addr := by simpa using List.find?_some hq
            by_cases hqp : q = p
            · have haddr : addr = address mac p := hqp ▸ h q addr hopen
              have hsent : Receiver.Input.sentTo (address mac p) (.packet channel addr payload) = some payload.bytes :=
                if_pos haddr
              have hmail : onPipe p (Letter.mail ⟨q, addr, payload⟩) = some payload.bytes := if_pos (by rw [hqp]; rfl)
              rw [Option.map_some, Option.toList_some, List.filterMap_cons_some hmail, hsent]
              exact List.Sublist.refl _
            · have hmail : onPipe p (Letter.mail ⟨q, addr, payload⟩) = none := if_neg fun heq => hqp (ofNat_inj heq)
              rw [Option.map_some, Option.toList_some, List.filterMap_cons_none hmail]
              exact List.nil_sublist _
          · cases hheard

/-- What comes in on a pipe in the course of a run was sent to its address. -/
theorem arrivals_sent (h : Interleaves ops js) (hops : ∀ op ∈ ops, Sane mac op) (ht : Addresses mac t.pipes)
    (p : Fin 6) :
    ((t.arrivals js).filterMap (onPipe p)).Sublist (js.filterMap (Receiver.Input.sentTo (address mac p))) := by
  have hstep {i : Receiver.Input} {is : List Receiver.Input} {t : Inbox} (ht : Addresses mac t.pipes)
      (ih : (((t.step i).2.arrivals is).filterMap (onPipe p)).Sublist
        (is.filterMap (Receiver.Input.sentTo (address mac p)))) :
      ((t.arrivals (i :: is)).filterMap (onPipe p)).Sublist
        ((i :: is).filterMap (Receiver.Input.sentTo (address mac p))) := by
    rw [show t.arrivals (i :: is) = ((t.heard i).map Letter.mail).toList ++ (t.step i).2.arrivals is from rfl,
      List.filterMap_append, filterMap_cons_toList]
    exact (heard_sent ht p i).append ih
  induction h generalizing t with
  | done => exact List.Sublist.refl _
  | air channel addr payload rest ih =>
      obtain ⟨q, hq⟩ := Inbox.packet_settings channel addr payload t
      refine hstep ht (ih hops ?_)
      rw [hq]
      exact ht
  | miss pipe rest ih =>
      refine hstep ht (ih hops ?_)
      rw [(read_kept pipe 32 t).1]
      exact ht
  | op carries rest ih =>
      obtain ⟨hop, hrest⟩ := List.forall_mem_cons.mp hops
      refine hstep ht (ih hrest ?_)
      rw [carries.pipes hop]
      exact addresses_effect ht hop

/-! ## What is handed over -/

def handed : DriverOp → Option (UInt8 × List UInt8)
  | .read pipe pdu => some (UInt8.ofNat pipe, pdu.bytes)
  | .setPipe _ _ | .resetPipe _ | .setChannel _ | .setStandby | .write _ _ _ => none

def readOn (n : Nat) : DriverOp → Option (List UInt8)
  | .read pipe pdu => if pipe = n then some pdu.bytes else none
  | .setPipe _ _ | .resetPipe _ | .setChannel _ | .setStandby | .write _ _ _ => none

theorem readOn_eq (hops : ∀ op ∈ ops, Sane mac op) (p : Fin 6) :
    ops.filterMap (readOn p.val) = (ops.filterMap handed).filterMap (onPipe p) := by
  rw [List.filterMap_filterMap]
  refine List.filterMap_congr fun op hop => ?_
  cases op with
  | read pipe pdu =>
      have hle : pipe ≤ 5 := hops _ hop
      refine if_congr ⟨fun h => by rw [h], fun h => ?_⟩ rfl rfl
      exact congrArg Fin.val (ofNat_inj (p := ⟨pipe, by omega⟩) h)
  | _ => rfl

/-- What is handed over of a pipe was sent to its address. -/
theorem handed_sent (h : Interleaves ops js) (hops : ∀ op ∈ ops, Sane mac op) (c : Chip) (opened : Address)
    {outs : List Receiver.Output} {r : Receiver}
    (hradio : exec Receiver.step js (Receiver.init c opened) = .ok (outs, r))
    (hmail : ops.filterMap handed = outs.filterMap Receiver.Output.mail) (p : Fin 6) :
    (ops.filterMap (readOn p.val)).Sublist (js.filterMap (Receiver.Input.sentTo (address mac p))) := by
  have hsound := h.sound hops
  obtain ⟨r', hok, -⟩ := exec_refines_inbox c opened fun i hi => (hsound i hi).1
  obtain ⟨rfl, -⟩ := ok_unique hradio hok
  have hqueue := mail_sublist (fun i hi => (hsound i hi).2) Inbox.start
  have hread := ((List.sublist_append_left _ _).trans hqueue).filterMap (onPipe p)
  rw [readOn_eq hops, hmail]
  exact hread.trans (arrivals_sent h hops (addresses_none mac) p)

end Addressed

/-! ## A run -/

theorem exec_ran {b : Build} {is : List (Nrf24.Call × Env)} {s : Nrf b} (h : (exec Nrf24.step is s).isOk = true) :
    exec Nrf24.step is s = .ok (Nrf24.ran is s) := by
  unfold Nrf24.ran
  cases hrun : exec Nrf24.step is s with
  | ok r => rfl
  | error f =>
      rw [hrun] at h
      cases h

/-- A message of two packets is read of slot 0. -/
def twoArrive : List (Nrf24.Call × Env) := Nrf24.receiving [[Nrf24.headPacket 0xAA, Nrf24.tailPacket 0xAA]]

/-- The operations before the packets, and those that read them. -/
def openingOuts : List Nrf24.Out := (Nrf24.ran Nrf24.opening (Nrf.boot .linux)).1

def arriveOuts : List Nrf24.Out := (Nrf24.ran twoArrive Nrf24.opened).1

/-- The packets are on the air before they are read. -/
def twoOnAir : List Receiver.Input :=
  (openingOuts.flatMap Nrf24.Out.ops).map carried ++
    ([.packet 22 (accessAddress Nrf24.gatewayMac 1) ⟨(Nrf24.headPacket 0xAA).bytes, by decide⟩,
        .packet 22 (accessAddress Nrf24.gatewayMac 1) ⟨(Nrf24.tailPacket 0xAA).bytes, by decide⟩] ++
      (arriveOuts.flatMap Nrf24.Out.ops).map carried)

theorem interleaves_twoOnAir : Interleaves ((openingOuts ++ arriveOuts).flatMap Nrf24.Out.ops) twoOnAir := by
  rw [List.flatMap_append]
  exact (interleaves_carried _).append (.air _ _ _ (.air _ _ _ (interleaves_carried _)))

theorem gateway_twoArrive : ∀ ce ∈ twoArrive, Gateway ce.1 := by
  unfold twoArrive Nrf24.receiving
  simp only [List.flatMap_cons, List.flatMap_nil, List.append_nil, List.forall_mem_cons]
  refine ⟨trivial, fun ce hce => ?_⟩
  rw [(List.mem_replicate.mp hce).2]
  trivial

theorem exec_opening : exec Nrf24.step Nrf24.opening (Nrf.boot .linux) = .ok (openingOuts, Nrf24.opened) := exec_ran rfl

theorem exec_twoArrive :
    exec Nrf24.step twoArrive Nrf24.opened = .ok (arriveOuts, (Nrf24.ran twoArrive Nrf24.opened).2) := exec_ran rfl

theorem exec_both : exec Nrf24.step ((.init Nrf24.gatewayMac 0, .still 0) :: (Nrf24.opening.tail ++ twoArrive))
    (Nrf.boot .linux) = .ok (openingOuts ++ arriveOuts, (Nrf24.ran twoArrive Nrf24.opened).2) :=
  exec_append_ok.mpr ⟨_, _, _, exec_opening, exec_twoArrive, rfl⟩

theorem gateway_both : ∀ ce ∈ Nrf24.opening.tail ++ twoArrive, Gateway ce.1 :=
  List.forall_mem_append.mpr ⟨gateway_opening, gateway_twoArrive⟩

theorem exec_twoOnAir : ∃ r, exec Receiver.step twoOnAir (Receiver.init blank (Buf.zero 5)) =
    .ok (outputs Inbox.step twoOnAir Inbox.start, r) := by
  obtain ⟨-, hsane, -⟩ := gateway_runs gateway_both exec_both
  obtain ⟨r, hok, -⟩ := exec_refines_inbox blank (Buf.zero 5) fun i hi => (interleaves_twoOnAir.sound hsane i hi).1
  exact ⟨r, hok⟩

theorem handed_both : ((openingOuts ++ arriveOuts).flatMap Nrf24.Out.ops).filterMap handed =
    (outputs Inbox.step twoOnAir Inbox.start).filterMap Receiver.Output.mail := by
  decide +kernel

theorem sent_twoOnAir : twoOnAir.filterMap (Receiver.Input.sentTo (accessAddress Nrf24.gatewayMac 1)) =
    [(Nrf24.headPacket 0xAA).bytes, (Nrf24.tailPacket 0xAA).bytes] := by
  decide +kernel

/-! ## Runs of a gateway -/

section Runs
variable {b : Build} {s s' : Nrf b} {is is' : List (Nrf24.Call × Env)} {os os' : List Nrf24.Out}
  {js : List Receiver.Input} {outs : List Receiver.Output} {r : Receiver}

/-- In every run of a gateway, with anything on the air and whatever the chip held before, where the driver hands over
what the radio reads: what is handed over of a pipe are packets that were on the air for the address of the pipe, each
one whole, at most once, and in this order. -/
theorem gateway_reads (mac : Mac) (e₀ : Env) (his : ∀ ce ∈ is, Gateway ce.1)
    (hrun : exec Nrf24.step ((.init mac 0, e₀) :: is) (Nrf.boot b) = .ok (os, s))
    (hjs : Interleaves (os.flatMap Nrf24.Out.ops) js) (c : Chip) (opened : Address)
    (hradio : exec Receiver.step js (Receiver.init c opened) = .ok (outs, r))
    (hmail : (os.flatMap Nrf24.Out.ops).filterMap handed = outs.filterMap Receiver.Output.mail) (p : Fin 6) :
    ((os.flatMap Nrf24.Out.ops).filterMap (readOn p.val)).Sublist
      (js.filterMap (Receiver.Input.sentTo (address mac p))) :=
  handed_sent hjs (gateway_runs his hrun).2.1 c opened hradio hmail p

theorem gateway_reads_twoOnAir :
    (((openingOuts ++ arriveOuts).flatMap Nrf24.Out.ops).filterMap (readOn 1)).Sublist
      [(Nrf24.headPacket 0xAA).bytes, (Nrf24.tailPacket 0xAA).bytes] := by
  obtain ⟨r, hradio⟩ := exec_twoOnAir
  have haddr : address Nrf24.gatewayMac 1 = accessAddress Nrf24.gatewayMac 1 := rfl
  rw [← sent_twoOnAir, ← haddr]
  exact gateway_reads Nrf24.gatewayMac (.still 0) gateway_both exec_both interleaves_twoOnAir blank (Buf.zero 5) hradio
    handed_both 1

theorem fragsIn_eq (n : Nat) (ops : List DriverOp) :
    Nrf24.fragsIn n ops = (ops.filterMap (readOn n)).filterMap Nrf24.frag? := by
  rw [List.filterMap_filterMap]
  refine List.filterMap_congr fun op _ => ?_
  cases op with
  | read pipe pdu =>
      show (if pipe = n then Nrf24.frag? pdu.bytes else none) =
        (if pipe = n then some pdu.bytes else none).bind Nrf24.frag?
      split
      · rfl
      · rfl
  | _ => rfl

theorem fragsOf_entry (n : Nat) (x : Nrf24.Entry) : fragsOf (x.events n) = Nrf24.fragsIn n x.2.ops := by
  have hfrags (fs : List (Frag UInt8)) : fragsOf (fs.map Ev.frag) = fs := by
    induction fs with
    | nil => rfl
    | cons f fs ih => rw [List.map_cons, fragsOf_frag, ih]
  unfold Nrf24.Entry.events
  rw [fragsOf_append, hfrags]
  refine (congrArg _ ?_).trans (List.append_nil _)
  split
  · split
    · rfl
    · rfl
  · rfl

theorem fragsOf_events (n : Nat) (h : os.length = is.length) :
    fragsOf (Nrf24.events n (is.zip os)) = Nrf24.fragsIn n (os.flatMap Nrf24.Out.ops) := by
  induction is generalizing os with
  | nil =>
      rw [List.length_eq_zero_iff.mp h]
      rfl
  | cons ce is ih =>
      cases os with
      | nil => cases h
      | cons o os =>
          rw [List.zip_cons_cons, Nrf24.events, List.flatMap_cons, fragsOf_append, fragsOf_entry, List.flatMap_cons,
            Nrf24.fragsIn_append]
          exact congrArg _ (ih (Nat.succ_injective h))

/-- Once a slot has been given to a connection, and where only such packets are on the air for its access address as
`write_raw` makes: the messages that `hal_comm_read` returns of it, and the one that waits, are put together from the
packets on the air for its access address, of fragments numbered from 0 to a final one, in the order in which they were
on the air. -/
theorem gateway_assembled (mac : Mac) (e₀ : Env) (his : ∀ ce ∈ is, Gateway ce.1)
    (hrun : exec Nrf24.step ((.init mac 0, e₀) :: is) (Nrf.boot b) = .ok (os, s)) (his' : ∀ ce ∈ is', Gateway ce.1)
    (hrun' : exec Nrf24.step is' s = .ok (os', s')) {i : Fin b.connections}
    (hreceiver : Nrf24.Receiver i s (is'.zip os') s') (hfresh : (s.peers i).seqnumberRx = 0)
    (hjs : Interleaves ((os ++ os').flatMap Nrf24.Out.ops) js) (c : Chip) (opened : Address)
    (hradio : exec Receiver.step js (Receiver.init c opened) = .ok (outs, r))
    (hmail : ((os ++ os').flatMap Nrf24.Out.ops).filterMap handed = outs.filterMap Receiver.Output.mail)
    (hsound : ∀ f ∈ (js.filterMap (Receiver.Input.sentTo (accessAddress mac (i + 1)))).filterMap Nrf24.frag?,
      Nrf24.Sound f) :
    ∀ m ∈ Nrf24.delivered (i + 1) (is'.zip os') ++ (s'.peers i).waiting,
      Assembled ((js.filterMap (Receiver.Input.sentTo (accessAddress mac (i + 1)))).filterMap Nrf24.frag?) m := by
  have hboth : exec Nrf24.step ((.init mac 0, e₀) :: (is ++ is')) (Nrf.boot b) = .ok (os ++ os', s') :=
    exec_append_ok.mpr ⟨os, s, os', hrun, hrun', rfl⟩
  have hcalls : ∀ ce ∈ is ++ is', Gateway ce.1 := List.forall_mem_append.mpr ⟨his, his'⟩
  obtain ⟨-, hsane, -⟩ := gateway_runs hcalls hboth
  have hreads := handed_sent hjs hsane c opened hradio hmail (pipeOf i)
  have haddr : address mac (pipeOf i) = accessAddress mac (i + 1) :=
    if_neg (Nat.succ_ne_zero i.val)
  rw [haddr] at hreads
  -- the fragments of the slot are those of the packets
  have hfrags : (fragsOf (Nrf24.events (i + 1) (is'.zip os'))).Sublist
      ((js.filterMap (Receiver.Input.sentTo (accessAddress mac (i + 1)))).filterMap Nrf24.frag?) := by
    rw [fragsOf_events _ (length_exec hrun'), fragsIn_eq]
    refine List.Sublist.filterMap _ (List.Sublist.trans ?_ hreads)
    rw [List.flatMap_append, List.filterMap_append]
    exact List.sublist_append_right _ _
  have hout := hreceiver.out_eq fun f hf => hsound f (hfrags.subset hf)
  rw [← hout]
  intro m hm
  have hassembled := out_assembled (hreceiver.holds_nil hfresh) m hm
  rw [List.nil_append] at hassembled
  exact hassembled.mono hfrags

theorem gateway_assembled_twoOnAir :
    Nrf24.delivered 1 (twoArrive.zip arriveOuts) = [Nrf24.twoPackets 0xAA] ∧
      Assembled [⟨0, false, List.replicate 30 0xAA⟩, ⟨1, true, [0xAA]⟩] (Nrf24.twoPackets 0xAA) := by
  obtain ⟨r, hradio⟩ := exec_twoOnAir
  have hdelivered : Nrf24.delivered 1 (twoArrive.zip arriveOuts) = [Nrf24.twoPackets 0xAA] := by decide +kernel
  have hfrags : (twoOnAir.filterMap (Receiver.Input.sentTo (accessAddress Nrf24.gatewayMac 1))).filterMap Nrf24.frag? =
      [⟨0, false, List.replicate 30 0xAA⟩, ⟨1, true, [0xAA]⟩] := by
    rw [sent_twoOnAir]
    decide
  have hsound : ∀ f ∈ ([⟨0, false, List.replicate 30 0xAA⟩, ⟨1, true, [0xAA]⟩] : List (Frag UInt8)), Nrf24.Sound f := by
    simp only [List.forall_mem_cons]
    exact ⟨⟨fun _ => rfl, by decide, by decide⟩, ⟨fun h => Bool.noConfusion h, by decide, by decide⟩,
      fun _ h => absurd h List.not_mem_nil⟩
  have hreceiver : Nrf24.Receiver 0 Nrf24.opened (twoArrive.zip arriveOuts) (Nrf24.ran twoArrive Nrf24.opened).2 :=
    Nrf24.receiver_opened _ rfl
  rw [← hfrags] at hsound ⊢
  refine ⟨hdelivered, gateway_assembled Nrf24.gatewayMac (.still 0) gateway_opening exec_opening gateway_twoArrive
    exec_twoArrive hreceiver rfl interleaves_twoOnAir blank (Buf.zero 5) hradio handed_both hsound _ ?_⟩
  apply List.mem_append_left
  rw [show (((0 : Fin Build.linux.connections) : Nat) + 1) = 1 from rfl, hdelivered]
  exact List.mem_singleton_self _

end Runs

end KnotHal.Radio
