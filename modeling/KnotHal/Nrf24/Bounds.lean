import KnotHal.Nrf24.Step

/-!
# Where received packets are copied to

What `read_raw` and `read_mgmt` write for packets of any length and content. A data packet of one byte
that the slot accepts makes `ilen - DATA_HDR_SIZE` wrap, and a presence packet of 31 or 32 bytes that is
accepted becomes an event of 33 or 34; these are the only ways out of bounds.

* `readRaw_in_bounds_iff` : the copies of `read_raw`, in every reachable slot;
* `mgmt_in_bounds` : the stores of `read_mgmt` and `mgmt.len_rx`, in every run.
-/

namespace KnotHal.Nrf24

open Machine

variable {b : Build}

def arriving (t : Nat) (pdus : List Pdu) : Env :=
  { Env.still t with rx := pdus.map fun pdu => ⟨pdu, t, Buf.zero 32, ⟨true, true⟩⟩ }

def fullFragment : Pdu := ⟨0x00 :: 0x00 :: List.replicate 30 0xAA, by decide, by decide⟩

/-! ## The data channel -/

/-- A data packet of one byte that the slot accepts. -/
def LiveRunt (r : Rx) (d : Nrf24Data) : Prop :=
  r.pdu.length = 1 ∧ (lid r.pdu.head = lidDataFrag ∨ lid r.pdu.head = lidDataEnd) ∧ d.lenRx = 0 ∧
    (nseq r.pdu.head = 0 ∨ nseq r.pdu.head = d.seqnumberRx)

/-- Every copy stays inside `buffer_rx` and inside the packet it is made from. -/
def CopiesWithin (rx : List Rx) (cs : List (Option Nrf.Copy)) : Prop :=
  List.Forall₂ (fun r c => ∀ x ∈ c, Nrf.Copy.Within x r.pdu.length) rx cs

def SlotBounds (d : Nrf24Data) : Prop := d.offsetRx ≤ dataSize ∧ d.lenRx ≤ dataSize ∧ d.seqnumberRx ≤ 64

section Step
variable {i : Fin b.connections} {r : Rx} {p : Payload} {s : Nrf b}

theorem rxData_runt {d : Nrf24Data} (hrunt : LiveRunt r d) :
    ∃ n, Nrf.rxData b (p.write 0 r.pdu.bytes) r.pdu.length d = .error (.copy n) := by
  obtain ⟨h1, hlid, hl, hn⟩ := hrunt
  have hhead := get_write_pdu p r.pdu
  have hre := Nrf.restart_eq (p.write 0 r.pdu.bytes) d
  have hpow := Nat.pow_le_pow_right (show 0 < 2 by decide) b.sizeBits_ge
  have hwrap : Nrf.sizeSub b 1 dataHdrSize = 2 ^ b.sizeBits - 1 := Nrf.sizeSub_one b
  obtain ⟨c, hc⟩ : ∃ c, Nrf.dataCopy b (p.write 0 r.pdu.bytes) 1 (Nrf.restart (p.write 0 r.pdu.bytes) d) = some c := by
    refine ⟨_, Nrf.dataCopy_iff.mpr ⟨?_, ?_, ?_, rfl⟩⟩
    · rw [hre]; exact hl
    · rw [hre, hhead]
      dsimp only
      split
      · rename_i h0; exact h0.2.symm
      · rename_i h0
        exact (hn.resolve_left fun hz => h0 ⟨hl, hz⟩).symm
    · rintro ⟨-, hshort⟩
      rw [hwrap] at hshort
      simp only [pwMsgSize, mtu, dataHdrSize] at hshort
      omega
  unfold Nrf.rxData
  dsimp only
  rw [h1, hc]
  exact ⟨c.len, if_neg (Nrf.dataCopy_runt hc)⟩

theorem rxData_ok {d : Nrf24Data} (hinv : RxInv d) (hno : ¬ LiveRunt r d)
    (hlid : lid r.pdu.head = lidDataFrag ∨ lid r.pdu.head = lidDataEnd) :
    ∃ c d', Nrf.rxData b (p.write 0 r.pdu.bytes) r.pdu.length d = .ok (c, d') ∧
      ∀ x ∈ c, Nrf.Copy.Within x r.pdu.length := by
  have hhead := get_write_pdu p r.pdu
  have hinv₁ := Nrf.restart_inv (p := p.write 0 r.pdu.bytes) hinv
  have hre := Nrf.restart_eq (p.write 0 r.pdu.bytes) d
  unfold Nrf.rxData
  dsimp only
  generalize p.write 0 r.pdu.bytes = q at hhead hinv₁ hre ⊢
  cases hc : Nrf.dataCopy b q r.pdu.length (Nrf.restart q d) with
  | none => exact ⟨none, _, rfl, by simp⟩
  | some c =>
      have hpos := r.pdu.pos
      have h2 : dataHdrSize ≤ r.pdu.length := by
        by_contra hlt
        refine hno ⟨by simp only [dataHdrSize, Pdu.length] at hlt ⊢; omega, hlid, ?_⟩
        obtain ⟨hl, hn, -, -⟩ := Nrf.dataCopy_iff.mp hc
        rw [hre, hhead] at hn
        rw [hre] at hl
        refine ⟨hl, ?_⟩
        dsimp only at hn
        split at hn
        · exact Or.inl hn.symm
        · exact Or.inr hn.symm
      have hwithin := Nrf.dataCopy_within h2 r.pdu.le_mtu hinv₁.offset_le hc
      exact ⟨some c, _, if_pos (hwithin.mono r.pdu.le_mtu), by rintro x ⟨⟩; exact hwithin⟩

theorem rxControl_ok {q : Payload} (hd : s.driverIndex = 0) : ∃ s', s.rxControl i q r = .ok s' := by
  unfold Nrf.rxControl
  dsimp only
  split
  · exact ⟨_, by rw [Nrf.writeKeepalive, Nrf.phy_ok hd]; rfl⟩
  · split
    · exact ⟨_, rfl⟩
    · split <;> exact ⟨_, rfl⟩

/-- What the rounds of `read_raw` rely on and keep. -/
def Ready (i : Fin b.connections) (q : Payload × Nrf b) : Prop := q.2.driverIndex = 0 ∧ RxInv (q.2.peers i)

theorem readRawStep_ok {q : Payload × Nrf b} (hq : Ready i q) (hno : ¬ LiveRunt r (q.2.peers i)) :
    ∃ c q', Nrf.readRawStep i r q = .ok (c, q') ∧ (∀ x ∈ c, Nrf.Copy.Within x r.pdu.length) ∧ Ready i q' := by
  obtain ⟨p, s⟩ := q
  obtain ⟨hd, hinv⟩ := hq
  have hhead := get_write_pdu p r.pdu
  have hok : ∃ c q', Nrf.readRawStep i r (p, s) = .ok (c, q') ∧ ∀ x ∈ c, Nrf.Copy.Within x r.pdu.length := by
    by_cases hc : lid ((p.write 0 r.pdu.bytes).get 0) = lidControl
    · obtain ⟨s', hs'⟩ := rxControl_ok (i := i) (s := Nrf.received i r s) (q := p.write 0 r.pdu.bytes) (r := r) hd
      exact ⟨none, _, Nrf.readRawStep_control hd hc hs', by simp⟩
    · by_cases hl : lid ((p.write 0 r.pdu.bytes).get 0) = lidDataFrag ∨ lid ((p.write 0 r.pdu.bytes).get 0) = lidDataEnd
      · have hinv₁ : RxInv ((Nrf.received i r s).peers i) :=
          hinv.of_keeps (by constructor <;> simp [Nrf.received])
        have hno₁ : ¬ LiveRunt r ((Nrf.received i r s).peers i) := by
          simpa [LiveRunt, Nrf.received] using hno
        obtain ⟨c, d, hrx, hc⟩ := rxData_ok (b := b) (p := p) hinv₁ hno₁ (by rwa [hhead] at hl)
        exact ⟨c, _, by rw [Nrf.readRawStep_data hd hl, hrx]; rfl, hc⟩
      · exact ⟨none, _, Nrf.readRawStep_other hd hc hl, by simp⟩
  obtain ⟨c, ⟨p', s'⟩, h, hc⟩ := hok
  exact ⟨c, (p', s'), h, hc, (Nrf.Frame.readRawStep h).driverIndex.trans hd, readRawStep_rxInv h hinv⟩

theorem readRawStep_runt {q : Payload × Nrf b} (hq : Ready i q) (hrunt : ¬ ¬ LiveRunt r (q.2.peers i)) :
    ∃ f, Nrf.readRawStep i r q = .error f := by
  obtain ⟨p, s⟩ := q
  have hhead := get_write_pdu p r.pdu
  have hrunt₁ : LiveRunt r ((Nrf.received i r s).peers i) := by
    simpa [LiveRunt, Nrf.received] using not_not.mp hrunt
  obtain ⟨n, hn⟩ := rxData_runt (b := b) (p := p) hrunt₁
  refine ⟨.copy n, ?_⟩
  rw [Nrf.readRawStep_data hq.1 (by rw [hhead]; exact hrunt₁.2.1), hn]
  rfl

end Step

/-- In every reachable slot and for every packets that arrive: all the copies of `read_raw` are in bounds,
and so are the counters after it, exactly when no packet is a data packet of one byte that the slot
accepts in the state in which it is handled. -/
theorem readRaw_in_bounds_iff {s t : Nrf b} (hs : Reachable s) (i : Fin b.connections)
    (ht : t.peers i = s.peers i) (hd : t.driverIndex = 0) (e : Env) :
    (∃ cs t', t.readRaw e i = .ok (cs, t') ∧ CopiesWithin e.rx cs ∧ SlotBounds (t'.peers i)) ↔
      Along (fun r q => ¬ LiveRunt r (q.2.peers i)) (Nrf.readRawStep i) e.rx (e.rxFrame.write 0 [0], t) := by
  have hready : Ready i (e.rxFrame.write 0 [0], t) := ⟨hd, by
    dsimp only; rw [ht]; exact (hs.slotInv i).rx⟩
  have hloop : (∃ cs q', exec (Nrf.readRawStep i) e.rx (e.rxFrame.write 0 [0], t) = .ok (cs, q') ∧
      CopiesWithin e.rx cs ∧ Ready i q') ↔
      Along (fun r q => ¬ LiveRunt r (q.2.peers i)) (Nrf.readRawStep i) e.rx (e.rxFrame.write 0 [0], t) :=
    exec_ok_iff (fun r _ hq hno => readRawStep_ok (r := r) hq hno)
      (fun r _ hq hrunt => readRawStep_runt (r := r) hq hrunt) hready
  rw [← hloop]
  constructor
  · rintro ⟨cs, t', h, hcs, -⟩
    obtain ⟨-, p', h⟩ := Nrf.readRaw_eq_ok.mp h
    refine ⟨cs, (p', t'), h, hcs, ?_⟩
    exact exec_keeps (fun _ _ _ _ hq h => ⟨(Nrf.Frame.readRawStep h).driverIndex.trans hq.1,
      readRawStep_rxInv h hq.2⟩) hready h
  · rintro ⟨cs, ⟨p', t'⟩, h, hcs, -, hinv⟩
    exact ⟨cs, t', Nrf.readRaw_eq_ok.mpr ⟨hd, p', h⟩, hcs, hinv.offset_le, hinv.len, hinv.seq⟩

/-- A full fragment numbered 0 arrives in the open pipe. -/
theorem readRaw_in_bounds_opened :
    ∃ cs t', (after opening : Nrf .linux).readRaw (arriving 100 [fullFragment]) 0 = .ok (cs, t') ∧
      CopiesWithin (arriving 100 [fullFragment]).rx cs ∧ SlotBounds (t'.peers 0) :=
  (readRaw_in_bounds_iff (reachable_after rfl) 0 rfl rfl (arriving 100 [fullFragment])).mpr
    ⟨fun h => absurd h.1 (by decide), fun _ _ _ => trivial⟩

/-- One byte `0x01` in a fresh pipe, and one byte `0x05` behind a full fragment: the first copy takes 128
bytes out of a packet of one, the second `SIZE_MAX`. -/
theorem readRaw_runt_overflows :
    (∃ s os, exec step opening (Nrf.boot .linux) = .ok (os, s)) ∧
      exec step (opening ++ [(.read 1 128, arriving 100 [⟨[0x01], by decide, by decide⟩])]) (Nrf.boot .linux) =
        .error (.copy 128) ∧
      exec step (opening ++ [(.read 1 128, arriving 100 [fullFragment, ⟨[0x05], by decide, by decide⟩])])
        (Nrf.boot .linux) = .error (.copy (2 ^ 64 - 1)) :=
  ⟨⟨_, _, rfl⟩, rfl, rfl⟩

/-! ## The management channel -/

def Nrf.mgmtStores (e : Env) (s : Nrf b) : List Store :=
  match e.rx with
  | [] => []
  | r :: _ =>
      if s.mgmt.lenRx ≠ 0 then []
      else
        match mgmtEvent s.listen s.macLocal ((e.rxFrame.write 0 [0]).write 0 r.pdu.bytes) r.pdu.length with
        | .ok (sts, _) => sts
        | .error _ => []

/-- `read_mgmt` would turn a presence packet of more than 30 bytes into an event. -/
def TakesOverlong (e : Env) (s : Nrf b) : Prop :=
  s.mgmt.lenRx = 0 ∧ s.listen = false ∧
    ∃ r rs, e.rx = r :: rs ∧ pduType r.pdu.head = typePresence ∧ mgmtSize < r.pdu.length - 1 + mgmtHdrLen

/-- A step in whose pass `read_mgmt` does not accept an overlong presence packet. -/
def StepFits (ce : Call × Env) (s : Nrf b) : Prop :=
  ce.1.runs = true → s.runningState = .mgmt → ¬ TakesOverlong ce.2 s

/-- The stores of an event and its length are inside the 32 bytes unless the packet is an overlong
presence. -/
theorem mgmtEvent_fits_iff {listen : Bool} {mac : Mac} {p : Payload} {ilen len : Nat} {sts : List Store}
    (h : mgmtEvent listen mac p ilen = .ok (sts, len)) (hm : ilen ≤ mtu) :
    ((∀ st ∈ sts, st.off + st.bytes.length ≤ mgmtSize) ∧ len ≤ mgmtSize) ↔
      ¬ (pduType (p.get 0) = typePresence ∧ mgmtSize < ilen - 1 + mgmtHdrLen) := by
  have hmtu : mtu = 32 := rfl
  have hsize : mgmtSize = 32 := rfl
  have hhdr : mgmtHdrLen = 3 := rfl
  have hpres : presenceHdrLen = 9 := rfl
  have hread : ∀ off n, off + n ≤ 32 → (p.read off n).length = n := fun off n => p.length_read
  unfold mgmtEvent at h
  split at h
  · rename_i htype
    split at h
    · cases h
    · split at h
      · cases h
      · obtain ⟨rfl, rfl⟩ := Prod.mk.inj (Except.ok.inj h)
        have h₁ := hread 1 8 (by omega)
        have h₂ := hread presenceHdrLen (ilen - presenceHdrLen) (by omega)
        simp only [List.forall_mem_cons, List.not_mem_nil, false_imp_iff, implies_true, and_true, h₁, h₂, htype,
          true_and, evtBcastPresence, List.length_cons, List.length_nil]
        omega
  · rename_i htype
    split at h
    · split at h
      · cases h
      · split at h
        · cases h
        · obtain ⟨rfl, rfl⟩ := Prod.mk.inj (Except.ok.inj h)
          have h₁ := hread 1 8 (by omega)
          have h₂ := hread 9 8 (by omega)
          have h₃ := hread 17 1 (by omega)
          have h₄ := hread 18 5 (by omega)
          simp only [List.forall_mem_cons, List.not_mem_nil, false_imp_iff, implies_true, and_true, h₁, h₂, h₃, h₄,
            htype, false_and, not_false_eq_true, iff_true, evtConnected, List.length_cons, List.length_nil,
            connectedLen]
          omega
    · cases h

section MgmtBounds
variable {e : Env} {s s' : Nrf b}

theorem event_fits {r : Rx} {rs : List Rx} {sts : List Store} {len : Nat} (hl : s.mgmt.lenRx = 0)
    (hrx : e.rx = r :: rs) (hno : ¬ TakesOverlong e s)
    (hev : mgmtEvent s.listen s.macLocal ((e.rxFrame.write 0 [0]).write 0 r.pdu.bytes) r.pdu.length = .ok (sts, len)) :
    (∀ st ∈ sts, st.off + st.bytes.length ≤ mgmtSize) ∧ len ≤ mgmtSize := by
  refine (mgmtEvent_fits_iff hev r.pdu.le_mtu).mpr fun ⟨htype, hlong⟩ => hno ?_
  rw [get_write_pdu] at htype
  refine ⟨hl, ?_, r, rs, hrx, htype, hlong⟩
  rw [mgmtEvent, get_write_pdu, if_pos htype] at hev
  by_contra hlisten
  rw [if_pos (by simpa using hlisten)] at hev
  cases hev

theorem mgmtStores_fit (h : ¬ TakesOverlong e s) : ∀ st ∈ s.mgmtStores e, st.off + st.bytes.length ≤ mgmtSize := by
  intro st hst
  unfold Nrf.mgmtStores at hst
  split at hst
  · cases hst
  · rename_i r rs hrx
    split at hst
    · cases hst
    · rename_i hl
      split at hst
      · rename_i sts len hev
        exact (event_fits (by omega) hrx h hev).1 st hst
      · cases hst

theorem readMgmt_lenRx {n : Int} (hs : s.mgmt.lenRx ≤ mgmtSize) (hno : ¬ TakesOverlong e s)
    (h : s.readMgmt e = .ok (n, s')) : s'.mgmt.lenRx ≤ mgmtSize := by
  rcases Nrf.readMgmt_cases h with ⟨-, rfl⟩ | ⟨r, rs, hrx, -, rfl | ⟨sts, len, hl, hev, rfl⟩⟩
  · exact hs
  · exact hs
  · exact (event_fits hl hrx hno hev).2

theorem running_lenRx (hs : s.mgmt.lenRx ≤ mgmtSize) (hno : s.runningState = .mgmt → ¬ TakesOverlong e s)
    (h : s.running e = .ok s') : s'.mgmt.lenRx ≤ mgmtSize := by
  rcases Nrf.running_cases h with ⟨ch, rs, -, rfl⟩ | ⟨hstate, h⟩ | ⟨-, h⟩
  · exact hs
  · obtain ⟨n, s₁, m, s₂, s₃, rs, hread, hwrite, -, hm₃, rfl⟩ := Nrf.mgmtPass_cases h
    dsimp only
    rw [hm₃, (Nrf.writeMgmt_rx hwrite).2]
    exact readMgmt_lenRx hs (hno hstate) hread
  · obtain ⟨rs, -, ⟨-, rfl⟩ | ⟨-, s₁, hserve, rfl⟩⟩ := Nrf.rawPass_cases h
    · exact hs
    · rcases (Nrf.Frame.servePipe hserve).event with h₁ | ⟨-, h₁⟩ <;> dsimp only <;> rw [h₁]
      · exact hs
      · decide

theorem step_lenRx {ce : Call × Env} {o : Out} (hs : s.mgmt.lenRx ≤ mgmtSize) (hfit : StepFits ce s)
    (h : step ce s = .ok (o, s')) : s'.mgmt.lenRx ≤ mgmtSize := by
  obtain ⟨s₁, hrun, hdid⟩ := perform_slot 0 (step_eq_ok.mp h).1
  have h₁ : s₁.mgmt.lenRx ≤ mgmtSize := by
    rcases hrun with ⟨hruns, hrun⟩ | ⟨-, rfl⟩
    · exact running_lenRx (s := { s with log := [] }) hs (hfit hruns) hrun
    · exact hs
  rcases hdid.lenRx with h₂ | h₂ <;> omega

end MgmtBounds

/-- In every run whose passes accept no overlong presence packet, `mgmt.len_rx` stays inside the buffer,
the stores of the next `read_mgmt` that accepts none fall inside it, and so does the copy that
`hal_comm_read` makes. -/
theorem mgmt_in_bounds {is : List (Call × Env)} {os : List Out} {s : Nrf b}
    (h : exec step is (Nrf.boot b) = .ok (os, s)) (hfit : Along StepFits step is (Nrf.boot b)) :
    s.mgmt.lenRx ≤ mgmtSize ∧ (∀ count, min s.mgmt.lenRx count ≤ mgmtSize) ∧
      ∀ e, ¬ TakesOverlong e s → (∀ st ∈ s.mgmtStores e, st.off + st.bytes.length ≤ mgmtSize) ∧
        ∀ n s', s.readMgmt e = .ok (n, s') → s'.mgmt.lenRx ≤ mgmtSize := by
  have hlen := exec_invariant (I := fun s : Nrf b => s.mgmt.lenRx ≤ mgmtSize)
    (fun _ _ _ _ hs hfit h => step_lenRx hs hfit h) (Nat.zero_le _) hfit h
  refine ⟨hlen, fun count => (Nat.min_le_left _ _).trans hlen, fun e hno => ⟨mgmtStores_fit hno, fun n s' hr => ?_⟩⟩
  exact readMgmt_lenRx hlen hno hr

def longPresence : Pdu := ⟨0x01 :: List.replicate 31 0x42, by decide, by decide⟩

def fullPresence : Pdu := ⟨0x01 :: List.replicate 29 0x42, by decide, by decide⟩

/-- The radio is opened with the management socket, and a pass leads to the management channel. -/
def scanning : List (Call × Env) :=
  [(.init gatewayMac 0, .still 0), (.socket pfNrf24 protoMgmt, .still 0), (.read 0 64, .still 0)]

/-- A presence packet of 30 bytes is read, and another one comes. -/
theorem mgmt_in_bounds_scanning :
    let s : Nrf .linux := after (scanning ++ [(.read 0 64, arriving 0 [fullPresence])])
    s.mgmt.lenRx ≤ mgmtSize ∧ (∀ count, min s.mgmt.lenRx count ≤ mgmtSize) ∧
      ∀ e, ¬ TakesOverlong e s → (∀ st ∈ s.mgmtStores e, st.off + st.bytes.length ≤ mgmtSize) ∧
        ∀ n s', s.readMgmt e = .ok (n, s') → s'.mgmt.lenRx ≤ mgmtSize := by
  have hrun : exec step (scanning ++ [(.read 0 64, arriving 0 [fullPresence])]) (Nrf.boot .linux) =
      .ok (_, after (scanning ++ [(.read 0 64, arriving 0 [fullPresence])])) := rfl
  refine mgmt_in_bounds hrun (along_of_forall ?_ _)
  rintro ce hce s - - ⟨-, -, r, rs, hrx, -, hlong⟩
  simp only [scanning, List.cons_append, List.nil_append, List.mem_cons, List.not_mem_nil, or_false] at hce
  rcases hce with rfl | rfl | rfl | rfl
  · cases hrx
  · cases hrx
  · cases hrx
  · obtain ⟨rfl, -⟩ := List.cons.inj hrx
    revert hlong
    decide

/-- The name of a presence packet of 32 bytes ends at offset 34, and the next read copies 34 bytes. -/
theorem longPresence_overflows :
    ∃ os s, exec step scanning (Nrf.boot .linux) = .ok (os, s) ∧
      (∃ st ∈ s.mgmtStores (arriving 0 [longPresence]), st.off + st.bytes.length = 34) ∧
      ∃ o s', step (.read 0 64, arriving 0 [longPresence]) s = .ok (o, s') ∧ o.ret = 34 :=
  ⟨_, _, rfl, ⟨⟨11, List.replicate 23 0x42⟩, by decide, rfl⟩, _, _, rfl, rfl⟩

end KnotHal.Nrf24
