import KnotHal.Nrf24.Bounds

/-!
# Histories of a pipe

A history is a list of API calls with their outputs. What it says about pipe `n`: the messages accepted
and the fragments sent (`accepted`, `groups`), the fragments received, the reads, and the messages
delivered (`events`, `delivered`). Two run lemmas say what a run makes of them.

* `sender_run` : each group of fragments sent belongs to one accepted message, in order;
* `receiver_run` : what is delivered is what the receiver `Rcv` makes of the events.
-/

namespace KnotHal.Nrf24

open Machine Reassembly

variable {b : Build}

/-! ## Projections -/

def DriverOp.fragIn (n : Nat) : DriverOp → Option (Frag UInt8)
  | read pipe pdu => if pipe = n then frag? pdu.bytes else none
  | _ => none

def DriverOp.fragOut (n : Nat) : DriverOp → Option (Frag UInt8 × Outcome)
  | write pipe data o => if pipe = n then (frag? data).map (·, o) else none
  | _ => none

def fragsIn (n : Nat) (ops : List DriverOp) : List (Frag UInt8) := ops.filterMap (·.fragIn n)

def fragsOut (n : Nat) (ops : List DriverOp) : List (Frag UInt8 × Outcome) := ops.filterMap (·.fragOut n)

theorem fragsIn_append (n : Nat) (l l' : List DriverOp) : fragsIn n (l ++ l') = fragsIn n l ++ fragsIn n l' :=
  List.filterMap_append

theorem fragsOut_append (n : Nat) (l l' : List DriverOp) : fragsOut n (l ++ l') = fragsOut n l ++ fragsOut n l' :=
  List.filterMap_append

theorem fragIn_of_quiet {o : DriverOp} (n : Nat) (h : o.Quiet) : o.fragIn n = none := by
  cases o <;> first | rfl | cases h

theorem fragOut_of_quiet {o : DriverOp} (n : Nat) (h : o.Quiet) : o.fragOut n = none := by
  cases o with
  | write pipe data o =>
      have h : frag? data = none := h
      simp [DriverOp.fragOut, h]
  | _ => rfl

theorem fragIn_of_pipe {o : DriverOp} {n : Nat} (h : o.pipe? ≠ some n) : o.fragIn n = none := by
  cases o with
  | read pipe pdu => exact if_neg fun hp => h (congrArg some hp)
  | _ => rfl

theorem fragOut_of_pipe {o : DriverOp} {n : Nat} (h : o.pipe? ≠ some n) : o.fragOut n = none := by
  cases o with
  | write pipe data o => exact if_neg fun hp => h (congrArg some hp)
  | _ => rfl

theorem fragsIn_quiet {n : Nat} {l : List DriverOp} (h : ∀ o ∈ l, o.Quiet) : fragsIn n l = [] :=
  List.filterMap_eq_nil_iff.mpr fun o ho => fragIn_of_quiet n (h o ho)

theorem fragsOut_quiet {n : Nat} {l : List DriverOp} (h : ∀ o ∈ l, o.Quiet) : fragsOut n l = [] :=
  List.filterMap_eq_nil_iff.mpr fun o ho => fragOut_of_quiet n (h o ho)

/-- What `write_raw` puts on the air is what `fragsOut` sees. -/
theorem fragsOut_writes (n : Nat) (rfu : UInt8) {l : List (Frag UInt8 × Outcome)} (h : ∀ fo ∈ l, fo.1.seq < 64) :
    fragsOut n (writes n rfu l) = l := by
  induction l with
  | nil => rfl
  | cons fo l ih =>
      have hhead : DriverOp.fragOut n (.write n (fragBytes rfu fo.1) fo.2) = some fo := by
        simp [DriverOp.fragOut, frag?_fragBytes rfu (h fo List.mem_cons_self)]
      have htail := ih fun x hx => h x (List.mem_cons_of_mem fo hx)
      simp only [fragsOut, writes, List.map_cons, List.filterMap_cons, hhead] at htail ⊢
      rw [htail]

theorem fragsIn_writes (n m : Nat) (rfu : UInt8) (l : List (Frag UInt8 × Outcome)) : fragsIn n (writes m rfu l) = [] := by
  simp [fragsIn, writes, DriverOp.fragIn]

theorem mem_attempts {α : Type} {out : Nat → Outcome} {k : Nat} {xs : List α} {x : α × Outcome}
    (h : x ∈ attempts out k xs) : x.1 ∈ xs := by
  induction xs generalizing k with
  | nil => cases h
  | cons y ys ih =>
      rw [attempts, List.mem_cons] at h
      rcases h with rfl | h
      · exact List.mem_cons_self
      · split at h
        · exact List.mem_cons_of_mem y (ih h)
        · cases h

/-! ## The sending side of a pass -/

def Nrf24Data.pending (d : Nrf24Data) : Option (List UInt8) :=
  if d.lenTx = 0 then none else some (d.bufferTx.read 0 d.lenTx)

theorem Nrf24Data.KeepsTx.pending {d d' : Nrf24Data} (h : d.KeepsTx d') : d'.pending = d.pending := by
  rw [Nrf24Data.pending, Nrf24Data.pending, h.lenTx, h.bufferTx]

section Pass
variable {e : Env} {s s' : Nrf b} {j : Fin b.connections}

/-- Nothing is sent on the pipe of slot `j`, and the message that waits stays. -/
structure Holds (j : Fin b.connections) (s s' : Nrf b) : Prop where
  pending : (s'.peers j).pending = (s.peers j).pending
  out : fragsOut (j + 1) s'.log = fragsOut (j + 1) s.log

theorem Holds.trans {s₁ s₂ s₃ : Nrf b} (h : Holds j s₁ s₂) (h' : Holds j s₂ s₃) : Holds j s₁ s₃ :=
  ⟨h'.pending.trans h.pending, h'.out.trans h.out⟩

theorem holds_append {ops : List DriverOp} (hp : (s'.peers j).pending = (s.peers j).pending)
    (hlog : s'.log = s.log ++ ops) (hops : fragsOut (j + 1) ops = []) : Holds j s s' :=
  ⟨hp, by rw [hlog, fragsOut_append, hops, List.append_nil]⟩

theorem keepalive_quiet (n : Nat) (frame : Payload) (op : UInt8) (dst src : Mac) (o : Outcome) :
    DriverOp.Quiet (.write n ((controlPdu frame op dst src).read 0 controlLen) o) :=
  frag?_control frame op dst src

theorem readRawStep_log {r : Rx} {p p' : Payload} {c : Option Nrf.Copy}
    (h : Nrf.readRawStep j r (p, s) = .ok (c, p', s')) :
    ∃ ops, s'.log = s.log ++ .read (j + 1) r.pdu :: ops ∧ ∀ o ∈ ops, o.Quiet := by
  obtain ⟨-, -, h⟩ := Nrf.readRawStep_cases h
  rcases h with ⟨-, -, h⟩ | ⟨-, d, -, rfl⟩ | ⟨-, -, -, -, rfl⟩
  · rcases Nrf.rxControl_cases h with ⟨-, -, -, n, h⟩ | rfl | ⟨-, -, rfl⟩ | rfl
    · obtain ⟨-, -, rfl⟩ := Nrf.writeKeepalive_eq_ok.mp h
      refine ⟨[_], List.append_assoc _ _ _, fun o ho => ?_⟩
      rw [List.mem_singleton.mp ho]
      exact keepalive_quiet _ _ _ _ _ _
    all_goals exact ⟨[], rfl, by simp⟩
  all_goals exact ⟨[], rfl, by simp⟩

theorem holds_readRaw {cs : List (Option Nrf.Copy)} (h : s.readRaw e j = .ok (cs, s')) : Holds j s s' := by
  refine ⟨(Nrf.readRaw_keepsTx h).pending, ?_⟩
  obtain ⟨-, p', h⟩ := Nrf.readRaw_eq_ok.mp h
  refine exec_keeps (I := fun q : Payload × Nrf b => fragsOut (j + 1) q.2.log = fragsOut (j + 1) s.log)
    (fun r q c q' hq h => ?_) rfl h
  obtain ⟨ops, hlog, hops⟩ := readRawStep_log h
  rw [hlog, fragsOut_append, hq]
  have hread : DriverOp.fragOut (j + 1) (.read (j + 1) r.pdu) = none := rfl
  have hquiet := fragsOut_quiet (n := j + 1) hops
  simp only [fragsOut, List.filterMap_cons, hread] at hquiet ⊢
  rw [hquiet, List.append_nil]

theorem holds_checkKeepalive {n : Int} (h : s.checkKeepalive e j = .ok (n, s')) : Holds j s s' := by
  have hp := (Nrf.checkKeepalive_keeps h).2.1.pending
  rcases Nrf.checkKeepalive_cases h with rfl | ⟨-, -, h⟩
  · exact ⟨rfl, rfl⟩
  · obtain ⟨-, -, rfl⟩ := Nrf.writeKeepalive_eq_ok.mp h
    refine holds_append hp rfl (fragsOut_quiet fun o ho => ?_)
    rw [List.mem_singleton.mp ho]
    exact keepalive_quiet _ _ _ _ _ _

theorem holds_freePipe (h : s.freePipe j = .ok s') : Holds j s s' := by
  have hp := Nrf.freePipe_peer h
  obtain ⟨-, rfl⟩ := Nrf.freePipe_eq_ok.mp h
  exact holds_append (by rw [hp]; rfl) rfl (fragsOut_quiet (by simp [DriverOp.Quiet]))

/-- The message that waits in slot `j` is sent, up to the first failure, and given up. -/
structure Transmits (e : Env) (j : Fin b.connections) (msg : List UInt8) (s s' : Nrf b) : Prop where
  before : (s.peers j).pending = some msg
  after : (s'.peers j).pending = none
  out : fragsOut (j + 1) s'.log = fragsOut (j + 1) s.log ++
    attempts (fun k => e.outcome (.frag k)) 0 (frags pwMsgSize msg)

theorem writeRaw_sent {n : Int} (hinv : SlotInv j (s.peers j)) (h : s.writeRaw e j = .ok (n, s')) :
    s' = s ∨ (s.peers j).lenTx ≠ 0 ∧ s' = s.sent j (writes (j + 1) ((e.frame (.frag 0)).get 1)
      (attempts (fun k => e.outcome (.frag k)) 0
        (frags pwMsgSize ((s.peers j).bufferTx.read 0 (s.peers j).lenTx)))) := by
  rcases Nrf.writeRaw_cases h with ⟨rfl, -⟩ | ⟨h0, hle, hloop⟩
  · exact Or.inl rfl
  · have hd : s.driverIndex = 0 := by
      rcases Nrf.writeRawLoop_cases hloop with ⟨h00, -⟩ | ⟨-, s₁, hphy, -⟩
      · omega
      · exact (Nrf.phy_eq_ok.mp hphy).1
    obtain ⟨m, hm⟩ := Nrf.writeRaw_eq e hd (by omega) hle hinv.seqnumberTx
    rw [h] at hm
    exact Or.inr ⟨by omega, (Prod.mk.inj (Except.ok.inj hm)).2⟩

theorem writeRaw_sends {n : Int} (hinv : SlotInv j (s.peers j)) (h : s.writeRaw e j = .ok (n, s')) :
    Holds j s s' ∨ ∃ msg, Transmits e j msg s s' := by
  have hle := hinv.lenTx
  rcases writeRaw_sent hinv h with rfl | ⟨h0, rfl⟩
  · exact Or.inl ⟨rfl, rfl⟩
  · have hlen : ((s.peers j).bufferTx.read 0 (s.peers j).lenTx).length = (s.peers j).lenTx :=
      Buf.length_read _ (by simpa using hle)
    refine Or.inr ⟨_, if_neg (by omega), by simp [Nrf24Data.pending, Nrf.sent, Nrf.setPeer], ?_⟩
    rw [Nrf.sent, fragsOut_append, fragsOut_writes]
    intro fo hfo
    have := (sound_of_mem_frags (by omega) (by omega) (mem_attempts hfo)).seq_lt
    omega

theorem servePipe_sends (hinv : SlotInv j (s.peers j)) (h : s.servePipe e j = .ok s') :
    Holds j s s' ∨ ∃ msg, Transmits e j msg s s' := by
  obtain ⟨cs, s₁, n, s₂, err, s₃, hread, hwrite, hcheck, h⟩ := Nrf.servePipe_cases h
  have h₁ := holds_readRaw hread
  have h₃ : Holds j s₂ s₃ := ⟨(holds_checkKeepalive hcheck).pending, (holds_checkKeepalive hcheck).out⟩
  have h₄ : Holds j s₂ s' := by
    rcases h with rfl | ⟨-, -, h⟩
    · exact h₃
    · exact h₃.trans ⟨(holds_freePipe h).pending, (holds_freePipe h).out⟩
  rcases writeRaw_sends (hinv.readRaw hread) hwrite with h₂ | ⟨msg, h₂⟩
  · exact Or.inl (h₁.trans (h₂.trans h₄))
  · exact Or.inr ⟨msg, by rw [← h₁.pending]; exact h₂.before, by rw [h₄.pending]; exact h₂.after,
      by rw [h₄.out, h₂.out, h₁.out]⟩

theorem running_sends (hinv : SlotInv j (s.peers j)) (h : s.running e = .ok s') :
    Holds j s s' ∨ ∃ msg, Transmits e j msg s s' := by
  rcases Nrf.running_slot h j with ⟨-, hsame, ops, hlog, hops⟩ | ⟨-, rs, s₁, hserve, rfl⟩
  · refine Or.inl (holds_append (by rw [hsame]) hlog ?_)
    exact List.filterMap_eq_nil_iff.mpr fun o ho => fragOut_of_pipe (hops o ho)
  · have hs₁ := servePipe_sends (s := { s with runningState := rs }) hinv hserve
    rcases hs₁ with h₁ | ⟨msg, h₁⟩
    · exact Or.inl ⟨h₁.pending, h₁.out⟩
    · exact Or.inr ⟨msg, h₁.before, h₁.after, h₁.out⟩

/-! ## The receiving side of a pass -/

/-- From `s` to `s'` the fragments that arrived on the pipe of slot `j` were received, if they were
sound. -/
structure Receives (j : Fin b.connections) (s s' : Nrf b) : Prop where
  inv : RxInv (s.peers j) → RxInv (s'.peers j)
  rcv : ∃ fs, fragsIn (j + 1) s'.log = fragsIn (j + 1) s.log ++ fs ∧
    (RxInv (s.peers j) → (∀ f ∈ fs, Sound f) → run (fs.map .frag) (s.peers j).rcv = ([], (s'.peers j).rcv))

theorem Receives.trans {s₁ s₂ s₃ : Nrf b} (h : Receives j s₁ s₂) (h' : Receives j s₂ s₃) : Receives j s₁ s₃ where
  inv := h'.inv ∘ h.inv
  rcv := by
    obtain ⟨fs, hfs, hrun⟩ := h.rcv
    obtain ⟨gs, hgs, hrun'⟩ := h'.rcv
    refine ⟨fs ++ gs, by rw [hgs, hfs, List.append_assoc], fun hinv hsound => ?_⟩
    rw [List.map_append, run_append, hrun hinv fun f hf => hsound f (List.mem_append_left gs hf)]
    rw [hrun' (h.inv hinv) fun f hf => hsound f (List.mem_append_right fs hf)]
    rfl

theorem Receives.of_keeps {ops : List DriverOp} (hk : (s.peers j).KeepsRx (s'.peers j)) (hlog : s'.log = s.log ++ ops)
    (hops : fragsIn (j + 1) ops = []) : Receives j s s' where
  inv := fun h => h.of_keeps hk
  rcv := ⟨[], by rw [hlog, fragsIn_append, hops], fun _ _ => by rw [hk.rcv]; rfl⟩

theorem Receives.refl (j : Fin b.connections) (s : Nrf b) : Receives j s s :=
  .of_keeps (.refl _) (List.append_nil _).symm rfl

theorem rcv_restart {p : Payload} {d : Nrf24Data} (h : ¬ (d.lenRx = 0 ∧ nseq (p.get 0) = 0)) :
    (Nrf.restart p d).rcv = d.rcv := by
  rw [Nrf.restart_eq]
  simp only [if_neg h]
  rfl

/-- A data packet that carries no fragment, when it is handled at all, does not change what is received. -/
theorem rxData_rcv_of_none {r : Rx} {p : Payload} {d d' : Nrf24Data} {c : Option Nrf.Copy}
    (hlid : lid r.pdu.head = lidDataFrag ∨ lid r.pdu.head = lidDataEnd) (hf : frag? r.pdu.bytes = none)
    (h : Nrf.rxData b (p.write 0 r.pdu.bytes) r.pdu.length d = .ok (c, d')) : d'.rcv = d.rcv := by
  have h1 : r.pdu.length = 1 := by
    obtain ⟨⟨bytes, hpos, hle⟩, t, frame, o⟩ := r
    match bytes with
    | [x] => rfl
    | x :: y :: body =>
        have hx : lid x = lidDataFrag ∨ lid x = lidDataEnd := hlid
        rw [frag?, if_pos hx] at hf
        cases hf
  have hlive : ¬ LiveRunt r d := by
    intro hlive
    obtain ⟨n, hn⟩ := rxData_runt (b := b) (p := p) hlive
    rw [h] at hn
    cases hn
  have hhead := get_write_pdu p r.pdu
  unfold Nrf.rxData at h
  dsimp only at h
  split at h
  · obtain rfl := (Prod.mk.inj (Except.ok.inj h)).2
    refine rcv_restart fun h0 => hlive ⟨h1, hlid, h0.1, Or.inl ?_⟩
    rw [← hhead]; exact h0.2
  · rename_i x hx
    rw [h1] at hx
    rw [if_neg (Nrf.dataCopy_runt hx)] at h
    cases h

theorem receives_readRawStep {r : Rx} {p p' : Payload} {c : Option Nrf.Copy}
    (h : Nrf.readRawStep j r (p, s) = .ok (c, p', s')) : Receives j s s' where
  inv := readRawStep_rxInv h
  rcv := by
    obtain ⟨ops, hlog, hops⟩ := readRawStep_log h
    have hread : DriverOp.fragIn (j + 1) (.read (j + 1) r.pdu) = frag? r.pdu.bytes := if_pos rfl
    have hin : fragsIn (j + 1) s'.log = fragsIn (j + 1) s.log ++ (frag? r.pdu.bytes).toList := by
      have hquiet := fragsIn_quiet (n := j + 1) hops
      rw [hlog, fragsIn_append]
      congr 1
      unfold fragsIn at hquiet ⊢
      rw [List.filterMap_cons, hread, hquiet]
      cases frag? r.pdu.bytes <;> rfl
    refine ⟨_, hin, fun hinv hsound => ?_⟩
    have hhead := get_write_pdu p r.pdu
    obtain ⟨-, rfl, h⟩ := Nrf.readRawStep_cases h
    have hk : (s.peers j).KeepsRx ((Nrf.received j r s).peers j) := by constructor <;> simp [Nrf.received]
    rw [← hk.rcv]
    rw [hhead] at h
    cases hf : frag? r.pdu.bytes with
    | none =>
        have hsame : (s'.peers j).rcv = ((Nrf.received j r s).peers j).rcv := by
          rcases h with ⟨-, -, h⟩ | ⟨hlid, d, hrx, rfl⟩ | ⟨-, -, -, -, rfl⟩
          · exact (Nrf.rxControl_keeps h).1.rcv
          · rw [Nrf.setPeer_self]
            exact rxData_rcv_of_none hlid hf hrx
          · rfl
        rw [hsame]; rfl
    | some f =>
        have hlid : lid r.pdu.head = lidDataFrag ∨ lid r.pdu.head = lidDataEnd := by
          obtain ⟨x, rfu, hb, -, hx⟩ := frag?_eq_some hf
          rw [Pdu.head, hb]
          rcases hx with ⟨-, hx⟩ | ⟨-, hx⟩
          · exact Or.inr hx
          · exact Or.inl hx
        rcases h with ⟨hc, -, -⟩ | ⟨-, d, hrx, rfl⟩ | ⟨-, hd, he, -, -⟩
        · rcases hlid with hl | hl <;> rw [hl] at hc <;> cases hc
        · obtain ⟨c', d', hrx', hrcv⟩ := Nrf.rxData_recv (b := b) (p := p) (hinv.of_keeps hk) r.pdu.le_mtu hf
            (hsound f (by simp [hf]))
          rw [show r.pdu.bytes.length = r.pdu.length from rfl, hrx] at hrx'
          obtain ⟨rfl, rfl⟩ := Prod.mk.inj (Except.ok.inj hrx')
          rw [Nrf.setPeer_self, hrcv]
          rfl
        · exact absurd hlid (by simp [hd, he])

theorem receives_readRaw {cs : List (Option Nrf.Copy)} (h : s.readRaw e j = .ok (cs, s')) : Receives j s s' := by
  obtain ⟨-, p', h⟩ := Nrf.readRaw_eq_ok.mp h
  exact exec_keeps (I := fun q : Payload × Nrf b => Receives j s q.2)
    (fun _ _ _ _ hq h => hq.trans (receives_readRawStep h)) (.refl j s) h

theorem receives_writeRaw {n : Int} (hinv : SlotInv j (s.peers j)) (h : s.writeRaw e j = .ok (n, s')) :
    Receives j s s' := by
  have hk := (Nrf.writeRaw_keeps h).1
  rcases writeRaw_sent hinv h with rfl | ⟨-, rfl⟩
  · exact .refl j _
  · exact .of_keeps hk rfl (fragsIn_writes _ _ _ _)

theorem receives_servePipe (hinv : SlotInv j (s.peers j)) (h : s.servePipe e j = .ok s') : Receives j s s' := by
  obtain ⟨cs, s₁, n, s₂, err, s₃, hread, hwrite, hcheck, h⟩ := Nrf.servePipe_cases h
  have hclock : Receives j s₂ { s₂ with rtStamp := halTimeMs (e.clock .rtStamp) % 256 } :=
    .of_keeps (.refl _) (List.append_nil _).symm rfl
  have hk := (Nrf.checkKeepalive_keeps hcheck).1
  have hkeep : Receives j { s₂ with rtStamp := halTimeMs (e.clock .rtStamp) % 256 } s₃ := by
    rcases Nrf.checkKeepalive_cases hcheck with rfl | ⟨-, -, h⟩
    · exact .refl j _
    · obtain ⟨-, -, rfl⟩ := Nrf.writeKeepalive_eq_ok.mp h
      exact .of_keeps hk rfl rfl
  have h₃ := (receives_readRaw hread).trans
    ((receives_writeRaw (hinv.readRaw hread) hwrite).trans (hclock.trans hkeep))
  rcases h with rfl | ⟨-, -, h⟩
  · exact h₃
  · apply h₃.trans
    have hp := Nrf.freePipe_peer h
    obtain ⟨-, rfl⟩ := Nrf.freePipe_eq_ok.mp h
    exact .of_keeps (by rw [hp]; constructor <;> rfl) rfl rfl

theorem receives_running (hinv : SlotInv j (s.peers j)) (h : s.running e = .ok s') : Receives j s s' := by
  rcases Nrf.running_slot h j with ⟨-, hsame, ops, hlog, hops⟩ | ⟨-, rs, s₁, hserve, rfl⟩
  · exact .of_keeps (by rw [hsame]; exact .refl _) hlog
      (List.filterMap_eq_nil_iff.mpr fun o ho => fragIn_of_pipe (hops o ho))
  · have hs₁ := receives_servePipe (s := { s with runningState := rs }) hinv hserve
    exact ⟨hs₁.inv, hs₁.rcv⟩

end Pass

/-! ## Histories -/

/-- A call with what it met and what came out of it. -/
abbrev Entry := (Call × Env) × Out

def Entry.accepted (n : Nat) (x : Entry) : List (List UInt8) :=
  match x.1.1 with
  | .write sockfd data => if sockfd = n ∧ 0 < x.2.ret then [data] else []
  | _ => []

def Entry.delivered (n : Nat) (x : Entry) : List (List UInt8) :=
  match x.1.1 with
  | .read sockfd _ => if sockfd = n ∧ 0 < x.2.ret then [x.2.data] else []
  | _ => []

/-- What happened at the receiving end of pipe `n` in a call: fragments, then a read. -/
def Entry.events (n : Nat) (x : Entry) : List (Ev UInt8) :=
  (fragsIn n x.2.ops).map .frag ++
    match x.1.1 with
    | .read sockfd _ => if sockfd = n then [.take] else []
    | _ => []

def accepted (n : Nat) (past : List Entry) : List (List UInt8) := past.flatMap (·.accepted n)

def delivered (n : Nat) (past : List Entry) : List (List UInt8) := past.flatMap (·.delivered n)

def events (n : Nat) (past : List Entry) : List (Ev UInt8) := past.flatMap (·.events n)

/-- The fragments sent on pipe `n`, one group for each `write_raw` that sent any. -/
def groups (n : Nat) (past : List Entry) : List (List (Frag UInt8 × Outcome)) :=
  (past.map fun x => fragsOut n x.2.ops).filter (· ≠ [])

/-- The call does not give slot `j` to another connection: the slot is in use, or nothing is allocated. -/
def Keeps (j : Fin b.connections) (ce : Call × Env) (s : Nrf b) : Prop :=
  ce.1 ≠ .deinit ∧ ((s.peers j).pipe ≠ -1 ∨ ce.1 ≠ .accept ∧ ∀ domain protocol, ce.1 ≠ .socket domain protocol)

/-- Reads of pipe `n` have room for every message. -/
def FullReads (n : Nat) (ce : Call × Env) : Prop := ∀ count, ce.1 = .read n count → dataSize ≤ count

section Sender
variable {s s' : Nrf b} {j : Fin b.connections}

/-- A message as `write_raw` tried to send it. -/
def Transmission (msg : List UInt8) (l : List (Frag UInt8 × Outcome)) : Prop :=
  ∃ out, l = attempts out 0 (frags pwMsgSize msg)

theorem Transmission.ne_nil {msg : List UInt8} {l : List (Frag UInt8 × Outcome)} (h : Transmission msg l) : l ≠ [] := by
  obtain ⟨out, rfl⟩ := h
  obtain ⟨f, fs, hfs, -⟩ := frags_eq_cons pwMsgSize msg
  rw [hfs]
  exact List.cons_ne_nil _ _

/-- What a call does to the message that waits in slot `j`, after the pass has or has not sent it. -/
theorem change_pending {c : Call} {r : Ret} (ops : List DriverOp) (e : Env) {d₀ d d' : Nrf24Data}
    (hkeep : c ≠ .deinit ∧ (d₀.pipe ≠ -1 ∨ c ≠ .accept ∧ ∀ domain protocol, c ≠ .socket domain protocol))
    (h : Change j c r d₀ d d') :
    (Entry.accepted (j + 1) ((c, e), ⟨r, ops⟩) = [] ∧ d'.pending = d.pending) ∨
      ∃ data, Entry.accepted (j + 1) ((c, e), ⟨r, ops⟩) = [data] ∧ 0 < data.length ∧ data.length ≤ dataSize ∧
        d.pending = none ∧ d'.pending = some data := by
  have hnone : (∀ sockfd data, c ≠ .write sockfd data) → Entry.accepted (j + 1) ((c, e), ⟨r, ops⟩) = [] := by
    intro hw
    cases c <;> first | rfl | exact absurd rfl (hw _ _)
  cases h with
  | same eq read write =>
      refine Or.inl ⟨?_, by rw [eq]⟩
      cases c with
      | write sockfd data =>
          apply if_neg
          intro hacc
          have hret := write data (by rw [hacc.1]; rfl)
          have hpos : 0 < r.ret := hacc.2
          omega
      | _ => rfl
  | taken count call pos waits ret eq => exact Or.inl ⟨hnone (by rw [call]; simp), by rw [eq]; rfl⟩
  | queued data call pos le idle ret eq =>
      refine Or.inr ⟨data, ?_, pos, le, by simp [Nrf24Data.pending, idle], ?_⟩
      · rw [call]
        exact if_pos ⟨rfl, by show 0 < r.ret; rw [ret]; exact_mod_cast pos⟩
      · rw [eq]
        have hwrite : (d.bufferTx.write 0 data).read 0 data.length = data :=
          Buf.read_write_self _ (by simpa using le)
        simp only [Nrf24Data.pending]
        rw [if_neg (by omega), hwrite]
  | linked addr t call eq => exact Or.inl ⟨hnone (by rw [call]; simp), by rw [eq]; rfl⟩
  | freed call eq => exact Or.inl ⟨hnone (by rw [call]; simp), by rw [eq]; rfl⟩
  | fresh call free mac t eq =>
      rcases hkeep.2 with h | ⟨ha, hs⟩
      · exact absurd free h
      · rcases call with call | ⟨domain, protocol, call⟩
        · exact absurd call ha
        · exact absurd call (hs domain protocol)
  | cleared call eq => exact absurd call hkeep.1

/-- What a history and the state after it have to do with each other at the sending end of slot `j`. -/
def SentSoFar (j : Fin b.connections) (past : List Entry) (s : Nrf b) : Prop :=
  SlotInv j (s.peers j) ∧ ∃ done : List (List UInt8), accepted (j + 1) past = done ++ (s.peers j).pending.toList ∧
    List.Forall₂ Transmission done (groups (j + 1) past) ∧
    ∀ m ∈ accepted (j + 1) past, 0 < m.length ∧ m.length ≤ dataSize

theorem sentSoFar_step {past : List Entry} {ce : Call × Env} {o : Out} (hR : SentSoFar j past s) (hkeep : Keeps j ce s)
    (h : step ce s = .ok (o, s')) : SentSoFar j (past ++ [(ce, o)]) s' := by
  obtain ⟨hinv, done, hacc, htr, hlen⟩ := hR
  refine ⟨slotInv_step hinv h, ?_⟩
  obtain ⟨hperf, hops⟩ := step_eq_ok.mp h
  obtain ⟨c, e⟩ := ce
  obtain ⟨r, ops⟩ := o
  obtain ⟨s₁, hrun, hdid⟩ := perform_slot j hperf
  -- the pass
  have hpass : Holds j { s with log := [] } s₁ ∨ ∃ msg, Transmits e j msg { s with log := [] } s₁ := by
    rcases hrun with ⟨-, hrun⟩ | ⟨-, rfl⟩
    · exact running_sends (s := { s with log := [] }) hinv hrun
    · exact Or.inl ⟨rfl, rfl⟩
  have hout : fragsOut (j + 1) ops = fragsOut (j + 1) s₁.log := by
    obtain ⟨qs, hlog, hqs⟩ := hdid.log
    rw [show ops = s'.log from hops, hlog, fragsOut_append, fragsOut_quiet hqs, List.append_nil]
  obtain ⟨done₁, hacc₁, htr₁⟩ : ∃ done₁, accepted (j + 1) past = done₁ ++ (s₁.peers j).pending.toList ∧
      List.Forall₂ Transmission done₁ (groups (j + 1) (past ++ [((c, e), ⟨r, ops⟩)])) := by
    rcases hpass with hp | ⟨msg, hp⟩
    · refine ⟨done, by rw [hp.pending]; exact hacc, ?_⟩
      have hnil : fragsOut (j + 1) ops = [] := by rw [hout, hp.out]; rfl
      simpa [groups, hnil] using htr
    · have hbefore : (s.peers j).pending = some msg := hp.before
      have hnew : fragsOut (j + 1) ops = attempts (fun k => e.outcome (.frag k)) 0 (frags pwMsgSize msg) := by
        rw [hout, hp.out]; rfl
      have hmsg : Transmission msg (fragsOut (j + 1) ops) := ⟨_, hnew⟩
      refine ⟨done ++ [msg], by rw [hacc, hbefore, hp.after]; simp, ?_⟩
      have happ : groups (j + 1) (past ++ [((c, e), ⟨r, ops⟩)]) = groups (j + 1) past ++ [fragsOut (j + 1) ops] := by
        simp [groups, hmsg.ne_nil]
      rw [happ]
      exact List.rel_append htr (.cons hmsg .nil)
  -- the call itself
  have hcall := change_pending ops e hkeep hdid.change
  have happ : accepted (j + 1) (past ++ [((c, e), ⟨r, ops⟩)]) =
      accepted (j + 1) past ++ Entry.accepted (j + 1) ((c, e), ⟨r, ops⟩) := by simp [accepted]
  refine ⟨done₁, ?_, htr₁, ?_⟩
  · rcases hcall with ⟨h₁, h₂⟩ | ⟨data, h₁, -, -, h₂, h₃⟩
    · rw [happ, h₁, h₂, hacc₁, List.append_nil]
    · rw [happ, h₁, h₃, hacc₁, h₂]; simp
  · intro m hm
    rw [happ, List.mem_append] at hm
    rcases hm with hm | hm
    · exact hlen m hm
    · rcases hcall with ⟨h₁, -⟩ | ⟨data, h₁, hpos, hle, -, -⟩
      · rw [h₁] at hm; cases hm
      · rw [h₁, List.mem_singleton] at hm
        subst hm
        exact ⟨hpos, hle⟩

/-- From a state with nothing to send on the pipe, each group of fragments sent is one accepted message,
in order, and what was accepted and not yet tried waits in the slot. -/
theorem sender_run {is : List (Call × Env)} {os : List Out} (hinv : SlotInv j (s.peers j))
    (hidle : (s.peers j).lenTx = 0) (hkeep : Along (Keeps j) step is s) (h : exec step is s = .ok (os, s')) :
    SentSoFar j (is.zip os) s' := by
  have h₀ : SentSoFar j [] s :=
    ⟨hinv, [], by simp [accepted, Nrf24Data.pending, hidle], by simp [groups], by simp [accepted]⟩
  exact exec_relates (R := SentSoFar j) (fun past i s o s' hR hP h => sentSoFar_step hR hP h) h₀ hkeep h

end Sender

section Receiver
variable {s s' : Nrf b} {j : Fin b.connections}

/-- What a call does to the receiving side of slot `j` after its pass: a read takes what waits. -/
theorem change_rcv {c : Call} {r : Ret} {e : Env} {d₀ d d' : Nrf24Data} (hinv : RxInv d)
    (hkeep : c ≠ .deinit ∧ (d₀.pipe ≠ -1 ∨ c ≠ .accept ∧ ∀ domain protocol, c ≠ .socket domain protocol))
    (hfull : FullReads (j + 1) (c, e)) (h : Change j c r d₀ d d') :
    run (Entry.events (j + 1) ((c, e), ⟨r, []⟩)) d.rcv = (Entry.delivered (j + 1) ((c, e), ⟨r, []⟩), d'.rcv) := by
  have hquiet : (∀ sockfd count, c ≠ .read sockfd count) → d'.rcv = d.rcv →
      run (Entry.events (j + 1) ((c, e), ⟨r, []⟩)) d.rcv = (Entry.delivered (j + 1) ((c, e), ⟨r, []⟩), d'.rcv) := by
    intro hr hd
    rw [hd]
    cases c <;> first | rfl | exact absurd rfl (hr _ _)
  cases h with
  | same eq read write =>
      rw [eq]
      cases c with
      | read sockfd count =>
          by_cases hs : sockfd = j + 1
          · have hcount := hfull count (by rw [hs]; rfl)
            obtain ⟨hl, hret⟩ := read count (by rw [hs]) (by simp only [dataSize] at hcount; omega)
            have hret' : ¬ 0 < r.ret := by omega
            have hready : d.rcv.ready = none := by simp [Nrf24Data.rcv, hl]
            simp [Entry.events, Entry.delivered, fragsIn, hs, hret', run, hready, taken_of_ready_none hready]
          · have hs' : ¬ sockfd = ((j.val + 1 : Nat) : Int) := by simpa using hs
            simp [Entry.events, Entry.delivered, fragsIn, hs, run]
      | _ => rfl
  | taken count call pos waits ret eq =>
      have hle := hinv.len
      have hcount := hfull count (by rw [call]; rfl)
      have hret : 0 < r.ret ∧ r.data = d.bufferRx.read 0 d.lenRx := by
        rw [ret, Nat.min_eq_left (by omega)]
        exact ⟨by simpa using Nat.pos_of_ne_zero waits, rfl⟩
      rw [call, eq]
      simp [Entry.events, Entry.delivered, fragsIn, run, hret, Nrf24Data.rcv, waits, Rcv.taken]
  | queued data call pos le idle ret eq => exact hquiet (by rw [call]; simp) (by rw [eq]; rfl)
  | linked addr t call eq => exact hquiet (by rw [call]; simp) (by rw [eq]; rfl)
  | freed call eq => exact hquiet (by rw [call]; simp) (by rw [eq]; rfl)
  | fresh call free mac t eq =>
      rcases hkeep.2 with h | ⟨ha, hs⟩
      · exact absurd free h
      · rcases call with call | ⟨domain, protocol, call⟩
        · exact absurd call ha
        · exact absurd call (hs domain protocol)
  | cleared call eq => exact absurd call hkeep.1

/-- What a history and the state after it have to do with each other at the receiving end of slot `j`, from
a receiver `r₀` on. -/
def ReceivedSoFar (j : Fin b.connections) (r₀ : Rcv UInt8) (past : List Entry) (s : Nrf b) : Prop :=
  SlotInv j (s.peers j) ∧ ((∀ f ∈ fragsOf (events (j + 1) past), Sound f) →
    run (events (j + 1) past) r₀ = (delivered (j + 1) past, (s.peers j).rcv))

theorem receivedSoFar_step {r₀ : Rcv UInt8} {past : List Entry} {ce : Call × Env} {o : Out}
    (hR : ReceivedSoFar j r₀ past s) (hkeep : Keeps j ce s) (hfull : FullReads (j + 1) ce)
    (h : step ce s = .ok (o, s')) : ReceivedSoFar j r₀ (past ++ [(ce, o)]) s' := by
  obtain ⟨hinv, hrun₀⟩ := hR
  refine ⟨slotInv_step hinv h, fun hsound => ?_⟩
  obtain ⟨hperf, hops⟩ := step_eq_ok.mp h
  obtain ⟨c, e⟩ := ce
  obtain ⟨r, ops⟩ := o
  obtain ⟨s₁, hrun, hdid⟩ := perform_slot j hperf
  have hpass : Receives j { s with log := [] } s₁ := by
    rcases hrun with ⟨-, hrun⟩ | ⟨-, rfl⟩
    · exact receives_running (s := { s with log := [] }) hinv hrun
    · exact .refl j _
  obtain ⟨fs, hfs, hrcv⟩ := hpass.rcv
  have hin : fragsIn (j + 1) ops = fs := by
    obtain ⟨qs, hlog, hqs⟩ := hdid.log
    rw [show ops = s'.log from hops, hlog, fragsIn_append, fragsIn_quiet hqs, List.append_nil, hfs]
    rfl
  have hevents : events (j + 1) (past ++ [((c, e), ⟨r, ops⟩)]) =
      events (j + 1) past ++ (fs.map .frag ++ Entry.events (j + 1) ((c, e), ⟨r, []⟩)) := by
    simp only [events, List.flatMap_append, List.flatMap_cons, List.flatMap_nil, List.append_nil, Entry.events, hin]
    rfl
  have hdel : delivered (j + 1) (past ++ [((c, e), ⟨r, ops⟩)]) =
      delivered (j + 1) past ++ Entry.delivered (j + 1) ((c, e), ⟨r, []⟩) := by
    simp only [delivered, List.flatMap_append, List.flatMap_cons, List.flatMap_nil, List.append_nil]
    rfl
  rw [hevents] at hsound ⊢
  rw [hdel]
  have hpast : ∀ f ∈ fragsOf (events (j + 1) past), Sound f := fun f hf =>
    hsound f (by rw [fragsOf_append]; exact List.mem_append_left _ hf)
  have hnew : ∀ f ∈ fs, Sound f := fun f hf => hsound f (by
    rw [fragsOf_append, fragsOf_append]
    exact List.mem_append_right _ (List.mem_append_left _ (by simpa [fragsOf] using hf)))
  have hcall := change_rcv (e := e) (hpass.inv hinv.rx) hkeep hfull hdid.change
  rw [run_append, hrun₀ hpast, run_append, hrcv hinv.rx hnew, hcall]
  rfl

/-- What comes out of a pipe in a run, and what its slot holds in the end, is what the receiver of
fragments makes of what happened at the pipe. -/
theorem receiver_run {is : List (Call × Env)} {os : List Out} (hinv : SlotInv j (s.peers j))
    (hok : Along (fun ce s => Keeps j ce s ∧ FullReads (j + 1) ce) step is s) (h : exec step is s = .ok (os, s'))
    (hsound : ∀ f ∈ fragsOf (events (j + 1) (is.zip os)), Sound f) :
    run (events (j + 1) (is.zip os)) (s.peers j).rcv = (delivered (j + 1) (is.zip os), (s'.peers j).rcv) := by
  have h₀ : ReceivedSoFar j (s.peers j).rcv [] s := ⟨hinv, fun _ => rfl⟩
  have hR := exec_relates (R := ReceivedSoFar j (s.peers j).rcv)
    (fun past i s o s' hR hP h => receivedSoFar_step hR hP.1 hP.2 h) h₀ hok h
  exact hR.2 hsound

end Receiver

end KnotHal.Nrf24
