import KnotHal.Nrf24.Schedule

/-!
# The attempts of a link

`hal_comm_connect` sets `keepalive` of its slot to 1, a packet that proves the peer alive sets it back to 1, and every
keepalive request adds one. `check_keepalive` compares one elapsed time with the timeout and with a multiple of the
interval that grows with the attempts, and the tenth part of the timeout is the interval.

* `requests` : the keepalive requests among some driver operations;
* `Revives`, `HearsAlive` : the packets that set the attempts back;
* `Beat`, `beats` : what happens to the attempts of a slot in a call, in its order;
* `AttemptsInv`, `attemptsInv_step` : the attempts, and the requests since they were last set back;
* `keepalive_attempts` : the bounds over whole runs.
-/

namespace KnotHal.Nrf24

open Machine

variable {b : Build}

/-! ## Requests -/

/-- A keepalive request on pipe `n`. -/
def DriverOp.asks (n : Nat) : DriverOp → Bool
  | write pipe data _ => pipe = n ∧ lid (data.getD 0 0) = lidControl ∧ data.getD 2 0 = opKeepaliveReq
  | setPipe _ _ | resetPipe _ | setChannel _ | setStandby | read _ _ => false

def requests (n : Nat) (ops : List DriverOp) : Nat := ops.countP (DriverOp.asks n)

theorem requests_append (n : Nat) (ops ops' : List DriverOp) :
    requests n (ops ++ ops') = requests n ops + requests n ops' := List.countP_append

theorem requests_quiet {n : Nat} {ops : List DriverOp} (h : ∀ op ∈ ops, op.asks n = false) : requests n ops = 0 := by
  apply List.countP_eq_zero.mpr
  intro op hop
  rw [h op hop]
  decide

theorem requests_snoc {n : Nat} {op : DriverOp} (ops : List DriverOp) (h : op.asks n = false) :
    requests n (ops ++ [op]) = requests n ops := by
  rw [requests_append]
  apply Nat.add_eq_left.mpr
  exact requests_quiet fun op' hop => List.mem_singleton.mp hop ▸ h

theorem asks_of_pipe {n : Nat} {op : DriverOp} (h : op.pipe? ≠ some n) : op.asks n = false := by
  cases op with
  | write pipe data o =>
      apply decide_eq_false
      intro hask
      exact h (congrArg some hask.1)
  | _ => rfl

theorem DriverOp.Outside.asks {n : Nat} {op : DriverOp} (h : op.Outside) : op.asks n = false := by
  cases op with
  | write pipe data o =>
      apply decide_eq_false
      intro hask
      rw [h.2] at hask
      exact absurd hask.2.2 (by decide)
  | _ => rfl

theorem asks_control {n pipe : Nat} (frame : Payload) (op : UInt8) (dst src : Mac) (o : Outcome) :
    (DriverOp.write pipe ((controlPdu frame op dst src).read 0 controlLen) o).asks n =
      decide (pipe = n ∧ op = opKeepaliveReq) := by
  have hlid : lid (((controlPdu frame op dst src).read 0 controlLen).getD 0 0) = lidControl := by
    rw [← Buf.get_of_read (by decide)]
    exact controlPdu_lid frame op dst src
  apply decide_eq_decide.mpr
  rw [control_opcode, hlid]
  simp

theorem asks_data {n pipe l k : Nat} {data : List UInt8} {o : Outcome} (h : l = lidDataFrag ∨ l = lidDataEnd) :
    (DriverOp.write pipe (dataHdr l k :: data) o).asks n = false := by
  apply decide_eq_false
  intro hask
  have hlid : lid (dataHdr l k) = lidControl := hask.2.1
  rw [lid_dataHdr] at hlid
  rcases h with rfl | rfl <;> revert hlid <;> decide

/-! ## The packets that count -/

/-- The packet in the stack buffer sets the attempts back: data, or a response. -/
def Revives (p : Payload) : Prop :=
  lid (p.get 0) = lidControl ∧ p.get 2 = opKeepaliveRsp ∨ lid (p.get 0) = lidDataFrag ∨ lid (p.get 0) = lidDataEnd

instance (p : Payload) : Decidable (Revives p) := inferInstanceAs (Decidable (_ ∨ _))

/-- Such a packet is among those read, one after the other, into the stack buffer. -/
def HearsAlive (p : Payload) : List Rx → Prop
  | [] => False
  | r :: rx => Revives (p.write 0 r.pdu.bytes) ∨ HearsAlive (p.write 0 r.pdu.bytes) rx

instance decidableHearsAlive (p : Payload) : (rx : List Rx) → Decidable (HearsAlive p rx)
  | [] => inferInstanceAs (Decidable False)
  | r :: rx =>
      have := decidableHearsAlive (p.write 0 r.pdu.bytes) rx
      inferInstanceAs (Decidable (_ ∨ _))

/-- Where the attempts count at all, they are set back. -/
def setBack (c : Prop) [Decidable c] (k : Nat) : Nat := if k ≠ 0 ∧ c then 1 else k

section SetBack
variable {c c' : Prop} [Decidable c] [Decidable c'] {k : Nat}

theorem setBack_congr (h : c ↔ c') : setBack c k = setBack c' k := if_congr (and_congr_right' h) rfl rfl

theorem setBack_of_not (h : ¬ c) : setBack c k = k := if_neg fun h' => h h'.2

theorem setBack_setBack : setBack c' (setBack c k) = setBack (c ∨ c') k := by
  unfold setBack
  split_ifs <;> simp_all

theorem setBack_le (hk : k ≤ 10) : setBack c k ≤ 10 := by
  unfold setBack
  split <;> omega

end SetBack

/-- Below the timeout the tenth attempt is never due: ten intervals are the timeout. -/
theorem attempts_le {time anchor k : Nat} (hk : k ≤ 10)
    (hearly : halTimeout b time anchor keepaliveTimeoutMs = false)
    (hdue : halTimeout b time anchor (k * keepaliveSendMs) = true) : k ≤ 9 := by
  by_contra hten
  obtain rfl : k = 10 := by omega
  have htimeout : 10 * keepaliveSendMs = keepaliveTimeoutMs := rfl
  rw [htimeout, hearly] at hdue
  cases hdue

namespace Nrf

section Work
variable {e : Env} {s s' : Nrf b} {i : Fin b.connections} {n : Nat}

theorem rxControl_attempts {p : Payload} {r : Rx} (h : s.rxControl i p r = .ok s') :
    (s'.peers i).keepalive = setBack (p.get 2 = opKeepaliveRsp) (s.peers i).keepalive ∧
      requests n s'.log = requests n s.log := by
  unfold rxControl at h
  dsimp only at h
  split at h
  · rename_i hreq
    obtain ⟨⟨m, s₁⟩, hwrite, h⟩ := bind_eq_ok.mp h
    cases h
    obtain ⟨-, -, rfl⟩ := writeKeepalive_eq_ok.mp hwrite
    constructor
    · unfold setBack
      rw [hreq.1, if_neg fun h => absurd h.2 (by decide)]
    · apply requests_snoc
      rw [asks_control]
      exact decide_eq_false fun h => absurd h.2 (by decide)
  · split at h
    · rename_i hrsp
      split at h
      · rename_i hk
        cases h
        refine ⟨?_, rfl⟩
        rw [setPeer_self]
        exact (if_pos ⟨hk, hrsp⟩).symm
      · rename_i hk
        cases h
        exact ⟨(if_neg fun h => hk h.1).symm, rfl⟩
    · rename_i hrsp
      have hkept : setBack (p.get 2 = opKeepaliveRsp) (s.peers i).keepalive = (s.peers i).keepalive :=
        if_neg fun h => hrsp h.2
      rw [hkept]
      split at h
      · cases h
        exact ⟨rfl, rfl⟩
      · cases h
        exact ⟨rfl, rfl⟩

theorem rxData_attempts {p : Payload} {ilen : Nat} {d d' : Nrf24Data} {c : Option Copy}
    (h : rxData b p ilen d = .ok (c, d')) : d'.keepalive = setBack True d.keepalive := by
  have hre : (restart p d).keepalive = setBack True d.keepalive := by
    have hfirst : (restart p d).keepalive = (if d.keepalive ≠ 0 then { d with keepalive := 1 } else d).keepalive := by
      unfold restart
      dsimp only
      split <;> split <;> rfl
    rw [hfirst, setBack]
    by_cases hk : d.keepalive ≠ 0
    · rw [if_pos hk, if_pos ⟨hk, trivial⟩]
    · rw [if_neg hk, if_neg fun h => hk h.1]
  obtain ⟨-, -, rfl⟩ | ⟨c₁, -, -, -, rfl⟩ := rxData_cases h
  · exact hre
  · exact (store_keepalive p c₁ _).1.trans hre

theorem readRawStep_attempts {r : Rx} {p p' : Payload} {c : Option Copy}
    (h : readRawStep i r (p, s) = .ok (c, p', s')) :
    (s'.peers i).keepalive = setBack (Revives p') (s.peers i).keepalive ∧ requests n s'.log = requests n s.log := by
  obtain ⟨-, -, h⟩ := readRawStep_cases h
  have hkept : ((received i r s).peers i).keepalive = (s.peers i).keepalive := by simp [received]
  have hlog : requests n (received i r s).log = requests n s.log := requests_snoc _ rfl
  rcases h with ⟨hctl, -, h⟩ | ⟨hdat, d, hrx, rfl⟩ | ⟨hctl, hfrag, hend, -, rfl⟩
  · obtain ⟨hk, hreq⟩ := rxControl_attempts (n := n) h
    refine ⟨?_, hreq.trans hlog⟩
    rw [hk, hkept]
    have hnot : ¬ (lid (p'.get 0) = lidDataFrag ∨ lid (p'.get 0) = lidDataEnd) := by
      rw [hctl]
      decide
    apply setBack_congr
    exact ⟨fun h => Or.inl ⟨hctl, h⟩, fun h => (h.resolve_right hnot).2⟩
  · refine ⟨?_, hlog⟩
    rw [setPeer_self, rxData_attempts hrx, hkept]
    apply setBack_congr
    exact ⟨fun _ => Or.inr hdat, fun _ => trivial⟩
  · refine ⟨?_, hlog⟩
    rw [hkept, setBack_of_not]
    rintro (h | h | h)
    · exact hctl h.1
    · exact hfrag h
    · exact hend h

theorem rounds_attempts {rx : List Rx} {p p' : Payload} {cs : List (Option Copy)}
    (h : exec (readRawStep i) rx (p, s) = .ok (cs, p', s')) :
    (s'.peers i).keepalive = setBack (HearsAlive p rx) (s.peers i).keepalive ∧
      requests n s'.log = requests n s.log := by
  induction rx generalizing p s cs with
  | nil =>
      obtain ⟨-, h⟩ := exec_nil_ok.mp h
      obtain ⟨rfl, rfl⟩ := Prod.mk.inj h
      exact ⟨(setBack_of_not id).symm, rfl⟩
  | cons r rx ih =>
      obtain ⟨c, ⟨p₁, s₁⟩, cs₁, h₁, h₂, -⟩ := exec_cons_ok.mp h
      obtain ⟨hk₁, hreq₁⟩ := readRawStep_attempts (n := n) h₁
      obtain ⟨hk₂, hreq₂⟩ := ih h₂
      obtain ⟨-, rfl, -⟩ := readRawStep_cases h₁
      refine ⟨?_, hreq₂.trans hreq₁⟩
      rw [hk₂, hk₁]
      exact setBack_setBack

theorem readRaw_attempts {cs : List (Option Copy)} (h : s.readRaw e i = .ok (cs, s')) :
    (s'.peers i).keepalive = setBack (HearsAlive (e.rxFrame.write 0 [0]) e.rx) (s.peers i).keepalive ∧
      requests n s'.log = requests n s.log := by
  obtain ⟨-, p', hrun⟩ := readRaw_eq_ok.mp h
  exact rounds_attempts hrun

theorem writeRawLoop_attempts {left k : Nat} {m : Int} (h : s.writeRawLoop e i left k = .ok (m, s')) :
    (s'.peers i).keepalive = (s.peers i).keepalive ∧ requests n s'.log = requests n s.log := by
  induction left using Nat.strongRecOn generalizing s k with
  | ind left ih =>
      rcases writeRawLoop_cases h with ⟨-, -, rfl⟩ | ⟨h0, s₁, hphy, h⟩
      · exact ⟨by simp, rfl⟩
      · obtain ⟨-, rfl⟩ := phy_eq_ok.mp hphy
        have hlog : requests n (s.log ++ [.write (i + 1) (dataHdr (if pwMsgSize < left then lidDataFrag else lidDataEnd)
            (s.peers i).seqnumberTx :: (e.frame (.frag 0)).get 1 ::
              (s.peers i).bufferTx.read ((s.peers i).lenTx - left) (min left pwMsgSize)) (e.outcome (.frag k))]) =
            requests n s.log := by
          apply requests_snoc
          apply asks_data
          split
          · exact Or.inl rfl
          · exact Or.inr rfl
        split at h
        · have hlt : left - min left pwMsgSize < left := by
            simp only [pwMsgSize, mtu, dataHdrSize]
            omega
          obtain ⟨hk, hreq⟩ := ih _ hlt h
          refine ⟨hk.trans (by simp), hreq.trans hlog⟩
        · obtain ⟨-, rfl⟩ := h
          exact ⟨by simp, hlog⟩

theorem writeRaw_attempts {m : Int} (h : s.writeRaw e i = .ok (m, s')) :
    (s'.peers i).keepalive = (s.peers i).keepalive ∧ requests n s'.log = requests n s.log := by
  rcases writeRaw_cases h with ⟨rfl, -⟩ | ⟨-, -, h⟩
  · exact ⟨rfl, rfl⟩
  · exact writeRawLoop_attempts h

/-- Nothing, or one more attempt before the timeout. -/
theorem checkKeepalive_attempts {m : Int} (hk : (s.peers i).keepalive ≤ 10) (h : s.checkKeepalive e i = .ok (m, s')) :
    (s'.peers i).keepalive = (s.peers i).keepalive ∧ requests (i + 1) s'.log = requests (i + 1) s.log ∨
      m ≠ -etimedout ∧ 1 ≤ (s.peers i).keepalive ∧ (s.peers i).keepalive ≤ 9 ∧
        (s'.peers i).keepalive = (s.peers i).keepalive + 1 ∧
        requests (i + 1) s'.log = requests (i + 1) s.log + 1 := by
  unfold checkKeepalive at h
  dsimp only at h
  split at h
  · cases h
    exact Or.inl ⟨rfl, rfl⟩
  · rename_i hearly
    split at h
    · cases h
      exact Or.inl ⟨rfl, rfl⟩
    · rename_i hpos
      split at h
      · cases h
        exact Or.inl ⟨rfl, rfl⟩
      · rename_i hdue
        obtain ⟨-, hm, rfl⟩ := writeKeepalive_eq_ok.mp h
        have hnine : (s.peers i).keepalive ≤ 9 :=
          attempts_le hk (Bool.eq_false_of_not_eq_true hearly) (by simpa using hdue)
        refine Or.inr ⟨?_, by omega, hnine, ?_, ?_⟩
        · rw [hm]
          split <;> decide
        · simp only [setPeer_self]
          omega
        · dsimp only
          rw [requests_append]
          congr 1
          simp [requests, asks_control]

end Work

end Nrf

/-! ## A pass -/

/-- What `check_keepalive` makes of `k` attempts, and how many requests it sends. -/
inductive Tries (k : Nat) : Nat → Nat → Prop
  | idle : Tries k 0 k
  | asks (pos : 1 ≤ k) (le : k ≤ 9) : Tries k 1 (k + 1)

theorem Tries.stay {k n k' : Nat} (h : Tries k n k') (hk : 1 ≤ k ∧ k ≤ 10) : 1 ≤ k' ∧ k' ≤ 10 := by
  cases h with
  | idle => exact hk
  | asks pos le => omega

section Pass
variable {e : Env} {s s' : Nrf b} {i j : Fin b.connections}

theorem servePipe_attempts (hk : (s.peers i).keepalive ≤ 10) (h : s.servePipe e i = .ok s') :
    ∃ n k, Tries (setBack (HearsAlive (e.rxFrame.write 0 [0]) e.rx) (s.peers i).keepalive) n k ∧
      requests (i + 1) s'.log = requests (i + 1) s.log + n ∧
      ((s'.peers i).keepalive = k ∨ (s'.peers i).keepalive = 0 ∧ (s'.peers i).pipe = -1) := by
  obtain ⟨cs, s₁, n, s₂, err, s₃, hread, hwrite, hcheck, h⟩ := Nrf.servePipe_cases h
  obtain ⟨hk₁, hreq₁⟩ := Nrf.readRaw_attempts (n := i + 1) hread
  obtain ⟨hk₂, hreq₂⟩ := Nrf.writeRaw_attempts (n := i + 1) hwrite
  have hten : (s₂.peers i).keepalive ≤ 10 := by
    rw [hk₂, hk₁]
    exact setBack_le hk
  have htries : ∃ m k, Tries (s₂.peers i).keepalive m k ∧ requests (i + 1) s₃.log = requests (i + 1) s₂.log + m ∧
      (s₃.peers i).keepalive = k := by
    rcases Nrf.checkKeepalive_attempts (s := { s₂ with rtStamp := halTimeMs (e.clock .rtStamp) % 256 }) hten hcheck with
      ⟨hk₃, hreq₃⟩ | ⟨-, hpos, hnine, hk₃, hreq₃⟩
    · exact ⟨0, _, .idle, hreq₃, hk₃⟩
    · exact ⟨1, _, .asks hpos hnine, hreq₃, hk₃⟩
  obtain ⟨m, k, htries, hreq₃, hk₃⟩ := htries
  rw [hk₂, hk₁] at htries
  refine ⟨m, k, htries, ?_⟩
  rw [hreq₂, hreq₁] at hreq₃
  rcases h with rfl | ⟨-, -, hfree⟩
  · exact ⟨hreq₃, Or.inl hk₃⟩
  · have hpeer := Nrf.freePipe_peer hfree
    obtain ⟨-, rfl⟩ := Nrf.freePipe_eq_ok.mp hfree
    refine ⟨(requests_snoc _ rfl).trans hreq₃, Or.inr ?_⟩
    rw [hpeer]
    exact ⟨rfl, rfl⟩

/-- In this call slot `j` is served and a packet proves its peer alive. -/
def Heard (j : Fin b.connections) (ce : Call × Env) (s : Nrf b) : Prop :=
  ce.1.runs = true ∧ s.Serves j ∧ HearsAlive (ce.2.rxFrame.write 0 [0]) ce.2.rx

instance (j : Fin b.connections) (ce : Call × Env) (s : Nrf b) : Decidable (Heard j ce s) :=
  inferInstanceAs (Decidable (_ ∧ _))

theorem heard_relog {ce : Call × Env} {ops : List DriverOp} : Heard j ce { s with log := ops } ↔ Heard j ce s :=
  ⟨fun h => ⟨h.1, ⟨h.2.1.state, h.2.1.turn, h.2.1.held⟩, h.2.2⟩,
    fun h => ⟨h.1, ⟨h.2.1.state, h.2.1.turn, h.2.1.held⟩, h.2.2⟩⟩

theorem running_attempts {c : Call} (hruns : c.runs = true) (hk : (s.peers j).keepalive ≤ 10)
    (h : s.running e = .ok s') :
    ∃ n k, Tries (setBack (Heard j (c, e) s) (s.peers j).keepalive) n k ∧
      requests (j + 1) s'.log = requests (j + 1) s.log + n ∧
      ((s'.peers j).keepalive = k ∨
        (s'.peers j).keepalive = 0 ∧ (s.peers j).pipe ≠ -1 ∧ (s'.peers j).pipe = -1) := by
  rcases Nrf.running_slot h j with ⟨hno, hsame, ops, hlog, hops⟩ | ⟨hserves, rs, s₁, hserve, rfl⟩
  · refine ⟨0, _, .idle, ?_, Or.inl ?_⟩
    · rw [hlog, requests_append, requests_quiet fun op hop => asks_of_pipe (hops op hop)]
    · rw [hsame, setBack_of_not fun h => hno h.2.1]
  · obtain ⟨n, k, htries, hreq, hend⟩ := servePipe_attempts (s := { s with runningState := rs }) hk hserve
    refine ⟨n, k, ?_, hreq, hend.imp_right fun h => ⟨h.1, hserves.held, h.2⟩⟩
    have hheard : Heard j (c, e) s ↔ HearsAlive (e.rxFrame.write 0 [0]) e.rx :=
      ⟨fun h => h.2.2, fun h => ⟨hruns, hserves, h⟩⟩
    rw [setBack_congr hheard]
    exact htries

end Pass

/-! ## A call -/

def Call.ConnectsTo (n : Nat) : Call → Prop
  | .connect sockfd _ => sockfd = n
  | .init _ _ | .deinit | .socket _ _ | .close _ | .read _ _ | .write _ _ | .listen | .accept => False

instance (n : Nat) (c : Call) : Decidable (c.ConnectsTo n) := by
  unfold Call.ConnectsTo
  split <;> infer_instance

/-- The slot was freed or allocated, or the module deinitialised. -/
def Released (j : Fin b.connections) (c : Call) (r : Ret) (s s' : Nrf b) : Prop :=
  ¬ ((s.peers j).pipe = -1 ↔ (s'.peers j).pipe = -1) ∨ c = .deinit ∧ r.ret = 0

section Perform
variable {e : Env} {s s' : Nrf b} {j : Fin b.connections} {c : Call} {r : Ret}

theorem Ends.requests {n : Nat} (h : Ends c s s') : requests n s'.log = requests n s.log := by
  cases h with
  | rests uses h =>
      obtain ⟨ops, hlog, hops⟩ := h.log
      rw [hlog, requests_append, requests_quiet fun op hop => DriverOp.Outside.asks (hops op hop), Nat.add_zero]
  | opened mac err call was eq => rw [eq]
  | closed call eq => rw [eq]
  | refused notUses eq => rw [eq]

theorem pass_attempts {s₁ : Nrf b} (hk : (s.peers j).keepalive ≤ 10)
    (hrun : c.runs = true ∧ s.running e = .ok s₁ ∨ c.runs = false ∧ s₁ = s) :
    ∃ n k, Tries (setBack (Heard j (c, e) s) (s.peers j).keepalive) n k ∧
      requests (j + 1) s₁.log = requests (j + 1) s.log + n ∧
      ((s₁.peers j).keepalive = k ∨
        (s₁.peers j).keepalive = 0 ∧ (s.peers j).pipe ≠ -1 ∧ (s₁.peers j).pipe = -1) := by
  rcases hrun with ⟨hruns, hrun⟩ | ⟨hidle, rfl⟩
  · exact running_attempts hruns hk hrun
  · refine ⟨0, _, .idle, rfl, Or.inl (setBack_of_not fun h => ?_).symm⟩
    rw [h.1] at hidle
    cases hidle

theorem connect_attempts {addr : Mac} (h : s.halCommConnect e (j + 1) addr = .ok (r, s')) :
    (s'.peers j).keepalive = 1 ∧ r.ret = 0 ∨ r.ret ≠ 0 ∧ s.running e = .ok s' := by
  obtain ⟨s₁, hrun, ⟨-, hr, rfl⟩ | ⟨-, i, hi, hr, rfl⟩⟩ := Nrf.halCommConnect_cases h
  · refine Or.inr ⟨?_, hrun⟩
    rw [hr]
    decide
  · obtain rfl : j = i := Fin.ext (by omega)
    refine Or.inl ⟨?_, by rw [hr]⟩
    simp [Nrf.setPeer]

/-- After its pass a call that does not connect the slot keeps the attempts, or it releases the slot. -/
theorem change_attempts {s₁ : Nrf b} (h : c.perform e s = .ok (r, s'))
    (hrun : c.runs = true ∧ s.running e = .ok s₁ ∨ c.runs = false ∧ s₁ = s)
    (hchange : Change j c r (s.peers j) (s₁.peers j) (s'.peers j)) (hconn : ¬ (c.ConnectsTo (j + 1) ∧ r.ret = 0)) :
    (s'.peers j).keepalive = (s₁.peers j).keepalive ∧ (s'.peers j).pipe = (s₁.peers j).pipe ∨
      (s'.peers j).keepalive = 0 ∧ Released j c r s s' := by
  cases hchange with
  | same eq read write =>
      rw [eq]
      exact Or.inl ⟨rfl, rfl⟩
  | taken count call pos waits ret eq =>
      rw [eq]
      exact Or.inl ⟨rfl, rfl⟩
  | queued data call pos le idle ret eq =>
      rw [eq]
      exact Or.inl ⟨rfl, rfl⟩
  | linked addr t call eq =>
      subst call
      rcases connect_attempts h with ⟨-, hr⟩ | ⟨-, hrun'⟩
      · exact absurd ⟨rfl, hr⟩ hconn
      · obtain rfl : s₁ = s' := pass_unique hrun (Or.inl ⟨rfl, hrun'⟩)
        exact Or.inl ⟨rfl, rfl⟩
  | freed call eq =>
      subst call
      obtain rfl : s₁ = s := pass_unique hrun (Or.inr ⟨rfl, rfl⟩)
      rcases Nrf.halCommClose_cases h with ⟨-, rfl | ⟨i, hi, hheld, -⟩⟩
      · exact Or.inl ⟨rfl, rfl⟩
      · obtain rfl : j = i := Fin.ext (by omega)
        rw [eq]
        refine Or.inr ⟨rfl, Or.inl fun hiff => hheld (hiff.mpr ?_)⟩
        rw [eq]
  | fresh call free mac t eq =>
      rw [eq]
      refine Or.inr ⟨rfl, Or.inl fun hiff => ?_⟩
      have hnew := hiff.mp free
      rw [eq] at hnew
      dsimp only at hnew
      omega
  | cleared call eq =>
      subst call
      change s.halCommDeinit = .ok (r, s') at h
      obtain rfl : s₁ = s := pass_unique hrun (Or.inr ⟨rfl, rfl⟩)
      unfold Nrf.halCommDeinit at h
      split at h
      · cases h
        exact Or.inl ⟨rfl, rfl⟩
      · split at h
        · cases h
          exact Or.inl ⟨rfl, rfl⟩
        · cases h
          exact Or.inr ⟨rfl, Or.inr ⟨rfl, rfl⟩⟩

/-- After its pass a call leaves the attempts alone, or sets them to 1 or to 0. -/
theorem perform_attempts (hk : (s.peers j).keepalive ≤ 10) (h : c.perform e s = .ok (r, s')) :
    ∃ n k, Tries (setBack (Heard j (c, e) s) (s.peers j).keepalive) n k ∧
      requests (j + 1) s'.log = requests (j + 1) s.log + n ∧
      if c.ConnectsTo (j + 1) ∧ r.ret = 0 then (s'.peers j).keepalive = 1
      else (s'.peers j).keepalive = k ∨ (s'.peers j).keepalive = 0 ∧ Released j c r s s' := by
  obtain ⟨s₁, hrun, hdid⟩ := perform_slot j h
  obtain ⟨n, k, htries, hreq, hpass⟩ := pass_attempts hk hrun
  refine ⟨n, k, htries, ?_, ?_⟩
  · obtain ⟨s₂, hrun₂, hend⟩ := perform_ends h
    rw [hend.requests, pass_unique hrun₂ hrun, hreq]
  · split
    · rename_i hconn
      cases c with
      | connect sockfd addr =>
          obtain rfl : sockfd = (j : Int) + 1 := hconn.1
          rcases connect_attempts h with ⟨hone, -⟩ | ⟨hne, -⟩
          · exact hone
          · exact absurd hconn.2 hne
      | init | deinit | socket | close | read | write | listen | accept => exact hconn.1.elim
    · rename_i hconn
      rcases change_attempts h hrun hdid.change hconn with ⟨hkept, hpipe⟩ | hreleased
      · rw [hkept]
        refine hpass.imp_right fun hfreed => ⟨hfreed.1, Or.inl fun hiff => hfreed.2.1 (hiff.mpr ?_)⟩
        rw [hpipe]
        exact hfreed.2.2
      · exact Or.inr hreleased

end Perform

/-! ## Between two resets -/

inductive Beat
  | reset
  | request
deriving DecidableEq

def since (bs : List Beat) : Nat := bs.foldl (fun n beat => if beat = .reset then 0 else n + 1) 0

section Beats
variable {bs seg : List Beat} {n k : Nat}

theorem since_reset (bs : List Beat) : since (bs ++ [.reset]) = 0 := by
  unfold since
  rw [List.foldl_append]
  rfl

theorem since_request (bs : List Beat) : since (bs ++ [.request]) = since bs + 1 := by
  unfold since
  rw [List.foldl_append]
  rfl

theorem since_append (bs : List Beat) (hno : Beat.reset ∉ seg) : since (bs ++ seg) = since bs + seg.count .request := by
  induction seg using List.reverseRecOn with
  | nil => simp
  | append_singleton seg beat ih =>
      have hseg : Beat.reset ∉ seg := fun h => hno (List.mem_append_left _ h)
      rw [← List.append_assoc]
      cases beat with
      | reset => exact absurd (List.mem_append_right _ (List.mem_singleton_self _)) hno
      | request =>
          rw [since_request, ih hseg, List.count_append, List.count_singleton_self]
          omega

/-- Where no prefix has more than `n` requests since its last reset, no part without a reset has. -/
theorem count_le_of_since (h : ∀ p, p <+: bs → since p ≤ n) (hseg : seg <:+: bs) (hno : Beat.reset ∉ seg) :
    seg.count .request ≤ n := by
  obtain ⟨before, after, rfl⟩ := hseg
  have hle := h (before ++ seg) (List.prefix_append _ _)
  rw [since_append before hno] at hle
  omega

structure AttemptsInv (bs : List Beat) (k : Nat) : Prop where
  since : ∀ p, p <+: bs → since p ≤ 9
  le : k ≤ 10
  counted : k ≠ 0 → KnotHal.Nrf24.since bs < k

theorem AttemptsInv.reset (h : AttemptsInv bs k) : AttemptsInv (bs ++ [.reset]) 1 where
  since := fun p hp => by
    rcases List.prefix_concat_iff.mp hp with rfl | hp
    · rw [since_reset]
      exact Nat.zero_le 9
    · exact h.since p hp
  le := by decide
  counted := fun _ => by
    rw [since_reset]
    exact Nat.one_pos

theorem AttemptsInv.request (h : AttemptsInv bs k) (hpos : 1 ≤ k) (hle : k ≤ 9) :
    AttemptsInv (bs ++ [.request]) (k + 1) := by
  have hlt := h.counted (by omega)
  refine ⟨fun p hp => ?_, by omega, fun _ => ?_⟩
  · rcases List.prefix_concat_iff.mp hp with rfl | hp
    · rw [since_request]
      omega
    · exact h.since p hp
  · rw [since_request]
    omega

theorem AttemptsInv.none (h : AttemptsInv bs k) : AttemptsInv bs 0 :=
  ⟨h.since, Nat.zero_le 10, fun h0 => absurd rfl h0⟩

theorem AttemptsInv.tries {k' : Nat} (h : AttemptsInv bs k) (htries : Tries k n k') :
    AttemptsInv (bs ++ List.replicate n .request) k' := by
  cases htries with
  | idle =>
      rw [List.replicate_zero, List.append_nil]
      exact h
  | asks pos le => exact h.request pos le

end Beats

/-- What happens to the attempts of slot `j` in a call: its packets are read, a request may be sent, and a connect
request for it may be queued. -/
def beats (j : Fin b.connections) (ce : Call × Env) (s : Nrf b) (o : Out) : List Beat :=
  (if (s.peers j).keepalive ≠ 0 ∧ Heard j ce s then [.reset] else []) ++
    List.replicate (requests (j + 1) o.ops) .request ++
    if ce.1.ConnectsTo (j + 1) ∧ o.ret = 0 then [.reset] else []

def noteBeats (j : Fin b.connections) (bs : List Beat) (ce : Call × Env) (s : Nrf b) (o : Out) : List Beat :=
  bs ++ beats j ce s o

/-- The call neither frees nor allocates slot `j`, nor deinitialises the module. -/
def KeepsSlot (j : Fin b.connections) (ce : Call × Env) (s : Nrf b) : Prop :=
  ∀ o s', step ce s = .ok (o, s') → ¬ Released j ce.1 o.toRet s s'

section Steps
variable {s s' : Nrf b} {j : Fin b.connections} {ce : Call × Env} {o : Out}

theorem step_attempts (hk : (s.peers j).keepalive ≤ 10) (h : step ce s = .ok (o, s')) :
    ∃ k, Tries (setBack (Heard j ce s) (s.peers j).keepalive) (requests (j + 1) o.ops) k ∧
      if ce.1.ConnectsTo (j + 1) ∧ o.ret = 0 then (s'.peers j).keepalive = 1
      else (s'.peers j).keepalive = k ∨ (s'.peers j).keepalive = 0 ∧ Released j ce.1 o.toRet s s' := by
  obtain ⟨hperf, hops⟩ := step_eq_ok.mp h
  obtain ⟨n, k, htries, hreq, hend⟩ := perform_attempts (s := { s with log := [] }) hk hperf
  have hcount : requests (j + 1) o.ops = n := by
    rw [hops, hreq]
    exact Nat.zero_add n
  have hrelog : Heard j ce { s with log := [] } ↔ Heard j ce s := heard_relog
  rw [hcount, ← setBack_congr hrelog]
  exact ⟨k, htries, hend⟩

theorem attemptsInv_step {bs : List Beat} (hs : AttemptsInv bs (s.peers j).keepalive) (h : step ce s = .ok (o, s')) :
    AttemptsInv (noteBeats j bs ce s o) (s'.peers j).keepalive := by
  obtain ⟨k, htries, hend⟩ := step_attempts hs.le h
  have hback : AttemptsInv (bs ++ if (s.peers j).keepalive ≠ 0 ∧ Heard j ce s then [.reset] else [])
      (setBack (Heard j ce s) (s.peers j).keepalive) := by
    unfold setBack
    split
    · exact hs.reset
    · rw [List.append_nil]
      exact hs
  have hchecked := hback.tries htries
  unfold noteBeats beats
  rw [← List.append_assoc, ← List.append_assoc]
  by_cases hconn : ce.1.ConnectsTo (j + 1) ∧ o.ret = 0
  · rw [if_pos hconn] at hend
    rw [if_pos hconn, hend]
    exact hchecked.reset
  · rw [if_neg hconn] at hend
    rw [if_neg hconn, List.append_nil]
    rcases hend with hend | ⟨hend, -⟩
    · rw [hend]
      exact hchecked
    · rw [hend]
      exact hchecked.none

/-- While the slot is kept, attempts that count go on counting. -/
theorem attempts_stay (hs : 1 ≤ (s.peers j).keepalive ∧ (s.peers j).keepalive ≤ 10) (hkeeps : KeepsSlot j ce s)
    (h : step ce s = .ok (o, s')) : 1 ≤ (s'.peers j).keepalive ∧ (s'.peers j).keepalive ≤ 10 := by
  obtain ⟨k, htries, hend⟩ := step_attempts hs.2 h
  split at hend
  · omega
  · rcases hend with hend | ⟨-, hreleased⟩
    · rw [hend]
      have hback : 1 ≤ setBack (Heard j ce s) (s.peers j).keepalive := by
        unfold setBack
        split <;> omega
      have hten := setBack_le (c := Heard j ce s) hs.2
      exact htries.stay ⟨hback, hten⟩
    · exact absurd hreleased (hkeeps o s' h)

end Steps

/-- In every run and for every slot the attempts are at most 10; once a connect request has set them to 1 they stay
between 1 and 10 while the slot is kept; and between two resets at most nine keepalive requests are sent. -/
theorem keepalive_attempts {is : List (Call × Env)} {os : List Out} {s : Nrf b}
    (h : exec step is (Nrf.boot b) = .ok (os, s)) (j : Fin b.connections) :
    (s.peers j).keepalive ≤ 10 ∧
    (∀ addr e o t, step (.connect (j + 1) addr, e) s = .ok (o, t) → o.ret = 0 →
      ∀ js os' u, Along (KeepsSlot j) step js t → exec step js t = .ok (os', u) →
        1 ≤ (u.peers j).keepalive ∧ (u.peers j).keepalive ≤ 10) ∧
    ∃ bs, exec (watched (noteBeats j) step) is ([], Nrf.boot b) = .ok (os, bs, s) ∧
      ∀ seg, seg <:+: bs → Beat.reset ∉ seg → seg.count .request ≤ 9 := by
  obtain ⟨bs, hrun⟩ : ∃ bs, exec (watched (noteBeats j) step) is ([], Nrf.boot b) = .ok (os, bs, s) := exec_watched h []
  have hboot : AttemptsInv [] ((Nrf.boot b).peers j).keepalive :=
    ⟨fun p hp => by rw [List.prefix_nil.mp hp]; exact Nat.zero_le 9, Nat.zero_le 10, fun h => absurd rfl h⟩
  have hinv : AttemptsInv bs (s.peers j).keepalive := by
    refine exec_keeps (I := fun q : List Beat × Nrf b => AttemptsInv q.1 (q.2.peers j).keepalive) ?_ hboot hrun
    rintro ce ⟨bs, t⟩ o ⟨bs', t'⟩ hs hwatched
    obtain ⟨hstep, rfl⟩ := watched_eq_ok.mp hwatched
    exact attemptsInv_step hs hstep
  refine ⟨hinv.le, fun addr e o t hconn hret js os' u hkeeps hjs => ?_, bs, hrun, fun seg hseg hno => ?_⟩
  · obtain ⟨k, -, hone⟩ := step_attempts hinv.le hconn
    rw [if_pos ⟨rfl, hret⟩] at hone
    refine exec_invariant (I := fun t : Nrf b => 1 ≤ (t.peers j).keepalive ∧ (t.peers j).keepalive ≤ 10)
      (fun _ _ _ _ hs hk hstep => attempts_stay hs hk hstep) ?_ hkeeps hjs
    omega
  · exact count_le_of_since hinv.since hseg hno

/-- A link is asked for, and 800 ms later nothing was heard. -/
def silentLink : List (Call × Env) := opening ++ [(.connect 1 gatewayMac, .still 100), (.read 1 128, .still 900)]

/-- The first request is the second attempt. -/
theorem keepalive_attempts_silent :
    ∃ os s, exec step silentLink (Nrf.boot .avr) = .ok (os, s) ∧ (s.peers 0).keepalive = 2 ∧
      (s.peers 0).keepalive ≤ 10 ∧
      ∃ bs, exec (watched (noteBeats 0) step) silentLink ([], Nrf.boot .avr) = .ok (os, bs, s) ∧
        ∀ seg, seg <:+: bs → Beat.reset ∉ seg → seg.count .request ≤ 9 := by
  have hrun : exec step silentLink (Nrf.boot .avr) = .ok (_, _) := rfl
  obtain ⟨hten, -, hbeats⟩ := keepalive_attempts hrun 0
  exact ⟨_, _, hrun, rfl, hten, hbeats⟩

end KnotHal.Nrf24
