import KnotHal.Nrf24.Step

/-!
# What a pass makes of a timeout and of a queued packet

Whether a pass frees a given slot, and whether it gets the packet in `mgmt.buffer_tx` away, told from the
state before the pass and from what the outside does.

* `running_flushes` : after a pass nothing is queued exactly when nothing was, or it was sent;
* `readRaw_anchor`, `readRaw_quiet` : what `read_raw` does to the anchor and to the event buffer;
* `running_frees` : a slot is freed exactly when it expires.
-/

namespace KnotHal.Nrf24

open Machine

variable {b : Build}

/-- A disconnect packet is among those that arrive; `p` is the stack buffer. -/
def HearsDisconnect : Payload → List Rx → Prop
  | _, [] => False
  | p, r :: rs =>
    (lid ((p.write 0 r.pdu.bytes).get 0) = lidControl ∧ (p.write 0 r.pdu.bytes).get 2 = opDisconnect) ∨
      HearsDisconnect (p.write 0 r.pdu.bytes) rs

/-- The time of the last packet, or the anchor where none arrives. -/
def lastHeard (anchor : Nat) (rx : List Rx) : Nat := rx.foldl (fun _ r => halTimeMs r.time) anchor

namespace Nrf

/-- In this pass nothing is queued for pipe 0, or `write_mgmt` sends it. -/
def Flushes (e : Env) (s : Nrf b) : Prop :=
  s.mgmt.lenTx = 0 ∨ s.runningState = .mgmt ∧ (e.outcome .mgmt).ok = true

/-- In this pass it is the turn of slot `j`, nothing was heard from it for too long, and no event waits. -/
structure Expires (e : Env) (j : Fin b.connections) (s : Nrf b) : Prop where
  state : s.runningState = .raw
  turn : s.sockIndex = j
  unread : s.mgmt.lenRx = 0
  quiet : ¬ HearsDisconnect (e.rxFrame.write 0 [0]) e.rx
  timeout : halTimeout b (halTimeMs (e.clock .keepalive)) (lastHeard (s.peers j).keepaliveAnchor e.rx)
    keepaliveTimeoutMs = true

variable {e : Env} {s s' : Nrf b} {i j : Fin b.connections}

theorem expires_relog {ops : List DriverOp} : Expires e j { s with log := ops } ↔ s.Expires e j :=
  ⟨fun h => ⟨h.state, h.turn, h.unread, h.quiet, h.timeout⟩, fun h => ⟨h.state, h.turn, h.unread, h.quiet, h.timeout⟩⟩

/-! ## The queued packet -/

theorem running_flushes (h : s.running e = .ok s') : s'.mgmt.lenTx = 0 ↔ s.Flushes e := by
  have hother : s'.mgmt.lenTx = s.mgmt.lenTx → s.runningState ≠ .mgmt →
      (s'.mgmt.lenTx = 0 ↔ s.Flushes e) := fun hl hs => by
    rw [hl, Flushes]
    exact ⟨Or.inl, fun h => h.resolve_right fun h => hs h.1⟩
  rcases running_cases h with ⟨ch, rs, htune, rfl⟩ | ⟨hstate, h⟩ | ⟨hstate, h⟩
  · exact hother rfl htune.ne_mgmt
  · obtain ⟨n, s₁, m, s₂, s₃, rs, hread, hwrite, -, hm₃, rfl⟩ := mgmtPass_cases h
    have htx := (readMgmt_tx hread).2
    dsimp only
    rw [hm₃, Flushes, hstate, ← htx]
    rcases writeMgmt_cases hwrite with ⟨h0, rfl⟩ | ⟨h0, -, rfl⟩
    · exact ⟨Or.inl, fun _ => h0⟩
    · dsimp only
      split
      · rename_i hok
        exact ⟨fun _ => Or.inr ⟨rfl, hok⟩, fun _ => rfl⟩
      · rename_i hok
        exact ⟨Or.inl, fun h => h.resolve_right fun h => hok h.2⟩
  · obtain ⟨rs, -, ⟨-, rfl⟩ | ⟨-, s₁, hserve, rfl⟩⟩ := rawPass_cases h
    · exact hother rfl (by rw [hstate]; simp)
    · exact hother (Frame.servePipe hserve).mgmtLenTx (by rw [hstate]; simp)

/-! ## The timeout -/

theorem rxData_anchor {p : Payload} {ilen : Nat} {d d' : Nrf24Data} {c : Option Copy}
    (h : rxData b p ilen d = .ok (c, d')) : d'.keepaliveAnchor = d.keepaliveAnchor := by
  have hre : (restart p d).keepaliveAnchor = d.keepaliveAnchor := by
    unfold restart
    dsimp only
    split <;> split <;> rfl
  obtain ⟨-, -, rfl⟩ | ⟨c₁, -, -, -, rfl⟩ := rxData_cases h
  · exact hre
  · exact (store_keepalive p c₁ _).2.trans hre

theorem rxControl_disconnect {p : Payload} {r : Rx} (hop : p.get 2 = opDisconnect) (h0 : s.mgmt.lenRx = 0) :
    s.rxControl i p r = .ok (s.queueDisconnected (p.sub 3 8)) := by
  unfold rxControl
  dsimp only
  rw [hop, if_neg fun h => absurd h.1 (by decide), if_neg (by decide), if_pos ⟨rfl, h0⟩]
  rfl

theorem readRawStep_anchor {r : Rx} {p p' : Payload} {c : Option Copy}
    (h : readRawStep i r (p, s) = .ok (c, p', s')) : (s'.peers i).keepaliveAnchor = halTimeMs r.time := by
  obtain ⟨-, -, h⟩ := readRawStep_cases h
  have h₁ : ((received i r s).peers i).keepaliveAnchor = halTimeMs r.time := by simp [received]
  rcases h with ⟨-, -, h⟩ | ⟨-, d, hrx, rfl⟩ | ⟨-, -, -, -, rfl⟩
  · rw [← h₁]
    rcases rxControl_cases h with ⟨-, -, -, n, h⟩ | rfl | ⟨-, -, rfl⟩ | rfl
    · obtain ⟨-, -, rfl⟩ := writeKeepalive_eq_ok.mp h
      rfl
    · rw [setPeer_self]
    · rfl
    · rfl
  · rw [setPeer_self, ← h₁]
    exact rxData_anchor hrx
  · exact h₁

theorem readRaw_anchor {cs : List (Option Copy)} (h : s.readRaw e i = .ok (cs, s')) :
    (s'.peers i).keepaliveAnchor = lastHeard (s.peers i).keepaliveAnchor e.rx := by
  obtain ⟨-, p', hrun⟩ := readRaw_eq_ok.mp h
  clear h
  generalize e.rxFrame.write 0 [0] = p at hrun
  generalize e.rx = rx at hrun ⊢
  induction rx generalizing p s cs with
  | nil =>
      obtain ⟨-, hrun⟩ := exec_nil_ok.mp hrun
      obtain ⟨rfl, rfl⟩ := Prod.mk.inj hrun
      rfl
  | cons r rx ih =>
      obtain ⟨c, ⟨p₁, s₁⟩, cs₁, h₁, h₂, -⟩ := exec_cons_ok.mp hrun
      rw [ih _ h₂, readRawStep_anchor h₁]
      rfl

/-- A packet leaves the event buffer empty exactly when it was and the packet is no disconnect. -/
theorem readRawStep_quiet {r : Rx} {p p' : Payload} {c : Option Copy} (h : readRawStep i r (p, s) = .ok (c, p', s')) :
    s'.mgmt.lenRx = 0 ↔ s.mgmt.lenRx = 0 ∧ ¬ (lid (p'.get 0) = lidControl ∧ p'.get 2 = opDisconnect) := by
  by_cases h0 : s.mgmt.lenRx = 0
  · obtain ⟨-, rfl, hcase⟩ := readRawStep_cases h
    rcases hcase with ⟨hctl, -, hc⟩ | ⟨hdat, -, d, -, rfl⟩ | ⟨hno, -, -, -, rfl⟩
    · by_cases hop : (p.write 0 r.pdu.bytes).get 2 = opDisconnect
      · rw [rxControl_disconnect (s := received i r s) hop h0] at hc
        obtain rfl := Except.ok.inj hc
        exact ⟨fun h => absurd h (show disconnectedLen ≠ 0 by decide), fun h => absurd ⟨hctl, hop⟩ h.2⟩
      · have hkept : s'.mgmt.lenRx = 0 := by
          rcases rxControl_cases hc with ⟨-, -, -, n, hk⟩ | rfl | ⟨hdis, -, -⟩ | rfl
          · obtain ⟨-, -, rfl⟩ := writeKeepalive_eq_ok.mp hk
            exact h0
          · exact h0
          · exact absurd hdis hop
          · exact h0
        exact ⟨fun _ => ⟨h0, fun h => hop h.2⟩, fun _ => hkept⟩
    · refine ⟨fun _ => ⟨h0, fun h => ?_⟩, fun _ => h0⟩
      rw [h.1] at hdat
      revert hdat
      decide
    · exact ⟨fun _ => ⟨h0, fun h => hno h.1⟩, fun _ => h0⟩
  · rw [(Frame.readRawStep h).unread h0]
    exact ⟨fun h => absurd h h0, fun h => absurd h.1 h0⟩

/-- No event waits after some packets exactly when none did before and no disconnect was heard. -/
theorem rounds_quiet {rx : List Rx} {p p' : Payload} {cs : List (Option Copy)}
    (h : exec (readRawStep i) rx (p, s) = .ok (cs, p', s')) :
    s'.mgmt.lenRx = 0 ↔ s.mgmt.lenRx = 0 ∧ ¬ HearsDisconnect p rx := by
  induction rx generalizing p s cs with
  | nil =>
      obtain ⟨-, h⟩ := exec_nil_ok.mp h
      obtain ⟨rfl, rfl⟩ := Prod.mk.inj h
      exact ⟨fun h => ⟨h, id⟩, And.left⟩
  | cons r rx ih =>
      obtain ⟨c, ⟨p₁, s₁⟩, cs₁, h₁, h₂, -⟩ := exec_cons_ok.mp h
      have hstep := readRawStep_quiet h₁
      obtain ⟨-, rfl, -⟩ := readRawStep_cases h₁
      rw [ih h₂, hstep, HearsDisconnect, not_or]
      exact and_assoc

theorem readRaw_quiet {cs : List (Option Copy)} (h : s.readRaw e i = .ok (cs, s')) :
    s'.mgmt.lenRx = 0 ↔ s.mgmt.lenRx = 0 ∧ ¬ HearsDisconnect (e.rxFrame.write 0 [0]) e.rx := by
  obtain ⟨-, p', hrun⟩ := readRaw_eq_ok.mp h
  exact rounds_quiet hrun

theorem checkKeepalive_timeout {n : Int} (h : s.checkKeepalive e i = .ok (n, s')) :
    n = -etimedout ↔
      halTimeout b (halTimeMs (e.clock .keepalive)) (s.peers i).keepaliveAnchor keepaliveTimeoutMs = true := by
  have herr : (0 : Int) ≠ -etimedout := by decide
  unfold checkKeepalive at h
  dsimp only at h
  split at h
  · rename_i htime
    exact ⟨fun _ => htime, fun _ => (Prod.mk.inj (Except.ok.inj h)).1.symm⟩
  · rename_i htime
    have hn : n ≠ -etimedout := by
      intro hn
      split at h
      · exact herr ((Prod.mk.inj (Except.ok.inj h)).1.trans hn)
      · split at h
        · exact herr ((Prod.mk.inj (Except.ok.inj h)).1.trans hn)
        · have := (writeKeepalive_eq_ok.mp h).2.1
          rw [hn] at this
          split at this <;> exact absurd this (by decide)
    exact ⟨fun h => absurd h hn, fun h => absurd h htime⟩

theorem writeRaw_anchor {n : Int} (h : s.writeRaw e i = .ok (n, s')) :
    (s'.peers i).keepaliveAnchor = (s.peers i).keepaliveAnchor := by
  refine writeRaw_rule (I := fun t => (t.peers i).keepaliveAnchor = (s.peers i).keepaliveAnchor)
    (fun t t' _ _ ht hphy => ?_) (fun t _ _ ht => ?_) rfl h
  · rw [phy_peers hphy]
    exact ht
  · rw [setPeer_self]
    exact ht

/-- The slot that is served is freed exactly when nothing was heard for too long and no event waits. -/
theorem servePipe_frees (h : s.servePipe e i = .ok s') (hpipe : (s.peers i).pipe ≠ -1) :
    (s'.peers i).pipe = -1 ↔ s.mgmt.lenRx = 0 ∧ ¬ HearsDisconnect (e.rxFrame.write 0 [0]) e.rx ∧
      halTimeout b (halTimeMs (e.clock .keepalive)) (lastHeard (s.peers i).keepaliveAnchor e.rx)
        keepaliveTimeoutMs = true := by
  unfold servePipe at h
  obtain ⟨⟨cs, s₁⟩, hread, hr₁⟩ := bind_eq_ok.mp h
  obtain ⟨⟨n, s₂⟩, hwrite, hr₂⟩ := bind_eq_ok.mp hr₁
  obtain ⟨⟨err, s₃⟩, hcheck, hr₃⟩ := bind_eq_ok.mp hr₂
  have hlen₂ : s₂.mgmt.lenRx = s₁.mgmt.lenRx := congrArg Nrf24Mgmt.lenRx (writeRaw_keeps hwrite).2.2
  have hlen₃ : s₃.mgmt.lenRx = s₁.mgmt.lenRx :=
    (congrArg Nrf24Mgmt.lenRx (checkKeepalive_keeps hcheck).2.2).trans hlen₂
  have hkept : (s₃.peers i).pipe = (s.peers i).pipe :=
    (checkKeepalive_keeps hcheck).2.1.pipe.trans
      ((writeRaw_keeps hwrite).2.1.trans (readRaw_keepsTx hread).pipe)
  have htime := checkKeepalive_timeout hcheck
  dsimp only at htime
  rw [writeRaw_anchor hwrite, readRaw_anchor hread] at htime
  rw [← htime, ← and_assoc, ← readRaw_quiet hread, ← hlen₃]
  dsimp only at hr₃
  split at hr₃
  · rename_i hdead
    exact ⟨fun _ => ⟨hdead.2, hdead.1⟩, fun _ => by rw [freePipe_peer hr₃]⟩
  · rename_i halive
    obtain rfl := Except.ok.inj hr₃
    exact ⟨fun h => absurd (hkept.symm.trans h) hpipe, fun h => absurd ⟨h.2, h.1⟩ halive⟩

/-- A pass frees an allocated slot exactly when the slot expires in it. -/
theorem running_frees (h : s.running e = .ok s') (hpipe : (s.peers j).pipe ≠ -1) :
    (s'.peers j).pipe = -1 ↔ s.Expires e j := by
  have hother : (s'.peers j).pipe = (s.peers j).pipe → ¬ (s.runningState = .raw ∧ s.sockIndex = j) →
      ((s'.peers j).pipe = -1 ↔ s.Expires e j) := by
    intro hkept hno
    rw [hkept]
    exact ⟨fun h => absurd h hpipe, fun h => absurd ⟨h.state, h.turn⟩ hno⟩
  rcases running_cases h with ⟨ch, rs, htune, rfl⟩ | ⟨hstate, h⟩ | ⟨hstate, h⟩
  · exact hother rfl fun h => htune.ne_raw h.1
  · obtain ⟨n, s₁, m, s₂, s₃, rs, hread, hwrite, hf₃, -, rfl⟩ := mgmtPass_cases h
    have hf : Frame0 s s₃ := (Frame0.readMgmt hread).trans ((Frame0.writeMgmt hwrite).trans hf₃)
    exact hother (by dsimp only; rw [hf.peers]) (by rw [hstate]; simp)
  · by_cases hj : s.sockIndex = j
    · subst hj
      obtain ⟨rs, -, ⟨hfree, -⟩ | ⟨-, s₁, hserve, rfl⟩⟩ := rawPass_cases h
      · exact absurd hfree hpipe
      · have hfrees := servePipe_frees hserve hpipe
        constructor
        · intro hfreed
          obtain ⟨h0, hquiet, htime⟩ := hfrees.mp hfreed
          exact ⟨hstate, rfl, h0, hquiet, htime⟩
        · intro hexp
          exact hfrees.mpr ⟨hexp.unread, hexp.quiet, hexp.timeout⟩
    · refine hother ?_ fun h => hj h.2
      obtain ⟨rs, -, ⟨-, rfl⟩ | ⟨-, s₁, hserve, rfl⟩⟩ := rawPass_cases h
      · rfl
      · have hsame := (Frame.servePipe hserve).peers j (Ne.symm hj)
        exact congrArg Nrf24Data.pipe hsame

end Nrf

end KnotHal.Nrf24
