import KnotHal.Lib.Bits
import KnotHal.Nrf24.Step

/-!
# The pipe bitmask

`pipe_bitmask` and `peers[].pipe` say twice which pipes are in use. Pipes are taken by `hal_comm_socket` and
`hal_comm_accept`, and freed by `hal_comm_close`, a timeout and `hal_comm_deinit`.

* `Piped s s'` : what a pass or a call can do to the pipes; `running_piped`, `perform_piped`;
* `PipesInv`, `Reachable.pipesInv` : the bitmask is the set of the pipes held, in every reachable state;
* `pipes_consistent` : the bits one by one, and what `hal_comm_socket` makes of them;
* `request_moves_on_iff` : when the data channel is left for a queued request.
-/

namespace KnotHal.Nrf24

open Machine

variable {b : Build}

namespace Nrf

/-! ## What can happen to the pipes -/

def held (s : Nrf b) : Set Nat := {k | ∃ i : Fin b.connections, k = i + 1 ∧ (s.peers i).pipe ≠ -1}

/-- What a pass or a call can do to the pipes and to the bitmask. -/
inductive Piped (s s' : Nrf b) : Prop
  | kept (pipe : ∀ j, (s'.peers j).pipe = (s.peers j).pipe) (mask : s'.pipeBitmask = s.pipeBitmask)
  | freed (i : Fin b.connections) (held : (s.peers i).pipe ≠ -1) (pipe : (s'.peers i).pipe = -1)
      (others : ∀ j, j ≠ i → (s'.peers j).pipe = (s.peers j).pipe)
      (mask : s'.pipeBitmask = clrBit s.pipeBitmask (s.peers i).pipe.toNat)
  | taken (i : Fin b.connections) (free : (s.peers i).pipe = -1) (pipe : (s'.peers i).pipe = i + 1)
      (others : ∀ j, j ≠ i → (s'.peers j).pipe = (s.peers j).pipe)
      (mask : s'.pipeBitmask = setBit s.pipeBitmask (i + 1))
  | scanning (pipe : ∀ j, (s'.peers j).pipe = (s.peers j).pipe) (mask : s'.pipeBitmask = setBit s.pipeBitmask 0)
  | cleared (pipe : ∀ j, (s'.peers j).pipe = -1) (mask : s'.pipeBitmask = 0b00000001#8)

variable {e : Env} {s s' : Nrf b} {i : Fin b.connections}

theorem Piped.of_same (hp : s'.peers = s.peers) (hm : s'.pipeBitmask = s.pipeBitmask) : Piped s s' :=
  .kept (fun j => by rw [hp]) hm

theorem Piped.congr {t t' : Nrf b} (h : Piped t t') (hp : s.peers = t.peers) (hm : s.pipeBitmask = t.pipeBitmask)
    (hp' : s'.peers = t'.peers) (hm' : s'.pipeBitmask = t'.pipeBitmask) : Piped s s' := by
  cases h with
  | kept pipe mask => exact .kept (by rwa [hp, hp']) (by rw [hm, hm', mask])
  | freed i held pipe others mask =>
      exact .freed i (by rwa [hp]) (by rwa [hp']) (by rwa [hp, hp']) (by rw [hm, hm', hp, mask])
  | taken i free pipe others mask =>
      exact .taken i (by rwa [hp]) (by rwa [hp']) (by rwa [hp, hp']) (by rw [hm, hm', mask])
  | scanning pipe mask => exact .scanning (by rwa [hp, hp']) (by rw [hm, hm', mask])
  | cleared pipe mask => exact .cleared (by rwa [hp']) (by rw [hm', mask])

/-! ## A pass -/

/-- The bitmask, and what `new_raw_time` computes from it, are the same. -/
structure Steady (s s' : Nrf b) : Prop where
  mask : s'.pipeBitmask = s.pipeBitmask
  rawTimeout : s'.rawTimeout = s.rawTimeout
  rtOffset : s'.rtOffset = s.rtOffset

theorem Steady.refl (s : Nrf b) : Steady s s := ⟨rfl, rfl, rfl⟩

theorem Steady.trans {s₁ s₂ s₃ : Nrf b} (h : Steady s₁ s₂) (h' : Steady s₂ s₃) : Steady s₁ s₃ :=
  ⟨h'.mask.trans h.mask, h'.rawTimeout.trans h.rawTimeout, h'.rtOffset.trans h.rtOffset⟩

theorem rxControl_steady {p : Payload} {r : Rx} (h : s.rxControl i p r = .ok s') : Steady s s' := by
  rcases rxControl_cases h with ⟨-, -, -, n, h⟩ | rfl | ⟨-, -, rfl⟩ | rfl
  · obtain ⟨-, -, rfl⟩ := writeKeepalive_eq_ok.mp h
    exact ⟨rfl, rfl, rfl⟩
  · exact ⟨rfl, rfl, rfl⟩
  · exact ⟨rfl, rfl, rfl⟩
  · exact .refl _

theorem readRawStep_steady {r : Rx} {p p' : Payload} {c : Option Copy} (h : readRawStep i r (p, s) = .ok (c, p', s')) :
    Steady s s' := by
  obtain ⟨-, -, h⟩ := readRawStep_cases h
  have hreceived : Steady s (received i r s) := ⟨rfl, rfl, rfl⟩
  rcases h with ⟨-, -, h⟩ | ⟨-, d, -, rfl⟩ | ⟨-, -, -, -, rfl⟩
  · exact hreceived.trans (rxControl_steady h)
  · exact ⟨rfl, rfl, rfl⟩
  · exact hreceived

theorem readRaw_steady {cs : List (Option Copy)} (h : s.readRaw e i = .ok (cs, s')) : Steady s s' := by
  obtain ⟨-, p', h⟩ := readRaw_eq_ok.mp h
  exact exec_keeps (I := fun q : Payload × Nrf b => Steady s q.2)
    (fun _ _ _ _ hq h => hq.trans (readRawStep_steady h)) (.refl s) h

theorem writeRaw_steady {n : Int} (h : s.writeRaw e i = .ok (n, s')) : Steady s s' := by
  refine writeRaw_rule (I := Steady s) (fun t t' _ _ ht hphy => ?_) (fun _ _ _ ht => ht.trans ⟨rfl, rfl, rfl⟩)
    (.refl s) h
  obtain ⟨-, rfl⟩ := phy_eq_ok.mp hphy
  exact ht.trans ⟨rfl, rfl, rfl⟩

theorem checkKeepalive_steady {n : Int} (h : s.checkKeepalive e i = .ok (n, s')) : Steady s s' := by
  rcases checkKeepalive_cases h with rfl | ⟨-, -, h⟩
  · exact .refl _
  · obtain ⟨-, -, rfl⟩ := writeKeepalive_eq_ok.mp h
    exact ⟨rfl, rfl, rfl⟩

theorem serve_steady {cs : List (Option Copy)} {n err : Int} {t : Nat} {s₁ s₂ s₃ : Nrf b}
    (hread : s.readRaw e i = .ok (cs, s₁)) (hwrite : s₁.writeRaw e i = .ok (n, s₂))
    (hcheck : checkKeepalive e i { s₂ with rtStamp := t } = .ok (err, s₃)) : Steady s s₃ := by
  have hstamp : Steady s₂ { s₂ with rtStamp := t } := ⟨rfl, rfl, rfl⟩
  exact (readRaw_steady hread).trans ((writeRaw_steady hwrite).trans (hstamp.trans (checkKeepalive_steady hcheck)))

theorem freePipe_piped (hheld : (s.peers i).pipe ≠ -1) (h : s.freePipe i = .ok s') : Piped s s' := by
  have hpeer := freePipe_peer h
  have hframe := Frame.freePipe h
  obtain ⟨-, rfl⟩ := freePipe_eq_ok.mp h
  refine .freed i hheld ?_ (fun j hj => ?_) rfl
  · rw [hpeer]
  · rw [hframe.peers j hj]

theorem servePipe_piped (hheld : (s.peers i).pipe ≠ -1) (h : s.servePipe e i = .ok s') : Piped s s' := by
  obtain ⟨cs, s₁, n, s₂, err, s₃, hread, hwrite, hcheck, h⟩ := servePipe_cases h
  have hframe : Frame i s s₃ := (Frame.readRaw hread).trans
    ((Frame.writeRaw hwrite).trans ((Frame.rtStamp i s₂ _).trans (.checkKeepalive hcheck)))
  have hpipe : (s₃.peers i).pipe = (s.peers i).pipe :=
    (checkKeepalive_keeps hcheck).2.1.pipe.trans
      ((writeRaw_keeps hwrite).2.1.trans (readRaw_keepsTx hread).pipe)
  have hmask := (serve_steady hread hwrite hcheck).mask
  have hall : ∀ j, (s₃.peers j).pipe = (s.peers j).pipe := by
    intro j
    by_cases hj : j = i
    · subst hj
      exact hpipe
    · rw [hframe.peers j hj]
  rcases h with rfl | ⟨-, -, hfree⟩
  · exact .kept hall hmask
  · -- the event does not concern the pipes
    have hpeer := freePipe_peer hfree
    have hother := Frame.freePipe hfree
    obtain ⟨-, rfl⟩ := freePipe_eq_ok.mp hfree
    refine .freed i hheld (by rw [hpeer]) (fun j hj => ?_) ?_
    · rw [hother.peers j hj]
      exact hall j
    · show clrBit s₃.pipeBitmask (s₃.peers i).pipe.toNat = _
      rw [hmask, hpipe]

theorem running_piped (h : s.running e = .ok s') : Piped s s' := by
  rcases running_cases h with ⟨ch, rs, -, rfl⟩ | ⟨-, h⟩ | ⟨-, h⟩
  · exact .of_same rfl rfl
  · obtain ⟨n, s₁, m, s₂, s₃, rs, hread, hwrite, hf₃, -, rfl⟩ := mgmtPass_cases h
    have hf : Frame0 s s₃ := (Frame0.readMgmt hread).trans ((Frame0.writeMgmt hwrite).trans hf₃)
    exact .of_same hf.peers hf.pipeBitmask
  · obtain ⟨rs, -, ⟨-, rfl⟩ | ⟨hpipe, s₁, hserve, rfl⟩⟩ := rawPass_cases h
    · exact .of_same rfl rfl
    · exact (servePipe_piped (s := { s with runningState := rs }) hpipe hserve).congr rfl rfl rfl rfl

/-! ## The calls -/

theorem halCommSocket_piped {domain protocol : Int} {r : Ret} (h : s.halCommSocket domain protocol = .ok (r, s')) :
    Piped s s' := by
  rcases halCommSocket_cases h with ⟨-, rfl⟩ | ⟨-, -, -, rfl⟩ | ⟨-, -, -, i, s₁, halloc, -, rfl⟩
  · exact .of_same rfl rfl
  · exact .of_same rfl rfl
  · obtain ⟨hfree, -, rfl⟩ := allocPipe_eq_some halloc
    refine .taken i hfree ?_ (fun j hj => ?_) rfl
    · show ((s.setPeer i _).peers i).pipe = _
      rw [setPeer_self]
    · show ((s.setPeer i _).peers j).pipe = _
      rw [s.setPeer_of_ne _ hj]

theorem halCommClose_piped {sockfd : Int} {r : Ret} (h : s.halCommClose e sockfd = .ok (r, s')) : Piped s s' := by
  rcases halCommClose_cases h with ⟨-, rfl | ⟨i, -, hheld, ops, -, hfree⟩⟩
  · exact .of_same rfl rfl
  · exact (freePipe_piped (s := { s with log := s.log ++ ops }) hheld hfree).congr rfl rfl rfl rfl

theorem halCommAccept_piped {r : Ret} (h : s.halCommAccept e = .ok (r, s')) :
    ∃ s₁, s.running e = .ok s₁ ∧ Piped s₁ s' := by
  obtain ⟨s₁, hrun, h⟩ := halCommAccept_cases h
  refine ⟨s₁, hrun, ?_⟩
  rcases h with ⟨-, -, rfl⟩ | ⟨-, -, rfl⟩ | ⟨-, -, i, s₂, halloc, -, -, rfl⟩
  · exact .of_same rfl rfl
  · exact .of_same rfl rfl
  · obtain ⟨hfree, -, rfl⟩ := allocPipe_eq_some halloc
    refine .taken i hfree ?_ (fun j hj => ?_) rfl
    · rw [setPeer_self]
      show ((s₁.setPeer i _).peers i).pipe = _
      rw [setPeer_self]
    · rw [setPeer_of_ne _ _ hj]
      show ((s₁.setPeer i _).peers j).pipe = _
      rw [s₁.setPeer_of_ne _ hj]

theorem setPeer_piped {d : Nrf24Data} (h : d.pipe = (s.peers i).pipe) : Piped s (s.setPeer i d) := by
  refine .kept (fun j => ?_) rfl
  by_cases hj : j = i
  · subst hj
    rw [setPeer_self, h]
  · rw [s.setPeer_of_ne d hj]

/-- A pass or none, and then what the call does itself. -/
theorem perform_piped {c : Call} {r : Ret} (h : c.perform e s = .ok (r, s')) :
    ∃ s₁, (s.running e = .ok s₁ ∨ s₁ = s) ∧ Piped s₁ s' := by
  cases c with
  | init mac err =>
      have hs := halCommInit_cases h
      exact ⟨s, Or.inr rfl, .of_same (by rw [hs]) (by rw [hs])⟩
  | deinit =>
      refine ⟨s, Or.inr rfl, ?_⟩
      rcases halCommDeinit_cases h with rfl | rfl
      · exact .of_same rfl rfl
      · exact .cleared (fun _ => rfl) rfl
  | socket domain protocol => exact ⟨s, Or.inr rfl, halCommSocket_piped h⟩
  | close sockfd => exact ⟨s, Or.inr rfl, halCommClose_piped h⟩
  | read sockfd count =>
      obtain ⟨s₁, hrun, h⟩ := halCommRead_cases h
      refine ⟨s₁, Or.inl hrun, ?_⟩
      rcases h with ⟨-, rfl, -⟩ | ⟨-, -, -, -, rfl⟩ | ⟨i, -, -, -, -, rfl⟩
      · exact .of_same rfl rfl
      · exact .of_same rfl rfl
      · exact setPeer_piped rfl
  | write sockfd data =>
      obtain ⟨s₁, hrun, h⟩ := halCommWrite_cases h
      refine ⟨s₁, Or.inl hrun, ?_⟩
      rcases h with ⟨-, rfl⟩ | ⟨i, -, -, -, -, -, rfl⟩
      · exact .of_same rfl rfl
      · exact setPeer_piped rfl
  | listen =>
      cases h
      exact ⟨s, Or.inr rfl, .scanning (fun _ => rfl) rfl⟩
  | accept =>
      obtain ⟨s₁, hrun, hpiped⟩ := halCommAccept_piped h
      exact ⟨s₁, Or.inl hrun, hpiped⟩
  | connect sockfd addr =>
      obtain ⟨s₁, hrun, h⟩ := halCommConnect_cases h
      refine ⟨s₁, Or.inl hrun, ?_⟩
      rcases h with ⟨-, -, rfl⟩ | ⟨-, i, -, -, rfl⟩
      · exact .of_same rfl rfl
      · refine (setPeer_piped (s := s₁) (i := i) (d := { s₁.peers i with
          mac := addr
          keepaliveAnchor := halTimeMs (e.clock .anchor)
          keepalive := 1 }) rfl).congr rfl rfl rfl rfl

/-! ## The invariant -/

theorem mem_held {k : Nat} : k ∈ s.held ↔ ∃ i : Fin b.connections, k = i + 1 ∧ (s.peers i).pipe ≠ -1 := Iff.rfl

theorem held_le {k : Nat} (h : k ∈ s.held) : 1 ≤ k ∧ k ≤ b.connections := by
  obtain ⟨i, rfl, -⟩ := h
  have := i.isLt
  omega

theorem succ_mem_held : i.val + 1 ∈ s.held ↔ (s.peers i).pipe ≠ -1 := by
  constructor
  · rintro ⟨j, hj, hpipe⟩
    obtain rfl : i = j := Fin.ext (by omega)
    exact hpipe
  · intro hpipe
    exact ⟨i, rfl, hpipe⟩

theorem held_congr (h : ∀ j, (s'.peers j).pipe = (s.peers j).pipe) : s'.held = s.held := by
  ext k
  simp only [mem_held, h]

theorem held_taken (hpipe : (s'.peers i).pipe ≠ -1) (h : ∀ j, j ≠ i → (s'.peers j).pipe = (s.peers j).pipe) :
    s'.held = insert (i.val + 1) s.held := by
  ext k
  rw [Set.mem_insert_iff]
  constructor
  · rintro ⟨j, rfl, hj⟩
    by_cases hji : j = i
    · exact Or.inl (by rw [hji])
    · exact Or.inr ⟨j, rfl, by rwa [h j hji] at hj⟩
  · rintro (rfl | ⟨j, rfl, hj⟩)
    · exact ⟨i, rfl, hpipe⟩
    · by_cases hji : j = i
      · exact ⟨i, by rw [hji], hpipe⟩
      · exact ⟨j, rfl, by rwa [h j hji]⟩

theorem held_freed (hpipe : (s'.peers i).pipe = -1) (h : ∀ j, j ≠ i → (s'.peers j).pipe = (s.peers j).pipe) :
    s'.held = s.held \ {i.val + 1} := by
  ext k
  rw [Set.mem_sdiff, Set.mem_singleton_iff]
  constructor
  · rintro ⟨j, rfl, hj⟩
    have hji : j ≠ i := fun hji => hj (by rw [hji, hpipe])
    refine ⟨⟨j, rfl, by rwa [h j hji] at hj⟩, fun heq => hji (Fin.ext ?_)⟩
    omega
  · rintro ⟨⟨j, rfl, hj⟩, hne⟩
    have hji : j ≠ i := fun hji => hne (by rw [hji])
    exact ⟨j, rfl, by rwa [h j hji]⟩

def Numbered (s : Nrf b) : Prop := ∀ i, (s.peers i).pipe = -1 ∨ (s.peers i).pipe = i + 1

/-- The management pipe is open only where the driver is. -/
def Opened (s : Nrf b) : Prop := (s.mgmt.pipe = -1 ∨ s.mgmt.pipe = 0) ∧ (s.mgmt.pipe = 0 → s.driverIndex = 0)

/-- The bitmask is the set of the pipes held, with pipe 0. -/
structure PipesInv (s : Nrf b) : Prop where
  numbered : s.Numbered
  mask : bits s.pipeBitmask = insert 0 s.held
  opened : s.Opened

theorem Piped.numbered (h : Piped s s') (hn : s.Numbered) : s'.Numbered := by
  intro j
  cases h with
  | kept pipe _ => rw [pipe]; exact hn j
  | freed i _ pipe others _ =>
      by_cases hj : j = i
      · subst hj; exact Or.inl pipe
      · rw [others j hj]; exact hn j
  | taken i _ pipe others _ =>
      by_cases hj : j = i
      · subst hj; exact Or.inr pipe
      · rw [others j hj]; exact hn j
  | scanning pipe _ => rw [pipe]; exact hn j
  | cleared pipe _ => exact Or.inl (pipe j)

/-- Without connections only bit 0 is set. -/
theorem mask_idle (hp : ∀ j, (s.peers j).pipe = -1) (hm : s.pipeBitmask = 0b00000001#8) :
    bits s.pipeBitmask = insert 0 s.held := by
  have hempty : s.held = ∅ := by
    ext k
    simp only [mem_held, hp, Set.mem_empty_iff_false, iff_false]
    rintro ⟨_, -, hne⟩
    exact hne rfl
  have hzero : 0b00000001#8 = 0#8 ||| 1#8 <<< 0 := by decide
  rw [hm, hempty, hzero, bits_set (by decide), bits_zero]

/-- The bit cleared is the bit of the slot freed, because `pipe` is read before it is overwritten. -/
theorem Piped.mask (h : Piped s s') (hn : s.Numbered) (hmask : bits s.pipeBitmask = insert 0 s.held) :
    bits s'.pipeBitmask = insert 0 s'.held := by
  have hconn := b.connections_le
  cases h with
  | kept pipe mask => rw [mask, held_congr pipe, hmask]
  | freed i hheld pipe others mask =>
      have htoNat : (s.peers i).pipe.toNat = i.val + 1 := by
        have := (hn i).resolve_left hheld
        omega
      have hne : (0 : Nat) ∉ ({i.val + 1} : Set Nat) := by simp
      rw [mask, htoNat, held_freed pipe others]
      show bits (s.pipeBitmask &&& ~~~(1#8 <<< (i.val + 1))) = _
      rw [bits_clear, hmask, Set.insert_sdiff_of_notMem _ hne]
  | taken i _ pipe others mask =>
      have hlt : i.val + 1 < 8 := by have := i.isLt; omega
      rw [mask, held_taken (by rw [pipe]; omega) others]
      show bits (s.pipeBitmask ||| 1#8 <<< (i.val + 1)) = _
      rw [bits_set hlt, hmask, Set.insert_comm]
  | scanning pipe mask =>
      rw [mask, held_congr pipe]
      show bits (s.pipeBitmask ||| 1#8 <<< 0) = _
      rw [bits_set (by decide), hmask, Set.insert_eq_of_mem (Set.mem_insert 0 _)]
  | cleared pipe mask => exact mask_idle pipe mask

theorem Opened.congr (h : s.Opened) (hp : s'.mgmt.pipe = s.mgmt.pipe) (hd : s'.driverIndex = s.driverIndex) :
    s'.Opened := by
  rw [Opened, hp, hd]
  exact h

theorem Opened.running (h : s.Opened) (hrun : s.running e = .ok s') : s'.Opened :=
  h.congr (running_ran hrun).mgmtPipe (running_ran hrun).driverIndex

theorem Opened.perform {c : Call} {r : Ret} (hs : s.Opened) (h : c.perform e s = .ok (r, s')) : s'.Opened := by
  cases c with
  | init mac err =>
      change s.halCommInit mac err = .ok (r, s') at h
      unfold halCommInit at h
      split at h
      · obtain ⟨-, rfl⟩ := Prod.mk.inj (Except.ok.inj h)
        exact hs
      · rename_i hd
        split at h
        · obtain ⟨-, rfl⟩ := Prod.mk.inj (Except.ok.inj h)
          refine ⟨hs.1, fun h0 => ?_⟩
          have := hs.2 h0
          omega
        · obtain ⟨-, rfl⟩ := Prod.mk.inj (Except.ok.inj h)
          exact ⟨hs.1, fun _ => rfl⟩
  | deinit =>
      rcases halCommDeinit_cases h with rfl | rfl
      · exact hs
      · refine ⟨Or.inl rfl, fun h0 => ?_⟩
        exact absurd h0 (show ¬ (-1 : Int) = 0 by decide)
  | socket domain protocol =>
      rcases halCommSocket_cases h with ⟨-, rfl⟩ | ⟨hd, -, -, rfl⟩ | ⟨-, -, -, i, s₁, halloc, -, rfl⟩
      · exact hs
      · exact ⟨Or.inr rfl, fun _ => hd⟩
      · obtain ⟨-, -, rfl⟩ := allocPipe_eq_some halloc
        exact hs
  | close sockfd =>
      rcases halCommClose_cases h with ⟨-, rfl | ⟨i, -, -, ops, -, hfree⟩⟩
      · exact hs
      · have hframe := Frame.freePipe hfree
        exact hs.congr hframe.mgmtPipe hframe.driverIndex
  | read sockfd count =>
      obtain ⟨s₁, hrun, h⟩ := halCommRead_cases h
      have hs₁ := hs.running hrun
      rcases h with ⟨-, rfl, -⟩ | ⟨-, -, -, -, rfl⟩ | ⟨i, -, -, -, -, rfl⟩ <;> exact hs₁
  | write sockfd data =>
      obtain ⟨s₁, hrun, h⟩ := halCommWrite_cases h
      have hs₁ := hs.running hrun
      rcases h with ⟨-, rfl⟩ | ⟨i, -, -, -, -, -, rfl⟩ <;> exact hs₁
  | listen =>
      cases h
      exact hs
  | accept =>
      obtain ⟨s₁, hrun, h⟩ := halCommAccept_cases h
      have hs₁ := hs.running hrun
      rcases h with ⟨-, -, rfl⟩ | ⟨-, -, rfl⟩ | ⟨-, -, i, s₂, halloc, -, -, rfl⟩
      · exact hs₁
      · exact hs₁
      · obtain ⟨-, -, rfl⟩ := allocPipe_eq_some halloc
        exact hs₁
  | connect sockfd addr =>
      obtain ⟨s₁, hrun, h⟩ := halCommConnect_cases h
      have hs₁ := hs.running hrun
      rcases h with ⟨-, -, rfl⟩ | ⟨-, i, -, -, rfl⟩ <;> exact hs₁

theorem pipesInv_boot : (boot b).PipesInv where
  numbered := fun _ => Or.inl rfl
  mask := mask_idle (fun _ => rfl) rfl
  opened := ⟨Or.inl rfl, fun h => absurd h (show ¬ (-1 : Int) = 0 by decide)⟩

theorem pipesInv_step {ce : Call × Env} {o : Out} (hs : s.PipesInv) (h : step ce s = .ok (o, s')) : s'.PipesInv := by
  have hperf := (step_eq_ok.mp h).1
  obtain ⟨s₁, hrun, hdo⟩ := perform_piped hperf
  have hpass : Piped s s₁ := by
    rcases hrun with hrun | rfl
    · exact (running_piped hrun).congr rfl rfl rfl rfl
    · exact .of_same rfl rfl
  have hn₁ := hpass.numbered hs.numbered
  have hm₁ := hpass.mask hs.numbered hs.mask
  exact ⟨hdo.numbered hn₁, hdo.mask hn₁ hm₁, Opened.perform (s := { s with log := [] }) hs.opened hperf⟩

end Nrf

theorem Reachable.pipesInv {s : Nrf b} (h : Reachable s) : s.PipesInv := by
  obtain ⟨is, os, h⟩ := h
  exact exec_keeps (fun _ _ _ _ hs h => Nrf.pipesInv_step hs h) Nrf.pipesInv_boot h

/-! ## What the bits say -/

section Consistent
variable {e : Env} {s s' : Nrf b}

theorem Nrf.PipesInv.bit (h : s.PipesInv) (i : Fin b.connections) :
    s.pipeBitmask.getLsbD (i + 1) = true ↔ (s.peers i).pipe = i + 1 := by
  rw [← mem_bits, h.mask, Set.mem_insert_iff, Nrf.succ_mem_held]
  have hi := h.numbered i
  omega

theorem Nrf.PipesInv.above (h : s.PipesInv) {k : Nat} (hk : b.connections < k) :
    s.pipeBitmask.getLsbD k = false := by
  apply Bool.eq_false_iff.mpr
  intro hbit
  rw [← mem_bits, h.mask, Set.mem_insert_iff] at hbit
  rcases hbit with rfl | hheld
  · omega
  · have := Nrf.held_le hheld
    omega

theorem Nrf.allocPipe_eq_none : s.allocPipe = none ↔ ∀ i, (s.peers i).pipe ≠ -1 := by
  unfold Nrf.allocPipe
  split
  · rename_i i hi
    have hp := (Slots.find_finRange hi).1
    simp only [reduceCtorEq, false_iff, not_forall, not_not]
    exact ⟨i, by simpa using hp⟩
  · rename_i hnone
    rw [List.find?_eq_none] at hnone
    simp only [true_iff]
    intro i
    simpa using hnone i (List.mem_finRange i)

theorem Nrf.halCommSocket_none (hd : s.driverIndex = 0) (hopen : s.mgmt.pipe = 0) (h : s.allocPipe = none) :
    s.halCommSocket pfNrf24 protoRaw = .ok (⟨-eusers, []⟩, s) := by
  have hclosed : ¬ (0 : Int) = -1 := by decide
  unfold Nrf.halCommSocket
  rw [if_neg (by decide), if_neg (by rw [hd]; exact hclosed), if_neg (by decide), if_pos rfl,
    if_neg (by rw [hopen]; exact hclosed), h]

theorem Nrf.halCommSocket_some {i : Fin b.connections} {s₁ : Nrf b} (hd : s.driverIndex = 0) (hopen : s.mgmt.pipe = 0)
    (h : s.allocPipe = some (i, s₁)) : ∃ s', s.halCommSocket pfNrf24 protoRaw = .ok (⟨i + 1, []⟩, s') := by
  have hclosed : ¬ (0 : Int) = -1 := by decide
  have hd₁ : s₁.driverIndex = 0 := by
    obtain ⟨-, -, rfl⟩ := Nrf.allocPipe_eq_some h
    exact hd
  unfold Nrf.halCommSocket
  rw [if_neg (by decide), if_neg (by rw [hd]; exact hclosed), if_neg (by decide), if_pos rfl,
    if_neg (by rw [hopen]; exact hclosed), h]
  dsimp only
  rw [Nrf.phy_ok hd₁]
  exact ⟨_, rfl⟩

/-- With the management socket open, a socket for data takes a free slot where there is one. -/
theorem socketRaw_ok (h : s.PipesInv) (hopen : s.mgmt.pipe = 0) :
    ∃ o s', step (.socket pfNrf24 protoRaw, e) s = .ok (o, s') ∧
      ((o.ret = -eusers ∧ ∀ i, (s.peers i).pipe ≠ -1) ∨
        ∃ i : Fin b.connections, o.ret = i + 1 ∧ (s.peers i).pipe = -1) := by
  have hd := h.opened.2 hopen
  cases halloc : Nrf.allocPipe { s with log := [] } with
  | none =>
      have hret := Nrf.halCommSocket_none (s := { s with log := [] }) hd hopen halloc
      have hall := Nrf.allocPipe_eq_none.mp halloc
      exact ⟨⟨⟨-eusers, []⟩, []⟩, _, step_eq_ok.mpr ⟨hret, rfl⟩, Or.inl ⟨rfl, hall⟩⟩
  | some is =>
      obtain ⟨s', hret⟩ := Nrf.halCommSocket_some (s := { s with log := [] }) hd hopen halloc
      have hfree := (Nrf.allocPipe_eq_some halloc).1
      exact ⟨⟨⟨is.1 + 1, []⟩, s'.log⟩, s', step_eq_ok.mpr ⟨hret, rfl⟩, Or.inr ⟨is.1, rfl, hfree⟩⟩

/-- In every reachable state each slot holds its own pipe or none, its bit says which, bit 0 is set and the
bits above the last slot are clear; a socket for data is refused exactly when all slots are connected, and
gets a slot that no connection holds otherwise. -/
theorem pipes_consistent (hs : Reachable s) :
    (∀ i, ((s.peers i).pipe = -1 ∨ (s.peers i).pipe = i + 1) ∧
      (s.pipeBitmask.getLsbD (i + 1) = true ↔ (s.peers i).pipe = i + 1)) ∧
    s.pipeBitmask.getLsbD 0 = true ∧ (∀ k, b.connections < k → s.pipeBitmask.getLsbD k = false) ∧
    (s.mgmt.pipe = 0 → ∀ e, ∃ o s', step (.socket pfNrf24 protoRaw, e) s = .ok (o, s') ∧
      (o.ret = -eusers ↔ ∀ i, (s.peers i).pipe = i + 1) ∧
      (o.ret ≠ -eusers → ∃ i : Fin b.connections, o.ret = i + 1 ∧ (s.peers i).pipe = -1 ∧
        s.pipeBitmask.getLsbD (i + 1) = false)) := by
  have hinv := hs.pipesInv
  refine ⟨fun i => ⟨hinv.numbered i, hinv.bit i⟩, ?_, fun k hk => hinv.above hk, fun hopen e => ?_⟩
  · rw [← mem_bits, hinv.mask]
    exact Set.mem_insert 0 _
  · obtain ⟨o, s', h, hret⟩ := socketRaw_ok (e := e) hinv hopen
    have hconnected : (∀ i, (s.peers i).pipe ≠ -1) ↔ ∀ i, (s.peers i).pipe = i + 1 := by
      apply forall_congr'
      intro i
      have hi := hinv.numbered i
      omega
    refine ⟨o, s', h, ?_, ?_⟩
    · rw [← hconnected]
      constructor
      · intro husers
        rcases hret with ⟨-, hall⟩ | ⟨i, hi, -⟩
        · exact hall
        · rw [hi, eusers] at husers
          omega
      · intro hall
        rcases hret with ⟨husers, -⟩ | ⟨i, -, hfree⟩
        · exact husers
        · exact absurd hfree (hall i)
    · intro hne
      obtain ⟨i, hi, hfree⟩ := hret.resolve_left fun h => hne h.1
      refine ⟨i, hi, hfree, Bool.eq_false_iff.mpr fun hbit => ?_⟩
      have := (hinv.bit i).mp hbit
      omega

end Consistent

theorem pipes_consistent_opened :
    let s : Nrf .linux := after opening
    (∀ i, ((s.peers i).pipe = -1 ∨ (s.peers i).pipe = i + 1) ∧
      (s.pipeBitmask.getLsbD (i + 1) = true ↔ (s.peers i).pipe = i + 1)) ∧
    s.pipeBitmask.getLsbD 0 = true ∧ (∀ k, Build.linux.connections < k → s.pipeBitmask.getLsbD k = false) ∧
    (s.mgmt.pipe = 0 → ∀ e, ∃ o s', step (.socket pfNrf24 protoRaw, e) s = .ok (o, s') ∧
      (o.ret = -eusers ↔ ∀ i, (s.peers i).pipe = i + 1) ∧
      (o.ret ≠ -eusers → ∃ i : Fin Build.linux.connections, o.ret = i + 1 ∧ (s.peers i).pipe = -1 ∧
        s.pipeBitmask.getLsbD (i + 1) = false)) :=
  pipes_consistent (reachable_after rfl)

/-! ## Leaving the data channel -/

section Leave
variable {e : Env} {s s' : Nrf b}

theorem bits_pipeRawBitmask : bits Nrf.pipeRawBitmask = {k | 1 ≤ k ∧ k ≤ 5} := by
  have hbits : ∀ k, k < 8 → (Nrf.pipeRawBitmask.getLsbD k = true ↔ 1 ≤ k ∧ k ≤ 5) := by decide
  ext k
  constructor
  · intro hk
    exact (hbits k (lt_of_mem_bits hk)).mp hk
  · intro hk
    have hlt : k < 8 := by have := hk.2; omega
    exact (hbits k hlt).mpr hk

/-- On Linux the data channel may be left while a slot is free. -/
theorem mayScan_iff (ha : b.arduino = false) (h : s.PipesInv) : s.mayScan ↔ ∃ i, (s.peers i).pipe = -1 := by
  have hconn : b.connections = 5 := by rw [Build.connections, ha]; rfl
  rw [Nrf.mayScan, ha, if_neg (by decide), ne_eq, and_eq_right_iff, bits_pipeRawBitmask, h.mask, Set.not_subset]
  constructor
  · rintro ⟨k, ⟨h1, h5⟩, hk⟩
    refine ⟨⟨k - 1, by omega⟩, ?_⟩
    by_contra hheld
    have hmem := Nrf.succ_mem_held.mpr hheld
    rw [Nat.sub_add_cancel h1] at hmem
    exact hk (Set.mem_insert_of_mem 0 hmem)
  · rintro ⟨i, hi⟩
    have := i.isLt
    refine ⟨i + 1, ⟨by omega, by omega⟩, fun hk => ?_⟩
    rcases Set.mem_insert_iff.mp hk with h0 | hheld
    · omega
    · exact Nrf.succ_mem_held.mp hheld hi

/-- Both times that the data channel waits for are over. -/
def Overdue (e : Env) (s : Nrf b) : Prop :=
  halTimeout b (halTimeMs (e.clock .rawTimeout)) s.start s.rawTimeout = true ∧
    halTimeout b (halTimeMs (e.clock .rtOffset)) s.rtStamp s.rtOffset = true

instance (e : Env) (s : Nrf b) : Decidable (Overdue e s) := inferInstanceAs (Decidable (_ ∧ _))

/-- Whether the data channel is left is decided before the slot is served. -/
theorem rawPass_state (h : s.rawPass e = .ok s') :
    s'.runningState = if s.mayScan ∧ Overdue e s then .startMgmt else s.runningState := by
  obtain ⟨rs, rfl, ⟨-, rfl⟩ | ⟨-, s₁, hserve, rfl⟩⟩ := Nrf.rawPass_cases h
  · exact if_congr Iff.rfl rfl rfl
  · exact (Nrf.Frame.servePipe hserve).runningState.trans (if_congr Iff.rfl rfl rfl)

/-- In every reachable state on the data channel where both times are over, a pass leaves for the management
channel exactly when some slot is free, whether or not a request is queued. -/
theorem request_moves_on_iff (ha : b.arduino = false) (hs : Reachable s) (hraw : s.runningState = .raw)
    (hover : Overdue e s) (h : s.running e = .ok s') :
    s'.runningState = .startMgmt ↔ ∃ i, (s.peers i).pipe = -1 := by
  rw [Nrf.running, hraw] at h
  rw [rawPass_state h, ← mayScan_iff ha hs.pipesInv]
  constructor
  · intro hstate
    by_contra hno
    rw [if_neg fun h => hno h.1, hraw] at hstate
    cases hstate
  · intro hmay
    exact if_pos ⟨hmay, hover⟩

end Leave

def openingAll (n : Nat) : List (Call × Env) :=
  (.init gatewayMac 0, .still 0) :: (.socket pfNrf24 protoMgmt, .still 0) ::
    List.replicate n (.socket pfNrf24 protoRaw, .still 0) ++
      [(.read 1 128, .still 0), (.read 1 128, .still 100), (.read 1 128, .still 100)]

/-- With two pipes open, a request for the second one is queued. -/
theorem request_moves_on_two :
    let s : Nrf .linux := after (openingAll 2 ++ [(.connect 2 gatewayMac, .still 100)])
    ∃ s', s.running (.still 200) = .ok s' ∧ (s'.runningState = .startMgmt ↔ ∃ i, (s.peers i).pipe = -1) :=
  ⟨_, rfl, request_moves_on_iff (e := .still 200) rfl (reachable_after rfl) rfl (by decide) rfl⟩

/-- With all five pipes open, a request for the fifth one is queued and the data channel is not left. -/
theorem request_stranded :
    ¬ ∀ s : Nrf .linux, Reachable s → s.mgmt.lenTx ≠ 0 → s.runningState = .raw → ∀ e s', Overdue e s →
      s.running e = .ok s' → s'.runningState = .startMgmt := by
  intro hall
  have hs : Reachable (after (openingAll 5 ++ [(.connect 5 gatewayMac, .still 100)]) : Nrf .linux) :=
    reachable_after rfl
  have hmoves := hall _ hs (by decide) rfl (.still 200) _ (by decide) rfl
  cases hmoves

end KnotHal.Nrf24
