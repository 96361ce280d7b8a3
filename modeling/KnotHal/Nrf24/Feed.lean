import KnotHal.Nrf24.Bounds

/-!
# One message through `read_raw`

The packets of one message reach a slot in which no message waits, whatever its counters and its buffer
hold from before: over any number of calls, with control packets in between and with packets for the
other slots.

* `Fed fs d` : what a slot `d` that has received `fs` from the first fragment on looks like;
* `readRawStep_fed`, `readRaw_fed`, `readSlots_fed` : one packet, one call, any schedule of calls;
* `Fed.message` : a slot that has received all the fragments of a message holds it.
-/

namespace KnotHal.Nrf24

open Machine Reassembly

variable {b : Build}

/-- The fragments `fs` of a message have been received, and nothing is known of what was there before. -/
def Fed (fs : List (Frag UInt8)) (d : Nrf24Data) : Prop :=
  match fs with
  | [] => d.lenRx = 0
  | f :: fs => RxInv d ∧ run ((f :: fs).map .frag) ⟨none, 0, []⟩ = ([], d.rcv)

theorem Fed.of_keeps {fs : List (Frag UInt8)} {d d' : Nrf24Data} (h : Fed fs d) (hk : d.KeepsRx d') : Fed fs d' := by
  cases fs with
  | nil => exact hk.lenRx.trans h
  | cons f fs => exact ⟨h.1.of_keeps hk, by rw [hk.rcv]; exact h.2⟩

/-- A slot that has received all the fragments of a message holds it, with its counters put back. -/
theorem Fed.message {msg : List UInt8} {d : Nrf24Data} (h : Fed (frags pwMsgSize msg) d) :
    d.lenRx = msg.length ∧ d.bufferRx.read 0 d.lenRx = msg ∧ d.offsetRx = 0 ∧ d.seqnumberRx = 0 := by
  obtain ⟨f, fs, hfs, -⟩ := frags_eq_cons pwMsgSize msg
  rw [hfs] at h
  obtain ⟨hinv, hrun⟩ := h
  rw [← hfs, run_frags pwMsgSize msg rfl] at hrun
  have hrcv : d.rcv = ⟨some msg, 0, []⟩ := (Prod.mk.inj hrun).2.symm
  have hseq : d.seqnumberRx = 0 := congrArg Rcv.next hrcv
  have hready : (if d.lenRx = 0 then none else some (d.bufferRx.read 0 d.lenRx)) = some msg := congrArg Rcv.ready hrcv
  have hread : d.bufferRx.read 0 d.lenRx = msg := by
    split at hready
    · cases hready
    · exact Option.some.inj hready
  refine ⟨?_, hread, ?_, hseq⟩
  · rw [← hread]
    exact (Buf.length_read _ (by simpa using hinv.len)).symm
  · rw [hinv.offset, hseq]; rfl

/-! ## One packet -/

/-- A first fragment makes the counters from before irrelevant. -/
theorem Nrf.rxData_first {p : Payload} {ilen : Nat} {d : Nrf24Data} (hl : d.lenRx = 0) (hn : nseq (p.get 0) = 0) :
    Nrf.rxData b p ilen d = Nrf.rxData b p ilen { d with offsetRx := 0, seqnumberRx := 0 } := by
  have hre : Nrf.restart p d = Nrf.restart p { d with offsetRx := 0, seqnumberRx := 0 } := by
    rw [Nrf.restart_eq, Nrf.restart_eq]
    simp [hl, hn]
  unfold Nrf.rxData
  rw [hre]

theorem rxData_fed {p : Payload} {r : Rx} {fs : List (Frag UInt8)} {f : Frag UInt8} {d : Nrf24Data} (h : Fed fs d)
    (hf : frag? r.pdu.bytes = some f) (hs : Sound f) (hfirst : fs = [] → f.seq = 0) :
    ∃ c d', Nrf.rxData b (p.write 0 r.pdu.bytes) r.pdu.length d = .ok (c, d') ∧ Fed (fs ++ [f]) d' := by
  have hhead := get_write_pdu p r.pdu
  obtain ⟨hd, rfu, hb, hn, hlid⟩ := frag?_eq_some hf
  have hhd : r.pdu.head = hd := by rw [Pdu.head, hb]; rfl
  have hlid' : lid ((p.write 0 r.pdu.bytes).get 0) = lidDataFrag ∨ lid ((p.write 0 r.pdu.bytes).get 0) = lidDataEnd := by
    rw [hhead, hhd]
    exact hlid.elim (fun h => Or.inr h.2) fun h => Or.inl h.2
  -- the same packet in a slot with counters that mean something
  obtain ⟨d₀, hinv₀, hrun₀, hsame⟩ : ∃ d₀, RxInv d₀ ∧ run (fs.map .frag) ⟨none, 0, []⟩ = ([], d₀.rcv) ∧
      Nrf.rxData b (p.write 0 r.pdu.bytes) r.pdu.length d = Nrf.rxData b (p.write 0 r.pdu.bytes) r.pdu.length d₀ := by
    cases fs with
    | nil =>
        have hl : d.lenRx = 0 := h
        refine ⟨{ d with offsetRx := 0, seqnumberRx := 0 }, .of_zero hl rfl rfl, ?_, ?_⟩
        · simp [run, Nrf24Data.rcv, hl]
        · exact Nrf.rxData_first hl (by rw [hhead, hhd, hn]; exact hfirst rfl)
    | cons g gs => exact ⟨d, h.1, h.2, rfl⟩
  obtain ⟨c, d', hrx, hrcv⟩ := Nrf.rxData_recv (b := b) (p := p) hinv₀ r.pdu.le_mtu hf hs
  refine ⟨c, d', hsame.trans hrx, ?_⟩
  have hinv' : RxInv d' := Nrf.rxData_inv r.pdu.le_mtu r.pdu.pos hlid' hinv₀ hrx
  have hrun' : run ((fs ++ [f]).map .frag) ⟨none, 0, []⟩ = ([], d'.rcv) := by
    rw [List.map_append, run_append, hrun₀, hrcv]
    rfl
  cases fs with
  | nil => exact ⟨hinv', hrun'⟩
  | cons g gs => exact ⟨hinv', hrun'⟩

theorem frag?_of_control {r : Rx} (h : lid r.pdu.head = lidControl) : frag? r.pdu.bytes = none := by
  obtain ⟨x, xs, hx⟩ := List.exists_cons_of_length_pos r.pdu.pos
  have hhead : r.pdu.head = x := by rw [Pdu.head, hx]; rfl
  rw [hhead] at h
  refine frag?_eq_none (by rw [hx]; rfl) ?_ ?_ <;> rw [h] <;> decide

theorem readRawStep_fed {i : Fin b.connections} {r : Rx} {q : Payload × Nrf b} {fs : List (Frag UInt8)}
    (hd : q.2.driverIndex = 0) (h : Fed fs (q.2.peers i))
    (hr : lid r.pdu.head = lidControl ∨ ∃ f, frag? r.pdu.bytes = some f)
    (hs : ∀ f ∈ frag? r.pdu.bytes, Sound f ∧ (fs = [] → f.seq = 0)) :
    ∃ c q', Nrf.readRawStep i r q = .ok (c, q') ∧ q'.2.driverIndex = 0 ∧
      Fed (fs ++ (frag? r.pdu.bytes).toList) (q'.2.peers i) := by
  obtain ⟨p, s⟩ := q
  have hhead := get_write_pdu p r.pdu
  have h₁ : Fed fs ((Nrf.received i r s).peers i) :=
    h.of_keeps (by constructor <;> simp [Nrf.received])
  rcases hr with hc | ⟨f, hf⟩
  · obtain ⟨s', hs'⟩ := rxControl_ok (i := i) (s := Nrf.received i r s) (q := p.write 0 r.pdu.bytes) (r := r) hd
    refine ⟨none, _, Nrf.readRawStep_control hd (by rw [hhead]; exact hc) hs', ?_, ?_⟩
    · exact (Nrf.Frame.rxControl hs').driverIndex.trans hd
    · rw [frag?_of_control hc, Option.toList_none, List.append_nil]
      exact h₁.of_keeps (Nrf.rxControl_keeps hs').1
  · obtain ⟨hsound, hfirst⟩ := hs f hf
    obtain ⟨c, d, hrx, hfed⟩ := rxData_fed (b := b) (p := p) h₁ hf hsound hfirst
    obtain ⟨x, rfu, hb, -, hlid⟩ := frag?_eq_some hf
    have hl : lid ((p.write 0 r.pdu.bytes).get 0) = lidDataFrag ∨ lid ((p.write 0 r.pdu.bytes).get 0) = lidDataEnd := by
      rw [hhead, Pdu.head, hb]
      exact hlid.elim (fun h => Or.inr h.2) fun h => Or.inl h.2
    refine ⟨c, (_, (Nrf.received i r s).setPeer i d), by rw [Nrf.readRawStep_data hd hl, hrx]; rfl, hd, ?_⟩
    rw [hf, Nrf.setPeer_self]
    exact hfed

/-! ## Any schedule -/

def rxFrags (rx : List Rx) : List (Frag UInt8) := rx.filterMap fun r => frag? r.pdu.bytes

/-- What follows a part of a message: sound fragments, the first of all numbered 0. -/
def Follows (fs gs : List (Frag UInt8)) : Prop :=
  (∀ g ∈ gs, Sound g) ∧ ∀ g ∈ (fs ++ gs).head?, g.seq = 0

theorem Follows.append {fs gs hs : List (Frag UInt8)} (h : Follows fs (gs ++ hs)) : Follows (fs ++ gs) hs :=
  ⟨fun g hg => h.1 g (List.mem_append_right gs hg), by rw [List.append_assoc]; exact h.2⟩

theorem Follows.left {fs gs hs : List (Frag UInt8)} (h : Follows fs (gs ++ hs)) : Follows fs gs := by
  refine ⟨fun g hg => h.1 g (List.mem_append_left hs hg), fun g hg => h.2 g ?_⟩
  rw [← List.append_assoc, List.head?_append, hg]
  rfl

theorem exec_fed {i : Fin b.connections} {rx : List Rx} {q : Payload × Nrf b} {fs : List (Frag UInt8)}
    (hd : q.2.driverIndex = 0) (h : Fed fs (q.2.peers i))
    (hrx : ∀ r ∈ rx, lid r.pdu.head = lidControl ∨ ∃ f, frag? r.pdu.bytes = some f) (hfol : Follows fs (rxFrags rx)) :
    ∃ cs q', exec (Nrf.readRawStep i) rx q = .ok (cs, q') ∧ Fed (fs ++ rxFrags rx) (q'.2.peers i) := by
  induction rx generalizing q fs with
  | nil => exact ⟨[], q, rfl, by simpa [rxFrags] using h⟩
  | cons r rx ih =>
      have hcons : rxFrags (r :: rx) = (frag? r.pdu.bytes).toList ++ rxFrags rx := by
        cases hf : frag? r.pdu.bytes <;> simp [rxFrags, hf]
      rw [hcons] at hfol
      obtain ⟨c, q₁, hstep, hd₁, h₁⟩ := readRawStep_fed hd h (hrx r List.mem_cons_self) fun f hf => by
        have hleft := hfol.left
        rw [hf] at hleft
        exact ⟨hleft.1 f (by simp), fun hfs => hleft.2 f (by simp [hfs])⟩
      obtain ⟨cs, q', hrun, h'⟩ := ih hd₁ h₁ (fun x hx => hrx x (List.mem_cons_of_mem r hx)) hfol.append
      refine ⟨c :: cs, q', exec_cons_ok.mpr ⟨c, q₁, cs, hstep, hrun, rfl⟩, ?_⟩
      rwa [hcons, ← List.append_assoc]

theorem readRaw_fed {i : Fin b.connections} {e : Env} {s : Nrf b} {fs : List (Frag UInt8)} (hd : s.driverIndex = 0)
    (h : Fed fs (s.peers i)) (hrx : ∀ r ∈ e.rx, lid r.pdu.head = lidControl ∨ ∃ f, frag? r.pdu.bytes = some f)
    (hfol : Follows fs (rxFrags e.rx)) :
    ∃ cs s', s.readRaw e i = .ok (cs, s') ∧ Fed (fs ++ rxFrags e.rx) (s'.peers i) := by
  obtain ⟨cs, ⟨p', s'⟩, hrun, h'⟩ := exec_fed (q := (e.rxFrame.write 0 [0], s)) hd h hrx hfol
  exact ⟨cs, s', Nrf.readRaw_eq_ok.mpr ⟨hd, p', hrun⟩, h'⟩

theorem readRaw_whole {i : Fin b.connections} {e : Env} {s : Nrf b} (hd : s.driverIndex = 0) (h : RxInv (s.peers i))
    (hrx : ∀ r ∈ e.rx, dataHdrSize ≤ r.pdu.length) :
    ∃ cs s', s.readRaw e i = .ok (cs, s') ∧ RxInv (s'.peers i) := by
  have hready : Ready i (e.rxFrame.write 0 [0], s) := ⟨hd, h⟩
  have hrun : ∃ cs q', exec (Nrf.readRawStep i) e.rx (e.rxFrame.write 0 [0], s) = .ok (cs, q') ∧
      CopiesWithin e.rx cs ∧ Ready i q' :=
    (exec_ok_iff (fun r _ hq hno => readRawStep_ok (r := r) hq hno)
      (fun r _ hq hrunt => readRawStep_runt (r := r) hq hrunt) hready).mpr (along_of_forall (fun r hr q hrunt => by
        have h1 := hrx r hr
        rw [hrunt.1] at h1
        exact absurd h1 (by decide)) _)
  obtain ⟨cs, ⟨p', s'⟩, hrun, -, -, hinv⟩ := hrun
  exact ⟨cs, s', Nrf.readRaw_eq_ok.mpr ⟨hd, p', hrun⟩, hinv⟩

def readSlot (c : Fin b.connections × Env) (s : Nrf b) : Except Fault (List (Option Nrf.Copy) × Nrf b) :=
  s.readRaw c.2 c.1

def arrivals (i : Fin b.connections) (calls : List (Fin b.connections × Env)) : List Rx :=
  calls.flatMap fun c => if c.1 = i then c.2.rx else []

/-- The packets that reach the other slots in the course of `calls`. -/
def others (i : Fin b.connections) (calls : List (Fin b.connections × Env)) : List Rx :=
  calls.flatMap fun c => if c.1 = i then [] else c.2.rx

theorem readSlots_fed {i : Fin b.connections} {calls : List (Fin b.connections × Env)} {s : Nrf b}
    {fs : List (Frag UInt8)} (hd : s.driverIndex = 0) (h : Fed fs (s.peers i)) (hinv : ∀ j, j ≠ i → RxInv (s.peers j))
    (hrx : ∀ r ∈ arrivals i calls, lid r.pdu.head = lidControl ∨ ∃ f, frag? r.pdu.bytes = some f)
    (hfol : Follows fs (rxFrags (arrivals i calls))) (hothers : ∀ r ∈ others i calls, dataHdrSize ≤ r.pdu.length) :
    ∃ cs s', exec readSlot calls s = .ok (cs, s') ∧ Fed (fs ++ rxFrags (arrivals i calls)) (s'.peers i) := by
  induction calls generalizing s fs with
  | nil => exact ⟨[], s, rfl, by simpa [arrivals, rxFrags] using h⟩
  | cons c calls ih =>
      obtain ⟨j, e⟩ := c
      by_cases hj : j = i
      · subst hj
        have harr : arrivals j ((j, e) :: calls) = e.rx ++ arrivals j calls := by simp [arrivals]
        have hoth : others j ((j, e) :: calls) = others j calls := by simp [others]
        have hfrag : rxFrags (e.rx ++ arrivals j calls) = rxFrags e.rx ++ rxFrags (arrivals j calls) :=
          List.filterMap_append
        rw [harr] at hrx hfol ⊢
        rw [hoth] at hothers
        rw [hfrag] at hfol ⊢
        obtain ⟨cs, s₁, hread, h₁⟩ := readRaw_fed hd h (fun r hr => hrx r (List.mem_append_left _ hr)) hfol.left
        have hframe := Nrf.Frame.readRaw hread
        obtain ⟨css, s', hrun, h'⟩ := ih (hframe.driverIndex.trans hd) h₁
          (fun k hk => by rw [hframe.peers k hk]; exact hinv k hk) (fun r hr => hrx r (List.mem_append_right _ hr))
          hfol.append hothers
        exact ⟨cs :: css, s', exec_cons_ok.mpr ⟨cs, s₁, css, hread, hrun, rfl⟩, by rwa [← List.append_assoc]⟩
      · have harr : arrivals i ((j, e) :: calls) = arrivals i calls := by simp [arrivals, hj]
        have hoth : others i ((j, e) :: calls) = e.rx ++ others i calls := by simp [others, hj]
        rw [harr] at hrx hfol ⊢
        rw [hoth] at hothers
        obtain ⟨cs, s₁, hread, h₁⟩ := readRaw_whole hd (hinv j hj) fun r hr => hothers r (List.mem_append_left _ hr)
        have hframe := Nrf.Frame.readRaw hread
        have hk : ∀ k, k ≠ i → RxInv (s₁.peers k) := fun k hk => by
          by_cases hkj : k = j
          · rw [hkj]; exact h₁
          · rw [hframe.peers k hkj]; exact hinv k hk
        obtain ⟨css, s', hrun, h'⟩ := ih (hframe.driverIndex.trans hd)
          (by rw [hframe.peers i (Ne.symm hj)]; exact h) hk hrx hfol fun r hr => hothers r (List.mem_append_right _ hr)
        exact ⟨cs :: css, s', exec_cons_ok.mpr ⟨cs, s₁, css, hread, hrun, rfl⟩, h'⟩

end KnotHal.Nrf24
