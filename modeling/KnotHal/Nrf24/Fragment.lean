import KnotHal.Lib.Reassembly
import KnotHal.Nrf24.Raw

/-!
# Fragments in packets

A data packet carries a `Reassembly.Frag`: number, end mark and body. `write_raw` sends the fragments of
`buffer_tx` until one fails, and `read_raw` does with a fragment what the receiver `Rcv` does, as long as
the fragments fit a message of 128 bytes.

* `frag?_fragBytes` : a fragment comes out of the packet it was put into;
* `writeRawLoop_eq`, `writeRaw_eq` : what `write_raw` sends;
* `RxInv` : what holds of the receiving side of a slot, whatever arrives (`rxData_inv`);
* `rxData_recv` : the data case of `read_raw` refines `Rcv.recv`.
-/

namespace KnotHal.Nrf24

open Reassembly

/-! ## Encoding -/

/-- The packet that carries a fragment; the second header byte is left as it was. -/
def fragBytes (rfu : UInt8) (f : Frag UInt8) : List UInt8 :=
  dataHdr (if f.last then lidDataEnd else lidDataFrag) f.seq :: rfu :: f.body

/-- The fragment in a packet of the data channel, if it is a data packet with its whole header. -/
def frag? : List UInt8 → Option (Frag UInt8)
  | h :: _ :: body =>
      if lid h = lidDataFrag ∨ lid h = lidDataEnd then some ⟨nseq h, decide (lid h = lidDataEnd), body⟩ else none
  | _ => none

theorem frag?_fragBytes (rfu : UInt8) {f : Frag UInt8} (h : f.seq < 64) : frag? (fragBytes rfu f) = some f := by
  obtain ⟨seq, last, body⟩ := f
  have hseq : seq % 64 = seq := Nat.mod_eq_of_lt h
  cases last <;>
    simp [frag?, fragBytes, lid_dataHdr, nseq_dataHdr, hseq, lidDataEnd, lidDataFrag]

theorem frag?_eq_some {l : List UInt8} {f : Frag UInt8} (h : frag? l = some f) :
    ∃ h rfu, l = h :: rfu :: f.body ∧ nseq h = f.seq ∧
      ((f.last = true ∧ lid h = lidDataEnd) ∨ (f.last = false ∧ lid h = lidDataFrag)) := by
  unfold frag? at h
  split at h
  · rename_i hd rfu body
    split at h
    · rename_i hl
      obtain rfl := Option.some.inj h
      refine ⟨hd, rfu, rfl, rfl, ?_⟩
      rcases hl with hl | hl
      · exact Or.inr ⟨by simp [hl, lidDataEnd, lidDataFrag], hl⟩
      · exact Or.inl ⟨by simp [hl], hl⟩
    · cases h
  · cases h

theorem frag?_eq_none {l : List UInt8} {h : UInt8} (hl : l.head? = some h) (hd : lid h ≠ lidDataFrag)
    (he : lid h ≠ lidDataEnd) : frag? l = none := by
  unfold frag?
  split
  · rename_i x y ys
    obtain rfl : x = h := by simpa using hl
    rw [if_neg (by simp [hd, he])]
  · rfl

theorem frag?_control (frame : Payload) (op : UInt8) (dst src : Mac) :
    frag? ((controlPdu frame op dst src).read 0 controlLen) = none := by
  have hlid := controlPdu_lid frame op dst src
  refine frag?_eq_none (Buf.head?_read _ (by decide) (by decide)) ?_ ?_ <;> rw [hlid] <;> decide

/-! ## Sending -/

/-- What is tried, one after the other, until one fails. -/
def attempts {α : Type} (out : Nat → Outcome) : Nat → List α → List (α × Outcome)
  | _, [] => []
  | k, x :: xs => (x, out k) :: if (out k).ok then attempts out (k + 1) xs else []

def writes (n : Nat) (rfu : UInt8) (l : List (Frag UInt8 × Outcome)) : List DriverOp :=
  l.map fun fo => .write n (fragBytes rfu fo.1) fo.2

namespace Nrf

variable {b : Build} {i : Fin b.connections} {s s' : Nrf b}

/-- The slot `i` done with its message, and `ops` performed. -/
def sent (i : Fin b.connections) (ops : List DriverOp) (s : Nrf b) : Nrf b :=
  { s.setPeer i { s.peers i with lenTx := 0, seqnumberTx := 0 } with log := s.log ++ ops }

theorem writeRawLoop_round (e : Env) (hd : s.driverIndex = 0) {left : Nat} (k : Nat) (h0 : 0 < left)
    {s₁ : Nrf b} (hs₁ : s₁ = { s with log := s.log ++ [.write (i + 1)
      (dataHdr (if pwMsgSize < left then lidDataFrag else lidDataEnd) (s.peers i).seqnumberTx ::
        (e.frame (.frag 0)).get 1 :: (s.peers i).bufferTx.read ((s.peers i).lenTx - left) (min left pwMsgSize))
      (e.outcome (.frag k))] }) :
    s.writeRawLoop e i left k =
      if (e.outcome (.frag k)).ok then
        (s₁.setPeer i { s.peers i with seqnumberTx := ((s.peers i).seqnumberTx + 1) % 256 }).writeRawLoop e i
          (left - min left pwMsgSize) (k + 1)
      else .ok (-1, s₁.setPeer i { s.peers i with lenTx := 0, seqnumberTx := 0 }) := by
  rw [writeRawLoop]
  dsimp only
  rw [dif_neg (by omega), phy_ok hd, hs₁]
  rfl

/-- From fragment number `seqnumber_tx` on, the rest of the message is sent until an attempt fails. -/
theorem writeRawLoop_eq (e : Env) (hd : s.driverIndex = 0) {left k : Nat} {rest : List UInt8} (h0 : 0 < left)
    (hlen : (s.peers i).lenTx ≤ dataSize) (hleft : 30 * (s.peers i).seqnumberTx + left = (s.peers i).lenTx)
    (hrest : (s.peers i).bufferTx.read ((s.peers i).lenTx - left) left = rest) :
    ∃ n, s.writeRawLoop e i left k = .ok (n, s.sent i (writes (i + 1) ((e.frame (.frag 0)).get 1)
      (attempts (fun k => e.outcome (.frag k)) k (fragsFrom pwMsgSize (s.peers i).seqnumberTx rest)))) := by
  have hpw : pwMsgSize = 30 := rfl
  have hds : dataSize = 128 := rfl
  induction left using Nat.strongRecOn generalizing s k rest with
  | ind left ih =>
      have hlrest : rest.length = left := by
        rw [← hrest]
        exact Buf.length_read _ (by omega)
      by_cases hlast : left ≤ pwMsgSize
      · -- the final fragment
        rw [writeRawLoop_round e hd k h0 rfl, fragsFrom_single (by omega), Nat.min_eq_left hlast,
          if_neg (show ¬pwMsgSize < left by omega), hrest]
        by_cases hok : (e.outcome (.frag k)).ok
        · rw [if_pos hok, Nat.sub_self, writeRawLoop, dif_pos rfl]
          refine ⟨(s.peers i).lenTx, ?_⟩
          rw [setPeer_setPeer, setPeer_self]
          simp [sent, writes, attempts, fragBytes, setPeer]
        · rw [if_neg hok]
          exact ⟨-1, by simp [sent, writes, attempts, fragBytes, setPeer]⟩
      · have hbody : (s.peers i).bufferTx.read ((s.peers i).lenTx - left) pwMsgSize = rest.take pwMsgSize := by
          rw [← hrest, Buf.read, Buf.read, List.take_take, Nat.min_eq_left (by omega)]
        rw [writeRawLoop_round e hd k h0 rfl, fragsFrom_cons (by omega) (by omega), Nat.min_eq_right (by omega),
          if_pos (show pwMsgSize < left by omega), hbody]
        by_cases hok : (e.outcome (.frag k)).ok
        · -- the rest goes on from the next number
          have hseq : ((s.peers i).seqnumberTx + 1) % 256 = (s.peers i).seqnumberTx + 1 := by omega
          rw [if_pos hok, hseq]
          generalize hs₁ : Nrf.setPeer _ i { s.peers i with seqnumberTx := (s.peers i).seqnumberTx + 1 } = s₁
          have hp₁ : s₁.peers i = { s.peers i with seqnumberTx := (s.peers i).seqnumberTx + 1 } := by
            rw [← hs₁, setPeer_self]
          have hrest₁ : (s₁.peers i).bufferTx.read ((s₁.peers i).lenTx - (left - pwMsgSize)) (left - pwMsgSize) =
              rest.drop pwMsgSize := by
            rw [hp₁, ← hrest]
            simp only [Buf.read, List.drop_take, List.drop_drop]
            congr 2
            omega
          obtain ⟨n, hn⟩ := ih (left - pwMsgSize) (by omega) (s := s₁) (k := k + 1) (by rw [← hs₁]; exact hd)
            (by omega) (by rw [hp₁]; exact hlen) (by rw [hp₁]; dsimp only; omega) hrest₁
          refine ⟨n, hn.trans ?_⟩
          rw [sent, hp₁, ← hs₁]
          simp [sent, writes, attempts, hok, fragBytes, setPeer]
        · rw [if_neg hok]
          exact ⟨-1, by simp [sent, writes, attempts, hok, fragBytes, setPeer]⟩

/-- What `write_raw` does with a message: its fragments go out until an attempt fails. -/
theorem writeRaw_eq (e : Env) (hd : s.driverIndex = 0) (h0 : (s.peers i).lenTx ≠ 0)
    (hlen : (s.peers i).lenTx ≤ dataSize) (hseq : (s.peers i).seqnumberTx = 0) :
    ∃ n, s.writeRaw e i = .ok (n, s.sent i (writes (i + 1) ((e.frame (.frag 0)).get 1)
      (attempts (fun k => e.outcome (.frag k)) 0
        (frags pwMsgSize ((s.peers i).bufferTx.read 0 (s.peers i).lenTx))))) := by
  rw [writeRaw, if_neg h0, if_neg (by omega)]
  have h := writeRawLoop_eq e hd (k := 0) (Nat.pos_of_ne_zero h0) hlen (by omega) rfl
  rwa [Nat.sub_self, hseq] at h

end Nrf

/-! ## Receiving -/

/-- What holds of the receiving side of a slot: the offset counts full fragments up to the end of the
buffer, and a message waits only when the counters have been put back. -/
structure RxInv (d : Nrf24Data) : Prop where
  offset : d.offsetRx = min (pwMsgSize * d.seqnumberRx) dataSize
  seq : d.seqnumberRx ≤ 64
  len : d.lenRx ≤ dataSize
  clean : d.lenRx ≠ 0 → d.seqnumberRx = 0

theorem RxInv.offset_le {d : Nrf24Data} (h : RxInv d) : d.offsetRx ≤ dataSize := by
  rw [h.offset]; exact Nat.min_le_right _ _

theorem RxInv.of_keeps {d d' : Nrf24Data} (h : RxInv d) (hk : d.KeepsRx d') : RxInv d' where
  offset := by rw [hk.offsetRx, hk.seqnumberRx]; exact h.offset
  seq := by rw [hk.seqnumberRx]; exact h.seq
  len := by rw [hk.lenRx]; exact h.len
  clean := by rw [hk.lenRx, hk.seqnumberRx]; exact h.clean

theorem RxInv.of_zero {d : Nrf24Data} (hl : d.lenRx = 0) (hs : d.seqnumberRx = 0) (ho : d.offsetRx = 0) : RxInv d where
  offset := by rw [ho, hs]; rfl
  seq := by omega
  len := by omega
  clean := fun _ => hs

/-- The receiving side of a slot as a receiver of fragments. -/
def Nrf24Data.rcv (d : Nrf24Data) : Rcv UInt8 where
  ready := if d.lenRx = 0 then none else some (d.bufferRx.read 0 d.lenRx)
  next := d.seqnumberRx
  acc := d.bufferRx.read 0 d.offsetRx

theorem Nrf24Data.KeepsRx.rcv {d d' : Nrf24Data} (h : d.KeepsRx d') : d'.rcv = d.rcv := by
  rw [Nrf24Data.rcv, Nrf24Data.rcv, h.bufferRx, h.lenRx, h.seqnumberRx, h.offsetRx]

theorem RxInv.clean_rcv {d : Nrf24Data} (h : RxInv d) : d.rcv.Clean := by
  intro hr
  apply h.clean
  intro h0
  simp [Nrf24Data.rcv, h0] at hr

/-- A fragment of a message that fits: full where it is not the final one, and inside 128 bytes at its
place. -/
structure Sound (f : Frag UInt8) : Prop where
  full : f.last = false → f.body.length = pwMsgSize
  pos : 0 < f.body.length
  le : pwMsgSize * f.seq + f.body.length ≤ dataSize

theorem sound_of_mem_fragsFrom {k : Nat} {msg : List UInt8} {f : Frag UInt8} (h0 : 0 < msg.length)
    (h : f ∈ fragsFrom pwMsgSize k msg) (hle : pwMsgSize * k + msg.length ≤ dataSize) : Sound f := by
  have hpw : pwMsgSize = 30 := rfl
  induction k, msg using fragsFrom.induct pwMsgSize with
  | case1 k msg hc ih =>
      rw [fragsFrom_cons hc.1 hc.2, List.mem_cons] at h
      rcases h with rfl | h
      · have hlen : (msg.take pwMsgSize).length = pwMsgSize := by simp; omega
        exact ⟨fun _ => hlen, by dsimp only; omega, by dsimp only; rw [hlen]; omega⟩
      · have hlen : (msg.drop pwMsgSize).length = msg.length - pwMsgSize := by simp
        exact ih (by omega) h (by rw [hpw] at *; omega)
  | case2 k msg hc =>
      rw [fragsFrom_single (by omega), List.mem_singleton] at h
      subst h
      exact ⟨by simp, h0, hle⟩

theorem sound_of_mem_frags {msg : List UInt8} {f : Frag UInt8} (h0 : 0 < msg.length) (hle : msg.length ≤ dataSize)
    (h : f ∈ frags pwMsgSize msg) : Sound f :=
  sound_of_mem_fragsFrom h0 h (by omega)

theorem Sound.seq_lt {f : Frag UInt8} (h : Sound f) : f.seq < 5 := by
  have h₁ := h.le
  have h₂ := h.pos
  simp only [pwMsgSize, mtu, dataHdrSize, dataSize] at h₁
  omega

namespace Nrf

variable {b : Build} {p : Payload} {d d' : Nrf24Data} {ilen : Nat} {c : Option Copy}

theorem sizeSub_eq (b : Build) {x y : Nat} (h : y ≤ x) (hx : x < 2 ^ 16) : sizeSub b x y = x - y := by
  have hpow := Nat.pow_le_pow_right (show 0 < 2 by decide) b.sizeBits_ge
  rw [sizeSub, show x + 2 ^ b.sizeBits - y = x - y + 2 ^ b.sizeBits by omega, Nat.add_mod_right,
    Nat.mod_eq_of_lt (by omega)]

theorem sizeAdd_eq (b : Build) {x y : Nat} (h : x + y < 2 ^ 16) : sizeAdd b x y = x + y := by
  have hpow := Nat.pow_le_pow_right (show 0 < 2 by decide) b.sizeBits_ge
  rw [sizeAdd, Nat.mod_eq_of_lt (by omega)]

theorem not_short {l : List UInt8} {f : Frag UInt8} {c : UInt8} (hs : Sound f) (b : Build) (hl : l.length ≤ mtu)
    (hlen : l.length = dataHdrSize + f.body.length)
    (hlid : (f.last = true ∧ lid c = lidDataEnd) ∨ (f.last = false ∧ lid c = lidDataFrag)) :
    ¬ (lid c = lidDataFrag ∧ sizeSub b l.length dataHdrSize < pwMsgSize) := by
  rintro ⟨hfrag, hshort⟩
  rw [sizeSub_eq b (by omega) (by simp only [mtu] at hl; omega)] at hshort
  obtain ⟨-, hend⟩ | ⟨hlast, -⟩ := hlid
  · rw [hend] at hfrag
    cases hfrag
  · have hbody := hs.full hlast
    omega

/-- When a data packet leads to a copy. -/
theorem dataCopy_iff {c : Copy} :
    dataCopy b p ilen d = some c ↔ d.lenRx = 0 ∧ d.seqnumberRx = nseq (p.get 0) ∧
      ¬ (lid (p.get 0) = lidDataFrag ∧ sizeSub b ilen dataHdrSize < pwMsgSize) ∧
      c = ⟨d.offsetRx, if dataSize < sizeAdd b d.offsetRx (sizeSub b ilen dataHdrSize)
        then sizeSub b dataSize d.offsetRx else sizeSub b ilen dataHdrSize⟩ := by
  unfold dataCopy
  dsimp only
  constructor
  · intro h
    split at h
    · cases h
    · split at h
      · cases h
      · split at h
        · cases h
        · split at h
          · cases h
          · rename_i hfull
            exact ⟨by omega, by omega, hfull, (Option.some.inj h).symm⟩
  · rintro ⟨hl, hn, hfull, rfl⟩
    rw [if_neg (by omega), if_neg (by omega), if_neg (by omega), if_neg hfull]

/-- A packet with its header leads to a copy of its body, cut at the end of the buffer. -/
theorem dataCopy_eq_some {c : Copy} (h2 : dataHdrSize ≤ ilen) (hm : ilen ≤ mtu) (ho : d.offsetRx ≤ dataSize)
    (h : dataCopy b p ilen d = some c) :
    d.lenRx = 0 ∧ d.seqnumberRx = nseq (p.get 0) ∧ (lid (p.get 0) = lidDataFrag → ilen = mtu) ∧
      c = ⟨d.offsetRx, min (ilen - dataHdrSize) (dataSize - d.offsetRx)⟩ := by
  have hds : dataSize = 128 := rfl
  have hmtu : mtu = 32 := rfl
  have hhdr : dataHdrSize = 2 := rfl
  have hpw : pwMsgSize = 30 := rfl
  obtain ⟨hl, hn, hfull, rfl⟩ := dataCopy_iff.mp h
  rw [sizeSub_eq b h2 (by omega)] at hfull ⊢
  rw [sizeAdd_eq b (by omega), sizeSub_eq b ho (by omega)]
  refine ⟨hl, hn, fun hlid => ?_, ?_⟩
  · by_contra hne
    exact hfull ⟨hlid, by omega⟩
  · split
    · rw [Nat.min_eq_right (by omega)]
    · rw [Nat.min_eq_left (by omega)]

theorem dataCopy_within {c : Copy} (h2 : dataHdrSize ≤ ilen) (hm : ilen ≤ mtu) (ho : d.offsetRx ≤ dataSize)
    (h : dataCopy b p ilen d = some c) : c.Within ilen := by
  obtain ⟨-, -, -, rfl⟩ := dataCopy_eq_some h2 hm ho h
  constructor <;> dsimp only <;> omega

theorem Copy.Within.mono {c : Copy} {m n : Nat} (h : c.Within m) (hmn : m ≤ n) : c.Within n := ⟨h.1, h.2.trans hmn⟩

theorem sizeSub_one (b : Build) : sizeSub b 1 dataHdrSize = 2 ^ b.sizeBits - 1 := by
  have hpow := Nat.pow_le_pow_right (show 0 < 2 by decide) b.sizeBits_ge
  rw [sizeSub, show 1 + 2 ^ b.sizeBits - dataHdrSize = 2 ^ b.sizeBits - 1 by simp only [dataHdrSize]; omega,
    Nat.mod_eq_of_lt (by omega)]

/-- A packet without its second header byte: the length wraps, and a copy is always out of bounds. -/
theorem dataCopy_runt {c : Copy} (h : dataCopy b p 1 d = some c) : ¬ c.Within mtu := by
  have hpow := Nat.pow_le_pow_right (show 0 < 2 by decide) b.sizeBits_ge
  have hwrap := sizeSub_one b
  obtain ⟨-, -, -, rfl⟩ := dataCopy_iff.mp h
  rintro ⟨h₁, h₂⟩
  have hds : dataSize = 128 := rfl
  have hmtu : mtu = 32 := rfl
  have hhdr : dataHdrSize = 2 := rfl
  dsimp only at h₁ h₂
  rw [hwrap] at h₁ h₂
  split at h₂
  · rename_i hclamp
    rw [if_pos hclamp] at h₁
    have h0 : d.offsetRx ≠ 0 := by
      intro h0
      rw [sizeSub_eq b (by omega) (by omega)] at h₂
      omega
    rw [sizeAdd, show d.offsetRx + (2 ^ b.sizeBits - 1) = d.offsetRx - 1 + 2 ^ b.sizeBits by omega,
      Nat.add_mod_right, Nat.mod_eq_of_lt (by omega)] at hclamp
    omega
  · omega

/-! ## One data packet -/

theorem restart_eq (p : Payload) (d : Nrf24Data) :
    restart p d = { d with
      keepalive := if d.keepalive ≠ 0 then 1 else d.keepalive
      offsetRx := if d.lenRx = 0 ∧ nseq (p.get 0) = 0 then 0 else d.offsetRx
      seqnumberRx := if d.lenRx = 0 ∧ nseq (p.get 0) = 0 then 0 else d.seqnumberRx } := by
  unfold restart
  by_cases hk : d.keepalive ≠ 0 <;> by_cases hr : d.lenRx = 0 ∧ nseq (p.get 0) = 0
  · simp only [if_pos hk, if_pos hr]
  · simp only [if_pos hk, if_neg hr]
  · simp only [if_neg hk, if_pos hr]
  · simp only [if_neg hk, if_neg hr]

theorem restart_inv (h : RxInv d) : RxInv (restart p d) := by
  rw [restart_eq]
  constructor <;> dsimp only
  · split
    · rfl
    · exact h.offset
  · split
    · omega
    · exact h.seq
  · exact h.len
  · intro hl
    split
    · rfl
    · exact h.clean hl

/-- Whatever arrives, as long as the copy is in bounds, the invariant stays. -/
theorem rxData_inv (hm : ilen ≤ mtu) (h0 : 0 < ilen) (hlid : lid (p.get 0) = lidDataFrag ∨ lid (p.get 0) = lidDataEnd)
    (hinv : RxInv d) (h : rxData b p ilen d = .ok (c, d')) :
    RxInv d' := by
  have hds : dataSize = 128 := rfl
  have hpw : pwMsgSize = 30 := rfl
  have hmtu : mtu = 32 := rfl
  have hhdr : dataHdrSize = 2 := rfl
  have hre := restart_inv (p := p) hinv
  obtain ⟨-, -, rfl⟩ | ⟨c₁, hc₁, hwithin, -, rfl⟩ := rxData_cases h
  · exact hre
  · generalize restart p d = d₁ at hc₁ hre
    have h2 : dataHdrSize ≤ ilen := by
      by_contra hlt
      obtain rfl : ilen = 1 := by omega
      exact dataCopy_runt hc₁ hwithin
    obtain ⟨hl, hn, hfull, rfl⟩ := dataCopy_eq_some h2 hm hre.offset_le hc₁
    have ho := hre.offset
    have hns := nseq_lt (p.get 0)
    unfold store
    dsimp only
    split
    · constructor <;> dsimp only <;> omega
    · rename_i hend
      have hlen := hfull (hlid.resolve_right hend)
      rw [hpw] at ho
      constructor <;> dsimp only
      · rw [hpw]; omega
      · omega
      · omega
      · exact fun hne => absurd hl hne

/-- What the stack buffer holds after a packet with a fragment. -/
theorem written_frag (p : Payload) {l : List UInt8} {f : Frag UInt8} (hl : l.length ≤ mtu) (h : frag? l = some f) :
    nseq ((p.write 0 l).get 0) = f.seq ∧ l.length = dataHdrSize + f.body.length ∧
      (p.write 0 l).read dataHdrSize f.body.length = f.body ∧
      ((f.last = true ∧ lid ((p.write 0 l).get 0) = lidDataEnd) ∨
        (f.last = false ∧ lid ((p.write 0 l).get 0) = lidDataFrag)) := by
  obtain ⟨hd, rfu, rfl, hn, hlid⟩ := frag?_eq_some h
  have hfit : 0 + (hd :: rfu :: f.body).length ≤ 32 := by simpa [mtu] using hl
  have hget : (p.write 0 (hd :: rfu :: f.body)).get (0 + 0) = hd := Buf.get_write_self p (by simp) hfit
  have hread := p.read_write_inside (k := dataHdrSize) hfit (le_of_eq (Nat.add_comm 2 f.body.length))
  rw [Nat.add_zero] at hget
  rw [hget]
  refine ⟨hn, by simp [dataHdrSize]; omega, ?_, hlid⟩
  rw [Nat.zero_add] at hread
  rw [hread]
  simp [dataHdrSize]

theorem store_rcv {p : Payload} {d : Nrf24Data} {f : Frag UInt8} (hl : d.lenRx = 0) (hs : d.seqnumberRx = f.seq)
    (hlt : f.seq < 255) (h0 : 0 < f.body.length) (hfit : d.offsetRx + f.body.length ≤ dataSize)
    (hbody : p.read dataHdrSize f.body.length = f.body)
    (hlid : (f.last = true ∧ lid (p.get 0) = lidDataEnd) ∨ (f.last = false ∧ lid (p.get 0) = lidDataFrag)) :
    (store p ⟨d.offsetRx, f.body.length⟩ d).rcv = d.rcv.add f := by
  have hacc := d.bufferRx.read_append_write hfit
  have hseq : (d.seqnumberRx + 1) % 256 = d.seqnumberRx + 1 := Nat.mod_eq_of_lt (by omega)
  unfold store
  dsimp only
  rw [hbody, hseq]
  rcases hlid with ⟨hlast, hlid⟩ | ⟨hlast, hlid⟩
  · rw [if_pos hlid]
    simp only [Nrf24Data.rcv, Rcv.add, hlast, if_true, hacc]
    rw [if_neg (by omega), Buf.read_zero_len]
  · rw [if_neg (by rw [hlid]; decide)]
    simp [Nrf24Data.rcv, Rcv.add, hlast, hacc, hl]

/-- The data case of `read_raw` does what the receiver of fragments does. -/
theorem rxData_recv {l : List UInt8} {f : Frag UInt8} (hinv : RxInv d) (hl : l.length ≤ mtu)
    (hf : frag? l = some f) (hs : Sound f) :
    ∃ c d', rxData b (p.write 0 l) l.length d = .ok (c, d') ∧ d'.rcv = d.rcv.recv f := by
  obtain ⟨hn, hlen, hbody, hlid⟩ := written_frag p hl hf
  have h5 := hs.seq_lt
  have hle := hs.le
  have hpw : pwMsgSize = 30 := rfl
  have hinv₁ := restart_inv (p := p.write 0 l) hinv
  have hre := restart_eq (p.write 0 l) d
  rw [hn] at hre
  generalize p.write 0 l = q at hn hbody hlid hinv₁ hre
  generalize hd₁ : restart q d = d₁ at hinv₁ hre
  have hsame : ¬ (d.lenRx = 0 ∧ f.seq = 0) → d₁.rcv = d.rcv := by
    intro hno
    rw [hre]
    simp only [if_neg hno]
    rfl
  have hfirst : d.lenRx = 0 → f.seq = 0 → d₁.rcv = ⟨none, 0, []⟩ := by
    intro hl0 hf0
    rw [hre]
    simp [Nrf24Data.rcv, hl0, hf0]
  have hlen₁ : d₁.lenRx = d.lenRx := by rw [hre]
  unfold rxData
  dsimp only
  rw [hd₁]
  cases hc : dataCopy b q l.length d₁ with
  | none =>
      refine ⟨none, d₁, rfl, ?_⟩
      by_cases hl0 : d.lenRx = 0
      · -- the number is not the one expected
        have hne : d₁.seqnumberRx ≠ f.seq := by
          intro heq
          have hsome := dataCopy_iff.mpr ⟨hlen₁.trans hl0, heq.trans hn.symm, not_short hs b hl hlen hlid, rfl⟩
          rw [hc] at hsome
          cases hsome
        have h0 : f.seq ≠ 0 := by
          intro hf0
          have := congrArg Rcv.next (hfirst hl0 hf0)
          exact hne (this.trans hf0.symm)
        rw [hsame (fun h => h0 h.2), recv_other _ (by omega)]
        intro heq
        exact hne ((congrArg Rcv.next (hsame fun h => h0 h.2)).trans heq.symm)
      · rw [hsame (fun h => hl0 h.1), recv_waiting]
        simp [Nrf24Data.rcv, hl0]
  | some c =>
      obtain ⟨hl0, hseq, -, rfl⟩ := dataCopy_eq_some (by omega) hl hinv₁.offset_le hc
      rw [hn] at hseq
      have hoff := hinv₁.offset
      rw [hseq, Nat.min_eq_left (by omega)] at hoff
      have hmin : min (l.length - dataHdrSize) (dataSize - d₁.offsetRx) = f.body.length := by omega
      rw [hmin]
      have hwithin : Copy.Within ⟨d₁.offsetRx, f.body.length⟩ mtu := ⟨by dsimp only; omega, by dsimp only; omega⟩
      refine ⟨_, _, if_pos hwithin, ?_⟩
      rw [store_rcv hl0 hseq (by omega) hs.pos (by omega) hbody hlid]
      have hnone : d.rcv.ready = none := by simp [Nrf24Data.rcv, ← hlen₁, hl0]
      by_cases h0 : f.seq = 0
      · rw [hfirst (hlen₁ ▸ hl0) h0, recv_first hnone h0]
      · have hrcv := hsame fun h => h0 h.2
        rw [recv_expected hnone (hseq.symm.trans (congrArg Rcv.next hrcv)) (by omega), hrcv]

end Nrf

end KnotHal.Nrf24
