import KnotHal.Radio.Inbox

/-!
# What is read

The queue of the radio over whole runs: what comes out of it and in which order, what a change of the channel does to
it, what its first letter does to the others, and what becomes of a letter when its pipe is closed.

* `reads_sublist` : the reads return what came in, in this order;
* `retuned_reads` : what came in on another channel is never read;
* `first_hides` : nothing is read past the first letter, however long nobody reads it;
* `fresh_throughout_iff` : when no letter is read by another thing than the one it was sent to.
-/

namespace KnotHal.Radio

open Machine Receiver

variable {high : List UInt8} {t : Inbox} {l : Letter} {rest : List Letter}

/-! ## In and out -/

/-- What a read returns, and from which pipe. -/
def Receiver.Output.mail : Output → Option (UInt8 × List UInt8)
  | .got p (x :: xs) => some (p, x :: xs)
  | .got _ [] | .ret _ | .none => .none

/-- What a read should return of a letter. -/
def Letter.mail (l : Letter) : UInt8 × List UInt8 := (UInt8.ofNat l.pipe.val, l.payload.bytes)

/-- The letters that a run brings, as they come in. -/
def Inbox.arrivals (is : List Receiver.Input) (t : Inbox) : List (UInt8 × List UInt8) :=
  offers Inbox.step (fun i t => ((t.heard i).map Letter.mail).toList) is t

/-- Reads have room for a whole payload. -/
def Roomy : Receiver.Input → Prop
  | .read _ len => payloadSize ≤ len.toNat
  | .call _ | .packet _ _ _ => True

/-- Each step of the inbox is one of a queue. -/
theorem mail_step (i : Receiver.Input) (t : Inbox) (hi : Roomy i) :
    ((t.step i).1.mail.toList ++ (t.step i).2.queue.list.map Letter.mail).Sublist
      (t.queue.list.map Letter.mail ++ ((t.heard i).map Letter.mail).toList) := by
  cases i with
  | call c =>
      show (((if c.tunes t.channel = t.channel then t.queue else .empty) : Queue Letter 3).list.map
        Letter.mail).Sublist _
      split
      · exact List.sublist_append_left _ _
      · exact List.nil_sublist _
  | read p len =>
      rw [show t.heard (.read p len) = .none from rfl]
      simp only [Inbox.step, Option.map_none, Option.toList_none, List.append_nil]
      cases hq : t.queue.list with
      | nil =>
          rw [Inbox.read_nil hq, hq]
          exact List.nil_sublist _
      | cons l rest =>
          by_cases hwants : Wants p l.pipe
          · by_cases hfit : l.payload.bytes.length ≤ payloadSize
            · by_cases hnil : l.payload.bytes = []
              · rw [Inbox.read_empty hq hwants hnil, hq]
                exact List.Sublist.refl _
              · have hall : l.payload.bytes.take len.toNat = l.payload.bytes :=
                  List.take_of_length_le (hfit.trans hi)
                have hpop : t.queue.pop.list = rest := congrArg List.tail hq
                obtain ⟨x, xs, hcons⟩ := List.exists_cons_of_ne_nil hnil
                rw [Inbox.read_some hq hwants hfit hnil, hall]
                simp only [hpop, hcons, Output.mail, List.map_cons, Letter.mail]
                exact List.Sublist.refl _
            · rw [Inbox.read_long hq hwants (Nat.lt_of_not_le hfit)]
              exact List.nil_sublist _
          · rw [Inbox.read_other hq hwants, hq]
            exact List.Sublist.refl _
  | packet channel addr payload =>
      unfold Inbox.step
      dsimp only
      cases hheard : t.heard (.packet channel addr payload) with
      | none => exact List.sublist_append_left _ _
      | some l =>
          have hpush := (Queue.push_sublist l t.queue).map Letter.mail
          rw [List.map_append] at hpush
          exact hpush

theorem mail_sublist {is : List Receiver.Input} (his : ∀ i ∈ is, Roomy i) (t : Inbox) :
    ((outputs Inbox.step is t).filterMap Output.mail ++ (final Inbox.step is t).queue.list.map Letter.mail).Sublist
      (t.queue.list.map Letter.mail ++ t.arrivals is) :=
  outputs_sublist Inbox.step Output.mail (fun t => t.queue.list.map Letter.mail)
    (fun i t => ((t.heard i).map Letter.mail).toList) mail_step his t

/-- The runs that the results are about: the pipes from 1 on share their high bytes, and reads have room. -/
def Sound (high : List UInt8) (i : Receiver.Input) : Prop := Proper high i ∧ Roomy i

/-- Whatever the chip held before `nrf24l01_init`, what the reads of a run return are packets that came in while the
radio listened, on its channel and to the address of the pipe, each one whole, at most once, and in this order. -/
theorem reads_sublist (c : Chip) (opened : Address) {is : List Receiver.Input} (his : ∀ i ∈ is, Sound high i)
    {os : List Output} {r : Receiver} (hrun : exec Receiver.step is (Receiver.init c opened) = .ok (os, r)) :
    (os.filterMap Output.mail).Sublist (Inbox.start.arrivals is) := by
  obtain ⟨r', hok, -⟩ := exec_refines_inbox c opened fun i hi => (his i hi).1
  obtain ⟨rfl, -⟩ := ok_unique hrun hok
  exact (List.sublist_append_left _ _).trans (mail_sublist (fun i hi => (his i hi).2) Inbox.start)

theorem sound_twoSend : ∀ i ∈ twoSend, Sound ((Nrf24.gatewayMac.sub 3 5).read 1 4) i := by
  have hroomy : ∀ i ∈ twoSend, Roomy i := by
    unfold twoSend
    simp only [List.forall_mem_cons]
    exact ⟨trivial, trivial, trivial, trivial, (by decide : payloadSize ≤ (32 : UInt16).toNat),
      (by decide : payloadSize ≤ (32 : UInt16).toNat), (by decide : payloadSize ≤ (32 : UInt16).toNat),
      fun _ h => absurd h List.not_mem_nil⟩
  exact fun i hi => ⟨proper_twoSend i hi, hroomy i hi⟩

theorem reads_sublist_two : ∃ os r, exec Receiver.step twoSend (Receiver.init blank (Buf.zero 5)) = .ok (os, r) ∧
    (os.filterMap Output.mail).Sublist [(1, [1, 2]), (2, [3])] := by
  obtain ⟨r, hrun, -⟩ := exec_refines_inbox blank (Buf.zero 5) proper_twoSend
  have harrivals : Inbox.start.arrivals twoSend = [(1, [1, 2]), (2, [3])] := by decide
  have hsub := reads_sublist blank (Buf.zero 5) sound_twoSend hrun
  rw [harrivals] at hsub
  exact ⟨_, r, hrun, hsub⟩

/-! ## A change of the channel -/

/-- What the reads return after the channel has changed came in after it. -/
theorem retuned_reads (c : Chip) (opened : Address) {is js : List Receiver.Input} (his : ∀ i ∈ is, Sound high i)
    (hjs : ∀ i ∈ js, Sound high i) {os os' : List Output} {r r' : Receiver}
    (hrun : exec Receiver.step is (Receiver.init c opened) = .ok (os, r)) {value : UInt8} {ack : Bool}
    (htune : r.driver.chip.Retunes value.toBitVec ack)
    (hrun' : exec Receiver.step (.call (.setChannel value ack) :: js) r = .ok (os', r')) :
    (os'.filterMap Output.mail).Sublist
      ((final Inbox.step (is ++ [.call (.setChannel value ack)]) Inbox.start).arrivals js) := by
  obtain ⟨r₁, hok, hrefines⟩ := exec_refines_inbox c opened fun i hi => (his i hi).1
  obtain ⟨rfl, rfl⟩ := ok_unique hrun hok
  generalize ht : final Inbox.step is Inbox.start = t at hrefines
  have hproper : ∀ i ∈ (.call (.setChannel value ack) :: js : List Receiver.Input), Proper high i := by
    intro i hi
    rcases List.mem_cons.mp hi with rfl | hmem
    · trivial
    · exact (hjs i hmem).1
  obtain ⟨r₂, hok', -⟩ := exec_refines_final (fun i _ _ h hi => refines_step i h hi) hproper hrefines
  obtain ⟨rfl, -⟩ := ok_unique hrun' hok'
  have hchannel : Call.tunes (.setChannel value ack) t.channel ≠ t.channel := by
    rw [retunes_iff hrefines.slow, hrefines.channel] at htune
    exact fun heq => htune.2 ((if_pos htune.1).symm.trans heq)
  have hempty : (t.step (.call (.setChannel value ack))).2.queue = .empty := if_neg hchannel
  have hqueue := mail_sublist (fun i hi => (hjs i hi).2) (t.step (.call (.setChannel value ack))).2
  rw [hempty] at hqueue
  rw [final_append, ht]
  exact (List.sublist_append_left _ _).trans hqueue

theorem retuned_reads_two : ∃ os r os' r',
    exec Receiver.step (twoSend.take 4) (Receiver.init blank (Buf.zero 5)) = .ok (os, r) ∧
      exec Receiver.step [.call (.setChannel 22 true), .read 1 32] r = .ok (os', r') ∧
        (os'.filterMap Output.mail).Sublist [] := by
  have his : ∀ i ∈ twoSend.take 4, Sound _ i := fun i hi => sound_twoSend i (List.mem_of_mem_take hi)
  have hjs : ∀ i ∈ ([.read 1 32] : List Receiver.Input), Sound ((Nrf24.gatewayMac.sub 3 5).read 1 4) i := by
    intro i hi
    rw [List.mem_singleton.mp hi]
    exact ⟨trivial, (by decide : payloadSize ≤ (32 : UInt16).toNat)⟩
  obtain ⟨r, hrun, hrefines⟩ := exec_refines_inbox blank (Buf.zero 5) fun i hi => (his i hi).1
  have htune : r.driver.chip.Retunes (22 : UInt8).toBitVec true := by
    rw [retunes_iff hrefines.slow, hrefines.channel]
    decide
  have hproper : ∀ i ∈ ([.call (.setChannel 22 true), .read 1 32] : List Receiver.Input),
      Proper ((Nrf24.gatewayMac.sub 3 5).read 1 4) i := by simp [Proper, Based]
  obtain ⟨r', hrun', -⟩ := exec_refines_final (fun i _ _ h hi => refines_step i h hi) hproper hrefines
  exact ⟨_, r, _, r', hrun, hrun', retuned_reads blank (Buf.zero 5) his hjs hrun htune hrun'⟩

/-! ## The first letter -/

/-- An input that does not take a packet of `pipe` from a radio on `channel`: a read of another pipe, an operation that
keeps the channel, or anything on the air. -/
def Passes (pipe : Fin 6) (channel : BitVec 8) : Receiver.Input → Prop
  | .read p _ => ¬ Wants p pipe
  | .call c => c.tunes channel = channel
  | .packet _ _ _ => True

theorem head_push (h : t.queue.list = l :: rest) (l' : Letter) : ∃ rest', (t.queue.push l').list = l :: rest' := by
  rw [Queue.list_push, h]
  split
  · exact ⟨rest ++ [l'], rfl⟩
  · exact ⟨rest, rfl⟩

theorem passes_step (h : t.queue.list = l :: rest) {i : Receiver.Input} (hi : Passes l.pipe t.channel i) :
    (t.step i).1.mail = .none ∧ (∃ rest', (t.step i).2.queue.list = l :: rest') ∧ (t.step i).2.channel = t.channel := by
  cases i with
  | read p len =>
      have hread : t.read p len = ((p, []), t) := Inbox.read_other h hi
      unfold Inbox.step
      dsimp only
      rw [hread]
      exact ⟨rfl, ⟨rest, h⟩, rfl⟩
  | call c =>
      have hqueue : (t.step (.call c)).2.queue = t.queue := if_pos hi
      rw [hqueue]
      exact ⟨rfl, ⟨rest, h⟩, hi⟩
  | packet channel addr payload =>
      unfold Inbox.step
      dsimp only
      cases t.heard (.packet channel addr payload) with
      | none => exact ⟨rfl, ⟨rest, h⟩, rfl⟩
      | some l' => exact ⟨rfl, head_push h l', rfl⟩

theorem passes_run {js : List Receiver.Input} (h : t.queue.list = l :: rest)
    (hjs : ∀ i ∈ js, Passes l.pipe t.channel i) :
    (outputs Inbox.step js t).filterMap Output.mail = [] ∧
      ∃ rest', (final Inbox.step js t).queue.list = l :: rest' := by
  induction js generalizing t rest with
  | nil => exact ⟨rfl, rest, h⟩
  | cons i js ih =>
      obtain ⟨hnone, ⟨rest', hrest'⟩, hchannel⟩ := passes_step h (hjs i List.mem_cons_self)
      obtain ⟨hmail, hhead⟩ := ih hrest' fun j hj => by
        rw [hchannel]
        exact hjs j (List.mem_cons_of_mem i hj)
      rw [outputs, filterMap_cons_toList, hnone, hmail]
      exact ⟨rfl, hhead⟩

/-- As long as nobody reads the pipe of the first packet and the channel stays, no read returns anything, whatever comes
in, and the first packet stays the first one; if it is a packet such as the radio sends, it can still be read. -/
theorem first_hides (c : Chip) (opened : Address) {is js : List Receiver.Input} (his : ∀ i ∈ is, Proper high i)
    (hjs : ∀ i ∈ js, Proper high i) {os os' : List Output} {r r' : Receiver}
    (hrun : exec Receiver.step is (Receiver.init c opened) = .ok (os, r)) {q : Packet} {queue : List Packet}
    (hfirst : r.rx.list = q :: queue) (hpass : ∀ i ∈ js, Passes q.pipe r.driver.chip.channel i)
    (hrun' : exec Receiver.step js r = .ok (os', r')) :
    os'.filterMap Output.mail = [] ∧ r'.rx.list.head? = some q ∧
      (q.payload.bytes ≠ [] → q.payload.bytes.length ≤ payloadSize → ∀ p len, Wants p q.pipe → payloadSize ≤ len.toNat →
        (r'.nrf24l01Read p len).1 = (UInt8.ofNat q.pipe.val, q.payload.bytes)) := by
  obtain ⟨r₁, hok, hrefines⟩ := exec_refines_inbox c opened his
  obtain ⟨rfl, rfl⟩ := ok_unique hrun hok
  generalize final Inbox.step is Inbox.start = t at hrefines
  obtain ⟨r₂, hok', hrefines'⟩ := exec_refines_final (fun i _ _ h hi => refines_step i h hi) hjs hrefines
  obtain ⟨rfl, rfl⟩ := ok_unique hrun' hok'
  rw [hrefines.queue] at hfirst
  obtain ⟨l, rest, hlist, rfl, -⟩ := List.map_eq_cons_iff.mp hfirst
  rw [hrefines.channel] at hpass
  obtain ⟨hmail, rest', hhead⟩ := passes_run hlist hpass
  have hlist' : r'.rx.list = l.packet :: rest'.map Letter.packet := by
    rw [hrefines'.queue]
    exact congrArg (List.map Letter.packet) hhead
  refine ⟨hmail, by rw [hlist', List.head?_cons], fun hne hfit p len hwants hlen => ?_⟩
  rw [nrf24l01Read_own hlist' hwants, prxData_some hlist' hfit hne, List.take_of_length_le (hfit.trans hlen)]

theorem first_hides_two : ∃ os r os' r',
    exec Receiver.step (twoSend.take 4) (Receiver.init blank (Buf.zero 5)) = .ok (os, r) ∧
      exec Receiver.step [.read 2 32, .read 2 32] r = .ok (os', r') ∧ os'.filterMap Output.mail = [] ∧
      r'.rx.list.head? = some ⟨1, ⟨[1, 2], by decide⟩⟩ := by
  have his : ∀ i ∈ twoSend.take 4, Proper _ i := fun i hi => proper_twoSend i (List.mem_of_mem_take hi)
  have hjs : ∀ i ∈ ([.read 2 32, .read 2 32] : List Receiver.Input),
      Proper ((Nrf24.gatewayMac.sub 3 5).read 1 4) i := by
    simp [Proper]
  obtain ⟨r, hrun, hrefines⟩ := exec_refines_inbox blank (Buf.zero 5) his
  have hfirst : r.rx.list = ⟨1, ⟨[1, 2], by decide⟩⟩ :: [⟨2, ⟨[3], by decide⟩⟩] := by
    rw [hrefines.queue]
    decide
  have hpass : ∀ i ∈ ([.read 2 32, .read 2 32] : List Receiver.Input), Passes 1 r.driver.chip.channel i := by
    simp only [List.forall_mem_cons]
    have hother : ¬ Wants 2 1 := by decide
    exact ⟨hother, hother, fun _ h => absurd h List.not_mem_nil⟩
  obtain ⟨r', hrun', -⟩ := exec_refines_final (fun i _ _ h hi => refines_step i h hi) hjs hrefines
  obtain ⟨hmail, hhead, -⟩ := first_hides blank (Buf.zero 5) his hjs hrun hfirst hpass hrun'
  exact ⟨_, r, _, r', hrun, hrun', hmail, hhead⟩

/-! ## A pipe that is closed -/

/-- A pipe is closed with a letter for it in the queue. -/
def Strands (i : Receiver.Input) (t : Inbox) : Prop :=
  match i with
  | .call (.resetPipe arg) => ∃ l ∈ t.queue.list, int8 arg = l.pipe.val
  | .call _ | .read _ _ | .packet _ _ _ => False

/-- The pipe of every letter still has the address that the letter was sent to. -/
def Fresh (t : Inbox) : Prop := ∀ l ∈ t.queue.list, t.pipes l.pipe = some l.addr

theorem openPipe_of_some {ps : Pipes} {p : Fin 6} {a : Address} (h : ps p = some a) (pipe : Nat) (addr : Address) :
    ps.openPipe pipe addr p = some a := by
  unfold Pipes.openPipe
  split
  · rename_i hrange
    cases hold : ps ⟨pipe, hrange⟩ with
    | some a' => exact h
    | none =>
        have hne : p ≠ ⟨pipe, hrange⟩ := by
          rintro rfl
          rw [hold] at h
          cases h
        exact (Function.update_of_ne hne _ _).trans h
  · exact h

theorem closePipe_some_iff {ps : Pipes} {p : Fin 6} {a : Address} (h : ps p = some a) (pipe : Int) :
    ps.closePipe pipe p = some a ↔ pipe ≠ p.val := by
  unfold Pipes.closePipe
  split
  · rename_i hrange
    by_cases hp : p = ⟨pipe.toNat, by omega⟩
    · have hval : p.val = pipe.toNat := congrArg Fin.val hp
      rw [← hp, Function.update_self]
      exact iff_of_false (by simp) (by omega)
    · rw [Function.update_of_ne hp, h]
      exact iff_of_true rfl fun heq => hp (Fin.ext (show p.val = pipe.toNat by omega))
  · have hlt := p.isLt
    exact iff_of_true h (by omega)

theorem fresh_step (i : Receiver.Input) (t : Inbox) (h : Fresh t) : Fresh (t.step i).2 ↔ ¬ Strands i t := by
  have hsub {q : Queue Letter 3} (hq : ∀ l ∈ q.list, l ∈ t.queue.list) : Fresh { t with queue := q } :=
    fun l hl => h l (hq l hl)
  cases i with
  | read p len =>
      apply iff_of_true _ id
      show Fresh (t.read p len).2
      unfold Inbox.read
      split
      · exact h
      · split
        · split
          · exact hsub fun l hl => absurd hl List.not_mem_nil
          · split
            · exact hsub fun l hl => List.mem_of_mem_tail hl
            · exact h
        · exact h
  | packet channel addr payload =>
      apply iff_of_true _ id
      unfold Inbox.step
      dsimp only
      cases hheard : t.heard (.packet channel addr payload) with
      | none => exact h
      | some l' =>
          have hnew : t.pipes l'.pipe = some l'.addr := by
            unfold Inbox.heard at hheard
            dsimp only at hheard
            split at hheard
            · obtain ⟨p, hp, rfl⟩ := Option.map_eq_some_iff.mp hheard
              unfold Inbox.holder at hp
              have hfound := List.find?_some hp
              exact of_decide_eq_true hfound
            · cases hheard
          intro l hl
          have hmem := (Queue.push_sublist l' t.queue).subset hl
          rcases List.mem_append.mp hmem with hold | hold
          · exact h l hold
          · rw [List.mem_singleton.mp hold]
            exact hnew
  | call c =>
      have hkeep : ∀ l ∈ (t.step (.call c)).2.queue.list, l ∈ t.queue.list := by
        intro l hl
        change l ∈ (if c.tunes t.channel = t.channel then t.queue else .empty : Queue Letter 3).list at hl
        split at hl
        · exact hl
        · cases hl
      cases c with
      | resetPipe arg =>
          have hqueue : (t.step (.call (.resetPipe arg))).2.queue = t.queue := if_pos rfl
          unfold Fresh Strands
          rw [hqueue, not_exists]
          apply forall_congr'
          intro l
          rw [not_and]
          exact imp_congr_right fun hl => closePipe_some_iff (h l hl) _
      | setPipe pipe aa => exact iff_of_true (fun l hl => openPipe_of_some (h l (hkeep l hl)) _ _) id
      | setChannel value ack => exact iff_of_true (fun l hl => h l (hkeep l hl)) id
      | setStandby => exact iff_of_true (fun l hl => h l (hkeep l hl)) id
      | otherCommand => exact iff_of_true (fun l hl => h l (hkeep l hl)) id
      | write pipe payload acked stack => exact iff_of_true (fun l hl => h l (hkeep l hl)) id

/-- The chip receives on the pipe of every letter that is in the queue, at the address that the letter was sent to. -/
def Receiver.Delivers (r : Receiver) (t : Inbox) : Prop :=
  ∀ l ∈ t.queue.list, l.pipe.val ∈ r.driver.chip.enabled ∧ r.driver.chip.receives l.pipe.val = l.addr

theorem Refines.delivers_iff {r : Receiver} (h : Refines high r t) : r.Delivers t ↔ Fresh t := by
  apply forall₂_congr
  intro l _
  rw [h.addressed.enabled]
  constructor
  · rintro ⟨hsome, hrec⟩
    obtain ⟨a, ha⟩ := Option.isSome_iff_exists.mp hsome
    rw [ha, ← hrec, h.addressed.receives l.pipe a ha]
  · intro ha
    exact ⟨by rw [ha]; rfl, h.addressed.receives l.pipe l.addr ha⟩

/-- In a run all the packets in the RX FIFO are at any time for those whom their pipes belong to then, exactly where no
pipe is closed while there is a packet for it. -/
theorem fresh_throughout_iff (c : Chip) (opened : Address) {is : List Receiver.Input} (his : ∀ i ∈ is, Proper high i) :
    (∀ js, js <+: is → ∃ os r, exec Receiver.step js (Receiver.init c opened) = .ok (os, r) ∧
      r.rx = (final Inbox.step js Inbox.start).queue.map Letter.packet ∧
      r.Delivers (final Inbox.step js Inbox.start)) ↔
      Along (fun i t => ¬ Strands i t) (fun i t => (.ok (Inbox.step i t) : Except Empty _)) is Inbox.start := by
  have hfresh : Fresh Inbox.start := fun l hl => absurd hl List.not_mem_nil
  rw [← exec_always_iff (fun i t ht => ⟨_, _, rfl, fresh_step i t ht⟩) hfresh]
  apply forall₂_congr
  intro js hpre
  obtain ⟨r, hrun, hrefines⟩ := exec_refines_inbox c opened fun i hi => his i (hpre.subset hi)
  have hspec : exec (fun i t => (.ok (Inbox.step i t) : Except Empty _)) js Inbox.start = _ := exec_ok_outputs js _
  constructor
  · rintro ⟨os, r', hrun', -, hdelivers⟩
    obtain ⟨-, rfl⟩ := ok_unique hrun' hrun
    exact ⟨_, _, hspec, hrefines.delivers_iff.mp hdelivers⟩
  · rintro ⟨os, t, hspec', ht⟩
    obtain ⟨-, rfl⟩ := ok_unique hspec' hspec
    exact ⟨_, r, hrun, hrefines.queue, hrefines.delivers_iff.mpr ht⟩

/-- The first of two things leaves while a packet of it is in the FIFO. -/
theorem fresh_throughout_stranded : ¬ ∀ js, js <+: twoSend.take 4 ++ [.call (.resetPipe 1)] →
    ∃ os r, exec Receiver.step js (Receiver.init blank (Buf.zero 5)) = .ok (os, r) ∧
      r.rx = (final Inbox.step js Inbox.start).queue.map Letter.packet ∧
      r.Delivers (final Inbox.step js Inbox.start) := by
  have hproper : ∀ i ∈ twoSend.take 4 ++ [.call (.resetPipe 1)],
      Proper ((Nrf24.gatewayMac.sub 3 5).read 1 4) i := by
    intro i hi
    rcases List.mem_append.mp hi with hmem | hmem
    · exact proper_twoSend i (List.mem_of_mem_take hmem)
    · rw [List.mem_singleton.mp hmem]
      trivial
  rw [fresh_throughout_iff blank (Buf.zero 5) hproper]
  rintro ⟨-, h⟩
  obtain ⟨-, h⟩ := h _ _ rfl
  obtain ⟨-, h⟩ := h _ _ rfl
  obtain ⟨-, h⟩ := h _ _ rfl
  obtain ⟨hstrands, -⟩ := h _ _ rfl
  refine hstrands ⟨⟨1, Nrf24.accessAddress Nrf24.gatewayMac 1, ⟨[1, 2], by decide⟩⟩, ?_, rfl⟩
  exact List.mem_cons_self

end KnotHal.Radio
