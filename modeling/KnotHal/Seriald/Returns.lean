import KnotHal.Seriald.Framing

/-!
# Where `serial_io_watch` returns

The loop goes on after `EAGAIN`, and after a read that returns no byte, as it does at the end of the file. Nothing
bounds the number of reads: a line that falls silent in a datagram keeps the main loop waiting.

* `found` : the results of the first reads;
* `readLoop_isSome`, `serialIoWatch_isSome` : what has to be found for the call to return;
* `returns_iff` : the lines on which it returns.
-/

namespace KnotHal.Seriald

/-- What the first `n` reads find on a line that never ends. -/
def found (line : Nat → Reading) (n : Nat) : List Reading := (List.range n).map line

def msgSize (signed : Bool) (c : Call) (first : List UInt8) : Int := charVal signed (first.getD 1 (c.stack.get 1)) + 2

section Found
variable {line : Nat → Reading} {n : Nat}

theorem found_succ : found line (n + 1) = line 0 :: found (fun k => line (k + 1)) n := by
  unfold found
  rw [List.range_succ_eq_map, List.map_cons, List.map_map]
  rfl

theorem mem_found {r : Reading} : r ∈ found line n ↔ ∃ k < n, line k = r := by
  unfold found
  rw [List.mem_map]
  apply exists_congr
  intro k
  rw [List.mem_range]

end Found

/-! ## Finitely many results -/

section Finite
variable {signed : Bool} {c : Call} {size : Int} {buffer : Buf packetSizeMax} {offset count : Nat}
  {line rest : List Reading} {r : Reading} {bytes : List UInt8}

theorem halCommRead_none : halCommRead count line = none ↔ line = [] := by
  unfold halCommRead
  split
  · simp
  · split <;> simp
  · simp

/-- A read that returns bytes leaves the errors on the line. -/
theorem halCommRead_failed (h : halCommRead count line = some (.chunk bytes, rest)) :
    .failed ∈ rest ↔ .failed ∈ line := by
  rcases halCommRead_cases h with ⟨rfl, -⟩ | ⟨_, surplus, tail, -, -, rfl, -, rfl⟩
  · simp
  · simp

/-- The loop ends with enough bytes, or with an error. -/
theorem readLoop_isSome (hsize : size ≤ packetSizeMax) :
    (readLoop size buffer offset line).isSome = true ↔
      size ≤ (offset + (joined line).length : Nat) ∨ .failed ∈ line := by
  fun_induction readLoop size buffer offset line with
  | case1 buffer offset line hdone =>
      refine ⟨fun _ => Or.inl ?_, fun _ => rfl⟩
      omega
  | case2 buffer offset line hmore hfull => omega
  | case3 buffer offset line hmore hroom hread =>
      obtain rfl := halCommRead_none.mp hread
      simpa [joined] using hmore
  | case4 buffer offset line hmore hroom bytes rest hread ih =>
      have hjoined := congrArg List.length (halCommRead_joined hread)
      rw [List.length_append] at hjoined
      rw [ih, halCommRead_failed hread, hjoined, Nat.add_assoc]
      rfl
  | case5 buffer offset line hmore hroom rest hread ih =>
      obtain rfl := halCommRead_short hread (show 0 < packetSizeMax - offset by omega)
      rw [ih]
      simp [Reading.bytes]
  | case6 buffer offset line hmore hroom rest hread =>
      obtain rfl := halCommRead_short hread (show 0 < packetSizeMax - offset by omega)
      simp

/-- The first read takes what fits, and the second byte is among it. -/
theorem halCommRead_first (first : List UInt8) (line : List Reading) :
    ∃ bytes rest, halCommRead packetSizeMax (.chunk first :: line) = some (.chunk bytes, rest) ∧
      ∀ x, bytes.getD 1 x = first.getD 1 x := by
  by_cases hfit : first.length ≤ packetSizeMax
  · exact ⟨first, line, halCommRead_chunk line hfit, fun _ => rfl⟩
  · refine ⟨first.take packetSizeMax, .chunk (first.drop packetSizeMax) :: line, if_neg hfit, fun x => ?_⟩
    rw [List.getD_eq_getElem?_getD, List.getD_eq_getElem?_getD, List.getElem?_take_of_lt (by decide)]

theorem msgSize_le (signed : Bool) (c : Call) (first : List UInt8) : msgSize signed c first ≤ packetSizeMax := by
  have hmax : (255 : Int) + 2 ≤ packetSizeMax := by decide
  have hchar := charVal_le signed (first.getD 1 (c.stack.get 1))
  unfold msgSize
  omega

/-- What has to be found for the call to return. -/
theorem serialIoWatch_isSome : (serialIoWatch signed c (r :: line)).isSome = true ↔
    c.hangup = true ∨ (∀ first, r ≠ .chunk first) ∨ .failed ∈ line ∨
      msgSize signed c r.bytes ≤ (joined (r :: line)).length := by
  unfold serialIoWatch
  split
  · rename_i hup
    exact ⟨fun _ => Or.inl hup, fun _ => rfl⟩
  · rename_i hup
    cases r with
    | again => simp [halCommRead]
    | failed => simp [halCommRead]
    | chunk first =>
        obtain ⟨bytes, rest, hread, hget⟩ := halCommRead_first first line
        have hlen : bytes.length ≤ packetSizeMax := halCommRead_length hread
        have hloop : (readLoop (msgSize signed c first) (c.stack.write 0 bytes) bytes.length rest).isSome = true ↔
            msgSize signed c first ≤ (bytes.length + (joined rest).length : Nat) ∨ .failed ∈ rest :=
          readLoop_isSome (msgSize_le signed c first)
        have hjoined := congrArg List.length (halCommRead_joined hread)
        rw [List.length_append] at hjoined
        change _ = bytes.length + _ at hjoined
        rw [halCommRead_failed hread, ← hjoined] at hloop
        have hchunk : (∀ first', Reading.chunk first ≠ .chunk first') ↔ False :=
          ⟨fun hno => hno first rfl, False.elim⟩
        have hline : Reading.failed ∈ Reading.chunk first :: line ↔ .failed ∈ line := by simp
        rw [hline, or_comm] at hloop
        rw [hchunk, false_or, iff_false_intro hup, false_or]
        refine Iff.trans ?_ hloop
        rw [hread]
        dsimp only
        rw [Buf.get_write_zero _ hlen, hget]
        change _ ↔ (readLoop (charVal signed (first.getD 1 (c.stack.get 1)) + 2) _ _ _).isSome = true
        generalize readLoop _ _ _ _ = out
        rcases out with _ | ⟨_ | filled, rest'⟩
        · exact Iff.rfl
        · exact Iff.rfl
        · dsimp only
          split <;> simp

end Finite

/-! ## Every line -/

section Lines
variable (signed : Bool) (c : Call) (line : Nat → Reading)

/-- The call returns after finitely many reads exactly where the condition reports a hang-up, the first read fails, a
later one fails with another error than `EAGAIN`, or all the bytes of the message are there at some time. -/
theorem returns_iff : (∃ n, (serialIoWatch signed c (found line n)).isSome = true) ↔
    c.hangup = true ∨ (∀ first, line 0 ≠ .chunk first) ∨ (∃ n, line (n + 1) = .failed) ∨
      ∃ n, msgSize signed c (line 0).bytes ≤ (joined (found line (n + 1))).length := by
  constructor
  · rintro ⟨n, hn⟩
    cases n with
    | zero =>
        by_cases hup : c.hangup = true
        · exact Or.inl hup
        · change (serialIoWatch signed c []).isSome = true at hn
          rw [serialIoWatch, if_neg hup] at hn
          cases hn
    | succ n =>
        rw [found_succ, serialIoWatch_isSome, ← found_succ, mem_found] at hn
        rcases hn with hup | hfirst | ⟨k, -, hk⟩ | henough
        · exact Or.inl hup
        · exact Or.inr (Or.inl hfirst)
        · exact Or.inr (Or.inr (Or.inl ⟨k, hk⟩))
        · exact Or.inr (Or.inr (Or.inr ⟨n, henough⟩))
  · rintro (hup | hfirst | ⟨n, hn⟩ | ⟨n, hn⟩)
    · refine ⟨1, ?_⟩
      rw [found_succ, serialIoWatch_isSome]
      exact Or.inl hup
    · refine ⟨1, ?_⟩
      rw [found_succ, serialIoWatch_isSome]
      exact Or.inr (Or.inl hfirst)
    · refine ⟨n + 2, ?_⟩
      rw [found_succ, serialIoWatch_isSome, mem_found]
      exact Or.inr (Or.inr (Or.inl ⟨n, Nat.lt_succ_self n, hn⟩))
    · refine ⟨n + 1, ?_⟩
      rw [found_succ, serialIoWatch_isSome, ← found_succ]
      exact Or.inr (Or.inr (Or.inr hn))

end Lines

/-- The first two bytes of a datagram with five bytes of payload, and then the line is closed. -/
def cutOff : Nat → Reading
  | 0 => .chunk [0x01, 0x05]
  | _ + 1 => .chunk []

theorem joined_cutOff (n : Nat) : joined (found cutOff (n + 1)) = [0x01, 0x05] := by
  have hrest : joined (found (fun k => cutOff (k + 1)) n) = [] := by
    apply List.flatMap_eq_nil_iff.mpr
    intro r hr
    obtain ⟨k, -, rfl⟩ := mem_found.mp hr
    rfl
  rw [found_succ, joined_cons, hrest]
  rfl

/-- No number of reads is enough. -/
theorem cutOff_spins :
    ¬ ∀ (signed : Bool) (c : Call) (line : Nat → Reading), ∃ n, (serialIoWatch signed c (found line n)).isSome = true := by
  intro hall
  obtain ⟨n, hn⟩ := hall false ⟨Buf.zero _, false, false⟩ cutOff
  cases n with
  | zero => cases hn
  | succ n =>
      rw [found_succ, serialIoWatch_isSome, ← found_succ, mem_found, joined_cutOff] at hn
      rcases hn with hup | hfirst | ⟨k, -, hk⟩ | henough
      · cases hup
      · exact hfirst _ rfl
      · cases hk
      · revert henough
        decide

end KnotHal.Seriald
