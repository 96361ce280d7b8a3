import KnotHal.Lib.Buf
import Mathlib.Data.Int.Basic

/-!
# The serial line of seriald

`serial_io_watch` is called when the serial line is readable. It reads what is there, takes the length of a
datagram from the second byte, reads on until it has that many bytes and writes them to knotd as one message.

* `serialIoWatch` is one call, `mainLoop` the calls one after another.
* `Framed` says how the bytes must be cut for the messages to be the datagrams.
* `framing_iff` : the messages are the datagrams exactly then.
-/

namespace KnotHal.Seriald

/-! ## The line -/

def packetSizeMax : Nat := 512

/-- What one `read` finds: bytes (none at the end of the file), `EAGAIN` or another error. -/
inductive Reading where
  | chunk (bytes : List UInt8)
  | again
  | failed
  deriving DecidableEq, Repr

def Reading.bytes : Reading → List UInt8
  | chunk bytes => bytes
  | again => []
  | failed => []

def joined (line : List Reading) : List UInt8 := line.flatMap Reading.bytes

@[simp] theorem joined_cons (r : Reading) (line : List Reading) : joined (r :: line) = r.bytes ++ joined line := rfl

/-- `hal_comm_read` of at most `count` bytes. What does not fit stays on the line; an empty list is a line on
which nothing happens any more. -/
def halCommRead (count : Nat) : List Reading → Option (Reading × List Reading)
  | [] => none
  | .chunk bytes :: line =>
    if bytes.length ≤ count then some (.chunk bytes, line)
    else some (.chunk (bytes.take count), .chunk (bytes.drop count) :: line)
  | r :: line => some (r, line)

section Read
variable {count : Nat} {line rest : List Reading} {r : Reading}

theorem halCommRead_cases (h : halCommRead count line = some (r, rest)) :
    (line = r :: rest ∧ r.bytes.length ≤ count) ∨
      ∃ bytes surplus tail, bytes.length = count ∧ surplus ≠ [] ∧ line = .chunk (bytes ++ surplus) :: tail ∧
        r = .chunk bytes ∧ rest = .chunk surplus :: tail := by
  cases line with
  | nil => exact absurd h (by simp [halCommRead])
  | cons first tail =>
    cases first with
    | chunk bytes =>
      by_cases hfit : bytes.length ≤ count
      · simp only [halCommRead, hfit, if_true, Option.some.injEq, Prod.mk.injEq] at h
        left
        rw [← h.1, ← h.2]
        exact ⟨rfl, hfit⟩
      · simp only [halCommRead, hfit, if_false, Option.some.injEq, Prod.mk.injEq] at h
        right
        refine ⟨bytes.take count, bytes.drop count, tail, ?_, ?_, ?_, h.1.symm, h.2.symm⟩
        · rw [List.length_take]; omega
        · rw [Ne, List.drop_eq_nil_iff]; exact hfit
        · rw [List.take_append_drop]
    | again =>
      simp only [halCommRead, Option.some.injEq, Prod.mk.injEq] at h
      left
      rw [← h.1, ← h.2]
      exact ⟨rfl, Nat.zero_le count⟩
    | failed =>
      simp only [halCommRead, Option.some.injEq, Prod.mk.injEq] at h
      left
      rw [← h.1, ← h.2]
      exact ⟨rfl, Nat.zero_le count⟩

theorem halCommRead_joined (h : halCommRead count line = some (r, rest)) : joined line = r.bytes ++ joined rest := by
  rcases halCommRead_cases h with ⟨rfl, -⟩ | ⟨bytes, surplus, tail, -, -, rfl, rfl, rfl⟩
  · rfl
  · exact List.append_assoc bytes surplus (joined tail)

theorem halCommRead_length (h : halCommRead count line = some (r, rest)) : r.bytes.length ≤ count := by
  rcases halCommRead_cases h with ⟨-, hle⟩ | ⟨bytes, surplus, tail, hlen, -, -, rfl, -⟩
  · exact hle
  · exact Nat.le_of_eq hlen

theorem halCommRead_chunk {bytes : List UInt8} (line : List Reading) (h : bytes.length ≤ count) :
    halCommRead count (.chunk bytes :: line) = some (.chunk bytes, line) := by
  simp [halCommRead, h]

def weight (line : List Reading) : Nat := (joined line).length + line.length

theorem halCommRead_weight (hpos : 0 < count) (h : halCommRead count line = some (r, rest)) :
    weight rest < weight line := by
  have hjoined := congrArg List.length (halCommRead_joined h)
  rw [List.length_append] at hjoined
  unfold weight
  rcases halCommRead_cases h with ⟨rfl, -⟩ | ⟨bytes, surplus, tail, hlen, -, rfl, rfl, rfl⟩
  · rw [List.length_cons]; omega
  · have hbytes : (Reading.chunk bytes).bytes.length = count := hlen
    rw [List.length_cons, List.length_cons]; omega

end Read

/-! ## One call -/

/-- The value of a plain `char`, which is signed on x86 and unsigned on ARM. -/
def charVal (signed : Bool) (b : UInt8) : Int := if signed ∧ 128 ≤ b.toNat then b.toNat - 256 else b.toNat

theorem charVal_le (signed : Bool) (b : UInt8) : charVal signed b ≤ 255 := by
  have hb := b.toNat_lt
  unfold charVal
  split <;> omega

/-- What a call of `serial_io_watch` meets: what is on its stack where `buffer` lies, whether the condition
holds `G_IO_ERR`, `G_IO_HUP` or `G_IO_NVAL`, and whether `write` to knotd fails. -/
structure Call where
  stack : Buf packetSizeMax
  hangup : Bool
  writeFails : Bool

/-- The loop that reads on until `msg_size` bytes are there: the buffer then, or nothing after `goto done`, and
the rest of the line. It never ends on a line on which nothing happens any more. -/
def readLoop (msgSize : Int) (buffer : Buf packetSizeMax) (offset : Nat) (line : List Reading) :
    Option (Option (Buf packetSizeMax) × List Reading) :=
  if msgSize ≤ offset then some (some buffer, line)
  else if _hfull : packetSizeMax ≤ offset then some (none, line)
  else
    match _hread : halCommRead (packetSizeMax - offset) line with
    | none => none
    | some (.chunk bytes, rest) => readLoop msgSize (buffer.write offset bytes) (offset + bytes.length) rest
    | some (.again, rest) => readLoop msgSize buffer offset rest
    | some (.failed, rest) => some (none, rest)
termination_by weight line
decreasing_by all_goals exact halCommRead_weight (Nat.sub_pos_of_lt (Nat.lt_of_not_le _hfull)) _hread

/-- `serial_io_watch`: whether it stays installed, the messages it writes to knotd and the rest of the line.
`msg_size` is an `int` that `write` takes as a `size_t`, and no message is that long when it is negative. -/
def serialIoWatch (signed : Bool) (c : Call) (line : List Reading) :
    Option (Bool × List (List UInt8) × List Reading) :=
  if c.hangup then some (false, [], line)
  else
    match halCommRead packetSizeMax line with
    | none => none
    | some (.chunk bytes, rest) =>
      let buffer := c.stack.write 0 bytes
      let msgSize := charVal signed (buffer.get 1) + 2
      match readLoop msgSize buffer bytes.length rest with
      | none => none
      | some (some buffer, rest) =>
        if msgSize < 0 ∨ c.writeFails then some (false, [], rest)
        -- what was read behind `msg_size` goes with the stack frame
        else some (true, [buffer.read 0 msgSize.toNat], rest)
      | some (none, rest) => some (true, [], rest)
    -- `EAGAIN` is an error here, unlike in the loop
    | some (_, rest) => some (false, [], rest)

/-- The main loop: what knotd receives in the calls one after another. -/
def mainLoop (signed : Bool) : List Call → List Reading → List (List UInt8)
  | [], _ => []
  | c :: cs, line =>
    match serialIoWatch signed c line with
    | none => []
    | some (true, sent, rest) => sent ++ mainLoop signed cs rest
    | some (false, sent, _) => sent

/-! ## Datagrams -/

/-- A datagram: type, length of the payload and payload. -/
structure Datagram where
  type : UInt8
  payload : List UInt8
  le : payload.length ≤ 255

def Datagram.bytes (d : Datagram) : List UInt8 := d.type :: UInt8.ofNat d.payload.length :: d.payload

@[simp] theorem Datagram.length_bytes (d : Datagram) : d.bytes.length = d.payload.length + 2 := rfl

/-- What a read of an open line returns: a chunk that is not empty, or `EAGAIN`. -/
def Reading.Returned : Reading → Prop
  | chunk bytes => bytes ≠ []
  | again => True
  | failed => False

/-- The datagrams are what arrives on the line. -/
structure Arrives (ds : List Datagram) (line : List Reading) : Prop where
  returned : ∀ r ∈ line, r.Returned
  bytes : joined line = ds.flatMap Datagram.bytes

/-- The reads at the front of a line return just these bytes, the last of them with the end of a chunk. -/
inductive Delivers : List Reading → List UInt8 → List Reading → Prop
  | done (rest : List Reading) : Delivers rest [] rest
  | again {line rest : List Reading} {bytes : List UInt8} :
    bytes ≠ [] → Delivers line bytes rest → Delivers (.again :: line) bytes rest
  | chunk {line rest : List Reading} {bytes : List UInt8} (first : List UInt8) :
    first ≠ [] → Delivers line bytes rest → Delivers (.chunk first :: line) (first ++ bytes) rest

/-- The cut of the line that `serial_io_watch` needs. Each datagram gets a call to itself whose first read returns
bytes, no chunk goes past the end of a datagram, and the `char` behind the first byte has the value of the length:
it is the length where the first chunk holds two bytes, and what was on the stack where it holds one. -/
inductive Framed (signed : Bool) : List Call → List Datagram → List Reading → Prop
  | nil (cs : List Call) (line : List Reading) : Framed signed cs [] line
  | datagram {c : Call} {cs : List Call} {d : Datagram} {ds : List Datagram} {first bytes : List UInt8}
    {more rest : List Reading} :
    c.hangup = false → c.writeFails = false → Delivers more bytes rest → first ++ bytes = d.bytes →
    charVal signed (first.getD 1 (c.stack.get 1)) = d.payload.length → Framed signed cs ds rest →
    Framed signed (c :: cs) (d :: ds) (.chunk first :: more)

section Arrival
variable {count : Nat} {line rest : List Reading} {r : Reading} {bytes : List UInt8}

theorem halCommRead_returned (hpos : 0 < count) (hret : ∀ r ∈ line, r.Returned)
    (h : halCommRead count line = some (r, rest)) : r.Returned ∧ ∀ r ∈ rest, r.Returned := by
  rcases halCommRead_cases h with ⟨rfl, -⟩ | ⟨bytes, surplus, tail, hlen, hne, rfl, rfl, rfl⟩
  · exact List.forall_mem_cons.mp hret
  · have hbytes : bytes ≠ [] := List.ne_nil_of_length_pos (by omega)
    exact ⟨hbytes, List.forall_mem_cons.mpr ⟨hne, fun x hx => hret x (List.mem_cons_of_mem _ hx)⟩⟩

/-- A read that returns less than it asks for takes a whole chunk. -/
theorem halCommRead_short (h : halCommRead count line = some (r, rest)) (hlt : r.bytes.length < count) :
    line = r :: rest := by
  rcases halCommRead_cases h with ⟨hline, -⟩ | ⟨bytes, surplus, tail, hlen, -, -, rfl, -⟩
  · exact hline
  · exact absurd hlen (Nat.ne_of_lt hlt)

theorem Delivers.joined (h : Delivers line bytes rest) : joined line = bytes ++ joined rest := by
  induction h with
  | done rest => rfl
  | again _ _ ih => exact ih
  | chunk first _ _ ih =>
    rw [joined_cons, ih, List.append_assoc]
    rfl

theorem Delivers.returned (h : Delivers line bytes rest) (hret : ∀ r ∈ line, r.Returned) :
    ∀ r ∈ rest, r.Returned := by
  induction h with
  | done rest => exact hret
  | again _ _ ih => exact ih (List.forall_mem_cons.mp hret).2
  | chunk first _ _ ih => exact ih (List.forall_mem_cons.mp hret).2

theorem Arrives.tail {d : Datagram} {ds : List Datagram} {first : List UInt8} {more : List Reading}
    (h : Arrives (d :: ds) (.chunk first :: more)) (hmore : Delivers more bytes rest) (hd : first ++ bytes = d.bytes) :
    Arrives ds rest := by
  refine ⟨hmore.returned (List.forall_mem_cons.mp h.returned).2, ?_⟩
  have hall := h.bytes
  rw [joined_cons, hmore.joined, List.flatMap_cons, ← hd, ← List.append_assoc] at hall
  exact List.append_cancel_left hall

end Arrival

/-! ## The loop -/

section Loop
variable {msgSize : Int} {buffer filled : Buf packetSizeMax} {offset : Nat} {line rest : List Reading}
  {bytes : List UInt8}

theorem readLoop_done (h : msgSize ≤ offset) :
    readLoop msgSize buffer offset line = some (some buffer, line) := by
  rw [readLoop, if_pos h]

theorem readLoop_delivers (h : Delivers line bytes rest) :
    ∀ (buffer : Buf packetSizeMax) (offset : Nat), msgSize = (offset + bytes.length : Nat) →
      offset + bytes.length ≤ packetSizeMax →
      ∃ filled, readLoop msgSize buffer offset line = some (some filled, rest) ∧
        filled.read 0 (offset + bytes.length) = buffer.read 0 offset ++ bytes := by
  induction h with
  | done rest =>
    intro buffer offset hsize _
    refine ⟨buffer, readLoop_done (Int.le_of_eq hsize), ?_⟩
    rw [List.append_nil]
    rfl
  | again hne _ ih =>
    intro buffer offset hsize hmax
    have hpos := List.length_pos_of_ne_nil hne
    obtain ⟨filled, hrun, hread⟩ := ih buffer offset hsize hmax
    refine ⟨filled, ?_, hread⟩
    rw [readLoop, if_neg (by omega), dif_neg (by omega)]
    exact hrun
  | @chunk line rest bytes first hne _ ih =>
    intro buffer offset hsize hmax
    rw [List.length_append] at hsize hmax
    have hpos := List.length_pos_of_ne_nil hne
    have hfit : offset + first.length ≤ packetSizeMax := by omega
    obtain ⟨filled, hrun, hread⟩ := ih (buffer.write offset first) (offset + first.length) (by omega) (by omega)
    refine ⟨filled, ?_, ?_⟩
    · have hline := halCommRead_chunk line (show first.length ≤ packetSizeMax - offset by omega)
      rw [readLoop, if_neg (by omega), dif_neg (by omega), hline]
      exact hrun
    · rw [List.length_append, ← Nat.add_assoc, hread, buffer.read_append_write hfit, List.append_assoc]

/-- What the loop took off an open line, and that it took no more than it says where the buffer is not full. -/
structure Looped (msgSize : Int) (buffer : Buf packetSizeMax) (offset : Nat) (line : List Reading)
    (filled : Buf packetSizeMax) (rest : List Reading) (bytes : List UInt8) : Prop where
  joined : joined line = bytes ++ joined rest
  fits : offset + bytes.length ≤ packetSizeMax
  enough : msgSize ≤ (offset + bytes.length : Nat)
  returned : ∀ r ∈ rest, r.Returned
  read : filled.read 0 (offset + bytes.length) = buffer.read 0 offset ++ bytes
  delivers : offset + bytes.length < packetSizeMax → Delivers line bytes rest

theorem Looped.read_chunk {rest' : List Reading} {first : List UInt8}
    (hread : halCommRead (packetSizeMax - offset) line = some (.chunk first, rest))
    (hne : first ≠ []) (hoff : offset < packetSizeMax)
    (h : Looped msgSize (buffer.write offset first) (offset + first.length) rest filled rest' bytes) :
    Looped msgSize buffer offset line filled rest' (first ++ bytes) := by
  have hlen : first.length ≤ packetSizeMax - offset := halCommRead_length hread
  have hsum : offset + (first ++ bytes).length = offset + first.length + bytes.length := by
    rw [List.length_append, Nat.add_assoc]
  have hpos := List.length_pos_of_ne_nil hne
  constructor
  · rw [halCommRead_joined hread, h.joined, List.append_assoc]
    rfl
  · rw [hsum]
    exact h.fits
  · rw [hsum]
    exact h.enough
  · exact h.returned
  · rw [hsum, h.read, buffer.read_append_write (by omega), List.append_assoc]
  · intro hlt
    rw [hsum] at hlt
    have hrest := h.delivers hlt
    have hline := halCommRead_short hread (show first.length < packetSizeMax - offset by omega)
    rw [hline]
    exact .chunk first hne hrest

theorem readLoop_looped (hsize : msgSize ≤ packetSizeMax) (buffer : Buf packetSizeMax) (offset : Nat)
    (line : List Reading) (hret : ∀ r ∈ line, r.Returned) (hoff : offset ≤ packetSizeMax)
    {res : Option (Buf packetSizeMax)} (h : readLoop msgSize buffer offset line = some (res, rest)) :
    ∃ filled bytes, res = some filled ∧ Looped msgSize buffer offset line filled rest bytes := by
  induction buffer, offset, line using readLoop.induct msgSize with
  | case1 buffer offset line hdone =>
    simp only [readLoop_done hdone, Option.some.injEq, Prod.mk.injEq] at h
    obtain ⟨rfl, rfl⟩ := h
    refine ⟨buffer, [], rfl, rfl, hoff, hdone, hret, ?_, fun _ => .done line⟩
    rw [List.append_nil]
    rfl
  | case2 buffer offset line hdone hfull => omega
  | case3 buffer offset line hdone hfull hread =>
    rw [readLoop, if_neg hdone, dif_neg hfull, hread] at h
    exact absurd h (by simp)
  | case4 buffer offset line hdone hfull first line' hread ih =>
    have hlt : offset < packetSizeMax := Nat.lt_of_not_le hfull
    have hlen : first.length ≤ packetSizeMax - offset := halCommRead_length hread
    obtain ⟨hfirst, hret'⟩ := halCommRead_returned (Nat.sub_pos_of_lt hlt) hret hread
    rw [readLoop, if_neg hdone, dif_neg hfull, hread] at h
    obtain ⟨filled, bytes, hres, hloop⟩ := ih hret' (by omega) h
    exact ⟨filled, first ++ bytes, hres, hloop.read_chunk hread hfirst hlt⟩
  | case5 buffer offset line hdone hfull line' hread ih =>
    have hlt : offset < packetSizeMax := Nat.lt_of_not_le hfull
    have hline := halCommRead_short hread (Nat.sub_pos_of_lt hlt)
    rw [readLoop, if_neg hdone, dif_neg hfull, hread] at h
    subst hline
    obtain ⟨filled, bytes, hres, hloop⟩ := ih (List.forall_mem_cons.mp hret).2 hoff h
    have hne : bytes ≠ [] := by
      have henough := hloop.enough
      exact List.ne_nil_of_length_pos (by omega)
    exact ⟨filled, bytes, hres, hloop.joined, hloop.fits, hloop.enough, hloop.returned, hloop.read,
      fun hlt' => .again hne (hloop.delivers hlt')⟩
  | case6 buffer offset line hdone hfull line' hread =>
    have hlt : offset < packetSizeMax := Nat.lt_of_not_le hfull
    exact absurd (halCommRead_returned (Nat.sub_pos_of_lt hlt) hret hread).1 id

end Loop

/-! ## What a call does -/

section Calls
variable {signed : Bool} {c : Call} {d : Datagram} {ds : List Datagram} {line more rest : List Reading}
  {first bytes : List UInt8}

theorem serialIoWatch_framed (hup : c.hangup = false) (hwrite : c.writeFails = false)
    (hmore : Delivers more bytes rest) (hd : first ++ bytes = d.bytes)
    (hchar : charVal signed (first.getD 1 (c.stack.get 1)) = d.payload.length) :
    serialIoWatch signed c (.chunk first :: more) = some (true, [d.bytes], rest) := by
  have hlen := congrArg List.length hd
  rw [List.length_append, Datagram.length_bytes] at hlen
  have hle := d.le
  have hmax : first.length + bytes.length ≤ packetSizeMax := by unfold packetSizeMax; omega
  have hfirst : first.length ≤ packetSizeMax := by omega
  have hfit : 0 + first.length ≤ packetSizeMax := by omega
  have hsize : (d.payload.length : Int) + 2 = (first.length + bytes.length : Nat) := by omega
  obtain ⟨filled, hloop, hread⟩ := readLoop_delivers hmore (c.stack.write 0 first) first.length hsize hmax
  have hself : (c.stack.write 0 first).read 0 first.length = first := c.stack.read_write_self hfit
  have hmsg : ((d.payload.length : Int) + 2).toNat = first.length + bytes.length := by omega
  have hok : ¬((d.payload.length : Int) + 2 < 0 ∨ c.writeFails = true) := by
    have hnat : ¬((d.payload.length : Int) + 2 < 0) := by omega
    simp [hwrite, hnat]
  unfold serialIoWatch
  rw [hup, halCommRead_chunk more hfirst]
  simp only [Buf.get_write_zero _ hfirst, hchar, hloop, hok, if_false, hmsg, hread, hself, hd]
  rfl

/-- What a call does that writes a message. -/
structure Sends (signed : Bool) (c : Call) (line : List Reading) (message : List UInt8) (rest : List Reading)
    (first bytes : List UInt8) : Prop where
  live : c.hangup = false
  writes : c.writeFails = false
  joined : joined line = first ++ bytes ++ joined rest
  size : (message.length : Int) = charVal signed (first.getD 1 (c.stack.get 1)) + 2
  taken : message <+: first ++ bytes
  returned : ∀ r ∈ rest, r.Returned
  nonempty : first ≠ []
  cut : (first ++ bytes).length < packetSizeMax → ∃ more, line = .chunk first :: more ∧ Delivers more bytes rest

theorem Looped.sends {msgSize : Int} {filled : Buf packetSizeMax} (hup : c.hangup = false)
    (hwrite : c.writeFails = false)
    (hread : halCommRead packetSizeMax line = some (.chunk first, more)) (hne : first ≠ [])
    (hchar : charVal signed (first.getD 1 (c.stack.get 1)) + 2 = msgSize) (hnat : 0 ≤ msgSize)
    (h : Looped msgSize (c.stack.write 0 first) first.length more filled rest bytes) :
    Sends signed c line (filled.read 0 msgSize.toNat) rest first bytes := by
  have hlen : first.length ≤ packetSizeMax := halCommRead_length hread
  have hfit : 0 + first.length ≤ packetSizeMax := by omega
  have hself : (c.stack.write 0 first).read 0 first.length = first := c.stack.read_write_self hfit
  have hall : filled.read 0 (first.length + bytes.length) = first ++ bytes := by rw [h.read, hself]
  have henough := h.enough
  have hmax := h.fits
  have hsize : (filled.read 0 msgSize.toNat).length = msgSize.toNat := filled.length_read (by omega)
  refine ⟨hup, hwrite, ?_, ?_, ?_, h.returned, hne, ?_⟩
  · rw [halCommRead_joined hread, h.joined, List.append_assoc]
    rfl
  · rw [hsize, hchar]
    omega
  · have htake : filled.read 0 msgSize.toNat = (first ++ bytes).take msgSize.toNat := by
      rw [← hall, filled.take_read, Nat.min_eq_left (by omega)]
    rw [htake]
    exact List.take_prefix _ _
  · intro hlt
    rw [List.length_append] at hlt
    have hline := halCommRead_short hread (show first.length < packetSizeMax by omega)
    exact ⟨more, hline, h.delivers hlt⟩

/-- A call takes a message off an open line, or takes the watch away. -/
theorem serialIoWatch_cases {go : Bool} {sent : List (List UInt8)} (hret : ∀ r ∈ line, r.Returned)
    (h : serialIoWatch signed c line = some (go, sent, rest)) :
    (go = false ∧ sent = []) ∨
      ∃ message first bytes, go = true ∧ sent = [message] ∧ Sends signed c line message rest first bytes := by
  have hpos : 0 < packetSizeMax := by decide
  unfold serialIoWatch at h
  split at h
  · simp only [Option.some.injEq, Prod.mk.injEq] at h
    exact Or.inl ⟨h.1.symm, h.2.1.symm⟩
  · rename_i hup
    split at h
    · exact absurd h (by simp)
    · rename_i first more hread
      have hlen : first.length ≤ packetSizeMax := halCommRead_length hread
      obtain ⟨hfirst, hmore⟩ := halCommRead_returned hpos hret hread
      simp only [Buf.get_write_zero _ hlen] at h
      have hsize : charVal signed (first.getD 1 (c.stack.get 1)) + 2 ≤ packetSizeMax := by
        have hmax : (255 : Int) + 2 ≤ packetSizeMax := by decide
        have hchar := charVal_le signed (first.getD 1 (c.stack.get 1))
        omega
      split at h
      · exact absurd h (by simp)
      · rename_i filled rest' hloop
        obtain ⟨_, bytes, hres, hlooped⟩ := readLoop_looped hsize _ _ _ hmore hlen hloop
        obtain rfl := Option.some.inj hres
        split at h
        · simp only [Option.some.injEq, Prod.mk.injEq] at h
          exact Or.inl ⟨h.1.symm, h.2.1.symm⟩
        · rename_i hok
          simp only [Option.some.injEq, Prod.mk.injEq] at h
          obtain ⟨rfl, rfl, rfl⟩ := h
          have hwrite : c.writeFails = false := eq_false_of_ne_true fun hw => hok (Or.inr hw)
          have hnat := Int.not_lt.mp fun hneg => hok (Or.inl hneg)
          exact Or.inr ⟨_, first, bytes, rfl, rfl,
            hlooped.sends (eq_false_of_ne_true hup) hwrite hread hfirst rfl hnat⟩
      · rename_i rest' hloop
        obtain ⟨_, _, hres, -⟩ := readLoop_looped hsize _ _ _ hmore hlen hloop
        exact absurd hres (by simp)
    · simp only [Option.some.injEq, Prod.mk.injEq] at h
      exact Or.inl ⟨h.1.symm, h.2.1.symm⟩

/-! ## The calls one after another -/

/-- The first of the calls on an open line: a message and the rest of the line for the other calls, or nothing. -/
theorem mainLoop_cons_cases (cs : List Call) (hret : ∀ r ∈ line, r.Returned) :
    mainLoop signed (c :: cs) line = [] ∨ ∃ message first bytes rest, Sends signed c line message rest first bytes ∧
      mainLoop signed (c :: cs) line = message :: mainLoop signed cs rest := by
  rw [mainLoop]
  split
  · exact Or.inl rfl
  · rename_i sent rest hcall
    rcases serialIoWatch_cases hret hcall with ⟨hgo, -⟩ | ⟨message, first, bytes, -, rfl, hsends⟩
    · exact absurd hgo (by simp)
    · exact Or.inr ⟨message, first, bytes, rest, hsends, rfl⟩
  · rename_i sent rest hcall
    rcases serialIoWatch_cases hret hcall with ⟨-, rfl⟩ | ⟨message, first, bytes, hgo, -, -⟩
    · exact Or.inl rfl
    · exact absurd hgo (by simp)

/-- No byte reaches knotd twice. -/
theorem length_mainLoop (signed : Bool) (cs : List Call) :
    ∀ {line : List Reading}, (∀ r ∈ line, r.Returned) →
      (mainLoop signed cs line).flatten.length ≤ (joined line).length := by
  induction cs with
  | nil =>
    intro line _
    exact Nat.zero_le _
  | cons c cs ih =>
    intro line hret
    rcases mainLoop_cons_cases cs hret with hnone | ⟨message, first, bytes, rest, hsends, hmore⟩
    · rw [hnone]
      exact Nat.zero_le _
    · have hrest := ih hsends.returned
      have htaken := hsends.taken.length_le
      rw [hmore, hsends.joined, List.length_append, List.flatten_cons, List.length_append]
      omega

/-- Nothing reaches knotd from a line on which no byte arrives. -/
theorem mainLoop_silent (cs : List Call) (hret : ∀ r ∈ line, r.Returned)
    (h : joined line = []) : mainLoop signed cs line = [] := by
  cases cs with
  | nil => rfl
  | cons c cs =>
    rcases mainLoop_cons_cases cs hret with hnone | ⟨message, first, bytes, rest, hsends, -⟩
    · exact hnone
    · have hall := hsends.joined
      rw [h, List.append_assoc] at hall
      exact absurd (List.append_eq_nil_iff.mp hall.symm).1 hsends.nonempty

/-- A call whose message is the next datagram, with as many bytes left as the others have, took just that
datagram off the line. -/
theorem Sends.whole (h : Sends signed c line d.bytes rest first bytes) (harr : Arrives (d :: ds) line)
    (hrest : (ds.flatMap Datagram.bytes).length ≤ (Seriald.joined rest).length) :
    first ++ bytes = d.bytes ∧ Seriald.joined rest = ds.flatMap Datagram.bytes := by
  have hall : d.bytes ++ ds.flatMap Datagram.bytes = first ++ bytes ++ Seriald.joined rest := by
    rw [← h.joined, harr.bytes, List.flatMap_cons]
  have hlen := congrArg List.length hall
  rw [List.length_append, List.length_append] at hlen
  have hd : d.bytes = first ++ bytes := h.taken.eq_of_length_le (by omega)
  rw [← hd] at hall
  exact ⟨hd.symm, (List.append_cancel_left hall).symm⟩

/-- Where the messages are the datagrams, the line was cut as it should be. -/
theorem framed_of_mainLoop (cs : List Call) :
    ∀ {ds : List Datagram} {line : List Reading}, Arrives ds line → mainLoop signed cs line = ds.map Datagram.bytes →
      Framed signed cs ds line := by
  induction cs with
  | nil =>
    intro ds line _ h
    obtain rfl := List.map_eq_nil_iff.mp h.symm
    exact .nil [] line
  | cons c cs ih =>
    intro ds line harr h
    cases ds with
    | nil => exact .nil _ line
    | cons d ds =>
      rw [List.map_cons] at h
      rcases mainLoop_cons_cases cs harr.returned with hnone | ⟨message, first, bytes, rest, hsends, hmore⟩
      · rw [hnone] at h
        exact absurd h (by simp)
      · rw [hmore] at h
        obtain ⟨rfl, hmessages⟩ := List.cons.inj h
        have hrest := length_mainLoop signed cs hsends.returned
        rw [hmessages, ← List.flatMap_def] at hrest
        obtain ⟨hd, hleft⟩ := hsends.whole harr hrest
        have hsmall : (first ++ bytes).length < packetSizeMax := by
          have hle := d.le
          rw [hd, d.length_bytes]
          unfold packetSizeMax
          omega
        obtain ⟨more, rfl, hcut⟩ := hsends.cut hsmall
        have hchar := hsends.size
        rw [d.length_bytes] at hchar
        exact .datagram hsends.live hsends.writes hcut hd (by omega) (ih ⟨hsends.returned, hleft⟩ hmessages)

/-- Where the line is cut as it should be, the messages are the datagrams. -/
theorem mainLoop_of_framed {cs : List Call} (h : Framed signed cs ds line) (harr : Arrives ds line) :
    mainLoop signed cs line = ds.map Datagram.bytes := by
  induction h with
  | nil cs line => exact mainLoop_silent cs harr.returned harr.bytes
  | datagram hup hwrite hmore hd hchar _ ih =>
    rw [mainLoop, serialIoWatch_framed hup hwrite hmore hd hchar, List.map_cons, ← ih (harr.tail hmore hd)]
    rfl

end Calls

/-- The messages knotd receives are the datagrams that arrive if and only if the line is cut as it should be. -/
theorem framing_iff {signed : Bool} {cs : List Call} {ds : List Datagram} {line : List Reading} (h : Arrives ds line) :
    mainLoop signed cs line = ds.map Datagram.bytes ↔ Framed signed cs ds line :=
  ⟨framed_of_mainLoop cs h, fun hframed => mainLoop_of_framed hframed h⟩

/-- A call with a cleared stack on an open line. -/
def quiet : Call := ⟨Buf.zero packetSizeMax, false, false⟩

def ping : Datagram := ⟨0x10, [], by decide⟩

def pair : Datagram := ⟨0x20, [0x0A, 0x0B], by decide⟩

/-- A datagram in two chunks with a wait in between, and another one behind it. -/
theorem framing_iff_two :
    mainLoop true [quiet, quiet] [.chunk [0x20, 2], .again, .chunk [0x0A, 0x0B], .chunk [0x10, 0]] =
      [pair.bytes, ping.bytes] := by
  have harr : Arrives [pair, ping] [.chunk [0x20, 2], .again, .chunk [0x0A, 0x0B], .chunk [0x10, 0]] := by
    refine ⟨?_, rfl⟩
    simp [Reading.Returned]
  have hping : Framed true [quiet] [ping] [.chunk [0x10, 0]] :=
    .datagram rfl rfl (.done []) rfl (by decide) (.nil [] [])
  apply (framing_iff harr).mpr
  have hrest : Delivers [.chunk [0x0A, 0x0B], .chunk [0x10, 0]] [0x0A, 0x0B] [.chunk [0x10, 0]] :=
    .chunk [0x0A, 0x0B] (by simp) (.done _)
  exact .datagram rfl rfl (.again (by simp) hrest) rfl (by decide) hping

/-- Two datagrams in one chunk: the second one is lost. -/
theorem datagram_lost : Arrives [pair, ping] [.chunk [0x20, 2, 0x0A, 0x0B, 0x10, 0]] ∧
    mainLoop true [quiet, quiet] [.chunk [0x20, 2, 0x0A, 0x0B, 0x10, 0]] = [pair.bytes] ∧
    [pair, ping].map Datagram.bytes ≠ [pair.bytes] := by
  refine ⟨⟨by simp [Reading.Returned], rfl⟩, ?_, by decide⟩
  have hcall : serialIoWatch true quiet [.chunk [0x20, 2, 0x0A, 0x0B, 0x10, 0]] = some (true, [pair.bytes], []) := by
    have hloop : readLoop 4 (quiet.stack.write 0 [0x20, 2, 0x0A, 0x0B, 0x10, 0]) 6 [] =
        some (some (quiet.stack.write 0 [0x20, 2, 0x0A, 0x0B, 0x10, 0]), []) := readLoop_done (by decide)
    have hchar : charVal true ((quiet.stack.write 0 [0x20, 2, 0x0A, 0x0B, 0x10, 0]).get 1) + 2 = 4 := rfl
    unfold serialIoWatch
    rw [halCommRead_chunk [] (by decide)]
    simp only [hchar, List.length_cons, List.length_nil, hloop]
    rfl
  rw [mainLoop, hcall]
  rfl

end KnotHal.Seriald
