import KnotHal.Nrfd.Clients

/-!
# The sockets to knotd

A descriptor passes from `unix_connect` or `tcp_connect` to the field `ksock` of an entry and to a GLib channel
that closes it with its last reference. What is wanted is that every descriptor was opened as often as it was
closed, and once more for each entry in use that holds it.

* `Held` : that, for what was done so far;
* `SocketEnv.Tidy` : connecting to knotd leaves no descriptor behind, and the field can hold the descriptor;
* `Effect.held_iff` : which effects keep it;
* `descriptors_throughout_iff` : exactly the runs that keep it.
-/

namespace KnotHal.Nrfd

open Machine Slots Nrf24

variable {b : Build}

/-! ## Counting -/

def timesOpened (fd : Int) (acts : List Act) : Nat :=
  acts.countP fun
    | .opened f => f = fd
    | .closed _ | .hal _ _ | .wrote _ _ => false

def timesClosed (fd : Int) (acts : List Act) : Nat :=
  acts.countP fun
    | .closed f => f = fd
    | .opened _ | .hal _ _ | .wrote _ _ => false

def Tables.ksocks (t : Tables) (i : Fin maxPeers) : Int := (t.peers i).ksock

/-- Every descriptor was opened as often as it was closed, and once more for each entry in use that holds it. -/
def Held (acts : List Act) (t : Tables) : Prop :=
  ∀ fd, timesOpened fd acts = timesClosed fd acts + holding (-1) t.fds t.ksocks fd (List.finRange maxPeers)

section Counts
variable {fd : Int} {acts acts' : List Act}

theorem timesOpened_append : timesOpened fd (acts ++ acts') = timesOpened fd acts + timesOpened fd acts' :=
  List.countP_append

theorem timesClosed_append : timesClosed fd (acts ++ acts') = timesClosed fd acts + timesClosed fd acts' :=
  List.countP_append

theorem timesOpened_descriptors : timesOpened fd (descriptors acts) = timesOpened fd acts := by
  unfold timesOpened descriptors
  rw [List.countP_filter]
  congr 1
  funext act
  cases act <;> simp

theorem timesClosed_descriptors : timesClosed fd (descriptors acts) = timesClosed fd acts := by
  unfold timesClosed descriptors
  rw [List.countP_filter]
  congr 1
  funext act
  cases act <;> simp

theorem held_descriptors {t : Tables} : Held (acts ++ descriptors acts') t ↔ Held (acts ++ acts') t := by
  simp only [Held, timesOpened_append, timesClosed_append, timesOpened_descriptors, timesClosed_descriptors]

end Counts

/-! ## Connecting to knotd -/

/-- Where there is a descriptor, it is closed because `setsockopt` fails, or `connect` succeeds and the descriptor
fits in an `int8_t`. -/
def SocketEnv.Tidy (tcp : Bool) (e : SocketEnv) : Prop :=
  match e.socket with
  | .error _ => True
  | .ok fd => (tcp = true ∧ e.setsockopt ≠ none) ∨ (e.connect = none ∧ fd < 128)

theorem int8_eq_self {n : Nat} : int8 n = n ↔ n < 128 := by
  constructor
  · intro h
    have hlt : int8 n < (256 + 1) / 2 := Int.bmod_lt (by decide)
    omega
  · intro h
    rw [int8, Int.bmod_eq_of_le_mul_two] <;> omega

/-- Connecting fails and closes what it opened, or fails and leaves a descriptor open, or returns one. -/
theorem knock_cases (tcp : Bool) (e : SocketEnv) :
    ((Manager.knock tcp e).1 < 0 ∧ e.Tidy tcp ∧
      ∀ fd, timesOpened fd (Manager.knock tcp e).2 = timesClosed fd (Manager.knock tcp e).2) ∨
    ((Manager.knock tcp e).1 < 0 ∧ ¬ e.Tidy tcp ∧ ∃ n : Nat, (Manager.knock tcp e).2 = [.opened n]) ∨
    ∃ n : Nat, Manager.knock tcp e = ((n : Int), [Act.opened n]) ∧ (e.Tidy tcp ↔ int8 n = n) := by
  have hneg : ∀ err : Errno, -(err.val : Int) < 0 := fun err => by
    have := err.property
    omega
  obtain ⟨socket, setsockopt, connect⟩ := e
  cases socket with
  | error err =>
      refine Or.inl ?_
      cases tcp
      · exact ⟨hneg err, trivial, fun _ => rfl⟩
      · exact ⟨hneg err, trivial, fun _ => rfl⟩
  | ok n =>
      cases tcp with
      | false =>
          refine Or.inr ?_
          cases connect with
          | some err => exact Or.inl ⟨hneg err, by simp [SocketEnv.Tidy], n, rfl⟩
          | none => exact Or.inr ⟨n, rfl, by simp [SocketEnv.Tidy, int8_eq_self]⟩
      | true =>
          cases setsockopt with
          | some err =>
              refine Or.inl ⟨hneg err, Or.inl ⟨rfl, by simp⟩, fun fd => ?_⟩
              show [Act.opened n, .closed n].countP _ = [Act.opened n, .closed n].countP _
              simp [List.countP_cons]
          | none =>
              refine Or.inr ?_
              cases connect with
              | some err => exact Or.inl ⟨hneg err, by simp [SocketEnv.Tidy], n, rfl⟩
              | none => exact Or.inr ⟨n, rfl, by simp [SocketEnv.Tidy, int8_eq_self]⟩

/-! ## Turns and the stop -/

section Step
variable {e : DaemonEnv} {tcp : Bool} {t t' : Tables} {i : Fin maxPeers} {a : Applicant} {acts acts' : List Act}

theorem ksocks_free (t : Tables) (i : Fin maxPeers) : (t.free i).ksocks = t.ksocks := by
  funext k
  by_cases hk : k = i
  · subst hk; simp [Tables.ksocks, Tables.free]
  · simp [Tables.ksocks, Tables.free, hk]

theorem ksocks_join (t : Tables) (a : Applicant) (sock : Int) (watch : Nat) :
    (t.join a sock watch).ksocks = Function.update t.ksocks a.position (int8 sock) := by
  funext k
  by_cases hk : k = a.position
  · subst hk; simp [Tables.ksocks, Tables.join]
  · simp [Tables.ksocks, Tables.join, hk]

theorem holding_free (hi : t.fds i ≠ -1) (fd : Int) :
    holding (-1) (t.free i).fds (t.free i).ksocks fd (List.finRange maxPeers) + (if t.ksocks i = fd then 1 else 0) =
      holding (-1) t.fds t.ksocks fd (List.finRange maxPeers) := by
  rw [fds_free, ksocks_free]
  exact holding_release (List.nodup_finRange maxPeers) (List.mem_finRange i) hi fd

theorem holding_join (hfree : t.fds a.position = -1) (hnsk : int8 a.nsk ≠ -1) (sock : Int) (watch : Nat) (fd : Int) :
    holding (-1) (t.join a sock watch).fds (t.join a sock watch).ksocks fd (List.finRange maxPeers) =
      holding (-1) t.fds t.ksocks fd (List.finRange maxPeers) + if int8 sock = fd then 1 else 0 := by
  rw [fds_join, ksocks_join]
  exact holding_occupy (List.nodup_finRange maxPeers) (List.mem_finRange a.position) hfree hnsk fd

theorem Held.append (h : Held acts t) (heven : ∀ fd, timesOpened fd acts' = timesClosed fd acts') :
    Held (acts ++ acts') t := by
  intro fd
  rw [timesOpened_append, timesClosed_append, heven fd, h fd]
  omega

/-- Nobody leaves, and for who applies connecting to knotd leaves nothing behind. -/
theorem Effect.held_iff {leave : Option (Fin maxPeers)} {apply : Option Applicant} (hclients : Clients t)
    (h : Held acts t) (heffect : Effect e tcp t leave apply acts' t') :
    Held (acts ++ acts') t' ↔ leave = none ∧ ∀ a ∈ apply, e.knotd.Tidy tcp := by
  have happly : ∀ a : Applicant, ((none : Option (Fin maxPeers)) = none ∧ ∀ a' ∈ some a, e.knotd.Tidy tcp) ↔
      e.knotd.Tidy tcp := fun a => by simp
  cases heffect with
  | kept =>
      rw [List.append_nil]
      exact iff_of_true h ⟨rfl, by simp⟩
  | left i watch =>
      refine iff_of_false (fun hall => ?_) (by simp)
      -- the descriptor is closed twice
      have hk := hall (t.ksocks i)
      have hfree := holding_free ((hclients.watch i).mpr watch) (t.ksocks i)
      have hclosed : timesClosed (t.ksocks i) [.closed (t.peers i).ksock, .closed (t.peers i).ksock] = 2 := by
        simp [timesClosed, Tables.ksocks]
      have hopened : timesOpened (t.ksocks i) [.closed (t.peers i).ksock, .closed (t.peers i).ksock] = 0 := by
        simp [timesOpened]
      rw [timesOpened_append, timesClosed_append, hclosed, hopened, h (t.ksocks i)] at hk
      rw [if_pos rfl] at hfree
      omega
  | refused a sock =>
      rw [happly]
      rcases knock_cases tcp e.knotd with ⟨-, htidy, heven⟩ | ⟨-, hleak, n, hacts⟩ | ⟨n, hknock, -⟩
      · exact iff_of_true (h.append heven) htidy
      · refine iff_of_false (fun hall => ?_) hleak
        have hn := hall n
        rw [hacts, timesOpened_append, timesClosed_append, h n] at hn
        simp [timesOpened, timesClosed] at hn
      · rw [hknock] at sock
        exact absurd sock (not_lt.mpr (Int.natCast_nonneg n))
  | joined a sock free new room pos le =>
      rw [happly]
      rcases knock_cases tcp e.knotd with ⟨hneg, -⟩ | ⟨hneg, -⟩ | ⟨n, hknock, hfits⟩
      · exact absurd sock (not_le.mpr hneg)
      · exact absurd sock (not_le.mpr hneg)
      · have hnsk : int8 a.nsk ≠ -1 := by
          rw [int8_nsk pos le]
          omega
        have hopened : ∀ fd, timesOpened fd [.opened n] = if (n : Int) = fd then 1 else 0 := fun fd => by
          simp [timesOpened, List.countP_cons]
        have hclosed : ∀ fd, timesClosed fd [.opened n] = 0 := fun fd => by simp [timesClosed]
        rw [hknock, hfits]
        constructor
        · intro hall
          have hn := hall n
          rw [timesOpened_append, timesClosed_append, holding_join free hnsk, hopened, hclosed, if_pos rfl, h n] at hn
          by_contra hne
          rw [if_neg hne] at hn
          omega
        · intro hsame fd
          rw [timesOpened_append, timesClosed_append, holding_join free hnsk, hopened, hclosed, hsame, h fd]
          omega

/-- The stop closes the descriptor of every entry in use twice. -/
theorem held_stop {es : Fin maxPeers → DaemonEnv} {he : Nrf24.Env} {m m' : Manager b} {o : Out}
    (hclients : Clients m.tables) (h : Held acts m.tables) (hstop : serve (.stop es he) m = .ok (o, m')) :
    Held (acts ++ o.acts) m'.tables ↔ ∀ i, (m.peers i).socketFd = -1 := by
  rw [← held_descriptors]
  constructor
  · intro hall
    -- what was closed and what is held outweigh what was held, as soon as one entry goes
    have hweigh := stop_keeps (I := fun t acts' => Clients t ∧ (∀ fd, timesOpened fd acts' = 0) ∧
        (∀ fd, holding (-1) m.tables.fds m.tables.ksocks fd (List.finRange maxPeers) ≤
          timesClosed fd acts' + holding (-1) t.fds t.ksocks fd (List.finRange maxPeers)) ∧
        (t = m.tables ∨ ∃ fd, holding (-1) m.tables.fds m.tables.ksocks fd (List.finRange maxPeers) <
          timesClosed fd acts' + holding (-1) t.fds t.ksocks fd (List.finRange maxPeers)))
      (fun i t acts' ⟨ht, hopened, hle, hlt⟩ hactive _ => by
        have htwice : ∀ fd, timesClosed fd [.closed (t.peers i).ksock, .closed (t.peers i).ksock] =
            2 * if t.ksocks i = fd then 1 else 0 := fun fd => by
          by_cases hfd : (t.peers i).ksock = fd <;> simp [timesClosed, Tables.ksocks, hfd]
        refine ⟨ht.free hactive, fun fd => ?_, fun fd => ?_, Or.inr ⟨t.ksocks i, ?_⟩⟩
        · rw [timesOpened_append, hopened]
          simp [timesOpened]
        · have := holding_free hactive fd
          have := hle fd
          rw [timesClosed_append, htwice]
          omega
        · have hfree := holding_free hactive (t.ksocks i)
          have := hle (t.ksocks i)
          rw [timesClosed_append, htwice]
          rw [if_pos rfl] at hfree ⊢
          omega)
      ⟨hclients, fun _ => rfl, fun fd => by simp [timesClosed], Or.inl rfl⟩ hstop
    obtain ⟨-, hopened, -, hsame | ⟨fd, hmore⟩⟩ := hweigh
    · intro i
      have hfreed := stop_frees hclients hstop i
      rw [hsame] at hfreed
      exact hfreed
    · have hfd := hall fd
      rw [timesOpened_append, timesClosed_append, hopened fd, h fd] at hfd
      omega
  · intro hfree
    have hidle := stop_keeps (I := fun t acts' => t = m.tables ∧ acts' = []) (fun i t acts' ⟨ht, _⟩ hactive _ => by
      rw [ht] at hactive
      exact absurd (hfree i) hactive) ⟨rfl, rfl⟩ hstop
    rw [hidle.1, hidle.2, List.append_nil]
    exact h

end Step

/-! ## Runs -/

/-- In a turn nobody leaves, and for who applies connecting to knotd leaves nothing behind; and the daemon stops
while no entry is in use. -/
def KeepsDescriptors (input : Input) (m : Manager b) : Prop :=
  match input with
  | .turn ee => leaver ee m = none ∧ ∀ a ∈ applicant ee m, ee.2.knotd.Tidy m.tcp
  | .stop _ _ => ∀ i, (m.peers i).socketFd = -1

section Runs
variable {created : Bool} {file : KeysFile} {mac : Mac} {tcp : Bool} {err : Nat} {e₀ : Nrf24.Env} {m₀ m m' : Manager b}

def done (past : List (Input × Out)) : List Act := past.flatMap fun io => io.2.acts

theorem held_serve {past : List (Input × Out)} {input : Input} {o : Out} (hm : Clients m.tables)
    (hpast : Held (done past) m.tables) (h : serve input m = .ok (o, m')) :
    Held (done (past ++ [(input, o)])) m'.tables ↔ KeepsDescriptors input m := by
  have hdone : done (past ++ [(input, o)]) = done past ++ o.acts := by simp [done]
  rw [hdone]
  cases input with
  | turn ee =>
      obtain ⟨a, -, heffect⟩ := (step_turned h).tables
      have hm' : Clients { m.tables with adapter := a } := ⟨hm.count, hm.macs, hm.watch⟩
      have hpast' : Held (done past) { m.tables with adapter := a } := hpast
      rw [← held_descriptors]
      exact heffect.held_iff hm' hpast'
  | stop e he => exact held_stop hm hpast h

/-- In every run, every descriptor has been opened as often as it was closed and once more for each entry in use
that holds it, in every state reached, exactly when no entry is ever freed, and connecting to knotd fails without a
descriptor, or closes it, or returns one below 128. -/
theorem descriptors_throughout_iff (hstart : Manager.managerStart b created file mac tcp err e₀ = .ok (0, m₀))
    {is : List Input} {os : List Out} (hrun : exec serve is m₀ = .ok (os, m)) :
    (∀ js os₁ t, js <+: is → exec serve js m₀ = .ok (os₁, t) → ∀ fd,
      timesOpened fd (done (js.zip os₁)) = timesClosed fd (done (js.zip os₁)) +
        (List.finRange maxPeers).countP fun i => (t.peers i).socketFd ≠ -1 ∧ (t.peers i).ksock = fd) ↔
      Along KeepsDescriptors serve is m₀ := by
  have hclients := clients_start hstart
  have hfree : ∀ i, m₀.tables.fds i = -1 := by
    obtain ⟨-, -, -, -, -, hpeers⟩ := Manager.managerStart_started hstart
    exact fun i => congrArg Peer.socketFd (hpeers i)
  have hfirst : Held (done []) m₀.tables := by
    intro fd
    rw [holding_eq_zero fun i _ => hfree i]
    rfl
  exact exec_traced_iff (I := fun m : Manager b => Clients m.tables) (R := fun past m => Held (done past) m.tables)
    (fun _ _ _ _ hm h => clients_serve hm h) (fun _ _ _ _ _ _ hm hpast h => held_serve hm hpast h) [] hclients hfirst
    hrun

end Runs

/-- The first device announces itself and is connected to knotd on descriptor 9. -/
def lampJoins : List Input := [.turn (idling 0 fun _ => []), .turn (announcing 5 lampMac)]

/-- A device is connected, and its descriptor is held. -/
theorem descriptors_throughout_lamp :
    ∃ m₀ os m, starting = .ok (0, m₀) ∧ exec serve lampJoins m₀ = .ok (os, m) ∧ (m.peers (0 : Fin 5)).ksock = 9 ∧
      timesOpened 9 (done (lampJoins.zip os)) = timesClosed 9 (done (lampJoins.zip os)) +
        (List.finRange maxPeers).countP fun i => (m.peers i).socketFd ≠ -1 ∧ (m.peers i).ksock = 9 := by
  obtain ⟨m₀, hstart⟩ : ∃ m₀, starting = .ok (0, m₀) := ⟨_, rfl⟩
  have hkeeps : Along KeepsDescriptors serve lampJoins m₀ := by
    cases hstart
    refine Along.cons ⟨rfl, fun a ha => ?_⟩ rfl (Along.cons ⟨rfl, fun a _ => ?_⟩ rfl trivial)
    · cases ha
    · exact Or.inr ⟨rfl, by decide⟩
  obtain ⟨os, m, hrun, hsock⟩ : ∃ os m, exec serve lampJoins m₀ = .ok (os, m) ∧ (m.peers (0 : Fin 5)).ksock = 9 := by
    cases hstart
    exact ⟨_, _, rfl, rfl⟩
  have hheld := (descriptors_throughout_iff hstart hrun).mpr hkeeps
  exact ⟨m₀, os, m, hstart, hrun, hsock, hheld lampJoins os m (List.prefix_refl _) hrun 9⟩

/-- The callback of an event, with knotd's answer to a connection and the state of its socket. -/
def withKnotd (ee : Event × DaemonEnv) (knotd : SocketEnv) (hangup : Bool) : Input :=
  .turn (ee.1, { ee.2 with knotd := knotd, hangup := hangup })

/-- The descriptor of a client is closed twice where knotd hangs up; one for which `connect` fails is never closed; and
of descriptor 200 the entry holds something else. -/
theorem descriptors_astray :
    ∃ m₀, starting = .ok (0, m₀) ∧
      (∃ os m, exec serve (lampJoins ++
          [withKnotd (.knotd (0 : Fin 5), (idling 8 fun _ => []).2) ⟨.ok 9, none, none⟩ true]) m₀ =
        .ok (os, m) ∧ m.countClients = 0 ∧ timesOpened 9 (os.flatMap Out.acts) = 1 ∧
        timesClosed 9 (os.flatMap Out.acts) = 2) ∧
      (∃ os m, exec serve [.turn (idling 0 fun _ => []),
        withKnotd (announcing 5 lampMac) ⟨.ok 9, none, some ⟨111, by decide⟩⟩ false] m₀ = .ok (os, m) ∧
        m.countClients = 0 ∧ timesOpened 9 (os.flatMap Out.acts) = 1 ∧
        timesClosed 9 (os.flatMap Out.acts) = 0) ∧
      ∃ os m, exec serve [.turn (idling 0 fun _ => []),
        withKnotd (announcing 5 lampMac) ⟨.ok 200, none, none⟩ false] m₀ =
        .ok (os, m) ∧ timesOpened 200 (os.flatMap Out.acts) = 1 ∧ timesClosed 200 (os.flatMap Out.acts) = 0 ∧
        (m.peers (0 : Fin 5)).ksock = -56 := by
  exact ⟨_, rfl, ⟨_, _, rfl, rfl, rfl, rfl⟩, ⟨_, _, rfl, rfl, rfl, rfl⟩, _, _, rfl, rfl, rfl, rfl⟩

end KnotHal.Nrfd
