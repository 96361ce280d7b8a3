import KnotHal.Nrfd.Table

/-!
# One turn of the main loop

What a callback can do to the clients: nothing, free the entry of one that leaves, refuse one that applies, or
give it an entry. Who leaves and who applies is told from the state before the turn.

* `Effect` : the four things;
* `Does` : a part of a callback with its effect, the calls of the radio layer and the descriptors;
* `leaver`, `applicant` : who leaves or applies in a turn;
* `Turned`, `step_turned` : a turn of the main loop;
* `serve`, `stop_keeps` : the daemon with its stop, which frees every entry.
-/

namespace KnotHal.Nrfd

open Machine Slots Nrf24

variable {b : Build}

/-! ## What was done -/

def descriptors (acts : List Act) : List Act :=
  acts.filter fun
    | .opened _ | .closed _ => true
    | .hal _ _ | .wrote _ _ => false

def radioCalls (acts : List Act) : List ((Call × Nrf24.Env) × Nrf24.Out) :=
  acts.filterMap fun
    | .hal call out => some (call, out)
    | .opened _ | .closed _ | .wrote _ _ => none

/-- The radio layer went from `s` to `s'` by the calls among the acts. -/
def Radioed (acts : List Act) (s s' : Nrf b) : Prop :=
  exec Nrf24.step ((radioCalls acts).map Prod.fst) s = .ok ((radioCalls acts).map Prod.snd, s')

/-- The calls of the radio layer in a turn that passes nothing on from knotd. -/
def Polls : Call → Prop
  | .socket _ _ | .close _ | .read _ _ | .connect _ _ => True
  | .init _ _ | .deinit | .write _ _ | .listen | .accept => False

section Acts
variable {acts acts' : List Act} {s s₁ s' : Nrf b}

theorem descriptors_append (acts acts' : List Act) :
    descriptors (acts ++ acts') = descriptors acts ++ descriptors acts' := List.filter_append ..

theorem radioCalls_append (acts acts' : List Act) : radioCalls (acts ++ acts') = radioCalls acts ++ radioCalls acts' :=
  List.filterMap_append ..

theorem Radioed.nil (s : Nrf b) : Radioed [] s s := rfl

theorem Radioed.append (h : Radioed acts s s₁) (h' : Radioed acts' s₁ s') : Radioed (acts ++ acts') s s' := by
  unfold Radioed
  rw [radioCalls_append, List.map_append, List.map_append]
  exact exec_append_ok.mpr ⟨_, s₁, _, h, h', rfl⟩

theorem Radioed.one {ce : Call × Nrf24.Env} {o : Nrf24.Out} (h : Nrf24.step ce s = .ok (o, s')) :
    Radioed [.hal ce o] s s' :=
  exec_cons_ok.mpr ⟨o, s', [], h, rfl, rfl⟩

theorem Radioed.silent (h : radioCalls acts = []) (s : Nrf b) : Radioed acts s s := by
  unfold Radioed
  rw [h]
  rfl

/-- What connecting to knotd does concerns descriptors only. -/
theorem knock_acts (tcp : Bool) (e : SocketEnv) :
    descriptors (Manager.knock tcp e).2 = (Manager.knock tcp e).2 ∧ radioCalls (Manager.knock tcp e).2 = [] := by
  obtain ⟨socket, setsockopt, connect⟩ := e
  cases tcp <;> cases socket <;> cases setsockopt <;> cases connect <;> exact ⟨rfl, rfl⟩

end Acts

/-! ## The effect of a turn -/

/-- What happens to the tables where `leave` is the entry of who leaves and `apply` is who applies, with the
descriptors that are opened and closed. -/
inductive Effect (e : DaemonEnv) (tcp : Bool) (t : Tables) :
    (leave : Option (Fin maxPeers)) → (apply : Option Applicant) → List Act → Tables → Prop
  | kept : Effect e tcp t none none [] t
  | left (i : Fin maxPeers) (watch : (t.peers i).kwatch ≠ 0) :
      Effect e tcp t (some i) none [.closed (t.peers i).ksock, .closed (t.peers i).ksock] (t.free i)
  | refused (a : Applicant) (sock : (Manager.knock tcp e.knotd).1 < 0) :
      Effect e tcp t none (some a) (Manager.knock tcp e.knotd).2 t
  | joined (a : Applicant) (sock : 0 ≤ (Manager.knock tcp e.knotd).1) (free : (t.peers a.position).socketFd = -1)
      (new : ∀ i, (t.peers i).socketFd ≠ -1 → (t.peers i).mac ≠ a.mac) (room : t.countClients < maxPeers)
      (pos : 0 ≤ a.nsk) (le : a.nsk ≤ 5) :
      Effect e tcp t none (some a) (Manager.knock tcp e.knotd).2 (t.join a (Manager.knock tcp e.knotd).1 e.watch.val)

/-- A part of a callback that passes nothing on from knotd. -/
structure Does (e : DaemonEnv) (leave : Option (Fin maxPeers)) (apply : Option Applicant) (m m' : Manager b) :
    Prop where
  acts : ∃ acts, m'.acts = m.acts ++ acts ∧ Effect e m.tcp m.tables leave apply (descriptors acts) m'.tables ∧
    Radioed acts m.radio m'.radio ∧ ∀ c ∈ radioCalls acts, Polls c.1.1
  mgmtfd : m'.mgmtfd = m.mgmtfd
  tcp : m'.tcp = m.tcp

/-- A part of a callback in which nobody leaves or applies. -/
abbrev Works (e : DaemonEnv) (m m' : Manager b) : Prop := Does e none none m m'

section Does
variable {e : DaemonEnv} {leave : Option (Fin maxPeers)} {apply : Option Applicant} {m m₁ m' : Manager b}
  {i : Fin maxPeers} {mac : Mac}

theorem Effect.kept_iff {tcp : Bool} {t t' : Tables} {acts : List Act} :
    Effect e tcp t none none acts t' ↔ acts = [] ∧ t' = t := by
  constructor
  · intro h
    cases h
    exact ⟨rfl, rfl⟩
  · rintro ⟨rfl, rfl⟩
    exact .kept

theorem Does.refl (m : Manager b) : Works e m m :=
  ⟨⟨[], by simp, .kept, .nil m.radio, by simp [radioCalls]⟩, rfl, rfl⟩

theorem Does.after (h : Works e m m₁) (h' : Does e leave apply m₁ m') : Does e leave apply m m' := by
  obtain ⟨acts, hacts, heffect, hradio, hpolls⟩ := h.acts
  obtain ⟨acts', hacts', heffect', hradio', hpolls'⟩ := h'.acts
  obtain ⟨hnone, hsame⟩ := Effect.kept_iff.mp heffect
  refine ⟨⟨acts ++ acts', by rw [hacts', hacts, List.append_assoc], ?_, hradio.append hradio', ?_⟩,
    h'.mgmtfd.trans h.mgmtfd, h'.tcp.trans h.tcp⟩
  · rw [descriptors_append, hnone, List.nil_append, ← hsame, ← h.tcp]
    exact heffect'
  · intro c hc
    rw [radioCalls_append] at hc
    exact (List.mem_append.mp hc).elim (hpolls c) (hpolls' c)

theorem Does.before (h : Does e leave apply m m₁) (h' : Works e m₁ m') : Does e leave apply m m' := by
  obtain ⟨acts, hacts, heffect, hradio, hpolls⟩ := h.acts
  obtain ⟨acts', hacts', heffect', hradio', hpolls'⟩ := h'.acts
  obtain ⟨hnone, hsame⟩ := Effect.kept_iff.mp heffect'
  refine ⟨⟨acts ++ acts', by rw [hacts', hacts, List.append_assoc], ?_, hradio.append hradio', ?_⟩,
    h'.mgmtfd.trans h.mgmtfd, h'.tcp.trans h.tcp⟩
  · rw [descriptors_append, hnone, List.append_nil, hsame]
    exact heffect
  · intro c hc
    rw [radioCalls_append] at hc
    exact (List.mem_append.mp hc).elim (hpolls c) (hpolls' c)

theorem Does.hal {c : Call} {he : Nrf24.Env} {o : Nrf24.Out} (h : m.hal c he = .ok (o, m')) (hc : Polls c) :
    Works e m m' := by
  obtain ⟨radio, hstep, rfl⟩ := Manager.hal_eq_ok.mp h
  exact ⟨⟨[.hal (c, he) o], rfl, .kept, .one hstep, by simpa [radioCalls] using hc⟩, rfl, rfl⟩

theorem removeWatch_does (hwatch : (m.peers i).kwatch ≠ 0) (h : m.removeWatch e i = .ok m') :
    Does e (some i) none m m' := by
  obtain ⟨o, radio, hclose, rfl⟩ := Manager.removeWatch_cases h
  refine ⟨⟨_, rfl, .left i hwatch, ?_, by simp [radioCalls, Polls]⟩, rfl, rfl⟩
  exact (Radioed.one hclose).append (.silent rfl radio)

end Does

/-! ## Presence -/

/-- Who applies where a thing with permission has no entry: a free entry and a radio socket are needed. -/
def candidate (e : DaemonEnv) (mac : Mac) (m : Manager b) : Option Applicant :=
  m.getPeerIndex.bind fun position =>
    match Nrf24.step (.socket pfNrf24 protoRaw, e.hal .socket) m.radio with
    | .error _ => none
    | .ok (o, _) => if o.ret < 0 then none else some ⟨mac, position, o.ret⟩

def presenceApplicant (e : DaemonEnv) (buffer : Buf 256) (m : Manager b) : Option Applicant :=
  let mac : Mac := buffer.sub mgmtHdrLen 8
  if (m.peerBcastTable (nrf24Mac2str mac) = none → e.memory = true) ∧ 0 ≤ m.adapter.checkPermission mac ∧
      m.countClients < maxPeers ∧ m.getPeer mac = none then candidate e mac m
  else none

/-- The entry that a DISCONNECTED event frees. -/
def leavesBy (buffer : Buf 256) (m : Manager b) : Option (Fin maxPeers) :=
  if m.countClients = 0 then none
  else (m.getPeer (buffer.sub mgmtHdrLen 8)).filter fun i => (m.peers i).kwatch ≠ 0

section Events
variable {e : DaemonEnv} {buffer : Buf 256} {m m' : Manager b} {i : Fin maxPeers} {mac : Mac} {r : Int}

theorem socket_range {he : Nrf24.Env} {o : Nrf24.Out} {s s' : Nrf b}
    (h : Nrf24.step (.socket pfNrf24 protoRaw, he) s = .ok (o, s')) : o.ret < 0 ∨ o.ret ≤ 5 := by
  have hconn := b.connections_le
  rcases Nrf.halCommSocket_cases (step_eq_ok.mp h).1 with ⟨hret, -⟩ | ⟨-, -, hr, -⟩ | ⟨-, -, -, i, s₁, -, hr, -⟩
  · exact Or.inl hret
  · have hret : o.ret = 0 := congrArg Ret.ret hr
    omega
  · have hret : o.ret = i + 1 := congrArg Ret.ret hr
    have hi := i.isLt
    omega

theorem newPeer_does {p : Except Int (Fin maxPeers)} (hnone : m.getPeer mac = none) (hroom : m.countClients < maxPeers)
    (h : m.newPeer e mac = .ok (p, m')) : Does e none (candidate e mac m) m m' := by
  rcases Manager.newPeer_cases h with ⟨-, hindex, rfl⟩ | ⟨position, o, radio, hindex, hstep, hrest⟩
  · rw [candidate, hindex]
    exact .refl m'
  have hcandidate : candidate e mac m = if o.ret < 0 then none else some ⟨mac, position, o.ret⟩ := by
    rw [candidate, hindex, Option.bind_some, hstep]
  obtain ⟨hdesc, hsilent⟩ := knock_acts m.tcp e.knotd
  rcases hrest with ⟨hneg, -, rfl⟩ | ⟨hpos, hfail, -, o₂, radio₂, hclose, rfl⟩ | ⟨hpos, hmade, -, rfl⟩
  · rw [hcandidate, if_pos hneg]
    exact .hal (Manager.hal_eq_ok.mpr ⟨radio, hstep, rfl⟩) trivial
  · rw [hcandidate, if_neg (not_lt.mpr hpos)]
    refine ⟨⟨_, rfl, ?_, ?_, ?_⟩, rfl, rfl⟩
    · have hall : descriptors (.hal (.socket pfNrf24 protoRaw, e.hal .socket) o ::
          ((Manager.knock m.tcp e.knotd).2 ++ [.hal (.close o.ret, e.hal .giveUp) o₂])) =
          (Manager.knock m.tcp e.knotd).2 := by
        rw [← List.singleton_append, descriptors_append, descriptors_append, hdesc]
        simp [descriptors]
      rw [hall]
      exact .refused _ hfail
    · exact (Radioed.one hstep).append ((Radioed.silent hsilent radio).append (.one hclose))
    · rw [← List.singleton_append, radioCalls_append, radioCalls_append, hsilent]
      simp [radioCalls, Polls]
  · rw [hcandidate, if_neg (not_lt.mpr hpos)]
    refine ⟨⟨_, rfl, ?_, ?_, ?_⟩, rfl, rfl⟩
    · have hall : descriptors (.hal (.socket pfNrf24 protoRaw, e.hal .socket) o :: (Manager.knock m.tcp e.knotd).2) =
          (Manager.knock m.tcp e.knotd).2 := by
        rw [← List.singleton_append, descriptors_append, hdesc]
        simp [descriptors]
      rw [hall]
      exact .joined ⟨mac, position, o.ret⟩ hmade (getPeerIndex_eq_some hindex) (getPeer_eq_none hnone) hroom hpos
        ((socket_range hstep).resolve_left (not_lt.mpr hpos))
    · exact (Radioed.one hstep).append (.silent hsilent radio)
    · rw [← List.singleton_append, radioCalls_append, hsilent]
      simp [radioCalls, Polls]

theorem evtPresence_does (h : m.evtPresence e buffer = .ok (r, m')) :
    Does e none (presenceApplicant e buffer m) m m' := by
  unfold Manager.evtPresence at h
  unfold presenceApplicant
  dsimp only at h ⊢
  generalize buffer.sub mgmtHdrLen 8 = mac at h
  obtain ⟨⟨err, m₁⟩, hnote, h₁⟩ := bind_eq_ok.mp h
  clear h
  obtain ⟨herr, table, rfl⟩ := Manager.noteBeacon_cases hnote
  have hnoted : Works e m { m with peerBcastTable := table } := ⟨⟨[], by simp, .kept, .nil m.radio, by
    simp [radioCalls]⟩, rfl, rfl⟩
  dsimp only at h₁
  split at h₁
  · rename_i hneg
    obtain ⟨-, rfl⟩ := Prod.mk.inj (Except.ok.inj h₁)
    obtain ⟨hnew, hmem⟩ := herr.mp hneg
    rw [if_neg fun hall => absurd (hall.1 hnew) (by rw [hmem]; decide)]
    exact hnoted
  · rename_i hpos
    have hmem : m.peerBcastTable (nrf24Mac2str mac) = none → e.memory = true := fun hnew => by
      by_contra hno
      exact hpos (herr.mpr ⟨hnew, by simpa using hno⟩)
    obtain ⟨⟨p, m₂⟩, hpeer, h₂⟩ := bind_eq_ok.mp h₁
    clear h₁
    -- the connect at the end is one more call
    have hconnect : Works e m₂ m' := by
      cases p with
      | error err₂ =>
          obtain ⟨-, rfl⟩ := Prod.mk.inj (Except.ok.inj h₂)
          exact .refl m₂
      | ok position =>
          obtain ⟨⟨o, m₃⟩, hconn, h₃⟩ := bind_eq_ok.mp h₂
          obtain ⟨-, rfl⟩ := Prod.mk.inj (Except.ok.inj h₃)
          exact .hal hconn trivial
    refine Does.before ?_ hconnect
    rcases Manager.presencePeer_cases hpeer with
      ⟨hwhy, -, rfl⟩ | ⟨hpermit, hroom, ⟨position, -, hsome, rfl⟩ | ⟨hnone, hnew⟩⟩
    · rw [if_neg fun hall => hwhy.elim (not_lt.mpr hall.2.1) (not_le.mpr hall.2.2.1)]
      exact hnoted
    · rw [if_neg fun hall => absurd (hsome.symm.trans hall.2.2.2) (by simp)]
      exact hnoted
    · rw [if_pos ⟨hmem, hpermit, hroom, hnone⟩]
      exact .after hnoted (newPeer_does hnone hroom hnew)

theorem evtDisconnected_does (h : m.evtDisconnected e buffer = .ok (r, m')) :
    Does e (leavesBy buffer m) none m m' := by
  unfold Manager.evtDisconnected at h
  unfold leavesBy
  split at h
  · rename_i hcount
    obtain ⟨-, rfl⟩ := Prod.mk.inj (Except.ok.inj h)
    rw [if_pos hcount]
    exact .refl m
  · rename_i hcount
    rw [if_neg hcount]
    split at h
    · rename_i hnone
      obtain ⟨-, rfl⟩ := Prod.mk.inj (Except.ok.inj h)
      rw [hnone]
      exact .refl m
    · rename_i position hsome
      obtain ⟨m₁, hremove, h₁⟩ := bind_eq_ok.mp h
      obtain ⟨-, rfl⟩ := Prod.mk.inj (Except.ok.inj h₁)
      rw [hsome]
      unfold Manager.sourceRemove at hremove
      split at hremove
      · rename_i hwatch
        cases hremove
        rw [Option.filter_some, if_neg (by simpa using hwatch)]
        exact .refl m
      · rename_i hwatch
        rw [Option.filter_some, if_pos (by simpa using hwatch)]
        exact removeWatch_does hwatch hremove

theorem mgmtEvent_does (h : m.mgmtEvent e buffer = .ok (r, m')) :
    Does e (if buffer.get 1 &&& 0x02 ≠ 0 ∧ buffer.read 0 2 = Nrf24.evtDisconnected then leavesBy buffer m else none)
      (if buffer.get 1 &&& 0x02 ≠ 0 ∧ buffer.read 0 2 = evtBcastPresence then presenceApplicant e buffer m else none)
      m m' := by
  unfold Manager.mgmtEvent at h
  split at h
  · rename_i hdir
    obtain ⟨-, rfl⟩ := Prod.mk.inj (Except.ok.inj h)
    rw [if_neg fun hall => hall.1 hdir, if_neg fun hall => hall.1 hdir]
    exact .refl m
  · rename_i hdir
    split at h
    · rename_i hop
      obtain ⟨⟨r₁, m₁⟩, hpresence, h₁⟩ := bind_eq_ok.mp h
      obtain ⟨-, rfl⟩ := Prod.mk.inj (Except.ok.inj h₁)
      rw [if_neg fun hall => absurd (hop.symm.trans hall.2) (by decide), if_pos ⟨hdir, hop⟩]
      exact evtPresence_does hpresence
    · rename_i hop
      rw [if_neg (c := _ ∧ buffer.read 0 2 = evtBcastPresence) fun hall => hop hall.2]
      split at h
      · rename_i hdis
        obtain ⟨⟨r₁, m₁⟩, hevent, h₁⟩ := bind_eq_ok.mp h
        obtain ⟨-, rfl⟩ := Prod.mk.inj (Except.ok.inj h₁)
        rw [if_pos ⟨hdir, hdis⟩]
        exact evtDisconnected_does hevent
      · rename_i hdis
        obtain ⟨-, rfl⟩ := Prod.mk.inj (Except.ok.inj h)
        rw [if_neg fun hall => hdis hall.2]
        exact .refl m

end Events

/-! ## Who leaves and who applies -/

/-- The event that `mgmt_read` finds in its buffer, and the state in which it handles it. -/
def heard (e : DaemonEnv) (m : Manager b) : Option (Buf 256 × Manager b) :=
  match m.hal (.read m.mgmtfd 256) (e.hal .mgmtRead) with
  | .error _ => none
  | .ok (o, m) =>
    let buffer := e.buffer.write 0 o.data
    if o.ret < 0 ∨ buffer.get 1 &&& 0x02 = 0 then none else some (buffer, m)

/-- The entry that a turn frees: that of a thing whose DISCONNECTED event is read, or of a watch that reports the
end. -/
def leaver (ee : Event × DaemonEnv) (m : Manager b) : Option (Fin maxPeers) :=
  match ee.1 with
  | .idle => (heard ee.2 m).bind fun (buffer, m) =>
      if buffer.read 0 2 = Nrf24.evtDisconnected then leavesBy buffer m else none
  | .knotd i => if (m.peers i).kwatch ≠ 0 ∧ ee.2.ends = true then some i else none
  | .request _ | .busAcquired | .timeout => none

def applicant (ee : Event × DaemonEnv) (m : Manager b) : Option Applicant :=
  match ee.1 with
  | .idle => (heard ee.2 m).bind fun (buffer, m) =>
      if buffer.read 0 2 = evtBcastPresence then presenceApplicant ee.2 buffer m else none
  | .knotd _ | .request _ | .busAcquired | .timeout => none

/-- What a turn does to the devices before anything else. -/
inductive Administers (ee : Event × DaemonEnv) (a : Adapter) : Adapter → Prop
  | answered (req : Request) (event : ee.1 = .request req) (r : Bool) {a' : Adapter}
      (step : Adapter.step (req, ee.2.device) a = .ok (r, a')) : Administers ee a a'
  | acquired (event : ee.1 = .busAcquired) {a' : Adapter} (bus : a.onBusAcquired ee.2.ids = .ok a') :
      Administers ee a a'
  | none (event : ∀ req, ee.1 ≠ .request req) : Administers ee a a

/-- The message that a turn takes from the socket to knotd, and what became of it. -/
structure Forwards (ee : Event × DaemonEnv) (m : Manager b) (i : Fin maxPeers) (message : List UInt8)
    (out : Nrf24.Out) (acts : List Act) : Prop where
  event : ee.1 = .knotd i
  watch : (m.peers i).kwatch ≠ 0
  ends : ee.2.ends = false
  read : ∃ waiting, ee.2.read = .normal waiting ∧ message = waiting.take 128
  acts : acts = [.hal (.write (m.peers i).socketFd message, ee.2.hal .write) out]

/-- What one turn of the main loop does. -/
structure Turned (ee : Event × DaemonEnv) (m : Manager b) (o : Out) (m' : Manager b) : Prop where
  tables : ∃ a, Administers ee m.adapter a ∧ Effect ee.2 m.tcp { m.tables with adapter := a } (leaver ee m)
    (applicant ee m) (descriptors o.acts) m'.tables
  radio : Radioed o.acts m.radio m'.radio
  calls : ((∀ c ∈ radioCalls o.acts, Polls c.1.1) ∧
      ∀ i, ee.1 = .knotd i → (m.peers i).kwatch = 0 ∧ o.acts = [] ∨ ee.2.ends = true) ∨
    ∃ i message out, Forwards ee m i message out o.acts
  mgmtfd : m'.mgmtfd = m.mgmtfd
  tcp : m'.tcp = m.tcp

section Turn
variable {e : DaemonEnv} {m m' : Manager b} {i : Fin maxPeers}

theorem clientRead_works (h : m.clientRead e i = .ok m') : Works e m m' := by
  rcases Manager.clientRead_cases h with rfl | ⟨-, o, radio, sent, hstep, hsent, rfl⟩
  · exact .refl _
  · have hsilent : descriptors sent = [] ∧ radioCalls sent = [] := by
      constructor
      · apply List.filter_eq_nil_iff.mpr
        intro act hact
        obtain ⟨fd, data, rfl⟩ := hsent act hact
        simp
      · apply List.filterMap_eq_nil_iff.mpr
        intro act hact
        obtain ⟨fd, data, rfl⟩ := hsent act hact
        rfl
    refine ⟨⟨_, rfl, ?_, (Radioed.one hstep).append (.silent hsilent.2 radio), ?_⟩, rfl, rfl⟩
    · rw [← List.singleton_append, descriptors_append, hsilent.1]
      exact .kept
    · rw [← List.singleton_append, radioCalls_append, hsilent.2]
      simp [radioCalls, Polls]

theorem clientsReadFrom_works {is : List (Fin maxPeers)} (h : m.clientsReadFrom e is = .ok m') : Works e m m' := by
  induction is generalizing m with
  | nil =>
      cases h
      exact .refl _
  | cons i is ih =>
      obtain ⟨m₁, hone, hrest⟩ := bind_eq_ok.mp h
      exact (clientRead_works hone).after (ih hrest)

theorem readIdle_does (h : m.readIdle e = .ok m') : Does e (leaver (.idle, e) m) (applicant (.idle, e) m) m m' := by
  obtain ⟨⟨r, m₁⟩, hmgmt, h₁⟩ := bind_eq_ok.mp h
  have hclients : Works e m₁ m' := by
    have h₁ : m₁.clientsRead e = .ok m' := h₁
    unfold Manager.clientsRead at h₁
    split at h₁
    · cases h₁
      exact .refl _
    · exact clientsReadFrom_works h₁
  refine Does.before ?_ hclients
  unfold Manager.mgmtRead at hmgmt
  obtain ⟨⟨o, m₂⟩, hread, h₂⟩ := bind_eq_ok.mp hmgmt
  have hworks : Works e m m₂ := .hal hread trivial
  simp only [leaver, applicant, heard, hread]
  dsimp only at h₂
  split at h₂
  · rename_i hneg
    obtain ⟨-, rfl⟩ := Prod.mk.inj (Except.ok.inj h₂)
    rw [if_pos (Or.inl hneg)]
    exact hworks
  · rename_i hpos
    have hevent := hworks.after (mgmtEvent_does h₂)
    by_cases hdir : (e.buffer.write 0 o.data).get 1 &&& 0x02 = 0
    · rw [if_pos (Or.inr hdir)]
      rw [if_neg fun hall => hall.1 hdir, if_neg fun hall => hall.1 hdir] at hevent
      exact hevent
    · rw [if_neg fun hor => hor.elim hpos hdir]
      simp only [ne_eq, hdir, not_false_eq_true, true_and] at hevent
      exact hevent

/-- Who leaves or applies does not depend on what was done before. -/
theorem leaver_acts (ee : Event × DaemonEnv) (m : Manager b) (acts : List Act) :
    leaver ee { m with acts := acts } = leaver ee m ∧ applicant ee { m with acts := acts } = applicant ee m := by
  obtain ⟨event, e⟩ := ee
  cases event with
  | idle =>
      simp only [leaver, applicant, heard, Manager.hal]
      cases Nrf24.step (.read m.mgmtfd 256, e.hal .mgmtRead) m.radio with
      | error f => exact ⟨rfl, rfl⟩
      | ok r =>
          dsimp only [bind, Except.bind, pure, Except.pure]
          split <;> exact ⟨rfl, rfl⟩
  | knotd i => exact ⟨rfl, rfl⟩
  | request req => exact ⟨rfl, rfl⟩
  | busAcquired => exact ⟨rfl, rfl⟩
  | timeout => exact ⟨rfl, rfl⟩

theorem step_turned {ee : Event × DaemonEnv} {o : Out} (h : step ee m = .ok (o, m')) : Turned ee m o m' := by
  obtain ⟨⟨response, m₁⟩, hdispatch, h₁⟩ := bind_eq_ok.mp h
  obtain ⟨rfl, rfl⟩ := Prod.mk.inj (Except.ok.inj h₁)
  obtain ⟨event, e⟩ := ee
  -- a part of a callback that is the whole of it
  have hdid : ∀ {leave apply} {m₁ : Manager b}, (∀ req, event ≠ .request req) → leave = leaver (event, e) m →
      apply = applicant (event, e) m → (∀ i, event = .knotd i → (m.peers i).kwatch = 0 ∧ m₁.acts = [] ∨ e.ends = true) →
      Does e leave apply { m with acts := [] } m₁ → Turned (event, e) m ⟨response, m₁.acts⟩ m₁ := by
    intro leave apply m₁ hevent hleave happly hquiet hdoes
    obtain ⟨acts, hacts, heffect, hradio, hpolls⟩ := hdoes.acts
    rw [List.nil_append] at hacts
    subst hacts hleave happly
    exact ⟨⟨m.adapter, .none hevent, heffect⟩, hradio, Or.inl ⟨hpolls, hquiet⟩, hdoes.mgmtfd, hdoes.tcp⟩
  cases event with
  | idle =>
      obtain ⟨m₂, hidle, hr⟩ := bind_eq_ok.mp hdispatch
      obtain ⟨rfl, rfl⟩ := Prod.mk.inj (Except.ok.inj hr)
      obtain ⟨hleave, happly⟩ := leaver_acts (.idle, e) m []
      exact hdid (by simp) hleave happly (by simp) (readIdle_does hidle)
  | knotd i =>
      obtain ⟨m₂, hready, hr⟩ := bind_eq_ok.mp hdispatch
      obtain ⟨rfl, rfl⟩ := Prod.mk.inj (Except.ok.inj hr)
      rcases Manager.watchReady_cases hready with
        ⟨hwatch, rfl⟩ | ⟨hwatch, ⟨hends, hremove⟩ | ⟨hends, waiting, out, hread, hwrite⟩⟩
      · refine hdid (by simp) ?_ rfl (fun j hj => ?_) (.refl _)
        · exact (if_neg fun hall => hall.1 hwatch).symm
        · cases hj
          exact Or.inl ⟨hwatch, rfl⟩
      · refine hdid (by simp) ?_ rfl (fun _ _ => Or.inr hends) (removeWatch_does hwatch hremove)
        exact (if_pos ⟨hwatch, hends⟩).symm
      · obtain ⟨radio, hstep, rfl⟩ := Manager.hal_eq_ok.mp hwrite
        have hstays : leaver (.knotd i, e) m = none := if_neg fun hall => absurd (hends.symm.trans hall.2) (by decide)
        refine ⟨⟨m.adapter, .none (by simp), ?_⟩, .one hstep, Or.inr ⟨i, _, out, rfl, hwatch, hends,
          ⟨waiting, hread, rfl⟩, rfl⟩, rfl, rfl⟩
        rw [hstays]
        exact .kept
  | request req =>
      obtain ⟨⟨r, a⟩, hstep, hr⟩ := bind_eq_ok.mp hdispatch
      obtain ⟨rfl, rfl⟩ := Prod.mk.inj (Except.ok.inj hr)
      exact ⟨⟨a, .answered req rfl r hstep, .kept⟩, .nil _, Or.inl ⟨by simp [radioCalls], by simp⟩, rfl, rfl⟩
  | busAcquired =>
      obtain ⟨a, hbus, hr⟩ := bind_eq_ok.mp hdispatch
      obtain ⟨rfl, rfl⟩ := Prod.mk.inj (Except.ok.inj hr)
      exact ⟨⟨a, .acquired rfl hbus, .kept⟩, .nil _, Or.inl ⟨by simp [radioCalls], by simp⟩, rfl, rfl⟩
  | timeout =>
      obtain ⟨rfl, rfl⟩ := Prod.mk.inj (Except.ok.inj hdispatch)
      refine ⟨⟨m.adapter, .none (by simp), .kept⟩, .nil _, Or.inl ⟨?_, by simp⟩, rfl, rfl⟩
      simp [radioCalls, Manager.timeoutIterator]

end Turn

/-! ## The stop -/

/-- A turn of the main loop, or the stop of the daemon. -/
inductive Input
  | turn (ee : Event × DaemonEnv)
  | stop (e : Fin maxPeers → DaemonEnv) (he : Nrf24.Env)

/-- The daemon with its stop. -/
def serve : Input → Manager b → Except Fault (Out × Manager b)
  | .turn ee, m => step ee m
  | .stop e he, m => do
      let m ← { m with acts := [] }.radioStop e he
      return (⟨none, m.acts⟩, m)

section Stop
variable {e : Fin maxPeers → DaemonEnv} {he : Nrf24.Env} {m m' : Manager b} {I : Tables → List Act → Prop}

/-- The stop frees entries in use that have a watch, and does nothing else to the tables and the descriptors. -/
theorem closeClientsFrom_keeps
    (hleft : ∀ i t acts, I t acts → (t.peers i).socketFd ≠ -1 → (t.peers i).kwatch ≠ 0 →
      I (t.free i) (acts ++ [.closed (t.peers i).ksock, .closed (t.peers i).ksock])) {is : List (Fin maxPeers)}
    (hm : I m.tables (descriptors m.acts)) (h : Manager.closeClientsFrom e is m = .ok m') :
    I m'.tables (descriptors m'.acts) := by
  induction is generalizing m with
  | nil =>
      cases h
      exact hm
  | cons i is ih =>
      obtain ⟨m₁, hone, hrest⟩ := bind_eq_ok.mp h
      refine ih ?_ hrest
      split at hone
      · cases hone
        exact hm
      · rename_i hactive
        unfold Manager.sourceRemove at hone
        split at hone
        · cases hone
          exact hm
        · rename_i hwatch
          obtain ⟨o, radio, -, rfl⟩ := Manager.removeWatch_cases hone
          dsimp only
          rw [descriptors_append]
          exact hleft i m.tables _ hm hactive hwatch

/-- The stop closes the clients; the rest of it leaves the tables alone and opens and closes nothing. -/
theorem stop_cases {o : Out} (h : serve (.stop e he) m = .ok (o, m')) :
    ∃ m₁, Manager.closeClients e { m with acts := [] } = .ok m₁ ∧ m'.tables = m₁.tables ∧
      descriptors o.acts = descriptors m₁.acts := by
  obtain ⟨m₂, hstop, h₁⟩ := bind_eq_ok.mp h
  obtain ⟨rfl, rfl⟩ := Prod.mk.inj (Except.ok.inj h₁)
  obtain ⟨m₁, hclients, h₂⟩ := bind_eq_ok.mp hstop
  obtain ⟨⟨o₃, m₃⟩, hclose, h₃⟩ := bind_eq_ok.mp h₂
  obtain ⟨⟨o₄, m₄⟩, hdeinit, h₄⟩ := bind_eq_ok.mp h₃
  obtain ⟨radio₃, -, rfl⟩ := Manager.hal_eq_ok.mp hclose
  obtain ⟨radio₄, -, rfl⟩ := Manager.hal_eq_ok.mp hdeinit
  obtain rfl := Except.ok.inj h₄
  refine ⟨m₁, hclients, rfl, ?_⟩
  show descriptors (m₁.acts ++ [_] ++ [_]) = _
  rw [descriptors_append, descriptors_append]
  show descriptors m₁.acts ++ [] ++ [] = _
  rw [List.append_nil, List.append_nil]

theorem stop_keeps
    (hleft : ∀ i t acts, I t acts → (t.peers i).socketFd ≠ -1 → (t.peers i).kwatch ≠ 0 →
      I (t.free i) (acts ++ [.closed (t.peers i).ksock, .closed (t.peers i).ksock])) {o : Out}
    (hm : I m.tables []) (h : serve (.stop e he) m = .ok (o, m')) : I m'.tables (descriptors o.acts) := by
  obtain ⟨m₁, hclients, htables, hacts⟩ := stop_cases h
  rw [htables, hacts]
  exact closeClientsFrom_keeps (m := { m with acts := [] }) hleft hm hclients

end Stop

end KnotHal.Nrfd
