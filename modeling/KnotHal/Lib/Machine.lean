import Mathlib.Data.List.Forall2
import Mathlib.Tactic.Common

/-!
# Runs of a fallible step function

`exec step is s` feeds the inputs `is` to a step function that may stop with a fault, and collects
the outputs. `Along P step is s` says that every step of that run starts where `P` allows it.

* `bind_eq_ok`, `bind_eq_error`, `ok_unique` : what a computation did before it ended, and that it has one result;
* `exec_cons_ok`, `exec_append_ok`, `exec_eq_error` : a run that succeeds, cut into steps, and one that does not;
* `exec_invariant`, `exec_keeps` : an invariant of every allowed step holds after every allowed run;
* `exec_relates` : the same for what a run has produced so far;
* `exec_simulates` : a machine that follows an abstract one step by step does so in every run;
* `exec_succeeds_iff`, `exec_ok_iff`, `exec_good_iff`, `exec_traced_iff` : when a run succeeds at all, and when all
  its states are good, also in what led to them;
* `Avoids`, `exec_avoids` : a fault that no step ends in, no run ends in;
* `EndsAlike`, `exec_alike` : two machines that step alike run alike, faults included;
* `exec_both` : the same where both succeed;
* `outputs`, `exec_refines` : a machine that refines one that cannot fail;
* `recorded`, `recorded_eq_ok`, `watched`, `watched_eq_ok` : a machine that keeps a record of its past steps;
* `Timeline`, `along_iff_timed`, `along_timed` : runs whose steps take time.
-/

namespace KnotHal

universe u v

theorem bind_eq_ok {ε : Type u} {α β : Type v} {x : Except ε α} {f : α → Except ε β} {b : β} :
    x >>= f = .ok b ↔ ∃ a, x = .ok a ∧ f a = .ok b := by
  cases x <;> simp [bind, Except.bind]

theorem bind_eq_error {ε : Type u} {α β : Type v} {x : Except ε α} {f : α → Except ε β} {e : ε} :
    x >>= f = .error e ↔ x = .error e ∨ ∃ a, x = .ok a ∧ f a = .error e := by
  cases x <;> simp [bind, Except.bind]

/-- A computation has one result. -/
theorem ok_unique {ε α β : Type*} {x : Except ε (α × β)} {a a' : α} {b b' : β} (h : x = .ok (a, b))
    (h' : x = .ok (a', b')) : a = a' ∧ b = b' :=
  Prod.mk.inj (Except.ok.inj (h.symm.trans h'))

theorem mapError_eq_ok {ε ε' : Type*} {α : Type v} {f : ε → ε'} {x : Except ε α} {a : α} :
    x.mapError f = .ok a ↔ x = .ok a := by
  cases x <;> simp [Except.mapError]

namespace Machine

variable {σ ι ο ε : Type*}

/-- Feed `is` to the machine, one after the other, and collect what the steps put out. -/
def exec (step : ι → σ → Except ε (ο × σ)) : List ι → σ → Except ε (List ο × σ)
  | [], s => .ok ([], s)
  | i :: is, s => do
      let (o, s₁) ← step i s
      let (os, s₂) ← exec step is s₁
      return (o :: os, s₂)

/-- Every step of the run starts in a state where `P` allows its input. -/
def Along (P : ι → σ → Prop) (step : ι → σ → Except ε (ο × σ)) : List ι → σ → Prop
  | [], _ => True
  | i :: is, s => P i s ∧ ∀ o s₁, step i s = .ok (o, s₁) → Along P step is s₁

variable {step : ι → σ → Except ε (ο × σ)}

theorem exec_nil_ok {s s' : σ} {os : List ο} : exec step [] s = .ok (os, s') ↔ os = [] ∧ s' = s := by
  simp only [exec, Except.ok.injEq, Prod.mk.injEq]
  exact ⟨fun h => ⟨h.1.symm, h.2.symm⟩, fun h => ⟨h.1.symm, h.2.symm⟩⟩

theorem exec_cons_ok {i : ι} {is : List ι} {s s' : σ} {os : List ο} :
    exec step (i :: is) s = .ok (os, s') ↔
      ∃ o s₁ os₁, step i s = .ok (o, s₁) ∧ exec step is s₁ = .ok (os₁, s') ∧ os = o :: os₁ := by
  simp only [exec, bind_eq_ok, Prod.exists, pure, Except.pure, Except.ok.injEq, Prod.mk.injEq]
  constructor
  · rintro ⟨o, s₁, h₁, os₁, s₂, h₂, rfl, rfl⟩
    exact ⟨o, s₁, os₁, h₁, h₂, rfl⟩
  · rintro ⟨o, s₁, os₁, h₁, h₂, rfl⟩
    exact ⟨o, s₁, h₁, os₁, s', h₂, rfl, rfl⟩

theorem exec_append_ok {is js : List ι} {s s' : σ} {os : List ο} :
    exec step (is ++ js) s = .ok (os, s') ↔
      ∃ os₁ s₁ os₂, exec step is s = .ok (os₁, s₁) ∧ exec step js s₁ = .ok (os₂, s') ∧
        os = os₁ ++ os₂ := by
  induction is generalizing s os with
  | nil => simp [exec_nil_ok]
  | cons i is ih =>
      simp only [List.cons_append, exec_cons_ok, ih]
      constructor
      · rintro ⟨o, s₁, os', h₁, ⟨os₁, s₂, os₂, h₂, h₃, rfl⟩, rfl⟩
        exact ⟨o :: os₁, s₂, os₂, ⟨o, s₁, os₁, h₁, h₂, rfl⟩, h₃, rfl⟩
      · rintro ⟨os₁, s₁, os₂, ⟨o, s₂, os₃, h₁, h₂, rfl⟩, h₃, rfl⟩
        exact ⟨o, s₂, os₃ ++ os₂, h₁, ⟨os₃, s₁, os₂, h₂, h₃, rfl⟩, rfl⟩

theorem exec_cons_error {i : ι} {is : List ι} {s : σ} {f : ε} : exec step (i :: is) s = .error f ↔
    step i s = .error f ∨ ∃ o s₁, step i s = .ok (o, s₁) ∧ exec step is s₁ = .error f := by
  simp only [exec, bind_eq_error, Prod.exists, pure, Except.pure, reduceCtorEq, and_false, exists_false, or_false]

theorem exec_eq_error {is : List ι} {s : σ} {f : ε} : exec step is s = .error f ↔
    ∃ js i rest os s', is = js ++ i :: rest ∧ exec step js s = .ok (os, s') ∧ step i s' = .error f := by
  induction is generalizing s with
  | nil => simp [exec]
  | cons i is ih =>
      simp only [exec_cons_error, ih]
      constructor
      · rintro (herror | ⟨o, s₁, h₁, js, j, rest, os, s', rfl, hrun, herror⟩)
        · exact ⟨[], i, is, [], s, rfl, rfl, herror⟩
        · exact ⟨i :: js, j, rest, o :: os, s', rfl, exec_cons_ok.mpr ⟨o, s₁, os, h₁, hrun, rfl⟩, herror⟩
      · rintro ⟨js, j, rest, os, s', his, hrun, herror⟩
        cases js with
        | nil =>
            obtain ⟨rfl, rfl⟩ := List.cons.inj his
            rw [(exec_nil_ok.mp hrun).2] at herror
            exact .inl herror
        | cons j' js =>
            obtain ⟨rfl, rfl⟩ := List.cons.inj his
            obtain ⟨o, s₁, os₁, h₁, h₂, -⟩ := exec_cons_ok.mp hrun
            exact .inr ⟨o, s₁, h₁, js, j, rest, os₁, s', rfl, h₂, herror⟩

theorem length_exec {is : List ι} {s s' : σ} {os : List ο} (h : exec step is s = .ok (os, s')) :
    os.length = is.length := by
  induction is generalizing s os with
  | nil => simp [(exec_nil_ok.mp h).1]
  | cons i is ih =>
      obtain ⟨o, s₁, os₁, -, h₂, rfl⟩ := exec_cons_ok.mp h
      simp [ih h₂]

theorem along_of_forall {P : ι → σ → Prop} {is : List ι} (h : ∀ i ∈ is, ∀ s, P i s) (s : σ) :
    Along P step is s := by
  induction is generalizing s with
  | nil => trivial
  | cons i is ih =>
      exact ⟨h i List.mem_cons_self s, fun _ s₁ _ => ih (fun j hj => h j (List.mem_cons_of_mem i hj)) s₁⟩

theorem Along.cons {P : ι → σ → Prop} {i : ι} {is : List ι} {s s₁ : σ} {o : ο} (hP : P i s)
    (h : step i s = .ok (o, s₁)) (hrest : Along P step is s₁) : Along P step (i :: is) s := by
  refine ⟨hP, fun o' s' h' => ?_⟩
  obtain ⟨rfl, rfl⟩ := ok_unique h h'
  exact hrest

/-- What holds of every input may be assumed of every step. -/
theorem Along.and_mem {P : ι → σ → Prop} {Q : ι → Prop} {is : List ι} {s : σ} (h : Along P step is s)
    (hQ : ∀ i ∈ is, Q i) : Along (fun i s => P i s ∧ Q i) step is s := by
  induction is generalizing s with
  | nil => trivial
  | cons i is ih =>
      exact ⟨⟨h.1, hQ i List.mem_cons_self⟩, fun o s₁ hs => ih (h.2 o s₁ hs) fun j hj =>
        hQ j (List.mem_cons_of_mem i hj)⟩

/-- Where an invariant makes of what is allowed something else that is wanted, a whole run does. -/
theorem Along.of_invariant {P Q : ι → σ → Prop} {I : σ → Prop}
    (hstep : ∀ i s, I s → P i s → Q i s ∧ ∀ o s', step i s = .ok (o, s') → I s') {is : List ι} {s : σ} (hs : I s)
    (h : Along P step is s) : Along Q step is s := by
  induction is generalizing s with
  | nil => trivial
  | cons i is ih =>
      obtain ⟨hQ, hnext⟩ := hstep i s hs h.1
      exact ⟨hQ, fun o s₁ h₁ => ih (hnext o s₁ h₁) (h.2 o s₁ h₁)⟩

/-- The run lemma: what every allowed step keeps, every allowed run keeps. -/
theorem exec_invariant {P : ι → σ → Prop} {I : σ → Prop}
    (hstep : ∀ i s o s', I s → P i s → step i s = .ok (o, s') → I s') {is : List ι} {s s' : σ}
    {os : List ο} (hs : I s) (hP : Along P step is s) (h : exec step is s = .ok (os, s')) : I s' := by
  induction is generalizing s os with
  | nil => rw [(exec_nil_ok.mp h).2]; exact hs
  | cons i is ih =>
      obtain ⟨o, s₁, os₁, h₁, h₂, -⟩ := exec_cons_ok.mp h
      exact ih (hstep i s o s₁ hs hP.1 h₁) (hP.2 o s₁ h₁) h₂

/-- The run lemma where every step is allowed. -/
theorem exec_keeps {I : σ → Prop} (hstep : ∀ i s o s', I s → step i s = .ok (o, s') → I s') {is : List ι}
    {s s' : σ} {os : List ο} (hs : I s) (h : exec step is s = .ok (os, s')) : I s' :=
  exec_invariant (P := fun _ _ => True) (fun i s o s' hs _ => hstep i s o s' hs) hs
    (along_of_forall (fun _ _ _ => trivial) s) h

/-- A machine that cannot fail and puts nothing out. -/
def total {α : Type*} (follow : ι → α → α) (i : ι) (a : α) : Except Empty (Unit × α) := .ok ((), follow i a)

/-- The run lemma for a machine that follows such a one: related states stay related, as long as the steps are
allowed there. -/
theorem exec_simulates {α : Type*} {P : ι → α → Prop} {R : σ → α → Prop} {follow : ι → α → α}
    (hstep : ∀ i s a, R s a → P i a → ∃ o s', step i s = .ok (o, s') ∧ R s' (follow i a)) {is : List ι} {s : σ}
    {a : α} (h : R s a) (hP : Along P (total follow) is a) :
    ∃ os s', exec step is s = .ok (os, s') ∧ R s' (is.foldl (fun a i => follow i a) a) := by
  induction is generalizing s a with
  | nil => exact ⟨[], s, rfl, h⟩
  | cons i is ih =>
      obtain ⟨o, s₁, h₁, hR⟩ := hstep i s a h hP.1
      obtain ⟨os, s', h₂, hR'⟩ := ih hR (hP.2 () (follow i a) rfl)
      exact ⟨o :: os, s', exec_cons_ok.mpr ⟨o, s₁, os, h₁, h₂, rfl⟩, hR'⟩

/-- The run lemma for a relation between what the run has put out and the state it reached. -/
theorem exec_relates {P : ι → σ → Prop} {R : List (ι × ο) → σ → Prop}
    (hstep : ∀ past i s o s', R past s → P i s → step i s = .ok (o, s') → R (past ++ [(i, o)]) s')
    {is : List ι} {s s' : σ} {os : List ο} {past : List (ι × ο)} (hs : R past s)
    (hP : Along P step is s) (h : exec step is s = .ok (os, s')) : R (past ++ is.zip os) s' := by
  induction is generalizing s os past with
  | nil =>
      obtain ⟨rfl, rfl⟩ := exec_nil_ok.mp h
      simpa using hs
  | cons i is ih =>
      obtain ⟨o, s₁, os₁, h₁, h₂, rfl⟩ := exec_cons_ok.mp h
      have := ih (hstep past i s o s₁ hs hP.1 h₁) (hP.2 o s₁ h₁) h₂
      simpa using this

theorem Along.of_prefix {P : ι → σ → Prop} {is js : List ι} {s : σ} (h : Along P step is s) (hjs : js <+: is) :
    Along P step js s := by
  induction js generalizing is s with
  | nil => trivial
  | cons j js ih =>
      obtain ⟨rest, rfl⟩ := hjs
      exact ⟨h.1, fun o s₁ h₁ => ih (h.2 o s₁ h₁) (List.prefix_append js rest)⟩

/-- A step is allowed in the state that the run before it has reached. -/
theorem Along.reached {P : ι → σ → Prop} {is js : List ι} {i : ι} {s s₁ : σ} {os : List ο}
    (h : Along P step (is ++ i :: js) s) (hrun : exec step is s = .ok (os, s₁)) : P i s₁ := by
  induction is generalizing s os with
  | nil =>
      obtain ⟨-, rfl⟩ := exec_nil_ok.mp hrun
      exact h.1
  | cons j is ih =>
      obtain ⟨o, s₂, os₁, h₁, h₂, -⟩ := exec_cons_ok.mp hrun
      exact ih (h.2 o s₂ h₁) h₂

/-- Where exactly the allowed steps succeed, so do exactly the runs whose steps are all allowed. -/
theorem exec_succeeds_iff {P : ι → σ → Prop} (hstep : ∀ i s, (∃ o s', step i s = .ok (o, s')) ↔ P i s) {is : List ι}
    {s : σ} : (∃ os s', exec step is s = .ok (os, s')) ↔ Along P step is s := by
  induction is generalizing s with
  | nil => exact ⟨fun _ => trivial, fun _ => ⟨[], s, rfl⟩⟩
  | cons i is ih =>
      constructor
      · rintro ⟨os, s', hrun⟩
        obtain ⟨o, s₁, os₁, h₁, h₂, -⟩ := exec_cons_ok.mp hrun
        exact .cons ((hstep i s).mp ⟨o, s₁, h₁⟩) h₁ (ih.mp ⟨os₁, s', h₂⟩)
      · rintro ⟨hP, hrest⟩
        obtain ⟨o, s₁, h₁⟩ := (hstep i s).mpr hP
        obtain ⟨os, s', h₂⟩ := ih.mpr (hrest o s₁ h₁)
        exact ⟨o :: os, s', exec_cons_ok.mpr ⟨o, s₁, os, h₁, h₂, rfl⟩⟩

/-- Where allowed steps succeed with a good output and the others fail, a run succeeds with good outputs
exactly when all its steps are allowed. -/
theorem exec_ok_iff {P : ι → σ → Prop} {I : σ → Prop} {Q : ι → ο → Prop}
    (hok : ∀ i s, I s → P i s → ∃ o s', step i s = .ok (o, s') ∧ Q i o ∧ I s')
    (hbad : ∀ i s, I s → ¬ P i s → ∃ f, step i s = .error f) {is : List ι} {s : σ} (hs : I s) :
    (∃ os s', exec step is s = .ok (os, s') ∧ List.Forall₂ Q is os ∧ I s') ↔ Along P step is s := by
  induction is generalizing s with
  | nil => exact ⟨fun _ => trivial, fun _ => ⟨[], s, rfl, .nil, hs⟩⟩
  | cons i is ih =>
      constructor
      · rintro ⟨os, s', hrun, hQ, hI⟩
        obtain ⟨o, s₁, os₁, h₁, h₂, rfl⟩ := exec_cons_ok.mp hrun
        have hP : P i s := by
          by_contra hno
          obtain ⟨f, hf⟩ := hbad i s hs hno
          rw [h₁] at hf
          cases hf
        obtain ⟨_, _, h₁', -, hI₁⟩ := hok i s hs hP
        obtain ⟨rfl, rfl⟩ := ok_unique h₁ h₁'
        have hrest := (ih hI₁).mp ⟨os₁, s', h₂, (List.forall₂_cons.mp hQ).2, hI⟩
        refine ⟨hP, fun o' s₂ h₂' => ?_⟩
        obtain ⟨rfl, rfl⟩ := ok_unique h₁ h₂'
        exact hrest
      · rintro ⟨hP, hrest⟩
        obtain ⟨o, s₁, h₁, hQ, hI₁⟩ := hok i s hs hP
        obtain ⟨os, s', h₂, hQs, hI'⟩ := (ih hI₁).mpr (hrest o s₁ h₁)
        exact ⟨o :: os, s', exec_cons_ok.mpr ⟨o, s₁, os, h₁, h₂, rfl⟩, .cons hQ hQs, hI'⟩

/-- Where an invariant makes a state good, allowed steps keep it, and a step that is not allowed leads to a state
that is not good, all the states of a run are good exactly when all its steps are allowed. -/
theorem exec_good_iff {P : ι → σ → Prop} {I Q : σ → Prop} (hgood : ∀ s, I s → Q s) {is : List ι}
    (hstep : ∀ i ∈ is, ∀ s, I s → ∃ o s', step i s = .ok (o, s') ∧ (P i s → I s') ∧ (Q s' → P i s)) {s : σ}
    (hs : I s) : (∀ js, js <+: is → ∃ os s', exec step js s = .ok (os, s') ∧ Q s') ↔ Along P step is s := by
  induction is generalizing s with
  | nil =>
      refine ⟨fun _ => trivial, fun _ js hjs => ⟨[], s, ?_, hgood s hs⟩⟩
      rw [List.prefix_nil.mp hjs, exec]
  | cons i is ih =>
      obtain ⟨o, s₁, h₁, hkeep, hback⟩ := hstep i List.mem_cons_self s hs
      have hrest : I s₁ → _ := ih fun j hj => hstep j (List.mem_cons_of_mem i hj)
      constructor
      · intro hall
        have hP : P i s := by
          obtain ⟨os, s', hrun, hQ⟩ := hall [i] (by simp)
          obtain ⟨o', s₂, os', h₂, h₃, -⟩ := exec_cons_ok.mp hrun
          obtain ⟨rfl, rfl⟩ := ok_unique h₁ h₂
          rw [(exec_nil_ok.mp h₃).2] at hQ
          exact hback hQ
        refine .cons hP h₁ ((hrest (hkeep hP)).mp fun js hjs => ?_)
        obtain ⟨os, s', hrun, hQ⟩ := hall (i :: js) (List.cons_prefix_cons.mpr ⟨rfl, hjs⟩)
        obtain ⟨o', s₂, os', h₂, h₃, -⟩ := exec_cons_ok.mp hrun
        obtain ⟨rfl, rfl⟩ := ok_unique h₁ h₂
        exact ⟨os', s', h₃, hQ⟩
      · rintro ⟨hP, hallowed⟩ js hjs
        cases js with
        | nil => exact ⟨[], s, rfl, hgood s hs⟩
        | cons j js =>
            obtain ⟨rfl, hpre⟩ := List.cons_prefix_cons.mp hjs
            obtain ⟨os, s', hrun, hQ⟩ := (hrest (hkeep hP)).mpr (hallowed o s₁ h₁) js hpre
            exact ⟨o :: os, s', exec_cons_ok.mpr ⟨o, s₁, os, h₁, hrun, rfl⟩, hQ⟩

theorem exec_always_iff {P : ι → σ → Prop} {I : σ → Prop}
    (hstep : ∀ i s, I s → ∃ o s', step i s = .ok (o, s') ∧ (I s' ↔ P i s)) {is : List ι} {s : σ} (hs : I s) :
    (∀ js, js <+: is → ∃ os s', exec step js s = .ok (os, s') ∧ I s') ↔ Along P step is s := by
  apply exec_good_iff (fun _ => id) _ hs
  intro i _ s hs
  obtain ⟨o, s', h, hiff⟩ := hstep i s hs
  exact ⟨o, s', h, hiff.mpr, hiff.mp⟩

/-- Where a step that starts well leaves the record of the steps and the state right exactly when it is allowed,
they are right throughout a run that succeeds exactly when all its steps are allowed. -/
theorem exec_traced_iff {P : ι → σ → Prop} {I : σ → Prop} {R : List (ι × ο) → σ → Prop} {is : List ι}
    (hkeep : ∀ i s o s', I s → step i s = .ok (o, s') → I s')
    (hstep : ∀ past, ∀ i ∈ is, ∀ s o s', I s → R past s → step i s = .ok (o, s') →
      (R (past ++ [(i, o)]) s' ↔ P i s)) (past : List (ι × ο)) {s s' : σ} {os : List ο} (hI : I s) (hR : R past s)
    (h : exec step is s = .ok (os, s')) :
    (∀ js os₁ t, js <+: is → exec step js s = .ok (os₁, t) → R (past ++ js.zip os₁) t) ↔ Along P step is s := by
  induction is generalizing s os past with
  | nil =>
      refine ⟨fun _ => trivial, fun _ js os₁ t hjs hrun => ?_⟩
      rw [List.prefix_nil.mp hjs] at hrun ⊢
      rw [(exec_nil_ok.mp hrun).2, List.zip_nil_left, List.append_nil]
      exact hR
  | cons i is ih =>
      obtain ⟨o, s₁, os', h₁, h₂, -⟩ := exec_cons_ok.mp h
      have hiff := hstep past i List.mem_cons_self s o s₁ hI hR h₁
      have hrest : R (past ++ [(i, o)]) s₁ → _ := fun hR₁ =>
        ih (fun past j hj => hstep past j (List.mem_cons_of_mem i hj)) _ (hkeep i s o s₁ hI h₁) hR₁ h₂
      -- what the rest of the run adds to the record
      have hmore : ∀ js os₁, past ++ (i :: js).zip (o :: os₁) = past ++ [(i, o)] ++ js.zip os₁ := by simp
      constructor
      · intro hall
        have hR₁ : R (past ++ [(i, o)]) s₁ :=
          hall [i] [o] s₁ (by simp) (exec_cons_ok.mpr ⟨o, s₁, [], h₁, rfl, rfl⟩)
        refine .cons (hiff.mp hR₁) h₁ ((hrest hR₁).mp fun js os₁ t hjs hrun => ?_)
        rw [← hmore]
        exact hall (i :: js) (o :: os₁) t (List.cons_prefix_cons.mpr ⟨rfl, hjs⟩)
          (exec_cons_ok.mpr ⟨o, s₁, os₁, h₁, hrun, rfl⟩)
      · rintro ⟨hP, hallowed⟩ js os₁ t hjs hrun
        cases js with
        | nil =>
            rw [(exec_nil_ok.mp hrun).2, List.zip_nil_left, List.append_nil]
            exact hR
        | cons j js =>
            obtain ⟨rfl, hpre⟩ := List.cons_prefix_cons.mp hjs
            obtain ⟨o₂, s₂, os₂, h₃, h₄, rfl⟩ := exec_cons_ok.mp hrun
            obtain ⟨rfl, rfl⟩ := ok_unique h₁ h₃
            rw [hmore]
            exact (hrest (hiff.mpr hP)).mpr (hallowed o s₁ h₁) js os₂ t hpre h₄

theorem exec_throughout_iff {P : ι → σ → Prop} {I Q : σ → Prop}
    (hkeep : ∀ i s o s', I s → step i s = .ok (o, s') → I s')
    (hstep : ∀ i s o s', I s → Q s → step i s = .ok (o, s') → (Q s' ↔ P i s)) {is : List ι} {s s' : σ}
    {os : List ο} (hI : I s) (hQ : Q s) (h : exec step is s = .ok (os, s')) :
    (∀ js os₁ t, js <+: is → exec step js s = .ok (os₁, t) → Q t) ↔ Along P step is s :=
  exec_traced_iff (R := fun _ s => Q s) hkeep (fun _ i _ => hstep i) [] hI hQ h

/-! ## Faults that do not occur -/

section Avoids
variable {α β : Type*} {bad : ε → Prop} {x : Except ε α}

/-- The computation does not end in a bad fault. -/
def Avoids (bad : ε → Prop) (x : Except ε α) : Prop := ∀ f, x = .error f → ¬ bad f

theorem avoids_ok (a : α) : Avoids bad (.ok a : Except ε α) := fun _ h => by cases h

theorem avoids_error {f : ε} (h : ¬ bad f) : Avoids bad (.error f : Except ε α) := fun _ hf => by
  cases hf
  exact h

theorem Avoids.bind {α β : Type v} {x : Except ε α} {f : α → Except ε β} (hx : Avoids bad x)
    (hf : ∀ a, x = .ok a → Avoids bad (f a)) : Avoids bad (x >>= f) := by
  cases x with
  | error e => exact avoids_error (hx e rfl)
  | ok a => exact hf a rfl

theorem Avoids.ite {c : Prop} [Decidable c] {y : Except ε α} (hx : c → Avoids bad x) (hy : ¬ c → Avoids bad y) :
    Avoids bad (if c then x else y) := by
  split
  · exact hx ‹c›
  · exact hy ‹¬ c›

theorem exec_avoids (hstep : ∀ i s, Avoids bad (step i s)) (is : List ι) (s : σ) : Avoids bad (exec step is s) := by
  induction is generalizing s with
  | nil => exact avoids_ok _
  | cons i is ih =>
      intro f h
      unfold exec at h
      cases h₁ : step i s with
      | error g =>
          rw [h₁] at h
          cases h
          exact hstep i s _ h₁
      | ok r =>
          rw [h₁] at h
          cases h₂ : exec step is r.2 with
          | error g =>
              change (exec step is r.2 >>= _) = _ at h
              rw [h₂] at h
              cases h
              exact ih r.2 _ h₂
          | ok r' =>
              change (exec step is r.2 >>= _) = _ at h
              rw [h₂] at h
              cases h

end Avoids

/-! ## Two machines in step -/

section InStep
variable {α γ : Type u} {β δ : Type v} {τ : Type*} {R : α → β → Prop} {x : Except ε α} {y : Except ε β}

/-- Two computations end alike: in the same fault, or with related results. -/
inductive EndsAlike (R : α → β → Prop) : Except ε α → Except ε β → Prop
  | ok {a : α} {b : β} (h : R a b) : EndsAlike R (.ok a) (.ok b)
  | error (f : ε) : EndsAlike R (.error f) (.error f)

def Both (R : σ → τ → Prop) (p : ο × σ) (q : ο × τ) : Prop := p.1 = q.1 ∧ R p.2 q.2

theorem EndsAlike.self (x : Except ε α) : EndsAlike Eq x x := by
  cases x with
  | ok a => exact .ok rfl
  | error f => exact .error f

theorem EndsAlike.mono {R' : α → β → Prop} (h : EndsAlike R x y) (himp : ∀ a b, R a b → R' a b) :
    EndsAlike R' x y := by
  cases h with
  | ok h => exact .ok (himp _ _ h)
  | error f => exact .error f

theorem EndsAlike.bind {Q : γ → δ → Prop} {f : α → Except ε γ} {g : β → Except ε δ} (h : EndsAlike R x y)
    (hnext : ∀ a b, R a b → EndsAlike Q (f a) (g b)) : EndsAlike Q (x >>= f) (y >>= g) := by
  cases h with
  | ok h => exact hnext _ _ h
  | error e => exact .error e

theorem EndsAlike.of_ok {a : α} (h : EndsAlike R (.ok a) y) : ∃ b, y = .ok b ∧ R a b := by
  cases h with
  | ok h => exact ⟨_, rfl, h⟩

theorem EndsAlike.of_ok_right {b : β} (h : EndsAlike R x (.ok b)) : ∃ a, x = .ok a ∧ R a b := by
  cases h with
  | ok h => exact ⟨_, rfl, h⟩

theorem EndsAlike.error_iff (h : EndsAlike R x y) (f : ε) : x = .error f ↔ y = .error f := by
  cases h with
  | ok _ => exact iff_of_false (fun h => by cases h) fun h => by cases h
  | error e =>
      exact ⟨fun h => congrArg Except.error (Except.error.inj h), fun h => congrArg Except.error (Except.error.inj h)⟩

theorem EndsAlike.ite {c c' : Prop} [Decidable c] [Decidable c'] {x' : Except ε α} {y' : Except ε β} (hc : c ↔ c')
    (hpos : c → EndsAlike R x y) (hneg : ¬ c → EndsAlike R x' y') :
    EndsAlike R (if c then x else x') (if c' then y else y') := by
  by_cases h : c
  · rw [if_pos h, if_pos (hc.mp h)]
    exact hpos h
  · rw [if_neg h, if_neg fun h' => h (hc.mpr h')]
    exact hneg h

theorem EndsAlike.mapError {ε' : Type*} (h : EndsAlike R x y) (f : ε → ε') :
    EndsAlike R (x.mapError f) (y.mapError f) := by
  cases h with
  | ok h => exact .ok h
  | error e => exact .error (f e)

theorem exec_alike {R : σ → τ → Prop} {step' : ι → τ → Except ε (ο × τ)}
    (hstep : ∀ i s t, R s t → EndsAlike (Both R) (step i s) (step' i t)) {s : σ} {t : τ} (h : R s t) (is : List ι) :
    EndsAlike (Both R) (exec step is s) (exec step' is t) := by
  induction is generalizing s t with
  | nil => exact .ok ⟨rfl, h⟩
  | cons i is ih =>
      refine (hstep i s t h).bind fun p q hpq => ?_
      refine (ih hpq.2).bind fun p' q' hpq' => ?_
      exact .ok ⟨congrArg₂ List.cons hpq.1 hpq'.1, hpq'.2⟩

/-- Where related states step with the same output to related states, whole runs do. -/
theorem exec_both {R : σ → τ → Prop} {step' : ι → τ → Except ε (ο × τ)}
    (hstep : ∀ i s t, R s t → ∃ o s' t', step i s = .ok (o, s') ∧ step' i t = .ok (o, t') ∧ R s' t') {s : σ} {t : τ}
    (h : R s t) (is : List ι) :
    ∃ os s' t', exec step is s = .ok (os, s') ∧ exec step' is t = .ok (os, t') ∧ R s' t' := by
  induction is generalizing s t with
  | nil => exact ⟨[], s, t, rfl, rfl, h⟩
  | cons i is ih =>
      obtain ⟨o, s₁, t₁, h₁, h₁', hR⟩ := hstep i s t h
      obtain ⟨os, s', t', h₂, h₂', hR'⟩ := ih hR
      exact ⟨o :: os, s', t', exec_cons_ok.mpr ⟨o, s₁, os, h₁, h₂, rfl⟩,
        exec_cons_ok.mpr ⟨o, t₁, os, h₁', h₂', rfl⟩, hR'⟩

/-- What a machine that cannot fail puts out along a run. -/
def outputs (spec : ι → τ → ο × τ) : List ι → τ → List ο
  | [], _ => []
  | i :: is, t => (spec i t).1 :: outputs spec is (spec i t).2

/-- The run lemma for a machine that refines such a one, as long as its inputs are proper. -/
theorem exec_refines {R : σ → τ → Prop} {P : ι → Prop} {spec : ι → τ → ο × τ}
    (hstep : ∀ i s t, R s t → P i → ∃ s', step i s = .ok ((spec i t).1, s') ∧ R s' (spec i t).2) {is : List ι}
    (his : ∀ i ∈ is, P i) {s : σ} {t : τ} (h : R s t) : ∃ s', exec step is s = .ok (outputs spec is t, s') := by
  induction is generalizing s t with
  | nil => exact ⟨s, rfl⟩
  | cons i is ih =>
      obtain ⟨s₁, hs₁, hR⟩ := hstep i s t h (his i List.mem_cons_self)
      obtain ⟨s', hs'⟩ := ih (fun j hj => his j (List.mem_cons_of_mem i hj)) hR
      exact ⟨s', exec_cons_ok.mpr ⟨_, s₁, _, hs₁, hs', rfl⟩⟩

theorem EndsAlike.outputs {R : σ → τ → Prop} {x : Except ε (ο × σ)} {y : Except ε (ο × τ)}
    (h : EndsAlike (Both R) x y) : x.map Prod.fst = y.map Prod.fst := by
  cases h with
  | ok h => exact congrArg Except.ok h.1
  | error f => rfl

end InStep

/-! ## A record of the past -/

section Recorded
variable {γ : Type*} {note : γ → ι → ο → γ} {i : ι} {o : ο} {s s' : σ} {g g' : γ}

/-- The machine with a record of its past beside the state; `note` adds a step to the record. -/
def recorded (note : γ → ι → ο → γ) (step : ι → σ → Except ε (ο × σ)) (i : ι) (q : γ × σ) :
    Except ε (ο × γ × σ) :=
  (step i q.2).map fun r => (r.1, note q.1 i r.1, r.2)

theorem recorded_eq_ok :
    recorded note step i (g, s) = .ok (o, g', s') ↔ step i s = .ok (o, s') ∧ g' = note g i o := by
  show (step i s).map _ = _ ↔ _
  cases step i s with
  | error f => simp [Except.map]
  | ok r =>
      obtain ⟨o₁, s₁⟩ := r
      simp only [Except.map, Except.ok.injEq, Prod.mk.injEq]
      constructor
      · rintro ⟨rfl, rfl, rfl⟩
        exact ⟨⟨rfl, rfl⟩, rfl⟩
      · rintro ⟨⟨rfl, rfl⟩, rfl⟩
        exact ⟨rfl, rfl, rfl⟩

/-- The machine with a record of its steps in which `note` also sees the state where a step starts. -/
def watched (note : γ → ι → σ → ο → γ) (step : ι → σ → Except ε (ο × σ)) (i : ι) (q : γ × σ) :
    Except ε (ο × γ × σ) :=
  (step i q.2).map fun r => (r.1, note q.1 i q.2 r.1, r.2)

theorem watched_eq_ok {note : γ → ι → σ → ο → γ} :
    watched note step i (g, s) = .ok (o, g', s') ↔ step i s = .ok (o, s') ∧ g' = note g i s o := by
  show (step i s).map _ = _ ↔ _
  cases step i s with
  | error f => simp [Except.map]
  | ok r =>
      obtain ⟨o₁, s₁⟩ := r
      simp only [Except.map, Except.ok.injEq, Prod.mk.injEq]
      constructor
      · rintro ⟨rfl, rfl, rfl⟩
        exact ⟨⟨rfl, rfl⟩, rfl⟩
      · rintro ⟨⟨rfl, rfl⟩, rfl⟩
        exact ⟨rfl, rfl, rfl⟩

theorem exec_watched {note : γ → ι → σ → ο → γ} {is : List ι} {os : List ο}
    (h : exec step is s = .ok (os, s')) (g : γ) :
    ∃ g', exec (watched note step) is (g, s) = .ok (os, g', s') := by
  induction is generalizing g s os with
  | nil =>
      obtain ⟨rfl, rfl⟩ := exec_nil_ok.mp h
      exact ⟨g, rfl⟩
  | cons i is ih =>
      obtain ⟨o, s₁, os₁, h₁, h₂, rfl⟩ := exec_cons_ok.mp h
      obtain ⟨g', hrest⟩ := ih h₂ (note g i s o)
      exact ⟨g', exec_cons_ok.mpr ⟨o, _, os₁, watched_eq_ok.mpr ⟨h₁, rfl⟩, hrest, rfl⟩⟩

end Recorded

/-! ## Runs in time -/

section Timeline
variable {during : ι → Nat → Nat → Prop} {P Q : ι → σ → Prop} {I : Nat → σ → Prop} {s s' : σ}

/-- The steps come one after the other: the first one starts at `lo`, and all are over at `hi`. -/
def Timeline (during : ι → Nat → Nat → Prop) (hi : Nat) : Nat → List ι → Prop
  | lo, [] => lo ≤ hi
  | lo, i :: is => ∃ mid, during i lo mid ∧ Timeline during hi mid is

theorem along_iff_timed
    (hstep : ∀ i s o s' now mid, I now s → during i now mid → step i s = .ok (o, s') → (P i s ↔ Q i s) ∧ I mid s')
    {is : List ι} {os : List ο} {lo hi : Nat} (htime : Timeline during hi lo is) (hs : I lo s)
    (h : exec step is s = .ok (os, s')) : Along P step is s ↔ Along Q step is s := by
  induction is generalizing s os lo with
  | nil => exact Iff.rfl
  | cons i is ih =>
      obtain ⟨mid, hduring, hrest⟩ := htime
      obtain ⟨o, s₁, os₁, h₁, h₂, -⟩ := exec_cons_ok.mp h
      obtain ⟨hiff, hs₁⟩ := hstep i s o s₁ lo mid hs hduring h₁
      have hnext := ih hrest hs₁ h₂
      constructor
      · rintro ⟨hP, hall⟩
        exact .cons (hiff.mp hP) h₁ (hnext.mp (hall o s₁ h₁))
      · rintro ⟨hQ, hall⟩
        exact .cons (hiff.mpr hQ) h₁ (hnext.mpr (hall o s₁ h₁))

/-- The run lemma in time: where an invariant makes of what is allowed something else that is wanted. -/
theorem along_timed (hstep : ∀ i s now mid, I now s → during i now mid → P i s →
      Q i s ∧ ∀ o s', step i s = .ok (o, s') → I mid s') {is : List ι} {lo hi : Nat}
    (htime : Timeline during hi lo is) (hs : I lo s) (h : Along P step is s) : Along Q step is s := by
  induction is generalizing s lo with
  | nil => trivial
  | cons i is ih =>
      obtain ⟨mid, hduring, hrest⟩ := htime
      obtain ⟨hQ, hnext⟩ := hstep i s lo mid hs hduring h.1
      exact ⟨hQ, fun o s₁ h₁ => ih hrest (hnext o s₁ h₁) (h.2 o s₁ h₁)⟩

end Timeline

end Machine

end KnotHal
