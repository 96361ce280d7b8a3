import KnotHal.Lib.Machine

/-!
# Triples for programs that may fail

A program over a state `σ` with faults in `ε` is a `StateT σ (Except ε)`. `Triple P p Q E` says that `p`, started
where `P` holds, ends with a result and a state for which `Q` holds, or in a fault for which `E` holds.

* `triple_pure`, `triple_get`, `triple_modify`, `triple_fault`, `Triple.bind`, `Triple.ite` : a rule for each statement;
* `exec_triple` : runs of programs.
-/

namespace KnotHal

open Machine

variable {σ ε α β : Type}

/-- From `P`, the program ends in `Q` or with a fault in `E`. -/
def Triple (P : σ → Prop) (p : StateT σ (Except ε) α) (Q : α → σ → Prop) (E : ε → Prop) : Prop :=
  ∀ s, P s → match p s with
    | .ok (a, s') => Q a s'
    | .error f => E f

variable {P : σ → Prop} {p : StateT σ (Except ε) α} {Q : α → σ → Prop} {E : ε → Prop} {s s' : σ} {a : α}

theorem Triple.of_ok (h : Triple P p Q E) (hs : P s) (hp : p s = .ok (a, s')) : Q a s' := by
  have := h s hs
  rw [hp] at this
  exact this

theorem Triple.of_error {f : ε} (h : Triple P p Q E) (hs : P s) (hp : p s = .error f) : E f := by
  have := h s hs
  rw [hp] at this
  exact this

theorem triple_pure (h : ∀ s, P s → Q a s) : Triple P (pure a : StateT σ (Except ε) α) Q E := h

theorem triple_get {Q : σ → σ → Prop} (h : ∀ s, P s → Q s s) : Triple P (get : StateT σ (Except ε) σ) Q E := h

theorem triple_modify {next : σ → σ} {Q : PUnit → σ → Prop} (h : ∀ s, P s → Q ⟨⟩ (next s)) :
    Triple P (modify next : StateT σ (Except ε) PUnit) Q E := h

theorem triple_fault {f : ε} (h : E f) : Triple P (fun _ => .error f : StateT σ (Except ε) α) Q E := fun _ _ => h

theorem Triple.bind {R : α → σ → Prop} {k : α → StateT σ (Except ε) β} {Q : β → σ → Prop} (h : Triple P p R E)
    (hk : ∀ a, Triple (R a) (k a) Q E) : Triple P (p >>= k) Q E := by
  intro s hs
  have hp := h s hs
  have hbind : (p >>= k) s = p s >>= fun r => k r.1 r.2 := rfl
  rw [hbind]
  cases hr : p s with
  | ok r =>
      rw [hr] at hp
      exact hk r.1 r.2 hp
  | error f =>
      rw [hr] at hp
      exact hp

theorem Triple.ite {c : Prop} [Decidable c] {q : StateT σ (Except ε) α} (hp : c → Triple P p Q E)
    (hq : ¬ c → Triple P q Q E) : Triple P (if c then p else q) Q E := by
  split
  · exact hp ‹c›
  · exact hq ‹¬ c›

/-- The run lemma: where every step keeps an invariant or ends in a fault of `E`, so does every run. -/
theorem exec_triple {ι ο : Type} {I : σ → Prop} {step : ι → σ → Except ε (ο × σ)} {is : List ι}
    (h : ∀ i ∈ is, Triple I (step i) (fun _ => I) E) : Triple I (exec step is) (fun _ => I) E := by
  induction is with
  | nil => exact fun s hs => hs
  | cons i is ih =>
      have hrest := ih fun j hj => h j (List.mem_cons_of_mem i hj)
      have hcons : exec step (i :: is) =
          ((step i >>= fun o => exec step is >>= fun os => pure (o :: os)) : StateT σ (Except ε) (List ο)) := rfl
      rw [hcons]
      apply Triple.bind (h i List.mem_cons_self)
      intro o
      exact hrest.bind fun os => triple_pure fun _ hs => hs

end KnotHal
