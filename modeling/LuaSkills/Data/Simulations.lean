import LuaSkills.Data.Triples

/-!
# Programs that agree

Two programs over different states agree when they return the same value, or stop with the same error, and
leave related states. Runs of agreeing operations have the same outcomes, also when the caller goes on after
an error.
-/

namespace EStateM
variable {ε σ τ α β ι : Type}

def final (x : EStateM ε σ α) (s : σ) : σ :=
  match x s with
  | .ok _ s' => s'
  | .error _ s' => s'

/-- What a program returns or stops with. -/
def outcome (x : EStateM ε σ α) (s : σ) : Except ε α :=
  match x s with
  | .ok a _ => .ok a
  | .error e _ => .error e

/-- From `s` and `t` the programs have the same outcome and end in related states. -/
structure Agree (R : σ → τ → Prop) (x : EStateM ε σ α) (y : EStateM ε τ α) (s : σ) (t : τ) : Prop where
  outcome : x.outcome s = y.outcome t
  related : R (x.final s) (y.final t)

def Simulates (R : σ → τ → Prop) (x : EStateM ε σ α) (y : EStateM ε τ α) : Prop :=
  ∀ s t, R s t → Agree R x y s t

/-- The outcomes of operations that are run one after the other, and the last state. -/
def trace (step : ι → EStateM ε σ α) : List ι → σ → List (Except ε α) × σ
  | [], s => ([], s)
  | i :: is, s =>
    let (outcomes, last) := trace step is ((step i).final s)
    ((step i).outcome s :: outcomes, last)

/-- `C` holds of every operation of a run and the state before it. -/
def Along (step : ι → EStateM ε σ α) (C : ι → σ → Prop) : List ι → σ → Prop
  | [], _ => True
  | i :: is, s => C i s ∧ Along step C is ((step i).final s)

variable {R : σ → τ → Prop} {x : EStateM ε σ α} {y : EStateM ε τ α} {f : α → EStateM ε σ β}
  {g : α → EStateM ε τ β} {s : σ} {t : τ}

/-- What a program keeps, whether it returns or stops, holds in the end. -/
theorem Triple.final {Q : σ → Prop} (h : Triple P x (fun _ => Q) Q) (hs : P s) : Q (x.final s) := by
  have hx := h s hs
  unfold EStateM.final
  cases hrun : x s with
  | ok a s' =>
    rw [hrun] at hx
    exact hx
  | error e s' =>
    rw [hrun] at hx
    exact hx

theorem bind_of_ok (h : x s = .ok a s') : (x >>= f) s = f a s' := by
  simp only [Bind.bind, EStateM.bind, h]

theorem bind_of_error (h : x s = .error e s') : (x >>= f) s = .error e s' := by
  simp only [Bind.bind, EStateM.bind, h]

namespace Agree

theorem pure {a : α} (h : R s t) :
    Agree R (Pure.pure a : EStateM ε σ α) (Pure.pure a : EStateM ε τ α) s t := ⟨rfl, h⟩

theorem throw {e : ε} (h : R s t) :
    Agree R (MonadExcept.throw e : EStateM ε σ α) (MonadExcept.throw e : EStateM ε τ α) s t := ⟨rfl, h⟩

theorem of_ok (hx : x s = .ok a s') (hy : y t = .ok a t') (h : R s' t') : Agree R x y s t := by
  constructor <;> simp only [EStateM.outcome, final, hx, hy]
  exact h

theorem of_error (hx : x s = .error e s') (hy : y t = .error e t') (h : R s' t') : Agree R x y s t := by
  constructor <;> simp only [EStateM.outcome, final, hx, hy]
  exact h

/-- Programs that agree both return, or both stop. -/
theorem cases (h : Agree R x y s t) :
    (∃ a s' t', x s = .ok a s' ∧ y t = .ok a t' ∧ R s' t') ∨
      ∃ e s' t', x s = .error e s' ∧ y t = .error e t' ∧ R s' t' := by
  obtain ⟨houtcome, hrelated⟩ := h
  unfold EStateM.outcome at houtcome
  unfold final at hrelated
  cases hx : x s with
  | ok a s' =>
    cases hy : y t with
    | ok b t' =>
      rw [hx, hy] at houtcome hrelated
      cases houtcome
      exact .inl ⟨a, s', t', rfl, rfl, hrelated⟩
    | error e t' =>
      rw [hx, hy] at houtcome
      cases houtcome
  | error e s' =>
    cases hy : y t with
    | ok b t' =>
      rw [hx, hy] at houtcome
      cases houtcome
    | error e' t' =>
      rw [hx, hy] at houtcome hrelated
      cases houtcome
      exact .inr ⟨e, s', t', rfl, rfl, hrelated⟩

theorem bind (h : Agree R x y s t) (hf : ∀ a s' t', x s = .ok a s' → R s' t' →
    Agree R (f a) (g a) s' t') : Agree R (x >>= f) (y >>= g) s t := by
  rcases h.cases with ⟨a, s', t', hx, hy, hrelated⟩ | ⟨e, s', t', hx, hy, hrelated⟩
  · obtain ⟨houtcome, hlast⟩ := hf a s' t' hx hrelated
    constructor
    · simpa only [EStateM.outcome, bind_of_ok hx, bind_of_ok hy] using houtcome
    · simpa only [final, bind_of_ok hx, bind_of_ok hy] using hlast
  · exact of_error (bind_of_error hx) (bind_of_error hy) hrelated

end Agree

theorem Simulates.pure {a : α} :
    Simulates R (Pure.pure a : EStateM ε σ α) (Pure.pure a : EStateM ε τ α) :=
  fun _ _ h => .pure h

theorem Simulates.throw {e : ε} :
    Simulates R (MonadExcept.throw e : EStateM ε σ α) (MonadExcept.throw e : EStateM ε τ α) :=
  fun _ _ h => .throw h

theorem Simulates.bind (h : Simulates R x y) (hf : ∀ a, Simulates R (f a) (g a)) :
    Simulates R (x >>= f) (y >>= g) :=
  fun s t hst => (h s t hst).bind fun a s' t' _ hst' => hf a s' t' hst'

/-- Operations that agree in every state that meets `C` agree along every run that does. -/
theorem trace_agree {step : ι → EStateM ε σ α} {step' : ι → EStateM ε τ α}
    (hstep : ∀ i s t, R s t → C i s → Agree R (step i) (step' i) s t) (h : R s t) (hC : Along step C is s) :
    (trace step is s).1 = (trace step' is t).1 ∧ R (trace step is s).2 (trace step' is t).2 := by
  induction is generalizing s t with
  | nil => exact ⟨rfl, h⟩
  | cons i is ih =>
    have hagree := hstep i s t h hC.1
    obtain ⟨houtcomes, hlast⟩ := ih hagree.related hC.2
    refine ⟨?_, hlast⟩
    simp only [trace]
    rw [hagree.outcome, houtcomes]

/-- What every operation keeps holds of the last state, and a property of single outcomes holds of all. -/
theorem trace_invariant {step : ι → EStateM ε σ α} {I : σ → Prop} {G : Except ε α → Prop}
    (hstep : ∀ i s, I s → I ((step i).final s) ∧ G ((step i).outcome s)) {is : List ι} (h : I s) :
    I (trace step is s).2 ∧ ∀ o ∈ (trace step is s).1, G o := by
  induction is generalizing s with
  | nil => exact ⟨h, fun _ ho => nomatch ho⟩
  | cons i is ih =>
    obtain ⟨hnext, hg⟩ := hstep i s h
    obtain ⟨hlast, hall⟩ := ih hnext
    refine ⟨hlast, fun o ho => ?_⟩
    rcases List.mem_cons.1 ho with rfl | ho
    · exact hg
    · exact hall o ho

end EStateM
