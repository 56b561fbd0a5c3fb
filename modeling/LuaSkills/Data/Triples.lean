import Mathlib.Tactic.TypeStar

/-!
# Pre- and postconditions of programs that stop with an error

A program changes a state and ends with a value or stops with an error; what it did to the state until
then stays. A triple bounds both ends, and a program whose triple has no error end does not stop.
-/

namespace EStateM
variable {ε σ α β : Type}

/-- From a state with `P` the program ends with a value and `Q`, or stops in a state with `E`. -/
def Triple (P : σ → Prop) (x : EStateM ε σ α) (Q : α → σ → Prop) (E : σ → Prop) : Prop :=
  ∀ s, P s →
    match x s with
    | .ok a s' => Q a s'
    | .error _ s' => E s'

namespace Triple
variable {P P' : σ → Prop} {x : EStateM ε σ α} {f : α → EStateM ε σ β} {Q Q' : α → σ → Prop}
  {R : β → σ → Prop} {E E' : σ → Prop} {s s' : σ} {a : α} {e : ε}

theorem ok (h : Triple P x Q E) (hs : P s) (hx : x s = .ok a s') : Q a s' := by
  have := h s hs
  rwa [hx] at this

theorem error (h : Triple P x Q E) (hs : P s) (hx : x s = .error e s') : E s' := by
  have := h s hs
  rwa [hx] at this

theorem intro (hok : ∀ s a s', P s → x s = .ok a s' → Q a s')
    (herror : ∀ s e s', P s → x s = .error e s' → E s') : Triple P x Q E := by
  intro s hs
  cases hx : x s with
  | ok a s' => exact hok s a s' hs hx
  | error e s' => exact herror s e s' hs hx

theorem mono (h : Triple P x Q E) (hP : ∀ s, P' s → P s) (hQ : ∀ a s, Q a s → Q' a s)
    (hE : ∀ s, E s → E' s) : Triple P' x Q' E' :=
  intro (fun s a s' hs hx => hQ a s' (h.ok (hP s hs) hx))
    fun s _ s' hs hx => hE s' (h.error (hP s hs) hx)

theorem and (h : Triple P x Q E) (h' : Triple P' x Q' E') :
    Triple (fun s => P s ∧ P' s) x (fun a s => Q a s ∧ Q' a s) fun s => E s ∧ E' s :=
  intro (fun _ _ _ hs hx => ⟨h.ok hs.1 hx, h'.ok hs.2 hx⟩)
    fun _ _ _ hs hx => ⟨h.error hs.1 hx, h'.error hs.2 hx⟩

/-- The ends of a run are its own postconditions. -/
theorem run (x : EStateM ε σ α) :
    Triple (· = s₀) x (fun a s => x s₀ = .ok a s) fun s => ∃ e, x s₀ = .error e s :=
  intro (fun _ _ _ hs hx => hs ▸ hx) fun _ e _ hs hx => ⟨e, hs ▸ hx⟩

theorem of_forall (h : ∀ s₀, P s₀ → Triple (· = s₀) x Q E) : Triple P x Q E :=
  fun s hs => h s hs s rfl

/-- What does not depend on the state is taken out of the precondition. -/
theorem of_and (h : p → Triple P x Q E) : Triple (fun s => p ∧ P s) x Q E :=
  fun s hs => h hs.1 s hs.2

theorem of_exists {γ : Type} {P : γ → σ → Prop} (h : ∀ c, Triple (P c) x Q E) :
    Triple (fun s => ∃ c, P c s) x Q E := fun s ⟨c, hs⟩ => h c s hs

theorem pure (h : ∀ s, P s → Q a s) : Triple P (Pure.pure a : EStateM ε σ α) Q E := fun s hs => h s hs

theorem throw (h : ∀ s, P s → E s) : Triple P (MonadExcept.throw e : EStateM ε σ α) Q E :=
  fun s hs => h s hs

theorem bind (h : Triple P x Q E) (hf : ∀ a, Triple (Q a) (f a) R E) : Triple P (x >>= f) R E := by
  intro s hs
  have hx := h s hs
  simp only [Bind.bind, EStateM.bind]
  cases hrun : x s with
  | ok a s' =>
    rw [hrun] at hx
    exact hf a s' hx
  | error e s' =>
    rw [hrun] at hx
    exact hx

/-- The program followed, when it stops, by a handler that goes on from where it stopped. -/
theorem tryCatch {handler : ε → EStateM ε σ α} (h : Triple P x Q E')
    (hhandler : ∀ e, Triple E' (handler e) Q E) :
    Triple P (MonadExcept.tryCatch x handler) Q E := by
  intro s hs
  have hx := h s hs
  have hcatch : (MonadExcept.tryCatch x handler : EStateM ε σ α) s =
      match x s with
      | .ok a s' => .ok a s'
      | .error e s' => handler e s' := by
    change EStateM.tryCatch x handler s = _
    unfold EStateM.tryCatch
    cases x s <;> rfl
  rw [hcatch]
  cases hrun : x s with
  | ok a s' =>
    rw [hrun] at hx
    exact hx
  | error e s' =>
    rw [hrun] at hx
    exact hhandler e s' hx

/-- A loop over a list: `I` holds of the elements that are done. -/
theorem forM {f : γ → EStateM ε σ PUnit} {I : List γ → σ → Prop} (l : List γ)
    (h : ∀ done c rest, done ++ c :: rest = l →
      Triple (I done) (f c) (fun _ => I (done ++ [c])) E) : Triple (I []) (l.forM f) (fun _ => I l) E := by
  have hrun : ∀ rest done, done ++ rest = l → Triple (I done) (rest.forM f) (fun _ => I l) E := by
    intro rest
    induction rest with
    | nil =>
      intro done hdone
      rw [List.append_nil] at hdone
      exact .pure fun s hs => hdone ▸ hs
    | cons c rest ih =>
      intro done hdone
      exact (h done c rest hdone).bind fun _ => ih (done ++ [c]) (by rw [← hdone]; simp)
  exact hrun l [] rfl

end Triple

end EStateM
