import Mathlib.Data.List.Infix
import Mathlib.Algebra.GroupWithZero.Nat

/-!
# Decoders that go character by character

A `StepDecoder` looks at the symbols in front of it, writes something for the first few of them and
goes on behind those. Decoding a suffix of a text agrees with decoding the text exactly from the
positions where a step begins, its boundaries; and a step that looks only a few symbols ahead does not
notice that a text goes on further. So a search can resume at a boundary without losing an occurrence,
as long as it goes back far enough (`StepDecoder.resume`).
-/

/-- What is written for the first symbol and those behind it, and how many of those belong to it. -/
structure StepDecoder (α γ : Type) where
  step : α → List α → List γ × ℕ
  fits : ∀ a rest, (step a rest).2 ≤ rest.length

theorem List.zero_le_length (rest : List α) : 0 ≤ rest.length := Nat.zero_le _

namespace StepDecoder

open List Nat
variable {α γ : Type} (D : StepDecoder α γ) {a : α} {l rest extra : List α} {k n q : ℕ} {out M : List γ}

def decodeWithin : ℕ → List α → List γ
  | 0, _ => []
  | _, [] => []
  | n + 1, a :: rest => (D.step a rest).1 ++ decodeWithin n (rest.drop (D.step a rest).2)

def decode (l : List α) : List γ := D.decodeWithin l.length l

theorem decodeWithin_of_le (h : l.length ≤ n) : D.decodeWithin n l = D.decode l := by
  have hstable : ∀ (n m : ℕ) (l : List α), l.length ≤ n → l.length ≤ m →
      D.decodeWithin n l = D.decodeWithin m l := by
    intro n
    induction n with
    | zero =>
      intro m l hn _
      rw [length_eq_zero_iff.1 (le_zero.1 hn)]
      cases m <;> rfl
    | succ n ih =>
      intro m l hn hm
      cases l with
      | nil => cases m <;> rfl
      | cons a rest =>
        cases m with
        | zero => cases hm
        | succ m =>
          simp only [length_cons] at hn hm
          have hdrop : (rest.drop (D.step a rest).2).length ≤ rest.length := by
            rw [length_drop]
            omega
          rw [decodeWithin, decodeWithin, ih m _ (by omega) (by omega)]
  exact hstable n l.length l h (le_refl _)

@[simp] theorem decode_nil : D.decode [] = [] := rfl

theorem decode_cons (a : α) (rest : List α) :
    D.decode (a :: rest) = (D.step a rest).1 ++ D.decode (rest.drop (D.step a rest).2) := by
  have hdrop : (rest.drop (D.step a rest).2).length ≤ rest.length := by
    rw [length_drop]
    omega
  rw [← D.decodeWithin_of_le hdrop]
  rfl

theorem steps_induction {motive : List α → Prop} (nil : motive [])
    (cons : ∀ a rest, motive (rest.drop (D.step a rest).2) → motive (a :: rest)) (l : List α) :
    motive l := by
  induction hlen : l.length using Nat.strong_induction_on generalizing l with
  | _ n ih =>
    cases l with
    | nil => exact nil
    | cons a rest =>
      refine cons a rest (ih _ ?_ _ rfl)
      rw [← hlen, length_cons, length_drop]
      omega

/-- The first steps go `k` symbols far and write `out`. -/
inductive Run : List α → ℕ → List γ → Prop where
  | start (l : List α) : Run l 0 []
  | next {a : α} {rest : List α} {k : ℕ} {out : List γ} :
    Run (rest.drop (D.step a rest).2) k out →
      Run (a :: rest) ((D.step a rest).2 + 1 + k) ((D.step a rest).1 ++ out)

/-- A step begins at the position, or the text ends there. -/
def Boundary (l : List α) (k : ℕ) : Prop := ∃ out, D.Run l k out

variable {D}

theorem boundary_zero : D.Boundary l 0 := ⟨[], .start l⟩

theorem Run.decode (h : D.Run l k out) : D.decode l = out ++ D.decode (l.drop k) := by
  induction h with
  | start l => rfl
  | @next a rest k out _ ih =>
    have hdrop : (a :: rest).drop ((D.step a rest).2 + 1 + k) =
        (rest.drop (D.step a rest).2).drop k := by
      rw [drop_drop, Nat.add_right_comm, drop_succ_cons]
    rw [D.decode_cons, ih, hdrop, append_assoc]

/-- Runs one after the other. -/
theorem Run.append (h : D.Run l k out) (h' : D.Run (l.drop k) q out') : D.Run l (k + q) (out ++ out') := by
  induction h with
  | start l =>
    rw [Nat.zero_add]
    exact h'
  | @next a rest k out _ ih =>
    rw [append_assoc, Nat.add_assoc]
    refine .next (ih ?_)
    rwa [drop_drop, ← drop_succ_cons (a := a), Nat.add_right_comm]

/-- What is written up to a boundary, when the boundary is beyond `A`. -/
theorem Run.split (h : D.Run l k out) (heq : D.decode l = A ++ T) (hlt : A.length < out.length) :
    ∃ p out₀ A₀ rest₀, D.Run l p out₀ ∧ p < k ∧ A = out₀ ++ A₀ ∧ D.decode (l.drop p) = A₀ ++ T ∧
      ∃ a, l.drop p = a :: rest₀ ∧ A₀.length < (D.step a rest₀).1.length := by
  induction h generalizing A with
  | start l => cases hlt
  | @next a rest k out hrun ih =>
    rcases lt_or_ge A.length (D.step a rest).1.length with hfirst | hge
    · exact ⟨0, [], A, rest, .start _, by omega, rfl, heq, a, rfl, hfirst⟩
    · rw [D.decode_cons] at heq
      obtain ⟨A', rfl⟩ : (D.step a rest).1 <+: A :=
        prefix_of_prefix_length_le ⟨_, heq⟩ (prefix_append A T) hge
      rw [append_assoc, append_cancel_left_eq] at heq
      rw [length_append, length_append] at hlt
      obtain ⟨p, out₀, A₀, rest₀, hp, hpk, hA, hdec, b, hdrop, hb⟩ := ih heq (by omega)
      have hshift : (a :: rest).drop ((D.step a rest).2 + 1 + p) =
          (rest.drop (D.step a rest).2).drop p := by
        rw [drop_drop, Nat.add_right_comm, drop_succ_cons]
      refine ⟨(D.step a rest).2 + 1 + p, (D.step a rest).1 ++ out₀, A₀, rest₀, .next hp, by omega, ?_, ?_, b,
        ?_, hb⟩
      · rw [hA, append_assoc]
      · rw [hshift, hdec]
      · rw [hshift, hdrop]

/-- The step looks at no more than `n` symbols behind the first. -/
def Lookahead (D : StepDecoder α γ) (n : ℕ) : Prop :=
  ∀ a rest extra, n ≤ rest.length → D.step a (rest ++ extra) = D.step a rest

/-- A run that ends early enough does not notice what is appended. -/
theorem Run.truncate (hlook : D.Lookahead n) (h : D.Run (l ++ extra) k out) (hle : k + n ≤ l.length) :
    D.Run l k out := by
  generalize hl : l ++ extra = whole at h
  induction h generalizing l with
  | start whole => exact .start l
  | @next a rest k out _ ih =>
    cases l with
    | nil =>
      simp only [length_nil] at hle
      omega
    | cons b l =>
      rw [cons_append] at hl
      obtain ⟨rfl, rfl⟩ := cons.inj hl
      rw [length_cons] at hle
      have hstep : D.step b (l ++ extra) = D.step b l := hlook b l extra (by omega)
      rw [hstep] at ih hle ⊢
      refine .next (ih ?_ ?_)
      · rw [length_drop]
        omega
      · rw [drop_append_of_le_length (by omega)]

/-- The symbols behind an occurrence of `M` are at most `n`, from the step that begins it. -/
def Spans (D : StepDecoder α γ) (M : List γ) (n : ℕ) : Prop :=
  ∀ a rest A B, D.decode (a :: rest) = A ++ M ++ B → A.length < (D.step a rest).1.length →
    ∃ q out, D.Run (a :: rest) q out ∧ q ≤ n ∧ A ++ M <+: out

/-- Decoding from a boundary sees a part of what decoding the text sees. -/
theorem Boundary.isInfix (h : D.Boundary l k) (hM : M <:+: D.decode (l.drop k)) : M <:+: D.decode l := by
  obtain ⟨out, hrun⟩ := h
  rw [hrun.decode]
  exact hM.trans (suffix_append _ _).isInfix

/-- A search that resumes at a boundary, far enough behind the symbols that were new: what occurs in the
text occurs behind the boundary, or it occurred before the new symbols came. -/
theorem resume (hlook : D.Lookahead n) (hspan : D.Spans M q) (hk : D.Boundary (l ++ extra) k)
    (hback : k + (q + n) ≤ l.length + 1) (hM : M <:+: D.decode (l ++ extra)) :
    M <:+: D.decode ((l ++ extra).drop k) ∨ M <:+: D.decode l := by
  obtain ⟨out, hrun⟩ := hk
  obtain ⟨A, B, hAB⟩ := hM
  rcases lt_or_ge A.length out.length with hlt | hge
  · right
    have heq : D.decode (l ++ extra) = A ++ (M ++ B) := by rw [← hAB, append_assoc]
    obtain ⟨p, out₀, A₀, rest₀, hp, hpk, hA, hdec, a, hdrop, ha⟩ := hrun.split heq hlt
    rw [hdrop, ← append_assoc] at hdec
    obtain ⟨m, out₁, hrun₁, hm, hcover⟩ := hspan a rest₀ A₀ B hdec ha
    have hwhole : D.Run (l ++ extra) (p + m) (out₀ ++ out₁) := hp.append (hdrop ▸ hrun₁)
    have hshort := (hwhole.truncate hlook (by omega)).decode
    rw [hshort]
    have hinside : M <:+: out₁ := (suffix_append A₀ M).isInfix.trans hcover.isInfix
    exact (hinside.trans (suffix_append out₀ out₁).isInfix).trans (prefix_append _ _).isInfix
  · left
    have hdec := hrun.decode
    rw [← hAB, append_assoc] at hdec
    obtain ⟨A', rfl⟩ : out <+: A :=
      prefix_of_prefix_length_le ⟨_, hdec.symm⟩ (prefix_append A _) hge
    rw [append_assoc, append_cancel_left_eq] at hdec
    exact ⟨A', B, by rw [← hdec, append_assoc]⟩

/-- A window that has lost its first symbols and gained others, and that held no `M`: what a search finds
that leaves out the first `k` symbols is what a search of the whole window finds. -/
theorem resume_iff (hlook : D.Lookahead n) (hspan : D.Spans M q) (hd : D.Boundary old d)
    (hk : D.Boundary (old.drop d ++ extra) k) (hback : d + k + (q + n) ≤ old.length + 1)
    (hold : ¬ M <:+: D.decode old) :
    M <:+: D.decode ((old.drop d ++ extra).drop k) ↔ M <:+: D.decode (old.drop d ++ extra) := by
  constructor
  · exact hk.isInfix
  · intro hM
    have hleft : k + (q + n) ≤ (old.drop d).length + 1 := by
      rw [length_drop]
      omega
    rcases resume hlook hspan hk hleft hM with hfound | hearlier
    · exact hfound
    · exact absurd (hd.isInfix hearlier) hold

theorem Lookahead.mono (h : D.Lookahead n) (hle : n ≤ m) : D.Lookahead m :=
  fun a rest extra hlen => h a rest extra (hle.trans hlen)

/-! ## One symbol for one step -/

/-- Every step writes one symbol, and takes no more than the symbol's size. -/
def Sized (D : StepDecoder α γ) (size : γ → ℕ) : Prop :=
  ∀ a rest, ∃ c, (D.step a rest).1 = [c] ∧ (D.step a rest).2 + 1 ≤ size c

/-- A text that begins with `M` begins with a run that writes it. -/
theorem Sized.run {size : γ → ℕ} (hsize : D.Sized size) (h : D.decode l = M ++ B) :
    ∃ q, D.Run l q M ∧ q ≤ (M.map size).sum := by
  induction M generalizing l with
  | nil => exact ⟨0, .start l, zero_le _⟩
  | cons c M ih =>
    cases l with
    | nil => cases h
    | cons a rest =>
      obtain ⟨c', hout, hle⟩ := hsize a rest
      rw [D.decode_cons, hout] at h
      obtain ⟨rfl, htail⟩ := cons.inj h
      obtain ⟨q, hrun, hq⟩ := ih htail
      have hnext := Run.next hrun
      rw [hout] at hnext
      refine ⟨_, hnext, ?_⟩
      rw [map_cons, sum_cons]
      omega

theorem Sized.spans {size : γ → ℕ} (hsize : D.Sized size) (M : List γ) :
    D.Spans M (M.map size).sum := by
  intro a rest A B h hlt
  obtain ⟨c, hout, -⟩ := hsize a rest
  rw [hout, length_singleton, lt_one_iff, length_eq_zero_iff] at hlt
  subst hlt
  obtain ⟨q, hrun, hq⟩ := hsize.run h
  exact ⟨q, M, hrun, hq, prefix_rfl⟩

/-! ## Groups of one width -/

/-- Every step takes `m` symbols, or what is left of them. -/
def Grouped (D : StepDecoder α γ) (m : ℕ) : Prop := ∀ a rest, (D.step a rest).2 + 1 = min m (rest.length + 1)

theorem Grouped.boundary (hgroup : D.Grouped m) (hdvd : m ∣ k) (hle : k ≤ l.length) : D.Boundary l k := by
  obtain ⟨j, rfl⟩ := hdvd
  induction j generalizing l with
  | zero => exact boundary_zero
  | succ j ih =>
    rw [mul_succ] at hle ⊢
    cases l with
    | nil =>
      have hzero : m * j + m = 0 := le_zero.1 hle
      rw [hzero]
      exact boundary_zero
    | cons a rest =>
      have hstep := hgroup a rest
      rw [length_cons] at hle
      have hfull : (D.step a rest).2 + 1 = m := by
        rw [hstep]
        exact min_eq_left (by omega)
      obtain ⟨out, hrun⟩ := ih (l := rest.drop (D.step a rest).2) (by rw [length_drop]; omega)
      have hnext := Run.next hrun
      rw [hfull, Nat.add_comm] at hnext
      exact ⟨_, hnext⟩

/-- The first groups that write at least `n` symbols. -/
theorem Grouped.run {m w : ℕ} (hgroup : D.Grouped m) (hw : 0 < w)
    (hwidth : ∀ a rest, (D.step a rest).1.length = w) (h : n ≤ (D.decode l).length) :
    ∃ q out, D.Run l q out ∧ n ≤ out.length ∧ q ≤ m * ((n + (w - 1)) / w) := by
  induction l using D.steps_induction generalizing n with
  | nil =>
    rw [decode_nil, length_nil, le_zero] at h
    exact ⟨0, [], .start [], le_of_eq h, zero_le _⟩
  | cons a rest ih =>
    rcases Nat.eq_zero_or_pos n with rfl | hpos
    · exact ⟨0, [], .start _, le_refl 0, zero_le _⟩
    · rw [D.decode_cons, length_append, hwidth] at h
      obtain ⟨q, out, hrun, hout, hq⟩ := ih (n := n - w) (by omega)
      have hstep := hgroup a rest
      refine ⟨_, _, .next hrun, ?_, ?_⟩
      · rw [length_append, hwidth]
        omega
      · have hgroups : (n - w + (w - 1)) / w + 1 ≤ (n + (w - 1)) / w := by
          rcases lt_or_ge n w with hlt | hge
          · rw [Nat.sub_eq_zero_of_le hlt.le, Nat.zero_add, Nat.div_eq_of_lt (by omega),
              le_div_iff_mul_le hw]
            omega
          · rw [← add_div_right _ hw]
            exact Nat.div_le_div_right (by omega)
        calc (D.step a rest).2 + 1 + q ≤ m + m * ((n - w + (w - 1)) / w) := by omega
          _ = m * ((n - w + (w - 1)) / w + 1) := by rw [Nat.mul_succ, Nat.add_comm]
          _ ≤ m * ((n + (w - 1)) / w) := mul_le_mul_left m hgroups

theorem Grouped.spans (hgroup : D.Grouped m) (hw : 0 < w) (hwidth : ∀ a rest, (D.step a rest).1.length = w)
    (M : List γ) : D.Spans M (m * ((w - 1 + M.length + (w - 1)) / w)) := by
  intro a rest A B h hlt
  rw [hwidth] at hlt
  have hlength : (A ++ M).length ≤ (D.decode (a :: rest)).length := by
    rw [h, @length_append _ (A ++ M) B]
    exact le_add_right _ _
  obtain ⟨q, out, hrun, hout, hq⟩ := hgroup.run hw hwidth hlength
  refine ⟨q, out, hrun, hq.trans (Nat.mul_le_mul_left m (Nat.div_le_div_right ?_)), ?_⟩
  · rw [length_append]
    omega
  · have hprefix : out <+: D.decode (a :: rest) := hrun.decode ▸ prefix_append _ _
    exact prefix_of_prefix_length_le (h ▸ prefix_append _ _) hprefix hout

end StepDecoder
