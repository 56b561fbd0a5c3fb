import LuaSkills.Data.Text
import Mathlib.Data.List.Perm.Subperm
import Mathlib.Data.List.Infix

/-!
# Replacing several patterns one after the other

A text is followed through replacements with the position each of its elements came from; what a
replacement inserts came from nowhere. Replacing the patterns one after the other is compared with
masking all their occurrences at once.
-/

namespace Masking

open List Nat

variable {i : ℕ}

/-- Elements with the positions they came from. -/
abbrev Traced (α : Type) := List (α × Option ℕ)

section
variable {α : Type}

def plain (text : Traced α) : List α := text.map Prod.fst

def inserted (marker : List α) : Traced α := marker.map fun c => (c, none)

@[simp] theorem plain_nil : plain ([] : Traced α) = [] := rfl

@[simp] theorem plain_cons (e : α × Option ℕ) (text : Traced α) :
    plain (e :: text) = e.1 :: plain text := rfl

@[simp] theorem plain_append (a b : Traced α) : plain (a ++ b) = plain a ++ plain b :=
  map_append

@[simp] theorem plain_inserted (marker : List α) : plain (inserted marker) = marker := by
  rw [plain, inserted, map_map]
  exact map_id marker

/-- The text before any replacement. -/
def original (text : List α) : Traced α := text.zipIdx.map fun e => (e.1, some e.2)

@[simp] theorem plain_original (text : List α) : plain (original text) = text := by
  rw [plain, original, map_map]
  exact zipIdx_map_fst 0 text

/-! ## Occurrences -/

variable {pattern : List α} {patterns : List (List α)}

/-- Two occurrences of patterns are the same or do not overlap. -/
def Apart (patterns : List (List α)) (text : List α) : Prop :=
  ∀ v ∈ patterns, ∀ w ∈ patterns, ∀ i j, v <+: text.drop i → w <+: text.drop j →
    (i = j ∧ v = w) ∨ i + v.length ≤ j ∨ j + w.length ≤ i

/-- No match of the pattern has an element that was inserted. -/
def Untouched (pattern : List α) (text : Traced α) : Prop :=
  ∀ a b, text = a ++ b → pattern <+: plain b → ∀ e ∈ b.take pattern.length, e.2 ≠ none

theorem Apart.drop (h : Apart patterns text) (n : ℕ) : Apart patterns (text.drop n) := by
  intro v hv w hw i j hi hj
  rw [drop_drop] at hi hj
  rcases h v hv w hw (n + i) (n + j) hi hj with ⟨hij, hvw⟩ | h | h
  · exact Or.inl ⟨Nat.add_left_cancel hij, hvw⟩
  · exact Or.inr (Or.inl (by omega))
  · exact Or.inr (Or.inr (by omega))

theorem Apart.mono (h : Apart patterns text) (hsub : patterns' ⊆ patterns) :
    Apart patterns' text := fun v hv w hw =>
  h v (hsub hv) w (hsub hw)

theorem Apart.unique (h : Apart patterns text) (hne : ∀ v ∈ patterns, v ≠ []) {v : List α}
    (hv : v ∈ patterns) (hw : w ∈ patterns) (hpv : v <+: text) (hpw : w <+: text) : v = w := by
  have hlength := length_pos_iff.2 (hne v hv)
  have hlength' := length_pos_iff.2 (hne w hw)
  rcases h v hv w hw 0 0 hpv hpw with ⟨-, heq⟩ | h | h
  · exact heq
  · omega
  · omega

/-- Only the places within the text have to be looked at. -/
theorem Apart.of_lt {text : List α} (hne : ∀ v ∈ patterns, v ≠ [])
    (h : ∀ v ∈ patterns, ∀ w ∈ patterns, ∀ i < text.length, ∀ j < text.length, v <+: text.drop i →
      w <+: text.drop j → (i = j ∧ v = w) ∨ i + v.length ≤ j ∨ j + w.length ≤ i) :
    Apart patterns text := by
  have hlt : ∀ v ∈ patterns, ∀ i, v <+: text.drop i → i < text.length := by
    intro v hv i hprefix
    by_contra hle
    rw [drop_eq_nil_of_le (not_lt.1 hle), prefix_nil] at hprefix
    exact hne v hv hprefix
  exact fun v hv w hw i j hi hj => h v hv w hw i (hlt v hv i hi) j (hlt w hw j hj) hi hj

theorem Untouched.of_append {a : Traced α} (h : Untouched pattern (a ++ b)) : Untouched pattern b := by
  intro a' b' heq
  exact h (a ++ a') b' (by rw [heq, append_assoc])

end

variable {α : Type} [DecidableEq α] (pattern marker : List α) (patterns : List (List α))

/-- Replacement from left to right; `skip` elements of a match are still to be passed over. -/
def replaceFrom : ℕ → Traced α → Traced α
  | _, [] => []
  | skip + 1, _ :: cs => replaceFrom skip cs
  | 0, c :: cs =>
    if pattern.isPrefixOf (plain (c :: cs)) then
      inserted marker ++ replaceFrom (pattern.length - 1) cs
    else c :: replaceFrom 0 cs

/-- One replacement after the other. -/
def replaceAll : List (List α) → Traced α → Traced α
  | [], text => text
  | pattern :: patterns, text => replaceAll patterns (replaceFrom pattern marker 0 text)

/-- All occurrences masked at once, from position `i` on. -/
def mask : ℕ → ℕ → List α → Traced α
  | _, _, [] => []
  | i, skip + 1, _ :: cs => mask (i + 1) skip cs
  | i, 0, c :: cs =>
    match patterns.find? fun pattern => pattern.isPrefixOf (c :: cs) with
    | some pattern => inserted marker ++ mask (i + 1) (pattern.length - 1) cs
    | none => (c, some i) :: mask (i + 1) 0 cs

/-! ## The condition -/

/-- The occurrences of the patterns lie apart, and whichever of them are masked, no other pattern
matches at a marker. -/
structure Separate (text : List α) : Prop where
  nonempty : ∀ pattern ∈ patterns, pattern ≠ []
  apart : Apart patterns text
  untouched : ∀ pattern masked, (pattern :: masked).Subperm patterns →
    Untouched pattern (mask marker masked 0 0 text)

/-! ## Equations -/

section
variable {pattern marker : List α} {patterns : List (List α)}

theorem replaceFrom_skip (skip : ℕ) (text : Traced α) :
    replaceFrom pattern marker skip text = replaceFrom pattern marker 0 (text.drop skip) := by
  induction skip generalizing text with
  | zero => rfl
  | succ skip ih =>
    cases text with
    | nil => rfl
    | cons c cs => exact ih cs

theorem replaceFrom_of_begins (hne : pattern ≠ []) (h : pattern <+: plain text) :
    replaceFrom pattern marker 0 text =
      inserted marker ++ replaceFrom pattern marker 0 (text.drop pattern.length) := by
  cases text with
  | nil => exact absurd (prefix_nil.1 h) hne
  | cons c cs =>
    obtain ⟨n, hn⟩ := exists_eq_succ_of_ne_zero fun h => hne (length_eq_zero_iff.1 h)
    rw [replaceFrom, if_pos (List.isPrefixOf_iff_prefix.2 h), replaceFrom_skip, hn]
    rfl

theorem replaceFrom_of_not {c : α × Option ℕ} {cs : Traced α}
    (h : ¬ pattern <+: plain (c :: cs)) :
    replaceFrom pattern marker 0 (c :: cs) = c :: replaceFrom pattern marker 0 cs := by
  rw [replaceFrom, if_neg fun h' => h (List.isPrefixOf_iff_prefix.1 h')]

theorem mask_skip (i skip : ℕ) (text : List α) :
    mask marker patterns i skip text = mask marker patterns (i + skip) 0 (text.drop skip) := by
  induction skip generalizing i text with
  | zero => rfl
  | succ skip ih =>
    cases text with
    | nil => simp [mask]
    | cons c cs =>
      rw [mask, ih, Nat.add_right_comm i 1 skip]
      rfl

theorem mask_of_occurs (hne : ∀ v ∈ patterns, v ≠ [])
    (hone : ∀ v ∈ patterns, ∀ w ∈ patterns, v <+: text → w <+: text → v = w) (hmem : pattern ∈ patterns)
    (h : pattern <+: text) : mask marker patterns i 0 text = inserted marker ++
      mask marker patterns (i + pattern.length) 0 (text.drop pattern.length) := by
  cases text with
  | nil => exact absurd (prefix_nil.1 h) (hne pattern hmem)
  | cons c cs =>
    have hfind : patterns.find? (fun pattern => pattern.isPrefixOf (c :: cs)) = some pattern := by
      obtain ⟨w, hw⟩ : ∃ w, patterns.find? (fun w => w.isPrefixOf (c :: cs)) = some w :=
        Option.isSome_iff_exists.1
          (find?_isSome.2 ⟨pattern, hmem, isPrefixOf_iff_prefix.2 h⟩)
      have hprefix : w <+: c :: cs := isPrefixOf_iff_prefix.1 (by simpa using find?_some hw)
      rw [hw, hone w (mem_of_find?_eq_some hw) pattern hmem hprefix h]
    obtain ⟨n, hn⟩ :=
      exists_eq_succ_of_ne_zero fun h => hne pattern hmem (length_eq_zero_iff.1 h)
    rw [mask, hfind]
    dsimp only
    rw [mask_skip, hn, Nat.succ_sub_one, Nat.add_assoc, Nat.add_comm 1 n]
    rfl

theorem mask_of_not {c : α} (h : ∀ v ∈ patterns, ¬ v <+: c :: cs) :
    mask marker patterns i 0 (c :: cs) = (c, some i) :: mask marker patterns (i + 1) 0 cs := by
  have hfind : patterns.find? (fun pattern => pattern.isPrefixOf (c :: cs)) = none := by
    rw [find?_eq_none]
    exact fun v hv h' => h v hv (List.isPrefixOf_iff_prefix.1 (by simpa using h'))
  rw [mask, hfind]

@[simp] theorem mask_nil (i : ℕ) : mask marker patterns i 0 [] = [] := rfl

theorem mask_empty (marker : List α) (i : ℕ) (text : List α) :
    mask marker [] i 0 text = (text.zipIdx i).map fun e => (e.1, some e.2) := by
  induction text generalizing i with
  | nil => rfl
  | cons c cs ih =>
    rw [mask_of_not fun v hv => absurd hv not_mem_nil, ih, zipIdx_cons]
    rfl

/-! ## Replacements of what was inserted -/

theorem replaceFrom_inserted (hne : pattern ≠ []) (h : Untouched pattern (inserted inserts ++ text)) :
    replaceFrom pattern marker 0 (inserted inserts ++ text) =
      inserted inserts ++ replaceFrom pattern marker 0 text := by
  induction inserts with
  | nil => rfl
  | cons c cs ih =>
    have hno : ¬ pattern <+: plain ((c, none) :: (inserted cs ++ text)) := by
      intro hprefix
      obtain ⟨n, hn⟩ := exists_eq_succ_of_ne_zero fun h => hne (length_eq_zero_iff.1 h)
      refine h [] _ rfl hprefix (c, none) ?_ rfl
      rw [hn]
      exact mem_cons_self
    have hrest := ih (Untouched.of_append (a := [(c, none)]) h)
    calc replaceFrom pattern marker 0 (inserted (c :: cs) ++ text)
        = replaceFrom pattern marker 0 ((c, none) :: (inserted cs ++ text)) := rfl
      _ = (c, none) :: replaceFrom pattern marker 0 (inserted cs ++ text) := replaceFrom_of_not hno
      _ = (c, none) :: (inserted cs ++ replaceFrom pattern marker 0 text) := by rw [hrest]

/-! ## Masked texts -/

/-- Before the first occurrence a masked text is the text. -/
theorem mask_before {n : ℕ} (marker : List α) (i : ℕ) {text : List α}
    (h : ∀ d < n, ∀ w ∈ patterns, ¬ w <+: text.drop d) :
    (plain (mask marker patterns i 0 text)).take n = text.take n ∧
      (mask marker patterns i 0 text).drop n = mask marker patterns (i + n) 0 (text.drop n) := by
  induction n generalizing i text with
  | zero => exact ⟨rfl, rfl⟩
  | succ n ih =>
    cases text with
    | nil => simp
    | cons c cs =>
      rw [mask_of_not (h 0 n.succ_pos)]
      obtain ⟨htake, hdrop⟩ := @ih (i + 1) cs fun d hd =>
        h (d + 1) (succ_lt_succ hd)
      rw [plain_cons, take_succ_cons, take_succ_cons, htake, drop_succ_cons,
        drop_succ_cons, hdrop, Nat.add_right_comm i 1 n, Nat.add_assoc]
      exact ⟨rfl, rfl⟩

/-- Where nothing was inserted, no pattern occurs. -/
theorem no_prefix_of_kept (hmarker : marker ≠ []) (hne : ∀ v ∈ patterns, v ≠ [])
    (hapart : Apart patterns text) (h : ∀ e ∈ (mask marker patterns i 0 text).take n, e.2 ≠ none) :
    ∀ d < n, ∀ w ∈ patterns, ¬ w <+: text.drop d := by
  induction n generalizing i text with
  | zero => exact fun d hd => absurd hd d.not_lt_zero
  | succ n ih =>
    intro d hd w hw hprefix
    cases text with
    | nil =>
      rw [drop_nil] at hprefix
      exact hne w hw (prefix_nil.1 hprefix)
    | cons c cs =>
      by_cases hany : ∃ v ∈ patterns, v <+: c :: cs
      · obtain ⟨v, hv, hvprefix⟩ := hany
        rw [mask_of_occurs hne (fun v hv w hw => hapart.unique hne hv hw) hv hvprefix] at h
        obtain ⟨m, ms, rfl⟩ := exists_cons_of_ne_nil hmarker
        exact h (m, none) mem_cons_self rfl
      · have hno : ∀ v ∈ patterns, ¬ v <+: c :: cs := fun v hv h => hany ⟨v, hv, h⟩
        rw [mask_of_not hno] at h
        cases d with
        | zero => exact hno w hw hprefix
        | succ d =>
          exact ih (hapart.drop 1) (fun e he => h e (mem_cons_of_mem _ he)) d
            (lt_of_succ_lt_succ hd) w hw hprefix

theorem replaceFrom_mask (hmarker : marker ≠ []) (hne : ∀ v ∈ pattern :: patterns, v ≠ [])
    (hapart : Apart (pattern :: patterns) text) (h : Untouched pattern (mask marker patterns i 0 text)) :
    replaceFrom pattern marker 0 (mask marker patterns i 0 text) =
      mask marker (pattern :: patterns) i 0 text := by
  have hpattern := hne pattern mem_cons_self
  have hne' : ∀ v ∈ patterns, v ≠ [] := fun v hv => hne v (mem_cons_of_mem _ hv)
  have hapart' : Apart patterns text := hapart.mono (subset_cons_self _ _)
  -- over the suffixes of the text
  induction hn : text.length using Nat.strong_induction_on generalizing i text with
  | h n ih =>
  subst hn
  cases text with
  | nil => rfl
  | cons c cs =>
    have hunique : ∀ v ∈ pattern :: patterns, ∀ w ∈ pattern :: patterns, v <+: c :: cs →
        w <+: c :: cs → v = w := fun v hv w hw => hapart.unique hne hv hw
    have hunique' : ∀ v ∈ patterns, ∀ w ∈ patterns, v <+: c :: cs → w <+: c :: cs → v = w :=
      fun v hv w hw => hapart'.unique hne' hv hw
    have hlt : ∀ w ∈ pattern :: patterns, ((c :: cs).drop w.length).length < (c :: cs).length := by
      intro w hw
      have := length_pos_iff.2 (hne w hw)
      rw [length_drop, length_cons]
      omega
    by_cases hany : ∃ w ∈ patterns, w <+: c :: cs
    · obtain ⟨w, hw, hprefix⟩ := hany
      have hw' : w ∈ pattern :: patterns := mem_cons_of_mem _ hw
      rw [mask_of_occurs hne' hunique' hw hprefix] at h ⊢
      rw [replaceFrom_inserted hpattern h, mask_of_occurs hne hunique hw' hprefix]
      have hrest := ih _ (hlt w hw') (hapart.drop _) h.of_append (hapart'.drop _) rfl
      rw [hrest]
    have hno : ∀ w ∈ patterns, ¬ w <+: c :: cs := fun w hw h => hany ⟨w, hw, h⟩
    by_cases hprefix : pattern <+: c :: cs
    · -- the occurrence is still there as a whole
      have hbefore : ∀ d < pattern.length, ∀ w ∈ patterns, ¬ w <+: (c :: cs).drop d := by
        intro d hd w hw hwprefix
        rcases hapart pattern mem_cons_self w (mem_cons_of_mem _ hw) 0 d hprefix hwprefix
          with ⟨rfl, rfl⟩ | h | h
        · exact hno _ hw hprefix
        · omega
        · have := length_pos_iff.2 (hne' w hw)
          omega
      obtain ⟨htake, hdrop⟩ := mask_before marker i hbefore
      have hmatch : pattern <+: plain (mask marker patterns i 0 (c :: cs)) := by
        rw [prefix_iff_eq_take, htake]
        exact prefix_iff_eq_take.1 hprefix
      rw [replaceFrom_of_begins hpattern hmatch, hdrop,
        mask_of_occurs hne hunique mem_cons_self hprefix]
      have hrest : Untouched pattern
          (mask marker patterns (i + pattern.length) 0 ((c :: cs).drop pattern.length)) := by
        rw [← hdrop]
        exact Untouched.of_append (by rwa [take_append_drop])
      rw [ih _ (hlt pattern mem_cons_self) (hapart.drop _) hrest (hapart'.drop _) rfl]
    · have hmatch : ¬ pattern <+: plain (mask marker patterns i 0 (c :: cs)) := by
        intro hmatch
        have hbefore := no_prefix_of_kept hmarker hne' hapart' (h [] _ rfl hmatch)
        refine hprefix (prefix_iff_eq_take.2 ?_)
        rw [← (mask_before marker i hbefore).1]
        exact prefix_iff_eq_take.1 hmatch
      have hno' : ∀ w ∈ pattern :: patterns, ¬ w <+: c :: cs := by
        intro w hw
        rcases mem_cons.1 hw with rfl | hw
        · exact hprefix
        · exact hno w hw
      rw [mask_of_not hno] at hmatch h ⊢
      rw [replaceFrom_of_not hmatch, mask_of_not hno']
      have hrest := ih cs.length (lt_succ_self _) (hapart.drop 1)
        (Untouched.of_append (a := [(c, some i)]) h) (hapart'.drop 1) rfl
      exact congrArg ((c, some i) :: ·) hrest

/-- What is kept of a masked text lies in no occurrence. -/
theorem kept_not_covered (hne : ∀ v ∈ patterns, v ≠ []) (hapart : Apart patterns text)
    (he : e ∈ mask marker patterns i 0 text) (hp : e.2 = some p) :
    ∃ q, p = i + q ∧ ∀ w ∈ patterns, ∀ j, w <+: text.drop j → q < j ∨ j + w.length ≤ q := by
  induction hn : text.length using Nat.strong_induction_on generalizing i text with
  | h n ih =>
  subst hn
  cases text with
  | nil => exact absurd he not_mem_nil
  | cons c cs =>
    by_cases hany : ∃ v ∈ patterns, v <+: c :: cs
    · obtain ⟨v, hv, hprefix⟩ := hany
      have hlength := length_pos_iff.2 (hne v hv)
      rw [mask_of_occurs hne (fun v hv w hw => hapart.unique hne hv hw) hv hprefix,
        mem_append] at he
      rcases he with he | he
      · obtain ⟨m, -, rfl⟩ := mem_map.1 he
        cases hp
      have hlt : ((c :: cs).drop v.length).length < (c :: cs).length := by
        rw [length_drop, length_cons]
        omega
      obtain ⟨q, rfl, hq⟩ := ih _ hlt (hapart.drop _) he rfl
      refine ⟨v.length + q, by omega, fun w hw j hj => ?_⟩
      by_cases hle : v.length ≤ j
      · -- the occurrence lies behind the masked one
        obtain ⟨k, rfl⟩ := Nat.exists_eq_add_of_le hle
        have := hq w hw k (by rwa [drop_drop])
        omega
      · rcases hapart v hv w hw 0 j hprefix hj with ⟨rfl, rfl⟩ | h | h
        · omega
        · omega
        · have := length_pos_iff.2 (hne w hw)
          omega
    · have hno : ∀ v ∈ patterns, ¬ v <+: c :: cs := fun v hv h => hany ⟨v, hv, h⟩
      rw [mask_of_not hno] at he
      rcases mem_cons.1 he with rfl | he
      · refine ⟨0, by cases hp; rfl, fun w hw j hj => ?_⟩
        cases j with
        | zero => exact absurd hj (hno w hw)
        | succ j => exact Or.inl j.succ_pos
      · obtain ⟨q, rfl, hq⟩ := ih cs.length (lt_succ_self _) (hapart.drop 1) he rfl
        refine ⟨q + 1, by omega, fun w hw j hj => ?_⟩
        cases j with
        | zero => exact absurd hj (hno w hw)
        | succ j =>
          have := hq w hw j hj
          omega

theorem mask_congr (hsame : ∀ v, v ∈ patterns ↔ v ∈ patterns') (hne : ∀ v ∈ patterns, v ≠ [])
    (hapart : Apart patterns text) : mask marker patterns i 0 text = mask marker patterns' i 0 text := by
  have hsub : patterns' ⊆ patterns := fun v => (hsame v).2
  have hne' : ∀ v ∈ patterns', v ≠ [] := fun v hv => hne v (hsub hv)
  induction hn : text.length using Nat.strong_induction_on generalizing i text with
  | h n ih =>
  subst hn
  cases text with
  | nil => rfl
  | cons c cs =>
    by_cases hany : ∃ v ∈ patterns, v <+: c :: cs
    · obtain ⟨v, hv, hprefix⟩ := hany
      have hlength := length_pos_iff.2 (hne v hv)
      have hlt : ((c :: cs).drop v.length).length < (c :: cs).length := by
        rw [length_drop, length_cons]
        omega
      rw [mask_of_occurs hne (fun v hv w hw => hapart.unique hne hv hw) hv hprefix,
        mask_of_occurs hne' (fun v hv w hw => (hapart.mono hsub).unique hne' hv hw)
          ((hsame v).1 hv) hprefix, ih _ hlt (hapart.drop _) rfl]
    · have hno : ∀ v ∈ patterns, ¬ v <+: c :: cs := fun v hv h => hany ⟨v, hv, h⟩
      rw [mask_of_not hno, mask_of_not fun v hv => hno v (hsub hv)]
      exact congrArg ((c, some i) :: ·) (ih cs.length (lt_succ_self _) (hapart.drop 1) rfl)

theorem mem_mask_none (he : e ∈ mask marker patterns i 0 text) (hnone : e.2 = none) : e.1 ∈ marker := by
  induction hn : text.length using Nat.strong_induction_on generalizing i text with
  | h n ih =>
  subst hn
  cases text with
  | nil => exact absurd he not_mem_nil
  | cons c cs =>
    rw [mask] at he
    split at he
    · rw [mask_skip, mem_append] at he
      rcases he with he | he
      · obtain ⟨m, hm, rfl⟩ := mem_map.1 he
        exact hm
      · refine ih _ ?_ he rfl
        rw [length_drop, length_cons]
        omega
    · rcases mem_cons.1 he with rfl | he
      · cases hnone
      · exact ih cs.length (lt_succ_self _) he rfl

/-! ## All replacements -/

/-- Patterns that have no element in common with the marker never match at one. -/
theorem Separate.of_disjoint (hne : ∀ v ∈ patterns, v ≠ []) (hapart : Apart patterns text)
    (hdisjoint : ∀ v ∈ patterns, ∀ c ∈ v, c ∉ marker) : Separate marker patterns text where
  nonempty := hne
  apart := hapart
  untouched v masked hsub a b heq hmatch e he hnone := by
    have hmem : e ∈ mask marker masked 0 0 text :=
      heq ▸ mem_append_right a (mem_of_mem_take he)
    have hv : e.1 ∈ v := by
      rw [prefix_iff_eq_take.1 hmatch, plain, ← map_take]
      exact mem_map_of_mem he
    exact hdisjoint v (hsub.subset mem_cons_self) e.1 hv (mem_mask_none hmem hnone)

/-- Whatever the order, replacing the patterns one after the other masks all of them. -/
theorem Separate.replaceAll (h : Separate marker patterns text) (hmarker : marker ≠ [])
    {order : List (List α)} (horder : order.Perm patterns) :
    replaceAll marker order (original text) = mask marker patterns 0 0 text := by
  have hrun : ∀ rest done, (rest ++ done).Perm patterns →
      Masking.replaceAll marker rest (mask marker done 0 0 text) = mask marker patterns 0 0 text := by
    intro rest
    induction rest with
    | nil =>
      intro done hdone
      exact mask_congr (fun v => hdone.mem_iff) (fun v hv => h.nonempty v (hdone.mem_iff.1 hv))
        (h.apart.mono hdone.subset)
    | cons v rest ih =>
      intro done hperm
      have hperm' : (rest ++ v :: done).Perm patterns := perm_middle.trans hperm
      have hsub : v :: done ⊆ patterns := fun w hw =>
        hperm'.subset (mem_append_right _ hw)
      have hmasked : (v :: done).Subperm patterns :=
        (sublist_append_right rest (v :: done)).subperm.trans hperm'.subperm
      rw [Masking.replaceAll, replaceFrom_mask hmarker (fun w hw => h.nonempty w (hsub hw))
        (h.apart.mono hsub) (h.untouched v done hmasked)]
      exact ih (v :: done) hperm'
  rw [original, ← mask_empty marker]
  exact hrun order [] (by rwa [append_nil])

/-- No position of an occurrence is left. -/
theorem Separate.not_kept (h : Separate marker patterns text) (hv : v ∈ patterns) (hi : v <+: text.drop i)
    (hip : i ≤ p) (hp : p < i + v.length) (he : e ∈ mask marker patterns 0 0 text) : e.2 ≠ some p := by
  intro hkept
  obtain ⟨q, rfl, hq⟩ := kept_not_covered h.nonempty h.apart he hkept
  have := hq v hv i hi
  omega

end

/-- On texts this is `str::replace`. -/
theorem plain_replaceFrom (pattern marker : List Char) (skip : ℕ) (text : Traced Char) :
    plain (replaceFrom pattern marker skip text) =
      Text.replaceFrom pattern marker skip (plain text) := by
  induction text generalizing skip with
  | nil => rfl
  | cons c cs ih =>
    cases skip with
    | succ skip => exact ih skip
    | zero =>
      rw [plain_cons, replaceFrom, Text.replaceFrom, plain_cons]
      split
      · rw [plain_append, plain_inserted, ih]
      · rw [plain_cons, ih]

end Masking
