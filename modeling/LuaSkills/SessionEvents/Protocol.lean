import LuaSkills.Data.EventLog
import LuaSkills.SessionEvents.State

/-!
# The wake-up protocol

What the center, its retry slot and its worker do together, with at most one wake-up on its way by
construction: the protocol has a `Stage` where the code has a counter map, a slot, threads and a
worker. `Shift` is one step of it and `Inv` what every run keeps; `SessionEvents.Refinement` connects
it to the code.
-/

namespace LuaSkills.SessionEvents

open List

variable {reg : Installed} {e g : ℕ} {r : Replacement}

/-- Where the one wake-up is: nowhere, before its callback runs, inside it, or past it. -/
inductive Stage where
  | quiet
  | waiting (generation epoch : ℕ)
  | calling (generation epoch : ℕ)
  | ending (generation : ℕ)
deriving DecidableEq

def Stage.charge : Stage → Option ℕ
  | .quiet => none
  | .waiting generation _ | .calling generation _ | .ending generation => some generation

/-- The installed callback: its generation and the last epoch scheduled for it. -/
structure Installed where
  generation : ℕ
  lastNotified : Option ℕ
deriving DecidableEq

structure Protocol where
  epoch : Option ℕ
  sequence : ℕ
  callback : Option Installed
  generation : ℕ
  stage : Stage
  replacements : List Replacement
  log : List WakeEvent

namespace Protocol

/-- Schedules a wake-up for the current epoch unless one is on its way, it was already scheduled, or
another callback is expected. -/
def schedule (s : Protocol) (expected : Option ℕ) : Protocol :=
  match s.epoch, s.callback with
  | some e, some reg =>
    if s.stage = .quiet ∧ reg.lastNotified ≠ some e ∧ (∀ g, expected = some g → g = reg.generation) then
      { s with
        callback := some { reg with lastNotified := some e }
        stage := .waiting reg.generation e
        log := s.log ++ [.scheduled reg.generation e] }
    else s
  | _, _ => s

/-- The end of a replacement. -/
def replaced (s : Protocol) (r : Replacement) : Protocol :=
  match r.installed with
  | none => { s with log := s.log ++ [.replaced r] }
  | some g => schedule { s with log := s.log ++ [.replaced r] } (some g)

/-- A replacement waits while an older generation is charged. -/
def await (s : Protocol) (r : Replacement) : Protocol :=
  if ∃ g, s.stage.charge = some g ∧ g ≤ r.barrier then
    { s with replacements := s.replacements ++ [r] }
  else s.replaced r

/-- The epoch after one more event. -/
def publishEpoch (s : Protocol) : Protocol :=
  { s with
    sequence := s.sequence + 1
    epoch := some (s.epoch.getD (s.sequence + 1)) }

inductive Shift : Protocol → Protocol → Prop
  | drained {s : Protocol} : Shift s { s with epoch := none }
  | published {s : Protocol} : Shift s (s.publishEpoch.schedule none)
  | set {s : Protocol} : Shift s
      ({ s with
          generation := s.generation + 1
          callback := some { generation := s.generation + 1, lastNotified := none } }.await
        { barrier := s.generation, installed := some (s.generation + 1) })
  | cleared {s : Protocol} : Shift s
      ({ s with callback := none }.await { barrier := s.generation, installed := none })
  | woken {s : Protocol} {i : ℕ} {r : Replacement} : s.replacements[i]? = some r → Shift s
      ({ s with replacements := s.replacements.eraseIdx i }.await r)
  | cancelled {s : Protocol} {g e : ℕ} : s.stage = .waiting g e →
      (∀ reg, s.callback = some reg → reg.generation = g → s.epoch ≠ some e) →
      Shift s { s with stage := .ending g }
  | invoked {s : Protocol} {g e : ℕ} : s.stage = .waiting g e →
      Shift s { s with stage := .calling g e, log := s.log ++ [.invoked g e] }
  | completed {s : Protocol} {g e : ℕ} {o : CallbackOutcome} : s.stage = .calling g e →
      o ≠ .failed → Shift s { s with stage := .ending g, log := s.log ++ [.cameBack g e o] }
  | failed {s : Protocol} {g e : ℕ} : s.stage = .calling g e →
      Shift s { s with stage := .waiting g e, log := s.log ++ [.cameBack g e .failed] }
  | finished {s : Protocol} {g : ℕ} : s.stage = .ending g →
      Shift s (schedule { s with stage := .quiet } (some g))

/-! ## The invariant -/

/-- An invocation is of a generation newer than every replacement that returned before it. -/
def Fresh (log : List WakeEvent) : WakeEvent → Prop
  | .invoked g _ => ∀ r, .replaced r ∈ log → r.barrier < g
  | _ => True

/-- The number of times the callback of `g` was told of `e` and reported a failure. -/
def failures (log : List WakeEvent) (g e : ℕ) : ℕ := log.count (.cameBack g e .failed)

/-- The callback of `g` came back from an invocation for `e` without a failure. -/
def Notified (log : List WakeEvent) (g e : ℕ) : Prop :=
  ∃ o, o ≠ CallbackOutcome.failed ∧ .cameBack g e o ∈ log

/-- What holds in the middle of a step as well. -/
structure Core (s : Protocol) : Prop where
  epoch_le : ∀ e, s.epoch = some e → e ≤ s.sequence
  last_le_sequence : ∀ reg l, s.callback = some reg → reg.lastNotified = some l → l ≤ s.sequence
  last_le_epoch : ∀ reg l e, s.callback = some reg → reg.lastNotified = some l →
    s.epoch = some e → l ≤ e
  callback_le : ∀ reg, s.callback = some reg → reg.generation ≤ s.generation
  charge_le : ∀ g, s.stage.charge = some g → g ≤ s.generation
  barrier_le : ∀ r ∈ s.replacements, r.barrier ≤ s.generation
  installed_eq : ∀ r ∈ s.replacements, ∀ g, r.installed = some g → g = r.barrier + 1
  barrier_lt_callback : ∀ r ∈ s.replacements, ∀ reg, s.callback = some reg →
    r.barrier < reg.generation
  /-- A wake-up of another generation has its replacement waiting for it. -/
  foreign : ∀ g reg, s.stage.charge = some g → s.callback = some reg → g ≠ reg.generation →
    ∃ r ∈ s.replacements, r.installed = some reg.generation ∧ g ≤ r.barrier
  replaced_le : ∀ r, .replaced r ∈ s.log → r.barrier ≤ s.generation
  replaced_installed : ∀ r, .replaced r ∈ s.log → ∀ g, r.installed = some g → g = r.barrier + 1
  replaced_lt_charge : ∀ r g, .replaced r ∈ s.log → s.stage.charge = some g → r.barrier < g
  replaced_lt_callback : ∀ r reg, .replaced r ∈ s.log → s.callback = some reg →
    r.barrier < reg.generation
  fresh : LegalLog Fresh s.log
  notified : ∀ reg e, s.callback = some reg → reg.lastNotified = some e → s.epoch = some e →
    s.stage = .waiting reg.generation e ∨ s.stage = .calling reg.generation e ∨
      Notified s.log reg.generation e
  scheduled_le : ∀ g e, .scheduled g e ∈ s.log → g ≤ s.generation
  scheduled_le_last : ∀ g e reg, .scheduled g e ∈ s.log → s.callback = some reg →
    reg.generation = g → ∃ l, reg.lastNotified = some l ∧ e ≤ l
  scheduled_once : ∀ g e, s.log.count (.scheduled g e) ≤ 1
  counts : ∀ g e, s.log.count (.invoked g e) + (if s.stage = .waiting g e then 1 else 0) ≤
    failures s.log g e + s.log.count (.scheduled g e)

/-- A wake-up that is due is on its way, or the replacement that installed its callback is not over. -/
def Covered (s : Protocol) : Prop :=
  ∀ reg e, s.callback = some reg → s.epoch = some e → reg.lastNotified ≠ some e →
    s.stage ≠ .quiet ∨ ∃ r ∈ s.replacements, r.installed = some reg.generation

structure Inv (s : Protocol) : Prop extends Core s where
  covered : s.Covered

/-! ## Scheduling -/

section
variable {s : Protocol} {expected : Option ℕ}

/-- Scheduling leaves the state alone or starts the wake-up of the current epoch. -/
theorem schedule_cases (s : Protocol) (expected : Option ℕ) : s.schedule expected = s ∨
    ∃ e reg, s.epoch = some e ∧ s.callback = some reg ∧ s.stage = .quiet ∧
      reg.lastNotified ≠ some e ∧ (∀ g, expected = some g → g = reg.generation) ∧
      s.schedule expected =
        { s with
          callback := some { reg with lastNotified := some e }
          stage := .waiting reg.generation e
          log := s.log ++ [.scheduled reg.generation e] } := by
  unfold schedule
  split
  next e reg he hreg =>
    split
    next h => exact .inr ⟨e, reg, he, hreg, h.1, h.2.1, h.2.2, rfl⟩
    next => exact .inl rfl
  next => exact .inl rfl

/-- What is left due after scheduling is due for another callback than the expected one, or behind a
wake-up on its way. -/
theorem schedule_due (hreg : (s.schedule expected).callback = some reg)
    (he : (s.schedule expected).epoch = some e) (hdue : reg.lastNotified ≠ some e) :
    (s.schedule expected).stage ≠ .quiet ∨
      s.schedule expected = s ∧ ∃ g, expected = some g ∧ g ≠ reg.generation := by
  by_cases hstage : (s.schedule expected).stage = .quiet
  · rcases schedule_cases s expected with h | ⟨e', reg', _, _, _, _, _, h⟩
    · rw [h] at hreg he hstage
      refine .inr ⟨h, ?_⟩
      by_contra hno
      have hall : ∀ g, expected = some g → g = reg.generation := by
        intro g hg
        by_contra hne
        exact hno ⟨g, hg, hne⟩
      have hwaiting : (s.schedule expected).stage = .waiting reg.generation e := by
        simp only [schedule, hreg, he]
        rw [if_pos ⟨hstage, hdue, hall⟩]
      rw [h, hstage] at hwaiting
      cases hwaiting
    · rw [h] at hstage
      cases hstage
  · exact .inl hstage

theorem Core.schedule (h : s.Core) : (s.schedule expected).Core := by
  rcases schedule_cases s expected with
    heq | ⟨e, reg, he, hreg, hstage, hlast, -, heq⟩
  · rw [heq]
    exact h
  rw [heq]
  have hnew : .scheduled reg.generation e ∉ s.log := by
    intro hmem
    obtain ⟨l, hl, hle⟩ := h.scheduled_le_last _ _ reg hmem hreg rfl
    have := h.last_le_epoch reg l e hreg hl he
    exact hlast (hl.trans (congrArg some (by omega)))
  exact { h with
    last_le_sequence := by
      rintro _ l ⟨⟩ ⟨⟩
      exact h.epoch_le e he
    last_le_epoch := by
      rintro _ l e' ⟨⟩ ⟨⟩ he'
      exact (Option.some.inj (he.symm.trans he')).le
    callback_le := by
      rintro _ ⟨⟩
      exact h.callback_le reg hreg
    charge_le := by
      rintro _ ⟨⟩
      exact h.callback_le reg hreg
    barrier_lt_callback := by
      rintro r hr _ ⟨⟩
      exact h.barrier_lt_callback r hr reg hreg
    foreign := by
      rintro _ _ ⟨⟩ ⟨⟩ hne
      exact absurd rfl hne
    replaced_le := by
      intro r hr
      exact h.replaced_le r (by simpa using hr)
    replaced_installed := by
      intro r hr
      exact h.replaced_installed r (by simpa using hr)
    replaced_lt_charge := by
      rintro r _ hr ⟨⟩
      exact h.replaced_lt_callback r reg (by simpa using hr) hreg
    replaced_lt_callback := by
      rintro r _ hr ⟨⟩
      exact h.replaced_lt_callback r reg (by simpa using hr) hreg
    fresh := h.fresh.append trivial
    notified := by
      rintro _ e' ⟨⟩ ⟨⟩ -
      exact .inl rfl
    scheduled_le := by
      intro g e' hmem
      rcases mem_append.1 hmem with hmem | hmem
      · exact h.scheduled_le g e' hmem
      · cases mem_singleton.1 hmem
        exact h.callback_le reg hreg
    scheduled_le_last := by
      rintro g e' _ hmem ⟨⟩ rfl
      refine ⟨e, rfl, ?_⟩
      rcases mem_append.1 hmem with hmem | hmem
      · obtain ⟨l, hl, hle⟩ := h.scheduled_le_last _ e' reg hmem hreg rfl
        exact hle.trans (h.last_le_epoch reg l e hreg hl he)
      · cases mem_singleton.1 hmem
        exact le_rfl
    scheduled_once := by
      intro g e'
      have := h.scheduled_once g e'
      by_cases heq : WakeEvent.scheduled reg.generation e = .scheduled g e'
      · rw [← heq, count_append, count_eq_zero.2 hnew]
        simp
      · simpa [count_append, count_singleton, heq] using this
    counts := by
      intro g e'
      have hcount := h.counts g e'
      simp only [hstage, reduceCtorEq, if_false, Nat.add_zero] at hcount
      by_cases heq : reg.generation = g ∧ e = e'
      · obtain ⟨rfl, rfl⟩ := heq
        simp [failures, count_append] at hcount ⊢
        omega
      · have hstage' : Stage.waiting reg.generation e ≠ .waiting g e' := by
          simpa using heq
        simpa [failures, count_append, count_singleton, hstage', heq] using hcount }

/-! ## The parts of a step -/

theorem Core.restage {stage : Stage} (h : s.Core)
    (hcharge : ∀ g, stage.charge = some g → s.stage.charge = some g) (hreplaced : ∀ r, .replaced r ∉ events)
    (hscheduled : ∀ g e, .scheduled g e ∉ events) (hfresh : LegalLog Fresh (s.log ++ events))
    (hnotified : ∀ reg e, s.callback = some reg → reg.lastNotified = some e → s.epoch = some e →
      stage = .waiting reg.generation e ∨ stage = .calling reg.generation e ∨
        Notified (s.log ++ events) reg.generation e)
    (hcounts : ∀ g e, events.count (.invoked g e) + (if stage = .waiting g e then 1 else 0) ≤
      failures events g e + (if s.stage = .waiting g e then 1 else 0)) :
    Core { s with stage := stage, log := s.log ++ events } := by
  have hold : ∀ r, .replaced r ∈ s.log ++ events → .replaced r ∈ s.log := by
    intro r hr
    exact (mem_append.1 hr).resolve_right (hreplaced r)
  have holdS : ∀ g e, .scheduled g e ∈ s.log ++ events → .scheduled g e ∈ s.log := by
    intro g e hmem
    exact (mem_append.1 hmem).resolve_right (hscheduled g e)
  exact { h with
    charge_le := fun g hg => h.charge_le g (hcharge g hg)
    foreign := fun g reg hg => h.foreign g reg (hcharge g hg)
    replaced_le := fun r hr => h.replaced_le r (hold r hr)
    replaced_installed := fun r hr => h.replaced_installed r (hold r hr)
    replaced_lt_charge := fun r g hr hg => h.replaced_lt_charge r g (hold r hr) (hcharge g hg)
    replaced_lt_callback := fun r reg hr => h.replaced_lt_callback r reg (hold r hr)
    fresh := hfresh
    notified := hnotified
    scheduled_le := fun g e hmem => h.scheduled_le g e (holdS g e hmem)
    scheduled_le_last := fun g e reg hmem => h.scheduled_le_last g e reg (holdS g e hmem)
    scheduled_once := by
      intro g e
      have hnone : events.count (.scheduled g e) = 0 := count_eq_zero.2 (hscheduled g e)
      rw [count_append, hnone]
      exact h.scheduled_once g e
    counts := by
      intro g e
      have hnone : events.count (.scheduled g e) = 0 := count_eq_zero.2 (hscheduled g e)
      have hold := h.counts g e
      have hnew := hcounts g e
      simp only [failures, count_append] at *
      omega }

/-- The epoch moves: it ends, or it is the one of a new event. -/
theorem Core.withEpoch {epoch : Option ℕ} {sequence : ℕ} (h : s.Core)
    (hle : s.sequence ≤ sequence) (hepoch : ∀ e, epoch = some e → e ≤ sequence ∧
      (s.epoch = some e ∨ s.sequence < e)) :
    Core { s with epoch := epoch, sequence := sequence } := { h with
  epoch_le := fun e he => (hepoch e he).1
  last_le_sequence := fun reg l hreg hl => (h.last_le_sequence reg l hreg hl).trans hle
  last_le_epoch := by
    intro reg l e hreg hl he
    rcases (hepoch e he).2 with he | he
    · exact h.last_le_epoch reg l e hreg hl he
    · exact (h.last_le_sequence reg l hreg hl).trans he.le
  notified := by
    intro reg e hreg hl he
    rcases (hepoch e he).2 with he | he
    · exact h.notified reg e hreg hl he
    · exact absurd (h.last_le_sequence reg e hreg hl) (by omega) }

/-- Replacements go, as long as none that a foreign wake-up is behind. -/
theorem Core.withReplacements {replacements : List Replacement} (h : s.Core)
    (hsub : replacements ⊆ s.replacements)
    (hforeign : ∀ g reg, s.stage.charge = some g → s.callback = some reg → g ≠ reg.generation →
      ∃ r ∈ replacements, r.installed = some reg.generation ∧ g ≤ r.barrier) :
    Core { s with replacements := replacements } := { h with
  barrier_le := fun r hr => h.barrier_le r (hsub hr)
  installed_eq := fun r hr => h.installed_eq r (hsub hr)
  barrier_lt_callback := fun r hr => h.barrier_lt_callback r (hsub hr)
  foreign := hforeign }

/-- A new callback is installed, or none, while `replacements` wait. -/
theorem Core.install {callback : Option Installed} {replacements : List Replacement} {n : ℕ}
    (h : s.Core) (hn : s.generation ≤ n)
    (hcallback : ∀ reg, callback = some reg →
      reg.generation = n ∧ s.generation < n ∧ reg.lastNotified = none)
    (hbarrier : ∀ r ∈ replacements, r ∈ s.replacements ∨
      r.barrier = s.generation ∧ ∀ g, r.installed = some g → g = r.barrier + 1)
    (hforeign : ∀ g reg, s.stage.charge = some g → callback = some reg →
      ∃ r ∈ replacements, r.installed = some reg.generation ∧ g ≤ r.barrier) :
    Core { s with generation := n, callback := callback, replacements := replacements } := { h with
  last_le_sequence := by
    intro reg l hreg hl
    rw [(hcallback reg hreg).2.2] at hl
    cases hl
  last_le_epoch := by
    intro reg l e hreg hl
    rw [(hcallback reg hreg).2.2] at hl
    cases hl
  callback_le := fun reg hreg => (hcallback reg hreg).1.le
  charge_le := fun g hg => (h.charge_le g hg).trans hn
  barrier_le := by
    intro r hr
    rcases hbarrier r hr with hr | ⟨hr, -⟩
    · exact (h.barrier_le r hr).trans hn
    · exact hr.le.trans hn
  installed_eq := by
    intro r hr
    rcases hbarrier r hr with hr | ⟨-, hr⟩
    · exact h.installed_eq r hr
    · exact hr
  barrier_lt_callback := by
    intro r hr reg hreg
    obtain ⟨hgen, hlt, -⟩ := hcallback reg hreg
    rcases hbarrier r hr with hr | ⟨hr, -⟩
    · exact hgen ▸ (h.barrier_le r hr).trans_lt hlt
    · exact hgen ▸ hr ▸ hlt
  foreign := fun g reg hg hreg _ => hforeign g reg hg hreg
  replaced_le := fun r hr => (h.replaced_le r hr).trans hn
  replaced_lt_callback := by
    intro r reg hr hreg
    obtain ⟨hgen, hlt, -⟩ := hcallback reg hreg
    exact hgen ▸ (h.replaced_le r hr).trans_lt hlt
  notified := by
    intro reg e hreg hl
    rw [(hcallback reg hreg).2.2] at hl
    cases hl
  scheduled_le := fun g e hmem => (h.scheduled_le g e hmem).trans hn
  scheduled_le_last := by
    intro g e reg hmem hreg hgen
    obtain ⟨hreg, hlt, -⟩ := hcallback reg hreg
    have := h.scheduled_le g e hmem
    omega }

/-- A replacement ends once everything on its way and installed is newer than its barrier. -/
theorem Core.replaced (h : s.Core) (hle : r.barrier ≤ s.generation)
    (hinstalled : ∀ g, r.installed = some g → g = r.barrier + 1)
    (hcharge : ∀ g, s.stage.charge = some g → r.barrier < g)
    (hcallback : ∀ reg, s.callback = some reg → r.barrier < reg.generation) :
    (s.replaced r).Core := by
  have hold : ∀ r', .replaced r' ∈ s.log ++ [.replaced r] → .replaced r' ∈ s.log ∨ r' = r := by
    intro r' hr'
    simpa using hr'
  have holdS : ∀ g e, .scheduled g e ∈ s.log ++ [WakeEvent.replaced r] → .scheduled g e ∈ s.log := by
    intro g e hmem
    simpa using hmem
  have hlogged : Core { s with log := s.log ++ [.replaced r] } := { h with
    replaced_le := by
      intro r' hr'
      rcases hold r' hr' with hr' | rfl
      · exact h.replaced_le r' hr'
      · exact hle
    replaced_installed := by
      intro r' hr'
      rcases hold r' hr' with hr' | rfl
      · exact h.replaced_installed r' hr'
      · exact hinstalled
    replaced_lt_charge := by
      intro r' g hr' hg
      rcases hold r' hr' with hr' | rfl
      · exact h.replaced_lt_charge r' g hr' hg
      · exact hcharge g hg
    replaced_lt_callback := by
      intro r' reg hr' hreg
      rcases hold r' hr' with hr' | rfl
      · exact h.replaced_lt_callback r' reg hr' hreg
      · exact hcallback reg hreg
    fresh := h.fresh.append trivial
    notified := by
      intro reg e hreg hl he
      rcases h.notified reg e hreg hl he with hs | hs | ⟨o, ho, hmem⟩
      · exact .inl hs
      · exact .inr (.inl hs)
      · exact .inr (.inr ⟨o, ho, mem_append_left _ hmem⟩)
    scheduled_le := fun g e hmem => h.scheduled_le g e (holdS g e hmem)
    scheduled_le_last := fun g e reg hmem => h.scheduled_le_last g e reg (holdS g e hmem)
    scheduled_once := by
      intro g e
      simpa [count_append] using h.scheduled_once g e
    counts := by
      intro g e
      simpa [failures, count_append] using h.counts g e }
  unfold Protocol.replaced
  split
  · exact hlogged
  · exact hlogged.schedule

/-- After a replacement ended, nothing is due that only it stood for. -/
theorem covered_replaced
    (h : ∀ reg e, s.callback = some reg → s.epoch = some e → reg.lastNotified ≠ some e →
      s.stage ≠ .quiet ∨ (∃ r' ∈ s.replacements, r'.installed = some reg.generation) ∨
        r.installed = some reg.generation) : (s.replaced r).Covered := by
  intro reg e hreg he hdue
  unfold Protocol.replaced at hreg he ⊢
  split at hreg
  next hr =>
    simp only [hr] at he ⊢
    rcases h reg e hreg he hdue with hs | hs | hs
    · exact .inl hs
    · exact .inr hs
    · rw [hr] at hs
      cases hs
  next g hr =>
    simp only [hr] at he ⊢
    rcases schedule_due hreg he hdue with hs | ⟨heq, g', hg', hne⟩
    · exact .inl hs
    · rw [heq] at hreg he ⊢
      rcases h reg e hreg he hdue with hs | hs | hs
      · exact .inl hs
      · exact .inr hs
      · rw [hr] at hs
        cases hg'
        exact absurd (Option.some.inj hs) hne

end

/-! ## The steps -/

section
variable {s s' : Protocol}

theorem Inv.published (h : s.Inv) : (s.publishEpoch.schedule none).Inv := by
  have hcore : s.publishEpoch.Core := by
    refine h.toCore.withEpoch (Nat.le_succ _) ?_
    rintro e ⟨⟩
    cases he : s.epoch with
    | none => exact ⟨le_rfl, .inr (Nat.lt_succ_self _)⟩
    | some e => exact ⟨(h.epoch_le e he).trans (Nat.le_succ _), .inl rfl⟩
  refine ⟨hcore.schedule, ?_⟩
  intro reg e hreg he hdue
  rcases schedule_due hreg he hdue with hs | ⟨-, g, hg, -⟩
  · exact .inl hs
  · cases hg

theorem Inv.set (h : s.Inv) :
    ({ s with
        generation := s.generation + 1
        callback := some { generation := s.generation + 1, lastNotified := none } }.await
      { barrier := s.generation, installed := some (s.generation + 1) }).Inv := by
  unfold await
  split
  next hwait =>
    refine ⟨h.toCore.install (Nat.le_succ _) ?_ ?_ ?_, ?_⟩
    · rintro _ ⟨⟩
      exact ⟨rfl, Nat.lt_succ_self _, rfl⟩
    · intro r hr
      rcases mem_append.1 hr with hr | hr
      · exact .inl hr
      · cases mem_singleton.1 hr
        refine .inr ⟨rfl, ?_⟩
        rintro g ⟨⟩
        rfl
    · rintro g _ hg ⟨⟩
      exact ⟨_, mem_append_right _ (mem_singleton_self _), rfl, h.charge_le g hg⟩
    · rintro _ e ⟨⟩ - -
      exact .inr ⟨_, mem_append_right _ (mem_singleton_self _), rfl⟩
  next hwait =>
    -- every wake-up is of a generation up to the barrier, so none is on its way
    have hnone : ∀ g, s.stage.charge = some g → False := by
      intro g hg
      exact hwait ⟨g, hg, h.charge_le g hg⟩
    have hcore : Core { s with
        generation := s.generation + 1
        callback := some { generation := s.generation + 1, lastNotified := none } } := by
      refine h.toCore.install (Nat.le_succ _) ?_ (fun r hr => .inl hr) ?_
      · rintro _ ⟨⟩
        exact ⟨rfl, Nat.lt_succ_self _, rfl⟩
      · intro g _ hg
        exact (hnone g hg).elim
    refine ⟨hcore.replaced (Nat.le_succ _) ?_ (fun g hg => (hnone g hg).elim) ?_, ?_⟩
    · rintro g ⟨⟩
      rfl
    · rintro _ ⟨⟩
      exact Nat.lt_succ_self _
    · apply covered_replaced
      rintro _ e ⟨⟩ - -
      exact .inr (.inr rfl)

theorem Inv.cleared (h : s.Inv) :
    ({ s with callback := none }.await { barrier := s.generation, installed := none }).Inv := by
  unfold await
  split
  next hwait =>
    refine ⟨h.toCore.install le_rfl ?_ ?_ ?_, ?_⟩
    · rintro _ ⟨⟩
    · intro r hr
      rcases mem_append.1 hr with hr | hr
      · exact .inl hr
      · cases mem_singleton.1 hr
        refine .inr ⟨rfl, ?_⟩
        rintro g ⟨⟩
    · rintro g _ - ⟨⟩
    · rintro _ e ⟨⟩
  next hwait =>
    have hcore : Core { s with callback := none } := by
      refine h.toCore.install le_rfl ?_ (fun r hr => .inl hr) ?_
      · rintro _ ⟨⟩
      · rintro g _ - ⟨⟩
    refine ⟨hcore.replaced le_rfl ?_ ?_ ?_, ?_⟩
    · rintro g ⟨⟩
    · intro g hg
      exact absurd ⟨g, hg, h.charge_le g hg⟩ hwait
    · rintro _ ⟨⟩
    · apply covered_replaced
      rintro _ e ⟨⟩

theorem mem_of_getElem?_ne {i : ℕ} {r r' : Replacement} {l : List Replacement}
    (hr : l[i]? = some r) (hr' : r' ∈ l) (hne : r' ≠ r) : r' ∈ l.eraseIdx i := by
  obtain ⟨j, hj⟩ := mem_iff_getElem?.1 hr'
  rw [mem_eraseIdx_iff_getElem?]
  refine ⟨j, ?_, hj⟩
  rintro rfl
  exact hne (Option.some.inj (hj.symm.trans hr))

theorem Inv.woken {i : ℕ} (h : s.Inv) (hr : s.replacements[i]? = some r) :
    ({ s with replacements := s.replacements.eraseIdx i }.await r).Inv := by
  have hmem : r ∈ s.replacements := mem_of_getElem? hr
  unfold await
  split
  next hwait =>
    -- the same replacements wait
    have hsub : s.replacements ⊆ s.replacements.eraseIdx i ++ [r] := by
      intro r' hr'
      by_cases hne : r' = r
      · simp [hne]
      · exact mem_append_left _ (mem_of_getElem?_ne hr hr' hne)
    refine ⟨h.toCore.withReplacements ?_ ?_, ?_⟩
    · intro r' hr'
      rcases mem_append.1 hr' with hr' | hr'
      · exact mem_of_mem_eraseIdx hr'
      · exact mem_singleton.1 hr' ▸ hmem
    · intro g reg hg hreg hne
      obtain ⟨r', hr', hbar⟩ := h.foreign g reg hg hreg hne
      exact ⟨r', hsub hr', hbar⟩
    · intro reg e hreg he hdue
      rcases h.covered reg e hreg he hdue with hs | ⟨r', hr', hinst⟩
      · exact .inl hs
      · exact .inr ⟨r', hsub hr', hinst⟩
  next hwait =>
    have hlt : ∀ g, s.stage.charge = some g → r.barrier < g := by
      intro g hg
      by_contra hle
      exact hwait ⟨g, hg, Nat.le_of_not_lt hle⟩
    have hcore : Core { s with replacements := s.replacements.eraseIdx i } := by
      refine h.toCore.withReplacements (fun r' hr' => mem_of_mem_eraseIdx hr') ?_
      intro g reg hg hreg hne
      obtain ⟨r', hr', hinst, hbar⟩ := h.foreign g reg hg hreg hne
      refine ⟨r', mem_of_getElem?_ne hr hr' ?_, hinst, hbar⟩
      rintro rfl
      exact absurd (hlt g hg) (by omega)
    refine ⟨hcore.replaced (h.barrier_le r hmem) (h.installed_eq r hmem) hlt
      (h.barrier_lt_callback r hmem), ?_⟩
    apply covered_replaced
    intro reg e hreg he hdue
    rcases h.covered reg e hreg he hdue with hs | ⟨r', hr', hinst⟩
    · exact .inl hs
    · by_cases hne : r' = r
      · exact .inr (.inr (hne ▸ hinst))
      · exact .inr (.inl ⟨r', mem_of_getElem?_ne hr hr' hne, hinst⟩)

theorem Inv.cancelled (h : s.Inv) (hs : s.stage = .waiting g e)
    (hstale : ∀ reg, s.callback = some reg → reg.generation = g → s.epoch ≠ some e) :
    Inv { s with stage := .ending g } := by
  have hcore : Core { s with stage := .ending g, log := s.log ++ [] } := by
    refine h.toCore.restage ?_ (by simp) (by simp) (by simpa using h.fresh) ?_ ?_
    · rintro _ ⟨⟩
      simp [hs, Stage.charge]
    · intro reg e' hreg hl he
      rcases h.notified reg e' hreg hl he with hw | hw | hw
      · rw [hs] at hw
        cases hw
        exact absurd he (hstale reg hreg rfl)
      · rw [hs] at hw
        cases hw
      · exact .inr (.inr (by simpa using hw))
    · intro g' e'
      simp
  rw [append_nil] at hcore
  refine ⟨hcore, ?_⟩
  intro reg e' _ _ _
  exact .inl nofun

theorem Inv.invoked (h : s.Inv) (hs : s.stage = .waiting g e) :
    Inv { s with stage := .calling g e, log := s.log ++ [.invoked g e] } := by
  refine ⟨h.toCore.restage ?_ (by simp) (by simp) ?_ ?_ ?_, ?_⟩
  · rintro _ ⟨⟩
    simp [hs, Stage.charge]
  · refine h.fresh.append ?_
    intro r hr
    exact h.replaced_lt_charge r g hr (by simp [hs, Stage.charge])
  · intro reg e' hreg hl he
    rcases h.notified reg e' hreg hl he with hw | hw | ⟨o, ho, hmem⟩
    · rw [hs] at hw
      cases hw
      exact .inr (.inl rfl)
    · rw [hs] at hw
      cases hw
    · exact .inr (.inr ⟨o, ho, mem_append_left _ hmem⟩)
  · intro g' e'
    simp [failures, hs, count_singleton]
  · intro reg e' _ _ _
    exact .inl nofun

theorem Inv.completed (h : s.Inv) (hs : s.stage = .calling g e) (ho : o ≠ .failed) :
    Inv { s with stage := .ending g, log := s.log ++ [.cameBack g e o] } := by
  refine ⟨h.toCore.restage ?_ (by simp) (by simp) (h.fresh.append trivial) ?_ ?_, ?_⟩
  · rintro _ ⟨⟩
    simp [hs, Stage.charge]
  · intro reg e' hreg hl he
    rcases h.notified reg e' hreg hl he with hw | hw | ⟨o', ho', hmem⟩
    · rw [hs] at hw
      cases hw
    · rw [hs] at hw
      cases hw
      exact .inr (.inr ⟨o, ho, by simp⟩)
    · exact .inr (.inr ⟨o', ho', mem_append_left _ hmem⟩)
  · intro g' e'
    simp
  · intro reg e' _ _ _
    exact .inl nofun

theorem Inv.failed (h : s.Inv) (hs : s.stage = .calling g e) :
    Inv { s with stage := .waiting g e, log := s.log ++ [.cameBack g e .failed] } := by
  refine ⟨h.toCore.restage ?_ (by simp) (by simp) (h.fresh.append trivial) ?_ ?_, ?_⟩
  · rintro _ ⟨⟩
    simp [hs, Stage.charge]
  · intro reg e' hreg hl he
    rcases h.notified reg e' hreg hl he with hw | hw | ⟨o, ho, hmem⟩
    · rw [hs] at hw
      cases hw
    · rw [hs] at hw
      cases hw
      exact .inl rfl
    · exact .inr (.inr ⟨o, ho, mem_append_left _ hmem⟩)
  · intro g' e'
    simp [failures, hs, count_singleton]
  · intro reg e' _ _ _
    exact .inl nofun

theorem Inv.finished (h : s.Inv) (hs : s.stage = .ending g) :
    (Protocol.schedule { s with stage := .quiet } (some g)).Inv := by
  have hcore : Core { s with stage := .quiet, log := s.log ++ [] } := by
    refine h.toCore.restage nofun (by simp) (by simp) (by simpa using h.fresh) ?_ ?_
    · intro reg e hreg hl he
      rcases h.notified reg e hreg hl he with hw | hw | hw
      · rw [hs] at hw
        cases hw
      · rw [hs] at hw
        cases hw
      · exact .inr (.inr (by simpa using hw))
    · intro g' e'
      simp
  rw [append_nil] at hcore
  refine ⟨hcore.schedule, ?_⟩
  intro reg e hreg he hdue
  rcases schedule_due hreg he hdue with hstage | ⟨heq, g', ⟨⟩, hne⟩
  · exact .inl hstage
  · -- the callback is another one: its replacement has been waiting for this wake-up
    rw [heq] at hreg ⊢
    obtain ⟨r, hr, hinst, -⟩ := h.foreign g reg (by simp [hs, Stage.charge]) hreg hne
    exact .inr ⟨r, hr, hinst⟩

/-- Every step of the protocol keeps the invariant. -/
theorem Inv.shift (h : s.Inv) (hshift : Shift s s') : s'.Inv := by
  cases hshift with
  | drained =>
    refine ⟨h.toCore.withEpoch le_rfl nofun, ?_⟩
    rintro reg e - ⟨⟩
  | published => exact h.published
  | set => exact h.set
  | cleared => exact h.cleared
  | woken hr => exact h.woken hr
  | cancelled hs hstale => exact h.cancelled hs hstale
  | invoked hs => exact h.invoked hs
  | completed hs ho => exact h.completed hs ho
  | failed hs => exact h.failed hs
  | finished hs => exact h.finished hs

/-- One epoch is told to one callback once, and once more for each failure it reported. -/
theorem Core.invoked_le (h : s.Core) (g e : ℕ) :
    s.log.count (.invoked g e) ≤ 1 + failures s.log g e := by
  have hcounts := h.counts g e
  have honce := h.scheduled_once g e
  omega

/-- With nothing on its way and no replacement waiting, the current epoch was scheduled. -/
theorem Inv.last_of_quiet (h : s.Inv) (hreg : s.callback = some reg)
    (he : s.epoch = some e) (hstage : s.stage = .quiet) (hno : s.replacements = []) :
    reg.lastNotified = some e := by
  by_contra hdue
  rcases h.covered reg e hreg he hdue with hs | ⟨r, hr, -⟩
  · exact hs hstage
  · rw [hno] at hr
    cases hr

theorem Inv.notified_of_quiet (h : s.Inv) (hreg : s.callback = some reg)
    (he : s.epoch = some e) (hstage : s.stage = .quiet) (hno : s.replacements = []) :
    Notified s.log reg.generation e := by
  rcases h.notified reg e hreg (h.last_of_quiet hreg he hstage hno) he with hs | hs | hs
  · rw [hstage] at hs
    cases hs
  · rw [hstage] at hs
    cases hs
  · exact hs

end

end Protocol

end LuaSkills.SessionEvents
