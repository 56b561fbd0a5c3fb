import LuaSkills.SkillConfig.Register

/-!
# Runs of the stores

What holds along every run: the register laws of the file and its caches, and that a write which
returns an error has touched neither.
-/

namespace LuaSkills.SkillConfig

open List Function World

variable {c : CallId} {store : Store}

/-! ## Calls -/

def Phase.call : Phase → Option CallId
  | .waiting write | .locked write | .loaded write _ | .committed write _ _ | .installed write _ =>
    some write.call
  | .idle | .refreshing | .candidate _ => none

def Event.call : Event → Option CallId
  | .began call _ _ | .installed call _ _ | .failed call _ _ _ | .wrote call _ _ => some call
  | .replaced write _ _ _ => some write.call
  | .refreshed _ _ => none

def Event.Effect (call : CallId) : Event → Prop
  | .replaced write _ _ _ => write.call = call
  | .installed c _ _ => c = call
  | _ => False

/-- The call has changed neither the file nor a cache. -/
def Quiet (call : CallId) (log : List Event) : Prop := ∀ e ∈ log, ¬ e.Effect call

theorem Event.Effect.call {call : CallId} {e : Event} (h : e.Effect call) : e.call = some call := by
  cases e with
  | replaced | installed => exact congrArg some h
  | _ => exact h.elim

theorem Phase.call_of_failing {phase : Phase} (h : phase.failing = some write) :
    phase.call = some write.call := by
  cases phase with
  | waiting | locked | loaded =>
    cases h
    rfl
  | _ => cases h

structure CallInv (w : World) : Prop where
  fresh_log : ∀ e ∈ w.log, ∀ c, e.call = some c → c < w.nextCall
  fresh : ∀ i store c, w.stores i = some store → store.phase.call = some c → c < w.nextCall
  unique : ∀ i j store store' c, w.stores i = some store → w.stores j = some store' →
    store.phase.call = some c → store'.phase.call = some c → i = j
  begun : ∀ i store write, w.stores i = some store → store.phase.failing = some write →
    .began write.call i store.snapshot ∈ w.log ∧ Quiet write.call w.log
  failed : ∀ c i cached message, .failed c i cached message ∈ w.log →
    .began c i cached ∈ w.log ∧ Quiet c w.log ∧
      ∀ j store, w.stores j = some store → store.phase.call ≠ some c

section
variable {w w' : World} {i : StoreId}

def OwnCall (w w' : World) (i : StoreId) (c : CallId) : Prop :=
  (∃ store, w.stores i = some store ∧ store.phase.call = some c) ∨
    (w.nextCall ≤ c ∧ c < w'.nextCall)

theorem CallInv.own_lt (H : CallInv w) (hnext : w.nextCall ≤ w'.nextCall)
    (h : OwnCall w w' i c) : c < w'.nextCall := by
  rcases h with ⟨store, hi, hc⟩ | ⟨-, hlt⟩
  · exact (H.fresh i store c hi hc).trans_le hnext
  · exact hlt

/-- The calls of the other stores are not among those of store `i`. -/
theorem CallInv.not_own (H : CallInv w) (hne : j ≠ i) (hj : w.stores j = some store)
    (hc : store.phase.call = some c) : ¬ OwnCall w w' i c := by
  rintro (⟨old, hi, hold⟩ | ⟨hle, -⟩)
  · exact hne (H.unique j i store old c hj hi hc hold)
  · exact absurd (H.fresh j store c hj hc) (Nat.not_lt.2 hle)

theorem Quiet.append {newer : List Event} (h : Quiet c w.log)
    (hnewer : ∀ e ∈ newer, e.call ≠ some c) : Quiet c (newer ++ w.log) := by
  intro e he heffect
  rcases mem_append.1 he with he | he
  · exact hnewer e he heffect.call
  · exact h e he heffect

/-- A step of store `i`, whose new events and new phase belong to its own calls. -/
theorem CallInv.update (H : CallInv w) (newer : List Event) (hstores : w'.stores = update w.stores i store')
    (hlog : w'.log = newer ++ w.log) (hnext : w.nextCall ≤ w'.nextCall)
    (hphase : ∀ store c, store' = some store → store.phase.call = some c → OwnCall w w' i c)
    (hevents : ∀ e ∈ newer, ∀ c, e.call = some c → OwnCall w w' i c)
    (hbegun : ∀ store write, store' = some store → store.phase.failing = some write →
      .began write.call i store.snapshot ∈ w'.log ∧ Quiet write.call w'.log)
    (hfailed : ∀ c j cached message, .failed c j cached message ∈ newer →
      .began c j cached ∈ w'.log ∧ Quiet c w'.log ∧
        ∀ store, store' = some store → store.phase.call ≠ some c) : CallInv w' := by
  have hstore : ∀ j store, w'.stores j = some store →
      (j = i ∧ store' = some store) ∨ (j ≠ i ∧ w.stores j = some store) := by
    intro j store hj
    rw [hstores, update_apply] at hj
    split at hj
    · next heq => exact Or.inl ⟨heq, hj⟩
    · next hne => exact Or.inr ⟨hne, hj⟩
  have hquiet : ∀ c, ¬ OwnCall w w' i c → Quiet c w.log → Quiet c w'.log := by
    intro c hown hq
    rw [hlog]
    exact hq.append fun e he hc => hown (hevents e he c hc)
  refine ⟨fun e he c hc => ?_, fun j store c hj hc => ?_,
    fun j k store store₂ c hj hk hc hc₂ => ?_, fun j store write hj hw => ?_,
    fun c j cached message hmem => ?_⟩
  · rw [hlog] at he
    rcases mem_append.1 he with he | he
    · exact H.own_lt hnext (hevents e he c hc)
    · exact (H.fresh_log e he c hc).trans_le hnext
  · rcases hstore j store hj with ⟨-, hs⟩ | ⟨-, hj⟩
    · exact H.own_lt hnext (hphase store c hs hc)
    · exact (H.fresh j store c hj hc).trans_le hnext
  · rcases hstore j store hj with ⟨rfl, hs⟩ | ⟨hne, hj⟩
    · rcases hstore k store₂ hk with ⟨rfl, -⟩ | ⟨hne₂, hk⟩
      · rfl
      · exact absurd (hphase store c hs hc) (H.not_own hne₂ hk hc₂)
    · rcases hstore k store₂ hk with ⟨rfl, hs₂⟩ | ⟨-, hk⟩
      · exact absurd (hphase store₂ c hs₂ hc₂) (H.not_own hne hj hc)
      · exact H.unique j k store store₂ c hj hk hc hc₂
  · rcases hstore j store hj with ⟨rfl, hs⟩ | ⟨hne, hj⟩
    · exact hbegun store write hs hw
    · obtain ⟨hbegan, hq⟩ := H.begun j store write hj hw
      refine ⟨hlog ▸ mem_append_right newer hbegan, hquiet _ ?_ hq⟩
      exact H.not_own hne hj (Phase.call_of_failing hw)
  · rw [hlog] at hmem
    rcases mem_append.1 hmem with hmem | hmem
    · obtain ⟨hbegan, hq, hown⟩ := hfailed c j cached message hmem
      have hc : OwnCall w w' i c := hevents _ hmem c rfl
      refine ⟨hbegan, hq, fun k store hk hcall => ?_⟩
      rcases hstore k store hk with ⟨rfl, hs⟩ | ⟨hne, hk⟩
      · exact hown store hs hcall
      · exact H.not_own hne hk hcall hc
    · obtain ⟨hbegan, hq, hidle⟩ := H.failed c j cached message hmem
      have hown : ¬ OwnCall w w' i c := by
        rintro (⟨old, hi, hold⟩ | ⟨hle, -⟩)
        · exact hidle i old hi hold
        · exact absurd (H.fresh_log _ hmem c rfl) (Nat.not_lt.2 hle)
      refine ⟨hlog ▸ mem_append_right newer hbegan, hquiet c hown hq, fun k store hk hcall => ?_⟩
      rcases hstore k store hk with ⟨rfl, hs⟩ | ⟨-, hk⟩
      · exact hown (hphase store c hs hcall)
      · exact hidle k store hk hcall

theorem CallInv.quiet_next (H : CallInv w) : Quiet w.nextCall w.log :=
  fun e he heffect => absurd (H.fresh_log e he _ heffect.call) (Nat.lt_irrefl _)

/-- A step of store `i` within a call that can still fail, or that logs nothing. -/
theorem CallInv.silent (H : CallInv w) (hstores : w'.stores = Function.update w.stores i store')
    (hlog : w'.log = w.log) (hnext : w'.nextCall = w.nextCall)
    (hphase : ∀ store c, store' = some store → store.phase.call = some c →
      ∃ old, w.stores i = some old ∧ old.phase.call = some c)
    (hbegun : ∀ store write, store' = some store → store.phase.failing = some write →
      ∃ old, w.stores i = some old ∧ old.phase.failing = some write ∧
        old.snapshot = store.snapshot) : CallInv w' := by
  refine H.update [] hstores hlog hnext.ge (fun store c hs hc => Or.inl (hphase store c hs hc))
    (fun e he => nomatch he) (fun store write hs hw => ?_) (fun c j cached message hmem => nomatch hmem)
  obtain ⟨old, hi, hold, hsnapshot⟩ := hbegun store write hs hw
  rw [hlog, ← hsnapshot]
  exact H.begun i old write hi hold

/-- A step of store `i` that logs one event of its call, not a failure, and leaves no call that can
still fail. -/
theorem CallInv.logs (H : CallInv w) {e : Event}
    (hstores : w'.stores = Function.update w.stores i (some store)) (hlog : w'.log = e :: w.log)
    (hnext : w'.nextCall = w.nextCall)
    (hphase : ∀ c, store.phase.call = some c → ∃ old, w.stores i = some old ∧ old.phase.call = some c)
    (hevent : ∀ c, e.call = some c → ∃ old, w.stores i = some old ∧ old.phase.call = some c)
    (hfailing : store.phase.failing = none) (hfailed : ∀ c j cached m, e ≠ .failed c j cached m) :
    CallInv w' := by
  refine H.update [e] hstores hlog hnext.ge ?_ ?_ ?_ ?_
  · intro store₂ c hs hc
    cases hs
    exact Or.inl (hphase c hc)
  · intro e₂ he c hc
    obtain rfl := mem_singleton.1 he
    exact Or.inl (hevent c hc)
  · intro store₂ write hs hw
    cases hs
    rw [hfailing] at hw
    cases hw
  · intro c j cached m hmem
    exact absurd (mem_singleton.1 hmem).symm (hfailed c j cached m)

theorem CallInv.move (H : CallInv w) (h : Move linked path w a w') : CallInv w' := by
  cases h with
  | create hnone hread =>
    exact H.silent rfl rfl rfl (by rintro _ c ⟨⟩ ⟨⟩) (by rintro _ write ⟨⟩ ⟨⟩)
  | @begin i cached request expectedRevision expected hi hprepare =>
    have hquiet : Quiet w.nextCall (.began w.nextCall i cached :: w.log) := by
      intro e he heffect
      rcases mem_cons.1 he with rfl | he
      · exact heffect
      · exact H.quiet_next e he heffect
    refine H.update [.began w.nextCall i cached] rfl rfl (Nat.le_succ _) ?_ ?_ ?_ ?_
    · rintro _ c ⟨⟩ ⟨⟩
      exact Or.inr ⟨le_rfl, Nat.lt_succ_self _⟩
    · intro e he c hc
      obtain rfl := mem_singleton.1 he
      cases hc
      exact Or.inr ⟨le_rfl, Nat.lt_succ_self _⟩
    · rintro _ write ⟨⟩ ⟨⟩
      exact ⟨mem_cons_self, hquiet⟩
    · intro c j cached' message hmem
      cases mem_singleton.1 hmem
  | @refuse i cached request expectedRevision message hi =>
    refine H.update [.failed w.nextCall i cached message, .began w.nextCall i cached]
      rfl rfl (Nat.le_succ _) (by rintro _ c ⟨⟩ ⟨⟩) ?_ (by rintro _ write ⟨⟩ ⟨⟩) ?_
    · intro e he c hc
      have hcall : c = w.nextCall := by
        rcases mem_cons.1 he with rfl | he
        · exact (Option.some.inj hc).symm
        · obtain rfl := mem_singleton.1 he
          exact (Option.some.inj hc).symm
      rw [hcall]
      exact Or.inr ⟨le_rfl, Nat.lt_succ_self _⟩
    · intro c j cached' message' hmem
      obtain ⟨rfl, rfl, rfl, rfl⟩ : c = w.nextCall ∧ j = i ∧ cached' = cached ∧ message' = message := by
        simpa using hmem
      refine ⟨mem_cons_of_mem _ mem_cons_self, fun e he heffect => ?_, ?_⟩
      · rcases mem_cons.1 he with rfl | he
        · exact heffect
        · rcases mem_cons.1 he with rfl | he
          · exact heffect
          · exact H.quiet_next e he heffect
      · rintro _ ⟨⟩ ⟨⟩
  | @fail i cached phase write message a ha hi hphase =>
    obtain ⟨hbegan, hquiet⟩ := H.begun i _ write hi hphase
    refine H.update [.failed write.call i cached message] rfl rfl le_rfl
      (by rintro _ c ⟨⟩ ⟨⟩) ?_ (by rintro _ write ⟨⟩ ⟨⟩) ?_
    · intro e he c hc
      obtain rfl := mem_singleton.1 he
      cases hc
      exact Or.inl ⟨_, hi, Phase.call_of_failing hphase⟩
    · intro c j cached' message' hmem
      cases mem_singleton.1 hmem
      refine ⟨mem_cons_of_mem _ hbegan, fun e he heffect => ?_, by rintro _ ⟨⟩ ⟨⟩⟩
      rcases mem_cons.1 he with rfl | he
      · exact heffect
      · exact hquiet e he heffect
  | acquire hi hfree | load hi hread hle hexpected =>
    exact H.silent rfl rfl rfl (by rintro _ c ⟨⟩ hc; exact ⟨_, hi, hc⟩)
      (by rintro _ write ⟨⟩ hw; exact ⟨_, hi, hw, rfl⟩)
  | keep hi happly =>
    exact H.silent rfl rfl rfl (by rintro _ c ⟨⟩ hc; exact ⟨_, hi, hc⟩) (by rintro _ write ⟨⟩ ⟨⟩)
  | replace hi happly hkeys hrevision hwrite | install hi =>
    exact H.logs rfl rfl rfl (fun c hc => ⟨_, hi, hc⟩) (fun c hc => ⟨_, hi, hc⟩) rfl nofun
  | finish hi =>
    exact H.logs rfl rfl rfl (fun c hc => nomatch hc) (fun c hc => ⟨_, hi, hc⟩) rfl nofun
  | refresh hi | reload hi hread =>
    exact H.silent rfl rfl rfl (by rintro _ c ⟨⟩ ⟨⟩) (by rintro _ write ⟨⟩ ⟨⟩)
  | endRefresh ha hi hphase | replaceCache hi hle =>
    exact H.logs rfl rfl rfl (fun c hc => nomatch hc) (fun c hc => nomatch hc) rfl nofun
  | drop hi =>
    exact H.silent rfl rfl rfl (fun store c hs => nomatch hs) (fun store write hs => nomatch hs)

end

/-! ## Outcomes -/

/-- The outcome of a write tells what its replacement of the file did, or that there was none to do. -/
def Reported (log : List Event) (write : WriteCall) (i : StoreId) (outcome : WriteOutcome) : Prop :=
  outcome.request = write.request ∧
    (outcome.changedKeys ≠ [] → ∃ base result document, .replaced write i base result ∈ log ∧
      write.request.apply base = .ok (document, outcome.changedKeys) ∧
      outcome.revision = result.revision)

/-- The outcome that a write on the way to its return will report. -/
def Phase.outcome : Phase → Option (WriteCall × WriteOutcome)
  | .committed write _ outcome | .installed write outcome => some (write, outcome)
  | _ => none

structure ReportInv (w : World) : Prop where
  phase : ∀ i store write outcome, w.stores i = some store →
    store.phase.outcome = some (write, outcome) → Reported w.log write i outcome
  wrote : ∀ c i outcome, .wrote c i outcome ∈ w.log →
    ∃ write, write.call = c ∧ Reported w.log write i outcome

section
variable {w w' : World} {i : StoreId} {write : WriteCall} {outcome : WriteOutcome} {log : List Event}

theorem Reported.append (h : Reported log write i outcome) (newer : List Event) :
    Reported (newer ++ log) write i outcome := by
  refine ⟨h.1, fun hkeys => ?_⟩
  obtain ⟨base, result, document, hmem, happly, hrevision⟩ := h.2 hkeys
  exact ⟨base, result, document, mem_append_right newer hmem, happly, hrevision⟩

/-- A step of store `i`: its new phase and its new returns are accounted for. -/
theorem ReportInv.update (H : ReportInv w) (newer : List Event)
    (hstores : w'.stores = Function.update w.stores i store') (hlog : w'.log = newer ++ w.log)
    (hphase : ∀ store write outcome, store' = some store →
      store.phase.outcome = some (write, outcome) → Reported w'.log write i outcome)
    (hwrote : ∀ c j outcome, .wrote c j outcome ∈ newer →
      ∃ write, write.call = c ∧ Reported w'.log write j outcome) : ReportInv w' := by
  refine ⟨fun j store write outcome hj hphase' => ?_, fun c j outcome hmem => ?_⟩
  · rw [hstores, update_apply] at hj
    split at hj
    next heq => exact heq ▸ hphase store write outcome hj hphase'
    next => exact hlog ▸ (H.phase j store write outcome hj hphase').append newer
  · rw [hlog] at hmem
    rcases mem_append.1 hmem with hmem | hmem
    · exact hwrote c j outcome hmem
    · obtain ⟨write, hcall, hreported⟩ := H.wrote c j outcome hmem
      exact ⟨write, hcall, hlog ▸ hreported.append newer⟩

theorem ReportInv.move (H : ReportInv w) (h : Move linked path w a w') : ReportInv w' := by
  cases h with
  | create | acquire | load | refresh | reload =>
    exact H.update [] rfl rfl (by rintro _ _ _ ⟨⟩ ⟨⟩) (by rintro _ _ _ ⟨⟩)
  | drop => exact H.update [] rfl rfl (by rintro _ _ _ ⟨⟩) (by rintro _ _ _ ⟨⟩)
  | begin | fail | endRefresh | replaceCache =>
    exact H.update [_] rfl rfl (by rintro _ _ _ ⟨⟩ ⟨⟩) (by simp)
  | refuse => exact H.update [_, _] rfl rfl (by rintro _ _ _ ⟨⟩ ⟨⟩) (by simp)
  | keep hi happly =>
    refine H.update [] rfl rfl (fun store write outcome hstore hphase => ?_) nofun
    cases hstore
    cases hphase
    exact ⟨rfl, fun hkeys => (hkeys rfl).elim⟩
  | replace hi happly hkeys hrevision hwrite =>
    refine H.update [_] rfl rfl (fun store write outcome hstore hphase => ?_) (by simp)
    cases hstore
    cases hphase
    exact ⟨rfl, fun _ => ⟨_, _, _, mem_cons_self, happly, rfl⟩⟩
  | install hi =>
    refine H.update [_] rfl rfl (fun store write outcome hstore hphase => ?_) (by simp)
    cases hstore
    cases hphase
    exact (H.phase _ _ _ _ hi rfl).append [_]
  | finish hi =>
    refine H.update [_] rfl rfl (by rintro _ _ _ ⟨⟩ ⟨⟩) fun c j outcome hmem => ?_
    cases mem_singleton.1 hmem
    exact ⟨_, rfl, (H.phase _ _ _ _ hi rfl).append [_]⟩

end

/-! ## Runs -/

section
variable {linked : Linked} {path : String} {disk₀ : Option (List UInt8)} {d₀ : SkillConfigDocument}
  {w w' : World} {i : StoreId} {a : Act}

theorem Move.log_grows (h : Move linked path w a w') : ∃ newer, w'.log = newer ++ w.log := by
  cases h with
  | create | acquire | load | keep | refresh | reload | drop => exact ⟨[], rfl⟩
  | begin | fail | replace | install | finish | endRefresh | replaceCache => exact ⟨[_], rfl⟩
  | refuse => exact ⟨[_, _], rfl⟩

theorem Reaches.log_grows (h : Reaches linked path w w') : ∃ newer, w'.log = newer ++ w.log := by
  induction h with
  | refl => exact ⟨[], rfl⟩
  | step _ hstep ih =>
    obtain ⟨older, holder⟩ := ih
    obtain ⟨newer, hnewer⟩ := (step_move hstep).log_grows
    exact ⟨newer ++ older, by rw [hnewer, holder, append_assoc]⟩

theorem RegisterInv.reaches (H : RegisterInv linked path d₀ w) (h : Reaches linked path w w') :
    RegisterInv linked path d₀ w' := by
  induction h with
  | refl => exact H
  | step _ hstep ih => exact ih.move (step_move hstep)

theorem CallInv.reaches (h : Reaches linked path (.initial disk₀) w) : CallInv w := by
  induction h with
  | refl =>
    constructor
    · exact fun e he => nomatch he
    · exact fun i store c hi => nomatch hi
    · exact fun i j store store' c hi => nomatch hi
    · exact fun i store write hi => nomatch hi
    · exact fun c i cached message hmem => nomatch hmem
  | step _ hstep ih => exact ih.move (step_move hstep)

theorem ReportInv.reaches (h : Reaches linked path (.initial disk₀) w) : ReportInv w := by
  induction h with
  | refl =>
    refine ⟨fun i store write outcome hi => ?_, fun c i outcome hmem => absurd hmem not_mem_nil⟩
    cases hi
  | step _ hstep ih => exact ih.move (step_move hstep)

/-- No store opens on a file it cannot read. -/
theorem reaches_unreadable (hread : readSnapshotFrom linked path disk₀ = .error message)
    (h : Reaches linked path (.initial disk₀) w) : w = .initial disk₀ := by
  induction h with
  | refl => rfl
  | step _ hstep ih =>
    subst ih
    cases step_move hstep with
    | create hnone hok =>
      change readSnapshotFrom linked path disk₀ = _ at hok
      rw [hread] at hok
      cases hok
    | begin hi | refuse hi | fail _ hi | acquire hi | load hi | keep hi | replace hi | install hi
    | finish hi | refresh hi | reload hi | endRefresh _ hi | replaceCache hi | drop hi => cases hi

/-- The document of the file a run starts with. -/
def initialDocument (linked : Linked) (path : String) (disk₀ : Option (List UInt8)) :
    SkillConfigDocument :=
  match readSnapshotFrom linked path disk₀ with
  | .ok s => s.document
  | .error _ => .default

theorem reaches_register (h : Reaches linked path (.initial disk₀) w) :
    ((∃ message, readSnapshotFrom linked path disk₀ = .error message) ∧ w = .initial disk₀) ∨
      RegisterInv linked path (initialDocument linked path disk₀) w := by
  cases hread : readSnapshotFrom linked path disk₀ with
  | error message => exact Or.inl ⟨⟨message, rfl⟩, reaches_unreadable hread h⟩
  | ok s =>
    have hinit : RegisterInv linked path (initialDocument linked path disk₀) (.initial disk₀) := by
      refine ⟨⟨s, hread, ?_⟩, trivial, fun i store hi => nomatch hi⟩
      simp only [initialDocument, hread]
      rfl
    exact Or.inr (hinit.reaches h)

/-- A step moves a cache forward; a new store starts at the newest version. -/
theorem RegisterInv.cached_step (H : RegisterInv linked path d₀ w) (h : Move linked path w a w')
    (hi : w'.stores i = some store') : (∃ store, w.stores i = some store ∧
        store.snapshot.document.revision ≤ store'.snapshot.document.revision) ∨
      (w.stores i = none ∧ store'.snapshot.document = current d₀ w.log) := by
  have hforward : ∀ {j : StoreId} {cached snapshot : SkillConfigSnapshot} {phase phase' : Phase},
      w.stores j = some ⟨cached, phase⟩ → cached.document.revision ≤ snapshot.document.revision →
      Function.update w.stores j (some ⟨snapshot, phase'⟩) i = some store' →
      ∃ store, w.stores i = some store ∧
        store.snapshot.document.revision ≤ store'.snapshot.document.revision := by
    intro j cached snapshot phase phase' hj hle hupdate
    rw [update_apply] at hupdate
    split at hupdate
    · next heq =>
      subst heq
      cases hupdate
      exact ⟨_, hj, hle⟩
    · exact ⟨store', hupdate, UInt64.le_refl _⟩
  cases h with
  | @create j snapshot hnone hread =>
    simp only [setStore, update_apply] at hi
    split at hi
    · next heq =>
      subst heq
      cases hi
      exact Or.inr ⟨hnone, H.read hread⟩
    · exact Or.inl ⟨store', hi, UInt64.le_refl _⟩
  | begin hj | refuse hj | fail _ hj | acquire hj | load hj | keep hj | replace hj | finish hj
  | refresh hj | reload hj | endRefresh _ hj => exact Or.inl (hforward hj (UInt64.le_refl _) hi)
  | install hj => exact Or.inl (hforward hj (H.stores _ _ hj).phase.2.2 hi)
  | replaceCache hj hle => exact Or.inl (hforward hj hle hi)
  | @drop j store hj =>
    simp only [update_apply] at hi
    split at hi
    · cases hi
    · exact Or.inl ⟨store', hi, UInt64.le_refl _⟩

/-- Caches never go back. -/
theorem RegisterInv.cached_le (H : RegisterInv linked path d₀ w) (h : Reaches linked path w w')
    (hi : w.stores i = some store) (hi' : w'.stores i = some store') :
    store.snapshot.document.revision ≤ store'.snapshot.document.revision := by
  induction h generalizing store' with
  | refl =>
    rw [hi] at hi'
    cases hi'
    exact UInt64.le_refl _
  | @step w₁ w₂ a hrun hstep ih =>
    have H₁ := H.reaches hrun
    rcases H₁.cached_step (step_move hstep) hi' with ⟨store₁, hi₁, hle⟩ | ⟨-, hnewest⟩
    · exact UInt64.le_trans (ih hi₁) hle
    · obtain ⟨newer, hnewer⟩ := hrun.log_grows
      have hmem : store.snapshot.document ∈ versions d₀ w₁.log := by
        rw [hnewer]
        exact versions_append newer (H.stores i store hi).cached
      rw [hnewest, UInt64.le_iff_toNat_le]
      rcases H₁.legal.revision_le _ hmem with heq | hlt
      · rw [heq]
      · exact hlt.le

def Event.effectiveAt (e : UInt64) : Event → Bool
  | .replaced write _ _ _ => write.expected = some e
  | _ => false

theorem Legal.effectiveAt_le_one {log : List Event} (h : Legal d₀ log) (e : UInt64) :
    log.countP (Event.effectiveAt e) ≤ 1 ∧
      (0 < log.countP (Event.effectiveAt e) → e.toNat < (current d₀ log).revision.toNat) := by
  induction log with
  | nil => simp
  | cons ev log ih =>
    obtain ⟨hone, hbelow⟩ := ih h.tail
    cases ev with
    | replaced write j base result =>
      obtain ⟨⟨rfl, hwrote⟩, -⟩ := h
      have hrevision := hwrote.revision
      rw [countP_cons]
      simp only [Event.effectiveAt, decide_eq_true_eq, current]
      split
      · next hexpected =>
        have heq := hwrote.expected e hexpected
        have hnone : log.countP (Event.effectiveAt e) = 0 := by
          by_contra hne
          have := hbelow (Nat.pos_of_ne_zero hne)
          rw [heq] at this
          omega
        rw [hnone, heq]
        omega
      · exact ⟨hone, fun hpos => (hbelow hpos).trans (by omega)⟩
    | _ =>
      rw [countP_cons_of_neg (by simp [Event.effectiveAt])]
      exact ⟨hone, hbelow⟩

/-- The file changes only where a replacement is logged. -/
theorem Move.disk_eq (h : Move linked path w a w') :
    w'.disk = w.disk ∨
      ∃ write j base result, w'.log = .replaced write j base result :: w.log := by
  cases h with
  | replace => exact Or.inr ⟨_, _, _, _, rfl⟩
  | _ => exact Or.inl rfl

/-- A cache changes only where an installation or a refresh is logged. -/
theorem Move.cache_eq (h : Move linked path w a w') (hi : w.stores i = some store)
    (hi' : w'.stores i = some store') :
    store'.snapshot = store.snapshot ∨ (∃ c, w'.log = .installed c i store'.snapshot :: w.log) ∨
      ∃ result, w'.log = .refreshed i result :: w.log := by
  have hsame : ∀ {j : StoreId} {cached : SkillConfigSnapshot} {phase phase' : Phase},
      w.stores j = some ⟨cached, phase⟩ →
      update w.stores j (some ⟨cached, phase'⟩) i = some store' →
      store'.snapshot = store.snapshot := by
    intro j cached phase phase' hj hupdate
    rw [update_apply] at hupdate
    split at hupdate
    · next heq =>
      subst heq
      rw [hi] at hj
      cases hj
      cases hupdate
      rfl
    · rw [hi] at hupdate
      cases hupdate
      rfl
  cases h with
  | @create j snapshot hnone hread =>
    simp only [setStore, update_apply] at hi'
    split at hi'
    · next heq =>
      subst heq
      rw [hnone] at hi
      cases hi
    · rw [hi] at hi'
      cases hi'
      exact Or.inl rfl
  | begin hj | refuse hj | fail _ hj | acquire hj | load hj | keep hj | replace hj | finish hj
  | refresh hj | reload hj | endRefresh _ hj => exact Or.inl (hsame hj hi')
  | @install j cached write snapshot outcome hj =>
    simp only [World.install, World.setStore, update_apply] at hi'
    split at hi'
    · next heq =>
      subst heq
      cases hi'
      exact Or.inr (Or.inl ⟨write.call, rfl⟩)
    · rw [hi] at hi'
      cases hi'
      exact Or.inl rfl
  | @replaceCache j cached snapshot hj hle =>
    simp only [World.endRefresh, World.setStore, update_apply] at hi'
    split at hi'
    · next heq =>
      subst heq
      exact Or.inr (Or.inr ⟨_, rfl⟩)
    · rw [hi] at hi'
      cases hi'
      exact Or.inl rfl
  | @drop j store hj =>
    simp only [update_apply] at hi'
    split at hi'
    · cases hi'
    · rw [hi] at hi'
      cases hi'
      exact Or.inl rfl

/-! ## Undisturbed writes -/

/-- The steps of a write on store `i`, up to its replacement of the file. -/
def writeActs (i : StoreId) (request : WriteRequest) (expectedRevision : Option String) : List Act :=
  [.begin i request expectedRevision, .acquire i none, .load i none, .commit i .quiet]

variable (linked path) in
def World.run (w : World) : List Act → Option World
  | [] => some w
  | a :: acts => (w.step linked path a).bind fun w' => w'.run acts

theorem World.run_append {acts : List Act} : w.run linked path (acts ++ acts') =
      (w.run linked path acts).bind fun w' => w'.run linked path acts' := by
  induction acts generalizing w with
  | nil => rfl
  | cons a acts ih =>
    simp only [cons_append, run]
    cases w.step linked path a with
    | none => rfl
    | some w₁ => exact ih

theorem World.run_append_some (h : w.run linked path acts = some w₁) :
    w.run linked path (acts ++ acts') = w₁.run linked path acts' := by
  rw [run_append, h, Option.bind_some]

theorem reaches_of_run (h : w.run linked path acts = some w') : Reaches linked path w w' := by
  induction acts generalizing w with
  | nil =>
    cases h
    exact .refl
  | cons a acts ih =>
    simp only [run, Option.bind_eq_some_iff] at h
    obtain ⟨w₁, hstep, hrun⟩ := h
    exact (Reaches.refl.step hstep).trans (ih hrun)

def World.committing (w : World) (i : StoreId) (cached disk : SkillConfigSnapshot)
    (write : WriteCall) : World where
  disk := w.disk
  lock := some i
  stores := update w.stores i (some ⟨cached, .loaded write disk⟩)
  nextCall := w.nextCall + 1
  log := .began write.call i cached :: w.log

/-- The transaction of store `i` on what it read. -/
theorem step_commit (w : World) (i : StoreId) (cached disk : SkillConfigSnapshot) (write : WriteCall)
    (io : WriteAnswers) : (w.committing i cached disk write).step linked path (.commit i io) =
      some ((w.committing i cached disk write).commit linked path i ⟨cached, .loaded write disk⟩ write
        disk io) := by
  have hat : (w.committing i cached disk write).stores i = some ⟨cached, .loaded write disk⟩ :=
    update_self ..
  simp only [step, hat]

section
variable {cached disk : SkillConfigSnapshot} {request : WriteRequest}
    {expectedRevision : Option String} {expected : Option UInt64}
    (hi : w.stores i = some ⟨cached, .idle⟩) (hlock : w.lock = none)
    (hprepare : request.prepare expectedRevision = .ok expected)
    (hread : readSnapshotFrom linked path w.disk = .ok disk)
    (hprogress : validateSnapshotProgression cached disk "disk" = .ok ())
    (hexpected : expected.any (· ≠ disk.document.revision) = false)
include hi hlock hprepare hread hprogress hexpected

/-- A write on an idle store that finds the lock free reads the file. -/
theorem run_loadActs :
    w.run linked path ((writeActs i request expectedRevision).take 3) =
      some (w.committing i cached disk ⟨w.nextCall, request, expected⟩) := by
  have hload : ∀ v : World, v.disk = w.disk →
      v.readCurrent linked path ⟨cached, .locked ⟨w.nextCall, request, expected⟩⟩
        ⟨w.nextCall, request, expected⟩ none = .ok disk := by
    intro v hv
    simp only [readCurrent, answered, hv, hread, hprogress, Except.ok_bind]
    rw [refuseIf_of_not (by rw [hexpected]; exact Bool.false_ne_true)]
    rfl
  simp [writeActs, run, step, hi, begin, hprepare, setStore, acquire,
    hlock, load, hload, committing]

/-- A write on an idle store that finds the lock free reaches its transaction. -/
theorem run_writeActs :
    w.run linked path (writeActs i request expectedRevision) =
      some ((w.committing i cached disk ⟨w.nextCall, request, expected⟩).commit linked path i
        ⟨cached, .loaded ⟨w.nextCall, request, expected⟩ disk⟩
        ⟨w.nextCall, request, expected⟩ disk .quiet) := by
  refine (run_append_some (run_loadActs hi hlock hprepare hread hprogress hexpected)).trans ?_
  rw [run, step_commit, Option.bind_some]
  rfl

end

/-! ## The register -/

/-- The laws of the register, at two worlds of a run. -/
structure RegisterLaws (linked : Linked) (path : String) (disk₀ : Option (List UInt8))
    (w w' : World) : Prop where
  /-- An effective write is made over the whole document the file held, at the next revision. -/
  effective : ∀ newer older write i base result,
    w.log = newer ++ .replaced write i base result :: older →
    base = current (initialDocument linked path disk₀) older ∧ WroteOver write base result ∧
      ∀ skillId key, ¬ write.request.Changes base skillId key →
        result.value skillId key = base.value skillId key
  /-- The file holds what the last of them wrote. -/
  file : ∀ s, readSnapshotFrom linked path w.disk = .ok s →
    s.document = current (initialDocument linked path disk₀) w.log
  exclusive : ∀ e, w.log.countP (Event.effectiveAt e) ≤ 1
  /-- A write that returns changed keys reports them and the revision from its effective write. -/
  reported : ∀ c i outcome, .wrote c i outcome ∈ w.log →
    ∃ write, write.call = c ∧ Reported w.log write i outcome
  /-- A failed write found the cache as it left it and has changed neither file nor cache. -/
  failed : ∀ c i cached message, .failed c i cached message ∈ w.log →
    .began c i cached ∈ w.log ∧ Quiet c w.log
  logged : ∀ a w₁, w.step linked path a = some w₁ →
    (w₁.disk = w.disk ∨ ∃ write i base result, w₁.log = .replaced write i base result :: w.log) ∧
    ∀ i store store₁, w.stores i = some store → w₁.stores i = some store₁ →
      store₁.snapshot = store.snapshot ∨ (∃ c, w₁.log = .installed c i store₁.snapshot :: w.log) ∨
        ∃ result, w₁.log = .refreshed i result :: w.log
  monotone : ∀ i store store', w.stores i = some store → w'.stores i = some store' →
    store.snapshot.document.revision ≤ store'.snapshot.document.revision
  consistent : ∀ i j store store', w.stores i = some store → w'.stores j = some store' →
    store.snapshot.document.revision = store'.snapshot.document.revision →
    store.snapshot.document = store'.snapshot.document
  valid : w.disk = disk₀ ∨ ∃ s, readSnapshotFrom linked path w.disk = .ok s ∧
    validateSkillConfigDocument s.document = .ok ()

theorem Legal.effective {log newer older : List Event} (h : Legal d₀ log) {write : WriteCall}
    {base result : SkillConfigDocument} (hlog : log = newer ++ .replaced write i base result :: older) :
    base = current d₀ older ∧ WroteOver write base result ∧
      ∀ skillId key, ¬ write.request.Changes base skillId key →
        result.value skillId key = base.value skillId key := by
  subst hlog
  obtain ⟨⟨hbase, hwrote⟩, -⟩ := h.append
  refine ⟨hbase, hwrote, fun skillId key hother => ?_⟩
  obtain ⟨document, keys, happly, -, hresult⟩ := hwrote.applied
  have hvalue := apply_value happly fun hin => hother ((apply_keys happly).1 hin)
  rw [hresult]
  exact hvalue

/-- The stores of one file behave as one compare-and-swap register. -/
theorem stores_linear_register (h : Reaches linked path (.initial disk₀) w)
    (h' : Reaches linked path w w') : RegisterLaws linked path disk₀ w w' := by
  have hfailed := (CallInv.reaches h).failed
  have hmoved := fun a w₁ (hstep : w.step linked path a = some w₁) => step_move hstep
  rcases reaches_register h with ⟨⟨message, hread⟩, rfl⟩ | H
  · constructor
    · intro newer older write i base result hlog
      simp [initial] at hlog
    · intro s hs
      change readSnapshotFrom linked path disk₀ = _ at hs
      rw [hread] at hs
      cases hs
    · exact fun e => Nat.zero_le 1
    · exact (ReportInv.reaches h).wrote
    · exact fun c i cached message hmem => nomatch hmem
    · exact fun a w₁ hstep => ⟨(hmoved a w₁ hstep).disk_eq, fun i store store₁ hi => nomatch hi⟩
    · exact fun i store store' hi => nomatch hi
    · exact fun i j store store' hi => nomatch hi
    · exact Or.inl rfl
  · obtain ⟨newer, hnewer⟩ := h'.log_grows
    have H' := H.reaches h'
    constructor
    · exact fun newer older write i base result hlog => H.legal.effective hlog
    · exact fun s hs => H.read hs
    · exact fun e => (H.legal.effectiveAt_le_one e).1
    · exact (ReportInv.reaches h).wrote
    · exact fun c i cached message hmem =>
        ⟨(hfailed c i cached message hmem).1, (hfailed c i cached message hmem).2.1⟩
    · exact fun a w₁ hstep => ⟨(hmoved a w₁ hstep).disk_eq, fun i store store₁ hi hi₁ =>
        (hmoved a w₁ hstep).cache_eq hi hi₁⟩
    · exact fun i store store' hi hi' => H.cached_le h' hi hi'
    · intro i j store store' hi hj heq
      have hmem : store.snapshot.document ∈ versions _ w'.log :=
        hnewer ▸ versions_append newer (H.stores i store hi).cached
      exact H'.legal.version_eq hmem (H'.stores j store' hj).cached heq
    · obtain ⟨s, hs, -⟩ := H.disk
      exact Or.inr ⟨s, hs, valid_of_read hs⟩

end

/-- The path of the examples. -/
def configPath : String := "/etc/luaskills/skills/config.json"

def modeRequest : WriteRequest := .set "demo" ⟨[("mode", "fast")], mode_sorted⟩ fun _ => .ok ()

theorem transact_modeRequest (call : CallId) :
    transact modeLinked configPath ⟨call, modeRequest, none⟩
        ⟨"missing", SkillConfigDocument.default⟩ .quiet =
      .ok (⟨modeLinked.hexSha256 (modeText ++ [0x0a]), modeDocument⟩, ["mode"],
        some (modeText ++ [0x0a])) := by
  have happly : modeRequest.apply SkillConfigDocument.default =
      .ok ({ modeDocument with revision := 0 }, ["mode"]) := rfl
  have hnext : nextRevision 0 = .ok 1 := rfl
  simp only [transact, happly, hnext, Except.ok_bind]
  change (writeDocumentTo modeLinked configPath .quiet modeDocument >>= _) = _
  rw [write_modeDocument]
  rfl

def emptySnapshot : SkillConfigSnapshot := ⟨"missing", .default⟩

noncomputable def modeSnapshot : SkillConfigSnapshot :=
  ⟨modeLinked.hexSha256 (modeText ++ [0x0a]), modeDocument⟩

/-- Two stores that have opened on a missing file. -/
def openedWorld : World :=
  { initial none with
    stores := update (update (fun _ => none) 0 (some ⟨emptySnapshot, .idle⟩)) 1
      (some ⟨emptySnapshot, .idle⟩) }

theorem run_opened :
    (initial none).run modeLinked configPath [.create 0, .create 1] = some openedWorld := rfl

/-- One of them has written the mode. -/
noncomputable def writtenWorld (i : StoreId) : World where
  disk := some (modeText ++ [0x0a])
  lock := none
  stores := update openedWorld.stores i (some ⟨modeSnapshot, .idle⟩)
  nextCall := 1
  log := [.wrote 0 i ⟨modeRequest, 1, ["mode"], none⟩, .installed 0 i modeSnapshot,
    .replaced ⟨0, modeRequest, none⟩ i .default modeDocument, .began 0 i emptySnapshot]

noncomputable def modeWorld : World := writtenWorld 1

/-- The world in which store `i` has read the missing file for its write. -/
def readWorld (i : StoreId) : World :=
  openedWorld.committing i emptySnapshot emptySnapshot ⟨0, modeRequest, none⟩

theorem run_readWorld {i : StoreId} (hi : openedWorld.stores i = some ⟨emptySnapshot, .idle⟩) :
    openedWorld.run modeLinked configPath ((writeActs i modeRequest none).take 3) =
      some (readWorld i) :=
  run_loadActs hi rfl (by decide +kernel) rfl rfl rfl

theorem run_written (i : StoreId) :
    (readWorld i).run modeLinked configPath [.commit i .quiet, .install i, .finish i] =
      some (writtenWorld i) := by
  have htransact := transact_modeRequest 0
  rw [readWorld, run, step_commit, Option.bind_some]
  simp only [commit, emptySnapshot] at htransact ⊢
  rw [htransact]
  simp [run, step, install, finish, setStore, committing,
    unlock, writtenWorld, WriteAnswers.quiet]
  exact ⟨rfl, rfl, rfl, rfl, rfl, rfl⟩

theorem run_modeWorld :
    openedWorld.run modeLinked configPath
      (writeActs 1 modeRequest none ++ [.install 1, .finish 1]) = some modeWorld :=
  (run_append_some (run_readWorld rfl)).trans (run_written 1)

theorem stores_linear_register_mode :
    RegisterLaws modeLinked configPath none openedWorld modeWorld ∧
      RegisterLaws modeLinked configPath none modeWorld modeWorld := by
  have hopened := reaches_of_run run_opened
  have hmode := reaches_of_run run_modeWorld
  exact ⟨stores_linear_register hopened hmode, stores_linear_register (hopened.trans hmode) .refl⟩

end LuaSkills.SkillConfig
