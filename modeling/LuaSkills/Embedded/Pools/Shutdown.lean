import LuaSkills.Embedded.Pools.Steps

/-!
# Shutdown

The sections that close pools and the manager, and what a careful shutdown keeps: while `poll_closed` is
under way, and once the worker may stop, nothing is resident.
-/

namespace LuaSkills.Embedded.Pools

open List

/-- A section of `poll_closed`. -/
def PoolAction.polls : PoolAction → Bool
  | .readUsage | .tryShutdown | .join => true
  | _ => false

namespace PoolWorld
variable {w w' : PoolWorld} {p t vm : ℕ} {pool : ModulePool} {a : PoolAction}
  {th rest rest' : List PoolAction}

/-! ## Closing -/

theorem Calm.of_spawn (hjoin : .join ∉ th) : Calm w (w.spawn th) :=
  .of_frame rfl (.of_eq rfl) (fun _ _ h => h) (fun _ hx hj => .inl (mem_spawn hjoin hx hj)) rfl id
    fun _ h => h

theorem follows_closes {pools : List ℕ} : Follows (pools.map .close) := by
  induction pools with
  | nil => trivial
  | cons p pools ih => exact ⟨trivial, ih⟩

theorem Inv.spawn_closes (H : w.Inv) (pools : List ℕ) : (w.spawn (pools.map .close)).Inv :=
  H.spawn follows_closes (by simp) (by simp)

theorem Inv.closePool (H : w.Inv) : w.Fine (w.closePool p) := by
  unfold PoolWorld.closePool
  split
  · exact ⟨H.spawn_closes [p], .of_spawn (by simp)⟩
  · exact H.fine

theorem drain_follows (h : Follows rest) : Follows (drain p pool ++ rest) := by
  rw [drain, append_assoc]
  exact (Follows.requestRetirement p h).flatMap_enqueue pool.idle

theorem count_push_drain : (drain p pool).count (.push v) = pool.idle.count v := by
  rw [drain, count_append, count_push_enqueue]
  simp [requestRetirement]

theorem mem_drain : .setClosing q ∈ drain p pool ↔ q = p := by
  simp [drain, enqueue, requestRetirement]

theorem join_notMem_drain : .join ∉ drain p pool := by
  simp [drain, enqueue, requestRetirement]

theorem Inv.dropPool (H : w.Inv) : w.Fine (w.dropPool p) := by
  unfold PoolWorld.dropPool
  split
  · exact H.fine
  · next pool hp =>
    split
    · have hgoes : Goes pool { pool with alive := false, idle := [] } :=
        ⟨rfl, rfl, rfl, id, fun _ => rfl⟩
      have hfollows : Follows (drain p pool) := by
        have : Follows (drain p pool ++ []) := drain_follows trivial
        rwa [append_nil] at this
      refine ⟨H.unload hp hgoes rfl (.spawn hfollows) (fun v => ?_) fun q hq => ?_, ?_⟩
      · rw [count_push_drain, count_nil, Nat.zero_add]
      · rw [mem_drain] at hq
        subst hq
        exact ⟨_, AList.lookup_insert _, .inr rfl⟩
      · exact .of_frame rfl (.insert hp rfl id fun _ => rfl) (fun _ _ h => h)
          (fun x hx hj => .inl (mem_spawn (w := w.setPool p _) join_notMem_drain hx hj)) rfl id
          fun _ h => h
    · exact H.fine

theorem Inv.dropRegistration (H : w.Inv) : w.Fine (w.dropRegistration p) := by
  unfold PoolWorld.dropRegistration
  split
  · exact H.fine
  · next pool hp =>
    split
    · next hdead =>
      have hfollows : Follows (requestRetirement p) := by
        have : Follows (requestRetirement p ++ []) := Follows.requestRetirement p trivial
        rwa [append_nil] at this
      refine ⟨H.spawn hfollows (fun q hq => ?_) (by simp [requestRetirement]),
        .of_spawn (by simp [requestRetirement])⟩
      obtain rfl : q = p := by simpa [requestRetirement] using hq
      exact ⟨pool, hp, .inr (by simpa using hdead.1)⟩
    · exact H.fine

theorem Inv.requestClose (H : w.Inv) : w.Fine w.requestClose := by
  have Hc : Inv { w with closing := true } := ⟨H.governor, H.poisoned, H.seated, { H.owned with },
    { H.orderly with },
    { H.receipted with },
    { H.chronicle with }, H.awaited⟩
  refine ⟨Hc.spawn_closes _, fun hs => ⟨⟨rfl, hs.2⟩, fun _ h => h⟩, fun x hx hj => .inl ?_, rfl, id,
    fun _ h => h⟩
  exact mem_spawn (w := { w with closing := true }) (by simp) hx hj

/-! ## Sections of a call -/

theorem Calm.pass (C : w.Calm w') (hthreads : w'.threads = w.threads)
    (h : w.threads[t]? = some (a :: rest)) (ha : a.polls = false) (hjoin : .join ∈ rest' → .join ∈ rest) :
    w.Calm { w' with threads := w'.threads.set t rest' } := by
  refine ⟨C.settled, fun x hx hj => ?_, C.stopping, C.exited, C.reported⟩
  rw [hthreads] at hx
  rcases mem_or_eq_of_mem_set hx with hx | rfl
  · exact .inl hx
  · refine .inr ⟨a, rest, mem_of_getElem? h, hjoin hj, ?_, ?_⟩
    · rintro rfl
      cases ha
    · rintro rfl
      cases ha

/-- A section that is neither `push` nor a look at a registration is over. -/
theorem Inv.over (H : w.Inv) (h : w.threads[t]? = some (a :: rest)) (hpush : ∀ vm, a ≠ .push vm)
    (hrelease : ∀ p, a ≠ .releaseIfDrained p) : Inv { w with threads := w.threads.set t rest } := by
  refine H.pass h (H.orderly.follows _ (mem_of_getElem? h)).2 (fun vm => ?_) (fun p => ?_)
    fun p => ?_
  · rw [count_cons_of_ne (hpush vm)]
  · rw [count_cons_of_ne (hrelease p)]
  · exact count_le_count_cons

theorem Inv.perform (H : w.Inv) (h : w.threads[t]? = some (a :: rest)) (ha : a.polls = false) :
    ∃ w', w.turn t = .ok w' ∧ w.Fine w' := by
  have hfollows := H.orderly.follows _ (mem_of_getElem? h)
  have hdue : ∀ {b}, b ∈ rest → 0 < w.due b := by
    intro b hb
    have hmem : b ∈ w.threads.flatten :=
      mem_flatten.2 ⟨_, mem_of_getElem? h, mem_cons_of_mem _ hb⟩
    exact count_pos_iff.2 hmem
  unfold turn
  rw [h]
  dsimp only
  cases a with
  | mark vm =>
    obtain ⟨w₁, h₁, H₁, C, hthreads⟩ : ∃ w₁, attempt (w.governor.markRetiring ⟨vm⟩)
        (fun governor => { w with governor }) w = .ok w₁ ∧ w₁.Inv ∧ w.Calm w₁ ∧
          w₁.threads = w.threads :=
      attempt_spec PoolGovernor.markRetiring_returns
        (fun g hg => ⟨H.govern (markRetiring_keeps hg), (H.fine_govern (markRetiring_keeps hg)).2, rfl⟩)
        ⟨H, .refl, rfl⟩
    refine ⟨{ w₁ with threads := w₁.threads.set t rest }, ?_, ?_, ?_⟩
    · simp only [PoolWorld.perform, h₁, Except.ok_bind]
      rfl
    · exact H₁.over (a := .mark vm) (by rw [hthreads]; exact h) nofun nofun
    · exact C.pass hthreads h ha id
  | queue vm =>
    have Hq := H.queue (hdue hfollows.1)
    have C : w.Calm (w.publish vm .queued none) :=
      .of_frame rfl (.of_eq rfl) (fun _ _ h => h) (fun _ h _ => .inl h) rfl id fun _ h => h
    exact ⟨_, rfl, Hq.over h nofun nofun, C.pass rfl h ha id⟩
  | push vm =>
    have C : w.Calm ({ w with pending := w.pending ++ [vm] }.record (.queued vm)) := by
      refine .of_frame rfl (.of_eq rfl) (fun _ _ h => h) (fun _ h _ => .inl h) rfl id fun n h => ?_
      rcases mem_append.1 h with h | h
      · exact h
      · cases mem_singleton.1 h
    exact ⟨_, rfl, H.push h, C.pass rfl h ha id⟩
  | close p =>
    cases hp : w.pools.lookup p with
    | none =>
      simp only [PoolWorld.perform, hp]
      exact ⟨_, rfl, H.over h nofun nofun, Calm.refl.pass rfl h ha id⟩
    | some pool =>
      simp only [PoolWorld.perform, hp]
      have hgoes : Goes pool { pool with closed := true, idle := [] } :=
        ⟨rfl, rfl, rfl, fun _ => rfl, id⟩
      have C : w.Calm (w.setPool p { pool with closed := true, idle := [] }) :=
        .of_frame rfl (.insert hp rfl (fun _ => rfl) id) (fun _ _ h => h) (fun _ h _ => .inl h) rfl id
          fun _ h => h
      refine ⟨_, rfl, H.unload hp hgoes rfl (.close h drain_follows) (fun v => ?_) fun q hq => ?_,
        C.pass rfl h ha fun hj => ?_⟩
      · rw [count_push_drain, count_nil, Nat.zero_add]
      · rw [mem_drain] at hq
        subst hq
        exact ⟨_, AList.lookup_insert _, .inl rfl⟩
      · exact (mem_append.1 hj).resolve_left join_notMem_drain
  | setClosing p =>
    obtain ⟨pool, hp, hshut⟩ := H.orderly.shut p (count_pos_iff.2
      (mem_flatten.2 ⟨_, mem_of_getElem? h, mem_cons_self⟩))
    simp only [PoolWorld.perform, hp]
    have C : w.Calm (w.setPool p { pool with closing := true }) :=
      .of_frame rfl (.insert hp rfl id id) (fun _ _ h => h) (fun _ h _ => .inl h) rfl id fun _ h => h
    exact ⟨_, rfl, (H.setClosing hp ⟨pool, hp, hshut⟩ (hdue hfollows.1)).over h nofun nofun,
      C.pass rfl h ha id⟩
  | releaseIfDrained p =>
    obtain ⟨w₁, h₁, ⟨H₁, C⟩, hsettles, hthreads, -⟩ := H.release (p := p)
    refine ⟨{ w₁ with threads := w₁.threads.set t rest }, ?_, ?_, ?_⟩
    · simp only [PoolWorld.perform, h₁, Except.ok_bind]
      rfl
    · exact H₁.lookedAt (hthreads ▸ h) hsettles
    · exact C.pass hthreads h ha id
  | readUsage => cases ha
  | tryShutdown => cases ha
  | join => cases ha

/-! ## The worker -/

theorem Inv.work_fine (H : w.Inv) (cleaned : EmbeddedResult Unit)
    (hstay : w.worker = .waiting → w.pending = [] → w.stopping = false) :
    ∃ w', w.work cleaned = .ok w' ∧ w.Fine w' := by
  have hcalm : ∀ {pending worker receipts log residents} {g : PoolGovernor}, worker ≠ .exited →
      (∀ n, .reportedClosed n ∈ log → .reportedClosed n ∈ w.log) →
      (∀ v ∈ g.state.allocations, v ∈ w.governor.state.allocations) →
      Calm w { w with governor := g, pending, worker, receipts, log, residents } :=
    fun hw hlog hg => .of_frame rfl (.of_eq rfl) (fun _ => hg) (fun _ h _ => .inl h) rfl
      (fun h => absurd h hw) hlog
  have hrecord : ∀ {event}, (∀ n, event ≠ .reportedClosed n) → ∀ n,
      .reportedClosed n ∈ w.log ++ [event] → .reportedClosed n ∈ w.log := by
    intro event he n h
    rcases mem_append.1 h with h | h
    · exact h
    · exact absurd (mem_singleton.1 h).symm (he n)
  unfold work
  cases hworker : w.worker with
  | waiting =>
    cases hpending : w.pending with
    | nil =>
      simp only [hstay hworker hpending, Bool.false_eq_true, if_false]
      exact ⟨w, rfl, H.fine⟩
    | cons vm pending =>
      exact ⟨_, rfl, H.pop hworker hpending, hcalm nofun (fun _ h => h) fun _ h => h⟩
  | popped vm => exact ⟨_, rfl, H.begin hworker, hcalm nofun (fun _ h => h) fun _ h => h⟩
  | cleaning vm =>
    cases cleaned with
    | ok | error e =>
      exact ⟨_, rfl, H.stand hworker (fun _ => rfl) (fun _ => rfl) (fun _ => rfl) (fun _ => rfl)
        (fun _ => rfl) nofun nofun nofun nofun, hcalm nofun (fun _ h => h) fun _ h => h⟩
  | destroying vm =>
    cases hr : w.residents.lookup vm with
    | none =>
      simp only [hr]
      exact ⟨w, rfl, H.fine⟩
    | some r =>
      simp only [hr]
      exact ⟨_, rfl, H.destroy hworker hr, hcalm nofun (fun _ h => h) fun _ h => h⟩
  | unreserving vm p =>
    exact ⟨_, rfl, H.unreserve hworker, hcalm nofun (fun _ h => h)
      fun _ h => notMem_of_dropReservation h⟩
  | deregistering vm p =>
    obtain ⟨w₁, h₁, ⟨H₁, C⟩, hsettles, hthreads, hw₁⟩ := H.release (p := p)
    refine ⟨{ w₁ with worker := .publishing vm }, ?_, H₁.deregister (hw₁.trans hworker) hsettles, ?_⟩
    · simp only [h₁, Except.ok_bind]
      rfl
    · exact ⟨C.settled, C.threads, C.stopping, nofun, C.reported⟩
  | publishing vm =>
    exact ⟨_, rfl, H.complete hworker, hcalm nofun (hrecord nofun) fun _ h => h⟩
  | settling =>
    exact ⟨_, rfl, H.stand hworker (fun _ => rfl) (fun _ => rfl) (fun _ => rfl) (fun _ => rfl)
      (fun _ => rfl) nofun nofun nofun nofun, hcalm nofun (fun _ h => h) fun _ h => h⟩
  | failing vm code => exact ⟨_, rfl, H.retry hworker, hcalm nofun (hrecord nofun) fun _ h => h⟩
  | requeueing vm => exact ⟨_, rfl, H.requeue hworker, hcalm nofun (fun _ h => h) fun _ h => h⟩
  | exited => exact ⟨w, rfl, H.fine⟩

end PoolWorld

end LuaSkills.Embedded.Pools
