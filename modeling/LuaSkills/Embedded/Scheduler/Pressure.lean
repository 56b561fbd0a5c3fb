import LuaSkills.Embedded.Scheduler.Idle
import LuaSkills.Embedded.Scheduler.System

/-!
# Pressure

A request that finds no machine evicts one idle instance. `Evicts` is what an eviction does; a scan
evicts at most once, so an instance that closes in a sequence of scans was too old or is the victim of
one of them.
-/

namespace LuaSkills.Embedded.Scheduler

open List Option

variable {pluginId : String} {s s' : SchedulerState} {index : ℕ}

namespace SchedulerState
variable {s s' : SchedulerState} {m : EmbeddedPoolManager} {id poolId : String}
  {answer : EmbeddedResult Bool}

/-! ## One eviction -/

structure Evicts (s : SchedulerState) (m : EmbeddedPoolManager) (poolId : String)
    (requester : ScheduledPool) (id : String) (r : ScheduledReusable) (victim : ScheduledPool)
    (s' : SchedulerState) : Prop where
  requesterPool : s.pools.lookup poolId = some requester
  retained : s.reusableInstances.lookup id = some r
  idle : r.idle = true
  victimPool : s.pools.lookup r.poolId = some victim
  state : s' = { s with reusableInstances := s.reusableInstances.mapValues fun i x =>
    if i = id then { x with closing := true } else x }
  plugin : s.pluginAllowsAllocation m poolId = .ok false → victim.pluginId = requester.pluginId
  capacity : s.capacityLimited m requester = some (.ok true) → victim.capacityId = requester.capacityId
  poolFloor : victim.pool.policy.minResidentVms ≤ s'.poolIdle r.poolId
  capacityFloor : ∀ c capacity, victim.capacityId = some c → requester.capacityId ≠ some c →
    s.capacities.lookup c = some capacity →
    capacity.config.resources.minResidentVms ≤ s'.capacityIdle c

theorem evictable_eq_true {capacityId : Option String}
    {pluginLimited capacityLimited : Bool} {pool : ScheduledPool}
    (h : s.evictable pluginId capacityId pluginLimited capacityLimited poolId pool = some true) :
    (pluginLimited = true → pool.pluginId = pluginId) ∧
      (capacityLimited = true → pool.capacityId = capacityId) ∧
      pool.pool.policy.minResidentVms < s.poolIdle poolId ∧
      ∀ c, pool.capacityId = some c → capacityId ≠ some c →
        ∃ capacity, s.capacities.lookup c = some capacity ∧
          capacity.config.resources.minResidentVms < s.capacityIdle c := by
  unfold evictable at h
  split at h
  · cases h
  next hdomain =>
    rw [not_or] at hdomain
    split at h
    · cases h
    next hfloor =>
      refine ⟨?_, ?_, not_le.1 hfloor, ?_⟩
      · intro hlimited
        by_contra hne
        exact hdomain.1 ⟨hlimited, hne⟩
      · intro hlimited
        by_contra hne
        exact hdomain.2 ⟨hlimited, hne⟩
      · intro c hc hne
        rw [hc] at h
        dsimp only at h
        split at h
        next heq => exact absurd heq.symm hne
        next =>
          obtain ⟨capacity, hcapacity, h⟩ := bind_eq_some_iff.1 h
          exact ⟨capacity, hcapacity, by simpa using h⟩

theorem victim_eq_some (h : victim f entries = some (some id)) :
    ∃ pool, ⟨id, pool⟩ ∈ entries ∧ f id pool = some true := by
  induction entries with
  | nil => cases h
  | cons e rest ih =>
    obtain ⟨found, hfound, h⟩ := bind_eq_some_iff.1 h
    cases found with
    | true =>
      cases h
      exact ⟨e.2, mem_cons_self, hfound⟩
    | false =>
      obtain ⟨pool, hmem, hpool⟩ := ih h
      exact ⟨pool, mem_cons_of_mem _ hmem, hpool⟩

theorem chosen_one (h : 0 < s.poolIdle poolId) :
    ∃ id r, s.chosen (fun _ r => r.poolId = poolId && r.idle) 1 = [id] ∧
      s.reusableInstances.lookup id = some r ∧ r.poolId = poolId ∧ r.idle = true := by
  have hlength : (s.chosen (fun _ r => r.poolId = poolId && r.idle) 1).length = 1 := by
    rw [length_chosen]
    exact Nat.min_eq_left h
  obtain ⟨id, hid⟩ := length_eq_one_iff.1 hlength
  have hmem : id ∈ s.chosen (fun _ r => r.poolId = poolId && r.idle) 1 := by simp [hid]
  obtain ⟨r, hr, hp⟩ := mem_chosen hmem
  simp only [Bool.and_eq_true, decide_eq_true_eq] at hp
  exact ⟨id, r, hid, hr, hp⟩

theorem reclaim_evicts (h : s.reclaim m poolId = some (s', .ok true)) :
    ∃ requester id r victim, Evicts s m poolId requester id r victim s' := by
  unfold reclaim at h
  cases hrequester : s.pools.lookup poolId with
  | none =>
    rw [hrequester] at h
    cases h
  | some requester =>
    rw [hrequester] at h
    dsimp only at h
    split at h
    · cases h
    next allowed hallowed =>
      obtain ⟨limited, hlimited, h⟩ := bind_eq_some_iff.1 h
      cases limited with
      | error e => cases h
      | ok limited =>
        obtain ⟨found, hfound, h⟩ := bind_eq_some_iff.1 h
        cases found with
        | none => cases h
        | some victimId =>
          cases h
          obtain ⟨pool, hmem, hevictable⟩ := victim_eq_some hfound
          have hpool := AList.mem_entries_iff.1 hmem
          obtain ⟨hplugin, hcapacity, hfloor, hcapacityFloor⟩ := evictable_eq_true hevictable
          obtain ⟨id, r, hchosen, hr, hpoolId, hidle⟩ := chosen_one (Nat.zero_lt_of_lt hfloor)
          have hp : ∀ (i : String) (x : ScheduledReusable),
              (decide (x.poolId = victimId) && x.idle) = true → x.poolId = victimId ∧ x.idle = true := by
            intro i x hx
            simpa using hx
          have hpoolIdle := poolIdle_markClosing (s := s) (n := 1) hp
          have hcapacityIdle := fun c => capacityIdle_markClosing (n := 1) hpool hp (c := c)
          rw [hchosen, length_singleton] at hpoolIdle
          simp only [hchosen, length_singleton] at hcapacityIdle
          subst hpoolId
          refine ⟨requester, id, r, pool, hrequester, hr, hidle, hpool, ?_, ?_, ?_, ?_, ?_⟩
          · rw [markClosing_eq, hchosen]
            simp only [mem_singleton]
          · intro hfalse
            rw [hallowed] at hfalse
            cases hfalse
            exact hplugin rfl
          · intro htrue
            rw [hlimited] at htrue
            cases htrue
            exact hcapacity rfl
          · omega
          · intro c capacity hc hne hlookup
            obtain ⟨capacity', hlookup', hcfloor⟩ := hcapacityFloor c hc hne
            rw [hlookup] at hlookup'
            cases hlookup'
            have hcapacityIdle := hcapacityIdle c hc
            omega

theorem reclaim_eq_or (h : s.reclaim m poolId = some (s', answer)) : answer = .ok true ∨ s' = s := by
  unfold reclaim at h
  cases hrequester : s.pools.lookup poolId with
  | none =>
    rw [hrequester] at h
    cases h
    exact .inr rfl
  | some requester =>
    rw [hrequester] at h
    dsimp only at h
    split at h
    · cases h
      exact .inr rfl
    · obtain ⟨limited, -, h⟩ := bind_eq_some_iff.1 h
      cases limited with
      | error e =>
        cases h
        exact .inr rfl
      | ok limited =>
        obtain ⟨found, -, h⟩ := bind_eq_some_iff.1 h
        cases found with
        | none =>
          cases h
          exact .inr rfl
        | some victimId =>
          cases h
          exact .inl rfl

/-! ## What closes -/

/-- An instance that is closing in `s'` was closing in `s`, is too old or is one of `victims`. -/
def Closes (elapsed : String → Bool) (victims : List String) (s s' : SchedulerState) : Prop :=
  ∀ id r', s'.reusableInstances.lookup id = some r' → r'.closing = true →
    (∃ r, s.reusableInstances.lookup id = some r ∧ r.closing = true) ∨ elapsed id = true ∨ id ∈ victims

variable {elapsed : String → Bool} {victims victims' : List String}

theorem Closes.of_eq (h : s'.reusableInstances = s.reusableInstances) : Closes elapsed victims s s' := by
  intro id r' hr' hclosing
  rw [h] at hr'
  exact .inl ⟨r', hr', hclosing⟩

theorem Closes.trans (h : Closes elapsed victims s s') (h' : Closes elapsed victims' s' s'') :
    Closes elapsed (victims ++ victims') s s'' := by
  intro id r'' hr'' hclosing
  rcases h' id r'' hr'' hclosing with ⟨r', hr', hclosing'⟩ | helapsed | hid
  · rcases h id r' hr' hclosing' with hr | helapsed | hid
    · exact .inl hr
    · exact .inr (.inl helapsed)
    · exact .inr (.inr (mem_append_left _ hid))
  · exact .inr (.inl helapsed)
  · exact .inr (.inr (mem_append_right _ hid))

theorem Closes.imp (h : Closes elapsed victims s s') (himp : ∀ id, elapsed id = true → elapsed' id = true) :
    Closes elapsed' victims s s' := by
  intro id r' hr' hclosing
  rcases h id r' hr' hclosing with hr | helapsed | hid
  · exact .inl hr
  · exact .inr (.inl (himp id helapsed))
  · exact .inr (.inr hid)

/-- A record that is written without closing. -/
theorem Closes.insert (id : String) (r' : ScheduledReusable)
    (hr : r'.closing = true → ∃ r, s.reusableInstances.lookup id = some r ∧ r.closing = true)
    (h : s'.reusableInstances = s.reusableInstances.insert id r') : Closes elapsed victims s s' := by
  intro i x hx hclosing
  rw [h, AList.lookup_insert_eq] at hx
  split at hx
  next hi =>
    cases hx
    rw [hi]
    exact .inl (hr hclosing)
  next => exact .inl ⟨x, hx, hclosing⟩

theorem expire_closes (h : s.expire elapsed poolId = some s') : Closes elapsed [] s s' := by
  obtain ⟨pool, marked, -, hexpires⟩ := expire_expires h
  intro id r' hr' hclosing
  rw [hexpires.state, AList.lookup_mapValues] at hr'
  obtain ⟨r, hr, rfl⟩ := map_eq_some_iff.1 hr'
  split at hclosing
  next hid =>
    obtain ⟨x, -, hx⟩ := hexpires.eligible id hid
    exact .inr (.inl hx.2.2.2.2.1)
  next => exact .inl ⟨r, hr, hclosing⟩

theorem Evicts.closes (h : Evicts s m poolId requester id r pool s') : Closes elapsed [id] s s' := by
  intro i x hx hclosing
  rw [h.state, AList.lookup_mapValues] at hx
  obtain ⟨y, hy, rfl⟩ := map_eq_some_iff.1 hx
  split at hclosing
  next hi => exact .inr (.inr (mem_singleton.2 hi))
  next => exact .inl ⟨y, hy, hclosing⟩

end SchedulerState

namespace SchedulerCenter
open SchedulerState
variable {c c' : SchedulerCenter} {a : DispatchAnswers} {poolId operationId : String} {context : Json}
  {call : ScheduledCall} {pool : ScheduledPool} {reclaimed reclaimed' : Bool}

/-! ## One scan -/

theorem reserveOperation_reusable
    (h : s.reserveOperation pluginId = some s') : s'.reusableInstances = s.reusableInstances := by
  obtain ⟨plugins, -, h⟩ := bind_eq_some_iff.1 h
  cases h
  rfl

theorem prepareNew_closes (h : c.prepareNew poolId operationId context a = some (c', found)) :
    Closes a.elapsed [] c.state c'.state := by
  unfold prepareNew at h
  split at h
  · cases h
    exact .of_eq rfl
  next allowNew _ =>
    obtain ⟨pool, -, h⟩ := bind_eq_some_iff.1 h
    obtain ⟨plugin, -, h⟩ := bind_eq_some_iff.1 h
    obtain ⟨operations, -, h⟩ := bind_eq_some_iff.1 h
    split at h
    · cases h
      exact .of_eq rfl
    · obtain ⟨⟨pools, prepared⟩, -, h⟩ := bind_eq_some_iff.1 h
      cases prepared with
      | error e =>
        cases h
        exact .of_eq rfl
      | ok lease =>
        dsimp only at h
        split at h
        · cases h
          exact .insert _ (newReusable poolId operationId context none) nofun rfl
        · split at h
          · cases h
            exact .of_eq rfl
          next reserved reservation _ =>
            obtain ⟨state, hstate, h⟩ := bind_eq_some_iff.1 h
            cases h
            refine .insert lease.instanceId
              (newReusable poolId operationId context (some reservation)) nofun ?_
            rw [← reserveOperation_reusable hstate]

theorem prepare_closes (h : c.prepare poolId operationId context a allowCached = some (c', found)) :
    Closes a.elapsed [] c.state c'.state := by
  unfold prepare at h
  split at h
  · cases h
    exact .of_eq rfl
  · obtain ⟨state, hexpire, h⟩ := bind_eq_some_iff.1 h
    have hcloses := expire_closes hexpire
    dsimp only at h
    split at h
    next id r lease hidle =>
      cases h
      refine hcloses.trans (.insert id _ ?_ rfl)
      intro hclosing
      have hidle : state.idleInstance poolId = some (id, r, lease) := by
        split at hidle
        · exact hidle
        · cases hidle
      unfold idleInstance at hidle
      split at hidle
      next e he =>
        obtain ⟨lease, -, heq⟩ := map_eq_some_iff.1 hidle
        cases heq
        exact ⟨e.2, AList.mem_entries_iff.1 (mem_of_find?_eq_some he), hclosing⟩
      next => cases hidle
    next => exact hcloses.trans (prepareNew_closes h)

theorem findMachine_closes (h : c.findMachine call pool a allowNew = some (c', found)) :
    Closes a.elapsed [] c.state c'.state := by
  obtain ⟨context, -, h⟩ := bind_eq_some_iff.1 h
  split at h
  · split at h
    · cases h
      exact .of_eq rfl
    · obtain ⟨⟨c'', prepared⟩, hprepare, h⟩ := bind_eq_some_iff.1 h
      have hcloses := prepare_closes hprepare
      cases prepared with
      | error e | ok found =>
        cases h
        exact hcloses
  · obtain ⟨⟨pools, prepared⟩, -, h⟩ := bind_eq_some_iff.1 h
    cases prepared with
    | error e | ok lease =>
      cases h
      exact .of_eq rfl

/-- What a part of a scan closes; an eviction raises the flag of the scan. -/
def Scans (a : DispatchAnswers) (c : SchedulerCenter) (reclaimed : Bool) (c' : SchedulerCenter)
    (reclaimed' : Bool) : Prop :=
  ∃ victims, Closes a.elapsed victims c.state c'.state ∧
    (victims = [] ∧ (reclaimed = true → reclaimed' = true) ∨
      victims.length = 1 ∧ reclaimed = false ∧ reclaimed' = true)

theorem Scans.quiet (h : Closes a.elapsed [] c.state c'.state) : Scans a c reclaimed c' reclaimed :=
  ⟨[], h, .inl ⟨rfl, fun h => h⟩⟩

theorem Scans.refl : Scans a c reclaimed c reclaimed := .quiet (.of_eq rfl)

theorem Scans.trans (h : Scans a c reclaimed c' reclaimed') (h' : Scans a c' reclaimed' c'' reclaimed'') :
    Scans a c reclaimed c'' reclaimed'' := by
  obtain ⟨victims, hcloses, hflag⟩ := h
  obtain ⟨victims', hcloses', hflag'⟩ := h'
  refine ⟨victims ++ victims', hcloses.trans hcloses', ?_⟩
  rcases hflag with ⟨rfl, hkeep⟩ | ⟨hone, hbefore, hafter⟩
  · rcases hflag' with ⟨rfl, hkeep'⟩ | ⟨hone', hbefore', hafter'⟩
    · exact .inl ⟨rfl, fun h => hkeep' (hkeep h)⟩
    · refine .inr ⟨hone', ?_, hafter'⟩
      by_contra hne
      rw [hkeep (by simpa using hne)] at hbefore'
      cases hbefore'
  · rcases hflag' with ⟨rfl, hkeep'⟩ | ⟨-, hbefore', -⟩
    · exact .inr ⟨by simpa using hone, hbefore, hkeep' hafter⟩
    · rw [hafter] at hbefore'
      cases hbefore'

theorem considerMachine_scans (h : c.considerMachine call a reclaimed = some (c', reclaimed', found)) :
    Scans a c reclaimed c' reclaimed' := by
  obtain ⟨pool, -, h⟩ := bind_eq_some_iff.1 h
  split at h
  · cases h
    exact .refl
  · obtain ⟨⟨c'', machine⟩, hfind, h⟩ := bind_eq_some_iff.1 h
    have hcloses := findMachine_closes hfind
    cases machine with
    | error e =>
      cases h
      exact .quiet hcloses
    | ok machine =>
      cases machine with
      | some x =>
        cases h
        exact .quiet hcloses
      | none =>
        dsimp only at h
        split at h
        · cases h
          exact .quiet hcloses
        next hpressure =>
          obtain ⟨⟨state, answer⟩, hreclaim, h⟩ := bind_eq_some_iff.1 h
          cases answer with
          | error e =>
            cases h
            obtain hok | rfl := reclaim_eq_or hreclaim
            · cases hok
            · exact .quiet hcloses
          | ok evicted =>
            cases h
            obtain hok | rfl := reclaim_eq_or hreclaim
            · cases hok
              obtain ⟨requester, id, r, victim, hevicts⟩ := reclaim_evicts hreclaim
              rw [not_or] at hpressure
              exact ⟨[id], hcloses.trans hevicts.closes, .inr ⟨rfl, by simpa using hpressure.1, rfl⟩⟩
            · refine ⟨[], hcloses, .inl ⟨rfl, fun htrue => ?_⟩⟩
              exact absurd (.inl htrue) hpressure

theorem consider_scans (h : c.consider call a reclaimed = some (c', reclaimed', found)) :
    Scans a c reclaimed c' reclaimed' := by
  obtain ⟨slot, -, h⟩ := bind_eq_some_iff.1 h
  cases slot with
  | error e =>
    cases h
    exact .refl
  | ok slot =>
    cases slot with
    | false =>
      cases h
      exact .refl
    | true =>
      dsimp only at h
      split at h
      · obtain ⟨session, -, h⟩ := bind_eq_some_iff.1 h
        cases h
        exact .refl
      · exact considerMachine_scans h

theorem scanQueue_scans (h : scanQueue a queue index visited c reclaimed = some (c', reclaimed', hit)) :
    Scans a c reclaimed c' reclaimed' := by
  induction queue generalizing index visited c reclaimed with
  | nil =>
    cases h
    exact .refl
  | cons call rest ih =>
    unfold scanQueue at h
    split at h
    · exact ih h
    · obtain ⟨⟨c'', flag, found⟩, hconsider, h⟩ := bind_eq_some_iff.1 h
      have hscans := consider_scans hconsider
      cases found with
      | error e =>
        cases h
        exact hscans
      | ok found =>
        cases found with
        | some found =>
          cases h
          exact hscans
        | none => exact hscans.trans (ih h)

theorem scanPlugin_scans (h : scanPlugin a pluginId c reclaimed = some (c', reclaimed', hit)) :
    Scans a c reclaimed c' reclaimed' := by
  obtain ⟨plugin, -, h⟩ := bind_eq_some_iff.1 h
  split at h
  · cases h
    exact .refl
  · obtain ⟨queue, -, h⟩ := bind_eq_some_iff.1 h
    exact scanQueue_scans h

theorem scanRotation_scans {rotation : List String} {hit : EmbeddedResult (Option Hit)}
    (h : scanRotation a rotation index c reclaimed = some (c', hit)) :
    ∃ reclaimed', Scans a c reclaimed c' reclaimed' := by
  induction rotation generalizing index c reclaimed with
  | nil =>
    cases h
    exact ⟨_, .refl⟩
  | cons pluginId rest ih =>
    obtain ⟨⟨c'', flag, found⟩, hplugin, h⟩ := bind_eq_some_iff.1 h
    have hscans := scanPlugin_scans hplugin
    cases found with
    | error e =>
      cases h
      exact ⟨_, hscans⟩
    | ok found =>
      cases found with
      | some found =>
        cases h
        exact ⟨_, hscans⟩
      | none =>
        obtain ⟨reclaimed', hrest⟩ := ih h
        exact ⟨reclaimed', hscans.trans hrest⟩

theorem takeCall_reusable
    (h : s.takeCall pluginId index = some (s', call)) : s'.reusableInstances = s.reusableInstances := by
  simp only [takeCall, Option.bind_eq_bind, Option.bind_eq_some_iff, Option.pure_def] at h
  obtain ⟨_, -, _, -, _, -, _, -, _, -, _, -, _, -, h⟩ := h
  cases h
  rfl

theorem claimSession_reusable (h : claimSession s call = some (s', lease)) :
    s'.reusableInstances = s.reusableInstances := by
  obtain ⟨sessionId, -, h⟩ := bind_eq_some_iff.1 h
  obtain ⟨session, -, h⟩ := bind_eq_some_iff.1 h
  split at h
  · cases h
    rfl
  · cases h
    rfl

theorem addActive_reusable (h : addActive s poolId = some s') :
    s'.reusableInstances = s.reusableInstances := by
  obtain ⟨pools, -, h⟩ := bind_eq_some_iff.1 h
  cases h
  rfl

theorem dispatch_reusable (h : c.dispatch hit = some (c', r)) :
    c'.state.reusableInstances = c.state.reusableInstances := by
  obtain ⟨⟨s, call⟩, htake, h⟩ := bind_eq_some_iff.1 h
  have hs := takeCall_reusable htake
  change s.reusableInstances = c.state.reusableInstances at hs
  dsimp only at h
  split at h
  · cases h
    exact hs
  · obtain ⟨state, hactive, h⟩ := bind_eq_some_iff.1 h
    cases h
    exact (addActive_reusable hactive).trans hs
  · obtain ⟨⟨s', lease⟩, hclaim, h⟩ := bind_eq_some_iff.1 h
    have hs' := (claimSession_reusable hclaim).trans hs
    cases lease with
    | error e =>
      cases h
      exact hs'
    | ok lease =>
      obtain ⟨state, hactive, h⟩ := bind_eq_some_iff.1 h
      cases h
      exact (addActive_reusable hactive).trans hs'

/-- A pass evicts at most one instance. -/
theorem select_closes (h : c.select a = some (c', r)) :
    ∃ victims, victims.length ≤ 1 ∧ Closes a.elapsed victims c.state c'.state := by
  have hscan : ∀ {c'' reclaimed'}, Scans a c false c'' reclaimed' →
      ∃ victims, victims.length ≤ 1 ∧ Closes a.elapsed victims c.state c''.state := by
    rintro c'' reclaimed' ⟨victims, hcloses, ⟨rfl, -⟩ | ⟨hone, -⟩⟩
    · exact ⟨[], Nat.zero_le _, hcloses⟩
    · exact ⟨victims, hone.le, hcloses⟩
  obtain ⟨⟨c'', hit⟩, hrotation, h⟩ := bind_eq_some_iff.1 h
  obtain ⟨reclaimed', hscans⟩ := scanRotation_scans hrotation
  obtain ⟨victims, hone, hcloses⟩ := hscan hscans
  refine ⟨victims, hone, ?_⟩
  cases hit with
  | error e =>
    cases h
    exact hcloses
  | ok hit =>
    cases hit with
    | none =>
      cases h
      exact hcloses
    | some hit =>
      obtain ⟨⟨c₃, dispatched⟩, hdispatch, h⟩ := bind_eq_some_iff.1 h
      have hsame : Closes a.elapsed [] c''.state c₃.state := .of_eq (dispatch_reusable hdispatch)
      have hall := hcloses.trans hsame
      rw [append_nil] at hall
      cases dispatched with
      | error e | ok dispatch =>
        cases h
        exact hall

end SchedulerCenter

namespace SchedulerWorld
open SchedulerState
variable {w w' : SchedulerWorld} {i : ℕ} {a : DispatchAnswers}

/-! ## Passes of the executors -/

theorem takeWork_closes (h : w.takeWork i a = some w') :
    ∃ victims, victims.length ≤ 1 ∧ Closes a.elapsed victims w.center.state w'.center.state := by
  have hsame : w'.center.state.reusableInstances = w.center.state.reusableInstances →
      ∃ victims, victims.length ≤ 1 ∧ Closes a.elapsed victims w.center.state w'.center.state :=
    fun h => ⟨[], Nat.zero_le _, .of_eq h⟩
  unfold takeWork at h
  dsimp only at h
  split at h
  · split at h
    · split at h
      · cases h
        exact hsame rfl
      · split at h
        · cases h
          exact hsame rfl
        · obtain ⟨⟨c, r⟩, hselect, h⟩ := bind_eq_some_iff.1 h
          have hcloses := SchedulerCenter.select_closes hselect
          cases r with
          | error e =>
            cases h
            exact hcloses
          | ok found =>
            cases found with
            | none =>
              cases h
              exact hcloses
            | some dispatch =>
              cases dispatch with
              | ready call lease | rejected call error =>
                cases h
                exact hcloses
    · cases h
      exact hsame rfl
  · cases h
    exact hsame rfl

/-- Looks for work by any executors, one after the other. -/
def takeWorks (w : SchedulerWorld) : List (ℕ × DispatchAnswers) → Option SchedulerWorld
  | [] => some w
  | x :: rest => (w.takeWork x.1 x.2).bind fun w => takeWorks w rest

theorem takeWorks_closes (h : w.takeWorks passes = some w') : ∃ victims, victims.length ≤ passes.length ∧
      Closes (fun id => passes.any fun x => x.2.elapsed id) victims w.center.state w'.center.state := by
  induction passes generalizing w with
  | nil =>
    cases h
    exact ⟨[], le_rfl, .of_eq rfl⟩
  | cons x rest ih =>
    obtain ⟨middle, htake, h⟩ := bind_eq_some_iff.1 h
    obtain ⟨victims, hone, hcloses⟩ := takeWork_closes htake
    obtain ⟨victims', hrest, hcloses'⟩ := ih h
    refine ⟨victims ++ victims', ?_, ?_⟩
    · rw [length_append, length_cons]
      omega
    · refine (hcloses.imp ?_).trans (hcloses'.imp ?_)
      · intro id helapsed
        rw [any_cons, helapsed, Bool.true_or]
      · intro id helapsed
        rw [any_cons, helapsed, Bool.or_true]

/-- An instance that closes during a sequence of passes was too old or is the victim of a pass, and
there are no more victims than passes. -/
theorem pressure_per_pass (w : SchedulerWorld) (passes : List (ℕ × DispatchAnswers)) :
    ∀ w', w.takeWorks passes = some w' → ∃ victims : List String, victims.length ≤ passes.length ∧
      ∀ id r', w'.center.state.reusableInstances.lookup id = some r' → r'.closing = true →
        (∃ r, w.center.state.reusableInstances.lookup id = some r ∧ r.closing = true) ∨
          (passes.any fun x => x.2.elapsed id) = true ∨ id ∈ victims :=
  fun _ => takeWorks_closes

/-! ## Two passes before a retirement -/

def twoMachines : EmbeddedPluginConfig where
  maxRegisteredPools := 2
  maxSessions := 1
  maxResidentVms := 2
  maxRunningCalls := 2
  maxQueuedCalls := 4
  maxQueuedBytes := 64
  maxOperations := 8

def agreed : Answers := ⟨.ok (), .ok (), 1, .ok (), .ok (), .ok (), []⟩

def unhurried : DispatchAnswers := ⟨fun _ => .ok (), fun _ => false, .ok (), fun _ => []⟩

/-- One machine is built for the warm pool and becomes idle. -/
def warmUp : List SchedulerAction :=
  let built : WorkerAnswers := ⟨.ok .null, false, .ok ()⟩
  let settled : SchedulerCenter.CompletionAnswers :=
    ⟨.ok none, .ok true, .ok (), none, .ok true, .ok (), true⟩
  [.prewarmInstance "r:pool:1" .null agreed, .takeWork 0 unhurried] ++
    replicate 7 (.work 0 built) ++
    [.detach, .complete 0 settled, .complete 0 settled, .reattach]

/-- Two warm machines fill the plugin, and a call of its other pool waits. -/
def pressed : List SchedulerAction :=
  let policy : PluginPoolConfig := { PluginPoolConfig.dedicated with minResidentVms := 0 }
  [.registerPlugin "p" twoMachines agreed,
    .registerPool "p" policy none ["f"] none agreed,
    .registerPool "p" { policy with reuse := .singleCall } none ["f"] none agreed] ++
    warmUp ++ warmUp ++ [.submit ⟨"r:pool:2", "f", .null, .null⟩ agreed]

/-- The queued calls, the closing instances and the machines on their way to retirement. -/
def pressure (w : SchedulerWorld) : ℕ × ℕ × ℕ :=
  (w.center.state.queued, w.center.state.reusableInstances.countBy (·.closing),
    w.center.pools.retirement.length + w.center.pools.destroyed.length + w.center.pools.completed.length)

theorem pressed_passes : (SchedulerWorld.run "r" .small pressed).map
      (fun w => (w.pressure, (w.takeWorks [(0, unhurried), (1, unhurried)]).map pressure)) =
    some ((1, 0, 0), some (1, 2, 0)) := by decide +kernel

/-- One request waits, no instance is old, no machine retires, and two executors evict one each. -/
theorem two_evictions_for_one_request : ∃ w w', SchedulerWorld.run "r" .small pressed = some w ∧
    w.takeWorks [(0, unhurried), (1, unhurried)] = some w' ∧ w.pressure = (1, 0, 0) ∧
      w'.pressure = (1, 2, 0) := by
  obtain ⟨w, hrun, hw⟩ := map_eq_some_iff.1 pressed_passes
  obtain ⟨w', hpasses, hw'⟩ := map_eq_some_iff.1 (congrArg Prod.snd hw)
  exact ⟨w, w', hrun, hpasses, congrArg Prod.fst hw, hw'⟩

theorem pressure_per_pass_pressed : ∃ w w', SchedulerWorld.run "r" .small pressed = some w ∧
    w.takeWorks [(0, unhurried), (1, unhurried)] = some w' ∧
    ∃ victims : List String, victims.length ≤ 2 ∧
      ∀ id r', w'.center.state.reusableInstances.lookup id = some r' → r'.closing = true →
        (∃ r, w.center.state.reusableInstances.lookup id = some r ∧ r.closing = true) ∨
          ([(0, unhurried), (1, unhurried)].any fun x => x.2.elapsed id) = true ∨ id ∈ victims := by
  obtain ⟨w, hrun, hw⟩ := map_eq_some_iff.1 pressed_passes
  obtain ⟨w', hpasses, -⟩ := map_eq_some_iff.1 (congrArg Prod.snd hw)
  exact ⟨w, w', hrun, hpasses, pressure_per_pass w _ w' hpasses⟩

end SchedulerWorld

end LuaSkills.Embedded.Scheduler
