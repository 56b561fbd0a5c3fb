import LuaSkills.SkillConfig.Runs

/-!
# Configuration events of one engine

An engine owns one store of the file (`own`); the other stores belong to other engines. What its
store calls return is turned into events and published to a bounded queue, after the store has
returned and in a section of its own, so a change can be cached before its event is visible.
`Engine.published` keeps every event that was ever accepted by the queue.
-/

namespace LuaSkills.SkillConfig

open Function List Option World

variable {w : World} {pending : List (List Announcement)} {cached : SkillConfigSnapshot} {write : WriteCall}
  {revision : UInt64}

/-! ## Events -/

structure RuntimeSkillConfigEvent where
  sequence : String
  eventType : String
  storeScope : String
  skillId : Option String
  revision : String
  changedKeys : List String
  source : String
  restartRequiredKeys : List String
  complete : Option Bool
  error : Option (String × String)

/-- A change event of the scope that names the key of the package. -/
def RuntimeSkillConfigEvent.Names (event : RuntimeSkillConfigEvent) (scope skillId key : String) :
    Prop :=
  event.eventType = "skill_config_changed" ∧ event.storeScope = scope ∧
    event.skillId = some skillId ∧ key ∈ event.changedKeys

inductive Announcement where
  | localChange (skillId : String) (revision : UInt64) (changedKeys : List String)
  | externalChange (skillId : String) (revision : UInt64) (changedKeys : List String)
  | reloadFailed (message : String)

def Announcement.Names (skillId key : String) : Announcement → Prop
  | .localChange id _ keys | .externalChange id _ keys => id = skillId ∧ key ∈ keys
  | .reloadFailed _ => False

/-- The code in front of the first colon, if it is one of the configuration codes. -/
def reloadErrorCode (message : String) : String :=
  let code := message.toList.takeWhile (· ≠ ':')
  if ':' ∈ message.toList ∧ "CONFIG_".toList.isPrefixOf code then String.ofList code
  else "CONFIG_RELOAD_FAILED"

/-- What the service reads while it builds a local event: the declarations of the package, each with
its restart flag, and whether the package is complete. -/
structure PackageView where
  declarations : List (String × Bool)
  complete : Bool

/-- The event of an announcement; `cachedRevision` is that of the store. -/
def Announcement.event (scope : String) (package : PackageView) (cachedRevision : UInt64) :
    Announcement → RuntimeSkillConfigEvent
  | .localChange skillId revision changedKeys =>
    { sequence := "", eventType := "skill_config_changed", storeScope := scope
      skillId := some skillId, revision := revisionText revision, changedKeys
      source := "local_write"
      restartRequiredKeys := (package.declarations.filter fun declaration =>
        declaration.2 && changedKeys.contains declaration.1).map Prod.fst
      complete := some package.complete, error := none }
  | .externalChange skillId revision changedKeys =>
    { sequence := "", eventType := "skill_config_changed", storeScope := scope
      skillId := some skillId, revision := revisionText revision, changedKeys
      source := "external_reload", restartRequiredKeys := [], complete := none, error := none }
  | .reloadFailed message =>
    { sequence := "", eventType := "skill_config_reload_failed", storeScope := scope
      skillId := none, revision := revisionText cachedRevision, changedKeys := []
      source := "external_reload", restartRequiredKeys := [], complete := none
      error := some (reloadErrorCode message, message) }

def WriteOutcome.announcements (outcome : WriteOutcome) : List Announcement :=
  if outcome.changed then [.localChange outcome.request.skillId outcome.revision outcome.changedKeys]
  else []

def refreshAnnouncements : ConfigResult SkillConfigRefreshResult → List Announcement
  | .ok result =>
    if result.changed then
      result.changes.map fun change => .externalChange change.1 result.revision change.2
    else []
  | .error message => [.reloadFailed message]

/-! ## The queue -/

def skillConfigEventQueueCapacity : ℕ := 4096

structure SkillConfigEventQueue where
  nextSequence : UInt64
  events : List RuntimeSkillConfigEvent

/-- Appends an event; once the sequence is exhausted events are no longer accepted. -/
def SkillConfigEventQueue.publish (queue : SkillConfigEventQueue) (event : RuntimeSkillConfigEvent) :
    SkillConfigEventQueue × Option RuntimeSkillConfigEvent :=
  if queue.nextSequence.toNat + 1 = 2 ^ 64 then (queue, none)
  else
    let sequence := queue.nextSequence + 1
    let event := { event with sequence := revisionText sequence }
    let events := queue.events ++ [event]
    ({ nextSequence := sequence
       events := events.drop (events.length - skillConfigEventQueueCapacity) }, some event)

/-! ## The engine -/

structure Engine where
  config : World
  /-- The announcements of each call that is about to publish. -/
  pending : List (List Announcement)
  queue : SkillConfigEventQueue
  published : List RuntimeSkillConfigEvent

inductive EngineAct where
  /-- A step of any store of the file. -/
  | config (a : Act)
  /-- The next announcement of one of the calls is published. -/
  | publish (call : ℕ) (package : PackageView)
  /-- An event of another scope is published. -/
  | other (event : RuntimeSkillConfigEvent)

/-- The steps that start or end the lifetime of a store. -/
def Act.replaces (own : StoreId) : Act → Bool
  | .create i | .drop i => i = own
  | _ => false

namespace Engine
variable (linked : Linked) (path scope : String) (own : StoreId) (e : Engine)

/-- The announcements of a store event, if it is a return of the engine's own store. -/
def announced : List Event → List (List Announcement)
  | .wrote _ i outcome :: _ => if i = own then [outcome.announcements] else []
  | .refreshed i result :: _ => if i = own then [refreshAnnouncements result] else []
  | _ => []

def logged (before after : World) : List Event := after.log.take (after.log.length - before.log.length)

def accept (event : RuntimeSkillConfigEvent) (pending : List (List Announcement)) : Engine :=
  let result := e.queue.publish event
  { e with pending, queue := result.1, published := result.2.toList ++ e.published }

def step : EngineAct → Option Engine
  | .config a =>
    if a.replaces own then none
    else (e.config.step linked path a).map fun config =>
      { e with config, pending := announced own (logged e.config config) ++ e.pending }
  | .publish call package =>
    match e.pending[call]?, e.config.stores own with
    | some (announcement :: rest), some store =>
      some (e.accept (announcement.event scope package store.snapshot.document.revision)
        (e.pending.set call rest))
    | _, _ => none
  | .other event =>
    if event.storeScope = scope then none else some (e.accept event e.pending)

end Engine

/-! ## Complete differences -/

/-- The comparison of two documents lists every value that differs. -/
theorem mem_changedSkillConfigKeys {before after : SkillConfigDocument}
    (h : before.value skillId key ≠ after.value skillId key) :
    ∃ keys, (skillId, keys) ∈ changedSkillConfigKeys before after ∧ key ∈ keys := by
  have hvalue : ∀ d : SkillConfigDocument, d.value skillId key ≠ none →
      skillId ∈ d.skills.keys ∧ key ∈ ((d.skills.lookup skillId).getD ∅).keys := by
    intro d hd
    simp only [SkillConfigDocument.value] at hd
    cases hlookup : d.skills.lookup skillId with
    | none => simp [hlookup] at hd
    | some package =>
      rw [hlookup, bind_some] at hd
      exact ⟨SortedMap.mem_keys.2 ⟨package, hlookup⟩,
        SortedMap.mem_keys.2 (ne_none_iff_exists'.1 hd)⟩
  have hmem : (skillId ∈ before.skills.keys ∨ skillId ∈ after.skills.keys) ∧
      (key ∈ ((before.skills.lookup skillId).getD ∅).keys ∨
        key ∈ ((after.skills.lookup skillId).getD ∅).keys) := by
    by_cases hnone : before.value skillId key = none
    · obtain ⟨hid, hkey⟩ := hvalue after fun hafter => h (hnone.trans hafter.symm)
      exact ⟨Or.inr hid, Or.inr hkey⟩
    · obtain ⟨hid, hkey⟩ := hvalue before hnone
      exact ⟨Or.inl hid, Or.inl hkey⟩
  have hkey : key ∈ (SortedMap.keySet (((before.skills.lookup skillId).getD ∅).keys ++
      ((after.skills.lookup skillId).getD ∅).keys)).filter fun key =>
        before.value skillId key ≠ after.value skillId key := by
    refine mem_filter.2 ⟨SortedMap.mem_keySet.2 (mem_append.2 hmem.2), ?_⟩
    exact decide_eq_true h
  refine ⟨_, ?_, hkey⟩
  simp only [changedSkillConfigKeys]
  refine mem_filter.2 ⟨mem_map.2 ⟨skillId, ?_, rfl⟩, ?_⟩
  · exact SortedMap.mem_keySet.2 (mem_append.2 hmem.1)
  · exact decide_eq_true (ne_nil_of_mem hkey)

/-! ## Steps -/

section
variable {linked : Linked} {path scope : String} {own : StoreId} {e e' : Engine}
  {skillId key : String}

/-- The value of a key in the cache of the engine's store. -/
def Engine.cachedValue (own : StoreId) (e : Engine) (skillId key : String) : Option String :=
  (e.config.stores own).bind fun store => store.snapshot.document.value skillId key

/-- The key is named by an event that a call of the engine is about to publish. -/
def Engine.InFlight (own : StoreId) (e : Engine) (skillId key : String) : Prop :=
  (∃ announcements ∈ e.pending, ∃ announcement ∈ announcements, announcement.Names skillId key) ∨
    ∃ cached write outcome, e.config.stores own = some ⟨cached, .installed write outcome⟩ ∧
      skillId = outcome.request.skillId ∧ key ∈ outcome.changedKeys

def Engine.Reported (own : StoreId) (e : Engine) : Prop :=
  ∀ cached write snapshot outcome,
    e.config.stores own = some ⟨cached, .committed write snapshot outcome⟩ →
    ∀ skillId key, cached.document.value skillId key ≠ snapshot.document.value skillId key →
      skillId = outcome.request.skillId ∧ key ∈ outcome.changedKeys

/-- The condition on a step: a write of the engine's store that commits does so only where the cache
differs from the file in nothing but keys that the write itself changes, and the event sequence is not
exhausted when an event is published. -/
def Engine.Meets (linked : Linked) (path : String) (own : StoreId) (e : Engine) : EngineAct → Prop
  | .config (.commit i io) => i = own → ∀ cached write disk,
    e.config.stores own = some ⟨cached, .loaded write disk⟩ →
    (transact linked path write disk io).isOk = true → ∀ skillId key,
      cached.document.value skillId key ≠ disk.document.value skillId key →
      write.request.Changes disk.document skillId key
  | .config _ | .other _ => True
  | .publish _ _ => e.queue.nextSequence.toNat + 1 ≠ 2 ^ 64

theorem Engine.logged_cons {w' : World} {event : Event} (h : w'.log = event :: w.log) :
    Engine.logged w w' = [event] := by
  simp [Engine.logged, h]

structure Engine.Progress (scope : String) (own : StoreId) (e e' : Engine) : Prop where
  reported : e.Reported own → e'.Reported own
  cached : ∀ skillId key, e.Reported own →
    e.cachedValue own skillId key ≠ e'.cachedValue own skillId key → e'.InFlight own skillId key
  kept : ∀ skillId key, e.InFlight own skillId key → e'.InFlight own skillId key ∨
    ∃ event, e'.published = event :: e.published ∧ event.Names scope skillId key
  published : ∃ newer, e'.published = newer ++ e.published

theorem Engine.inFlight_mono
    (hpending : e.pending ⊆ pending) (hstore : w.stores own = e.config.stores own)
    (h : e.InFlight own skillId key) :
    Engine.InFlight own { e with config := w, pending } skillId key := by
  rcases h with ⟨announcements, hmem, hnames⟩ | ⟨cached, write, outcome, hself, hnamed⟩
  · exact Or.inl ⟨announcements, hpending hmem, hnames⟩
  · exact Or.inr ⟨cached, write, outcome, hstore.trans hself, hnamed⟩

theorem Engine.Progress.other
    (hpending : e.pending ⊆ pending) (hstore : w.stores own = e.config.stores own) :
    Engine.Progress scope own e { e with config := w, pending } where
  reported h := by
    intro cached write snapshot outcome hself
    exact h cached write snapshot outcome (hstore.symm.trans hself)
  cached skillId key _ hne := absurd (by simp only [Engine.cachedValue, hstore]) hne
  kept skillId key h := Or.inl (Engine.inFlight_mono hpending hstore h)
  published := ⟨[], rfl⟩

/-- A step of the engine's store that leaves its cache as it is and is not the return of a write. -/
theorem Engine.Progress.same (hpending : e.pending ⊆ pending)
    (hold : e.config.stores own = some ⟨cached, phase⟩) (hnew : w.stores own = some ⟨cached, phase'⟩)
    (hinstalled : ∀ write outcome, phase ≠ .installed write outcome)
    (hcommitted : ∀ write snapshot outcome, phase' = .committed write snapshot outcome →
      ∀ skillId key, cached.document.value skillId key ≠ snapshot.document.value skillId key →
        skillId = outcome.request.skillId ∧ key ∈ outcome.changedKeys) :
    Engine.Progress scope own e { e with config := w, pending } where
  reported _ := by
    intro cached' write snapshot outcome hself
    rw [hnew] at hself
    cases hself
    exact hcommitted write snapshot outcome rfl
  cached skillId key _ hne := absurd (by rw [Engine.cachedValue, Engine.cachedValue, hold, hnew]; rfl) hne
  kept skillId key h := by
    rcases h with ⟨announcements, hmem, hnames⟩ | ⟨cached', write, outcome, hself, -⟩
    · exact Or.inl (Or.inl ⟨announcements, hpending hmem, hnames⟩)
    · rw [hold] at hself
      cases hself
      exact absurd rfl (hinstalled write outcome)
  published := ⟨[], rfl⟩

/-- The values a committed write changes in the cache are among the keys it reports, when the cache
differed from the file in those keys only. -/
theorem reported_of_apply {disk : SkillConfigSnapshot} {document : SkillConfigDocument} {keys : List String}
    (happly : write.request.apply disk.document = .ok (document, keys)) (hmeets : ∀ skillId key,
      cached.document.value skillId key ≠ disk.document.value skillId key →
      write.request.Changes disk.document skillId key) (hne : cached.document.value skillId key ≠
      ({ document with revision } : SkillConfigDocument).value skillId key) :
    skillId = write.request.skillId ∧ key ∈ keys := by
  by_contra hother
  have hkept : document.value skillId key = disk.document.value skillId key :=
    apply_value happly hother
  refine hother ((apply_keys happly).2 (hmeets skillId key fun heq => hne ?_))
  exact heq.trans hkept.symm

/-- The engine's store caches what its write has committed. -/
theorem Engine.Progress.install
    (hi : e.config.stores own = some ⟨cached, .committed write snapshot outcome⟩) :
    Engine.Progress scope own e
      { e with config := e.config.install own write snapshot outcome, pending := pending ++ e.pending } where
  reported _ := by
    intro cached' write' snapshot' outcome' hself
    simp [World.install, World.setStore] at hself
  cached skillId key hreported hne := by
    refine Or.inr ⟨snapshot, write, outcome, update_self .., ?_⟩
    refine hreported cached write snapshot outcome hi skillId key fun heq => hne ?_
    simp only [Engine.cachedValue, hi, bind_some, World.install, World.setStore,
      update_self]
    exact heq
  kept skillId key h := by
    rcases h with ⟨announcements, hmem, hnames⟩ | ⟨cached', write', outcome', hself, -⟩
    · exact Or.inl (Or.inl ⟨announcements, mem_append_right _ hmem, hnames⟩)
    · rw [hi] at hself
      cases hself
  published := ⟨[], rfl⟩

/-- The engine's write returns; what it changed is announced. -/
theorem Engine.Progress.finish (hi : e.config.stores own = some ⟨cached, .installed write outcome⟩) :
    Engine.Progress scope own e
      { e with
        config := e.config.finish own ⟨cached, .installed write outcome⟩ write outcome
        pending := Engine.announced own (Engine.logged e.config
          (e.config.finish own ⟨cached, .installed write outcome⟩ write outcome)) ++ e.pending } where
  reported _ := by
    intro cached' write' snapshot' outcome' hself
    simp [World.finish, World.setStore] at hself
  cached skillId key _ hne := by
    refine absurd ?_ hne
    simp only [Engine.cachedValue, hi, World.finish, World.setStore, update_self,
      bind_some]
  kept skillId key h := by
    left
    left
    rcases h with ⟨announcements, hmem, hnames⟩ | ⟨cached', write', outcome', hself, hid, hkey⟩
    · exact ⟨announcements, mem_append_right _ hmem, hnames⟩
    · rw [hi] at hself
      cases hself
      have hlogged : Engine.logged e.config
          (e.config.finish own ⟨cached, .installed write outcome⟩ write outcome) =
          [.wrote write.call own outcome] := Engine.logged_cons rfl
      have hchanged : outcome.changed = true := decide_eq_true (ne_nil_of_mem hkey)
      refine ⟨outcome.announcements, mem_append_left _ ?_,
        .localChange outcome.request.skillId outcome.revision outcome.changedKeys, ?_, hid.symm, hkey⟩
      · simp [hlogged, Engine.announced]
      · simp [WriteOutcome.announcements, hchanged]
  published := ⟨[], rfl⟩

/-- The engine's refresh replaces the cache; every difference is announced. -/
theorem Engine.Progress.replaceCache (hi : e.config.stores own = some ⟨cached, .candidate snapshot⟩) :
    Engine.Progress scope own e
      { e with
        config := e.config.endRefresh own snapshot (.ok ⟨snapshot.document.revision, true,
          changedSkillConfigKeys cached.document snapshot.document⟩)
        pending := Engine.announced own (Engine.logged e.config
          (e.config.endRefresh own snapshot (.ok ⟨snapshot.document.revision, true,
            changedSkillConfigKeys cached.document snapshot.document⟩))) ++ e.pending } where
  reported _ := by
    intro cached' write' snapshot' outcome' hself
    simp [endRefresh, setStore] at hself
  cached skillId key _ hne := by
    have hvalue : cached.document.value skillId key ≠ snapshot.document.value skillId key := by
      intro heq
      refine hne ?_
      simp only [Engine.cachedValue, hi, bind_some, endRefresh, setStore,
        update_self]
      exact heq
    obtain ⟨keys, hmem, hkey⟩ := mem_changedSkillConfigKeys hvalue
    have hlogged : Engine.logged e.config (e.config.endRefresh own snapshot
        (.ok ⟨snapshot.document.revision, true,
          changedSkillConfigKeys cached.document snapshot.document⟩)) =
        [.refreshed own (.ok ⟨snapshot.document.revision, true,
          changedSkillConfigKeys cached.document snapshot.document⟩)] := Engine.logged_cons rfl
    refine Or.inl ⟨(changedSkillConfigKeys cached.document snapshot.document).map fun change =>
        .externalChange change.1 snapshot.document.revision change.2, mem_append_left _ ?_,
      .externalChange skillId snapshot.document.revision keys,
      mem_map.2 ⟨(skillId, keys), hmem, rfl⟩, rfl, hkey⟩
    simp [hlogged, Engine.announced, refreshAnnouncements]
  kept skillId key h := by
    rcases h with ⟨announcements, hmem, hnames⟩ | ⟨cached', write', outcome', hself, -⟩
    · exact Or.inl (Or.inl ⟨announcements, mem_append_right _ hmem, hnames⟩)
    · rw [hi] at hself
      cases hself
  published := ⟨[], rfl⟩

theorem Engine.Progress.config (h : Move linked path e.config a w) (hreplaces : a.replaces own = false)
    (hmeets : e.Meets linked path own (.config a)) : Engine.Progress scope own e
      { e with config := w, pending := Engine.announced own (Engine.logged e.config w) ++ e.pending } := by
  have hpending : e.pending ⊆ Engine.announced own (Engine.logged e.config w) ++ e.pending :=
    subset_append_right _ _
  by_cases hself : own = a.store
  · subst hself
    cases h with
    | create | drop => simp [Act.replaces, Act.store] at hreplaces
    | begin hi | refuse hi | acquire hi | load hi | refresh hi | reload hi =>
      exact .same hpending hi (update_self ..) (fun _ _ h => nomatch h)
        (fun _ _ _ h => nomatch h)
    | @fail i cached phase write message a ha hi hfailing =>
      subst ha
      refine .same hpending hi (update_self ..) (fun write outcome hphase => ?_)
        (fun _ _ _ h => nomatch h)
      subst hphase
      cases hfailing
    | @endRefresh i cached phase result a ha hi hphase =>
      subst ha
      refine .same hpending hi (update_self ..) (fun write outcome heq => ?_)
        (fun _ _ _ h => nomatch h)
      subst heq
      rcases hphase with h | ⟨_, h⟩ <;> cases h
    | @keep i cached write disk document io hi happly =>
      refine .same hpending hi (update_self ..) (fun _ _ h => nomatch h) ?_
      rintro _ _ _ ⟨⟩ skillId key hne
      have hcommits : (transact linked path write disk io).isOk = true := by
        simp [transact, happly, Except.ok_bind]
        rfl
      exact reported_of_apply happly (hmeets rfl cached write disk hi hcommits) hne
    | @replace i cached write disk document keys revision io bytes hi happly hkeys hrevision hwrite =>
      refine .same hpending hi (update_self ..) (fun _ _ h => nomatch h) ?_
      rintro _ _ _ ⟨⟩ skillId key hne
      have hcommits : (transact linked path write disk io).isOk = true := by
        simp only [transact, happly, Except.ok_bind, if_neg hkeys, hrevision, hwrite]
        rfl
      exact reported_of_apply happly (hmeets rfl cached write disk hi hcommits) hne
    | install hi => exact .install hi
    | finish hi => exact .finish hi
    | replaceCache hi => exact .replaceCache hi
  · exact .other hpending (h.other hself)

theorem Announcement.event_names {announcement : Announcement} {package : PackageView}
    {sequence : String} (h : announcement.Names skillId key) :
    RuntimeSkillConfigEvent.Names { announcement.event scope package revision with sequence }
      scope skillId key := by
  cases announcement with
  | localChange id r keys | externalChange id r keys =>
    exact ⟨rfl, rfl, congrArg some h.1, h.2⟩
  | reloadFailed message => exact h.elim

/-- Publication accepts the event while sequence numbers last. -/
theorem SkillConfigEventQueue.publish_of_ne {queue : SkillConfigEventQueue}
    (h : queue.nextSequence.toNat + 1 ≠ 2 ^ 64) : (queue.publish event).2 =
      some { event with sequence := revisionText (queue.nextSequence + 1) } := by
  rw [SkillConfigEventQueue.publish, if_neg h]

theorem Engine.Progress.publish {announcement : Announcement}
    (hcall : e.pending[call]? = some (announcement :: rest))
    (hsequence : e.queue.nextSequence.toNat + 1 ≠ 2 ^ 64) : Engine.Progress scope own e
      (e.accept (announcement.event scope package revision) (e.pending.set call rest)) where
  reported h := h
  cached skillId key _ hne := absurd rfl hne
  kept skillId key h := by
    have hpublished : (e.accept (announcement.event scope package revision)
        (e.pending.set call rest)).published =
        { announcement.event scope package revision with
          sequence := revisionText (e.queue.nextSequence + 1) } :: e.published := by
      simp only [Engine.accept, SkillConfigEventQueue.publish_of_ne hsequence, toList_some,
        singleton_append]
    rcases h with ⟨announcements, hmem, named, hnamed, hnames⟩ | hinstalled
    · obtain ⟨j, hj⟩ := mem_iff_getElem?.1 hmem
      by_cases hjc : j = call
      · subst hjc
        rw [hcall] at hj
        cases hj
        rcases mem_cons.1 hnamed with rfl | hrest
        · exact Or.inr ⟨_, hpublished, Announcement.event_names hnames⟩
        · refine Or.inl (Or.inl ⟨rest, ?_, named, hrest, hnames⟩)
          refine mem_iff_getElem?.2 ⟨j, ?_⟩
          change (e.pending.set j rest)[j]? = _
          rw [List.getElem?_set_self (List.getElem?_eq_some_iff.1 hcall).1]
      · refine Or.inl (Or.inl ⟨announcements, ?_, named, hnamed, hnames⟩)
        refine mem_iff_getElem?.2 ⟨j, ?_⟩
        change (e.pending.set call rest)[j]? = _
        rw [getElem?_set_ne (Ne.symm hjc), hj]
    · exact Or.inl (Or.inr hinstalled)
  published := ⟨_, rfl⟩

theorem Engine.step_progress (h : e.step linked path scope own a = some e')
    (hmeets : e.Meets linked path own a) : Engine.Progress scope own e e' := by
  cases a with
  | config a =>
    simp only [Engine.step] at h
    split at h
    · cases h
    · next hreplaces =>
      obtain ⟨w, hstep, rfl⟩ := map_eq_some_iff.1 h
      exact .config (step_move hstep) (Bool.not_eq_true _ ▸ hreplaces) hmeets
  | publish call package =>
    simp only [Engine.step] at h
    split at h
    · next hcall hself =>
      cases h
      exact .publish hcall hmeets
    · cases h
  | other event =>
    simp only [Engine.step] at h
    split at h
    · cases h
    · cases h
      exact ⟨fun h => h, fun _ _ _ hne => absurd rfl hne, fun _ _ h => Or.inl h, ⟨_, rfl⟩⟩

/-! ## Runs -/

/-- The engines reached by steps that satisfy `P`. -/
inductive EngineReaches (linked : Linked) (path scope : String) (own : StoreId)
    (P : Engine → EngineAct → Prop) (e : Engine) : Engine → Prop
  | refl : EngineReaches linked path scope own P e e
  | step {e₁ e₂ : Engine} {a : EngineAct} : EngineReaches linked path scope own P e e₁ → P e₁ a →
      e₁.step linked path scope own a = some e₂ → EngineReaches linked path scope own P e e₂

/-- The service has just been created on a file that other stores may be using. -/
structure Engine.Started (linked : Linked) (path : String) (own : StoreId) (e : Engine) : Prop where
  config : ∃ disk₀, Reaches linked path (.initial disk₀) e.config
  store : ∃ snapshot, e.config.stores own = some ⟨snapshot, .idle⟩
  pending : e.pending = []
  queue : e.queue = ⟨0, []⟩
  published : e.published = []

theorem Engine.reported_of_reaches {e₀ : Engine} (hstart : e₀.Started linked path own)
    (h : EngineReaches linked path scope own (Engine.Meets linked path own) e₀ e) : e.Reported own := by
  induction h with
  | refl =>
    intro cached write snapshot outcome hself
    obtain ⟨s, hs⟩ := hstart.store
    rw [hs] at hself
    cases hself
  | step _ hmeets hstep ih => exact (Engine.step_progress hstep hmeets).reported ih

/-- In a run whose steps all meet the condition, every value that changes in the cache is named by
an event that has been published since, or that a call is about to publish. -/
theorem cached_changes_announced {e₀ : Engine} (hstart : e₀.Started linked path own)
    (h : EngineReaches linked path scope own (Engine.Meets linked path own) e₀ e)
    (h' : EngineReaches linked path scope own (Engine.Meets linked path own) e e') :
    ∃ newer, e'.published = newer ++ e.published ∧ ∀ skillId key,
      e.cachedValue own skillId key ≠ e'.cachedValue own skillId key →
      (∃ event ∈ newer, event.Names scope skillId key) ∨ e'.InFlight own skillId key := by
  have hreported := Engine.reported_of_reaches hstart h
  suffices hall : e'.Reported own ∧ ∃ newer, e'.published = newer ++ e.published ∧
      ∀ skillId key, e.cachedValue own skillId key ≠ e'.cachedValue own skillId key →
      (∃ event ∈ newer, event.Names scope skillId key) ∨ e'.InFlight own skillId key from hall.2
  induction h' with
  | refl => exact ⟨hreported, [], rfl, fun skillId key hne => absurd rfl hne⟩
  | @step e₁ e₂ a hrun hmeets hstep ih =>
    obtain ⟨hreported₁, newer, hpublished, hnamed⟩ := ih
    have hprogress := Engine.step_progress hstep hmeets
    obtain ⟨newest, hnewest⟩ := hprogress.published
    refine ⟨hprogress.reported hreported₁, newest ++ newer, ?_, fun skillId key hne => ?_⟩
    · rw [hnewest, hpublished, append_assoc]
    · by_cases hlast : e₁.cachedValue own skillId key = e₂.cachedValue own skillId key
      · -- named before this step: by a published event, or by one that is now published or still in flight
        rcases hnamed skillId key (hlast ▸ hne) with ⟨event, hmem, hevent⟩ | hflight
        · exact Or.inl ⟨event, mem_append_right _ hmem, hevent⟩
        · rcases hprogress.kept skillId key hflight with hflight | ⟨event, heq, hevent⟩
          · exact Or.inr hflight
          · rw [hnewest] at heq
            refine Or.inl ⟨event, mem_append_left _ ?_, hevent⟩
            have hone : newest = [event] :=
              append_cancel_right (heq.trans (singleton_append).symm)
            rw [hone]
            exact mem_singleton_self event
      · exact Or.inr (hprogress.cached skillId key hreported₁ hlast)

theorem EngineReaches.trans (h : EngineReaches linked path scope own P e e₁)
    (h' : EngineReaches linked path scope own P e₁ e') : EngineReaches linked path scope own P e e' := by
  induction h' with
  | refl => exact h
  | step _ hmeets hstep ih => exact ih.step hmeets hstep

theorem mem_announced {log : List Event} {announcements : List Announcement}
    (h : announcements ∈ Engine.announced own log) :
    (∃ call outcome, .wrote call own outcome ∈ log ∧ announcements = outcome.announcements) ∨
      ∃ result, .refreshed own result ∈ log ∧ announcements = refreshAnnouncements result := by
  unfold Engine.announced at h
  split at h
  · next call i outcome rest =>
    split at h
    · next hi =>
      subst hi
      exact Or.inl ⟨call, outcome, mem_cons_self, mem_singleton.1 h⟩
    · cases h
  · next i result rest =>
    split at h
    · next hi =>
      subst hi
      exact Or.inr ⟨result, mem_cons_self, mem_singleton.1 h⟩
    · cases h
  · cases h

theorem engineReaches_of_step (hstep : e.config.step linked path a = some w) (ha : a.replaces own = false)
    (hP : P e (.config a)) : EngineReaches linked path scope own P e { e with
      config := w, pending := Engine.announced own (Engine.logged e.config w) ++ e.pending } := by
  refine EngineReaches.refl.step hP ?_
  simp only [Engine.step, ha, hstep, Bool.false_eq_true, if_false, map_some]

/-- Steps of the stores as steps of the engine; what becomes pending are the returns of its own
store. -/
theorem engineReaches_of_run {P : Engine → EngineAct → Prop} {acts : List Act}
    (hrun : e.config.run linked path acts = some w) (hacts : ∀ a ∈ acts, a.replaces own = false)
    (hP : ∀ a ∈ acts, ∀ e, P e (.config a)) :
    ∃ pending, EngineReaches linked path scope own P e
        { e with config := w, pending := pending ++ e.pending } ∧
      ∀ announcements ∈ pending,
        (∃ call outcome, .wrote call own outcome ∈ w.log ∧ announcements = outcome.announcements) ∨
        ∃ result, .refreshed own result ∈ w.log ∧ announcements = refreshAnnouncements result := by
  induction acts generalizing e with
  | nil =>
    cases hrun
    exact ⟨[], .refl, fun announcements hmem => nomatch hmem⟩
  | cons a acts ih =>
    simp only [run, bind_eq_some_iff] at hrun
    obtain ⟨w₁, hstep, hrun⟩ := hrun
    have ha := hacts a mem_cons_self
    let e₁ : Engine := { e with
      config := w₁, pending := Engine.announced own (Engine.logged e.config w₁) ++ e.pending }
    have hfirst : EngineReaches linked path scope own P e e₁ :=
      engineReaches_of_step hstep ha (hP a mem_cons_self e)
    obtain ⟨pending, hreach, hpending⟩ := ih (e := e₁) hrun
      (fun a' ha' => hacts a' (mem_cons_of_mem a ha'))
      fun a' ha' => hP a' (mem_cons_of_mem a ha')
    refine ⟨pending ++ Engine.announced own (Engine.logged e.config w₁), ?_, ?_⟩
    · rw [append_assoc]
      exact hfirst.trans hreach
    · intro announcements hmem
      rcases mem_append.1 hmem with hmem | hmem
      · exact hpending announcements hmem
      · obtain ⟨newer, hnewer⟩ := (reaches_of_run hrun).log_grows
        have hlogged : Engine.logged e.config w₁ ⊆ w.log := fun event hevent =>
          hnewer ▸ mem_append_right newer (mem_of_mem_take hevent)
        rcases mem_announced hmem with ⟨call, outcome, hin, heq⟩ | ⟨result, hin, heq⟩
        · exact Or.inl ⟨call, outcome, hlogged hin, heq⟩
        · exact Or.inr ⟨result, hlogged hin, heq⟩

end

/-! ## A write over an unseen revision -/

/-- The first store repeats the write of the second without having seen it. -/
noncomputable def repeatedWorld : World where
  disk := some (modeText ++ [0x0a])
  lock := none
  stores := update modeWorld.stores 0 (some ⟨modeSnapshot, .idle⟩)
  nextCall := 2
  log := [.wrote 1 0 ⟨modeRequest, 1, [], none⟩, .installed 1 0 modeSnapshot,
    .began 1 0 emptySnapshot] ++ modeWorld.log

/-- The engine of the first store, on the file both stores have opened. -/
def openedEngine : Engine where
  config := openedWorld
  pending := []
  queue := ⟨0, []⟩
  published := []

theorem openedEngine_started : openedEngine.Started modeLinked configPath 0 :=
  ⟨⟨none, reaches_of_run run_opened⟩, ⟨emptySnapshot, rfl⟩, rfl, rfl, rfl⟩

theorem read_modeText :
    readSnapshotFrom modeLinked configPath (some (modeText ++ [0x0a])) = .ok modeSnapshot :=
  read_of_write (write_modeDocument configPath)

theorem run_repeatedWorld :
    modeWorld.run modeLinked configPath
      (writeActs 0 modeRequest none ++ [.install 0, .finish 0]) = some repeatedWorld := by
  have hrun : modeWorld.run modeLinked configPath (writeActs 0 modeRequest none) =
      some ((modeWorld.committing 0 emptySnapshot modeSnapshot ⟨1, modeRequest, none⟩).commit
        modeLinked configPath 0 ⟨emptySnapshot, .loaded ⟨1, modeRequest, none⟩ modeSnapshot⟩
        ⟨1, modeRequest, none⟩ modeSnapshot .quiet) :=
    run_writeActs rfl rfl (by decide +kernel) read_modeText rfl rfl
  have happly : modeRequest.apply modeSnapshot.document = .ok (modeDocument, []) := rfl
  have htransact : transact modeLinked configPath ⟨1, modeRequest, none⟩ modeSnapshot .quiet =
      .ok (modeSnapshot, [], none) := by
    simp only [transact, happly, Except.ok_bind, if_true]
    rfl
  rw [run_append, hrun, bind_some]
  simp only [commit, htransact]
  simp [run, step, install, finish, setStore, committing,
    unlock, repeatedWorld]
  exact ⟨rfl, rfl, rfl⟩

theorem absorbed_revision_unannounced :
    ¬ ∀ e₀ e e' : Engine, e₀.Started modeLinked configPath 0 →
      EngineReaches modeLinked configPath "skills" 0 (fun _ _ => True) e₀ e →
      EngineReaches modeLinked configPath "skills" 0 (fun _ _ => True) e e' →
      ∀ skillId key, e.cachedValue 0 skillId key ≠ e'.cachedValue 0 skillId key →
        (∃ event ∈ e'.published, event.Names "skills" skillId key) ∨ e'.InFlight 0 skillId key := by
  intro hclaim
  have hrun : openedWorld.run modeLinked configPath
      ((writeActs 1 modeRequest none ++ [.install 1, .finish 1]) ++
        (writeActs 0 modeRequest none ++ [.install 0, .finish 0])) = some repeatedWorld := by
    rw [run_append, run_modeWorld, bind_some, run_repeatedWorld]
  obtain ⟨pending, hreach, hpending⟩ : ∃ pending, EngineReaches modeLinked configPath "skills" 0
      (fun _ _ => True) openedEngine
        { openedEngine with config := repeatedWorld, pending := pending ++ openedEngine.pending } ∧ _ :=
    engineReaches_of_run hrun (by simp [writeActs, Act.replaces]) fun _ _ _ => trivial
  have hvalue : openedEngine.cachedValue 0 "demo" "mode" ≠
      Engine.cachedValue 0 { openedEngine with
        config := repeatedWorld, pending := pending ++ openedEngine.pending } "demo" "mode" :=
    fun h : none = some "fast" => by cases h
  rcases hclaim openedEngine openedEngine _ openedEngine_started .refl hreach "demo" "mode" hvalue with
    ⟨event, hmem, -⟩ | ⟨announcements, hmem, announcement, hin, -⟩ | ⟨cached, write, outcome, hown, -⟩
  · cases hmem
  · -- the only return of the engine's store reports no changed key
    have hmem : announcements ∈ pending := by simpa [openedEngine] using hmem
    rcases hpending announcements hmem with ⟨call, outcome, hlog, rfl⟩ | ⟨result, hlog, -⟩
    · obtain ⟨-, rfl⟩ : call = 1 ∧ outcome = ⟨modeRequest, 1, [], none⟩ := by
        simpa [repeatedWorld, modeWorld, writtenWorld] using hlog
      cases hin
    · simp [repeatedWorld, modeWorld, writtenWorld] at hlog
  · cases hown

/-- The store of the engine writes the mode itself, over the file that it has cached. -/
theorem cached_changes_announced_write : ∃ e' : Engine,
    e'.config = writtenWorld 0 ∧ openedEngine.cachedValue 0 "demo" "mode" = none ∧
      e'.cachedValue 0 "demo" "mode" = some "fast" ∧
      ∃ newer, e'.published = newer ++ openedEngine.published ∧
        ((∃ event ∈ newer, event.Names "skills" "demo" "mode") ∨ e'.InFlight 0 "demo" "mode") := by
  let P := Engine.Meets modeLinked configPath 0
  obtain ⟨pending, hread, -⟩ : ∃ pending, EngineReaches modeLinked configPath "skills" 0 P openedEngine
      { openedEngine with config := readWorld 0, pending := pending ++ openedEngine.pending } ∧ _ :=
    engineReaches_of_run (run_readWorld rfl) (by simp [writeActs, Act.replaces])
      (by simp [writeActs, P, Engine.Meets])
  obtain ⟨w, hcommit, hrest⟩ := Option.bind_eq_some_iff.1 (run_written 0)
  let e : Engine := { openedEngine with
    config := readWorld 0, pending := pending ++ openedEngine.pending }
  -- the cache is what the file holds
  have hmeets : P e (.config (.commit 0 .quiet)) := by
    intro _ cached write disk hown _ skillId key hne
    cases hown
    exact absurd rfl hne
  let e₁ : Engine := { e with
    config := w, pending := Engine.announced 0 (Engine.logged e.config w) ++ e.pending }
  have hcommitted : EngineReaches modeLinked configPath "skills" 0 P e e₁ :=
    engineReaches_of_step hcommit rfl hmeets
  obtain ⟨pending', hreturned, -⟩ : ∃ pending', EngineReaches modeLinked configPath "skills" 0 P e₁
      { e₁ with config := writtenWorld 0, pending := pending' ++ e₁.pending } ∧ _ :=
    engineReaches_of_run hrest (by simp [Act.replaces]) (by simp [P, Engine.Meets])
  obtain ⟨newer, hpublished, hnamed⟩ := cached_changes_announced openedEngine_started .refl
    ((hread.trans hcommitted).trans hreturned)
  exact ⟨_, rfl, rfl, rfl, newer, hpublished,
    hnamed "demo" "mode" fun h : none = some "fast" => by cases h⟩

end LuaSkills.SkillConfig
