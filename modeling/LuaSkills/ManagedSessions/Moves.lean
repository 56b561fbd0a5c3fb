import LuaSkills.ManagedSessions.Accounts

/-!
# Moves

What a section takes into its hand, puts down, and changes otherwise. Every move keeps the accounts.
-/

namespace LuaSkills.ManagedSessions

open AList List

variable {w w' : World} {η : Hand} {task : Task} {t s owner : ℕ} {r : SessionRecord}
  {rs : List (ℕ × SessionRecord)} {l o ids : List ℕ} {cs : List ManagedSessionEventToken}
  {token : Option ManagedSessionEventToken} {tok : ManagedSessionEventToken} {e : Event}
  {transactions : AssocMap ℕ TransactionRecord}

/-- An event that says nothing about records and handles. -/
def Event.quiet : Event → Bool
  | .refused _ | .killed _ | .released _ => true
  | _ => false

theorem Hand.add_empty : η.add .empty = η := by
  simp only [Hand.add, Hand.empty, append_nil]

theorem held_of_record (h : Possessed Hand.records η w.tasks (s, r)) :
    Possessed Hand.held η w.tasks s := by
  obtain ⟨k, hk⟩ := h
  cases k with
  | hand => exact .of_hand (mem_map_of_mem hk)
  | task t =>
    cases ht : w.tasks.lookup t with
    | none =>
      simp only [possess, ht, Option.map_none, Option.getD_none] at hk
      cases hk
    | some task =>
      rw [possess_lookup ht] at hk
      exact .of_task ht (mem_map_of_mem hk)

theorem record_of_held (h : Possessed Hand.held η w.tasks s) :
    ∃ r, Possessed Hand.records η w.tasks (s, r) := by
  obtain ⟨k, hk⟩ := h
  cases k with
  | hand =>
    obtain ⟨⟨_, r⟩, hr, rfl⟩ := mem_map.1 hk
    exact ⟨r, .of_hand hr⟩
  | task t =>
    cases ht : w.tasks.lookup t with
    | none =>
      simp only [possess, ht, Option.map_none, Option.getD_none] at hk
      cases hk
    | some task =>
      rw [possess_lookup ht] at hk
      obtain ⟨⟨_, r⟩, hr, rfl⟩ := mem_map.1 hk
      exact ⟨r, .of_task ht hr⟩

namespace World

theorem Located.imp (h : w.Located η tok)
    (hsessions : ∀ r, w.sessions.lookup tok.managedSessionId = some r → r.eventToken = some tok →
      w'.Located θ tok) (hcarries : Possessed Hand.carries η w.tasks tok → w'.Located θ tok)
    (hrecords : ∀ s r, Possessed Hand.records η w.tasks (s, r) → r.eventToken = some tok →
      w'.Located θ tok) : w'.Located θ tok := by
  rcases h with ⟨r, hr, htok⟩ | h | ⟨s, r, hr, htok⟩
  · exact hsessions r hr htok
  · exact hcarries h
  · exact hrecords s r hr htok

namespace Inv

theorem lt_of_reserved (I : w.Inv η) (h : Reserved w.log s) : s ≤ w.nextSessionId := by
  obtain ⟨id, hid⟩ := h
  exact I.mentioned _ hid

theorem reserved_of_held (I : w.Inv η) (h : Possessed Hand.held η w.tasks s) : Reserved w.log s := by
  obtain ⟨r, hr⟩ := record_of_held h
  exact (I.detached s r hr).reserved

/-! ## Tasks -/

theorem takeTask (I : w.Inv η) (ht : w.tasks.lookup t = some task) :
    (w.endTask t).Inv (η.add task.hand) := { I with
  held := custody_take I.held Hand.held_add ht
  retiring s := (I.retiring s).trans (possessed_take Hand.held_add ht).symm
  launches := custody_take I.launches rfl ht
  launching s hs := I.launching s ((possessed_take rfl ht).1 hs)
  detached s r hr := I.detached s r ((possessed_take rfl ht).1 hr)
  fits := forall_erase I.fits
  fresh := forall_erase I.fresh
  bare := forall_erase I.bare
  unborn := forall_erase I.unborn
  failed s hs := (I.failed s hs).imp_right fun h => h.imp_right (possessed_take rfl ht).2
  located tok htok := (I.located tok htok).imp (fun r hr hrt => .inl ⟨r, hr, hrt⟩)
    (fun h => .inr (.inl ((possessed_take rfl ht).2 h)))
    fun s r hr hrt => .inr (.inr ⟨s, r, (possessed_take rfl ht).2 hr, hrt⟩) }

theorem putTask (I : (w.endTask t).Inv (η.add task.hand)) (hfits : task.Fits w.log)
    (hfresh : ∀ s ∈ task.fresh, w.handles.lookup s = none)
    (hbare : ∀ s ∈ task.bare, ∀ r, w.sessions.lookup s = some r → r.eventToken = none)
    (hunborn : ∀ s ∈ task.unborn, ∀ token ∈ w.registeredSessions, token.managedSessionId ≠ s) :
    (w.setTask t task).Inv η := by
  have htasks : w.tasks.insert t task = (w.endTask t).tasks.insert t task := insert_erase.symm
  have ht : t ∉ (w.endTask t).tasks := fun hmem => (mem_erase.1 hmem).1 rfl
  have hset : w.setTask t task = (w.endTask t).setTask t task := by rw [setTask, htasks]; rfl
  rw [hset]
  exact { I with
    held := custody_put I.held Hand.held_add ht
    retiring := fun s => (I.retiring s).trans (possessed_put Hand.held_add ht).symm
    launches := custody_put I.launches rfl ht
    launching := fun s hs => I.launching s ((possessed_put rfl ht).1 hs)
    detached := fun s r hr => I.detached s r ((possessed_put rfl ht).1 hr)
    fits := forall_insert I.fits hfits
    fresh := forall_insert I.fresh hfresh
    bare := forall_insert I.bare hbare
    unborn := forall_insert I.unborn hunborn
    failed := fun s hs => (I.failed s hs).imp_right fun h => h.imp_right (possessed_put rfl ht).2
    located := fun tok htok => (I.located tok htok).imp (fun r hr hrt => .inl ⟨r, hr, hrt⟩)
      (fun h => .inr (.inl ((possessed_put rfl ht).2 h)))
      fun s r hr hrt => .inr (.inr ⟨s, r, (possessed_put rfl ht).2 hr, hrt⟩) }

theorem beginTask (I : w.Inv (η.add task.hand)) (ht : t ∉ w.tasks) (hfits : task.Fits w.log)
    (hfresh : ∀ s ∈ task.fresh, w.handles.lookup s = none)
    (hbare : ∀ s ∈ task.bare, ∀ r, w.sessions.lookup s = some r → r.eventToken = none)
    (hunborn : ∀ s ∈ task.unborn, ∀ token ∈ w.registeredSessions, token.managedSessionId ≠ s) :
    (w.setTask t task).Inv η := by
  have hend : w.endTask t = w := by rw [endTask, erase_of_notMem ht]
  exact putTask (by rwa [hend]) hfits hfresh hbare hunborn

/-- A task that has nothing ends. -/
theorem finishTask (I : w.Inv η) (ht : w.tasks.lookup t = some task) (hhand : task.hand = .empty) :
    (w.endTask t).Inv η := by
  have htaken := I.takeTask ht
  rwa [hhand, Hand.add_empty] at htaken

/-- The hand lets go of what nothing relies on. -/
theorem letGo {l' : List ℕ} (I : w.Inv ⟨rs, l, cs, o⟩) (hl : l'.Sublist l)
    (hcs : ∀ tok ∈ cs, tok ∈ w.registeredSessions → tok ∈ cs')
    (ho : ∀ s ∈ o, s ∈ w.failed → .session s ∈ w.targets ∨ s ∈ o') : w.Inv ⟨rs, l', cs', o'⟩ := by
  refine { I with
    launches := ?_
    launching := fun s hs => I.launching s (hs.mono fun h => hl.subset h)
    failed := fun s hs => ?_
    located := fun tok htok => ?_ }
  · rw [possess_hand (η := ⟨rs, l, cs, o⟩)]
    exact I.launches.update (hl.nodup (I.launches.nodup .hand)) fun s hs k hk =>
      I.launches.unique k .hand s hk (hl.subset hs)
  · refine (I.failed s hs).imp_right fun h => h.elim .inl fun hp => ?_
    obtain ⟨k, hk⟩ := hp
    cases k with
    | task t => exact .inr ⟨.task t, hk⟩
    | hand => exact (ho s hk hs).imp_right fun hs' => ⟨.hand, hs'⟩
  · refine (I.located tok htok).imp (fun r hr hrt => .inl ⟨r, hr, hrt⟩) (fun h => ?_)
      fun s r hr hrt => .inr (.inr ⟨s, r, hr, hrt⟩)
    obtain ⟨k, hk⟩ := h
    cases k with
    | task t => exact .inr (.inl ⟨.task t, hk⟩)
    | hand => exact .inr (.inl ⟨.hand, hcs tok hk htok⟩)

/-! ## The log -/

theorem grow {m : List Event} (I : w.Inv η)
    (hquiet : ∀ e ∈ m, e.quiet) (hs : ∀ e ∈ m, e.session ≤ w.nextSessionId)
    (hjoined : ∀ id r, transactions.lookup id = some r → ∀ s, s ∈ r.sessionIds ↔
      .reserved s (some id) ∈ w.log ∧ .released s ∉ w.log ++ m)
    (hopened : ∀ id ∈ transactions, id ≤ w.nextTransactionId) :
    { w with transactions, log := w.log ++ m }.Inv η := by
  have hne : ∀ e : Event, e.quiet = false → (e ∈ w.log ++ m ↔ e ∈ w.log) := by
    intro e he
    rw [mem_append]
    refine ⟨fun h => h.resolve_right fun hmem => ?_, .inl⟩
    rw [hquiet e hmem] at he
    cases he
  have hmore : ∀ e : Event, e.quiet = false → e ∉ m := fun e he hmem => by
    rw [hquiet e hmem] at he
    cases he
  refine { I with
    launching := fun s hs => ⟨(I.launching s hs).1.append, ?_⟩
    registered := fun s r hr => (I.registered s r hr).append (hmore _ rfl)
    detached := fun s r hr => (I.detached s r hr).append (hmore _ rfl)
    fits := fun t task ht => (I.fits t task ht).append
    mentioned := fun e he => (mem_append.1 he).elim (I.mentioned e) (hs e)
    handles := fun s h hh => ?_
    ran := fun s hs => I.ran s ((hne _ rfl).1 hs)
    legal := ?_
    alive := fun s hs => (I.alive s ((hne _ rfl).1 hs)).imp_left (mem_append_left _)
    joined := fun id r hr s => ?_
    begun := fun s id hs => I.begun s id ((hne _ rfl).1 hs)
    opened := hopened
    handled := fun s hs => (I.handled s hs).append
    known := fun tok htok => (I.known tok htok).append }
  · rw [hne _ rfl]
    exact (I.launching s hs).2
  · rw [hne _ rfl]
    exact I.handles s h hh
  · refine I.legal.appendAll fun before e he => ?_
    cases e with
    | refused | killed | released => trivial
    | _ => exact absurd he (hmore _ rfl)
  · rw [hne _ rfl]
    exact hjoined id r hr s

theorem record (I : w.Inv η) (he : e.quiet) (hreleased : ∀ s, e ≠ .released s)
    (hs : e.session ≤ w.nextSessionId) : (w.record e).Inv η := by
  refine I.grow (m := [e]) (fun e' he' => ?_) (fun e' he' => ?_) (fun id r hr s => ?_) I.opened
  · cases mem_singleton.1 he'
    exact he
  · cases mem_singleton.1 he'
    exact hs
  · rw [I.joined id r hr s, mem_append, mem_singleton]
    exact and_congr_right fun _ => not_congr ⟨.inl, fun h => h.resolve_right fun heq => hreleased s heq.symm⟩

theorem forget (I : w.Inv η) (hids : ∀ s ∈ ids, s ≤ w.nextSessionId) : (w.forget ids).Inv η := by
  refine I.grow (fun e he => ?_) (fun e he => ?_) (fun id r hr s => ?_) fun id hid => ?_
  · obtain ⟨s, -, rfl⟩ := mem_map.1 he
    rfl
  · obtain ⟨s, hs, rfl⟩ := mem_map.1 he
    exact hids s hs
  · rw [lookup_mapValues] at hr
    obtain ⟨r₀, hr₀, rfl⟩ := Option.map_eq_some_iff.1 hr
    have hmap : .released s ∈ ids.map Event.released ↔ s ∈ ids := by
      rw [mem_map]
      exact ⟨fun ⟨s', hs', heq⟩ => Event.released.inj heq ▸ hs', fun hs => ⟨s, hs, rfl⟩⟩
    rw [mem_filter, I.joined id r₀ hr₀ s, mem_append, hmap]
    simp only [decide_eq_true_eq, not_or, and_assoc]
  · obtain ⟨r, hr⟩ := mem_iff_lookup.1 hid
    rw [lookup_mapValues] at hr
    obtain ⟨r₀, hr₀, -⟩ := Option.map_eq_some_iff.1 hr
    exact I.opened id (mem_of_lookup hr₀)

/-! ## Transactions -/

theorem beginTransaction (I : w.Inv η) : { w with
    nextTransactionId := w.nextTransactionId + 1
    transactions := w.transactions.insert (w.nextTransactionId + 1) ⟨owner, []⟩ }.Inv η := by
  refine { I with
    joined := forall_insert I.joined fun s => ⟨nofun, fun h => ?_⟩
    begun := fun s id hs => Nat.le_succ_of_le (I.begun s id hs)
    opened := fun id hid => ?_ }
  · exact absurd (I.begun s _ h.1) (Nat.not_succ_le_self _)
  · rcases (mem_insert _).1 hid with rfl | hid
    · exact le_rfl
    · exact Nat.le_succ_of_le (I.opened id hid)

theorem endTransaction {id : ℕ} (I : w.Inv η) :
    { w with transactions := w.transactions.erase id }.Inv η :=
  { I with
    joined := forall_erase I.joined
    opened := fun id' hid' => I.opened id' (mem_erase.1 hid').2 }

/-! ## Tokens -/

theorem registerToken (I : w.Inv ⟨rs, [tok.managedSessionId], [], o⟩)
    (hnew : ∀ tok' ∈ w.registeredSessions, tok'.managedSessionId ≠ tok.managedSessionId) :
    { w with registeredSessions := w.registeredSessions ++ [tok] }.Inv
      ⟨rs, [tok.managedSessionId], [tok], o⟩ := by
  have hhand : ∀ {s}, s ∈ [tok.managedSessionId] → Possessed Hand.launch
      ⟨rs, [tok.managedSessionId], [], o⟩ w.tasks s := fun hs => .of_hand hs
  refine { I with
    unborn := fun t task ht s hs tok' htok' => ?_
    tokens := ?_
    located := fun tok' htok' => ?_
    known := fun tok' htok' => ?_ }
  · rcases mem_append.1 htok' with htok' | htok'
    · exact I.unborn t task ht s hs tok' htok'
    · cases mem_singleton.1 htok'
      intro heq
      have hlaunch : s ∈ possess Hand.launch ⟨rs, [tok.managedSessionId], [], o⟩ w.tasks (.task t) := by
        rw [possess_lookup ht]
        cases task with
        | reserving s' token => cases hs; exact mem_singleton_self _
        | _ => cases hs
      exact nomatch I.launches.unique (.task t) .hand s hlaunch (by rw [← heq]; exact mem_singleton_self _)
  · rw [map_append, nodup_append]
    refine ⟨I.tokens, nodup_singleton _, fun a ha b hb => ?_⟩
    obtain ⟨tok', htok', rfl⟩ := mem_map.1 ha
    cases mem_singleton.1 hb
    exact hnew tok' htok'
  · rcases mem_append.1 htok' with htok' | htok'
    · exact (I.located tok' htok').imp (fun r hr hrt => .inl ⟨r, hr, hrt⟩)
        (fun h => .inr (.inl (h.mono nofun))) fun s r hr hrt => .inr (.inr ⟨s, r, hr, hrt⟩)
    · cases mem_singleton.1 htok'
      exact .inr (.inl (.of_hand (mem_singleton_self _)))
  · rcases mem_append.1 htok' with htok' | htok'
    · exact I.known tok' htok'
    · cases mem_singleton.1 htok'
      exact (I.launching _ (hhand (mem_singleton_self _))).1

theorem unregisterToken (I : w.Inv ⟨rs, l, token.toList, o⟩) :
    (w.unregisterToken token).Inv ⟨rs, l, [], o⟩ := by
  cases token with
  | none => exact I
  | some tok =>
    have hsub : w.registeredSessions.erase tok ⊆ w.registeredSessions := erase_subset
    have hnodup : w.registeredSessions.Nodup := I.tokens.of_map _
    refine { I with
      unborn := fun t task ht s hs tok' htok' => I.unborn t task ht s hs tok' (hsub htok')
      failed := I.failed
      tokens := I.tokens.sublist (erase_sublist.map _)
      located := fun tok' htok' => ?_
      known := fun tok' htok' => I.known tok' (hsub htok') }
    have hne : tok' ≠ tok := (hnodup.mem_erase_iff.1 htok').1
    refine (I.located tok' (hsub htok')).imp (fun r hr hrt => .inl ⟨r, hr, hrt⟩) (fun h => ?_)
      fun s r hr hrt => .inr (.inr ⟨s, r, hr, hrt⟩)
    exact .inr (.inl (h.mono fun hmem => absurd (mem_singleton.1 hmem) hne))

/-- A section takes the token out of the record in its hand. -/
theorem takeToken (I : w.Inv ⟨(s, r) :: rs, l, [], o⟩) :
    w.Inv ⟨(s, { r with eventToken := none }) :: rs, l, r.eventToken.toList, o⟩ := by
  have hheld : possess Hand.held ⟨(s, { r with eventToken := none }) :: rs, l, r.eventToken.toList, o⟩ w.tasks =
      possess Hand.held ⟨(s, r) :: rs, l, [], o⟩ w.tasks := by
    funext k
    cases k <;> rfl
  refine { I with
    held := hheld ▸ I.held
    retiring := fun s' => by
      unfold Possessed
      rw [hheld]
      exact I.retiring s'
    detached := fun s' r' hr' => ?_
    located := fun tok htok => ?_ }
  · rcases possessed_hand (η := ⟨(s, r) :: rs, l, [], o⟩) hr' with hr' | hr'
    · rcases mem_cons.1 hr' with heq | hr'
      · cases heq
        have hfits := I.detached s r (.of_hand mem_cons_self)
        exact ⟨hfits.reserved, hfits.process, hfits.cleanup, nofun⟩
      · exact I.detached s' r' (.of_hand (mem_cons_of_mem _ hr'))
    · exact I.detached s' r' hr'
  · refine (I.located tok htok).imp (fun r hr hrt => .inl ⟨r, hr, hrt⟩)
      (fun h => .inr (.inl (h.mono nofun))) fun s' r' hr' hrt => ?_
    obtain ⟨k, hk⟩ := hr'
    cases k with
    | task t => exact .inr (.inr ⟨s', r', ⟨.task t, hk⟩, hrt⟩)
    | hand =>
      rcases mem_cons.1 hk with heq | hk
      · cases heq
        exact .inr (.inl (.of_hand (Option.mem_toList.2 hrt)))
      · exact .inr (.inr ⟨s', r', .of_hand (mem_cons_of_mem _ hk), hrt⟩)

/-- The record of a launch gets the token. -/
theorem attachToken (I : w.Inv ⟨rs, [s], token.toList, o⟩) (hs : w.sessions.lookup s = some r)
    (hbare : r.eventToken = none) (htoken : ∀ tok ∈ token, tok.managedSessionId = s) :
    { w with sessions := w.sessions.insert s { r with eventToken := token } }.Inv ⟨rs, [s], [], o⟩ := by
  have hmem : ∀ {s'}, s' ∈ w.sessions.insert s { r with eventToken := token } ↔ s' ∈ w.sessions := by
    intro s'
    rw [mem_insert]
    exact ⟨fun h => h.elim (fun heq => heq ▸ mem_of_lookup hs) id, .inr⟩
  have hfits := I.registered s r hs
  refine { I with
    capacity := by rw [size_insert_of_lookup hs]; exact I.capacity
    disjoint := fun s' hs' => I.disjoint s' (hmem.1 hs')
    registered := forall_insert I.registered ⟨hfits.reserved, hfits.process, hfits.cleanup, htoken⟩
    bare := fun t task ht s' hs' r' hr' => ?_
    alive := fun s' hs' => (I.alive s' hs').imp_right fun h => h.imp_left hmem.2
    failed := fun s' hs' => ⟨hmem.2 (I.failed s' hs').1, (I.failed s' hs').2⟩
    located := fun tok htok => ?_ }
  · rw [lookup_insert_eq] at hr'
    split at hr'
    · next heq =>
      have hlaunch : s' ∈ possess Hand.launch ⟨rs, [s], token.toList, o⟩ w.tasks (.task t) := by
        rw [possess_lookup ht]
        cases task with
        | reserving | registered => cases hs'; exact mem_singleton_self _
        | _ => cases hs'
      exact nomatch I.launches.unique (.task t) .hand s' hlaunch (by rw [heq]; exact mem_singleton_self _)
    · exact I.bare t task ht s' hs' r' hr'
  · refine (I.located tok htok).imp (fun r' hr' hrt => ?_) (fun h => ?_)
      fun s r hr hrt => .inr (.inr ⟨s, r, hr, hrt⟩)
    · refine .inl ⟨r', ?_, hrt⟩
      rw [lookup_insert_ne fun heq => ?_]
      · exact hr'
      · rw [heq, hs] at hr'
        cases hr'
        rw [hbare] at hrt
        cases hrt
    · refine (possessed_hand (η := ⟨rs, [s], [], o⟩) h).elim (fun hmem => ?_) fun h => .inr (.inl h)
      have htok' := Option.mem_toList.1 hmem
      refine .inl ⟨{ r with eventToken := token }, ?_, htok'⟩
      rw [htoken tok htok']
      exact lookup_insert _

/-! ## Handles -/

theorem newHandle (I : w.Inv ⟨rs, [s], cs, o⟩) (hs : w.handles.lookup s = none) :
    { w with handles := w.handles.insert s ⟨true, false⟩ }.Inv ⟨rs, [s], cs, o⟩ := by
  have hran : .ran s ∉ w.log := fun h => by
    obtain ⟨h', hh'⟩ := mem_iff_lookup.1 (I.ran s h)
    rw [hs] at hh'
    cases hh'
  have hreserved := (I.launching s (.of_hand (mem_singleton_self _))).1
  refine { I with
    fresh := fun t task ht s' hs' => ?_
    handles := forall_insert I.handles ⟨⟨nofun, fun h => absurd h hran⟩, nofun⟩
    ran := fun s' hs' => (mem_insert _).2 (.inr (I.ran s' hs'))
    handled := fun s' hs' => ?_ }
  · rw [lookup_insert_ne fun heq => ?_]
    · exact I.fresh t task ht s' hs'
    · have hlaunch : s' ∈ possess Hand.launch ⟨rs, [s], cs, o⟩ w.tasks (.task t) := by
        rw [possess_lookup ht]
        cases task with
        | reserving | registered | reservation => cases hs'; exact mem_singleton_self _
        | _ => cases hs'
      exact nomatch I.launches.unique (.task t) .hand s' hlaunch (by rw [heq]; exact mem_singleton_self _)
  · rcases (mem_insert _).1 hs' with rfl | hs'
    · exact hreserved
    · exact I.handled s' hs'

/-- The record of a launch gets its process, and the launch is over. -/
theorem activateRecord (I : w.Inv ⟨rs, [s], cs, o⟩) (hs : w.sessions.lookup s = some r) :
    ({ w with sessions := w.sessions.insert s { r with process := true, cleanup := true } }.record
      (.activated s)).Inv ⟨rs, [], cs, o⟩ := by
  have hmem : ∀ {s'}, s' ∈ w.sessions.insert s { r with process := true, cleanup := true } ↔
      s' ∈ w.sessions := by
    intro s'
    rw [mem_insert]
    exact ⟨fun h => h.elim (fun heq => heq ▸ mem_of_lookup hs) id, .inr⟩
  have hne : ∀ e : Event, (∀ s', e ≠ .activated s') → (e ∈ w.log ++ [.activated s] ↔ e ∈ w.log) := by
    intro e he
    rw [mem_append, mem_singleton]
    exact ⟨fun h => h.resolve_right (he s), .inl⟩
  have hactivated : ∀ {s'}, s' ≠ s → (.activated s' ∈ w.log ++ [.activated s] ↔ .activated s' ∈ w.log) := by
    intro s' hs'
    rw [mem_append, mem_singleton]
    exact ⟨fun h => h.resolve_right fun heq => hs' (Event.activated.inj heq), .inl⟩
  have hfits := I.registered s r hs
  have hlt := I.lt_of_reserved hfits.reserved
  refine { I with
    capacity := by
      rw [World.record, size_insert_of_lookup hs]
      exact I.capacity
    disjoint := fun s' hs' => I.disjoint s' (hmem.1 hs')
    launches := ?_
    launching := fun s' hs' => ?_
    registered := fun s' r' hr' => ?_
    detached := fun s' r' hr' => ?_
    fits := fun t task ht => (I.fits t task ht).append
    bare := fun t task ht s' hs' r' hr' => ?_
    mentioned := fun e he => ?_
    handles := fun s' h hh => ?_
    ran := fun s' hs' => I.ran s' ((hne (.ran s') nofun).1 hs')
    legal := I.legal.append trivial
    alive := fun s' hs' => ?_
    failed := fun s' hs' => ⟨hmem.2 (I.failed s' hs').1, (I.failed s' hs').2⟩
    located := fun tok htok => ?_
    joined := fun id r' hr' s' => ?_
    begun := fun s' id hs' => I.begun s' id ((hne (.reserved s' id) nofun).1 hs')
    handled := fun s' hs' => (I.handled s' hs').append
    known := fun tok htok => (I.known tok htok).append }
  · rw [World.record, possess_hand (η := ⟨rs, [s], cs, o⟩)]
    exact I.launches.update nodup_nil nofun
  · obtain ⟨k, hk⟩ := hs'
    cases k with
    | hand => cases hk
    | task t =>
      have hs'' := I.launching s' ⟨.task t, hk⟩
      refine ⟨hs''.1.append, ?_⟩
      rw [World.record, hactivated fun heq => ?_]
      · exact hs''.2
      · exact nomatch I.launches.unique (.task t) .hand s' hk (by rw [heq]; exact mem_singleton_self _)
  · rw [World.record, lookup_insert_eq] at hr'
    split at hr'
    · next heq =>
      cases hr'
      cases heq
      exact ⟨hfits.reserved.append, ⟨fun _ => mem_append_right _ (mem_singleton_self _), fun _ => rfl⟩,
        fun _ => rfl, hfits.token⟩
    · next hne' =>
      exact (I.registered s' r' hr').append fun h => hne' (Event.activated.inj (mem_singleton.1 h))
  · refine (I.detached s' r' hr').append fun h => ?_
    cases mem_singleton.1 h
    have hheld : s ∈ w.retiringSessions := (I.retiring s).2 (possessed_hand (η := ⟨rs, [s], cs, o⟩)
      (held_of_record hr') |>.elim (fun h => .of_hand h) id)
    exact I.disjoint s (mem_of_lookup hs) hheld
  · rw [World.record, lookup_insert_eq] at hr'
    split at hr'
    · next heq => cases hr'; exact I.bare t task ht s' hs' r (by rw [heq]; exact hs)
    · exact I.bare t task ht s' hs' r' hr'
  · rcases mem_append.1 he with he | he
    · exact I.mentioned e he
    · cases mem_singleton.1 he
      exact hlt
  · rw [World.record, hne (.ran s') nofun]
    exact I.handles s' h hh
  · by_cases heq : s' = s
    · cases heq
      exact .inr (.inl (hmem.2 (mem_of_lookup hs)))
    · exact (I.alive s' ((hactivated heq).1 hs')).imp (mem_append_left _) fun h => h.imp_left hmem.2
  · refine (I.located tok htok).imp (fun r' hr' hrt => ?_) (fun h => .inr (.inl h))
      fun s r hr hrt => .inr (.inr ⟨s, r, hr, hrt⟩)
    by_cases heq : tok.managedSessionId = s
    · rw [heq, hs] at hr'
      cases hr'
      refine .inl ⟨{ r with process := true, cleanup := true }, ?_, hrt⟩
      rw [heq]
      exact lookup_insert w.sessions
    · exact .inl ⟨r', (lookup_insert_ne heq).trans hr', hrt⟩
  · rw [World.record, hne (.reserved s' id) nofun, hne (.released s') nofun]
    exact I.joined id r' hr' s'

/-- What ran had its process killed before. -/
theorem killed_of_ran (I : w.Inv η) (h : .ran s ∈ w.log) : .killed s ∈ w.log := by
  obtain ⟨before, after, hlog, -, hkilled⟩ := I.legal.of_mem h
  rw [hlog]
  exact mem_append_left _ hkilled

/-- The callback of a handle is taken and run. -/
theorem takeHandle (I : w.Inv η) (hs : w.handles.lookup s = some ⟨true, finished⟩)
    (hkilled : .killed s ∈ w.log) :
    ({ w with handles := w.handles.insert s ⟨false, finished⟩ }.record (.ran s)).Inv η := by
  have hran : .ran s ∉ w.log := fun h => nomatch ((I.handles s _ hs).1.2 h)
  have hne : ∀ e : Event, (∀ s', e ≠ .ran s') → (e ∈ w.log ++ [.ran s] ↔ e ∈ w.log) := by
    intro e he
    rw [mem_append, mem_singleton]
    exact ⟨fun h => h.resolve_right (he s), .inl⟩
  have hmore : ∀ s', .activated s' ∉ [Event.ran s] := fun s' h => nomatch mem_singleton.1 h
  refine { I with
    launching := fun s' hs' => ⟨(I.launching s' hs').1.append, ?_⟩
    registered := fun s' r hr => (I.registered s' r hr).append (hmore s')
    detached := fun s' r hr => (I.detached s' r hr).append (hmore s')
    fits := fun t task ht => (I.fits t task ht).append
    fresh := fun t task ht s' hs' => ?_
    mentioned := fun e he => ?_
    handles := fun s' h hh => ?_
    ran := fun s' hs' => ?_
    legal := I.legal.append ⟨hran, hkilled⟩
    alive := fun s' hs' => (I.alive s' ((hne (.activated s') nofun).1 hs')).imp_left (mem_append_left _)
    joined := fun id r hr s' => ?_
    begun := fun s' id hs' => I.begun s' id ((hne (.reserved s' id) nofun).1 hs')
    handled := fun s' hs' => ?_
    known := fun tok htok => (I.known tok htok).append }
  · rw [World.record, hne (.activated s') nofun]
    exact (I.launching s' hs').2
  · rw [World.record, lookup_insert_ne fun heq => ?_]
    · exact I.fresh t task ht s' hs'
    · have hnone := I.fresh t task ht s' hs'
      rw [heq, hs] at hnone
      cases hnone
  · rcases mem_append.1 he with he | he
    · exact I.mentioned e he
    · cases mem_singleton.1 he
      exact I.mentioned (.killed s) hkilled
  · rw [World.record, mem_append, mem_singleton]
    rw [World.record, lookup_insert_eq] at hh
    split at hh
    · next heq =>
      cases hh
      exact ⟨⟨fun _ => .inr (heq ▸ rfl), fun _ => rfl⟩, fun _ => rfl⟩
    · next hne' =>
      refine ⟨(I.handles s' h hh).1.trans ⟨.inl, fun h' => h'.resolve_right fun heq => ?_⟩,
        (I.handles s' h hh).2⟩
      exact hne' (Event.ran.inj heq)
  · refine (mem_insert _).2 ?_
    rcases mem_append.1 hs' with hs' | hs'
    · exact .inr (I.ran s' hs')
    · exact .inl (Event.ran.inj (mem_singleton.1 hs'))
  · rw [World.record, hne (.reserved s' id) nofun, hne (.released s') nofun]
    exact I.joined id r hr s'
  · rcases (mem_insert _).1 hs' with rfl | hs'
    · exact (I.handled s' (mem_of_lookup hs)).append
    · exact (I.handled s' hs').append

theorem finishHandle (I : w.Inv η) (hran : .ran s ∈ w.log) :
    { w with handles := w.handles.adjust s fun h => { h with finished := true } }.Inv η := by
  refine { I with
    fresh := fun t task ht s' hs' => ?_
    handles := fun s' h hh => ?_
    ran := fun s' hs' => mem_adjust.2 (I.ran s' hs')
    handled := fun s' hs' => I.handled s' (mem_adjust.1 hs') }
  · rw [lookup_eq_none, mem_adjust, ← lookup_eq_none]
    exact I.fresh t task ht s' hs'
  · rw [lookup_adjust_eq] at hh
    split at hh
    · next heq =>
      obtain ⟨h₀, hh₀, rfl⟩ := Option.map_eq_some_iff.1 hh
      exact ⟨(I.handles s' h₀ hh₀).1, fun _ => (I.handles s' h₀ hh₀).1.2 (heq ▸ hran)⟩
    · exact I.handles s' h hh

/-! ## Sessions -/

theorem notMem_of_lt (I : w.Inv η) (h : w.nextSessionId < s) : s ∉ w.sessions ∧ s ∉ w.retiringSessions := by
  constructor
  · intro hs
    obtain ⟨r, hr⟩ := mem_iff_lookup.1 hs
    exact absurd (I.lt_of_reserved (I.registered s r hr).reserved) (Nat.not_le.2 h)
  · intro hs
    exact absurd (I.lt_of_reserved (I.reserved_of_held ((I.retiring s).1 hs))) (Nat.not_le.2 h)

theorem join_joined {log : List Event} {x : Option TransactionContext}
    (hjoined : ∀ id r, transactions.lookup id = some r → ∀ s, s ∈ r.sessionIds ↔
      .reserved s (some id) ∈ log ∧ .released s ∉ log)
    (hs : .released s ∉ log) (hw : w.transactions = transactions) :
    ∀ id r, (w.join s x).transactions.lookup id = some r → ∀ s', s' ∈ r.sessionIds ↔
      .reserved s' (some id) ∈ log ++ [.reserved s (x.map TransactionContext.transactionId)] ∧
        .released s' ∉ log ++ [.reserved s (x.map TransactionContext.transactionId)] := by
  intro id r hr s'
  have hreleased : .released s' ∈ log ++ [Event.reserved s (x.map TransactionContext.transactionId)] ↔
      .released s' ∈ log := by
    rw [mem_append, mem_singleton]
    exact ⟨fun h => h.resolve_right nofun, .inl⟩
  rw [hreleased, mem_append, mem_singleton]
  cases x with
  | none =>
    rw [join, hw] at hr
    rw [hjoined id r hr s']
    exact and_congr_left fun _ => ⟨.inl, fun h => h.resolve_right nofun⟩
  | some context =>
    rw [join, hw, lookup_adjust_eq] at hr
    split at hr
    · next heq =>
      obtain ⟨r₀, hr₀, rfl⟩ := Option.map_eq_some_iff.1 hr
      rw [mem_append, mem_singleton, hjoined id r₀ hr₀ s']
      constructor
      · rintro (h | rfl)
        · exact ⟨.inl h.1, h.2⟩
        · exact ⟨.inr (by rw [heq]; rfl), hs⟩
      · rintro ⟨h | h, hnot⟩
        · exact .inl ⟨h, hnot⟩
        · exact .inr (Event.reserved.inj h).1
    · next hne =>
      rw [hjoined id r hr s']
      refine and_congr_left fun _ => ⟨.inl, fun h => h.resolve_right fun heq => ?_⟩
      exact hne (Option.some.inj (Event.reserved.inj heq).2)

theorem newSession {id : Option ℕ} (I : w.Inv .empty) (owner : ℕ)
    (hcapacity : w.sessions.size + w.retiringSessions.size < w.limit)
    (hjoined : ∀ id' r, transactions.lookup id' = some r → ∀ s, s ∈ r.sessionIds ↔
      .reserved s (some id') ∈ w.log ++ [.reserved (w.nextSessionId + 1) id] ∧
        .released s ∉ w.log ++ [.reserved (w.nextSessionId + 1) id])
    (hopened : ∀ id ∈ transactions, id ≤ w.nextTransactionId) (hid : ∀ id' ∈ id, id' ≤ w.nextTransactionId) :
    { w with
      nextSessionId := w.nextSessionId + 1
      sessions := w.sessions.insert (w.nextSessionId + 1) ⟨owner, false, false, none⟩
      transactions
      log := w.log ++ [Event.reserved (w.nextSessionId + 1) id] }.Inv ⟨[], [w.nextSessionId + 1], [], []⟩ := by
  generalize hn : w.nextSessionId + 1 = n at hjoined ⊢
  have hlt : w.nextSessionId < n := by omega
  obtain ⟨hsessions, hretiring⟩ := I.notMem_of_lt hlt
  have hnew : ∀ {s}, Reserved w.log s → s ≠ n := fun h heq =>
    absurd (I.lt_of_reserved h) (Nat.not_le.2 (heq ▸ hlt))
  have hne : ∀ e : Event, (∀ s id, e ≠ .reserved s id) → (e ∈ w.log ++ [.reserved n id] ↔ e ∈ w.log) := by
    intro e he
    rw [mem_append, mem_singleton]
    exact ⟨fun h => h.resolve_right (he n id), .inl⟩
  have hquiet : ∀ s', .activated s' ∉ [Event.reserved n id] := fun s' h => nomatch mem_singleton.1 h
  have hactivated : .activated n ∉ w.log := fun h => absurd (I.mentioned _ h) (Nat.not_le.2 hlt)
  have hreserved : Reserved (w.log ++ [.reserved n id]) n :=
    ⟨id, mem_append_right _ (mem_singleton_self _)⟩
  refine { I with
    capacity := ?_
    disjoint := fun s' hs' hr' => ?_
    launches := ?_
    launching := fun s' hs' => ?_
    registered := forall_insert (fun s' r' hr' => (I.registered s' r' hr').append (hquiet s')) ?_
    detached := fun s' r' hr' => (I.detached s' r' hr').append (hquiet s')
    fits := fun t task ht => (I.fits t task ht).append
    bare := fun t task ht s' hs' r' hr' => ?_
    mentioned := fun e he => ?_
    handles := fun s' h hh => ?_
    ran := fun s' hs' => I.ran s' ((hne (.ran s') nofun).1 hs')
    legal := I.legal.append trivial
    alive := fun s' hs' => ?_
    failed := fun s' hs' => ⟨(mem_insert _).2 (.inr (I.failed s' hs').1),
      (I.failed s' hs').2.imp_right fun h => h.mono nofun⟩
    located := fun tok htok => ?_
    joined := hjoined
    begun := fun s' id' hs' => ?_
    opened := hopened
    handled := fun s' hs' => (I.handled s' hs').append
    known := fun tok htok => (I.known tok htok).append }
  · have hinsert := size_insert_of_notMem (v := (⟨owner, false, false, none⟩ : SessionRecord)) hsessions
    simp only
    omega
  · rcases (mem_insert _).1 hs' with rfl | hs'
    · exact hretiring hr'
    · exact I.disjoint s' hs' hr'
  · rw [possess_hand (η := .empty)]
    refine I.launches.update (nodup_singleton n) fun a ha k hk => ?_
    cases mem_singleton.1 ha
    exact absurd rfl (hnew (I.launching n ⟨k, hk⟩).1)
  · rcases possessed_hand (η := .empty) hs' with hs' | hs'
    · cases mem_singleton.1 hs'
      exact ⟨hreserved, fun h => hactivated ((hne (.activated n) nofun).1 h)⟩
    · obtain ⟨h₁, h₂⟩ := I.launching s' hs'
      exact ⟨h₁.append, fun h => h₂ ((hne (.activated s') nofun).1 h)⟩
  · exact ⟨hreserved, ⟨nofun, fun h => absurd ((hne (.activated n) nofun).1 h) hactivated⟩, nofun, nofun⟩
  · rw [lookup_insert_eq] at hr'
    split at hr'
    · cases hr'
      rfl
    · exact I.bare t task ht s' hs' r' hr'
  · rcases mem_append.1 he with he | he
    · exact le_trans (I.mentioned e he) (Nat.le_of_lt hlt)
    · cases mem_singleton.1 he
      exact le_rfl
  · rw [hne (.ran s') nofun]
    exact I.handles s' h hh
  · exact (I.alive s' ((hne (.activated s') nofun).1 hs')).imp (mem_append_left _) fun h =>
      h.imp_left fun h => (mem_insert _).2 (.inr h)
  · refine (I.located tok htok).imp (fun r' hr' hrt => ?_) (fun h => .inr (.inl (h.mono nofun)))
      fun s r hr hrt => .inr (.inr ⟨s, r, hr, hrt⟩)
    exact .inl ⟨r', (lookup_insert_ne (hnew (I.known tok htok))).trans hr', hrt⟩
  · rcases mem_append.1 hs' with hs' | hs'
    · exact I.begun s' id' hs'
    · exact hid id' (Event.reserved.inj (mem_singleton.1 hs')).2.symm

theorem admitSession {transaction : Option TransactionContext} (I : w.Inv .empty) (owner : ℕ)
    (hcapacity : w.sessions.size + w.retiringSessions.size < w.limit)
    (htransaction : ∀ context ∈ transaction, context.transactionId ∈ w.transactions) :
    (({ w with
      nextSessionId := w.nextSessionId + 1
      sessions := w.sessions.insert (w.nextSessionId + 1) ⟨owner, false, false, none⟩ }.join
        (w.nextSessionId + 1) transaction).record (.reserved (w.nextSessionId + 1)
          (transaction.map TransactionContext.transactionId))).Inv ⟨[], [w.nextSessionId + 1], [], []⟩ := by
  have hreleased : .released (w.nextSessionId + 1) ∉ w.log := fun h =>
    absurd (I.mentioned _ h) (Nat.not_succ_le_self _)
  have hjoined := join_joined (x := transaction) (w := { w with
    nextSessionId := w.nextSessionId + 1
    sessions := w.sessions.insert (w.nextSessionId + 1) ⟨owner, false, false, none⟩ }) I.joined hreleased rfl
  have hnew := I.newSession owner hcapacity hjoined (fun id hid => ?_) fun id hid => ?_
  · cases transaction with
    | none => exact hnew
    | some context => exact hnew
  · cases transaction with
    | none => exact I.opened id hid
    | some context => exact I.opened id (mem_adjust.1 hid)
  · obtain ⟨context, hcontext, rfl⟩ := Option.map_eq_some_iff.1 hid
    exact I.opened _ (htransaction context hcontext)

theorem detachSession (I : w.Inv ⟨rs, l, cs, o⟩) :
    (w.detachSession s).1.Inv ⟨rs ++ (w.detachSession s).2.toList, l, cs, o⟩ := by
  unfold World.detachSession
  split
  next r hs =>
    have hmem := mem_of_lookup hs
    have hnot : s ∉ w.retiringSessions := I.disjoint s hmem
    have hsize := size_of_lookup hs
    have hcapacity := I.capacity
    have hheld : ∀ {a}, Possessed Hand.held ⟨rs ++ [(s, r)], l, cs, o⟩ w.tasks a ↔
        a = s ∨ Possessed Hand.held ⟨rs, l, cs, o⟩ w.tasks a := by
      intro a
      constructor
      · intro h
        rcases possessed_hand (η := ⟨rs, l, cs, o⟩) h with h | h
        · rw [Hand.held, map_append, mem_append] at h
          exact h.elim (fun h => .inr (.of_hand h)) fun h => .inl (mem_singleton.1 h)
        · exact .inr h
      · rintro (rfl | h)
        · exact .of_hand (mem_map_of_mem (mem_append_right _ (mem_singleton_self (a, r))))
        · exact h.mono fun ha => by
            rw [Hand.held, map_append]
            exact mem_append_left _ ha
    have hrecords : ∀ {a}, Possessed Hand.records ⟨rs, l, cs, o⟩ w.tasks a →
        Possessed Hand.records ⟨rs ++ [(s, r)], l, cs, o⟩ w.tasks a :=
      fun h => h.mono fun ha => mem_append_left _ ha
    refine { I with
      capacity := ?_
      disjoint := fun s' hs' hr' => ?_
      held := ?_
      retiring := fun s' => ?_
      registered := forall_erase I.registered
      detached := fun s' r' hr' => ?_
      bare := fun t task ht s' hs' r' hr' => I.bare t task ht s' hs' r' (lookup_of_erase hr').2
      alive := fun s' hs' => ?_
      failed := fun s' hs' => ?_
      located := fun tok htok => ?_ }
    · have hinsert := size_insert_of_notMem (v := r.ownerToken) hnot
      simp only
      omega
    · have hs'' := mem_erase.1 hs'
      rcases (mem_insert _).1 hr' with rfl | hr'
      · exact hs''.1 rfl
      · exact I.disjoint s' hs''.2 hr'
    · simp only [Option.toList_some]
      rw [possess_hand (η := ⟨rs, l, cs, o⟩)]
      have hfresh : ∀ k, s ∉ possess Hand.held ⟨rs, l, cs, o⟩ w.tasks k := fun k hk =>
        hnot ((I.retiring s).2 ⟨k, hk⟩)
      refine I.held.give hfresh (Perm.of_eq ?_)
      exact map_append
    · rw [mem_insert, I.retiring s']
      exact hheld.symm
    · rcases possessed_hand (η := ⟨rs, l, cs, o⟩) hr' with hr' | hr'
      · rcases mem_append.1 hr' with hr' | hr'
        · exact I.detached s' r' (.of_hand hr')
        · cases mem_singleton.1 hr'
          exact I.registered s r hs
      · exact I.detached s' r' hr'
    · refine (I.alive s' hs').imp_right fun h => ?_
      by_cases heq : s' = s
      · exact .inr ((mem_insert _).2 (.inl heq))
      · exact h.imp (fun h => mem_erase.2 ⟨heq, h⟩) fun h => (mem_insert _).2 (.inr h)
    · obtain ⟨hs', hne⟩ := mem_filter.1 hs'
      exact ⟨mem_erase.2 ⟨of_decide_eq_true hne, (I.failed s' hs').1⟩, (I.failed s' hs').2⟩
    · refine (I.located tok htok).imp (fun r' hr' hrt => ?_) (fun h => .inr (.inl h))
        fun s r hr hrt => .inr (.inr ⟨s, r, hrecords hr, hrt⟩)
      by_cases heq : tok.managedSessionId = s
      · rw [heq, hs] at hr'
        cases hr'
        exact .inr (.inr ⟨s, r, .of_hand (mem_append_right _ (mem_singleton_self _)), hrt⟩)
      · exact .inl ⟨r', (lookup_erase_ne heq).trans hr', hrt⟩
  next => simpa only [Option.toList_none, append_nil] using I

theorem detachSessions (I : w.Inv ⟨rs, l, cs, o⟩) :
    (w.detachSessions d).1.Inv ⟨rs ++ (w.detachSessions d).2, l, cs, o⟩ := by
  induction d generalizing w rs with
  | nil => simpa only [World.detachSessions, append_nil] using I
  | cons s d ih =>
    simp only [World.detachSessions]
    rw [← append_assoc]
    exact ih I.detachSession

/-- A session is unregistered, and its token is left to the section that runs. -/
theorem unregisterSession (I : w.Inv ⟨rs, l, [], o⟩) (hs : s ≤ w.nextSessionId)
    (hkilled : .activated s ∈ w.log → .killed s ∈ w.log) :
    (w.unregisterSession s).1.Inv ⟨rs, l, (w.unregisterSession s).2.toList, o⟩ := by
  have I' : (w.forget [s]).Inv ⟨rs, l, [], o⟩ := I.forget fun s' hs' => by
    cases mem_singleton.1 hs'
    exact hs
  have hcapacity := I.capacity
  have hsize := size_erase_le (m := w.sessions) (k := s)
  refine { I' with
    capacity := le_trans (Nat.add_le_add_right hsize _) hcapacity
    disjoint := fun s' hs' => I'.disjoint s' (mem_erase.1 hs').2
    registered := forall_erase I'.registered
    bare := fun t task ht s' hs' r' hr' => I'.bare t task ht s' hs' r' (lookup_of_erase hr').2
    alive := fun s' hs' => ?_
    failed := fun s' hs' => ?_
    located := fun tok htok => ?_ }
  · by_cases heq : s' = s
    · have hactivated : .activated s ∈ w.log := by
        rw [← heq]
        exact (mem_append.1 hs').resolve_right fun h => nomatch mem_singleton.1 h
      exact .inl (mem_append_left _ (heq ▸ hkilled hactivated))
    · exact (I'.alive s' hs').imp_right fun h => h.imp_left fun h => mem_erase.2 ⟨heq, h⟩
  · obtain ⟨hs', hne⟩ := mem_filter.1 hs'
    exact ⟨mem_erase.2 ⟨of_decide_eq_true hne, (I'.failed s' hs').1⟩, (I'.failed s' hs').2⟩
  · refine (I'.located tok htok).imp (fun r' hr' hrt => ?_) (fun h => .inr (.inl (h.mono nofun)))
      fun s r hr hrt => .inr (.inr ⟨s, r, hr, hrt⟩)
    by_cases heq : tok.managedSessionId = s
    · refine .inr (.inl (.of_hand (Option.mem_toList.2 ?_)))
      rw [heq] at hr'
      exact Option.bind_eq_some_iff.2 ⟨r', hr', hrt⟩
    · exact .inl ⟨r', (lookup_erase_ne heq).trans hr', hrt⟩

/-- The end of a teardown on one record: it is published again, or its process is known to be gone. -/
theorem settle (I : w.Inv ⟨(s, r) :: rs, l, cs, []⟩) (htoken : r.eventToken = none)
    (hdone : b = false → .activated s ∈ w.log → .killed s ∈ w.log) :
    (w.settle s r b).Inv ⟨rs, l, cs, if b then [s] else []⟩ := by
  have hmine : s ∈ possess Hand.held ⟨(s, r) :: rs, l, cs, []⟩ w.tasks .hand := mem_cons_self
  have hretiring : s ∈ w.retiringSessions := (I.retiring s).2 ⟨.hand, hmine⟩
  have hsessions : s ∉ w.sessions := fun h => I.disjoint s h hretiring
  have hnodup : s ∉ rs.map Prod.fst := (nodup_cons.1 (I.held.nodup .hand)).1
  obtain ⟨ownerToken, howner⟩ := mem_iff_lookup.1 hretiring
  have hsize := size_of_lookup howner
  have hcapacity := I.capacity
  have hheld : Custody (possess Hand.held ⟨rs, l, cs, if b then [s] else []⟩ w.tasks) := by
    rw [possess_hand (η := ⟨(s, r) :: rs, l, cs, []⟩)]
    exact I.held.update (nodup_cons.1 (I.held.nodup .hand)).2 fun a ha k hk =>
      I.held.unique k .hand a hk (mem_cons_of_mem s ha)
  have hretired : ∀ a, a ∈ w.retiringSessions.erase s ↔
      Possessed Hand.held ⟨rs, l, cs, if b then [s] else []⟩ w.tasks a := by
    intro a
    rw [mem_erase, I.retiring a]
    constructor
    · rintro ⟨hne, k, hk⟩
      cases k with
      | task t => exact ⟨.task t, hk⟩
      | hand => exact ⟨.hand, (mem_cons.1 hk).resolve_left hne⟩
    · rintro ⟨k, hk⟩
      cases k with
      | task t => exact ⟨(fun heq => nomatch I.held.unique (.task t) .hand s (heq ▸ hk) hmine), ⟨.task t, hk⟩⟩
      | hand => exact ⟨fun heq => hnodup (heq ▸ hk), ⟨.hand, mem_cons_of_mem _ hk⟩⟩
  have hrecords : ∀ {a}, Possessed Hand.records ⟨rs, l, cs, if b then [s] else []⟩ w.tasks a →
      Possessed Hand.records ⟨(s, r) :: rs, l, cs, []⟩ w.tasks a :=
    fun h => h.mono fun ha => mem_cons_of_mem _ ha
  have hlocated : ∀ {tok : ManagedSessionEventToken} {s' r'}, r'.eventToken = some tok →
      Possessed Hand.records ⟨(s, r) :: rs, l, cs, []⟩ w.tasks (s', r') →
        Possessed Hand.records ⟨rs, l, cs, if b then [s] else []⟩ w.tasks (s', r') := by
    rintro tok s' r' hrt ⟨k, hk⟩
    cases k with
    | task t => exact ⟨.task t, hk⟩
    | hand =>
      rcases mem_cons.1 hk with heq | hk
      · cases heq
        rw [htoken] at hrt
        cases hrt
      · exact ⟨.hand, hk⟩
  cases b with
  | true =>
    have hfits := I.detached s r (.of_hand mem_cons_self)
    refine { I with
      capacity := ?_
      disjoint := fun s' hs' hr' => ?_
      held := hheld
      retiring := hretired
      registered := forall_insert I.registered hfits
      detached := fun s' r' hr' => I.detached s' r' (hrecords hr')
      bare := fun t task ht s' hs' r' hr' => ?_
      alive := fun s' hs' => ?_
      failed := fun s' hs' => ?_
      located := fun tok htok => ?_ }
    · have hinsert := size_insert_of_notMem (v := r) hsessions
      simp only [World.settle, if_true]
      omega
    · have hr'' := mem_erase.1 hr'
      rcases (mem_insert _).1 hs' with rfl | hs'
      · exact hr''.1 rfl
      · exact I.disjoint s' hs' hr''.2
    · rw [World.settle, if_pos rfl, lookup_insert_eq] at hr'
      split at hr'
      · cases hr'
        exact htoken
      · exact I.bare t task ht s' hs' r' hr'
    · refine (I.alive s' hs').imp_right fun h => ?_
      by_cases heq : s' = s
      · exact .inl ((mem_insert _).2 (.inl heq))
      · exact h.imp (fun h => (mem_insert _).2 (.inr h)) fun h => mem_erase.2 ⟨heq, h⟩
    · rcases mem_cons.1 hs' with rfl | hs'
      · exact ⟨(mem_insert _).2 (.inl rfl), .inr (.of_hand (mem_singleton_self _))⟩
      · exact ⟨(mem_insert _).2 (.inr (I.failed s' hs').1),
          (I.failed s' hs').2.imp_right fun h => h.mono nofun⟩
    · refine (I.located tok htok).imp (fun r' hr' hrt => ?_) (fun h => .inr (.inl h))
        fun s r hr hrt => .inr (.inr ⟨s, r, hlocated hrt hr, hrt⟩)
      refine .inl ⟨r', (lookup_insert_ne fun heq => ?_).trans hr', hrt⟩
      rw [heq] at hr'
      exact hsessions (mem_of_lookup hr')
  | false =>
    refine { I with
      capacity := ?_
      disjoint := fun s' hs' hr' => I.disjoint s' hs' (mem_erase.1 hr').2
      held := hheld
      retiring := hretired
      detached := fun s' r' hr' => I.detached s' r' (hrecords hr')
      alive := fun s' hs' => ?_
      located := fun tok htok => ?_ }
    · simp only [World.settle, Bool.false_eq_true, if_false]
      omega
    · by_cases heq : s' = s
      · exact .inl (heq ▸ hdone rfl (heq ▸ hs'))
      · exact (I.alive s' hs').imp_right fun h => h.imp_right fun h => mem_erase.2 ⟨heq, h⟩
    · exact (I.located tok htok).imp (fun r' hr' hrt => .inl ⟨r', hr', hrt⟩) (fun h => .inr (.inl h))
        fun s r hr hrt => .inr (.inr ⟨s, r, hlocated hrt hr, hrt⟩)

/-! ## The retry center -/

theorem enqueueTarget {q : RetryTarget} (I : w.Inv ⟨rs, l, cs, q.sessions⟩) :
    (w.enqueueTarget q).Inv ⟨rs, l, cs, []⟩ := by
  have hsub : w.targets ⊆ (w.enqueueTarget q).targets := by
    unfold World.enqueueTarget
    split
    · exact Subset.refl _
    · exact subset_append_left _ _
  have hmem : q ∈ (w.enqueueTarget q).targets := by
    unfold World.enqueueTarget
    split
    next h => exact h
    next => exact mem_append_right _ (mem_singleton_self _)
  have hframe : w.enqueueTarget q = { w with targets := (w.enqueueTarget q).targets } := by
    unfold World.enqueueTarget
    split <;> rfl
  rw [hframe]
  have I' : { w with targets := (w.enqueueTarget q).targets }.Inv ⟨rs, l, cs, q.sessions⟩ :=
    { I with failed := fun s hs => (I.failed s hs).imp_right fun h => h.imp_left fun h => hsub h }
  refine I'.letGo (Sublist.refl _) (fun _ h _ => h) fun s hs _ => .inl ?_
  cases q with
  | owner => cases hs
  | session s' => cases mem_singleton.1 hs; exact hmem

theorem popTarget {target : RetryTarget} (I : w.Inv ⟨rs, l, cs, []⟩) (htargets : w.targets = target :: rest) :
    { w with targets := rest }.Inv ⟨rs, l, cs, target.sessions⟩ := by
  refine { I with failed := fun s hs => (I.failed s hs).imp_right fun h => ?_ }
  rw [htargets] at h
  rcases h with h | h
  · rcases mem_cons.1 h with rfl | h
    · exact .inr (.of_hand (mem_singleton_self _))
    · exact .inl h
  · exact .inr (h.mono nofun)

end Inv
end World

end LuaSkills.ManagedSessions
