import LuaSkills.ProcessSession.Accounting

/-!
# Moves

What a section takes into its hand, what it puts down, and what it changes otherwise. Every move keeps
the accounts.
-/

/-- Of two lists with a common element, in a family without repetition, both are the same one. -/
theorem List.eq_of_mem_flatMap {α β : Type} {f : α → List β} {l : List α} {a a' : α} {b : β}
    (h : (l.flatMap f).Nodup) (ha : a ∈ l) (ha' : a' ∈ l) (hb : b ∈ f a) (hb' : b ∈ f a') : a = a' := by
  have hdisjoint := (nodup_flatMap.1 h).2
  have : Std.Symm (Function.onFun Disjoint f) := ⟨fun _ _ hxy => hxy.symm⟩
  by_contra hne
  exact hdisjoint.forall ha ha' hne hb hb'

namespace LuaSkills.ProcessSession

open AList List

variable {w w' : World} {η : Hand} {state state' : ManagedProcessSessionState} {task task' : Task}
  {t s c p p' : ℕ} {cs ks : List ℕ} {queue : List DetachedChildReapRecord} {pass : Pass}
  {record : DetachedChildReapRecord} {rest : List DetachedChildReapRecord} {log : List Event} {k : ℕ}

theorem Hand.add_empty : η.add .empty = η := by
  simp only [Hand.add, Hand.empty, Nat.add_zero, append_nil]

theorem Task.session_of_knows (task : Task) (h : s ∈ task.knows) : s ∈ task.session := by
  unfold Task.knows at h
  split at h
  · exact h
  · exact h
  · exact h
  · cases h

namespace World.Inv

/-! ## Tasks and sessions -/

theorem takeTask (I : w.Inv η) (ht : w.tasks.lookup t = some task) :
    (w.endTask t).Inv (η.add task.hand) := { I with
  reserved := by
    have hsum := sumBy_of_lookup (f := fun _ task => task.hand.permits) ht
    have hreserved := I.reserved
    simp only [livePermits, endTask, Hand.add] at hreserved ⊢
    omega
  children := holdings_takeTask I.children rfl ht
  keepalives := holdings_takeTask I.keepalives rfl ht
  saw := forall_erase I.saw
  knows := forall_erase I.knows
  on := forall_erase I.on }

theorem putTask (I : (w.endTask t).Inv (η.add task.hand))
    (hsaw : ∀ c ∈ task.saw, w.processes.lookup c = some .reaped)
    (hknows : ∀ s ∈ task.knows, ∀ state, w.sessions.lookup s = some state → state.finalStatus)
    (hon : ∀ s ∈ task.session, s < w.nextSession) : (w.setTask t task).Inv η := by
  have htasks : w.tasks.insert t task = (w.endTask t).tasks.insert t task := insert_erase.symm
  have ht : t ∉ (w.endTask t).tasks := fun hmem => (mem_erase.1 hmem).1 rfl
  have hset : w.setTask t task = (w.endTask t).setTask t task := by rw [setTask, htasks]; rfl
  rw [hset]
  refine ⟨?_, I.bounded, holdings_putTask I.children rfl ht, holdings_putTask I.keepalives rfl ht, I.spawned,
    I.collected, forall_insert I.saw hsaw, forall_insert I.knows hknows,
    forall_insert I.on hon, I.settled, I.opened, I.passed, I.handed, I.legal⟩
  have hsum := sumBy_insert (m := (w.endTask t).tasks) (k := t) (v := task)
    (f := fun _ task => task.hand.permits)
  have hreserved := I.reserved
  simp only [livePermits, setTask, Hand.add, erase_of_notMem ht] at hsum hreserved ⊢
  omega

theorem beginTask (I : w.Inv (η.add task.hand)) (ht : t ∉ w.tasks) (hsaw : task.saw = none)
    (hknows : task.knows = none) (hon : ∀ s ∈ task.session, s < w.nextSession) :
    (w.setTask t task).Inv η := by
  have hend : w.endTask t = w := by rw [endTask, erase_of_notMem ht]
  refine putTask (by rwa [hend]) ?_ ?_ hon
  · rw [hsaw]; exact nofun
  · rw [hknows]; exact nofun

theorem updateTask (I : w.Inv η) (ht : w.tasks.lookup t = some task) (hhand : task'.hand = task.hand)
    (hsaw : ∀ c ∈ task'.saw, w.processes.lookup c = some .reaped)
    (hknows : ∀ s ∈ task'.knows, ∀ state, w.sessions.lookup s = some state → state.finalStatus)
    (hon : ∀ s ∈ task'.session, s < w.nextSession) : (w.setTask t task').Inv η := by
  have htaken := I.takeTask ht
  rw [← hhand] at htaken
  exact putTask htaken hsaw hknows hon

/-- A task that has nothing ends. -/
theorem finishTask (I : w.Inv η) (ht : w.tasks.lookup t = some task) (hhand : task.hand = .empty) :
    (w.endTask t).Inv η := by
  have htaken := I.takeTask ht
  rwa [hhand, Hand.add_empty] at htaken

/-- A kill returns, or leads to the rest of the drop. -/
theorem returned {dropping killed : Bool} (I : w.Inv η) (ht : w.tasks.lookup t = some task)
    (hhand : task.hand = .empty) (hs : s < w.nextSession)
    (hkilled : killed → ∀ state, w.sessions.lookup s = some state → state.finalStatus) :
    (w.returned t s dropping killed).Inv η := by
  unfold World.returned
  split
  · refine I.updateTask ht hhand.symm nofun (fun s' hs' => ?_) fun s' hs' => ?_
    · cases killed with
      | false => cases hs'
      | true => cases hs'; exact hkilled rfl
    · cases hs'; exact hs
  · exact I.finishTask ht hhand

theorem takeSession (I : w.Inv η) (hs : w.sessions.lookup s = some state) :
    (w.endSession s).Inv (η.add state.hand) := { I with
  reserved := by
    have hsum := sumBy_of_lookup (f := fun _ state => state.hand.permits) hs
    have hreserved := I.reserved
    simp only [livePermits, endSession, Hand.add] at hreserved ⊢
    omega
  children := holdings_takeSession I.children rfl hs
  keepalives := holdings_takeSession I.keepalives rfl hs
  knows t task ht s' hs' := fun state' hstate' =>
    I.knows t task ht s' hs' state' (lookup_of_erase hstate').2
  settled := forall_erase I.settled
  opened := forall_erase I.opened }

theorem putSession (I : (w.endSession s).Inv (η.add state.hand)) (hsettled : state.Settled w.processes)
    (hknown : ∀ t task, w.tasks.lookup t = some task → s ∈ task.knows → state.finalStatus)
    (hs : s < w.nextSession) : (w.setSession s state).Inv η := by
  have hsessions : w.sessions.insert s state = (w.endSession s).sessions.insert s state :=
    insert_erase.symm
  have hmem : s ∉ (w.endSession s).sessions := fun hmem => (mem_erase.1 hmem).1 rfl
  have hset : w.setSession s state = (w.endSession s).setSession s state := by
    rw [setSession, hsessions]; rfl
  rw [hset]
  refine ⟨?_, I.bounded, holdings_putSession I.children rfl hmem, holdings_putSession I.keepalives rfl hmem,
    I.spawned, I.collected, I.saw, fun t task ht s' hs' => ?_, I.on, forall_insert I.settled hsettled,
    forall_insert I.opened hs, I.passed, I.handed, I.legal⟩
  · have hsum := sumBy_insert (m := (w.endSession s).sessions) (k := s) (v := state)
      (f := fun _ state => state.hand.permits)
    have hreserved := I.reserved
    simp only [livePermits, setSession, Hand.add, erase_of_notMem hmem] at hsum hreserved ⊢
    omega
  · intro state' hstate'
    rw [setSession, lookup_insert_eq] at hstate'
    split at hstate'
    · next heq =>
      cases hstate'
      exact hknown t task ht (heq ▸ hs')
    · exact I.knows t task ht s' hs' state' hstate'

theorem openSession (I : w.Inv (η.add state.hand)) (hsettled : state.Settled w.processes) :
    ({ w with nextSession := w.nextSession + 1 }.setSession w.nextSession state).Inv η := by
  have hfresh : w.nextSession ∉ w.sessions := fun hmem => by
    obtain ⟨state, hstate⟩ := mem_iff_lookup.1 hmem
    exact Nat.lt_irrefl _ (I.opened _ state hstate)
  have hend : w.endSession w.nextSession = w := by rw [endSession, erase_of_notMem hfresh]
  have I₁ : { w.endSession w.nextSession with nextSession := w.nextSession + 1 }.Inv (η.add state.hand) := by
    rw [hend]
    exact { I with
      on := fun t task ht s hs => Nat.lt_succ_of_lt (I.on t task ht s hs)
      opened := fun s state hs => Nat.lt_succ_of_lt (I.opened s state hs) }
  refine putSession I₁ hsettled (fun t task ht hknows => ?_) (Nat.lt_succ_self _)
  exact absurd (I.on t task ht _ (task.session_of_knows hknows)) (Nat.lt_irrefl _)

theorem updateSession (I : w.Inv η) (hs : w.sessions.lookup s = some state)
    (hhand : state'.hand = state.hand) (hstatus : state.finalStatus → state'.finalStatus)
    (hsettled : state'.Settled w.processes) : (w.setSession s state').Inv η := by
  have htaken := I.takeSession hs
  rw [← hhand] at htaken
  exact putSession htaken hsettled
    (fun t task ht hknows => hstatus (I.knows t task ht s hknows state hs)) (I.opened s state hs)

/-! ## Permits, children and keepalives -/

theorem newPermit (I : w.Inv ⟨p, cs, ks⟩) (h : w.reserved < detachedChildReaperCapacity) :
    { w with reserved := w.reserved + 1 }.Inv ⟨p + 1, cs, ks⟩ where
  __ := I
  reserved := by
    have hreserved := I.reserved
    simp only [livePermits] at hreserved ⊢
    omega
  bounded := h

theorem dropPermit (I : w.Inv ⟨p + 1, cs, ks⟩) : w.dropPermit.Inv ⟨p, cs, ks⟩ := by
  have hreserved := I.reserved
  have hbounded := I.bounded
  simp only [livePermits] at hreserved
  have hsub : fetchSub w.reserved = w.reserved - 1 := by
    rw [fetchSub, if_neg (by omega)]
  refine { I with reserved := ?_, bounded := ?_ }
  · simp only [World.dropPermit, livePermits, hsub]
    omega
  · simp only [World.dropPermit, hsub]
    omega

theorem newChild (I : w.Inv ⟨p, cs, ks⟩) :
    { w with processes := w.processes.insert w.nextChild .running, nextChild := w.nextChild + 1 }.Inv
      ⟨p, cs ++ [w.nextChild], ks⟩ := by
  have hne : ∀ {c q}, w.processes.lookup c = some q →
      (w.processes.insert w.nextChild .running).lookup c = some q := by
    intro c q hc
    rw [lookup_insert_ne fun heq => ?_]
    · exact hc
    · exact absurd (I.spawned c q hc) (by rw [heq]; exact Nat.lt_irrefl _)
  have hold : ∀ {c}, (w.processes.insert w.nextChild .running).lookup c = some .reaped →
      w.processes.lookup c = some .reaped := by
    intro c hc
    rw [lookup_insert_eq] at hc
    split at hc
    · cases hc
    · exact hc
  refine { I with
    children := ?_
    spawned := forall_insert (fun c q hc => Nat.lt_succ_of_lt (I.spawned c q hc)) (Nat.lt_succ_self _)
    collected := fun c => (I.collected c).trans ⟨hne, hold⟩
    saw := fun t task ht c hc => hne (I.saw t task ht c hc)
    settled := fun s state hs => ⟨(I.settled s state hs).permit,
      fun hstatus c hc => hne ((I.settled s state hs).status hstatus c hc), (I.settled s state hs).child⟩
    passed := fun r hr => hne (I.passed r hr) }
  have C := I.children.give (i := .hand) (t := cs ++ [w.nextChild]) (.refl _)
  rw [childrenOf, ← holdings_hand (θ := ⟨p, cs ++ [w.nextChild], ks⟩)] at C
  exact C.mono fun c hc => hne hc

theorem newKeepalive (I : w.Inv ⟨p, cs, ks⟩) :
    { w with nextKeepalive := w.nextKeepalive + 1 }.Inv ⟨p, cs, ks ++ [w.nextKeepalive]⟩ := by
  refine { I with keepalives := ?_ }
  have C := I.keepalives.give (i := .hand) (t := ks ++ [w.nextKeepalive]) (.refl _)
  rwa [keepalivesOf, ← holdings_hand (θ := ⟨p, cs, ks ++ [w.nextKeepalive]⟩)] at C

theorem newKeepalives (I : w.Inv ⟨p, cs, []⟩) (keepalive : Bool) : ∃ n ks,
    w.newKeepalives keepalive = ({ w with nextKeepalive := n }, ks) ∧
      { w with nextKeepalive := n }.Inv ⟨p, cs, ks⟩ := by
  cases keepalive with
  | false => exact ⟨_, _, rfl, I⟩
  | true => exact ⟨_, _, rfl, I.newKeepalive⟩

/-- Children that were collected may be forgotten. -/
theorem forget (I : w.Inv ⟨p, cs, ks⟩) (h : ∀ c ∈ cs, w.processes.lookup c = some .reaped) :
    w.Inv ⟨p, [], ks⟩ := by
  refine { I with children := ?_ }
  have C := I.children.leave (i := .hand) (r := []) (m := cs) (.refl _) h
  rwa [childrenOf, ← holdings_hand (θ := ⟨p, [], ks⟩)] at C

theorem mem_released : k ∈ log.filterMap Event.release ↔ .released k ∈ log := by
  rw [mem_filterMap]
  constructor
  · rintro ⟨e, he, hk⟩
    cases e with
    | released k' => cases hk; exact he
    | _ => cases hk
  · exact fun hk => ⟨_, hk, rfl⟩

theorem mem_reaper (hr : r ∈ w.records) (hk : k ∈ r.keepalive) :
    k ∈ w.keepalivesOf η .reaper := mem_flatMap.2 ⟨r, hr, hk⟩

/-- A keepalive in the hand was not released, and not handed off. -/
theorem unreleased (I : w.Inv ⟨p, cs, ks⟩) (hk : k ∈ ks) : .released k ∉ w.log := fun hmem =>
  nomatch I.keepalives.custody.unique .hand .released k hk (mem_released.2 hmem)

theorem unhanded (I : w.Inv ⟨p, cs, ks⟩) (hk : k ∈ ks) (hmem : .handedOff c ks' ∈ w.log) : k ∉ ks' := by
  intro hk'
  rcases I.handed c ks' hmem k hk' with hreleased | ⟨r, hr, -, hkr⟩
  · exact I.unreleased hk hreleased
  · exact nomatch I.keepalives.custody.unique .hand .reaper k hk (mem_reaper hr hkr)

end World.Inv

/-- The release of keepalives whose children were collected. -/
theorem legal_releaseAll (h : LegalLog Legal log) (hks : ks.Nodup) (hnew : ∀ k ∈ ks, .released k ∉ log)
    (hcollected : ∀ k ∈ ks, ∀ c ks', .handedOff c ks' ∈ log → k ∈ ks' → .reaped c ∈ log) :
    LegalLog Legal (log ++ ks.map .released) := by
  induction ks generalizing log with
  | nil => rwa [map_nil, append_nil]
  | cons k ks ih =>
    obtain ⟨hk, hks⟩ := nodup_cons.1 hks
    rw [map_cons, append_cons]
    refine ih (h.append ⟨hnew k mem_cons_self, hcollected k mem_cons_self⟩) hks (fun k' hk' hmem => ?_)
      fun k' hk' c ks' hmem hkk' => ?_
    · rcases mem_append.1 hmem with hmem | hmem
      · exact hnew k' (mem_cons_of_mem _ hk') hmem
      · cases mem_singleton.1 hmem
        exact hk hk'
    · rcases mem_append.1 hmem with hmem | hmem
      · exact mem_append_left _ (hcollected k' (mem_cons_of_mem _ hk') c ks' hmem hkk')
      · cases mem_singleton.1 hmem

theorem filterMap_release : (log ++ ks.map Event.released).filterMap Event.release =
    log.filterMap Event.release ++ ks := by
  rw [filterMap_append, filterMap_map]
  exact congrArg _ filterMap_some

theorem reaped_mem_releaseAll : .reaped c ∈ log ++ ks.map Event.released ↔ .reaped c ∈ log := by
  rw [mem_append, mem_map]
  exact ⟨fun h => h.resolve_right (by rintro ⟨k, -, hk⟩; cases hk), .inl⟩

theorem handedOff_mem_releaseAll :
    .handedOff c ks' ∈ log ++ ks.map Event.released ↔ .handedOff c ks' ∈ log := by
  rw [mem_append, mem_map]
  exact ⟨fun h => h.resolve_right (by rintro ⟨k, -, hk⟩; cases hk), .inl⟩

namespace World.Inv

/-- The keepalives in the hand are released. They were never handed off. -/
theorem releaseAll (I : w.Inv ⟨p, cs, ks⟩) : (w.releaseAll ks).Inv ⟨p, cs, []⟩ := by
  refine { I with keepalives := ?_, collected := ?_, handed := ?_, legal := ?_ }
  · have C := I.keepalives.move (i := .hand) (j := .released) nofun (r := []) (m := ks) (.refl _)
      (.refl _)
    rw [keepalivesOf, ← holdings_hand (θ := ⟨p, cs, []⟩), ← holdings_released] at C
    rw [keepalivesOf, World.releaseAll, filterMap_release]
    exact C
  · exact fun c => reaped_mem_releaseAll.trans (I.collected c)
  · intro c ks' hmem k hk
    exact (I.handed c ks' (handedOff_mem_releaseAll.1 hmem) k hk).imp_left (mem_append_left _)
  · exact legal_releaseAll I.legal (I.keepalives.custody.nodup .hand) (fun k hk => I.unreleased hk)
      fun k hk c ks' hmem hk' => absurd hk' (I.unhanded hk hmem)

/-- Everything in the hand goes to the reaper. -/
theorem handoff {guard : Bool} (I : w.Inv ⟨1, [c], ks⟩) : (w.handoff c ks guard).Inv .empty := by
  have hrecords : (w.handoff c ks guard).records.Perm (w.records ++ [⟨c, ks, guard, false⟩]) := by
    simp only [records, World.handoff, append_assoc]
    exact perm_append_comm.append_left _
  have hmem : ∀ r ∈ w.records, r ∈ (w.handoff c ks guard).records := fun r hr =>
    hrecords.mem_iff.2 (mem_append_left _ hr)
  refine ⟨?_, I.bounded, ?_, ?_, I.spawned, fun c' => ?_, I.saw, I.knows, I.on, I.settled, I.opened, I.passed,
    fun c' ks' hlog k hk => ?_, I.legal.append fun k hk => ⟨I.unreleased hk, fun c' ks' hlog =>
    I.unhanded hk hlog⟩⟩
  · have hreserved := I.reserved
    simp only [livePermits, World.handoff, Hand.empty, length_append, length_singleton] at hreserved ⊢
    omega
  · refine holdings_handoff (η := .empty) (m := ⟨1, [c], ks⟩) I.children rfl ?_
    have hperm := hrecords.map DetachedChildReapRecord.child
    rwa [map_append] at hperm
  · have hreleased : (w.handoff c ks guard).log.filterMap Event.release = w.log.filterMap Event.release := by
      rw [World.handoff, filterMap_append]
      exact append_nil _
    rw [keepalivesOf, hreleased]
    refine holdings_handoff (η := .empty) (m := ⟨1, [c], ks⟩) I.keepalives rfl ?_
    have hperm := hrecords.flatMap_right DetachedChildReapRecord.keepalive
    rwa [flatMap_append, flatMap_singleton] at hperm
  · refine Iff.trans ?_ (I.collected c')
    rw [World.handoff, mem_append]
    exact ⟨fun h => h.resolve_right (by rw [mem_singleton]; exact nofun), .inl⟩
  · rcases mem_append.1 hlog with hlog | hlog
    · rcases I.handed c' ks' hlog k hk with hreleased | ⟨r, hr, hrk⟩
      · exact .inl (mem_append_left _ hreleased)
      · exact .inr ⟨r, hmem r hr, hrk⟩
    · cases mem_singleton.1 hlog
      exact .inr ⟨_, hrecords.mem_iff.2 (mem_append_right _ (mem_singleton_self _)), rfl, hk⟩

/-! ## Processes -/

theorem exited (I : w.Inv η) (hc : w.processes.lookup c = some .running) :
    { w with processes := w.processes.insert c .exited }.Inv η := by
  have hreaped : ∀ {c'}, (w.processes.insert c .exited).lookup c' = some .reaped ↔
      w.processes.lookup c' = some .reaped := by
    intro c'
    rw [lookup_insert_eq]
    split
    · next heq => rw [heq, hc]; exact ⟨nofun, nofun⟩
    · exact .rfl
  exact { I with
    children := I.children.mono fun c' => hreaped.2
    spawned := forall_insert I.spawned (I.spawned c _ hc)
    collected := fun c' => (I.collected c').trans hreaped.symm
    saw := fun t task ht c' hc' => hreaped.2 (I.saw t task ht c' hc')
    settled := fun s state hs => ⟨(I.settled s state hs).permit,
      fun hstatus c' hc' => hreaped.2 ((I.settled s state hs).status hstatus c' hc'),
      (I.settled s state hs).child⟩
    passed := fun r hr => hreaped.2 (I.passed r hr) }

theorem collect (I : w.Inv η) (hc : w.processes.lookup c = some .exited) :
    { w with processes := w.processes.insert c .reaped, log := w.log ++ [Event.reaped c] }.Inv η := by
  have hreaped : ∀ {c'}, w.processes.lookup c' = some .reaped →
      (w.processes.insert c .reaped).lookup c' = some .reaped := by
    intro c' hc'
    rw [lookup_insert_eq]
    split
    · rfl
    · exact hc'
  have hreleased : (w.log ++ [Event.reaped c]).filterMap Event.release = w.log.filterMap Event.release := by
    rw [filterMap_append]
    exact append_nil _
  refine { I with
    children := I.children.mono fun c' => hreaped
    keepalives := ?_
    spawned := forall_insert I.spawned (I.spawned c _ hc)
    collected := fun c' => ?_
    saw := fun t task ht c' hc' => hreaped (I.saw t task ht c' hc')
    settled := fun s state hs => ⟨(I.settled s state hs).permit,
      fun hstatus c' hc' => hreaped ((I.settled s state hs).status hstatus c' hc'),
      (I.settled s state hs).child⟩
    passed := fun r hr => hreaped (I.passed r hr)
    handed := fun c' ks hmem k hk => ?_
    legal := I.legal.append fun hmem => ?_ }
  · rw [keepalivesOf, hreleased]
    exact I.keepalives
  · rw [mem_append, mem_singleton, I.collected c', lookup_insert_eq]
    split
    · next heq => exact ⟨fun _ => rfl, fun _ => .inr (heq ▸ rfl)⟩
    · next hne => exact ⟨fun h => h.resolve_right fun heq => hne (Event.reaped.inj heq), .inl⟩
  · rcases mem_append.1 hmem with hmem | hmem
    · exact (I.handed c' ks hmem k hk).imp_left (mem_append_left _)
    · cases mem_singleton.1 hmem
  · rw [I.collected c, hc] at hmem
    cases hmem

theorem tryWait (I : w.Inv η) : ∃ processes log exited,
    w.tryWait c = ({ w with processes, log }, exited) ∧ { w with processes, log }.Inv η ∧
      (exited → processes.lookup c = some .reaped) := by
  unfold World.tryWait
  split
  · next hc => exact ⟨_, _, _, rfl, I.collect hc, fun _ => lookup_insert _⟩
  · next hc => exact ⟨_, _, _, rfl, I, fun _ => hc⟩
  · exact ⟨_, _, _, rfl, I, nofun⟩

theorem waitUntil {exited ok : Bool} (I : w.Inv η) (h : w.waitUntil c ok = some (w', exited)) :
    ∃ processes log, w' = { w with processes, log } ∧ { w with processes, log }.Inv η ∧
      (exited → processes.lookup c = some .reaped) := by
  obtain ⟨processes, log, b, hwait, I', hreaped⟩ := I.tryWait (c := c)
  unfold World.waitUntil at h
  rw [hwait] at h
  split at h
  · cases b with
    | false => cases h
    | true => cases h; exact ⟨processes, log, rfl, I', fun _ => hreaped rfl⟩
  · cases h
    exact ⟨_, _, rfl, I, nofun⟩

/-! ## The reaper -/

/-- The reaper moves its records around. A slot that it gives up is in the hand. -/
theorem moveRecords (I : w.Inv ⟨p, cs, ks⟩)
    (hcount : queue.length + pass.pending.length + p' = w.queue.length + w.pass.pending.length + p)
    (hrecords : ((queue ++ pass.records).map fun r => (r.child, r.keepalive)).Perm
      (w.records.map fun r => (r.child, r.keepalive)))
    (hpassed : ∀ r ∈ pass.records, w.processes.lookup r.child = some .reaped) :
    { w with queue, pass }.Inv ⟨p', cs, ks⟩ := by
  refine ⟨?_, I.bounded, ?_, ?_, I.spawned, I.collected, I.saw, I.knows, I.on, I.settled, I.opened, hpassed,
    fun c ks' hmem k hk => ?_, I.legal⟩
  · have hreserved := I.reserved
    simp only [livePermits] at hreserved ⊢
    omega
  · have hperm := hrecords.map Prod.fst
    rw [map_map, map_map] at hperm
    have C := I.children.perm (i := .reaper) hperm
    rwa [childrenOf, ← holdings_reaper] at C
  · have hperm := hrecords.flatMap_right Prod.snd
    rw [flatMap_map, flatMap_map] at hperm
    have C := I.keepalives.perm (i := .reaper) hperm
    rwa [keepalivesOf, ← holdings_reaper] at C
  · refine (I.handed c ks' hmem k hk).imp_right fun ⟨r, hr, hrc, hrk⟩ => ?_
    obtain ⟨r', hr', heq⟩ := mem_map.1 (hrecords.mem_iff.2 (mem_map_of_mem hr))
    cases r with | mk _ _ _ _ =>
    cases r' with | mk _ _ _ _ =>
    cases heq
    exact ⟨_, hr', hrc, hrk⟩

/-- The drop of a record whose child was collected. -/
theorem release (I : w.Inv .empty) (hpass : w.pass = .releasing record rest) :
    ({ w with pass := .reaping rest }.releaseAll record.keepalive).Inv .empty := by
  have hrecords : w.records.Perm ((w.queue ++ rest) ++ [record]) := by
    simp only [records, hpass, Pass.records, append_assoc]
    exact (perm_append_singleton record rest).symm.append_left _
  have hmem : record ∈ w.records :=
    hrecords.mem_iff.2 (mem_append_right _ (mem_singleton_self _))
  have hcollected : .reaped record.child ∈ w.log := by
    rw [I.collected]
    exact I.passed record (by rw [hpass]; exact mem_cons_self)
  have hhanded : ∀ k ∈ record.keepalive, .released k ∉ w.log := fun k hk hreleased =>
    nomatch I.keepalives.custody.unique .reaper .released k (mem_reaper hmem hk) (mem_released.2 hreleased)
  have hkeepalives := hrecords.flatMap_right DetachedChildReapRecord.keepalive
  rw [flatMap_append, flatMap_singleton] at hkeepalives
  refine { I with
    reserved := ?_, children := ?_, keepalives := ?_, collected := ?_, passed := ?_, handed := ?_, legal := ?_ }
  · have hreserved := I.reserved
    rw [hpass] at hreserved
    exact hreserved
  · have hchildren := hrecords.map DetachedChildReapRecord.child
    rw [map_append] at hchildren
    have C := I.children.leave (i := .reaper) (m := [record.child]) hchildren.symm fun c hc => by
      cases mem_singleton.1 hc
      exact (I.collected _).1 hcollected
    rwa [childrenOf, ← holdings_reaper] at C
  · have C := I.keepalives.move (i := .reaper) (j := .released) nofun hkeepalives.symm (.refl _)
    rw [keepalivesOf, ← holdings_reaper, ← holdings_released] at C
    rw [keepalivesOf, World.releaseAll, filterMap_release]
    exact C
  · exact fun c => reaped_mem_releaseAll.trans (I.collected c)
  · exact fun r hr => I.passed r (by rw [hpass]; exact mem_cons_of_mem _ hr)
  · intro c ks hlog k hk
    rcases I.handed c ks (handedOff_mem_releaseAll.1 hlog) k hk with hreleased | ⟨r, hr, hrc, hrk⟩
    · exact .inl (mem_append_left _ hreleased)
    · rcases mem_append.1 (hrecords.mem_iff.1 hr) with hr | hr
      · exact .inr ⟨r, hr, hrc, hrk⟩
      · cases mem_singleton.1 hr
        exact .inl (mem_append_right _ (mem_map_of_mem hrk))
  · have hnodup : (w.records.flatMap (·.keepalive)).Nodup := I.keepalives.custody.nodup .reaper
    refine legal_releaseAll I.legal ((nodup_flatMap.1 hnodup).1 record hmem) hhanded
      fun k hk c ks hlog hkk => ?_
    rcases I.handed c ks hlog k hkk with hreleased | ⟨r, hr, rfl, hrk⟩
    · exact absurd hreleased (hhanded k hk)
    · rw [eq_of_mem_flatMap hnodup hr hmem hrk hk]
      exact hcollected

end World.Inv

end LuaSkills.ProcessSession
