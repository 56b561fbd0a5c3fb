import Mathlib.Data.Finset.Prod
import LuaSkills.Data.Obligations
import LuaSkills.SessionEvents.Runs

/-!
# The event queue over whole runs

A publication of a registered session fills the slot of its kind and queues one event for it; until
the event is delivered or the session unregistered, further publications of that slot coalesce. The
queue of a center is the part of its state that these calls touch; the wake-up protocol never does.
`EventQueue.Shift` is one step of it, with what the step did to events, and `EventQueue.Inv` what every
run keeps.
-/

namespace LuaSkills.SessionEvents

open List Except

variable {slot : ManagedSessionEventSlot} {token : ManagedSessionEventToken} {log : List QueueEvent}

/-! ## Kinds and slots -/

def ManagedSessionEventKind.all : Finset ManagedSessionEventKind :=
  {.stdoutReadable, .stderrReadable, .exited, .failed}

theorem ManagedSessionEventKind.mem_all (kind : ManagedSessionEventKind) : kind ∈ all := by
  cases kind <;> decide

theorem ManagedSessionEventKind.card_all : all.card = managedSessionEventSlotsPerSession := rfl

def slotsOf (registered : Finset ManagedSessionEventToken) : Finset ManagedSessionEventSlot :=
  (registered ×ˢ ManagedSessionEventKind.all).image fun slot => ⟨slot.1, slot.2⟩

theorem mem_slotsOf : slot ∈ slotsOf registered ↔ slot.token ∈ registered := by
  simp only [slotsOf, Finset.mem_image, Finset.mem_product, Prod.exists]
  constructor
  · rintro ⟨token, kind, ⟨h, -⟩, rfl⟩
    exact h
  · intro h
    exact ⟨slot.token, slot.kind, ⟨h, slot.kind.mem_all⟩, rfl⟩

theorem card_slotsOf_le (registered : Finset ManagedSessionEventToken) :
    (slotsOf registered).card ≤ registered.card * managedSessionEventSlotsPerSession := by
  refine Finset.card_image_le.trans ?_
  rw [Finset.card_product, ManagedSessionEventKind.card_all]

theorem eventMatchesToken_iff : eventMatchesToken event token = true ↔ (eventSlot event).token = token := by
  cases token
  simp [eventMatchesToken, eventSlot]

/-! ## What happens to events -/

/-- A publication was accepted, a session removed, an event handed to a caller. -/
inductive QueueEvent where
  | published (slot : ManagedSessionEventSlot)
  | unregistered (token : ManagedSessionEventToken)
  | delivered (event : ManagedSessionEvent)
deriving DecidableEq, Repr

namespace QueueEvent

def delivery? : QueueEvent → Option ManagedSessionEvent
  | .delivered event => some event
  | _ => none

/-- An accepted publication owes the delivery of its slot. -/
def Owes (e : QueueEvent) (slot : ManagedSessionEventSlot) : Prop := e = .published slot

def Pays (e : QueueEvent) (slot : ManagedSessionEventSlot) : Prop :=
  (∃ event, e = .delivered event ∧ eventSlot event = slot) ∨ e = .unregistered slot.token

end QueueEvent

/-- The events handed out over a log. -/
def deliveries (log : List QueueEvent) : List ManagedSessionEvent := log.filterMap QueueEvent.delivery?

@[simp] theorem deliveries_append :
    deliveries (log ++ more) = deliveries log ++ deliveries more := filterMap_append

@[simp] theorem deliveries_delivered {events : List ManagedSessionEvent} :
    deliveries (events.map .delivered) = events := by
  rw [deliveries, filterMap_map]
  exact filterMap_some

/-! ## The queue -/

/-- What a center knows about its sessions and events. -/
structure EventQueue where
  maxSessions : ℕ
  capacity : ℕ
  registered : Finset ManagedSessionEventToken
  slots : Finset ManagedSessionEventSlot
  events : List ManagedSessionEvent
  sequence : ℕ
  epoch : Option ℕ

def Center.queue (c : Center) : EventQueue where
  maxSessions := c.maxSessions
  capacity := c.capacity
  registered := c.registeredSessions
  slots := c.pendingSlots
  events := c.events
  sequence := c.nextSequence
  epoch := c.nonemptyEpoch

namespace EventQueue

def keep (q : EventQueue) (events : List ManagedSessionEvent) (slots : Finset ManagedSessionEventSlot) :
    EventQueue :=
  { q with events, slots, epoch := if events.isEmpty then none else q.epoch }

def push (q : EventQueue) (event : ManagedSessionEvent) : EventQueue :=
  { q with
    slots := insert (eventSlot event) q.slots
    events := q.events ++ [event]
    sequence := event.sequence
    epoch := if q.events.isEmpty then some event.sequence else q.epoch }

inductive Shift : EventQueue → List QueueEvent → EventQueue → Prop
  | idle {q : EventQueue} : Shift q [] q
  | registered {q : EventQueue} {token : ManagedSessionEventToken} :
      q.registered.card < q.maxSessions →
      Shift q [] { q with registered := insert token q.registered }
  | unregistered {q : EventQueue} {token : ManagedSessionEventToken} :
      Shift q [.unregistered token] (keep { q with registered := q.registered.erase token }
        (q.events.filter fun event => (eventSlot event).token ≠ token)
        (q.slots.filter fun slot => slot.token ≠ token))
  | coalesced {q : EventQueue} {slot : ManagedSessionEventSlot} : slot ∈ q.slots →
      Shift q [.published slot] q
  | queued {q : EventQueue} {event : ManagedSessionEvent} : eventSlot event ∉ q.slots →
      (eventSlot event).token ∈ q.registered → event.sequence = q.sequence + 1 →
      Shift q [.published (eventSlot event)] (q.push event)
  | drained {q : EventQueue} {n : ℕ} : Shift q ((q.events.take n).map .delivered)
      (q.keep (q.events.drop n) (q.slots.filter fun slot => slot ∉ (q.events.take n).map eventSlot))

/-- What every run keeps; `log` is what happened to events before. -/
structure Inv (q : EventQueue) (log : List QueueEvent) : Prop where
  capacity : q.capacity = q.maxSessions * managedSessionEventSlotsPerSession
  sessions : q.registered.card ≤ q.maxSessions
  slots : ∀ slot, slot ∈ q.slots ↔ slot ∈ q.events.map eventSlot
  distinct : (q.events.map eventSlot).Nodup
  known : ∀ event ∈ q.events, (eventSlot event).token ∈ q.registered
  ordered : ((deliveries log ++ q.events).map ManagedSessionEvent.sequence).Pairwise (· < ·)
  bounded : ∀ event ∈ deliveries log ++ q.events, event.sequence ≤ q.sequence
  epoch : q.epoch.isSome = true ↔ q.events ≠ []
  paid : PaidLog QueueEvent.Owes QueueEvent.Pays (· ∈ q.slots) log

section
variable {q q' : EventQueue} {log happened : List QueueEvent}

theorem isSome_epoch_keep {events : List ManagedSessionEvent} {epoch : Option ℕ}
    (h : events ≠ [] → epoch.isSome = true) :
    (if events.isEmpty then none else epoch).isSome = true ↔ events ≠ [] := by
  cases events with
  | nil => simp
  | cons event events => simpa using h

theorem Inv.register (H : q.Inv log)
    (hfree : q.registered.card < q.maxSessions) :
    Inv { q with registered := insert token q.registered } log := { H with
  sessions := (Finset.card_insert_le _ _).trans hfree
  known := fun event he => Finset.mem_insert_of_mem (H.known event he) }

theorem Inv.unregister (H : q.Inv log) :
    Inv (keep { q with registered := q.registered.erase token }
        (q.events.filter fun event => (eventSlot event).token ≠ token)
        (q.slots.filter fun slot => slot.token ≠ token))
      (log ++ [.unregistered token]) := by
  have hsub : (q.events.filter fun event => (eventSlot event).token ≠ token).Sublist q.events :=
    filter_sublist
  have hdeliveries : deliveries (log ++ [.unregistered token]) = deliveries log := by
    simp [deliveries, QueueEvent.delivery?]
  constructor
  case capacity => exact H.capacity
  case sessions => exact (Finset.card_erase_le).trans H.sessions
  case slots =>
    intro slot
    simp only [keep, Finset.mem_filter, H.slots, mem_map, mem_filter, decide_eq_true_eq]
    constructor
    · rintro ⟨⟨event, he, rfl⟩, hne⟩
      exact ⟨event, ⟨he, hne⟩, rfl⟩
    · rintro ⟨event, ⟨he, hne⟩, rfl⟩
      exact ⟨⟨event, he, rfl⟩, hne⟩
  case distinct => exact H.distinct.sublist (hsub.map _)
  case known =>
    intro event he
    obtain ⟨he, hne⟩ := mem_filter.1 he
    exact Finset.mem_erase.2 ⟨of_decide_eq_true hne, H.known event he⟩
  case ordered =>
    rw [hdeliveries]
    exact H.ordered.sublist ((hsub.append_left _).map _)
  case bounded =>
    rw [hdeliveries]
    exact fun event he => H.bounded event ((hsub.append_left _).subset he)
  case epoch =>
    refine isSome_epoch_keep fun hne => H.epoch.2 ?_
    rintro hnil
    simp [hnil] at hne
  case paid =>
    refine H.paid.append (fun slot hslot => ?_) fun e he slot howes => ?_
    · by_cases htoken : slot.token = token
      · exact .inr ⟨_, mem_singleton_self _, .inr (htoken ▸ rfl)⟩
      · exact .inl (Finset.mem_filter.2 ⟨hslot, htoken⟩)
    · cases mem_singleton.1 he
      cases howes

theorem Inv.coalesce (H : q.Inv log) (hslot : slot ∈ q.slots) :
    q.Inv (log ++ [.published slot]) := by
  have hdeliveries : deliveries (log ++ [.published slot]) = deliveries log := by
    simp [deliveries, QueueEvent.delivery?]
  refine { H with ordered := ?_, bounded := ?_, paid := ?_ }
  · rw [hdeliveries]
    exact H.ordered
  · rw [hdeliveries]
    exact H.bounded
  · refine H.paid.append (fun _ => .inl) fun e he slot' howes => ?_
    cases mem_singleton.1 he
    cases howes
    exact hslot

theorem Inv.push (H : q.Inv log) (hfree : eventSlot event ∉ q.slots)
    (htoken : (eventSlot event).token ∈ q.registered) (hseq : event.sequence = q.sequence + 1) :
    (q.push event).Inv (log ++ [.published (eventSlot event)]) := by
  have hdeliveries : deliveries (log ++ [.published (eventSlot event)]) = deliveries log := by
    simp [deliveries, QueueEvent.delivery?]
  constructor
  case capacity => exact H.capacity
  case sessions => exact H.sessions
  case slots =>
    intro slot
    simp only [EventQueue.push, Finset.mem_insert, H.slots, map_append, mem_append,
      map_singleton, mem_singleton]
    exact or_comm
  case distinct =>
    rw [EventQueue.push, map_append]
    refine H.distinct.append (nodup_singleton _) ?_
    rw [map_singleton, disjoint_singleton, ← H.slots]
    exact hfree
  case known =>
    intro e he
    rcases mem_append.1 he with he | he
    · exact H.known e he
    · cases mem_singleton.1 he
      exact htoken
  case ordered =>
    rw [hdeliveries, EventQueue.push, ← append_assoc, map_append, pairwise_append]
    refine ⟨H.ordered, pairwise_singleton _ _, ?_⟩
    intro n hn m hm
    obtain ⟨e, he, rfl⟩ := mem_map.1 hn
    cases mem_singleton.1 hm
    have := H.bounded e he
    omega
  case bounded =>
    rw [hdeliveries, EventQueue.push, ← append_assoc]
    intro e he
    rcases mem_append.1 he with he | he
    · have := H.bounded e he
      change e.sequence ≤ event.sequence
      omega
    · cases mem_singleton.1 he
      exact Nat.le_refl _
  case epoch =>
    simp only [EventQueue.push]
    split
    · simp
    · next hne =>
      simpa using H.epoch.2 (by simpa using hne)
  case paid =>
    refine H.paid.append (fun slot hslot => .inl (Finset.mem_insert_of_mem hslot)) ?_
    intro e he slot howes
    cases mem_singleton.1 he
    cases howes
    exact Finset.mem_insert_self _ _

theorem Inv.drain (H : q.Inv log) (n : ℕ) :
    (q.keep (q.events.drop n)
        (q.slots.filter fun slot => slot ∉ (q.events.take n).map eventSlot)).Inv
      (log ++ (q.events.take n).map .delivered) := by
  -- what is delivered moves from the front of the queue to the end of the deliveries
  have hall : deliveries (log ++ (q.events.take n).map .delivered) ++ q.events.drop n =
      deliveries log ++ q.events := by
    rw [deliveries_append, deliveries_delivered, append_assoc, take_append_drop]
  have hsplit : q.events.map eventSlot =
      (q.events.take n).map eventSlot ++ (q.events.drop n).map eventSlot := by
    rw [← map_append, take_append_drop]
  have hdistinct := hsplit ▸ H.distinct
  constructor
  case capacity => exact H.capacity
  case sessions => exact H.sessions
  case slots =>
    intro slot
    rw [keep, Finset.mem_filter, H.slots, hsplit, mem_append]
    constructor
    · rintro ⟨h | h, hno⟩
      · exact absurd h hno
      · exact h
    · exact fun h => ⟨.inr h, fun h' => (nodup_append.1 hdistinct).2.2 slot h' slot h rfl⟩
  case distinct => exact (nodup_append.1 hdistinct).2.1
  case known => exact fun event he => H.known event (mem_of_mem_drop he)
  case ordered =>
    rw [keep, hall]
    exact H.ordered
  case bounded =>
    rw [keep, hall]
    exact H.bounded
  case epoch =>
    refine isSome_epoch_keep fun hne => H.epoch.2 ?_
    intro hnil
    simp [hnil] at hne
  case paid =>
    refine H.paid.append (fun slot hslot => ?_) fun e he slot howes => ?_
    · by_cases htaken : slot ∈ (q.events.take n).map eventSlot
      · obtain ⟨event, he, rfl⟩ := mem_map.1 htaken
        exact .inr ⟨_, mem_map_of_mem he, .inl ⟨event, rfl, rfl⟩⟩
      · exact .inl (Finset.mem_filter.2 ⟨hslot, htaken⟩)
    · obtain ⟨event, -, rfl⟩ := mem_map.1 he
      cases howes

theorem Inv.shift (H : q.Inv log) (h : q.Shift happened q') : q'.Inv (log ++ happened) := by
  cases h with
  | idle => rwa [append_nil]
  | registered hfree =>
    rw [append_nil]
    exact H.register hfree
  | unregistered => exact H.unregister
  | coalesced hslot => exact H.coalesce hslot
  | queued hfree htoken hseq => exact H.push hfree htoken hseq
  | drained => exact H.drain _

theorem Inv.slots_subset (H : q.Inv log) : q.slots ⊆ slotsOf q.registered := by
  intro slot hslot
  obtain ⟨event, he, rfl⟩ := mem_map.1 ((H.slots slot).1 hslot)
  exact mem_slotsOf.2 (H.known event he)

theorem Inv.length_le (H : q.Inv log) :
    q.events.length ≤ managedSessionEventSlotsPerSession * q.registered.card := by
  have hcard : q.events.length = q.slots.card := by
    rw [← length_map (f := eventSlot), ← toFinset_card_of_nodup H.distinct]
    congr 1
    ext slot
    rw [mem_toFinset, H.slots]
  rw [hcard, Nat.mul_comm]
  exact (Finset.card_le_card H.slots_subset).trans (card_slotsOf_le _)

/-- A registered session whose slot is free finds room in the queue. -/
theorem Inv.card_slots_lt (H : q.Inv log) (slot : ManagedSessionEventSlot)
    (htoken : slot.token ∈ q.registered) (hfree : slot ∉ q.slots) : q.slots.card < q.capacity := by
  have hinsert : insert slot q.slots ⊆ slotsOf q.registered :=
    Finset.insert_subset (mem_slotsOf.2 htoken) H.slots_subset
  have hcard := (Finset.card_le_card hinsert).trans (card_slotsOf_le _)
  rw [Finset.card_insert_of_notMem hfree] at hcard
  rw [H.capacity]
  exact hcard.trans (Nat.mul_le_mul_right _ H.sessions)

end

end EventQueue

/-! ## The center's steps -/

namespace Center
variable {c c' : Center} {expected : Option ℕ}

@[simp] theorem scheduleCallback_queue : (c.scheduleCallback expected).1.queue = c.queue := by
  unfold scheduleCallback
  split
  · split <;> rfl
  · rfl

@[simp] theorem retireInflight_queue : (c.retireInflight generation).queue = c.queue := rfl

@[simp] theorem finishCallbackInvocation_queue :
    (c.finishCallbackInvocation generation).1.queue = c.queue := by
  rw [finishCallbackInvocation, scheduleCallback_queue, retireInflight_queue]

theorem replaceCallback_queue {callback : Option WakeCallback} {installed : Option ℕ}
    (h : c.replaceCallback callback = .ok (c', installed)) : c'.queue = c.queue := by
  simp only [replaceCallback, bind_eq_ok] at h
  obtain ⟨-, -, h⟩ := h
  cases callback with
  | none =>
    cases h
    rfl
  | some callback =>
    obtain ⟨generation, -, h⟩ := bind_eq_ok.1 h
    cases h
    rfl

theorem registerSession_shift
    (h : c.registerSession token = .ok c') : c.queue.Shift [] c'.queue := by
  simp only [registerSession, bind_eq_ok, refuseIf_eq_ok, not_le] at h
  obtain ⟨-, -, -, -, -, hfree, h⟩ := h
  cases h
  exact .registered hfree

theorem drainEvents_shift (c : Center) (maxEvents : ℕ) (timedOut : Bool) :
    c.queue.Shift ((c.drainEvents maxEvents timedOut).2.events.map .delivered)
      (c.drainEvents maxEvents timedOut).1.queue := .drained

theorem poll_shift (h : c.poll maxEvents = .ok (c', batch)) :
    c.queue.Shift (batch.events.map .delivered) c'.queue := by
  simp only [poll, bind_eq_ok] at h
  obtain ⟨-, -, -, -, h⟩ := h
  cases h
  exact c.drainEvents_shift maxEvents false

theorem waitRound_shift (h : c.waitRound maxEvents timeoutMs expired = .ok (some (c', batch))) :
    c.queue.Shift (batch.events.map .delivered) c'.queue := by
  obtain ⟨timedOut, hdrain⟩ : ∃ timedOut, c.drainEvents maxEvents timedOut = (c', batch) := by
    simp only [waitRound, bind_eq_ok] at h
    obtain ⟨-, -, h⟩ := h
    split at h
    · cases h
      exact ⟨false, rfl⟩
    obtain ⟨-, -, h⟩ := bind_eq_ok.1 h
    split at h
    · cases h
      exact ⟨true, rfl⟩
    obtain ⟨-, -, h⟩ := bind_eq_ok.1 h
    split at h
    · cases h
      exact ⟨true, rfl⟩
    · cases h
  have hshift := c.drainEvents_shift maxEvents timedOut
  rwa [hdrain] at hshift

theorem unregisterSession_shift
    (h : token ∈ c.registeredSessions) :
    c.queue.Shift [.unregistered token] (c.unregisterSession token).1.queue := by
  have hshift : c.queue.Shift [.unregistered token] _ := .unregistered
  have hevents : (c.events.filter fun event => !eventMatchesToken event token) =
      c.events.filter fun event => (eventSlot event).token ≠ token := by
    refine filter_congr fun event _ => ?_
    rw [Bool.eq_iff_iff, Bool.not_eq_true', ← Bool.not_eq_true, eventMatchesToken_iff,
      decide_eq_true_eq]
  rw [unregisterSession, if_pos h, hevents]
  exact hshift

theorem publish_shift (h : c.publish token kind = .ok (c', queued, invocation)) :
    c.queue.Shift [.published { token := token, kind := kind }] c'.queue := by
  simp only [publish, bind_eq_ok, refuseIf_eq_ok, not_not] at h
  obtain ⟨-, -, -, htoken, h⟩ := h
  split at h
  · next hslot =>
    cases h
    exact .coalesced hslot
  · next hslot =>
    simp only [bind_eq_ok, okOr_eq_ok] at h
    obtain ⟨-, -, sequence, hsequence, h⟩ := h
    cases h
    rw [scheduleCallback_queue]
    let event : ManagedSessionEvent := { token with
      kind := kind
      sequence := sequence }
    have hshift : c.queue.Shift [.published (eventSlot event)] (c.queue.push event) :=
      .queued hslot htoken (checkedAdd_eq_some.1 hsequence).2
    exact hshift

end Center

/-! ## Runs -/

namespace World

section
variable {w w' : World} {a : Act}

@[simp] theorem handOver_queue : (w.handOver scheduled).center.queue = scheduled.1.queue := by
  unfold handOver
  split <;> rfl

@[simp] theorem enqueue_center : (w.enqueue item).center = w.center := by
  unfold enqueue
  split <;> rfl

@[simp] theorem endReplacement_queue : (w.endReplacement replacement).center.queue = w.center.queue := by
  unfold endReplacement
  split
  · rfl
  · rw [handOver_queue, Center.scheduleCallback_queue]

@[simp] theorem awaitRetired_queue : (w.awaitRetired replacement).center.queue = w.center.queue := by
  unfold awaitRetired
  split
  · rfl
  · exact endReplacement_queue

def queueEvents (w : World) : Act → List QueueEvent
  | .unregister token => if (w.center.unregisterSession token).2 then [.unregistered token] else []
  | .publish token kind =>
    match w.center.publish token kind with
    | .ok _ => [.published { token := token, kind := kind }]
    | .error _ => []
  | .poll maxEvents =>
    match w.center.poll maxEvents with
    | .ok (_, batch) => batch.events.map .delivered
    | .error _ => []
  | .waitRound maxEvents timeoutMs expired =>
    match w.center.waitRound maxEvents timeoutMs expired with
    | .ok (some (_, batch)) => batch.events.map .delivered
    | _ => []
  | _ => []

/-- What a run does to events, oldest first. -/
def queueLog (w : World) : List Act → List QueueEvent
  | [] => []
  | a :: acts => w.queueEvents a ++ ((w.step a).map fun w' => w'.queueLog acts).getD []

theorem step_shift (h : w.step a = some w') :
    w.center.queue.Shift (w.queueEvents a) w'.center.queue := by
  have idle : w'.center.queue = w.center.queue → w.queueEvents a = [] →
      w.center.queue.Shift (w.queueEvents a) w'.center.queue := by
    intro hqueue hevents
    rw [hqueue, hevents]
    exact .idle
  cases a with
  | register token =>
    simp only [step] at h
    split at h
    · next hregister =>
      cases h
      exact Center.registerSession_shift hregister
    · cases h
      exact .idle
  | unregister token =>
    cases h
    by_cases htoken : token ∈ w.center.registeredSessions
    · have hevents : w.queueEvents (.unregister token) = [.unregistered token] := by
        simp [queueEvents, Center.unregisterSession, htoken]
      rw [hevents]
      exact Center.unregisterSession_shift htoken
    · apply idle <;> simp [queueEvents, Center.unregisterSession, htoken]
  | publish token kind =>
    simp only [step] at h
    split at h
    · next hpublish =>
      cases h
      simp only [queueEvents, hpublish, handOver_queue]
      exact Center.publish_shift hpublish
    · next hpublish =>
      cases h
      exact idle rfl (by simp only [queueEvents, hpublish])
  | poll maxEvents =>
    simp only [step] at h
    split at h
    · next hpoll =>
      cases h
      simp only [queueEvents, hpoll]
      exact Center.poll_shift hpoll
    · next hpoll =>
      cases h
      exact idle rfl (by simp only [queueEvents, hpoll])
  | waitRound maxEvents timeoutMs expired =>
    simp only [step] at h
    split at h
    · next hwait =>
      cases h
      simp only [queueEvents, hwait]
      exact Center.waitRound_shift hwait
    · next hwait =>
      cases h
      refine idle rfl ?_
      simp only [queueEvents]
  | handOver index =>
    simp only [step] at h
    split at h
    · cases h
      exact idle (congrArg Center.queue enqueue_center) rfl
    · cases h
  | setWakeCallback onCallback callback =>
    simp only [step] at h
    split at h
    · split at h
      · cases h
        exact .idle
      · cases h
    split at h
    · next hreplace =>
      cases h
      exact idle (awaitRetired_queue.trans (Center.replaceCallback_queue hreplace)) rfl
    · cases h
      exact .idle
  | close onCallback =>
    simp only [step] at h
    split at h
    · split at h
      · cases h
        exact .idle
      · cases h
    · cases h
      exact idle awaitRetired_queue rfl
  | replacementWakes index =>
    simp only [step] at h
    split at h
    · cases h
      exact idle awaitRetired_queue rfl
    · cases h
  | workerFinishes =>
    simp only [step] at h
    split at h
    · split at h
      · cases h
        exact idle Center.finishCallbackInvocation_queue rfl
      · cases h
        exact idle Center.finishCallbackInvocation_queue rfl
    · cases h
  | workerEnqueues =>
    simp only [step] at h
    split at h
    · cases h
      exact idle (congrArg Center.queue enqueue_center) rfl
    · cases h
  | callbackReturns outcome =>
    simp only [step] at h
    split at h
    · split at h
      · cases h
      · cases h
        exact idle rfl rfl
    · cases h
  | _ =>
    simp only [step] at h
    split at h <;> cases h
    exact idle rfl rfl

theorem run_queue (H : w.center.queue.Inv log) (hrun : w.run acts = some w') :
    w'.center.queue.Inv (log ++ w.queueLog acts) := by
  induction acts generalizing w log with
  | nil =>
    cases hrun
    rwa [queueLog, append_nil]
  | cons a acts ih =>
    obtain ⟨mid, hstep, hrun⟩ := Option.bind_eq_some_iff.1 hrun
    have hmid := ih (H.shift (step_shift hstep)) hrun
    rwa [queueLog, hstep, Option.map_some, Option.getD_some, ← append_assoc]

theorem opened_queue {maxSessions : ℕ} {center : Center} (h : Center.new maxSessions = .ok center) :
    (opened center).center.queue.Inv [] := by
  simp only [Center.new, bind_eq_ok, okOr_eq_ok, Option.ite_none_right_eq_some] at h
  obtain ⟨-, -, capacity, ⟨-, hcapacity⟩, h⟩ := h
  cases h
  constructor
  case capacity => exact (Option.some.inj hcapacity).symm
  case paid => exact .nil
  all_goals simp [opened, Center.queue, deliveries]

end

end World

namespace Center

/-- A publication fails for a closed center, an unknown session or an exhausted sequence only. -/
theorem publish_error {c : Center} (H : c.queue.Inv log) (h : c.publish token kind = .error e) :
    c.closed = true ∧ e = "managed session event center is closed" ∨
      token ∉ c.registeredSessions ∧ e = "managed session event token is not registered" ∨
      wordBound ≤ c.nextSequence + 1 ∧ e = "managed session event sequence exhausted" := by
  simp only [publish, bind_eq_error, refuseIf_eq_error, refuseIf_eq_ok, not_not] at h
  rcases h with ⟨hclosed, rfl⟩ | ⟨-, -, ⟨htoken, rfl⟩ | ⟨-, htoken, h⟩⟩
  · exact .inl ⟨hclosed, rfl⟩
  · exact .inr (.inl ⟨htoken, rfl⟩)
  split at h
  · cases h
  · next hfree =>
    have hroom : c.pendingSlots.card < c.capacity :=
      H.card_slots_lt { token := token, kind := kind } htoken hfree
    simp only [bind_eq_error, refuseIf_eq_error, okOr_eq_error] at h
    rcases h with ⟨hfull, -⟩ | ⟨-, -, ⟨hsequence, rfl⟩ | ⟨_, -, h⟩⟩
    · exact absurd hroom (Nat.not_lt.2 hfull)
    · refine .inr (.inr ⟨?_, rfl⟩)
      simpa [checkedAdd] using hsequence
    · cases h

/-- A publication of a slot that is queued already changes nothing. -/
theorem publish_pending {c : Center}
    (H : c.queue.Inv log) (hopen : c.closed = false) (hslot : slot ∈ c.pendingSlots) :
    c.publish slot.token slot.kind = .ok (c, false, none) := by
  have htoken : slot.token ∈ c.registeredSessions := mem_slotsOf.1 (H.slots_subset hslot)
  simp only [publish, hopen, htoken, not_true, Bool.false_eq_true, refuseIf_of_not not_false,
    ok_bind, if_pos hslot]
  rfl

end Center

/-- The queue of a center after any run of its calls and callbacks. Pending slots and queued events
correspond to each other, and every queued event is of a registered session; so there are at most four
for each, and a publication is never refused for a lack of room: one for a queued slot coalesces. The
sequences of everything delivered so far and of the queue behind it increase strictly. A slot once
published is still queued, or was delivered since, or its session was unregistered since, also when
the center was closed. The epoch is set while the queue is nonempty. -/
theorem queue_sound {maxSessions : ℕ} {center : Center} {acts : List Act} {w : World}
    (hnew : Center.new maxSessions = .ok center) (hrun : (World.opened center).run acts = some w) :
    (w.center.events.map eventSlot).Nodup ∧
    (∀ slot, slot ∈ w.center.pendingSlots ↔ slot ∈ w.center.events.map eventSlot) ∧
    (∀ slot ∈ w.center.pendingSlots, w.center.closed = false →
      w.center.publish slot.token slot.kind = .ok (w.center, false, none)) ∧
    (∀ event ∈ w.center.events, (eventSlot event).token ∈ w.center.registeredSessions) ∧
    w.center.events.length ≤ managedSessionEventSlotsPerSession * w.center.registeredSessions.card ∧
    (∀ token kind, w.center.publish token kind ≠
      .error "managed session event capacity invariant was violated") ∧
    (∀ token kind e, w.center.publish token kind = .error e → w.center.closed = true ∨
      token ∉ w.center.registeredSessions ∨ wordBound ≤ w.center.nextSequence + 1) ∧
    ((deliveries ((World.opened center).queueLog acts) ++ w.center.events).map
      ManagedSessionEvent.sequence).Pairwise (· < ·) ∧
    (∀ before slot after, (World.opened center).queueLog acts = before ++ .published slot :: after →
      slot ∈ w.center.pendingSlots ∨
      (∃ event, .delivered event ∈ after ∧ eventSlot event = slot) ∨
      .unregistered slot.token ∈ after) ∧
    (w.center.nonemptyEpoch.isSome = true ↔ w.center.events ≠ []) := by
  have H : w.center.queue.Inv ((World.opened center).queueLog acts) :=
    World.run_queue (World.opened_queue hnew) hrun
  refine ⟨H.distinct, H.slots, fun slot hslot hopen => Center.publish_pending H hopen hslot, H.known,
    H.length_le, ?_, ?_, H.ordered, ?_, H.epoch⟩
  · intro token kind h
    rcases Center.publish_error H h with ⟨-, he⟩ | ⟨-, he⟩ | ⟨-, he⟩
    · exact absurd he (by decide)
    · exact absurd he (by decide)
    · exact absurd he (by decide)
  · intro token kind e h
    rcases Center.publish_error H h with ⟨h, -⟩ | ⟨h, -⟩ | ⟨h, -⟩
    · exact .inl h
    · exact .inr (.inl h)
    · exact .inr (.inr h)
  · intro before slot after hlog
    rcases H.paid before _ after slot hlog rfl with h | ⟨e, he, ⟨event, rfl, hslot⟩ | rfl⟩
    · exact .inl h
    · exact .inr (.inl ⟨event, he, hslot⟩)
    · exact .inr (.inr he)

/-- Two publications of one slot, another slot of that session, and a poll of one event. -/
def coalescingActs : List Act :=
  let token := { systemLeaseId := "lease", sid := "sid", generation := 1, managedSessionId := 7 }
  [.register token, .publish token .stdoutReadable, .publish token .exited,
    .publish token .stdoutReadable, .poll 1]

theorem queue_sound_coalescing : Center.new 2 = .ok World.twoSessions ∧
    ∃ w, (World.opened World.twoSessions).run coalescingActs = some w ∧ w.center.events.length = 1 ∧
      (w.center.events.map eventSlot).Nodup := by
  have hnew : Center.new 2 = .ok World.twoSessions := rfl
  obtain ⟨w, hrun, hlength⟩ : ∃ w, (World.opened World.twoSessions).run coalescingActs = some w ∧
      w.center.events.length = 1 := ⟨_, rfl, rfl⟩
  exact ⟨hnew, w, hrun, hlength, (queue_sound hnew hrun).1⟩

end LuaSkills.SessionEvents
