import LuaSkills.Data.Numerals
import LuaSkills.SkillConfig.Events

/-!
# Polling configuration events

A reader hands the cursor of its last batch to the next poll. The queue keeps the newest events only,
so a reader that lags too far behind is told that its cursor expired. `Feed` is the queue with one
such reader; `Feed.published` keeps every accepted event and `Feed.returned` what the reader was given.
-/

namespace LuaSkills.SkillConfig

open List Option Except Nat

variable {event : RuntimeSkillConfigEvent}

/-! ## The poll -/

def skillConfigMaxEventPollLimit : ℕ := 1024

structure RuntimeSkillConfigEventBatch where
  events : List RuntimeSkillConfigEvent
  nextSequence : String

/-- The position that a cursor text stands for; without one the reader starts at the beginning. -/
def parseCursor : Option String → ConfigResult ℕ
  | some value => do
    refuseIf (isCanonicalDecimal value = false)
      "CONFIG_REVISION_INVALID: event cursor must be a canonical unsigned decimal string"
    okOr (parseU64 value).toOption
      "CONFIG_REVISION_INVALID: event cursor is outside the unsigned 64-bit range"
  | none => .ok 0

def RuntimeSkillConfigEvent.number (event : RuntimeSkillConfigEvent) : Option ℕ :=
  (parseU64 event.sequence).toOption

def cursorInvalid (after current : ℕ) : String :=
  "CONFIG_EVENT_CURSOR_INVALID: event cursor " ++ after.repr ++
    " is newer than the current sequence " ++ current.repr

def cursorExpired (after oldest : ℕ) : String :=
  "CONFIG_EVENT_CURSOR_EXPIRED: event cursor " ++ after.repr ++
    " precedes the oldest retained sequence " ++ oldest.repr

namespace SkillConfigEventQueue

def new : SkillConfigEventQueue where
  nextSequence := 0
  events := []

def poll (queue : SkillConfigEventQueue) (afterSequence : Option String) (limit : ℕ) :
    ConfigResult RuntimeSkillConfigEventBatch := do
  refuseIf (limit = 0 ∨ skillConfigMaxEventPollLimit < limit)
    ("CONFIG_BATCH_TOO_LARGE: event poll limit must be between 1 and " ++
      skillConfigMaxEventPollLimit.repr)
  let after ← parseCursor afterSequence
  let current := queue.nextSequence.toNat
  refuseIf (current < after) (cursorInvalid after current)
  -- the sum saturates
  let oldest := queue.events.head?.bind RuntimeSkillConfigEvent.number
  refuseIf (oldest.any fun oldest => min (after + 1) (2 ^ 64 - 1) < oldest)
    (cursorExpired after (oldest.getD 0))
  let batch := (queue.events.filter fun event => event.number.any fun n => after < n).take limit
  return {
    events := batch
    nextSequence := (batch.getLast?.map RuntimeSkillConfigEvent.sequence).getD after.repr }

end SkillConfigEventQueue

/-! ## A queue and one reader -/

structure Feed where
  queue : SkillConfigEventQueue
  cursor : Option String
  /-- Every event the queue accepted, oldest first. -/
  published : List RuntimeSkillConfigEvent
  /-- What the polls of the reader returned, oldest first. -/
  returned : List RuntimeSkillConfigEvent

inductive FeedAct where
  | publish (event : RuntimeSkillConfigEvent)
  /-- The reader polls with its cursor, the `nextSequence` of its last batch. -/
  | poll (limit : ℕ)

def FeedAct.submits : FeedAct → Option RuntimeSkillConfigEvent
  | .publish event => some event
  | .poll _ => none

/-- Events under the numbers that they are accepted with: from one on, as long as `u64` has some. -/
def accepted (submitted : List RuntimeSkillConfigEvent) : List RuntimeSkillConfigEvent :=
  (submitted.take (2 ^ 64 - 1)).mapIdx fun i event => { event with sequence := (i + 1).repr }

namespace Feed

def opened (start : Option String) : Feed where
  queue := .new
  cursor := start
  published := []
  returned := []

def step (f : Feed) : FeedAct → Feed
  | .publish event =>
    { f with
      queue := (f.queue.publish event).1
      published := f.published ++ (f.queue.publish event).2.toList }
  | .poll limit =>
    match f.queue.poll f.cursor limit with
    | .ok batch =>
      { f with cursor := some batch.nextSequence, returned := f.returned ++ batch.events }
    | .error _ => f

def run (f : Feed) (acts : List FeedAct) : Feed := acts.foldl step f

end Feed

/-! ## Numbered events -/

section
variable {l : List RuntimeSkillConfigEvent} {d c : ℕ}

/-- The events are numbered without a gap, the first one behind `d`. -/
def Numbered (d : ℕ) (l : List RuntimeSkillConfigEvent) : Prop :=
  ∀ i event, l[i]? = some event → event.sequence = (d + i + 1).repr

theorem Numbered.nil : Numbered d [] := by
  intro i event h
  simp at h

theorem Numbered.of_cons (h : Numbered d (event :: l)) :
    event.sequence = (d + 1).repr ∧ Numbered (d + 1) l := by
  refine ⟨h 0 event rfl, fun i other hi => ?_⟩
  have := h (i + 1) other hi
  rwa [show d + (i + 1) + 1 = d + 1 + i + 1 by omega] at this

theorem Numbered.drop (h : Numbered 0 l) (n : ℕ) : Numbered n (l.drop n) := by
  intro i event hi
  rw [getElem?_drop] at hi
  rw [h _ event hi, zero_add]

theorem Numbered.take (h : Numbered d l) (n : ℕ) : Numbered d (l.take n) := by
  intro i event hi
  rw [getElem?_take] at hi
  split at hi
  · exact h i event hi
  · cases hi

theorem Numbered.concat (h : Numbered d l)
    (he : event.sequence = (d + l.length + 1).repr) : Numbered d (l ++ [event]) := by
  intro i other hi
  rw [getElem?_append] at hi
  split at hi
  · exact h i other hi
  · next hlen =>
    rw [getElem?_singleton] at hi
    split at hi
    · cases hi
      rw [he, show i = l.length by omega]
    · cases hi

theorem Numbered.sequences (h : Numbered d l) :
    l.map RuntimeSkillConfigEvent.sequence = (range' (d + 1) l.length).map Nat.repr := by
  induction l generalizing d with
  | nil => rfl
  | cons event l ih =>
    obtain ⟨hevent, hl⟩ := h.of_cons
    rw [map_cons, hevent, ih hl, length_cons, range'_succ, map_cons]

theorem number_of_sequence {n : ℕ}
    (h : event.sequence = n.repr) (hn : n < 2 ^ 64) : event.number = some n := by
  rw [RuntimeSkillConfigEvent.number, h, parseU64_repr hn]
  rfl

/-- What lies behind a cursor are the events from there on. -/
theorem Numbered.filter_after (h : Numbered d l) (hlt : d + l.length < 2 ^ 64) :
    (l.filter fun event => event.number.any fun n => c < n) = l.drop (c - d) := by
  induction l generalizing d with
  | nil => rw [drop_nil, filter_nil]
  | cons event l ih =>
    obtain ⟨hevent, hl⟩ := h.of_cons
    rw [length_cons] at hlt
    have hrest := ih hl (by omega)
    rw [filter_cons, number_of_sequence hevent (by omega), any_some, hrest]
    split
    · next hc =>
      have hle : c ≤ d := by have := of_decide_eq_true hc; omega
      rw [Nat.sub_eq_zero_of_le hle, Nat.sub_eq_zero_of_le (hle.trans (Nat.le_succ d))]
      rfl
    · next hc =>
      have hlt : d < c := by
        have := mt decide_eq_true hc
        omega
      rw [show c - d = c - (d + 1) + 1 by omega, drop_succ_cons]

/-- The number of the last event, or of the position when there is none. -/
theorem Numbered.last (h : Numbered d l) :
    (l.getLast?.map RuntimeSkillConfigEvent.sequence).getD d.repr = (d + l.length).repr := by
  rw [getLast?_eq_getElem?]
  cases hlast : l[l.length - 1]? with
  | none =>
    have := getElem?_eq_none_iff.1 hlast
    rw [show l.length = 0 by omega]
    rfl
  | some event =>
    have hpos := (List.getElem?_eq_some_iff.1 hlast).1
    rw [map_some, getD_some, h _ event hlast]
    congr 1
    omega

end

theorem parseCursor_repr (h : n < 2 ^ 64) : parseCursor (some n.repr) = .ok n := by
  simp only [parseCursor, isCanonicalDecimal_repr, parseU64_repr h]
  rfl

/-! ## The queue -/

namespace SkillConfigEventQueue
variable {queue : SkillConfigEventQueue} {published : List RuntimeSkillConfigEvent}

structure Keeps (queue : SkillConfigEventQueue) (published : List RuntimeSkillConfigEvent) : Prop where
  numbered : Numbered 0 published
  count : queue.nextSequence.toNat = published.length
  ring : queue.events = published.drop (published.length - skillConfigEventQueueCapacity)

theorem Keeps.new : new.Keeps [] := ⟨.nil, rfl, rfl⟩

theorem Keeps.length_lt (K : queue.Keeps published) : published.length < 2 ^ 64 :=
  K.count ▸ queue.nextSequence.toNat_lt

theorem Keeps.publish (K : queue.Keeps published) (event : RuntimeSkillConfigEvent) :
    (queue.publish event).1.Keeps (published ++ (queue.publish event).2.toList) := by
  unfold SkillConfigEventQueue.publish
  split
  · rwa [toList_none, append_nil]
  next hlast =>
    have hlt := queue.nextSequence.toNat_lt
    have hone : (1 : UInt64).toNat = 1 := rfl
    have hnext : (queue.nextSequence + 1).toNat = published.length + 1 := by
      rw [UInt64.toNat_add, hone, ← K.count]
      exact mod_eq_of_lt (by omega)
    have hcount := K.count
    constructor
    case numbered =>
      refine K.numbered.concat ?_
      rw [revisionText, hnext, zero_add]
    case count =>
      rw [toList_some, length_append, length_singleton]
      exact hnext
    case ring =>
      dsimp only
      rw [toList_some, K.ring, ← drop_append_of_le_length (sub_le _ _),
        drop_drop, length_drop, length_append, length_singleton]
      have hdrop : published.length - skillConfigEventQueueCapacity +
          (published.length + 1 - (published.length - skillConfigEventQueueCapacity) -
            skillConfigEventQueueCapacity) =
          published.length + 1 - skillConfigEventQueueCapacity := by omega
      rw [hdrop]

/-- One more submission is accepted under the next number, unless the numbers are used up. -/
theorem Keeps.accepts (K : queue.Keeps (accepted submitted)) (event : RuntimeSkillConfigEvent) :
    accepted submitted ++ (queue.publish event).2.toList = accepted (submitted ++ [event]) := by
  have hlength : (accepted submitted).length = min (2 ^ 64 - 1) submitted.length := by
    rw [accepted, length_mapIdx, length_take]
  have hcount := K.count
  unfold SkillConfigEventQueue.publish
  split
  next hlast =>
    have hfull : 2 ^ 64 - 1 ≤ submitted.length := by omega
    rw [toList_none, append_nil, accepted, accepted, take_append_of_le_length hfull]
  next hlast =>
    have hroom : submitted.length < 2 ^ 64 - 1 := by
      have := queue.nextSequence.toNat_lt
      omega
    have hnext : (queue.nextSequence + 1).toNat = submitted.length + 1 := by
      rw [UInt64.toNat_add, show (1 : UInt64).toNat = 1 from rfl, Nat.mod_eq_of_lt (by omega)]
      omega
    rw [accepted, accepted, take_of_length_le hroom.le,
      take_of_length_le (by rw [length_append, length_singleton]; omega), mapIdx_append, toList_some,
      revisionText, hnext]
    simp

/-- The first retained event is the oldest; a cursor in front of it expired. -/
theorem Keeps.oldest (K : queue.Keeps published) (hc : c ≤ published.length) :
    let oldest := queue.events.head?.bind RuntimeSkillConfigEvent.number
    (oldest.any (fun oldest => min (c + 1) (2 ^ 64 - 1) < oldest) = true ↔
      c < published.length - skillConfigEventQueueCapacity) ∧
    (c < published.length - skillConfigEventQueueCapacity →
      oldest.getD 0 = published.length - skillConfigEventQueueCapacity + 1) := by
  intro oldest
  have hlt := K.length_lt
  have hcapacity : 0 < skillConfigEventQueueCapacity := succ_pos _
  have hheld : Numbered (published.length - skillConfigEventQueueCapacity) queue.events :=
    K.ring ▸ K.numbered.drop _
  have hlength : queue.events.length =
      published.length - (published.length - skillConfigEventQueueCapacity) := by
    rw [K.ring, length_drop]
  cases hevents : queue.events with
  | nil =>
    have holdest : oldest = none := by simp only [oldest, hevents, head?_nil, bind_none]
    rw [hevents, length_nil] at hlength
    rw [holdest]
    refine ⟨⟨fun h => absurd h Bool.false_ne_true, fun h => ?_⟩, fun h => ?_⟩ <;> omega
  | cons event events =>
    rw [hevents] at hheld hlength
    rw [length_cons] at hlength
    have holdest : oldest = some (published.length - skillConfigEventQueueCapacity + 1) := by
      simp only [oldest, hevents, head?_cons, bind_some]
      exact number_of_sequence hheld.of_cons.1 (by omega)
    rw [holdest, any_some, decide_eq_true_eq]
    exact ⟨by omega, fun _ => rfl⟩

/-- What a poll answers: an error for a cursor ahead of the newest event, another one when an event
behind the cursor is no longer held, and else the events behind the cursor, up to the limit. -/
theorem Keeps.poll (K : queue.Keeps published) (hlimit : limit ≠ 0 ∧ limit ≤ skillConfigMaxEventPollLimit)
    (hc : parseCursor afterSequence = .ok c) : queue.poll afterSequence limit =
      if published.length < c then .error (cursorInvalid c published.length)
      else if c < published.length - skillConfigEventQueueCapacity then
        .error (cursorExpired c (published.length - skillConfigEventQueueCapacity + 1))
      else .ok {
        events := (published.drop c).take limit
        nextSequence := (c + ((published.drop c).take limit).length).repr } := by
  have hlt := K.length_lt
  have hin : ¬ (limit = 0 ∨ skillConfigMaxEventPollLimit < limit) := by omega
  rw [SkillConfigEventQueue.poll, refuseIf_of_not hin, ok_bind, hc, ok_bind]
  dsimp only
  rw [K.count]
  split
  next hahead => rw [refuseIf, if_pos hahead]; rfl
  next hbehind =>
    rw [refuseIf_of_not hbehind, ok_bind]
    have hheld : Numbered (published.length - skillConfigEventQueueCapacity) queue.events :=
      K.ring ▸ K.numbered.drop _
    obtain ⟨hexpires, hvalue⟩ := K.oldest (not_lt.1 hbehind)
    split
    next hexpired =>
      rw [refuseIf, if_pos (hexpires.2 hexpired), hvalue hexpired]
      rfl
    next hretained =>
      rw [refuseIf_of_not (mt hexpires.1 hretained), ok_bind]
      have hlength : published.length - skillConfigEventQueueCapacity + queue.events.length ≤
          published.length := by
        rw [K.ring, length_drop]
        omega
      have hdrop : published.length - skillConfigEventQueueCapacity +
          (c - (published.length - skillConfigEventQueueCapacity)) = c := by omega
      have hbatch : (queue.events.filter fun event => event.number.any fun n => c < n) =
          published.drop c := by
        rw [hheld.filter_after (by omega), K.ring, drop_drop, hdrop]
      rw [hbatch, ((K.numbered.drop c).take limit).last]
      rfl

end SkillConfigEventQueue

/-! ## Runs -/

namespace Feed
variable {f : Feed} {start : Option String}

/-- The queue keeps what was published, and the reader was given the events from its first cursor
`first` to its present one. -/
structure Inv (f : Feed) (start : Option String) : Prop where
  keeps : f.queue.Keeps f.published
  fresh : f.cursor = start ∧ f.returned = [] ∨ ∃ first, parseCursor start = .ok first ∧
    f.returned = (f.published.drop first).take f.returned.length ∧
    f.cursor = some (first + f.returned.length).repr ∧
    first + f.returned.length ≤ f.published.length

theorem Inv.opened (start : Option String) : (opened start).Inv start :=
  ⟨.new, .inl ⟨rfl, rfl⟩⟩

theorem Inv.position (I : f.Inv start) (hfirst : parseCursor start = .ok first) :
    parseCursor f.cursor = .ok (first + f.returned.length) ∧
    f.returned = (f.published.drop first).take f.returned.length := by
  rcases I.fresh with ⟨hcursor, hreturned⟩ | ⟨first', hfirst', hreturned, hcursor, hle⟩
  · rw [hcursor, hreturned]
    exact ⟨hfirst, (take_zero).symm⟩
  · cases hfirst.symm.trans hfirst'
    rw [hcursor]
    exact ⟨parseCursor_repr (hle.trans_lt I.keeps.length_lt), hreturned⟩

theorem Inv.publish (I : f.Inv start) (event : RuntimeSkillConfigEvent) :
    (f.step (.publish event)).Inv start := by
  refine ⟨I.keeps.publish event, I.fresh.imp id ?_⟩
  rintro ⟨first, hfirst, hreturned, hcursor, hle⟩
  refine ⟨first, hfirst, ?_, hcursor, ?_⟩
  · change f.returned = ((f.published ++ _).drop first).take f.returned.length
    rw [drop_append_of_le_length (by omega), take_append_of_le_length]
    · exact hreturned
    · rw [length_drop]
      omega
  · exact hle.trans (length_append ▸ le_add_right _ _)

theorem Inv.poll (I : f.Inv start) (limit : ℕ) : (f.step (.poll limit)).Inv start := by
  unfold step
  dsimp only
  split
  next batch hpoll =>
    have hlimit : limit ≠ 0 ∧ limit ≤ skillConfigMaxEventPollLimit := by
      simp only [SkillConfigEventQueue.poll, bind_eq_ok, refuseIf_eq_ok] at hpoll
      obtain ⟨-, hin, -⟩ := hpoll
      omega
    obtain ⟨first, hfirst⟩ : ∃ first, parseCursor start = .ok first := by
      rcases I.fresh with ⟨hcursor, -⟩ | ⟨first, hfirst, -⟩
      · simp only [SkillConfigEventQueue.poll, bind_eq_ok] at hpoll
        obtain ⟨-, -, first, hfirst, -⟩ := hpoll
        exact ⟨first, hcursor ▸ hfirst⟩
      · exact ⟨first, hfirst⟩
    obtain ⟨hcursor, hreturned⟩ := I.position hfirst
    rw [I.keeps.poll hlimit hcursor] at hpoll
    split at hpoll
    · cases hpoll
    next hbehind =>
      split at hpoll
      · cases hpoll
      cases hpoll
      refine ⟨I.keeps, .inr ⟨first, hfirst, ?_, ?_, ?_⟩⟩
      · -- the batch goes on where the last one ended
        dsimp only
        rw [← drop_drop]
        generalize f.published.drop first = rest at hreturned
        rw [length_append, take_add, ← hreturned, length_take,
          ← take_eq_take_min]
      · rw [length_append, add_assoc]
      · dsimp only
        rw [length_append, length_take, length_drop]
        omega
  next => exact I

theorem Inv.step (I : f.Inv start) (a : FeedAct) : (f.step a).Inv start := by
  cases a with
  | publish event => exact I.publish event
  | poll limit => exact I.poll limit

theorem Inv.run (I : f.Inv start) (acts : List FeedAct) : (f.run acts).Inv start := by
  induction acts generalizing f with
  | nil => exact I
  | cons a acts ih => exact ih (I.step a)

theorem Inv.published_run (I : f.Inv start) (acts : List FeedAct) (h : f.published = accepted submitted) :
    (f.run acts).published = accepted (submitted ++ acts.filterMap FeedAct.submits) := by
  induction acts generalizing f submitted with
  | nil => rwa [filterMap_nil, append_nil]
  | cons a acts ih =>
    cases a with
    | publish event =>
      have hstep : (f.step (.publish event)).published = accepted (submitted ++ [event]) := by
        rw [← (h ▸ I.keeps : f.queue.Keeps (accepted submitted)).accepts event, ← h]
        rfl
      rw [show FeedAct.publish event :: acts = [.publish event] ++ acts from rfl, filterMap_append,
        ← append_assoc]
      exact ih (I.publish event) hstep
    | poll limit =>
      have hstep : (f.step (.poll limit)).published = f.published := by
        unfold Feed.step
        dsimp only
        split <;> rfl
      rw [filterMap_cons_none (by rfl)]
      exact ih (I.poll limit) (hstep.trans h)

/-- A reader that follows its cursor, after any publications and polls. The published events are
those that the run submitted, numbered from one without a gap until the numbers are used up, and what
the polls returned are the published events behind the first cursor, each once and in order, up to the
present cursor. The queue retains the newest published
events: a poll whose cursor is ahead of them is refused, one whose next event was dropped is told that
the cursor expired, and any other returns the next events. -/
theorem polls_contiguous (start : Option String) (acts : List FeedAct) :
    let f := (opened start).run acts
    f.published = accepted (acts.filterMap FeedAct.submits) ∧
    f.published.map RuntimeSkillConfigEvent.sequence =
      (range' 1 f.published.length).map Nat.repr ∧
    (∀ e, parseCursor start = .error e → f.returned = [] ∧ f.cursor = start) ∧
    ∃ dropped, f.published = dropped ++ f.queue.events ∧
      f.queue.events.length ≤ skillConfigEventQueueCapacity ∧
      ∀ first, parseCursor start = .ok first →
        let after := first + f.returned.length
        f.returned = (f.published.drop first).take f.returned.length ∧
        f.returned.map RuntimeSkillConfigEvent.sequence =
          (range' (first + 1) f.returned.length).map Nat.repr ∧
        parseCursor f.cursor = .ok after ∧
        ∀ limit, limit ≠ 0 → limit ≤ skillConfigMaxEventPollLimit →
          (f.published.length < after →
            f.queue.poll f.cursor limit = .error (cursorInvalid after f.published.length)) ∧
          (after < dropped.length →
            f.queue.poll f.cursor limit = .error (cursorExpired after (dropped.length + 1))) ∧
          (dropped.length ≤ after → after ≤ f.published.length →
            ∃ batch, f.queue.poll f.cursor limit = .ok batch ∧
              batch.events = (f.published.drop after).take limit ∧
              parseCursor (some batch.nextSequence) = .ok (after + batch.events.length)) := by
  intro f
  have I : f.Inv start := (Inv.opened start).run acts
  have hlt := I.keeps.length_lt
  have hnothing : (opened start).published = accepted [] := rfl
  refine ⟨(Inv.opened start).published_run acts hnothing, I.keeps.numbered.sequences, ?_,
    f.published.take (f.published.length - skillConfigEventQueueCapacity), ?_, ?_, ?_⟩
  · intro e he
    rcases I.fresh with ⟨hcursor, hreturned⟩ | ⟨first, hfirst, -⟩
    · exact ⟨hreturned, hcursor⟩
    · cases he.symm.trans hfirst
  · rw [I.keeps.ring, take_append_drop]
  · rw [I.keeps.ring, length_drop]
    omega
  intro first hfirst after
  obtain ⟨hcursor, hreturned⟩ := I.position hfirst
  have hnumbered : Numbered first f.returned := hreturned ▸ (I.keeps.numbered.drop first).take _
  refine ⟨hreturned, hnumbered.sequences, hcursor, fun limit hzero hmax => ?_⟩
  have hpoll := I.keeps.poll ⟨hzero, hmax⟩ hcursor
  have hdropped : (f.published.take (f.published.length - skillConfigEventQueueCapacity)).length =
      f.published.length - skillConfigEventQueueCapacity := by
    rw [length_take]
    omega
  rw [hdropped]
  refine ⟨fun hahead => ?_, fun hexpired => ?_, fun hheld hle => ?_⟩
  · rw [hpoll, if_pos hahead]
  · rw [hpoll, if_neg (by omega), if_pos hexpired]
  · rw [hpoll, if_neg (by omega), if_neg (by omega)]
    refine ⟨_, rfl, rfl, parseCursor_repr ?_⟩
    rw [length_take, length_drop]
    omega

end Feed

end LuaSkills.SkillConfig
