import LuaSkills.Embedded.Broker.Runs
import LuaSkills.Embedded.Journal.Text

/-!
# Delivery of a batch as JSON

`take_json` on a running broker. Its sections are those of `take`; the preparation of a request is its
encoding into the bytes that are left. Between two sections every other call runs as it likes.
-/

namespace LuaSkills.Embedded

open HostRequestBroker

variable {prepared : PreparedCapability} {n : ℕ} {dispatched : List HostRequest}
  {thread thread' : Option (List Action)} {action : Action}

/-! ## The call -/

/-- The output so far, and how many requests are in it. -/
structure JsonBatch where
  output : String
  count : ℕ

inductive JsonCall where
  /-- `maintain_completions` and the first allocation. -/
  | maintaining
  | taking (batch : JsonBatch)
  | returned (result : EmbeddedResult String)

/-- A broker with one call of `take_json` under way. -/
structure JsonWorld where
  broker : BrokerWorld
  call : JsonCall
  /-- The requests that the sections of the call handed over, oldest first. -/
  dispatched : List HostRequest

/-- The arguments of a call, the text serde gives to business arguments, and the thread of the call. -/
structure TakeJson where
  limit : ℕ
  maxBytes : ℕ
  valueText : Json → String
  thread : ℕ

namespace JsonBatch

def separator (b : JsonBatch) : String := if b.count = 0 then "" else ","

def finish (b : JsonBatch) : EmbeddedResult String := .ok (b.output ++ "]")

/-- The requests in the output were dispatched: an error is kept back when there are any. -/
def fail (b : JsonBatch) (error : EmbeddedError) : EmbeddedResult String :=
  if b.count = 0 then .error error else b.finish

end JsonBatch

/-- The call ends with an error of one of its sections. -/
def JsonCall.abort (error : EmbeddedError) : JsonCall → JsonCall
  | .maintaining => .returned (.error error)
  | .taking batch => .returned (batch.fail error)
  | .returned result => .returned result

def handedOver (events : List BrokerEvent) : List HostRequest :=
  events.filterMap fun
    | .delivered request => some request
    | _ => none

def HostRequestBroker.sectionError (s : BrokerState) (a : Answers) : Action → EmbeddedError
  | .cancel id _ _ => if id ∈ s.records then poisoned else unknown s id
  | .settle id _ _ =>
    match a.poll with
    | .error error => if id ∈ s.records then error else poisoned
    | .ok _ => poisoned
  | _ => poisoned

namespace TakeJson
variable (C : TakeJson) (B : HostRequestBroker)

def new (w : BrokerWorld) (limit maxBytes : ℕ) (valueText : Json → String) : TakeJson :=
  ⟨limit, maxBytes, valueText, w.threads.length⟩

def text (r : HostRequest) : String :=
  JsonText.object [("effect_id", JsonText.optional r.effectId),
    ("request_id", JsonText.string r.requestId),
    ("registration_id", JsonText.string r.registrationId),
    ("name", JsonText.string r.name),
    ("version", JsonText.string r.version),
    ("caller", r.caller.text),
    ("arguments", C.valueText r.arguments),
    ("remaining_ms", r.remainingMs.repr)]

/-- The bytes that are left for a request, with its separator and the closing bracket reserved. -/
def remaining (b : JsonBatch) : ℕ :=
  C.maxBytes - (b.output.utf8ByteSize + b.separator.utf8ByteSize + 1)

/-- The closure that `take_json` prepares a request with. -/
def encode (b : JsonBatch) (r : HostRequest) (allocated : Bool) : EmbeddedResult Unit := do
  let _ ← jsonSize (C.text r).utf8ByteSize (C.remaining b)
  refuseIf (¬ allocated) capacity

def prepareHead (s : BrokerState) (b : JsonBatch) (remainingMs : ℕ) (allocated : Bool) :
    EmbeddedResult Unit :=
  match s.ready.head?.bind s.records.lookup with
  | some record => C.encode b { record.request with remainingMs } allocated
  | none => .ok ()

def progress (w : JsonWorld) (a : Answers) : JsonWorld :=
  let broker := B.turn w.broker C.thread a
  { w with
    broker
    dispatched := w.dispatched ++ handedOver (broker.events.drop w.broker.events.length) }

/-- One round of the loop. -/
def round (w : JsonWorld) (b : JsonBatch) (a : Answers) (allocated : Bool) : JsonWorld :=
  if b.count < C.limit then
    let a := { a with prepare := C.prepareHead w.broker.state b a.remainingMs allocated }
    let w' := C.progress B w a
    match (takeNext w.broker.state w.broker.gates a).2 with
    | .idle => { w' with call := .returned b.finish }
    | .failed error => { w' with call := .returned (b.fail error) }
    | .refused _ _ => w'
    | .delivered request =>
      { w' with call := .taking ⟨b.output ++ b.separator ++ C.text request, b.count + 1⟩ }
  else { w with call := .returned b.finish }

def turn (w : JsonWorld) (a : Answers) (allocated : Bool) : JsonWorld :=
  match w.broker.threads[C.thread]? with
  | some (.taking _ :: _) =>
    match w.call with
    | .maintaining =>
      { w with call := if allocated then .taking ⟨"[", 0⟩ else .returned (.error capacity) }
    | .taking b => C.round B w b a allocated
    | .returned _ => w
  | some (action :: _) =>
    match w.call with
    | .returned _ => w
    | call =>
      let w' := C.progress B w a
      match (B.act w.broker.state w.broker.gates a action).next with
      | some _ => w'
      | none => { w' with call := call.abort (sectionError w.broker.state a action) }
  | _ => w

/-- `take_json` up to its first section. -/
def start (w : BrokerWorld) : JsonWorld :=
  if C.limit = 0 ∨ C.limit > B.maxRecords ∨ C.maxBytes < 2 ∨ C.maxBytes > 2 ^ 63 - 1 then
    ⟨w, .returned (.error (.invalid "invalid host request JSON batch limits")), []⟩
  else ⟨B.perform w (.call (.take C.limit)), .maintaining, []⟩

end TakeJson

def BrokerStep.thread? : BrokerStep → Option ℕ
  | .turn t _ => some t
  | _ => none

/-- A step of any other call, or the next section of this one. -/
inductive JsonStep where
  | other (step : BrokerStep)
  | turn (answers : Answers) (allocated : Bool)

namespace TakeJson
variable (C : TakeJson) (B : HostRequestBroker)

/-- Nobody else takes a turn on the thread of the call. -/
def step (w : JsonWorld) : JsonStep → JsonWorld
  | .other step =>
    if step.thread? = some C.thread then w else { w with broker := B.perform w.broker step }
  | .turn a allocated => C.turn B w a allocated

def run (w : BrokerWorld) (steps : List JsonStep) : JsonWorld := steps.foldl (C.step B) (C.start B w)

end TakeJson


/-! ## The sections of other calls -/

/-- The rounds of delivery that remain of a call. -/
def Action.taking? : Action → Option ℕ
  | .taking n => some n
  | _ => none

/-- A section that hands nothing over, starts no delivery and puts no request into the queue. -/
structure Section.Quiet (x : Section) (s : BrokerState) : Prop where
  events : handedOver x.events = []
  issued : issued x.events = []
  next : ∀ next ∈ x.next, next.filterMap Action.taking? = []
  ready : x.state.ready.Sublist s.ready

namespace HostRequestBroker
variable {B : HostRequestBroker} {w : BrokerWorld} {s : BrokerState} {gates : EntryGates} {a : Answers}
  {action : Action} {id : String} {t : ℕ}

theorem remove_ready : (B.remove s id).ready.Sublist s.ready := by
  unfold remove
  split
  · exact .refl _
  · exact List.filter_sublist

theorem restore_quiet {next : Option (List Action)} (h : ∀ l ∈ next, l = []) :
    (restore s id prepared outcome next).Quiet s := by
  unfold restore
  split
  · exact ⟨rfl, rfl, nofun, .refl _⟩
  · exact ⟨rfl, rfl, fun l hl => h l hl ▸ rfl, .refl _⟩

theorem filterMap_taking {α : Type} {l : List α} {f : α → Action} (h : ∀ a ∈ l, (f a).taking? = none) :
    (l.map f).filterMap Action.taking? = [] := by
  rw [List.filterMap_map]
  exact List.filterMap_eq_nil_iff.2 h

theorem act_quiet (h : action.taking? = none) : (B.act s gates a action).Quiet s := by
  cases action with
  | maintain => exact ⟨rfl, rfl, fun l hl => Option.some.inj hl ▸ filterMap_taking fun _ _ => rfl, .refl _⟩
  | drive id =>
    simp only [act, driveCompletion]
    split
    · exact ⟨rfl, rfl, by rintro _ ⟨⟩; rfl, .refl _⟩
    · split
      · split
        · exact ⟨rfl, rfl, by rintro _ ⟨⟩, .refl _⟩
        · exact ⟨rfl, rfl, by rintro _ ⟨⟩; rfl, .refl _⟩
      · exact ⟨rfl, rfl, by rintro _ ⟨⟩; rfl, .refl _⟩
  | settle id prepared outcome =>
    simp only [act, settle]
    split
    · exact ⟨rfl, rfl, by rintro _ ⟨⟩; rfl, .refl _⟩
    · exact restore_quiet (by rintro _ ⟨⟩; rfl)
    · exact restore_quiet (by rintro _ ⟨⟩)
  | observe id =>
    simp only [act, observe]
    split
    · exact ⟨rfl, rfl, by rintro _ ⟨⟩, .refl _⟩
    · split
      · exact ⟨rfl, rfl, by rintro _ ⟨⟩; rfl, .refl _⟩
      · split
        · exact ⟨rfl, rfl, by rintro _ ⟨⟩; rfl, .refl _⟩
        · exact ⟨rfl, rfl, by rintro _ ⟨⟩; rfl, .refl _⟩
  | cancel id error tolerant =>
    simp only [act, cancel]
    split
    · exact ⟨rfl, rfl, by cases tolerant <;> rintro _ ⟨⟩; rfl, .refl _⟩
    · split
      · exact ⟨rfl, rfl, by rintro _ ⟨⟩; rfl, .refl _⟩
      · split
        · exact ⟨rfl, rfl, by rintro _ ⟨⟩; rfl, .refl _⟩
        · split
          · exact ⟨rfl, rfl, by rintro _ ⟨⟩, .refl _⟩
          · exact ⟨rfl, rfl, by rintro _ ⟨⟩; rfl, List.filter_sublist⟩
  | publish id outcome =>
    have hready : (B.publish s id outcome).1.ready.Sublist s.ready := by
      unfold publish
      split
      · exact .refl _
      · dsimp only
        split
        · exact .refl _
        · exact remove_ready
    simp only [act]
    split
    · next heq => exact ⟨rfl, rfl, by rintro _ ⟨⟩, by rw [heq] at hready; exact hready⟩
    · next heq => exact ⟨rfl, rfl, by rintro _ ⟨⟩; rfl, by rw [heq] at hready; exact hready⟩
  | accept id outcome =>
    simp only [act, accept]
    split
    · exact ⟨rfl, rfl, by rintro _ ⟨⟩, .refl _⟩
    · split
      · split
        · exact ⟨rfl, rfl, by rintro _ ⟨⟩, .refl _⟩
        · exact ⟨rfl, rfl, by rintro _ ⟨⟩; rfl, .refl _⟩
      all_goals exact ⟨rfl, rfl, by rintro _ ⟨⟩, .refl _⟩
  | retain id prepared outcome => exact restore_quiet (by rintro _ ⟨⟩; rfl)
  | taking limit => cases h
  | scan registrationId =>
    exact ⟨rfl, rfl, fun l hl => Option.some.inj hl ▸ filterMap_taking fun _ _ => rfl, .refl _⟩
  | abandon id =>
    simp only [act, abandon]
    split
    · exact ⟨rfl, rfl, by rintro _ ⟨⟩; rfl, .refl _⟩
    · split
      · exact ⟨rfl, rfl, by rintro _ ⟨⟩; rfl, remove_ready⟩
      · exact ⟨rfl, rfl, by rintro _ ⟨⟩; rfl, .refl _⟩
  | close => exact ⟨rfl, rfl, fun l hl => Option.some.inj hl ▸ filterMap_taking fun _ _ => rfl, .refl _⟩

/-- No record of the second table was dispatched since the first one. -/
def Undispatched (records records' : AssocMap String RequestRecord) : Prop :=
  ∀ id r', records'.lookup id = some r' → r'.phase = .dispatched →
    ∃ r, records.lookup id = some r ∧ r.phase = .dispatched

theorem Undispatched.refl (records : AssocMap String RequestRecord) : Undispatched records records :=
  fun _ r hr hp => ⟨r, hr, hp⟩

theorem Undispatched.erase (records : AssocMap String RequestRecord) (id : String) :
    Undispatched records (records.erase id) :=
  fun _ r hr hp => ⟨r, (AList.lookup_of_erase hr).2, hp⟩

theorem Undispatched.trans (h : Undispatched records records') (h' : Undispatched records' records'') :
    Undispatched records records'' := by
  intro id r hr hp
  obtain ⟨r', hr', hp'⟩ := h' id r hr hp
  exact h id r' hr' hp'

theorem Undispatched.insert {r' : RequestRecord} (hr : s.records.lookup id = some r)
    (h : r'.phase = .dispatched → r.phase = .dispatched) :
    Undispatched s.records (s.records.insert id r') := by
  intro id' r₁ hr₁ hp
  by_cases hid : id' = id
  · rw [hid, AList.lookup_insert] at hr₁
    cases hr₁
    exact ⟨r, hid ▸ hr, h hp⟩
  · rw [AList.lookup_insert_ne hid] at hr₁
    exact ⟨r₁, hr₁, hp⟩

theorem remove_undispatched : Undispatched s.records (B.remove s id).records := by
  unfold remove
  split
  · exact .refl _
  · exact .erase _ _

theorem restore_undispatched :
    Undispatched s.records (restore s id prepared outcome next).state.records := by
  unfold restore
  split
  · exact .refl _
  next hr => exact .insert hr fun h => h

/-- Only a delivery dispatches. -/
theorem act_undispatched (h : action.taking? = none) :
    Undispatched s.records (B.act s gates a action).state.records := by
  cases action with
  | maintain | scan | close => exact .refl _
  | drive id =>
    simp only [act, driveCompletion]
    split
    · exact .refl _
    next hr =>
    split
    · split
      · exact .refl _
      · exact .insert hr fun h => h
    · exact .refl _
  | settle id prepared outcome =>
    simp only [act, settle]
    split
    · exact .refl _
    · exact restore_undispatched
    · exact restore_undispatched
  | observe id =>
    simp only [act, observe]
    split
    · exact .refl _
    · split
      · exact .refl _
      · split <;> exact .refl _
  | cancel id error tolerant =>
    simp only [act, cancel]
    split
    · exact .refl _
    next hr =>
    split
    · exact .refl _
    · split
      · exact .insert hr fun h => h
      · split <;> exact .insert hr (by rintro ⟨⟩)
  | publish id outcome =>
    have hrecords : Undispatched s.records (B.publish s id outcome).1.records := by
      unfold publish
      split
      · exact .refl _
      next hr =>
        dsimp only
        split
        · exact .insert hr (by rintro ⟨⟩)
        · refine Undispatched.trans ?_ remove_undispatched
          exact .insert hr (by rintro ⟨⟩)
    simp only [act]
    split
    next heq => rw [heq] at hrecords; exact hrecords
    next heq => rw [heq] at hrecords; exact hrecords
  | accept id outcome =>
    simp only [act, accept]
    split
    · exact .refl _
    next hr =>
    split
    · split <;> exact .insert hr (by rintro ⟨⟩)
    all_goals exact .refl _
  | retain id prepared outcome => exact restore_undispatched
  | taking limit => cases h
  | abandon id =>
    simp only [act, abandon]
    split
    · exact .refl _
    next hr =>
    split
    · refine Undispatched.trans ?_ remove_undispatched
      exact .insert hr fun h => h
    · exact .insert hr fun h => h

/-- What a round hands over was at the front of the queue. -/
theorem act_taking (I : Inv B w) (n : ℕ) :
    ((handedOver (B.act w.state w.gates a (.taking n)).events).map HostRequest.requestId ++
      (B.act w.state w.gates a (.taking n)).state.ready).Sublist w.state.ready := by
  simp only [act, taking]
  split
  · exact .refl _
  have hround := takeNext_round w.state w.gates a
  generalize takeNext w.state w.gates a = x at hround
  cases hround with
  | stays d hd => cases d with
    | delivered request => exact absurd rfl (hd request)
    | _ => exact .refl _
  | delivers id rest r prepared _ hready hr =>
    have hid := (I.table.issued id r hr).2
    change (r.request.requestId :: rest).Sublist w.state.ready
    rw [hid, hready]

theorem issued_taking (n : ℕ) : issued (B.act s gates a (.taking n)).events = [] := by
  simp only [act, taking]
  split
  · rfl
  · split <;> rfl

theorem takeNext_delivered {request : HostRequest} (h : (takeNext s gates a).2 = .delivered request) :
    ∃ id rest r, s.ready = id :: rest ∧ s.records.lookup id = some r ∧ r.phase = .queued ∧
      request = { r.request with remainingMs := a.remainingMs } ∧ a.prepare = .ok () ∧
      (takeNext s gates a).1 = { s with
        ready := rest, records := s.records.insert id { r with phase := .dispatched } } := by
  unfold takeNext at h ⊢
  split at h
  · cases h
  next hclosing =>
  rw [if_neg hclosing]
  split at h
  · cases h
  next id rest hready =>
  split at h
  · cases h
  next r hr =>
  split at h
  next prepared hp hprep =>
    split at h
    · exact absurd h (Delivery.ofError_ne _ _ _)
    next hauthorize =>
    split at h
    · cases h
    next hprepare =>
    split at h
    · exact absurd h (Delivery.ofError_ne _ _ _)
    · cases h
    next hdispatch =>
    cases h
    refine ⟨id, rest, r, hready, hr, hp, rfl, hprepare, ?_⟩
    simp only [hprep]
  · cases h

def Delivery.follow (s : BrokerState) (n : ℕ) : Delivery → Section
  | .idle => ⟨s, some [], []⟩
  | .failed _ => ⟨s, none, []⟩
  | .refused id error => ⟨s, some [.cancel id error false, .taking n], []⟩
  | .delivered request => ⟨s, some [.taking (n - 1)], [.delivered request]⟩

theorem act_taking_eq (hn : n ≠ 0) : B.act s gates a (.taking n) =
    (takeNext s gates a).2.follow (takeNext s gates a).1 n := by
  simp only [act, taking, if_neg hn]
  generalize takeNext s gates a = x
  obtain ⟨s, d⟩ := x
  cases d <;> rfl

theorem issued_act : issued (B.act s gates a action).events = [] := by
  cases hc : action.taking? with
  | none => exact (act_quiet hc).issued
  | some n =>
    cases action with
    | taking => exact issued_taking _
    | _ => cases hc

theorem takeNext_stays (h : ∀ request, (takeNext s gates a).2 ≠ .delivered request) :
    (takeNext s gates a).1 = s := by
  have hround := takeNext_round s gates a
  generalize takeNext s gates a = x at h hround ⊢
  cases hround with
  | stays => rfl
  | delivers => exact absurd rfl (h _)

theorem takeNext_head (gates : EntryGates) (hclosing : ¬ s.closing) (hready : s.ready = id :: rest)
    (hr : s.records.lookup id = some r) (hp : r.phase = .queued) (hprepared : r.prepared = some prepared)
    (hauthorize : a.authorize = .ok ()) (h : a.prepare ≠ .ok () ∨ dispatch gates prepared a = .ok false) :
    takeNext s gates a = (s, .idle) ∨ ∃ error, takeNext s gates a = (s, .failed error) := by
  unfold takeNext
  simp only [if_neg hclosing, hready, hr, hp, hprepared, hauthorize]
  cases hprepare : a.prepare with
  | error e => exact .inr ⟨e, rfl⟩
  | ok u =>
    rw [h.resolve_left fun hne => hne hprepare]
    exact .inl rfl

/-! ## The queue -/

/-- A step hands over the front of the queue, and appends what it submits. -/
theorem turn_queue (I : Inv B w) (ht : w.threads[t]? = some (action :: rest)) :
    ((handedOver (B.act w.state w.gates a action).events).map HostRequest.requestId ++
      (B.turn w t a).state.ready).Sublist w.state.ready := by
  rw [turn_of_head a ht]
  cases hc : action.taking? with
  | none =>
    have Q : (B.act w.state w.gates a action).Quiet w.state := act_quiet hc
    rw [Q.events]
    exact Q.ready
  | some n =>
    cases action with
    | taking => exact act_taking I _
    | _ => cases hc

theorem turn_issued : issued (B.turn w t a).events = issued w.events := by
  unfold HostRequestBroker.turn
  split
  · rw [issued, List.filterMap_append]
    exact (congrArg (issued w.events ++ ·) issued_act).trans (List.append_nil _)
  · rfl

theorem submit_ready (gates : EntryGates) (prepared : PreparedCapability) :
    (B.submit s gates prepared a).1.ready = s.ready ++ (B.submit s gates prepared a).2.toOption.toList := by
  unfold HostRequestBroker.submit
  split
  · exact (List.append_nil _).symm
  · dsimp only
    split
    · exact (List.append_nil _).symm
    · rfl

theorem perform_queue (I : Inv B w) (step : BrokerStep) : ∃ more,
    issued (B.perform w step).events = issued w.events ++ more ∧
      (B.perform w step).state.ready.Sublist (w.state.ready ++ more) := by
  cases step with
  | submit prepared a =>
    have hready := submit_ready (B := B) (s := w.state) (a := a) w.gates prepared
    simp only [HostRequestBroker.perform]
    split
    next heq =>
      rw [heq] at hready
      exact ⟨[], (List.append_nil _).symm, hready ▸ .refl _⟩
    next heq =>
      rw [heq] at hready
      exact ⟨_, issued_append_submitted, hready ▸ .refl _⟩
  | call call => exact ⟨[], (List.append_nil _).symm, by rw [List.append_nil]; exact .refl _⟩
  | turn t a =>
    refine ⟨[], turn_issued.trans (List.append_nil _).symm, ?_⟩
    rw [List.append_nil]
    simp only [HostRequestBroker.perform]
    cases ht : w.threads[t]? with
    | none => rw [HostRequestBroker.turn, ht]
    | some l =>
      cases l with
      | nil => rw [HostRequestBroker.turn, ht]
      | cons action rest => exact (List.sublist_append_right _ _).trans (turn_queue I ht)
  | unregister registrationId =>
    refine ⟨[], ?_, by rw [List.append_nil]; exact .refl _⟩
    rw [HostRequestBroker.perform, issued, List.filterMap_append]
    rfl
  | finalizationOnly registrationId =>
    exact ⟨[], (List.append_nil _).symm, by rw [List.append_nil]; exact .refl _⟩

theorem perform_thread (step : BrokerStep) (hl : w.threads[t]? = some l) (hstep : step.thread? ≠ some t) :
    (B.perform w step).threads[t]? = some l := by
  have ht := (List.getElem?_eq_some_iff.1 hl).1
  cases step with
  | submit prepared a =>
    simp only [HostRequestBroker.perform]
    split <;> exact hl
  | call call => exact (List.getElem?_append_left ht).trans hl
  | turn t' a =>
    have hne : t' ≠ t := fun h => hstep (congrArg some h)
    simp only [HostRequestBroker.perform, HostRequestBroker.turn]
    split
    · exact (List.getElem?_set_ne hne).trans hl
    · exact hl
  | unregister registrationId => exact (List.getElem?_append_left ht).trans hl
  | finalizationOnly registrationId => exact hl

end HostRequestBroker

/-! ## The accounts of the call -/

namespace TakeJson
variable (C : TakeJson) {B : HostRequestBroker} {w w' : JsonWorld} {a : Answers} {b : JsonBatch}

/-- What the call has, given the sections that remain of its thread. -/
def Accounted (dispatched : List HostRequest) (thread : Option (List Action)) : JsonCall → Prop
  | .maintaining => dispatched = [] ∧ 2 ≤ C.maxBytes ∧
      ∃ l, thread = some l ∧ l.filterMap Action.taking? = [C.limit]
  | .taking b => b.count = dispatched.length ∧ b.output = "[" ++ JsonText.items (dispatched.map C.text) ∧
      b.output.utf8ByteSize + 1 ≤ C.maxBytes ∧ b.count ≤ C.limit ∧
      ∃ l, thread = some l ∧ l.filterMap Action.taking? = [C.limit - b.count]
  | .returned (.ok output) => output = JsonText.array (dispatched.map C.text) ∧
      output.utf8ByteSize ≤ C.maxBytes ∧ dispatched.length ≤ C.limit
  | .returned (.error _) => dispatched = []

structure Inv (B : HostRequestBroker) (w : JsonWorld) : Prop where
  broker : HostRequestBroker.Inv B w.broker
  order : (w.dispatched.map HostRequest.requestId ++ w.broker.state.ready).Sublist
    (issued w.broker.events)
  accounted : C.Accounted w.dispatched w.broker.threads[C.thread]? w.call

variable {C}

theorem Accounted.finish
    (h : C.Accounted dispatched thread (.taking b)) :
    C.Accounted dispatched thread' (.returned b.finish) := by
  obtain ⟨hcount, houtput, hsize, hlimit, -⟩ := h
  refine ⟨?_, ?_, hcount ▸ hlimit⟩
  · rw [houtput]
    rfl
  · rw [String.utf8ByteSize_append]
    exact hsize

theorem Accounted.fail
    (h : C.Accounted dispatched thread (.taking b)) (error : EmbeddedError) :
    C.Accounted dispatched thread' (.returned (b.fail error)) := by
  unfold JsonBatch.fail
  split
  · next hzero => exact List.eq_nil_of_length_eq_zero (h.1.symm.trans hzero)
  · exact h.finish

theorem Accounted.abort (h : C.Accounted dispatched thread call) (error : EmbeddedError) :
    C.Accounted dispatched thread' (call.abort error) := by
  cases call with
  | maintaining => exact h.1
  | taking b => exact h.fail error
  | returned result => cases result <;> exact h

/-- Sections of other kinds come and go. -/
theorem Accounted.move {l' : List Action} (h : C.Accounted dispatched (some l) call)
    (hl : l'.filterMap Action.taking? = l.filterMap Action.taking?) :
    C.Accounted dispatched (some l') call := by
  cases call with
  | maintaining =>
    obtain ⟨hnil, htwo, _, ⟨⟩, htaking⟩ := h
    exact ⟨hnil, htwo, _, rfl, hl.trans htaking⟩
  | taking b =>
    obtain ⟨hcount, houtput, hsize, hlimit, _, ⟨⟩, htaking⟩ := h
    exact ⟨hcount, houtput, hsize, hlimit, _, rfl, hl.trans htaking⟩
  | returned result => cases result <;> exact h

theorem text_pos (r : HostRequest) : 0 < (C.text r).utf8ByteSize := by
  have hopen : 0 < ("\x7b" : String).utf8ByteSize := by decide
  simp only [text, JsonText.object, String.utf8ByteSize_append]
  omega

theorem encode_eq_ok (h : C.encode b r allocated = .ok ()) :
    b.output.utf8ByteSize + b.separator.utf8ByteSize + (C.text r).utf8ByteSize + 1 ≤ C.maxBytes := by
  simp only [encode, jsonSize, Except.bind_eq_ok, refuseIf_eq_ok] at h
  obtain ⟨_, ⟨_, hsize, -⟩, -⟩ := h
  unfold remaining at hsize
  have := C.text_pos r
  omega

/-- A request that was handed over is in the output. -/
theorem Accounted.deliver {rest : List Action} (h : C.Accounted dispatched thread (.taking b))
    (hlt : b.count < C.limit)
    (hsize : b.output.utf8ByteSize + b.separator.utf8ByteSize + (C.text r).utf8ByteSize + 1 ≤ C.maxBytes)
    (hrest : rest.filterMap Action.taking? = []) :
    C.Accounted (dispatched ++ [r]) (some (.taking (C.limit - b.count - 1) :: rest))
      (.taking ⟨b.output ++ b.separator ++ C.text r, b.count + 1⟩) := by
  obtain ⟨hcount, houtput, -, -, -⟩ := h
  refine ⟨?_, ?_, ?_, hlt, _, rfl, ?_⟩
  · rw [List.length_append, List.length_singleton, ← hcount]
  · simp only [houtput, List.map_append, List.map_singleton, JsonBatch.separator]
    split
    next hzero =>
      have hnil := List.eq_nil_of_length_eq_zero (hcount.symm.trans hzero)
      rw [hnil]
      rfl
    next hzero =>
      have hne : dispatched.map C.text ≠ [] := fun hnil => hzero (by
        rw [hcount, List.map_eq_nil_iff.1 hnil]
        rfl)
      rw [JsonText.items_append_singleton hne]
      simp only [String.append_assoc]
  · simp only [String.utf8ByteSize_append]
    omega
  · change (C.limit - b.count - 1) :: rest.filterMap Action.taking? = [C.limit - (b.count + 1)]
    rw [hrest, Nat.sub_sub]

/-! ## The steps -/

theorem progress_of_head (ht : w.broker.threads[C.thread]? = some (action :: rest)) :
    (C.progress B w a).broker = B.turn w.broker C.thread a ∧
      (C.progress B w a).dispatched = w.dispatched ++
        handedOver (B.act w.broker.state w.broker.gates a action).events ∧
      (C.progress B w a).broker.threads[C.thread]? =
        some ((B.act w.broker.state w.broker.gates a action).follow rest) ∧
      (C.progress B w a).call = w.call := by
  have hturn := turn_of_head (B := B) a ht
  refine ⟨rfl, ?_, ?_, rfl⟩
  · simp only [progress, hturn, after, List.drop_left]
  · simp only [progress, hturn]
    exact List.getElem?_set_self (List.getElem?_eq_some_iff.1 ht).1

section
variable (I : C.Inv B w)
include I

theorem Inv.progress_order (ht : w.broker.threads[C.thread]? = some (action :: rest)) :
    ((C.progress B w a).dispatched.map HostRequest.requestId ++ (C.progress B w a).broker.state.ready).Sublist
      (issued (C.progress B w a).broker.events) := by
  obtain ⟨hbroker, hdispatched, -⟩ := progress_of_head (B := B) (a := a) ht
  rw [hdispatched, hbroker, turn_issued, List.map_append, List.append_assoc]
  exact ((turn_queue I.broker ht).append_left _).trans I.order

theorem Inv.other (step : BrokerStep) (hstep : step.thread? ≠ some C.thread) :
    C.Inv B { w with broker := B.perform w.broker step } where
  broker := I.broker.perform step
  order := by
    obtain ⟨more, hissued, hready⟩ := perform_queue I.broker step
    rw [hissued]
    refine (hready.append_left _).trans ?_
    rw [← List.append_assoc]
    exact I.order.append_right _
  accounted := by
    have h := I.accounted
    revert h
    cases w.call with
    | maintaining =>
      rintro ⟨hnil, htwo, l, hl, htaking⟩
      exact ⟨hnil, htwo, l, perform_thread step hl hstep, htaking⟩
    | taking b =>
      rintro ⟨hcount, houtput, hsize, hlimit, l, hl, htaking⟩
      exact ⟨hcount, houtput, hsize, hlimit, l, perform_thread step hl hstep, htaking⟩
    | returned result => cases result <;> exact id

/-- One round of the loop. -/
theorem Inv.round {rest : List Action} (ht : w.broker.threads[C.thread]? = some (.taking n :: rest))
    (hcall : w.call = .taking b) (allocated : Bool) : C.Inv B (C.round B w b a allocated) := by
  have hacc := I.accounted
  rw [hcall] at hacc
  have hcounts := hacc
  obtain ⟨-, -, -, -, l, hl, htaking⟩ := hcounts
  rw [ht] at hl
  cases hl
  obtain ⟨hn, hrest⟩ : n = C.limit - b.count ∧ rest.filterMap Action.taking? = [] := List.cons_eq_cons.1 htaking
  unfold TakeJson.round
  split
  next hlt =>
    set a' : Answers := { a with
      prepare := C.prepareHead w.broker.state b a.remainingMs allocated } with ha'
    obtain ⟨hbroker, hdispatched, hthread, hkept⟩ := progress_of_head (B := B) (a := a') ht
    have hinv : HostRequestBroker.Inv B (C.progress B w a').broker := I.broker.turn _ _
    have horder := I.progress_order (a := a') ht
    rw [act_taking_eq (by omega)] at hdispatched hthread
    dsimp only
    split
    next heq =>
      rw [heq] at hdispatched
      have hsame := hdispatched.trans (List.append_nil w.dispatched)
      refine ⟨hinv, horder, ?_⟩
      rw [hsame]
      exact hacc.finish
    next error heq =>
      rw [heq] at hdispatched
      have hsame := hdispatched.trans (List.append_nil w.dispatched)
      refine ⟨hinv, horder, ?_⟩
      rw [hsame]
      exact hacc.fail error
    next id error heq =>
      rw [heq] at hdispatched hthread
      have hsame := hdispatched.trans (List.append_nil w.dispatched)
      refine ⟨hinv, horder, ?_⟩
      rw [hsame, hthread, hkept, hcall]
      obtain ⟨hcount, houtput, hsize, hlimit, -⟩ := hacc
      refine ⟨hcount, houtput, hsize, hlimit, _, rfl, ?_⟩
      change n :: rest.filterMap Action.taking? = _
      rw [hn, hrest]
    next request heq =>
      rw [heq] at hdispatched hthread
      obtain ⟨id, rest', r, hready, hr, -, hrequest, hprepare, -⟩ := takeNext_delivered heq
      refine ⟨hinv, horder, ?_⟩
      dsimp only
      rw [hdispatched, hthread]
      have hencode : C.encode b request allocated = .ok () := by
        rw [ha', prepareHead, hready] at hprepare
        simpa only [List.head?_cons, Option.bind_some, hr, hrequest] using hprepare
      exact hn ▸ hacc.deliver hlt (encode_eq_ok hencode) hrest
  next => exact ⟨I.broker, I.order, hacc.finish⟩

/-- The next section of the call. -/
theorem Inv.turn (a : Answers) (allocated : Bool) : C.Inv B (C.turn B w a allocated) := by
  unfold TakeJson.turn
  split
  next n rest ht =>
    split
    next hcall =>
      have hacc := I.accounted
      rw [hcall, ht] at hacc
      obtain ⟨hnil, htwo, l, hl, htaking⟩ := hacc
      refine ⟨I.broker, I.order, ?_⟩
      cases allocated with
      | false => exact hnil
      | true =>
        dsimp only
        rw [ht, hnil, if_pos rfl]
        exact ⟨rfl, rfl, htwo, Nat.zero_le _, l, hl, htaking⟩
    next b hcall => exact I.round ht hcall allocated
    next => exact I
  next action rest hne ht =>
    have hquiet : action.taking? = none := by
      cases action with
      | taking n => exact (hne n rfl).elim
      | _ => rfl
    have Q : (B.act w.broker.state w.broker.gates a action).Quiet w.broker.state := act_quiet hquiet
    obtain ⟨hbroker, hdispatched, hthread, hkept⟩ := progress_of_head (B := B) (a := a) ht
    have hinv : HostRequestBroker.Inv B (C.progress B w a).broker := I.broker.turn _ _
    have horder := I.progress_order (a := a) ht
    rw [Q.events, List.append_nil] at hdispatched
    have hacc := I.accounted
    split
    next => exact I
    next hcall =>
      split
      next next hnext =>
        refine ⟨hinv, horder, ?_⟩
        rw [hdispatched, hthread, hkept]
        rw [ht] at hacc
        refine hacc.move ?_
        rw [Section.follow, hnext, List.filterMap_append, Q.next next hnext,
          List.filterMap_cons_none hquiet]
        rfl
      next hnext =>
        refine ⟨hinv, horder, ?_⟩
        dsimp only
        rw [hdispatched]
        exact hacc.abort _
  next => exact I

theorem Inv.step (s : JsonStep) : C.Inv B (C.step B w s) := by
  cases s with
  | other step =>
    simp only [TakeJson.step]
    split
    next => exact I
    next hne => exact I.other step hne
  | turn a allocated => exact I.turn a allocated

end

theorem Inv.start {w : BrokerWorld} (I : HostRequestBroker.Inv B w) (limit maxBytes : ℕ)
    (valueText : Json → String) :
    (new w limit maxBytes valueText).Inv B ((new w limit maxBytes valueText).start B w) := by
  have horder : w.state.ready.Sublist (issued w.events) := by
    rw [I.table.ready]
    exact List.filter_sublist
  unfold TakeJson.start
  split
  next => exact ⟨I, horder, rfl⟩
  next hvalid =>
    simp only [not_or, not_lt, gt_iff_lt] at hvalid
    obtain ⟨hzero, hrecords, htwo, -⟩ := hvalid
    refine ⟨I.perform (.call (.take limit)), horder, rfl, htwo, [.maintain, .taking limit], ?_, rfl⟩
    have hactions : BrokerCall.actions B (.take limit) = [.maintain, .taking limit] :=
      if_neg (not_or.2 ⟨hzero, Nat.not_lt.2 hrecords⟩)
    change (w.threads ++ [BrokerCall.actions B (.take limit)])[w.threads.length]? = _
    rw [hactions, List.getElem?_concat_length]

theorem Inv.run {w : BrokerWorld} (I : HostRequestBroker.Inv B w) (limit maxBytes : ℕ)
    (valueText : Json → String) (steps : List JsonStep) :
    (new w limit maxBytes valueText).Inv B ((new w limit maxBytes valueText).run B w steps) := by
  unfold TakeJson.run
  induction steps using List.reverseRecOn with
  | nil => exact TakeJson.Inv.start I limit maxBytes valueText
  | append_singleton steps step ih =>
    rw [List.foldl_append]
    exact ih.step step

/-! ## The batch -/

/-- The section dispatched the head of the queue, or nothing. -/
def Moved (w w' : JsonWorld) : Prop :=
  (w'.dispatched = w.dispatched ∧ Undispatched w.broker.state.records w'.broker.state.records) ∨
    ∃ request rest r, w'.dispatched = w.dispatched ++ [request] ∧
      w.broker.state.ready = request.requestId :: rest ∧
      w.broker.state.records.lookup request.requestId = some r ∧ r.phase = .queued ∧
      request = { r.request with remainingMs := request.remainingMs } ∧
      w'.broker.state = { w.broker.state with
        ready := rest
        records := w.broker.state.records.insert request.requestId { r with phase := .dispatched } }

/-- The call in a state of a run. -/
structure Faithful (C : TakeJson) (B : HostRequestBroker) (w : JsonWorld) : Prop where
  ok : ∀ output, w.call = .returned (.ok output) →
    output = JsonText.array (w.dispatched.map C.text) ∧ output.utf8ByteSize ≤ C.maxBytes ∧
      w.dispatched.length ≤ C.limit
  error : ∀ error, w.call = .returned (.error error) → w.dispatched = []
  /-- The queue is in the order of submission. -/
  order : (w.dispatched.map HostRequest.requestId).Sublist (issued w.broker.events)
  once : (w.dispatched.map HostRequest.requestId).Nodup
  moved : ∀ a allocated, Moved w (C.turn B w a allocated)
  /-- A head that does not fit, or whose durable intent is pending, stays. -/
  stays : ∀ b n after a allocated id rest r prepared, w.call = .taking b → b.count < C.limit →
    w.broker.threads[C.thread]? = some (.taking n :: after) → ¬ w.broker.state.closing →
    w.broker.state.ready = id :: rest → w.broker.state.records.lookup id = some r →
    r.prepared = some prepared → a.authorize = .ok () →
    (C.encode b { r.request with remainingMs := a.remainingMs } allocated ≠ .ok () ∨
      dispatch w.broker.gates prepared a = .ok false) →
    r.phase = .queued ∧ (C.turn B w a allocated).broker.state = w.broker.state ∧
      ∃ result, (C.turn B w a allocated).call = .returned result

/-- What a section of the call dispatches. -/
theorem Inv.moved_progress (I : C.Inv B w) {rest : List Action}
    (ht : w.broker.threads[C.thread]? = some (action :: rest)) : Moved w (C.progress B w a) := by
  obtain ⟨hbroker, hdispatched, -, -⟩ := progress_of_head (B := B) (a := a) ht
  have hstate : (C.progress B w a).broker.state = (B.act w.broker.state w.broker.gates a action).state := by
    rw [hbroker, turn_of_head a ht]
    rfl
  cases hc : action.taking? with
  | none =>
    have Q : (B.act w.broker.state w.broker.gates a action).Quiet w.broker.state := act_quiet hc
    rw [Q.events, List.append_nil] at hdispatched
    refine .inl ⟨hdispatched, ?_⟩
    rw [hstate]
    exact act_undispatched hc
  | some n =>
    cases action with
    | taking n =>
      by_cases hzero : n = 0
      · rw [hzero] at hdispatched hstate
        refine .inl ⟨hdispatched.trans (List.append_nil _), ?_⟩
        rw [hstate]
        exact .refl _
      · rw [act_taking_eq hzero] at hdispatched hstate
        cases hd : (takeNext w.broker.state w.broker.gates a).2 with
        | delivered request =>
          obtain ⟨id, rest, r, hready, hr, hp, hrequest, -, hnext⟩ := takeNext_delivered hd
          rw [hd] at hdispatched hstate
          have hid : request.requestId = id := by
            rw [hrequest]
            exact (I.broker.table.issued id r hr).2
          refine .inr ⟨request, rest, r, hdispatched, hid ▸ hready, hid ▸ hr, hp, ?_, ?_⟩
          · rw [hrequest]
          · rw [hstate, hid]
            exact hnext
        | _ =>
          have hsame : (takeNext w.broker.state w.broker.gates a).1 = w.broker.state :=
            takeNext_stays (by rw [hd]; exact nofun)
          rw [hd] at hdispatched hstate
          refine .inl ⟨hdispatched.trans (List.append_nil _), ?_⟩
          rw [hstate, Delivery.follow, hsame]
          exact .refl _
    | _ => cases hc

theorem Moved.of_eq {w₂ : JsonWorld} (h : Moved w w₁) (hdispatched : w₂.dispatched = w₁.dispatched)
    (hbroker : w₂.broker = w₁.broker) : Moved w w₂ := by
  unfold Moved
  rw [hdispatched, hbroker]
  exact h

theorem Moved.refl (w : JsonWorld) : Moved w w := .inl ⟨rfl, .refl _⟩

theorem Inv.moved (I : C.Inv B w) (a : Answers) (allocated : Bool) : Moved w (C.turn B w a allocated) := by
  unfold TakeJson.turn
  split
  next n rest ht =>
    split
    next => exact (Moved.refl w).of_eq rfl rfl
    next b hcall =>
      unfold TakeJson.round
      split
      · dsimp only
        split <;> exact (I.moved_progress ht).of_eq rfl rfl
      · exact (Moved.refl w).of_eq rfl rfl
    next => exact .refl w
  next action rest hne ht =>
    split
    next => exact .refl w
    next => split <;> exact (I.moved_progress ht).of_eq rfl rfl
  next => exact .refl w

/-- A head that does not fit, or whose durable intent is pending, ends the batch. -/
theorem Inv.stays (I : C.Inv B w) {after : List Action} {id : String} {rest : List String}
    {r : RequestRecord} {allocated : Bool}
    (hcall : w.call = .taking b) (hlt : b.count < C.limit)
    (ht : w.broker.threads[C.thread]? = some (.taking n :: after)) (hclosing : ¬ w.broker.state.closing)
    (hready : w.broker.state.ready = id :: rest) (hr : w.broker.state.records.lookup id = some r)
    (hprepared : r.prepared = some prepared) (hauthorize : a.authorize = .ok ())
    (h : C.encode b { r.request with remainingMs := a.remainingMs } allocated ≠ .ok () ∨
      dispatch w.broker.gates prepared a = .ok false) :
    r.phase = .queued ∧ (C.turn B w a allocated).broker.state = w.broker.state ∧
      ∃ result, (C.turn B w a allocated).call = .returned result := by
  have hphase : r.phase = .queued := by
    obtain ⟨r', hr', hp⟩ := I.broker.ready_mem.1 (hready ▸ List.mem_cons_self : id ∈ w.broker.state.ready)
    cases hr.symm.trans hr'
    exact hp
  refine ⟨hphase, ?_⟩
  have hprepare : C.prepareHead w.broker.state b a.remainingMs allocated =
      C.encode b { r.request with remainingMs := a.remainingMs } allocated := by
    rw [prepareHead, hready, List.head?_cons, Option.bind_some, hr]
  have hturn : C.turn B w a allocated = C.round B w b a allocated := by
    simp only [TakeJson.turn, ht, hcall]
  rw [hturn, TakeJson.round, if_pos hlt, hprepare]
  dsimp only
  set a' : Answers := { a with
    prepare := C.encode b { r.request with remainingMs := a.remainingMs } allocated }
  have hhead := takeNext_head (a := a') w.broker.gates hclosing hready hr hphase hprepared
    hauthorize h
  have hact : (B.act w.broker.state w.broker.gates a' (.taking n)).state = w.broker.state := by
    simp only [act, taking]
    split
    · rfl
    · rcases hhead with heq | ⟨error, heq⟩ <;> rw [heq]
  have hstate : (C.progress B w a').broker.state = w.broker.state := by
    rw [(progress_of_head (B := B) (a := a') ht).1, turn_of_head a' ht]
    exact hact
  rcases hhead with heq | ⟨error, heq⟩ <;> rw [heq] <;> exact ⟨hstate, _, rfl⟩

theorem Inv.faithful (I : C.Inv B w) : C.Faithful B w where
  ok output h := by
    have hacc := I.accounted
    rw [h] at hacc
    exact hacc
  error error h := by
    have hacc := I.accounted
    rw [h] at hacc
    exact hacc
  order := (List.sublist_append_left _ _).trans I.order
  once := ((List.sublist_append_left _ _).trans I.order).nodup I.broker.log.nodup
  moved := I.moved
  stays b n after a allocated id rest r prepared hcall hlt ht hclosing hready hr hprepared hauthorize :=
    I.stays hcall hlt ht hclosing hready hr hprepared hauthorize

/-- Every call of `take_json`, on every reachable broker and with every interleaving of other calls,
delivers the array of the requests it dispatched. -/
theorem faithful_batch (B : HostRequestBroker) (before : List BrokerStep) (limit maxBytes : ℕ)
    (valueText : Json → String) (steps : List JsonStep) :
    (new (B.run before) limit maxBytes valueText).Faithful B
      ((new (B.run before) limit maxBytes valueText).run B (B.run before) steps) :=
  (Inv.run (HostRequestBroker.Inv.run before) limit maxBytes valueText steps).faithful

end TakeJson
end LuaSkills.Embedded
