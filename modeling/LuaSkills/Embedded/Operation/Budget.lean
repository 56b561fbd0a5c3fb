import Mathlib.Algebra.Order.BigOperators.Group.List
import Mathlib.Algebra.Order.Group.Nat
import LuaSkills.Embedded.Identity
import LuaSkills.Embedded.Journal.Text
import LuaSkills.Embedded.Operation.Effects

/-!
# The retention budget of an effect ledger

The ledger as admission creates it, with the sizes serde gives its records, and every run of calls on
it. The bytes of a ledger are those of the module context and of one reservation per record; the
reservation of a record covers each phase and each effect the record can still reach.
-/

namespace LuaSkills.Embedded

open List Option Except

variable {r r' : HostEffectRecord} {n i : ℕ}

/-! ## The serialized form of a record -/

def HostEffectPhase.spelling : HostEffectPhase → String
  | .prepared => "prepared"
  | .running => "running"
  | .completed => "completed"

def EffectState.spelling : EffectState → String
  | .notStarted => "not_started"
  | .notApplicable => "not_applicable"
  | .committed => "committed"
  | .rolledBack => "rolled_back"
  | .unknown => "unknown"

def HostEffectRecord.leadingFields (r : HostEffectRecord) : List (String × String) :=
  [("caller", r.caller.text),
    ("effect_id", JsonText.string r.effectId),
    ("registration_id", JsonText.string r.registrationId),
    ("capability_name", JsonText.string r.capabilityName),
    ("capability_version", JsonText.string r.capabilityVersion),
    ("request_id", JsonText.optional r.requestId)]

def HostEffectRecord.text (r : HostEffectRecord) : String :=
  JsonText.object <| r.leadingFields ++
    [("phase", JsonText.string r.phase.spelling), ("effects", JsonText.string r.effects.spelling)]

/-- The serialized size of a record. -/
def HostEffectRecord.size (r : HostEffectRecord) : ℕ := r.text.utf8ByteSize

/-- The serialized context, its kind first. -/
def OperationContext.text : OperationContext → String
  | .unbound => JsonText.object [("kind", JsonText.string "unbound")]
  | .module context => JsonText.object <|
      [("kind", JsonText.string "module")] ++
      (if context.prewarm then [("prewarm", "true")] else []) ++
      skippedField "finalization_instance_id" context.finalizationInstanceId ++
      [("pool_id", JsonText.string context.poolId),
        ("caller", context.caller.text),
        ("capability_revision", JsonText.string context.capabilityRevision),
        ("export", JsonText.optional context.export?)]

theorem HostEffectPhase.spelling_size_le (phase : HostEffectPhase) :
    (JsonText.string phase.spelling).utf8ByteSize ≤
      (JsonText.string HostEffectPhase.completed.spelling).utf8ByteSize := by
  cases phase <;> decide +kernel

theorem EffectState.spelling_size_le (effects : EffectState) :
    (JsonText.string effects.spelling).utf8ByteSize ≤
      (JsonText.string EffectState.notApplicable.spelling).utf8ByteSize := by
  cases effects <;> decide +kernel

namespace HostEffectRecord

def maximum (r : HostEffectRecord) : HostEffectRecord :=
  { r with phase := .completed, effects := .notApplicable }

/-- The reservation covers every phase and every effect of the record. -/
theorem size_le_maximum (r : HostEffectRecord) (phase : HostEffectPhase) (effects : EffectState) :
    { r with phase, effects }.size ≤ r.maximum.size := by
  refine JsonText.object_size_le (rel_append (forall₂_same.2 fun f _ => .refl f) ?_)
  exact .cons ⟨rfl, phase.spelling_size_le⟩ (.cons ⟨rfl, effects.spelling_size_le⟩ .nil)

def Stable (r r' : HostEffectRecord) : Prop :=
  r' = { r with phase := r'.phase, effects := r'.effects }

theorem Stable.maximum (h : r.Stable r') : r'.maximum = r.maximum := by
  rw [h]
  rfl

theorem Stable.size_le (h : r.Stable r') : r'.size ≤ r.maximum.size := by
  rw [h]
  exact r.size_le_maximum _ _

end HostEffectRecord

/-! ## Runs of a ledger -/

/-- A call on the ledger; attempts name their record by its position. -/
inductive LedgerCall where
  | prepare (stage : EffectAdmissionStage) (caller : CapabilityCaller)
    (registrationId name version : String)
  | bindRequest (i : ℕ) (requestId : String)
  | begin (i : ℕ)
  | observe (i : ℕ) (effects : EffectState)
  | drop (i : ℕ)
  | beginFinalization
  | sealRecords

namespace EffectLedger

/-- What admission charges for the module context. -/
def contextBytes (context : OperationContext) (maxEffectBytes : ℕ) : EmbeddedResult ℕ :=
  match context with
  | .unbound => .ok 0
  | .module _ => jsonSize context.text.utf8ByteSize maxEffectBytes

/-- The ledger that admission creates for an operation. -/
def admitted (runtimeId operationId : String) (context : OperationContext)
    (maxRecords maxBytes : ℕ) : EmbeddedResult (EffectLedger × LedgerState) := do
  let bytes ← contextBytes context maxBytes
  return (⟨context.caller, runtimeId, operationId, maxRecords, maxBytes, HostEffectRecord.size⟩,
    new bytes)

variable (L : EffectLedger)

def execute (s : LedgerState) : LedgerCall → EmbeddedResult LedgerState
  | .prepare stage caller registrationId name version =>
    L.prepare s stage caller registrationId name version
  | .bindRequest i requestId => L.bindRequest s i requestId
  | .begin i => beginEffect s i
  | .observe i effects => .ok (observe s i effects)
  | .drop i => .ok (dropAttempt s i)
  | .beginFinalization => Prod.fst <$> beginFinalization s
  | .sealRecords => Prod.fst <$> sealRecords s

/-- The ledger after a call; a refusal leaves it. -/
def perform (s : LedgerState) (call : LedgerCall) : LedgerState :=
  match L.execute s call with
  | .ok s' => s'
  | .error _ => s

def runFrom (s : LedgerState) (calls : List LedgerCall) : LedgerState := calls.foldl L.perform s

/-! ## What a call can do -/

theorem effectId_injective : Function.Injective L.effectId := by
  intro i j h
  have hrepr : (i + 1).repr = (j + 1).repr :=
    (String.append_right_inj _).1 ((String.append_right_inj _).1 h)
  exact Nat.succ.inj (Nat.decimal_injective hrepr)

/-- A call keeps every record up to its phase and effects, adds one record or binds one request. -/
inductive Change (s s' : LedgerState) : Prop where
  | kept (records : Forall₂ HostEffectRecord.Stable s.records s'.records)
    (bytes : s'.bytes = s.bytes)
  | prepared (record : HostEffectRecord) (id : record.effectId = L.effectId s.records.length)
    (size : L.effectSize record.maximum < wordBound) (room : s.records.length < L.maxRecords)
    (records : s'.records = s.records ++ [record])
    (bytes : s'.bytes = s.bytes + L.effectSize record.maximum) (bytes_le : s'.bytes ≤ L.maxBytes)
  | bound (i : ℕ) (record : HostEffectRecord) (requestId : String)
    (lookup : s.records[i]? = some record) (unbound : record.requestId = none)
    (size : L.effectSize { record with requestId := some requestId }.maximum < wordBound)
    (records : s'.records = s.records.set i { record with requestId := some requestId })
    (covered : L.effectSize record.maximum ≤ s.bytes)
    (bytes : s'.bytes = s.bytes - L.effectSize record.maximum +
      L.effectSize { record with requestId := some requestId }.maximum)
    (bytes_le : s'.bytes ≤ L.maxBytes)

variable {L : EffectLedger} {s s' : LedgerState}

theorem reservedBytes_eq_ok (h : L.reservedBytes record = .ok n) :
    n = L.effectSize record.maximum ∧ L.effectSize record.maximum < wordBound := by
  simp only [reservedBytes, jsonSize, bind_eq_ok, refuseIf_eq_ok] at h
  obtain ⟨_, hle, h⟩ := h
  cases h
  refine ⟨rfl, ?_⟩
  change L.effectSize { record with phase := .completed, effects := .notApplicable } < wordBound
  have : 0 < wordBound := by decide
  omega

theorem Change.refl : Change L s s := .kept (forall₂_same.2 fun _ _ => rfl) rfl

theorem Change.prepare {stage : EffectAdmissionStage} {caller : CapabilityCaller}
    {registrationId name version : String}
    (h : L.prepare s stage caller registrationId name version = .ok s') : Change L s s' := by
  simp only [EffectLedger.prepare, bind_eq_ok, refuseIf_eq_ok, okOr_eq_ok,
    filter_eq_some_iff, checkedAdd_eq_some, decide_eq_true_eq] at h
  obtain ⟨_, _, _, _, _, _, _, hroom, _, _, n, hn, total, ⟨⟨_, htotal⟩, hle⟩, h⟩ := h
  cases h
  obtain ⟨rfl, hsize⟩ := reservedBytes_eq_ok hn
  exact .prepared _ rfl hsize (not_le.1 hroom) rfl htotal hle

theorem Change.bindRequest (h : L.bindRequest s i requestId = .ok s') : Change L s s' := by
  simp only [EffectLedger.bindRequest, bind_eq_ok, refuseIf_eq_ok, okOr_eq_ok, not_or,
    Bool.not_eq_true, isSome_eq_false_iff, isNone_iff_eq_none,
    filter_eq_some_iff, bind_eq_some_iff, checkedAdd_eq_some, checkedSub_eq_some,
    decide_eq_true_eq] at h
  obtain ⟨record, hlookup, _, ⟨_, hnone⟩, old, hold, new, hnew, total, ⟨⟨rest, ⟨hcov, hrest⟩, _, htotal⟩,
    hle⟩, h⟩ := h
  cases h
  subst hrest
  obtain ⟨rfl, -⟩ := reservedBytes_eq_ok hold
  obtain ⟨rfl, hsize⟩ := reservedBytes_eq_ok hnew
  exact .bound i record requestId hlookup hnone hsize rfl hcov htotal hle

theorem stable_modify {f : HostEffectRecord → HostEffectRecord}
    (hf : ∀ r, HostEffectRecord.Stable r (f r)) (records : List HostEffectRecord) :
    Forall₂ HostEffectRecord.Stable records (records.modify i f) := by
  induction records generalizing i with
  | nil => simp
  | cons r records ih =>
    cases i with
    | zero => exact .cons (hf r) (forall₂_same.2 fun _ _ => rfl)
    | succ i => exact .cons rfl ih

theorem Change.beginEffect (h : beginEffect s i = .ok s') : Change L s s' := by
  simp only [EffectLedger.beginEffect, bind_eq_ok, refuseIf_eq_ok, okOr_eq_ok] at h
  obtain ⟨record, hlookup, _, _, h⟩ := h
  cases h
  have hset : s.records.set i { record with phase := .running, effects := .unknown } =
      s.records.modify i fun r => { r with phase := .running, effects := .unknown } := by
    rw [modify_eq_set_getElem?, hlookup]
    rfl
  refine .kept ?_ rfl
  change Forall₂ _ _ (s.records.set i _)
  rw [hset]
  exact stable_modify (f := fun r => { r with phase := .running, effects := .unknown })
    (fun _ => rfl) s.records

theorem Change.execute (h : L.execute s call = .ok s') : Change L s s' := by
  cases call with
  | prepare => exact .prepare h
  | bindRequest => exact .bindRequest h
  | begin => exact .beginEffect h
  | observe i effects =>
    cases h
    refine .kept ?_ rfl
    exact stable_modify (f := fun record => { record with effects }) (fun _ => rfl) s.records
  | drop i =>
    cases h
    refine .kept ?_ rfl
    exact stable_modify (f := fun record => { record with phase := .completed }) (fun _ => rfl)
      s.records
  | beginFinalization =>
    simp only [EffectLedger.execute, beginFinalization, map_eq_ok, bind_eq_ok,
      refuseIf_eq_ok] at h
    obtain ⟨_, ⟨_, _, _, _, h⟩, rfl⟩ := h
    cases h
    exact .kept (forall₂_same.2 fun _ _ => rfl) rfl
  | sealRecords =>
    simp only [EffectLedger.execute, sealRecords, map_eq_ok, bind_eq_ok,
      refuseIf_eq_ok] at h
    obtain ⟨_, ⟨_, _, h⟩, rfl⟩ := h
    cases h
    exact .kept (forall₂_same.2 fun _ _ => rfl) rfl

theorem Change.perform (call : LedgerCall) : Change L s (L.perform s call) := by
  unfold EffectLedger.perform
  split
  · exact .execute ‹_›
  · exact .refl

/-! ## The budget -/

/-- Two states of one record: its identity and its authority stay, and a bound request is frozen. -/
def Continues (r r' : HostEffectRecord) : Prop :=
  r' = { r with requestId := r'.requestId, phase := r'.phase, effects := r'.effects } ∧
  (r.requestId.isSome → r'.requestId = r.requestId)

theorem Continues.trans (h : Continues r r') (h' : Continues r' r'') : Continues r r'' := by
  refine ⟨?_, fun hr => ?_⟩
  · rw [h'.1, h.1]
  · rw [h'.2 (by rwa [h.2 hr]), h.2 hr]

theorem Continues.of_stable (h : r.Stable r') : Continues r r' := by
  rw [h]
  exact ⟨rfl, fun _ => rfl⟩

/-- The records of an earlier state are the first records of a later one. -/
def Extends (s s' : LedgerState) : Prop :=
  ∀ (i : ℕ) r, s.records[i]? = some r → ∃ r', s'.records[i]? = some r' ∧ Continues r r'

theorem Extends.refl (s : LedgerState) : Extends s s := fun _ r h => ⟨r, h, rfl, fun _ => rfl⟩

theorem Extends.trans (h : Extends s s') (h' : Extends s' s'') : Extends s s'' := by
  intro i r hr
  obtain ⟨r', hr', hc⟩ := h i r hr
  obtain ⟨r'', hr'', hc'⟩ := h' i r' hr'
  exact ⟨r'', hr'', hc.trans hc'⟩

theorem Change.extends (c : Change L s s') : Extends s s' := by
  intro i r hr
  cases c with
  | kept records _ =>
    obtain ⟨hlen, hget⟩ := forall₂_iff_get.1 records
    obtain ⟨hi, rfl⟩ := List.getElem?_eq_some_iff.1 hr
    refine ⟨s'.records[i], getElem?_eq_getElem _, .of_stable ?_⟩
    exact hget i hi (hlen ▸ hi)
  | prepared record _ _ _ records _ _ =>
    obtain ⟨hi, -⟩ := List.getElem?_eq_some_iff.1 hr
    refine ⟨r, ?_, rfl, fun _ => rfl⟩
    rw [records, getElem?_append_left hi, hr]
  | bound j record requestId lookup hnone _ records _ _ _ =>
    rw [records]
    by_cases hij : j = i
    · subst hij
      obtain ⟨hj, -⟩ := List.getElem?_eq_some_iff.1 lookup
      rw [lookup] at hr
      cases hr
      refine ⟨_, getElem?_set_self hj, rfl, fun h => ?_⟩
      rw [hnone] at h
      cases h
    · exact ⟨r, by rw [getElem?_set_ne hij, hr], rfl, fun _ => rfl⟩

def reservations (s : LedgerState) : ℕ := (s.records.map fun r => r.maximum.size).sum

structure Budget (L : EffectLedger) (context : ℕ) (s : LedgerState) : Prop where
  reserved : ∀ r ∈ s.records, L.reservedBytes r = .ok r.maximum.size
  bytes : s.bytes = context + reservations s
  bytes_le : s.bytes ≤ L.maxBytes
  records_le : s.records.length ≤ L.maxRecords
  ids : ∀ (i : ℕ) r, s.records[i]? = some r → r.effectId = L.effectId i

section
variable {context : ℕ}

theorem reservedBytes_of_lt (hL : L.effectSize = HostEffectRecord.size)
    (h : r.maximum.size < wordBound) : L.reservedBytes r = .ok r.maximum.size := by
  unfold reservedBytes jsonSize
  rw [hL, refuseIf_of_not]
  · rfl
  · change ¬ r.maximum.size > wordBound - 1
    omega

theorem lt_of_reservedBytes (hL : L.effectSize = HostEffectRecord.size)
    (h : L.reservedBytes r = .ok n) : r.maximum.size < wordBound := by
  have := (reservedBytes_eq_ok h).2
  rwa [hL] at this

theorem Budget.ids_of_change (B : Budget L context s) (c : Change L s s') :
    ∀ (i : ℕ) r, s'.records[i]? = some r → r.effectId = L.effectId i := by
  intro i r hr
  obtain hi | hi := Nat.lt_or_ge i s.records.length
  · obtain ⟨r', hr', hc, -⟩ := c.extends i _ (getElem?_eq_getElem hi)
    rw [hr] at hr'
    cases hr'
    rw [hc]
    exact B.ids i s.records[i] (getElem?_eq_getElem hi)
  · obtain ⟨hi', rfl⟩ := List.getElem?_eq_some_iff.1 hr
    cases c with
    | kept records _ => exact absurd (Forall₂.length_eq records) (by omega)
    | bound j record requestId _ _ _ records _ _ _ =>
      rw [records, length_set] at hi'
      omega
    | prepared record id _ _ records _ _ =>
      have hlen : i = s.records.length := by
        rw [records, length_append, length_singleton] at hi'
        omega
      subst hlen
      simpa [records] using id

theorem reservations_set (h : s.records[i]? = some r)
    (hs : s'.records = s.records.set i r') :
    reservations s' + r.maximum.size = reservations s + r'.maximum.size := by
  obtain ⟨hi, rfl⟩ := List.getElem?_eq_some_iff.1 h
  have hsplit : s.records = s.records.take i ++ s.records[i] :: s.records.drop (i + 1) := by simp
  simp only [reservations, hs, set_eq_take_append_cons_drop, hi, if_true, map_append,
    map_cons, sum_append, sum_cons]
  conv_rhs => rw [hsplit]
  simp only [map_append, map_cons, sum_append, sum_cons]
  omega

theorem reservations_stable (h : Forall₂ HostEffectRecord.Stable s.records s'.records) :
    reservations s' = reservations s := by
  unfold reservations
  generalize s.records = l at h
  generalize s'.records = l' at h
  induction h with
  | nil => rfl
  | cons hr _ ih => rw [map_cons, map_cons, sum_cons, sum_cons, ih, hr.maximum]

theorem exists_stable (h : Forall₂ HostEffectRecord.Stable l l') (hr' : r' ∈ l') :
    ∃ r ∈ l, r.Stable r' := by
  induction h with
  | nil => cases hr'
  | @cons r _ l l' hr _ ih =>
    obtain _ | hmem := mem_cons.1 hr'
    · subst r'
      exact ⟨r, mem_cons_self, hr⟩
    · obtain ⟨r₀, hr₀, h₀⟩ := ih hmem
      exact ⟨r₀, mem_cons_of_mem r hr₀, h₀⟩

/-- A change of the ledger keeps its accounting. -/
theorem Budget.change (hL : L.effectSize = HostEffectRecord.size) (B : Budget L context s)
    (c : Change L s s') : Budget L context s' := by
  have hids := B.ids_of_change c
  cases c with
  | kept records bytes =>
    refine ⟨fun r' hr' => ?_, ?_, ?_, ?_, hids⟩
    · obtain ⟨r, hr, hstable⟩ := exists_stable records hr'
      refine reservedBytes_of_lt hL ?_
      rw [hstable.maximum]
      exact lt_of_reservedBytes hL (B.reserved r hr)
    · rw [bytes, reservations_stable records, B.bytes]
    · exact bytes ▸ B.bytes_le
    · exact (Forall₂.length_eq records) ▸ B.records_le
  | prepared record _ size room records bytes bytes_le =>
    rw [hL] at size bytes
    refine ⟨?_, ?_, bytes_le, ?_, hids⟩
    · intro r hr
      rw [records, mem_append, mem_singleton] at hr
      obtain hr | rfl := hr
      · exact B.reserved r hr
      · exact reservedBytes_of_lt hL size
    · rw [bytes, B.bytes]
      simp only [reservations, records, map_append, sum_append, map_cons,
        map_nil, sum_cons, sum_nil]
      omega
    · rw [records, length_append, length_singleton]
      exact room
  | bound i record requestId lookup _ size records covered bytes bytes_le =>
    rw [hL] at size bytes covered
    have hsum := reservations_set lookup records
    refine ⟨?_, ?_, bytes_le, ?_, hids⟩
    · intro r hr
      rw [records] at hr
      obtain hr | rfl := mem_or_eq_of_mem_set hr
      · exact B.reserved r hr
      · exact reservedBytes_of_lt hL size
    · have := B.bytes
      omega
    · rw [records, length_set]
      exact B.records_le

theorem Budget.run (hL : L.effectSize = HostEffectRecord.size) (B : Budget L context s)
    (calls : List LedgerCall) :
    Budget L context (L.runFrom s calls) ∧ Extends s (L.runFrom s calls) := by
  induction calls generalizing s with
  | nil => exact ⟨B, .refl s⟩
  | cons call calls ih =>
    obtain ⟨hB, hE⟩ := ih (B.change hL (.perform call))
    exact ⟨hB, (Change.perform (L := L) call).extends.trans hE⟩

theorem Budget.nodup (B : Budget L context s) : (s.records.map (·.effectId)).Nodup := by
  refine nodup_iff_getElem?_ne_getElem?.2 fun i j hij hj hne => ?_
  rw [length_map] at hj
  have hi : i < s.records.length := hij.trans hj
  rw [getElem?_map, getElem?_map, getElem?_eq_getElem hi,
    getElem?_eq_getElem hj] at hne
  have hid : s.records[i].effectId = s.records[j].effectId := some.inj hne
  rw [B.ids i _ (getElem?_eq_getElem hi), B.ids j _ (getElem?_eq_getElem hj)] at hid
  exact hij.ne (L.effectId_injective hid)

theorem sum_size_le_reservations (s : LedgerState) :
    (s.records.map HostEffectRecord.size).sum ≤ reservations s :=
  sum_le_sum fun r _ => r.size_le_maximum r.phase r.effects

theorem Budget.new (h : context ≤ L.maxBytes) : Budget L context (new context) :=
  ⟨nofun, rfl, h, Nat.zero_le _, nofun⟩

end

theorem contextBytes_le {context : OperationContext} {maxBytes : ℕ}
    (h : contextBytes context maxBytes = .ok n) : n ≤ maxBytes := by
  cases context with
  | unbound =>
    cases h
    exact Nat.zero_le _
  | module _ =>
    simp only [contextBytes, jsonSize, bind_eq_ok, refuseIf_eq_ok] at h
    obtain ⟨_, hle, h⟩ := h
    cases h
    exact not_lt.1 hle

/-- Every run of calls on the ledger of an admitted operation keeps the byte account, within the
budgets that admission fixed. No identity is used twice: a record stays at its position for ever, with
its identity, and the identities of one state are distinct. Whatever a record becomes, it fits in what
is reserved for it, so all records together never outgrow the budget; a refused call leaves the
ledger. -/
theorem run_budget {runtimeId operationId : String} {context : OperationContext}
    {maxRecords maxBytes : ℕ} {L : EffectLedger} {s₀ : LedgerState}
    (h : admitted runtimeId operationId context maxRecords maxBytes = .ok (L, s₀))
    (calls later : List LedgerCall) :
    let s := L.runFrom s₀ calls
    let s' := L.runFrom s later
    (∃ bytes, contextBytes context maxBytes = .ok bytes ∧ Budget L bytes s ∧
      L.maxBytes = maxBytes ∧ L.maxRecords = maxRecords ∧
      bytes + (s.records.map HostEffectRecord.size).sum ≤ s.bytes) ∧
    (s.records.map (·.effectId)).Nodup ∧
    (∀ (i : ℕ) r, s.records[i]? = some r → ∃ r', s'.records[i]? = some r' ∧ Continues r r' ∧
      (r'.requestId = r.requestId → r'.size ≤ r.maximum.size)) ∧
    (∀ r ∈ s.records, ∀ phase effects, { r with phase, effects }.size ≤ r.maximum.size) ∧
    ∀ call e, L.execute s call = .error e → L.perform s call = s := by
  intro s s'
  simp only [admitted, bind_eq_ok] at h
  obtain ⟨bytes, hbytes, h⟩ := h
  cases h
  have B₀ := Budget.new (L := ⟨context.caller, runtimeId, operationId, maxRecords, maxBytes,
    HostEffectRecord.size⟩) (contextBytes_le hbytes)
  have B : Budget _ bytes s := (B₀.run rfl calls).1
  have E : Extends s s' := (B.run rfl later).2
  refine ⟨⟨bytes, hbytes, B, rfl, rfl, ?_⟩, B.nodup, ?_, ?_, ?_⟩
  · have := sum_size_le_reservations s
    rw [B.bytes]
    omega
  · intro i r hr
    obtain ⟨r', hr', hc⟩ := E i r hr
    refine ⟨r', hr', hc, fun hid => ?_⟩
    refine HostEffectRecord.Stable.size_le ?_
    have hstable := hc.1
    rwa [hid] at hstable
  · exact fun r _ phase effects => r.size_le_maximum phase effects
  · intro call e he
    simp only [perform, he]

def plainCaller : CapabilityCaller :=
  ⟨"rt", "plugin", "1", "1", "partition", "op", none, some "session", none⟩

/-- The ledger of the operation `op`, without a module context. -/
def plainLedger : EffectLedger := ⟨none, "rt", "op", 2, 1024, HostEffectRecord.size⟩

/-- A record that is reserved and bound to its request, then dispatched, committed and released. -/
theorem run_budget_released :
    let reserve : List LedgerCall :=
      [.prepare .business plainCaller "reg" "echo" "1", .bindRequest 0 "q\n"]
    let release : List LedgerCall := [.begin 0, .observe 0 .committed, .drop 0]
    let s := plainLedger.runFrom (new 0) reserve
    s.bytes = 365 ∧
      (plainLedger.runFrom s release).records.map HostEffectRecord.size = [360] ∧
      ∃ bytes, contextBytes .unbound 1024 = .ok bytes ∧ Budget plainLedger bytes s := by
  refine and_assoc.1 ⟨by decide +kernel, ?_⟩
  have h : admitted "rt" "op" .unbound 2 1024 = .ok (plainLedger, new 0) := rfl
  obtain ⟨⟨bytes, hbytes, hB, -⟩, -⟩ := run_budget h _ []
  exact ⟨bytes, hbytes, hB⟩

end EffectLedger

end LuaSkills.Embedded
