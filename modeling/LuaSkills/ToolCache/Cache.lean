import LuaSkills.Data.AssocMap
import LuaSkills.Data.Json
import LuaSkills.Data.Numerals
import Mathlib.Data.List.MinMax

/-!
# The shared tool cache

A cache of values that tools hand over to their next calls. Each entry belongs to the tool that created
it and expires; expired entries stay in the store until a call meets them or a creation finds the store
full. The calls are modelled one after the other, each with what the two clocks show.
-/

namespace LuaSkills.ToolCache

structure ToolCacheConfig where
  maxEntries : ℕ
  defaultTtlSecs : ℕ
  maxTtlSecs : ℕ
deriving DecidableEq, Repr

/-- The number of entries that are kept. -/
def ToolCacheConfig.capacity (config : ToolCacheConfig) : ℕ := max config.maxEntries 1

/-- The monotonic clock: instants and durations count its units, and an instant past its horizon cannot
be computed. -/
structure Platform where
  second : ℕ
  horizon : ℕ
  second_pos : 0 < second

def Platform.add (platform : Platform) (now duration : ℕ) : Option ℕ :=
  if now + duration ≤ platform.horizon then some (now + duration) else none

def ToolCacheConfig.resolveTtl (config : ToolCacheConfig) (ttlSecs : Option ℕ) : ℕ :=
  min (max (ttlSecs.getD config.defaultTtlSecs) 1) (max config.maxTtlSecs 1)

/-- `system_time_to_cache_id_unix_millis`, of the nanoseconds since the epoch. -/
def systemTimeToCacheIdUnixMillis (time : ℤ) (context : String) : Except String ℕ :=
  if 0 ≤ time then .ok (time.toNat / 1000000)
  else .error (context ++ " is before Unix epoch and cannot be used for a tool cache id: " ++
    "second time provided was later than self")

def cacheIdText (unixMs seq : ℕ) : String := "tc-" ++ (unixMs.repr ++ ("-" ++ seq.repr))

theorem cacheIdText_seq (h : cacheIdText unixMs seq = cacheIdText unixMs' seq') : seq = seq' := by
  have hlist := congrArg String.toList h
  simp only [cacheIdText, String.toList_append, List.append_cancel_left_eq] at hlist
  exact eq_of_separated (c := '-') (by decide) hlist

structure ToolCacheEntry where
  toolName : String
  value : Json
  createdSeq : UInt64
  expiresAt : ℕ

def ToolCacheEntry.live (entry : ToolCacheEntry) (now : ℕ) : Bool := now < entry.expiresAt

structure SharedToolCache where
  entries : AssocMap String ToolCacheEntry
  counter : UInt64

def SharedToolCache.new : SharedToolCache where
  entries := ∅
  counter := 1

/-! ## Calls -/

inductive Request where
  | create (toolName : String) (value : Json) (ttlSecs : Option ℕ)
  | get (toolName cacheId : String)
  | delete (toolName cacheId : String)
  /-- A sweep of the expired entries outside of a creation. -/
  | cleanup

/-- A call, with the time since the previous one and the wall clock. -/
structure Call where
  elapsed : ℕ
  systemTime : ℤ
  request : Request

def Call.isCreate (call : Call) : Bool :=
  match call.request with
  | .create .. => true
  | _ => false

inductive Response where
  | created (cacheId : String)
  | failed (message : String)
  /-- The expiration instant cannot be represented. -/
  | panicked
  | value (value : Option Json)
  | deleted (removed : Bool)
  | swept

namespace SharedToolCache
variable (config : ToolCacheConfig) (platform : Platform) (cache : SharedToolCache)

/-- `cleanup_expired_locked`. -/
def cleanupExpired (entries : AssocMap String ToolCacheEntry) (now : ℕ) :
    AssocMap String ToolCacheEntry :=
  entries.retain fun _ entry => entry.live now

/-- An entry with the least sequence number. -/
def oldest (entries : AssocMap String ToolCacheEntry) : Option String :=
  (entries.entries.argmin fun e => e.2.createdSeq.toNat).map Sigma.fst

/-- The loop of `enforce_capacity_locked`; each turn removes an entry. -/
def evictFrom : ℕ → AssocMap String ToolCacheEntry → AssocMap String ToolCacheEntry
  | 0, entries => entries
  | turns + 1, entries =>
    if config.capacity < entries.size then
      match oldest entries with
      | some cacheId => evictFrom turns (entries.erase cacheId)
      | none => entries
    else entries

def enforceCapacity (entries : AssocMap String ToolCacheEntry) : AssocMap String ToolCacheEntry :=
  evictFrom config entries.size entries

def create (now : ℕ) (systemTime : ℤ) (toolName : String) (value : Json) (ttlSecs : Option ℕ) :
    Response × SharedToolCache :=
  match systemTimeToCacheIdUnixMillis systemTime "tool cache id timestamp" with
  | .error message => (.failed message, cache)
  | .ok unixMs =>
    let cacheId := cacheIdText unixMs cache.counter.toNat
    let createdSeq := cache.counter + 1
    let counter := cache.counter + 1 + 1
    match platform.add now (platform.second * config.resolveTtl ttlSecs) with
    | none => (.panicked, { cache with counter := counter })
    | some expiresAt =>
      let entry : ToolCacheEntry := ⟨toolName, value, createdSeq, expiresAt⟩
      let entries :=
        if config.capacity ≤ cache.entries.size then cleanupExpired cache.entries now
        else cache.entries
      (.created cacheId,
        { entries := enforceCapacity config (entries.insert cacheId entry), counter := counter })

def get (now : ℕ) (toolName cacheId : String) : Option Json × SharedToolCache :=
  match cache.entries.lookup cacheId with
  | some entry =>
    if entry.live now then
      (if entry.toolName = toolName then some entry.value else none, cache)
    else (none, { cache with entries := cache.entries.erase cacheId })
  | none => (none, cache)

def delete (now : ℕ) (toolName cacheId : String) : Bool × SharedToolCache :=
  match cache.entries.lookup cacheId with
  | some entry =>
    if entry.live now = false then (false, { cache with entries := cache.entries.erase cacheId })
    else if entry.toolName = toolName then
      (true, { cache with entries := cache.entries.erase cacheId })
    else (false, cache)
  | none => (false, cache)

def perform (now : ℕ) (call : Call) : Response × SharedToolCache :=
  match call.request with
  | .create toolName value ttlSecs =>
    cache.create config platform now call.systemTime toolName value ttlSecs
  | .get toolName cacheId =>
    let (value, cache) := cache.get now toolName cacheId
    (.value value, cache)
  | .delete toolName cacheId =>
    let (removed, cache) := cache.delete now toolName cacheId
    (.deleted removed, cache)
  | .cleanup => (.swept, { cache with entries := cleanupExpired cache.entries now })

end SharedToolCache

/-! ## Histories -/

/-- A cache after some calls, with the instant of the last one and all the calls with their answers. -/
structure History (σ : Type) where
  state : σ
  now : ℕ
  answered : List (Call × Response)

section
variable {σ : Type} (perform : σ → ℕ → Call → Response × σ)

def History.call (h : History σ) (call : Call) : History σ :=
  let now := h.now + call.elapsed
  let (response, state) := perform h.state now call
  { state := state, now := now, answered := h.answered ++ [(call, response)] }

def History.run (start : σ) (calls : List Call) : History σ :=
  calls.foldl (fun h call => h.call perform call) ⟨start, 0, []⟩

theorem History.run_append (start : σ) (calls : List Call) (call : Call) :
    History.run perform start (calls ++ [call]) = (History.run perform start calls).call perform call :=
  List.foldl_append

end

/-- The history of the shared cache. -/
def SharedToolCache.history (config : ToolCacheConfig) (platform : Platform) (calls : List Call) :
    History SharedToolCache :=
  History.run (fun cache => cache.perform config platform) .new calls

end LuaSkills.ToolCache
