import LuaSkills.ToolCache.Cache

/-!
# A cache that removes each entry when it expires

The reference holds the live entries in the order of their creation. The shared cache keeps expired
ones longer; its entries, in the order of their sequence numbers and without the expired ones, are those
of the reference after every call.
-/

namespace LuaSkills.ToolCache

open AList List SharedToolCache

/-! ## The reference -/

structure LiveEntry where
  cacheId : String
  toolName : String
  value : Json
  expiresAt : ℕ

/-- The live entries, the oldest first, and the number of the next creation. -/
structure ReferenceCache where
  entries : List LiveEntry
  counter : ℕ

def ReferenceCache.new : ReferenceCache := ⟨[], 1⟩

namespace ReferenceCache
variable (config : ToolCacheConfig) (platform : Platform) (cache : ReferenceCache)

/-- Time passes: the entries whose lifetime has elapsed are gone. -/
def expire (now : ℕ) : ReferenceCache :=
  { cache with entries := cache.entries.filter (now < ·.expiresAt) }

/-- A new entry comes last; the first ones make room for it. -/
def push (entry : LiveEntry) : List LiveEntry :=
  (cache.entries ++ [entry]).drop (cache.entries.length + 1 - config.capacity)

def create (now : ℕ) (systemTime : ℤ) (toolName : String) (value : Json) (ttlSecs : Option ℕ) :
    Response × ReferenceCache :=
  match systemTimeToCacheIdUnixMillis systemTime "tool cache id timestamp" with
  | .error message => (.failed message, cache)
  | .ok unixMs =>
    match platform.add now (platform.second * config.resolveTtl ttlSecs) with
    | none => (.panicked, { cache with counter := cache.counter + 2 })
    | some expiresAt =>
      let cacheId := cacheIdText unixMs cache.counter
      (.created cacheId,
        { entries := cache.push config ⟨cacheId, toolName, value, expiresAt⟩
          counter := cache.counter + 2 })

def get (toolName cacheId : String) : Option Json :=
  (cache.entries.find? fun entry => entry.cacheId = cacheId ∧ entry.toolName = toolName).map
    LiveEntry.value

def delete (toolName cacheId : String) : Bool × ReferenceCache :=
  if cache.entries.any fun entry => entry.cacheId = cacheId ∧ entry.toolName = toolName then
    (true, { cache with entries := cache.entries.filter (·.cacheId ≠ cacheId) })
  else (false, cache)

def perform (now : ℕ) (call : Call) : Response × ReferenceCache :=
  let cache := cache.expire now
  match call.request with
  | .create toolName value ttlSecs =>
    cache.create config platform now call.systemTime toolName value ttlSecs
  | .get toolName cacheId => (.value (cache.get toolName cacheId), cache)
  | .delete toolName cacheId =>
    let (removed, cache) := cache.delete toolName cacheId
    (.deleted removed, cache)
  | .cleanup => (.swept, cache)

def history (calls : List Call) : History ReferenceCache :=
  History.run (fun cache => cache.perform config platform) .new calls

end ReferenceCache

/-! ## The simulation -/

abbrev Stored := String × ToolCacheEntry

def Stored.view (e : Stored) : LiveEntry := ⟨e.1, e.2.toolName, e.2.value, e.2.expiresAt⟩

/-- `l` has the entries of the shared cache, the oldest first; at the instant `now` the live ones among
them are those of the reference. -/
structure Simulates (config : ToolCacheConfig) (l : List Stored) (c : SharedToolCache)
    (r : ReferenceCache) (now : ℕ) : Prop where
  stored : ∀ id e, c.entries.lookup id = some e ↔ (id, e) ∈ l
  sorted : l.Pairwise fun a b => a.2.createdSeq.toNat < b.2.createdSeq.toNat
  counter : c.counter.toNat = r.counter
  below : ∀ e ∈ l, e.2.createdSeq.toNat < r.counter
  named : ∀ e ∈ l, ∃ unixMs seq, e.1 = cacheIdText unixMs seq ∧ e.2.createdSeq.toNat = seq + 1
  bounded : l.length ≤ config.capacity
  live : r.entries = (l.filter (·.2.live now)).map Stored.view

section
variable {config : ToolCacheConfig} {l : List Stored}
    {entries : AssocMap String ToolCacheEntry}

/-! ### Evictions -/

theorem size_eq_length (hstored : ∀ id e, entries.lookup id = some e ↔ (id, e) ∈ l)
    (hnodup : l.Nodup) : entries.size = l.length := by
  have hperm : (entries.entries.map fun e => (e.1, e.2)).Perm l := by
    rw [perm_ext_iff_of_nodup _ hnodup]
    · intro e
      rw [← hstored e.1 e.2, ← mem_entries_iff (e := ⟨e.1, e.2⟩), mem_map]
      constructor
      · rintro ⟨s, hs, rfl⟩
        exact hs
      · exact fun hs => ⟨_, hs, rfl⟩
    · refine Nodup.map (fun s t hst => ?_) entries.nodupKeys.nodup
      exact Sigma.ext (congrArg Prod.fst hst) (heq_of_eq (congrArg Prod.snd hst))
  have hlength := hperm.length_eq
  rwa [length_map] at hlength

theorem nodup_of_sorted (h : l.Pairwise fun a b => a.2.createdSeq.toNat < b.2.createdSeq.toNat) :
    l.Nodup :=
  h.imp fun hlt heq => absurd (heq ▸ hlt) (Nat.lt_irrefl _)

theorem oldest_eq_some {id : String} (h : oldest entries = some id) :
    ∃ e, entries.lookup id = some e ∧ ∀ id' e', entries.lookup id' = some e' →
      e.createdSeq.toNat ≤ e'.createdSeq.toNat := by
  obtain ⟨e, he, rfl⟩ := Option.map_eq_some_iff.1 h
  refine ⟨e.2, mem_entries_iff.1 (argmin_mem he), fun id' e' h' => ?_⟩
  exact le_of_mem_argmin (f := fun e : Sigma fun _ : String => ToolCacheEntry =>
    e.2.createdSeq.toNat) (mem_entries_iff (e := ⟨id', e'⟩).2 h') he

theorem oldest_eq_none (h : oldest entries = none) : entries.size = 0 := by
  rw [size, argmin_eq_none.1 (Option.map_eq_none_iff.1 h), length_nil]

/-- The first of the sorted entries is the oldest. -/
theorem oldest_of_sorted {e : Stored}
    (hstored : ∀ id e', entries.lookup id = some e' ↔ (id, e') ∈ e :: l)
    (hsorted : (e :: l).Pairwise fun a b => a.2.createdSeq.toNat < b.2.createdSeq.toNat) :
    oldest entries = some e.1 := by
  cases hold : oldest entries with
  | none =>
    have hsize := size_eq_length hstored (nodup_of_sorted hsorted)
    rw [oldest_eq_none hold] at hsize
    cases hsize
  | some id =>
    obtain ⟨e', he', hmin⟩ := oldest_eq_some hold
    have hle := hmin e.1 e.2 ((hstored _ _).2 mem_cons_self)
    rcases mem_cons.1 ((hstored _ _).1 he') with heq | hmem
    · rw [← heq]
    · exact absurd (rel_of_pairwise_cons hsorted hmem) (Nat.not_lt.2 hle)

theorem id_inj (hstored : ∀ id e, entries.lookup id = some e ↔ (id, e) ∈ l) (ha : a ∈ l) (hb : b ∈ l)
    (h : a.1 = b.1) : a = b := by
  have hb' : (a.1, b.2) ∈ l := h ▸ hb
  have heq := ((hstored a.1 a.2).2 ha).symm.trans ((hstored a.1 b.2).2 hb')
  exact Prod.ext h (Option.some.inj heq)

theorem stored_erase (hstored : ∀ id e, entries.lookup id = some e ↔ (id, e) ∈ l)
    (cacheId : String) :
    ∀ id e, (entries.erase cacheId).lookup id = some e ↔ (id, e) ∈ l.filter (·.1 ≠ cacheId) := by
  intro id e
  rw [lookup_erase_eq, mem_filter, ← hstored id e]
  by_cases hid : id = cacheId <;> simp [hid]

/-- At most one entry too many: the loop removes the oldest. -/
theorem stored_enforceCapacity
    (hstored : ∀ id e, entries.lookup id = some e ↔ (id, e) ∈ l)
    (hsorted : l.Pairwise fun a b => a.2.createdSeq.toNat < b.2.createdSeq.toNat)
    (hlength : l.length ≤ config.capacity + 1) :
    ∀ id e, (enforceCapacity config entries).lookup id = some e ↔
      (id, e) ∈ l.drop (l.length - config.capacity) := by
  have hsize := size_eq_length hstored (nodup_of_sorted hsorted)
  have hcapacity : 0 < config.capacity := lt_of_lt_of_le Nat.one_pos (le_max_right _ _)
  by_cases hle : l.length ≤ config.capacity
  · have heq : enforceCapacity config entries = entries := by
      rw [enforceCapacity]
      cases hn : entries.size with
      | zero => rfl
      | succ n => rw [evictFrom, if_neg (by omega)]
    rw [heq, Nat.sub_eq_zero_of_le hle]
    exact hstored
  · cases l with
    | nil => exact absurd (Nat.zero_le _) hle
    | cons e rest =>
      rw [length_cons] at hle hlength hsize
      have heq : enforceCapacity config entries = entries.erase e.1 := by
        have hold := oldest_of_sorted hstored hsorted
        have hsize' : (entries.erase e.1).size + 1 = entries.size :=
          (size_of_lookup ((hstored e.1 e.2).2 mem_cons_self)).symm
        rw [enforceCapacity, hsize, evictFrom, if_pos (by omega), hold]
        dsimp only
        cases hrest : rest.length with
        | zero => rfl
        | succ n => rw [evictFrom, if_neg (by omega)]
      have hdrop : rest.length + 1 - config.capacity = 1 := by omega
      rw [heq, length_cons, hdrop]
      intro id e'
      rw [stored_erase hstored, drop_succ_cons, drop_zero, mem_filter,
        mem_cons, decide_eq_true_iff]
      constructor
      · rintro ⟨rfl | hmem, hne⟩
        · exact absurd rfl hne
        · exact hmem
      · intro hmem
        refine ⟨Or.inr hmem, fun hid => ?_⟩
        have := id_inj hstored (mem_cons_of_mem e hmem) mem_cons_self hid
        exact absurd (this ▸ hmem) (nodup_cons.1 (nodup_of_sorted hsorted)).1

end

/-! ### Calls -/

theorem live_mono {e : ToolCacheEntry} (hle : now ≤ now') (h : e.live now' = true) : e.live now = true :=
  decide_eq_true (lt_of_le_of_lt hle (of_decide_eq_true h))

namespace Simulates
variable {config : ToolCacheConfig} {platform : Platform} {l : List Stored} {c : SharedToolCache}
  {r : ReferenceCache} {now now' : ℕ}

theorem initial (config : ToolCacheConfig) : Simulates config [] .new .new 0 where
  stored _ _ := ⟨fun h => (nomatch h), fun h => absurd h not_mem_nil⟩
  sorted := .nil
  counter := rfl
  below _ he := absurd he not_mem_nil
  named _ he := absurd he not_mem_nil
  bounded := Nat.zero_le _
  live := rfl

/-- Fewer entries are stored and nothing else changed. -/
theorem sublist {l' : List Stored} {entries : AssocMap String ToolCacheEntry}
    {live : List LiveEntry} (S : Simulates config l c r now) (hsub : l'.Sublist l)
    (hstored : ∀ id e, entries.lookup id = some e ↔ (id, e) ∈ l')
    (hlive : live = (l'.filter (·.2.live now)).map Stored.view) :
    Simulates config l' { c with entries := entries } { r with entries := live } now where
  stored := hstored
  sorted := S.sorted.sublist hsub
  counter := S.counter
  below e he := S.below e (hsub.subset he)
  named e he := S.named e (hsub.subset he)
  bounded := hsub.length_le.trans S.bounded
  live := hlive

theorem expire (S : Simulates config l c r now) (hle : now ≤ now') :
    Simulates config l c (r.expire now') now' where
  stored := S.stored
  sorted := S.sorted
  counter := S.counter
  below := S.below
  named := S.named
  bounded := S.bounded
  live := by
    have hlive : ∀ e : Stored, (e.2.live now' && e.2.live now) = e.2.live now' := by
      intro e
      cases h : e.2.live now' with
      | false => rfl
      | true => rw [live_mono hle h]; rfl
    calc (r.expire now').entries
        = ((l.filter (·.2.live now)).map Stored.view).filter (now' < ·.expiresAt) := by
          rw [← S.live]; rfl
      _ = ((l.filter (·.2.live now)).filter (·.2.live now')).map Stored.view := filter_map
      _ = (l.filter (·.2.live now')).map Stored.view := by rw [filter_filter]; simp only [hlive]

theorem cleanup (S : Simulates config l c r now) :
    Simulates config (l.filter (·.2.live now))
      { c with entries := cleanupExpired c.entries now } r now := by
  refine S.sublist filter_sublist (fun id e => ?_) ?_
  · rw [cleanupExpired, lookup_retain, S.stored, mem_filter]
  · rw [filter_filter]
    simp only [Bool.and_self]
    exact S.live

theorem counters (S : Simulates config l c r now) (hcounter : r.counter + 2 < 2 ^ 64) :
    (c.counter + 1).toNat = r.counter + 1 ∧ (c.counter + 1 + 1).toNat = r.counter + 2 := by
  have h := S.counter
  have hone : (1 : UInt64).toNat = 1 := rfl
  constructor
  · rw [UInt64.toNat_add, h, hone]
    omega
  · rw [UInt64.toNat_add, UInt64.toNat_add, h, hone]
    omega

theorem lt_of_add (h : platform.add now (platform.second * config.resolveTtl ttlSecs) = some expiresAt) :
    now < expiresAt := by
  have httl : 0 < config.resolveTtl ttlSecs := by
    unfold ToolCacheConfig.resolveTtl
    omega
  have hpos := Nat.mul_pos platform.second_pos httl
  unfold Platform.add at h
  split at h
  · cases h
    exact Nat.lt_add_of_pos_right hpos
  · cases h

/-- An entry with a new number is added, and the oldest is removed if there are too many. -/
theorem insert (S : Simulates config l c r now) (hcounter : r.counter + 2 < 2 ^ 64)
    (hcompact : (∀ e ∈ l, e.2.live now = true) ∨ l.length < config.capacity) {unixMs : ℕ}
    {toolName : String} {value : Json} (hexpires : now < expiresAt) : ∃ l', Simulates config l'
      { entries := enforceCapacity config
          (c.entries.insert (cacheIdText unixMs r.counter)
            ⟨toolName, value, c.counter + 1, expiresAt⟩)
        counter := c.counter + 1 + 1 }
      { entries := r.push config ⟨cacheIdText unixMs r.counter, toolName, value, expiresAt⟩
        counter := r.counter + 2 } now := by
  obtain ⟨hseq, hnext⟩ := S.counters hcounter
  let new : Stored := (cacheIdText unixMs r.counter, ⟨toolName, value, c.counter + 1, expiresAt⟩)
  have hfresh : ∀ e ∈ l, e.1 ≠ new.1 := by
    intro e he heq
    obtain ⟨unixMs', seq, hid, hcreated⟩ := S.named e he
    have hsame := cacheIdText_seq (hid.symm.trans heq)
    have hlt := S.below e he
    omega
  have hstored : ∀ id e, (c.entries.insert new.1 new.2).lookup id = some e ↔
      (id, e) ∈ l ++ [new] := by
    intro id e
    rw [lookup_insert_eq, mem_append, mem_singleton, ← S.stored]
    split
    next hid =>
      subst hid
      have hnone : c.entries.lookup new.1 ≠ some e := fun h => hfresh _ ((S.stored _ _).1 h) rfl
      simp [hnone, Prod.ext_iff, eq_comm]
    next hid => simp [Prod.ext_iff, hid]
  have hsorted : (l ++ [new]).Pairwise fun a b => a.2.createdSeq.toNat < b.2.createdSeq.toNat := by
    refine pairwise_append.2 ⟨S.sorted, pairwise_singleton _ _, fun e he e' he' => ?_⟩
    rw [mem_singleton.1 he', show new.2.createdSeq.toNat = r.counter + 1 from hseq]
    exact (S.below e he).trans (Nat.lt_succ_self _)
  have hlength : (l ++ [new]).length ≤ config.capacity + 1 := by
    rw [length_append, length_singleton]
    exact Nat.succ_le_succ S.bounded
  have hlive : new.2.live now = true := decide_eq_true hexpires
  refine ⟨(l ++ [new]).drop ((l ++ [new]).length - config.capacity), ?_⟩
  have hsub := drop_sublist ((l ++ [new]).length - config.capacity) (l ++ [new])
  constructor
  case stored => exact stored_enforceCapacity hstored hsorted hlength
  case sorted => exact hsorted.sublist hsub
  case counter => exact hnext
  case below =>
    intro e he
    rcases mem_append.1 (hsub.subset he) with he | he
    · exact Nat.lt_add_right 2 (S.below e he)
    · rw [mem_singleton.1 he, show new.2.createdSeq.toNat = r.counter + 1 from hseq]
      exact Nat.lt_succ_self _
  case named =>
    intro e he
    rcases mem_append.1 (hsub.subset he) with he | he
    · exact S.named e he
    · rw [mem_singleton.1 he]
      exact ⟨unixMs, r.counter, rfl, hseq⟩
  case bounded =>
    rw [length_drop]
    omega
  case live =>
    have hview : Stored.view new = ⟨cacheIdText unixMs r.counter, toolName, value, expiresAt⟩ := rfl
    dsimp only
    rw [← hview, ReferenceCache.push, S.live]
    rcases hcompact with hall | hroom
    · -- every stored entry is live, so both drop the same
      have hall' : ∀ e ∈ l ++ [new], e.2.live now = true := by
        intro e he
        rcases mem_append.1 he with he | he
        · exact hall e he
        · rw [mem_singleton.1 he]
          exact hlive
      rw [filter_eq_self.2 hall, filter_eq_self.2 fun e he => hall' e (hsub.subset he),
        map_drop, map_append, map_singleton, length_append, length_map,
        length_singleton]
    · have hlt := lt_of_le_of_lt (length_filter_le (·.2.live now) l) hroom
      have hnone : ∀ n < config.capacity, n + 1 - config.capacity = 0 := fun n hn => by omega
      rw [length_append, length_map, length_singleton, hnone _ hroom, hnone _ hlt,
        drop_zero, drop_zero,
        filter_append, map_append]
      have hkept : [new].filter (·.2.live now) = [new] := filter_eq_self.2 fun e he =>
        (mem_singleton.1 he) ▸ hlive
      rw [hkept, map_singleton]

theorem create (S : Simulates config l c r now) (hcounter : r.counter + 2 < 2 ^ 64)
    (systemTime : ℤ) (toolName : String) (value : Json) (ttlSecs : Option ℕ) :
    (c.create config platform now systemTime toolName value ttlSecs).1 =
      (r.create config platform now systemTime toolName value ttlSecs).1 ∧
    ∃ l', Simulates config l' (c.create config platform now systemTime toolName value ttlSecs).2
      (r.create config platform now systemTime toolName value ttlSecs).2 now := by
  cases htime : systemTimeToCacheIdUnixMillis systemTime "tool cache id timestamp" with
  | error message =>
    have hcache : c.create config platform now systemTime toolName value ttlSecs =
        (.failed message, c) := by simp only [SharedToolCache.create, htime]
    have hreference : r.create config platform now systemTime toolName value ttlSecs =
        (.failed message, r) := by simp only [ReferenceCache.create, htime]
    rw [hcache, hreference]
    exact ⟨rfl, l, S⟩
  | ok unixMs =>
    cases hadd : platform.add now (platform.second * config.resolveTtl ttlSecs) with
    | none =>
      have hcache : c.create config platform now systemTime toolName value ttlSecs =
          (.panicked, { c with counter := c.counter + 1 + 1 }) := by
        simp only [SharedToolCache.create, htime, hadd]
      have hreference : r.create config platform now systemTime toolName value ttlSecs =
          (.panicked, { r with counter := r.counter + 2 }) := by
        simp only [ReferenceCache.create, htime, hadd]
      obtain ⟨-, hnext⟩ := S.counters hcounter
      rw [hcache, hreference]
      exact ⟨rfl, l, S.stored, S.sorted, hnext, fun e he => Nat.lt_add_right 2 (S.below e he),
        S.named, S.bounded, S.live⟩
    | some expiresAt =>
      have hexpires := lt_of_add hadd
      have hsize := size_eq_length S.stored (nodup_of_sorted S.sorted)
      simp only [SharedToolCache.create, ReferenceCache.create, htime, hadd, S.counter, true_and]
      split
      · have hall : ∀ e ∈ l.filter (·.2.live now), e.2.live now = true := fun e he =>
          (mem_filter.1 he).2
        exact S.cleanup.insert hcounter (.inl hall) hexpires
      next hroom => exact S.insert hcounter (.inr (by omega)) hexpires

/-- The live entry of an identity, in both caches. -/
theorem lookup_live (S : Simulates config l c r now) (hlookup : c.entries.lookup cacheId = some e)
    (hlive : e.live now = true) : x ∈ r.entries ∧ x.cacheId = cacheId ↔ x = Stored.view (cacheId, e) := by
  have hstored : (cacheId, e) ∈ l := (S.stored cacheId e).1 hlookup
  rw [S.live, mem_map]
  constructor
  · rintro ⟨⟨s, hs, rfl⟩, hid⟩
    rw [id_inj S.stored (mem_filter.1 hs).1 hstored hid]
  · rintro rfl
    exact ⟨⟨(cacheId, e), mem_filter.2 ⟨hstored, hlive⟩, rfl⟩, rfl⟩

/-- An identity without a live entry. -/
theorem lookup_dead (S : Simulates config l c r now)
    (hdead : ∀ e, c.entries.lookup cacheId = some e → e.live now = false) (hx : x ∈ r.entries) :
    x.cacheId ≠ cacheId := by
  rw [S.live, mem_map] at hx
  obtain ⟨s, hs, rfl⟩ := hx
  rintro hid
  obtain ⟨hmem, hlive⟩ := mem_filter.1 hs
  have hlookup : c.entries.lookup cacheId = some s.2 := (S.stored _ _).2 (hid ▸ hmem)
  rw [hdead _ hlookup] at hlive
  cases hlive

/-- The removal of an entry, which the reference has if it is live. -/
theorem erase (S : Simulates config l c r now) (cacheId : String) :
    Simulates config (l.filter (·.1 ≠ cacheId))
      { c with entries := c.entries.erase cacheId }
      { r with entries := r.entries.filter (·.cacheId ≠ cacheId) } now := by
  refine S.sublist filter_sublist (stored_erase S.stored cacheId) ?_
  rw [S.live, filter_map, filter_filter, filter_filter]
  congr 1
  refine filter_congr fun e _ => ?_
  exact Bool.and_comm _ _

/-- The removal of an expired entry. -/
theorem erase_dead (S : Simulates config l c r now) {cacheId : String}
    (hdead : ∀ e, c.entries.lookup cacheId = some e → e.live now = false) :
    Simulates config (l.filter (·.1 ≠ cacheId)) { c with entries := c.entries.erase cacheId } r
      now := by
  have hsame : r.entries.filter (·.cacheId ≠ cacheId) = r.entries :=
    filter_eq_self.2 fun x hx => decide_eq_true (S.lookup_dead hdead hx)
  have herase := S.erase cacheId
  rwa [hsame] at herase

theorem get_of_live (S : Simulates config l c r now) (hlookup : c.entries.lookup cacheId = some e)
    (hlive : e.live now = true) :
    r.get toolName cacheId = if e.toolName = toolName then some e.value else none := by
  unfold ReferenceCache.get
  cases hfind : r.entries.find? fun x => x.cacheId = cacheId ∧ x.toolName = toolName with
  | none =>
    have hview := (S.lookup_live hlookup hlive).2 rfl
    have hno : e.toolName ≠ toolName := fun htool =>
      find?_eq_none.1 hfind _ hview.1 (decide_eq_true ⟨rfl, htool⟩)
    rw [if_neg hno]
    rfl
  | some x =>
    have hmatch := find?_some hfind
    have hx := of_decide_eq_true hmatch
    have heq := (S.lookup_live hlookup hlive).1 ⟨mem_of_find?_eq_some hfind, hx.1⟩
    rw [heq] at hx
    have htool : e.toolName = toolName := hx.2
    rw [if_pos htool, heq]
    rfl

theorem get_of_dead (S : Simulates config l c r now)
    (hdead : ∀ e, c.entries.lookup cacheId = some e → e.live now = false) :
    r.get toolName cacheId = none := by
  have hnone : (r.entries.find? fun x => x.cacheId = cacheId ∧ x.toolName = toolName) = none :=
    find?_eq_none.2 fun x hx h => S.lookup_dead hdead hx (of_decide_eq_true h).1
  rw [ReferenceCache.get, hnone]
  rfl

theorem get (S : Simulates config l c r now) (toolName cacheId : String) :
    (c.get now toolName cacheId).1 = r.get toolName cacheId ∧
      ∃ l', Simulates config l' (c.get now toolName cacheId).2 r now := by
  unfold SharedToolCache.get
  split
  next e hlookup =>
    split
    next hlive => exact ⟨(S.get_of_live hlookup hlive).symm, l, S⟩
    next hdead =>
      have hdead' : ∀ e', c.entries.lookup cacheId = some e' → e'.live now = false := fun e' h => by
        cases hlookup.symm.trans h
        exact Bool.not_eq_true _ ▸ hdead
      exact ⟨(S.get_of_dead hdead').symm, _, S.erase_dead hdead'⟩
  next hlookup =>
    have hdead : ∀ e, c.entries.lookup cacheId = some e → e.live now = false := fun e h =>
      nomatch hlookup.symm.trans h
    exact ⟨(S.get_of_dead hdead).symm, l, S⟩

theorem delete_of_dead (S : Simulates config l c r now) {toolName cacheId : String}
    (hdead : ∀ e, c.entries.lookup cacheId = some e → e.live now = false) :
    r.delete toolName cacheId = (false, r) := by
  have hno : (r.entries.any fun x => x.cacheId = cacheId ∧ x.toolName = toolName) ≠ true := by
    intro h
    obtain ⟨x, hx, hmatch⟩ := any_eq_true.1 h
    exact S.lookup_dead hdead hx (of_decide_eq_true hmatch).1
  rw [ReferenceCache.delete, if_neg hno]

theorem any_of_live (S : Simulates config l c r now) {toolName cacheId : String}
    {e : ToolCacheEntry} (hlookup : c.entries.lookup cacheId = some e) (hlive : e.live now = true) :
    (r.entries.any fun x => x.cacheId = cacheId ∧ x.toolName = toolName) = true ↔
      e.toolName = toolName := by
  rw [any_eq_true]
  constructor
  · rintro ⟨x, hx, hmatch⟩
    obtain ⟨hid, htool⟩ := of_decide_eq_true hmatch
    rw [(S.lookup_live hlookup hlive).1 ⟨hx, hid⟩] at htool
    exact htool
  · intro htool
    exact ⟨_, ((S.lookup_live hlookup hlive).2 rfl).1, decide_eq_true ⟨rfl, htool⟩⟩

theorem delete (S : Simulates config l c r now) (toolName cacheId : String) :
    (c.delete now toolName cacheId).1 = (r.delete toolName cacheId).1 ∧
      ∃ l', Simulates config l' (c.delete now toolName cacheId).2 (r.delete toolName cacheId).2
        now := by
  unfold SharedToolCache.delete
  split
  next e hlookup =>
    split
    next hdead =>
      have hdead' : ∀ e', c.entries.lookup cacheId = some e' → e'.live now = false := fun e' h => by
        cases hlookup.symm.trans h
        exact hdead
      rw [S.delete_of_dead hdead']
      exact ⟨rfl, _, S.erase_dead hdead'⟩
    next hlive =>
      have hany := @any_of_live _ _ _ _ _ S toolName _ _ hlookup (Bool.not_eq_false _ ▸ hlive)
      split
      next htool =>
        rw [ReferenceCache.delete, if_pos (hany.2 htool)]
        exact ⟨rfl, _, S.erase cacheId⟩
      next htool =>
        rw [ReferenceCache.delete, if_neg (mt hany.1 htool)]
        exact ⟨rfl, l, S⟩
  next hlookup =>
    have hdead : ∀ e, c.entries.lookup cacheId = some e → e.live now = false := fun e h =>
      nomatch hlookup.symm.trans h
    rw [S.delete_of_dead hdead]
    exact ⟨rfl, l, S⟩

/-- A call at a later instant. -/
theorem perform (S : Simulates config l c r now) (hle : now ≤ now') {call : Call}
    (hcounter : call.isCreate = true → r.counter + 2 < 2 ^ 64) :
    (c.perform config platform now' call).1 = (r.perform config platform now' call).1 ∧
      ∃ l', Simulates config l' (c.perform config platform now' call).2
        (r.perform config platform now' call).2 now' := by
  have S' := S.expire hle
  obtain ⟨elapsed, systemTime, request⟩ := call
  cases request with
  | create toolName value ttlSecs => exact S'.create (hcounter rfl) systemTime toolName value ttlSecs
  | get toolName cacheId =>
    obtain ⟨heq, hstate⟩ := S'.get toolName cacheId
    exact ⟨congrArg Response.value heq, hstate⟩
  | delete toolName cacheId =>
    obtain ⟨heq, hstate⟩ := S'.delete toolName cacheId
    exact ⟨congrArg Response.deleted heq, hstate⟩
  | cleanup => exact ⟨rfl, _, S'.cleanup⟩

end Simulates

end LuaSkills.ToolCache
