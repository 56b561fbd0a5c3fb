import LuaSkills.ToolCache.Reference

/-!
# Histories of the tool cache

Along a history the two caches answer alike as long as the sequence numbers have not wrapped around,
which takes 2⁶³ creations. What is read or deleted belongs to the tool that created it.
-/

namespace LuaSkills.ToolCache

open AList List SharedToolCache

variable {toolName cacheId id : String} {e : ToolCacheEntry}

section
variable {config : ToolCacheConfig} {platform : Platform} {calls : List Call} {call : Call}
  {r : ReferenceCache} {c : SharedToolCache} {now : ℕ}

/-! ## Agreement -/

theorem reference_create_counter :
    (r.create config platform now systemTime toolName value ttlSecs).2.counter ≤ r.counter + 2 := by
  unfold ReferenceCache.create
  split
  · exact Nat.le_add_right _ _
  · split
    · exact Nat.le_refl _
    · exact Nat.le_refl _

theorem reference_delete_counter :
    (r.delete toolName cacheId).2.counter = r.counter := by
  unfold ReferenceCache.delete
  split <;> rfl

/-- A creation takes two numbers, the other calls none. -/
theorem reference_counter_le :
    (r.perform config platform now call).2.counter ≤
      r.counter + 2 * if call.isCreate = true then 1 else 0 := by
  obtain ⟨elapsed, systemTime, request⟩ := call
  cases request with
  | create toolName value ttlSecs => exact reference_create_counter
  | get toolName cacheId => exact Nat.le_refl _
  | delete toolName cacheId => exact (reference_delete_counter (r := r.expire now)).le
  | cleanup => exact Nat.le_refl _

/-- The caches after the same calls. -/
structure Agree (config : ToolCacheConfig) (calls : List Call) (h : History SharedToolCache)
    (h' : History ReferenceCache) : Prop where
  now : h.now = h'.now
  answered : h.answered = h'.answered
  simulates : ∃ l, Simulates config l h.state h'.state h.now
  counter : h'.state.counter ≤ 1 + 2 * calls.countP Call.isCreate

theorem agree_run (hcreates : calls.countP Call.isCreate < 2 ^ 63) :
    Agree config calls (history config platform calls)
      (ReferenceCache.history config platform calls) := by
  induction calls using reverseRecOn with
  | nil => exact ⟨rfl, rfl, ⟨[], .initial config⟩, Nat.le_refl _⟩
  | append_singleton calls call ih =>
    rw [countP_append, countP_singleton] at hcreates
    have H := ih (by omega)
    rw [history, ReferenceCache.history, History.run_append, History.run_append]
    rw [history, ReferenceCache.history] at H
    generalize History.run (fun cache => cache.perform config platform) new calls = h
      at H ⊢
    generalize History.run (fun cache => cache.perform config platform) ReferenceCache.new calls = h'
      at H ⊢
    obtain ⟨hnow, hanswered, ⟨l, S⟩, hbound⟩ := H
    have hcounter : call.isCreate = true → h'.state.counter + 2 < 2 ^ 64 := by
      intro hcreate
      rw [if_pos hcreate] at hcreates
      omega
    obtain ⟨hresponse, hstate⟩ :=
      @Simulates.perform config platform _ _ _ _ _ S (Nat.le_add_right _ call.elapsed) call hcounter
    constructor
    case now => exact congrArg (· + call.elapsed) hnow
    case answered =>
      simp only [History.call]
      rw [hanswered, hresponse, hnow]
    case simulates =>
      simp only [History.call]
      rwa [← hnow]
    case counter =>
      have hle := @reference_counter_le config platform call h'.state (h'.now + call.elapsed)
      rw [countP_append, countP_singleton]
      simp only [History.call]
      omega

/-! ## Owners -/

/-- The calls of the history that were given the identity are one creation, by that tool and with that
value. -/
def History.Owns {σ : Type} (h : History σ) (cacheId toolName : String) (value : Json) : Prop :=
  (∃ call, (call, Response.created cacheId) ∈ h.answered) ∧
    ∀ call, (call, Response.created cacheId) ∈ h.answered →
      ∃ ttlSecs, call.request = .create toolName value ttlSecs

/-- The stored entries are those of creations of the history, whose identities have smaller numbers
than the next. -/
structure Recorded (h : History SharedToolCache) : Prop where
  owned : ∀ id e, h.state.entries.lookup id = some e → h.Owns id e.toolName e.value
  numbered : ∀ call id, (call, Response.created id) ∈ h.answered →
    ∃ unixMs seq, id = cacheIdText unixMs seq ∧ seq < h.state.counter.toNat

theorem lookup_of_evictFrom {turns : ℕ} {entries : AssocMap String ToolCacheEntry}
    (h : (evictFrom config turns entries).lookup id = some e) :
    entries.lookup id = some e := by
  induction turns generalizing entries with
  | zero => exact h
  | succ turns ih =>
    unfold evictFrom at h
    split at h
    · split at h
      · exact (lookup_of_erase (ih h)).2
      · exact h
    · exact h

theorem lookup_of_cleanupExpired {entries : AssocMap String ToolCacheEntry}
    (h : (cleanupExpired entries now).lookup id = some e) :
    entries.lookup id = some e :=
  (lookup_retain.1 h).1

/-- An entry that is stored after a call was stored before or has just been created. -/
theorem lookup_of_perform
    (h : (c.perform config platform now call).2.entries.lookup id = some e) :
    c.entries.lookup id = some e ∨
      (c.perform config platform now call).1 = .created id ∧
        ∃ ttlSecs, call.request = .create e.toolName e.value ttlSecs := by
  unfold perform at h ⊢
  split at h
  next toolName value ttlSecs hrequest =>
    unfold create at h ⊢
    split at h
    next => exact .inl h
    next unixMs htime =>
      split at h
      next => exact .inl h
      next expiresAt hadd =>
        have hinsert := lookup_of_evictFrom h
        rcases lookup_of_insert hinsert with ⟨hid, rfl⟩ | ⟨-, hinsert⟩
        · exact .inr ⟨by rw [hid], ttlSecs, hrequest⟩
        · split at hinsert
          · exact .inl (lookup_of_cleanupExpired hinsert)
          · exact .inl hinsert
  next toolName cacheId _ =>
    dsimp only [SharedToolCache.get] at h
    split at h
    next =>
      split at h
      · exact .inl h
      · exact .inl (lookup_of_erase h).2
    next => exact .inl h
  next toolName cacheId _ =>
    dsimp only [delete] at h
    split at h
    next =>
      split at h
      · exact .inl (lookup_of_erase h).2
      · split at h
        · exact .inl (lookup_of_erase h).2
        · exact .inl h
    next => exact .inl h
  next => exact .inl (lookup_of_cleanupExpired h)

/-- Only a creation takes numbers; the first of the two is that of the identity. -/
theorem counter_of_perform :
    (c.perform config platform now call).2.counter = c.counter ∧
        (∀ id, (c.perform config platform now call).1 ≠ .created id) ∨
      (c.perform config platform now call).2.counter = c.counter + 1 + 1 ∧ call.isCreate = true ∧
        ∀ id, (c.perform config platform now call).1 = .created id →
          ∃ unixMs, id = cacheIdText unixMs c.counter.toNat := by
  obtain ⟨elapsed, systemTime, request⟩ := call
  cases request with
  | create toolName value ttlSecs =>
    simp only [perform, create]
    split
    · exact .inl ⟨rfl, fun id h => by cases h⟩
    next unixMs _ =>
      split
      · exact .inr ⟨rfl, rfl, fun id h => by cases h⟩
      · refine .inr ⟨rfl, rfl, fun id h => ⟨unixMs, ?_⟩⟩
        cases h
        rfl
  | get toolName cacheId =>
    refine .inl ⟨?_, fun id h => by cases h⟩
    simp only [SharedToolCache.perform, SharedToolCache.get]
    split
    · split <;> rfl
    · rfl
  | delete toolName cacheId =>
    refine .inl ⟨?_, fun id h => by cases h⟩
    simp only [perform, delete]
    split
    · split
      · rfl
      · split <;> rfl
    · rfl
  | cleanup => exact .inl ⟨rfl, fun id h => by cases h⟩

theorem Recorded.initial (now : ℕ) : Recorded ⟨.new, now, []⟩ where
  owned _ _ h := nomatch h
  numbered _ _ h := absurd h not_mem_nil

theorem Recorded.after (H : Recorded h)
    (hcounter : call.isCreate = true → h.state.counter.toNat + 2 < 2 ^ 64) :
    Recorded (h.call (fun cache => cache.perform config platform) call) := by
  have hcount := @counter_of_perform config platform call h.state (h.now + call.elapsed)
  -- an identity of this call has the next number, those of earlier calls have smaller ones
  have hfresh : ∀ call' id, (call', Response.created id) ∈ h.answered →
      (h.state.perform config platform (h.now + call.elapsed) call).1 ≠ .created id := by
    intro call' id hmem hresponse
    obtain ⟨unixMs, seq, rfl, hseq⟩ := H.numbered call' id hmem
    rcases hcount with ⟨-, hno⟩ | ⟨-, -, hid⟩
    · exact hno _ hresponse
    · obtain ⟨unixMs', heq⟩ := hid _ hresponse
      exact absurd (cacheIdText_seq heq) (Nat.ne_of_lt hseq)
  constructor
  case owned =>
    intro id e hlookup
    rcases lookup_of_perform hlookup with hold | ⟨hresponse, ttlSecs, hrequest⟩
    · obtain ⟨⟨call₀, hmem₀⟩, hall⟩ := H.owned id e hold
      refine ⟨⟨call₀, mem_append_left _ hmem₀⟩, fun call' hmem => ?_⟩
      rcases mem_append.1 hmem with hmem | hmem
      · exact hall call' hmem
      · have hresponse := (Prod.mk.inj (mem_singleton.1 hmem)).2
        exact absurd hresponse.symm (hfresh call₀ id hmem₀)
    · refine ⟨⟨call, mem_append_right _ ?_⟩, fun call' hmem => ?_⟩
      · rw [← hresponse]
        exact mem_singleton_self _
      · rcases mem_append.1 hmem with hmem | hmem
        · exact absurd hresponse (hfresh call' id hmem)
        · rw [(Prod.mk.inj (mem_singleton.1 hmem)).1]
          exact ⟨ttlSecs, hrequest⟩
  case numbered =>
    have hnext : call.isCreate = true →
        (h.state.counter + 1 + 1).toNat = h.state.counter.toNat + 2 := by
      intro hcreate
      have hlt := hcounter hcreate
      rw [UInt64.toNat_add, UInt64.toNat_add, show (1 : UInt64).toNat = 1 from rfl]
      omega
    have hcounter' : ∀ n, n ≤ h.state.counter.toNat → call.isCreate = true →
        (h.state.perform config platform (h.now + call.elapsed) call).2.counter =
          h.state.counter + 1 + 1 →
        n < (h.state.perform config platform (h.now + call.elapsed) call).2.counter.toNat := by
      intro n hn hcreate heq
      rw [heq, hnext hcreate]
      omega
    intro call' id hmem
    rcases mem_append.1 hmem with hmem | hmem
    · obtain ⟨unixMs, seq, hid, hseq⟩ := H.numbered call' id hmem
      refine ⟨unixMs, seq, hid, ?_⟩
      rcases hcount with ⟨heq, -⟩ | ⟨heq, hcreate, -⟩
      · exact heq ▸ hseq
      · exact hcounter' seq hseq.le hcreate heq
    · have hresponse := (Prod.mk.inj (mem_singleton.1 hmem)).2.symm
      rcases hcount with ⟨-, hno⟩ | ⟨heq, hcreate, hid⟩
      · exact absurd hresponse (hno id)
      · obtain ⟨unixMs, hid⟩ := hid id hresponse
        exact ⟨unixMs, _, hid, hcounter' _ le_rfl hcreate heq⟩

theorem recorded_run (hcreates : calls.countP Call.isCreate < 2 ^ 63) :
    Recorded (history config platform calls) := by
  induction calls using reverseRecOn with
  | nil => exact .initial 0
  | append_singleton calls call ih =>
    rw [countP_append, countP_singleton] at hcreates
    have H := @agree_run config platform calls (by omega)
    rw [history, History.run_append]
    refine (ih (by omega)).after fun hcreate => ?_
    obtain ⟨l, S⟩ := H.simulates
    have hle := H.counter
    have heq := S.counter
    rw [if_pos hcreate] at hcreates
    rw [heq]
    omega

/-! ## What other tools have -/

theorem get_eq_some (h : (c.get now toolName cacheId).1 = some value) :
    ∃ e, c.entries.lookup cacheId = some e ∧ e.toolName = toolName ∧ e.value = value := by
  unfold SharedToolCache.get at h
  split at h
  next e hlookup =>
    split at h
    · split at h
      next htool => exact ⟨e, hlookup, htool, Option.some.inj h⟩
      next => cases h
    · cases h
  next => cases h

theorem delete_eq_true
    (h : (c.delete now toolName cacheId).1 = true) :
    ∃ e, c.entries.lookup cacheId = some e ∧ e.toolName = toolName := by
  unfold delete at h
  split at h
  next e hlookup =>
    split at h
    · cases h
    · split at h
      next htool => exact ⟨e, hlookup, htool⟩
      next => cases h
  next => cases h

theorem lookup_get
    (hlookup : c.entries.lookup id = some e) (hlive : e.live now = true) :
    (c.get now toolName cacheId).2.entries.lookup id = some e := by
  unfold SharedToolCache.get
  split
  next e' hlookup' =>
    split
    next => exact hlookup
    next hdead =>
      have hne : id ≠ cacheId := by
        rintro rfl
        cases hlookup.symm.trans hlookup'
        exact hdead hlive
      rwa [lookup_erase_ne hne]
  next => exact hlookup

theorem lookup_delete
    (hlookup : c.entries.lookup id = some e) (hlive : e.live now = true)
    (hother : e.toolName ≠ toolName) :
    (c.delete now toolName cacheId).2.entries.lookup id = some e := by
  have hkeep : ∀ e', c.entries.lookup cacheId = some e' →
      (e'.live now = false ∨ e'.toolName = toolName) →
      (c.entries.erase cacheId).lookup id = some e := by
    intro e' hlookup' hgone
    have hne : id ≠ cacheId := by
      rintro rfl
      cases hlookup.symm.trans hlookup'
      rcases hgone with hdead | htool
      · rw [hlive] at hdead
        cases hdead
      · exact hother htool
    rwa [lookup_erase_ne hne]
  unfold delete
  split
  next e' hlookup' =>
    split
    next hdead => exact hkeep e' hlookup' (.inl hdead)
    next =>
      split
      next htool => exact hkeep e' hlookup' (.inr htool)
      next => exact hlookup
  next => exact hlookup

end

/-- For fewer than 2⁶³ creations, every answer of the shared cache is that of the cache which removes
each entry when it expires; what a tool reads or deletes is what it has created, and the live entries of
the other tools stay; there are never more entries than the capacity. -/
theorem lazy_expiry_unobservable (config : ToolCacheConfig) (platform : Platform)
    (calls : List Call) (hcreates : calls.countP Call.isCreate < 2 ^ 63) :
    (history config platform calls).answered =
      (ReferenceCache.history config platform calls).answered ∧
    (∀ now toolName cacheId,
      (∀ value, ((history config platform calls).state.get now toolName
          cacheId).1 = some value →
        (history config platform calls).Owns cacheId toolName value) ∧
      (((history config platform calls).state.delete now toolName
          cacheId).1 = true →
        ∃ value, (history config platform calls).Owns cacheId toolName value) ∧
      ∀ id e, (history config platform calls).state.entries.lookup id = some e →
        e.live now = true → e.toolName ≠ toolName →
        ((history config platform calls).state.get now toolName
            cacheId).2.entries.lookup id = some e ∧
          ((history config platform calls).state.delete now toolName
            cacheId).2.entries.lookup id = some e) ∧
    (history config platform calls).state.entries.size ≤ max config.maxEntries 1 := by
  have H := @agree_run config platform _ hcreates
  have R := @recorded_run config platform _ hcreates
  refine ⟨H.answered, fun now toolName cacheId => ⟨fun value h => ?_, fun h => ?_, ?_⟩, ?_⟩
  · obtain ⟨e, hlookup, rfl, rfl⟩ := get_eq_some h
    exact R.owned cacheId e hlookup
  · obtain ⟨e, hlookup, rfl⟩ := delete_eq_true h
    exact ⟨e.value, R.owned cacheId e hlookup⟩
  · exact fun id e hlookup hlive hother =>
      ⟨lookup_get hlookup hlive, lookup_delete hlookup hlive hother⟩
  · obtain ⟨l, S⟩ := H.simulates
    rw [size_eq_length S.stored (nodup_of_sorted S.sorted)]
    exact S.bounded

/-- One entry that lives for one unit of the clock. -/
def pageConfig : ToolCacheConfig := ⟨1, 1, 1⟩

def pagePlatform : Platform := ⟨1, 8, Nat.one_pos⟩

def pageCall : Call := ⟨0, 0, .create "pager" .null none⟩

def pageRead (cacheId : String) : Call := ⟨0, 0, .get "pager" cacheId⟩

/-- Two pages, of which the first has been evicted when it is read. -/
theorem lazy_expiry_unobservable_pages :
    [pageCall, pageCall, pageRead "tc-0-1"].countP Call.isCreate < 2 ^ 63 ∧
    (history pageConfig pagePlatform
        [pageCall, pageCall, pageRead "tc-0-1"]).answered =
      (ReferenceCache.history pageConfig pagePlatform
        [pageCall, pageCall, pageRead "tc-0-1"]).answered := by
  have hcreates : [pageCall, pageCall, pageRead "tc-0-1"].countP Call.isCreate < 2 ^ 63 := by
    decide
  exact ⟨hcreates, (lazy_expiry_unobservable pageConfig pagePlatform _ hcreates).1⟩

/-! ## The last number -/

def pageEntry (n : ℕ) : LiveEntry := ⟨cacheIdText 0 (2 * n + 1), "pager", .null, 1⟩

/-- After any number of pages the reference has the last one. -/
theorem reference_pages (n : ℕ) :
    (ReferenceCache.history pageConfig pagePlatform (replicate (n + 1) pageCall)).state =
        ⟨[pageEntry n], 2 * n + 3⟩ ∧
      (ReferenceCache.history pageConfig pagePlatform (replicate (n + 1) pageCall)).now = 0 := by
  induction n with
  | zero => exact ⟨rfl, rfl⟩
  | succ n ih =>
    rw [replicate_succ', ReferenceCache.history, History.run_append]
    rw [ReferenceCache.history] at ih
    obtain ⟨hstate, hnow⟩ := ih
    simp only [History.call, hstate, hnow]
    exact ⟨rfl, rfl⟩

/-- With the last number the new page is the one that is evicted. -/
theorem lookup_last_page (hm : 2 * m + 4 = 2 ^ 64)
    (S : Simulates pageConfig l c ⟨[pageEntry m], 2 * m + 3⟩ 0) :
    (c.perform pageConfig pagePlatform 0 pageCall).2.entries.lookup (cacheIdText 0 (2 * m + 3)) =
      none := by
  have hcounter : c.counter.toNat = 2 * m + 3 := S.counter
  have hzero : (c.counter + 1).toNat = 0 := by
    rw [UInt64.toNat_add, hcounter, show (1 : UInt64).toNat = 1 from rfl]
    omega
  -- the cache holds the page before
  obtain ⟨s, hl, hlive, hs⟩ : ∃ s, l = [s] ∧ s.2.live 0 = true ∧ s.1 = cacheIdText 0 (2 * m + 1) := by
    have hmem : pageEntry m ∈ (l.filter (·.2.live 0)).map Stored.view :=
      S.live ▸ mem_singleton_self (pageEntry m)
    obtain ⟨s, hs, hview⟩ := mem_map.1 hmem
    obtain ⟨hs, hlive⟩ := mem_filter.1 hs
    have hlength : l.length = 1 := Nat.le_antisymm S.bounded (length_pos_of_mem hs)
    obtain ⟨t, rfl⟩ := length_eq_one_iff.1 hlength
    exact ⟨s, by rw [mem_singleton.1 hs], hlive, congrArg LiveEntry.cacheId hview⟩
  subst hl
  obtain ⟨unixMs, seq, -, hseq⟩ := S.named s (mem_singleton_self s)
  let new : Stored := (cacheIdText 0 (2 * m + 3), ⟨"pager", .null, c.counter + 1, 1⟩)
  have hne : new.1 ≠ s.1 := by
    rw [hs]
    intro heq
    have := cacheIdText_seq heq
    omega
  have hnot : ∀ e, (new.1, e) ∉ [s] := by
    intro e hmem
    have hid : new.1 = s.1 := by rw [← mem_singleton.1 hmem]
    exact hne hid
  have hall : ∀ e ∈ [s], e.2.live 0 = true := fun e he => mem_singleton.1 he ▸ hlive
  have hclean := S.cleanup.stored
  rw [filter_eq_self.2 hall] at hclean
  have hstored : ∀ id e, ((cleanupExpired c.entries 0).insert new.1 new.2).lookup id =
      some e ↔ (id, e) ∈ [new, s] := by
    intro id e
    rw [lookup_insert_eq, mem_cons]
    split
    next hid =>
      subst hid
      have hother : (new.1, e) ∉ [s] := hnot e
      simp [hother, Prod.ext_iff, eq_comm]
    next hid =>
      rw [hclean id e]
      simp [Prod.ext_iff, hid]
  have hsorted : [new, s].Pairwise fun a b => a.2.createdSeq.toNat < b.2.createdSeq.toNat := by
    refine pairwise_cons.2 ⟨fun e he => ?_, pairwise_singleton _ _⟩
    rw [mem_singleton.1 he, hseq, show new.2.createdSeq.toNat = 0 from hzero]
    exact Nat.succ_pos seq
  have henforced := @stored_enforceCapacity pageConfig _ _ hstored hsorted (Nat.le_refl 2)
  have hsize : c.entries.size = 1 := size_eq_length S.stored (nodup_of_sorted S.sorted)
  have hentries : (c.perform pageConfig pagePlatform 0 pageCall).2.entries =
      enforceCapacity pageConfig
        ((cleanupExpired c.entries 0).insert new.1 new.2) := by
    have hpage : (c.perform pageConfig pagePlatform 0 pageCall).2.entries =
        enforceCapacity pageConfig
          ((if pageConfig.capacity ≤ c.entries.size then
              cleanupExpired c.entries 0
            else c.entries).insert (cacheIdText 0 c.counter.toNat)
            ⟨"pager", .null, c.counter + 1, 1⟩) := rfl
    have hfull : pageConfig.capacity ≤ c.entries.size := hsize.ge
    rw [hpage, if_pos hfull, hcounter]
  rw [hentries]
  by_contra hsome
  obtain ⟨e, he⟩ := Option.ne_none_iff_exists'.1 hsome
  exact hnot e ((henforced new.1 e).1 he)

theorem reference_read_page (n counter : ℕ) :
    (ReferenceCache.perform pageConfig pagePlatform ⟨[pageEntry n], counter⟩ 0
      (pageRead (cacheIdText 0 (2 * n + 1)))).1 = .value (some .null) := by
  have hget : (ReferenceCache.expire ⟨[pageEntry n], counter⟩ 0).get "pager"
      (cacheIdText 0 (2 * n + 1)) = some .null := by
    simp [ReferenceCache.get, ReferenceCache.expire, pageEntry]
  exact congrArg Response.value hget

/-- The answer to the last call. -/
theorem History.getLast_run (perform : σ → ℕ → Call → Response × σ) (start : σ) (calls : List Call)
    (call : Call) : (History.run perform start (calls ++ [call])).answered.getLast? =
      some (call, (perform (History.run perform start calls).state
        ((History.run perform start calls).now + call.elapsed) call).1) := by
  rw [History.run_append]
  exact getLast?_concat

/-- The sequence numbers have come back to zero with the last page, which is then the oldest. -/
theorem last_page_is_lost :
    (history pageConfig pagePlatform
        (replicate (2 ^ 63) pageCall ++ [pageRead (cacheIdText 0 (2 ^ 64 - 1))])).answered ≠
      (ReferenceCache.history pageConfig pagePlatform
        (replicate (2 ^ 63) pageCall ++ [pageRead (cacheIdText 0 (2 ^ 64 - 1))])).answered := by
  obtain ⟨m, hm, hm'⟩ : ∃ m, 2 ^ 63 = m + 1 + 1 ∧ 2 ^ 64 = 2 * m + 4 := by
    exact ⟨2 ^ 63 - 2, by omega, by omega⟩
  have hcreates : (replicate (m + 1) pageCall).countP Call.isCreate < 2 ^ 63 := by
    rw [hm]
    exact lt_of_le_of_lt countP_le_length (by rw [length_replicate]; omega)
  obtain ⟨hnow, -, ⟨l, S⟩, -⟩ := @agree_run pageConfig pagePlatform _ hcreates
  obtain ⟨hstate, hzero⟩ := reference_pages m
  rw [hstate, hnow, hzero] at S
  have hlost := lookup_last_page hm'.symm S
  rw [hm, hm', show 2 * m + 4 - 1 = 2 * m + 3 by omega]
  -- what the last read answers
  have hread : (history pageConfig pagePlatform
      (replicate (m + 1 + 1) pageCall ++
        [pageRead (cacheIdText 0 (2 * m + 3))])).answered.getLast? =
        some (pageRead (cacheIdText 0 (2 * m + 3)), .value none) := by
    have hstate' : (history pageConfig pagePlatform
        (replicate (m + 1 + 1) pageCall)).state =
          ((history pageConfig pagePlatform
            (replicate (m + 1) pageCall)).state.perform pageConfig pagePlatform 0 pageCall).2 := by
      rw [replicate_succ', history, History.run_append, ← history]
      simp only [History.call, hnow, hzero]
      rfl
    rw [history, History.getLast_run, ← history, hstate']
    have hget : ∀ now, (get
        ((history pageConfig pagePlatform
          (replicate (m + 1) pageCall)).state.perform pageConfig pagePlatform 0 pageCall).2 now
        "pager" (cacheIdText 0 (2 * m + 3))).1 = none := fun now => by
      rw [SharedToolCache.get, hlost]
    exact congrArg (fun value => some (pageRead (cacheIdText 0 (2 * m + 3)), Response.value value))
      (hget _)
  have hread' : (ReferenceCache.history pageConfig pagePlatform
      (replicate (m + 1 + 1) pageCall ++
        [pageRead (cacheIdText 0 (2 * m + 3))])).answered.getLast? =
        some (pageRead (cacheIdText 0 (2 * m + 3)), .value (some .null)) := by
    obtain ⟨hstate', hzero'⟩ := reference_pages (m + 1)
    rw [ReferenceCache.history, History.getLast_run, ← ReferenceCache.history, hstate', hzero']
    exact congrArg (fun response => some (pageRead (cacheIdText 0 (2 * m + 3)), response))
      (reference_read_page (m + 1) _)
  intro heq
  rw [heq, hread'] at hread
  cases hread

end LuaSkills.ToolCache
