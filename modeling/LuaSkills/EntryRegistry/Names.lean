import LuaSkills.EntryRegistry.Build

/-!
# Entries that keep their base name

An entry whose base name is neither reserved nor shared is registered under it, unless the numbers of a
shorter base name run into it: the entries of that base come first in the sorted order, and their suffixed
names are taken without a look at the bases still to come.
-/

namespace LuaSkills.EntryRegistry

open AList List

open SkillConfig (trim)

variable {skills : AssocMap String LoadedSkill} {reserved : List String} {p p' : Progress}
  {key name : String} {skill : LoadedSkill} {tool : SkillToolMeta} {seed : EntrySeed}
  {seeds done : List EntrySeed}

/-- The number of declared entries with a base name. -/
def members (skills : AssocMap String LoadedSkill) (baseName : String) : ℕ :=
  ((declaredSeeds skills).map EntrySeed.baseName).count baseName

/-- The numbered names of a shorter base name take this one. -/
def Lost (skills : AssocMap String LoadedSkill) (reserved : List String) (baseName : String) : Prop :=
  entryNumbering.Lost (members skills) reserved.toFinset baseName

/-- The entry's base name is not reserved and is no other entry's base name. -/
structure Unambiguous (skills : AssocMap String LoadedSkill) (reserved : List String) (key : String)
    (skill : LoadedSkill) (tool : SkillToolMeta) : Prop where
  declared : Declares skills key skill tool
  unreserved : skill.skillMeta.toolBaseName tool ∉ reserved
  alone : ∀ key' skill' tool', Declares skills key' skill' tool' →
    skill'.skillMeta.toolBaseName tool' = skill.skillMeta.toolBaseName tool →
      key' = key ∧ trim tool'.name = trim tool.name

/-- After a rebuild the registry lists the entry under `name`. -/
def RegisteredAs (skills : AssocMap String LoadedSkill) (reserved : List String) (key localName name : String) :
    Prop :=
  ∃ p target, rebuildEntryRegistry skills reserved = some (.ok p) ∧ p.registry.lookup name = some target ∧
    target.skillStorageKey = key ∧ target.localName = localName

/-! ## Sorted seeds -/

theorem baseName_le {a b : EntrySeed} (h : a.sortKey ≤ b.sortKey) : a.baseName ≤ b.baseName := by
  rw [EntrySeed.sortKey, EntrySeed.sortKey, Prod.Lex.toLex_le_toLex] at h
  rcases h with h | h
  · exact h.le
  · exact h.1.le

def Listed (skills : AssocMap String LoadedSkill) (seeds : List EntrySeed) : Prop :=
  seeds.Perm (declaredSeeds skills) ∧ seeds.Pairwise fun a b => a.baseName ≤ b.baseName

theorem listed_sortSeeds : Listed skills (sortSeeds (declaredSeeds skills)) :=
  ⟨sortSeeds_perm _, (sortSeeds_sorted _).imp baseName_le⟩

/-- The bases that the seed's base is a variant of are all served before it. -/
theorem Listed.count_shorter (H : Listed skills (done ++ seed :: seeds)) (hi : 2 ≤ i)
    (hname : candidateName b i = seed.baseName) :
    (done.map EntrySeed.baseName).count b = members skills b := by
  have hlater : ((seed :: seeds).map EntrySeed.baseName).count b = 0 := by
    rw [count_eq_zero]
    intro hmem
    obtain ⟨other, hother, rfl⟩ := mem_map.mp hmem
    have hlt : other.baseName < seed.baseName := hname ▸ lt_candidateName hi
    rcases mem_cons.mp hother with rfl | hother
    · exact lt_irrefl _ hlt
    · have hsorted := (pairwise_cons.mp (pairwise_append.mp H.2).2.1).1 other hother
      exact absurd hlt (not_lt.mpr hsorted)
  rw [members, ← (H.1.map EntrySeed.baseName).count_eq, map_append, count_append, hlater,
    Nat.add_zero]

/-- The variants of the seed's base are all served behind it. -/
theorem Listed.count_longer (H : Listed skills (done ++ seed :: seeds)) (hi : 2 ≤ i) :
    (done.map EntrySeed.baseName).count (candidateName seed.baseName i) = 0 := by
  rw [count_eq_zero]
  intro hmem
  obtain ⟨other, hother, heq⟩ := mem_map.mp hmem
  have hsorted := (pairwise_append.mp H.2).2.2 other hother seed mem_cons_self
  exact absurd hsorted (not_le.mpr (heq ▸ lt_candidateName hi))

/-! ## The loop in two parts -/

theorem registerSeeds_append (h : registerSeeds p (done ++ seeds) = some (.ok p')) :
    ∃ p₁, registerSeeds p done = some (.ok p₁) ∧ registerSeeds p₁ seeds = some (.ok p') := by
  induction done generalizing p with
  | nil => exact ⟨p, rfl, h⟩
  | cons seed done ih =>
    rw [cons_append, registerSeeds] at h
    rw [registerSeeds]
    split at h
    next p₁ hstep => exact ih h
    next hother => exact absurd h (hother p')

structure Progressed (skills : AssocMap String LoadedSkill) (reserved : List String)
    (done : List EntrySeed) (p : Progress) : Prop where
  registered : Registered skills reserved done p
  served : entryNumbering.Served (members skills) reserved.toFinset (done.map EntrySeed.baseName) p.names

theorem Progressed.start : Progressed skills reserved [] (.start skills reserved) :=
  ⟨.start, .new⟩

namespace Progressed

/-- One round, at its place in the sorted seeds: the seed gets the next open variant of its base. -/
theorem registerSeed (P : Progressed skills reserved done p) (H : Listed skills (done ++ seed :: seeds))
    (hapart : (done ++ seed :: seeds).Pairwise Apart) (hstep : registerSeed p seed = some (.ok p')) :
    Progressed skills reserved (done ++ [seed]) p' ∧
      (∀ name target, p.registry.lookup name = some target → p'.registry.lookup name = some target) ∧
      ∃ i, p.names.index seed.baseName < i ∧
        p'.registry.lookup (candidateName seed.baseName i) = some (seed.target (candidateName seed.baseName i)) ∧
        entryNumbering.Open (members skills) reserved.toFinset seed.baseName i ∧
        ∀ k, p.names.index seed.baseName < k → k < i →
          ¬ entryNumbering.Open (members skills) reserved.toFinset seed.baseName k := by
  have hskill : ∃ skill, skills.lookup seed.skillStorageKey = some skill := by
    obtain ⟨key, skill, tool, ⟨hskill, -⟩, rfl⟩ := mem_declaredSeeds.mp
      (H.1.mem_iff.mp (mem_append_right done mem_cons_self))
    exact ⟨skill, hskill⟩
  obtain ⟨skill, hskill⟩ := hskill
  have hdone : ∀ other ∈ done, Apart other seed := fun other hmem =>
    (pairwise_append.mp hapart).2.2 other hmem seed mem_cons_self
  obtain ⟨p₁, name, hstep₁, htake, hregistry, R⟩ := P.registered.registerSeed hdone hskill
  cases hstep.symm.trans hstep₁
  obtain ⟨S, i, hi, rfl, hopen, hclosed⟩ := P.served.take
    (fun b j hj hname => H.count_shorter hj hname) (fun j hj => H.count_longer hj) htake
  refine ⟨⟨R, ?_⟩, fun name target h => ?_, i, hi, ?_, hopen, hclosed⟩
  · rw [map_append]
    exact S
  · obtain ⟨-, -, -, hfree, -⟩ := entryNumbering.take_eq_some htake
    rw [hregistry, SortedMap.lookup_insert_of_ne]
    · exact h
    · rintro rfl
      exact hfree (P.registered.used _ target h).1
  · rw [hregistry]
    exact SortedMap.lookup_insert_self

/-- The rounds for a part of the sorted seeds. -/
theorem registerSeeds (P : Progressed skills reserved done p) (H : Listed skills (done ++ (seeds ++ rest)))
    (hapart : (done ++ (seeds ++ rest)).Pairwise Apart) (h : registerSeeds p seeds = some (.ok p')) :
    Progressed skills reserved (done ++ seeds) p' ∧
      ∀ name target, p.registry.lookup name = some target → p'.registry.lookup name = some target := by
  induction seeds generalizing done p with
  | nil =>
    cases h
    rw [append_nil]
    exact ⟨P, fun _ _ h => h⟩
  | cons seed seeds ih =>
    rw [EntryRegistry.registerSeeds] at h
    split at h
    next p₁ hstep =>
      obtain ⟨P₁, hkept, -⟩ := P.registerSeed H hapart hstep
      rw [cons_append, append_cons] at H hapart
      rw [append_cons]
      obtain ⟨P', hkept'⟩ := ih P₁ H hapart h
      exact ⟨P', fun name target hname => hkept' name target (hkept name target hname)⟩
    next hother => exact absurd h (hother p')

end Progressed

/-! ## Base names -/

/-- An unambiguous entry gets the first open variant of its base name. -/
theorem Unambiguous.registered (U : Unambiguous skills reserved key skill tool)
    (hdistinct : ∀ key skill, skills.lookup key = some skill → skill.Distinct)
    (h : registerSeeds (.start skills reserved) (sortSeeds (declaredSeeds skills)) = some (.ok p)) :
    ∃ i, 0 < i ∧
      p.registry.lookup (candidateName (skill.skillMeta.toolBaseName tool) i) =
        some ((seedOf key skill tool).target (candidateName (skill.skillMeta.toolBaseName tool) i)) ∧
      entryNumbering.Open (members skills) reserved.toFinset (skill.skillMeta.toolBaseName tool) i ∧
      ∀ k, 0 < k → k < i →
        ¬ entryNumbering.Open (members skills) reserved.toFinset (skill.skillMeta.toolBaseName tool) k := by
  have hmem : seedOf key skill tool ∈ sortSeeds (declaredSeeds skills) :=
    (sortSeeds_perm _).mem_iff.mpr (mem_declaredSeeds.mpr ⟨key, skill, tool, U.declared, rfl⟩)
  obtain ⟨before, after, hsplit⟩ := append_of_mem hmem
  have H : Listed skills (before ++ seedOf key skill tool :: after) := hsplit ▸ listed_sortSeeds
  have hapart : (before ++ seedOf key skill tool :: after).Pairwise Apart :=
    hsplit ▸ sortedSeeds_apart hdistinct
  rw [hsplit] at h
  obtain ⟨p₁, hbefore, hrest⟩ := registerSeeds_append h
  -- Nobody before the entry has its base name.
  have hcount : (before.map EntrySeed.baseName).count (skill.skillMeta.toolBaseName tool) = 0 := by
    rw [count_eq_zero]
    intro hbase
    obtain ⟨other, hother, heq⟩ := mem_map.mp hbase
    obtain ⟨key', skill', tool', hdeclares, rfl⟩ :=
      mem_declaredSeeds.mp (H.1.mem_iff.mp (mem_append_left _ hother))
    obtain ⟨hkey, hlocal⟩ := U.alone key' skill' tool' hdeclares heq
    exact (pairwise_append.mp hapart).2.2 _ hother _ mem_cons_self hkey hlocal
  obtain ⟨P, -⟩ := Progressed.start.registerSeeds H hapart hbefore
  rw [registerSeeds] at hrest
  split at hrest
  next p₂ hstep =>
    obtain ⟨P₂, -, i, hi, hlookup, hopen, hclosed⟩ := P.registerSeed H hapart hstep
    have hindex : p₁.names.index (skill.skillMeta.toolBaseName tool) = 0 := P.served.index_eq_zero hcount
    have htail : before ++ seedOf key skill tool :: after = before ++ [seedOf key skill tool] ++ (after ++ []) := by
      rw [append_nil, ← append_cons]
    obtain ⟨-, hkept⟩ := P₂.registerSeeds (htail ▸ H) (htail ▸ hapart) hrest
    refine ⟨i, hindex ▸ hi, hkept _ _ hlookup, hopen, fun k hk => ?_⟩
    exact hclosed k (hindex.symm ▸ hk)
  next hother => exact absurd hrest (hother p)

theorem RegisteredAs.unique (L : LoadedSkills)
    (hdistinct : ∀ key skill, L.skills.lookup key = some skill → skill.Distinct)
    (h : RegisteredAs L.skills reserved key localName name)
    (h' : RegisteredAs L.skills reserved key localName name') : name = name' := by
  obtain ⟨p, hrun, hformed⟩ := L.rebuild_formed hdistinct
  obtain ⟨p₁, target, hrun₁, hname⟩ := h
  obtain ⟨p₂, target', hrun₂, hname'⟩ := h'
  cases hrun.symm.trans hrun₁
  cases hrun.symm.trans hrun₂
  have hresolved := (hformed.inverse key localName name).mpr ⟨target, hname⟩
  rw [(hformed.inverse key localName name').mpr ⟨target', hname'⟩] at hresolved
  exact (Option.some.inj hresolved).symm

theorem Unambiguous.registeredAs_base (L : LoadedSkills)
    (hdistinct : ∀ key skill, L.skills.lookup key = some skill → skill.Distinct)
    (U : Unambiguous L.skills reserved key skill tool) :
    RegisteredAs L.skills reserved key (trim tool.name) (skill.skillMeta.toolBaseName tool) ↔
      ¬ Lost L.skills reserved (skill.skillMeta.toolBaseName tool) := by
  obtain ⟨p, hrun, hformed⟩ := L.rebuild_formed hdistinct
  have hloop := hrun
  rw [L.rebuild_eq (fun _ => rfl) hdistinct] at hloop
  obtain ⟨i, hi, hlookup, hopen, hclosed⟩ := U.registered hdistinct hloop
  have hone : entryNumbering.Open (members L.skills) reserved.toFinset (skill.skillMeta.toolBaseName tool) 1 ↔
      ¬ Lost L.skills reserved (skill.skillMeta.toolBaseName tool) := by
    rw [entryNumbering.open_one, mem_toFinset]
    exact and_iff_right U.unreserved
  rw [← hone]
  constructor
  · intro hbase
    have hname := RegisteredAs.unique L hdistinct hbase ⟨p, _, hrun, hlookup, rfl, rfl⟩
    have hindex : 1 = i := entryNumbering.name_index_inj le_rfl hi
      ((entryNumbering.name_one _).trans hname)
    exact hindex ▸ hopen
  · intro hfirst
    have hindex : i = 1 := by
      by_contra hne
      exact hclosed 1 Nat.one_pos (by omega) hfirst
    subst hindex
    exact ⟨p, _, hrun, hlookup, rfl, rfl⟩

/-- **Unambiguous entries.** An entry whose base name is neither reserved nor shared is registered under it
if and only if that name is not lost to the numbers of a shorter one; two loads in which it is not lost
agree about the entry's name. -/
theorem unambiguous_named_iff (L : LoadedSkills) (reserved : List String)
    (hdistinct : ∀ key skill, L.skills.lookup key = some skill → skill.Distinct)
    (U : Unambiguous L.skills reserved key skill tool) :
    (RegisteredAs L.skills reserved key (trim tool.name) (skill.skillMeta.toolBaseName tool) ↔
      ¬ Lost L.skills reserved (skill.skillMeta.toolBaseName tool)) ∧
    ∀ (L' : LoadedSkills) (skill' : LoadedSkill),
      (∀ key skill, L'.skills.lookup key = some skill → skill.Distinct) →
      Unambiguous L'.skills reserved key skill' tool →
      skill'.skillMeta.toolBaseName tool = skill.skillMeta.toolBaseName tool →
      ¬ Lost L.skills reserved (skill.skillMeta.toolBaseName tool) →
      ¬ Lost L'.skills reserved (skill.skillMeta.toolBaseName tool) →
      ∀ name, RegisteredAs L.skills reserved key (trim tool.name) name ↔
        RegisteredAs L'.skills reserved key (trim tool.name) name := by
  refine ⟨U.registeredAs_base L hdistinct, fun L' skill' hdistinct' U' hbase hkept hkept' name => ?_⟩
  have h := (U.registeredAs_base L hdistinct).mpr hkept
  have h' := (U'.registeredAs_base L' hdistinct').mpr (hbase ▸ hkept')
  rw [hbase] at h'
  constructor
  · intro hname
    exact RegisteredAs.unique L hdistinct h hname ▸ h'
  · intro hname
    exact RegisteredAs.unique L' hdistinct' h' hname ▸ h

/-! ## A name that is lost -/

/-- `foo-bar-baz` is wished for twice, and `foo-bar-baz-2` once. -/
def overrunSkills : LoadedSkills where
  skills := ((∅ : AssocMap String LoadedSkill).insert "foo-bar" (loadedSkill "foo-bar" ["baz"])).insert "foo"
    (loadedSkill "foo" ["bar-baz", "bar-baz-2"])
  loaded := forall_insert (forall_insert (fun _ _ h => nomatch h) ⟨by decide, by decide⟩)
    ⟨by decide, by decide⟩

/-- The second entry of `foo` keeps its name as long as `foo-bar` is not loaded. -/
def fooSkills : LoadedSkills where
  skills := (∅ : AssocMap String LoadedSkill).insert "foo" (loadedSkill "foo" ["bar-baz", "bar-baz-2"])
  loaded := forall_insert (fun _ _ h => nomatch h) ⟨by decide, by decide⟩

/-- A base name that only one of the listed seeds has. -/
theorem unambiguous_of_seeds (hdeclared : Declares skills key skill tool)
    (hunreserved : skill.skillMeta.toolBaseName tool ∉ reserved)
    (halone : ∀ seed ∈ declaredSeeds skills, seed.baseName = skill.skillMeta.toolBaseName tool →
      seed.skillStorageKey = key ∧ seed.localName = trim tool.name) :
    Unambiguous skills reserved key skill tool :=
  ⟨hdeclared, hunreserved, fun key' skill' tool' h =>
    halone (seedOf key' skill' tool') (mem_declaredSeeds.mpr ⟨key', skill', tool', h, rfl⟩)⟩

theorem fooSkills_unambiguous : Unambiguous fooSkills.skills [] "foo"
    (loadedSkill "foo" ["bar-baz", "bar-baz-2"]) ⟨"bar-baz-2", "bar-baz-2"⟩ :=
  unambiguous_of_seeds ⟨rfl, by decide⟩ not_mem_nil (by decide)

/-- Loading `foo-bar` renames an entry that has a base name of its own. -/
theorem unambiguous_renamed :
    Unambiguous overrunSkills.skills [] "foo" (loadedSkill "foo" ["bar-baz", "bar-baz-2"])
        ⟨"bar-baz-2", "bar-baz-2"⟩ ∧
      Unambiguous fooSkills.skills [] "foo" (loadedSkill "foo" ["bar-baz", "bar-baz-2"])
        ⟨"bar-baz-2", "bar-baz-2"⟩ ∧
      RegisteredAs fooSkills.skills [] "foo" "bar-baz-2" "foo-bar-baz-2" ∧
      ¬ RegisteredAs overrunSkills.skills [] "foo" "bar-baz-2" "foo-bar-baz-2" := by
  refine ⟨unambiguous_of_seeds ⟨rfl, by decide⟩ not_mem_nil (by decide), fooSkills_unambiguous, ?_, ?_⟩
  · exact ⟨_, _, rfl, rfl, rfl, rfl⟩
  · rintro ⟨p, target, hrun, hlookup, hkey, -⟩
    cases hrun
    cases hlookup
    exact absurd hkey (by decide)

theorem unambiguous_named_foo : RegisteredAs fooSkills.skills [] "foo" "bar-baz-2" "foo-bar-baz-2" ↔
    ¬ Lost fooSkills.skills [] "foo-bar-baz-2" := by
  have hdistinct : ∀ key skill, fooSkills.skills.lookup key = some skill → skill.Distinct :=
    forall_insert (fun _ _ h => nomatch h) (by unfold LoadedSkill.Distinct; decide)
  exact (unambiguous_named_iff fooSkills [] hdistinct fooSkills_unambiguous).1

end LuaSkills.EntryRegistry
