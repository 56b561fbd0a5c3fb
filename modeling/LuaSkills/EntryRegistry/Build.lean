import LuaSkills.EntryRegistry.State

/-!
# The registry is a bijection

The seeds of the declared entries are collected and sorted; the loop over them keeps the registry, the
resolved names and the names in use in step (`Registered`). No two seeds of loaded skills compare equal,
so the sorted seeds, and with them the result, do not depend on the order in which the skills are
traversed.
-/

namespace LuaSkills.EntryRegistry

open AList List

open SkillConfig (trim)

variable {skills : AssocMap String LoadedSkill} {reserved : List String} {p p' : Progress}
  {key name : String} {skill : LoadedSkill} {tool : SkillToolMeta} {seed : EntrySeed}
  {seeds done : List EntrySeed}

def Declares (skills : AssocMap String LoadedSkill) (key : String) (skill : LoadedSkill)
    (tool : SkillToolMeta) : Prop :=
  skills.lookup key = some skill ∧ tool ∈ skill.skillMeta.entries

/-! ## Collected seeds -/

def seedOf (key : String) (skill : LoadedSkill) (tool : SkillToolMeta) : EntrySeed :=
  ⟨key, skill.skillMeta.effectiveSkillId, trim tool.name, skill.skillMeta.toolBaseName tool,
    skill.dirName.getD "", tool.luaModule⟩

def declaredSeeds (skills : AssocMap String LoadedSkill) : List EntrySeed :=
  skills.entries.flatMap fun e => e.2.skillMeta.entries.map (seedOf e.1 e.2)

theorem collectSeed_eq (hdir : skill.dirName.isSome)
    (hnew : ∀ seed ∈ seeds, seed.skillStorageKey = key → seed.localName ≠ trim tool.name) :
    collectSeed key skill seeds tool = .ok (seeds ++ [seedOf key skill tool]) := by
  obtain ⟨name, hname⟩ := Option.isSome_iff_exists.mp hdir
  unfold collectSeed
  simp only [Except.bind_eq_ok, refuseIf_eq_ok, okOr_eq_ok]
  refine ⟨(), fun hdup => ?_, name, hname, ?_⟩
  · obtain ⟨seed, hmem, hseed⟩ := any_eq_true.mp hdup
    rw [Bool.and_eq_true, decide_eq_true_iff, decide_eq_true_iff] at hseed
    exact hnew seed hmem hseed.1 hseed.2
  · rw [seedOf, hname]
    rfl

theorem collectSkill_eq {tools : List SkillToolMeta} (hdir : skill.dirName.isSome)
    (hdistinct : (tools.map fun tool => trim tool.name).Nodup)
    (hnew : ∀ seed ∈ seeds, seed.skillStorageKey = key → ∀ tool ∈ tools, seed.localName ≠ trim tool.name) :
    tools.foldlM (collectSeed key skill) seeds = .ok (seeds ++ tools.map (seedOf key skill)) := by
  induction tools generalizing seeds with
  | nil =>
    rw [map_nil, append_nil]
    rfl
  | cons tool tools ih =>
    rw [map_cons, nodup_cons] at hdistinct
    have hfirst : collectSeed key skill seeds tool = .ok (seeds ++ [seedOf key skill tool]) :=
      collectSeed_eq hdir fun seed hmem hkey => hnew seed hmem hkey tool mem_cons_self
    rw [foldlM_cons, hfirst, Except.ok_bind, ih hdistinct.2, append_assoc]
    · rfl
    · intro seed hmem hkey tool' htool' heq
      rcases mem_append.mp hmem with hmem | hmem
      · exact hnew seed hmem hkey tool' (mem_cons_of_mem _ htool') heq
      · cases mem_singleton.mp hmem
        exact hdistinct.1 (mem_map.mpr ⟨tool', htool', heq.symm⟩)

theorem collectSkills_eq {entries : List (Sigma fun _ : String => LoadedSkill)}
    (hkeys : entries.NodupKeys)
    (hgood : ∀ e ∈ entries, e.2.dirName.isSome ∧ e.2.Distinct)
    (hnew : ∀ seed ∈ seeds, seed.skillStorageKey ∉ entries.keys) :
    entries.foldlM (fun seeds e => e.2.skillMeta.entries.foldlM (collectSeed e.1 e.2) seeds) seeds =
      .ok (seeds ++ entries.flatMap fun e => e.2.skillMeta.entries.map (seedOf e.1 e.2)) := by
  induction entries generalizing seeds with
  | nil =>
    rw [flatMap_nil, append_nil]
    rfl
  | cons e entries ih =>
    rw [nodupKeys_cons] at hkeys
    obtain ⟨hdir, hdistinct⟩ := hgood e mem_cons_self
    have hfirst : e.2.skillMeta.entries.foldlM (collectSeed e.1 e.2) seeds =
        .ok (seeds ++ e.2.skillMeta.entries.map (seedOf e.1 e.2)) :=
      collectSkill_eq hdir hdistinct fun seed hmem hkey =>
        absurd (hkey ▸ mem_cons_self) (hnew seed hmem)
    rw [foldlM_cons, hfirst, Except.ok_bind,
      ih hkeys.2 fun e' he' => hgood e' (mem_cons_of_mem _ he'), append_assoc]
    · rfl
    · intro seed hmem hkey
      rcases mem_append.mp hmem with hmem | hmem
      · exact hnew seed hmem (mem_cons_of_mem _ hkey)
      · obtain ⟨tool, -, rfl⟩ := mem_map.mp hmem
        exact hkeys.1 hkey

/-- The names of directories are known and local names differ: every entry gets its seed. -/
theorem collectSeeds_eq (hgood : ∀ key skill, skills.lookup key = some skill →
    skill.dirName.isSome ∧ skill.Distinct) : collectSeeds skills = .ok (declaredSeeds skills) :=
  collectSkills_eq skills.nodupKeys (fun e he => hgood e.1 e.2 (mem_entries_iff.mp he))
    fun _ hmem => absurd hmem not_mem_nil

theorem mem_declaredSeeds : seed ∈ declaredSeeds skills ↔
    ∃ key skill tool, Declares skills key skill tool ∧ seed = seedOf key skill tool := by
  simp only [declaredSeeds, mem_flatMap, mem_map, Declares]
  constructor
  · rintro ⟨e, he, tool, htool, rfl⟩
    exact ⟨e.1, e.2, tool, ⟨mem_entries_iff.mp he, htool⟩, rfl⟩
  · rintro ⟨key, skill, tool, ⟨hskill, htool⟩, rfl⟩
    exact ⟨⟨key, skill⟩, mem_entries_iff.mpr hskill, tool, htool, rfl⟩

def Apart (a b : EntrySeed) : Prop := a.skillStorageKey = b.skillStorageKey → a.localName ≠ b.localName

theorem Apart.symm (h : Apart a b) : Apart b a := fun hkey hlocal =>
  h hkey.symm hlocal.symm

theorem declaredSeeds_apart (hgood : ∀ key skill, skills.lookup key = some skill → skill.Distinct) :
    (declaredSeeds skills).Pairwise Apart := by
  rw [declaredSeeds, pairwise_flatMap]
  refine ⟨fun e he => ?_, ?_⟩
  · have hdistinct := hgood e.1 e.2 (mem_entries_iff.mp he)
    rw [LoadedSkill.Distinct, Nodup, pairwise_map] at hdistinct
    rw [pairwise_map]
    refine hdistinct.imp fun {tool tool'} hne => ?_
    exact fun _ => hne
  · have hkeys : skills.entries.Pairwise fun e e' => e.1 ≠ e'.1 := pairwise_map.mp skills.nodupKeys
    refine hkeys.imp fun hne a ha b hb => ?_
    obtain ⟨-, -, rfl⟩ := mem_map.mp ha
    obtain ⟨-, -, rfl⟩ := mem_map.mp hb
    exact fun heq => absurd heq hne

theorem sortSeeds_perm (seeds : List EntrySeed) : (sortSeeds seeds).Perm seeds := perm_insertionSort _ _

theorem sortSeeds_sorted (seeds : List EntrySeed) :
    (sortSeeds seeds).Pairwise fun left right => left.sortKey ≤ right.sortKey := by
  have htotal : Std.Total fun left right : EntrySeed => left.sortKey ≤ right.sortKey :=
    ⟨fun a b => le_total a.sortKey b.sortKey⟩
  have htrans : IsTrans EntrySeed fun left right => left.sortKey ≤ right.sortKey :=
    ⟨fun _ _ _ => le_trans⟩
  exact pairwise_insertionSort _ seeds

/-- Seeds that are listed in another order are sorted into the same list. -/
theorem sortSeeds_congr (hperm : seeds.Perm done)
    (hinj : ∀ a ∈ seeds, ∀ b ∈ seeds, a.sortKey = b.sortKey → a = b) : sortSeeds seeds = sortSeeds done := by
  refine Perm.eq_of_pairwise (fun a b ha hb hab hba => ?_) (sortSeeds_sorted seeds)
    (sortSeeds_sorted done) (((sortSeeds_perm seeds).trans hperm).trans (sortSeeds_perm done).symm)
  refine hinj a ((sortSeeds_perm seeds).mem_iff.mp ha) b ?_ (le_antisymm hab hba)
  exact hperm.mem_iff.mpr ((sortSeeds_perm done).mem_iff.mp hb)

/-! ## The loop over the seeds -/

def LoadedSkill.unresolved (skill : LoadedSkill) : LoadedSkill := { skill with resolvedEntryNames := ∅ }

def Progress.resolvedName (p : Progress) (key localName : String) : Option String :=
  (p.skills.lookup key).bind fun skill => skill.resolvedEntryNames.lookup localName

/-- What one round does: the seed gets a name that was not in use. -/
theorem registerSeed_eq (seed : EntrySeed) (hskill : p.skills.lookup seed.skillStorageKey = some skill) :
    ∃ name names, entryNumbering.take p.names seed.baseName = some (name, names) ∧
      registerSeed p seed = some (.ok {
        registry := p.registry.insert name (seed.target name)
        skills := p.skills.insert seed.skillStorageKey
          { skill with resolvedEntryNames := skill.resolvedEntryNames.insert seed.localName name }
        names }) := by
  obtain ⟨⟨name, names⟩, htake⟩ :=
    Option.isSome_iff_exists.mp (entryNumbering.take_isSome p.names seed.baseName)
  refine ⟨name, names, htake, ?_⟩
  simp only [registerSeed, htake, Option.map_some, hskill, okOr, Except.ok_bind, Except.pure_eq_ok]

/-- The seeds of `done` are registered under names of their own that nobody reserved. -/
structure Registered (skills : AssocMap String LoadedSkill) (reserved : List String)
    (done : List EntrySeed) (p : Progress) : Prop where
  held : ∀ name ∈ reserved, name ∈ p.names.occupied
  used : ∀ name target, p.registry.lookup name = some target → name ∈ p.names.occupied ∧ name ∉ reserved
  target : ∀ name target, p.registry.lookup name = some target →
    ∃ seed ∈ done, target = seed.target name ∧ ∃ i, 1 ≤ i ∧ name = candidateName seed.baseName i
  named : ∀ seed ∈ done, ∃ name, p.registry.lookup name = some (seed.target name)
  inverse : ∀ key localName name, p.resolvedName key localName = some name ↔
    ∃ target, p.registry.lookup name = some target ∧ target.skillStorageKey = key ∧
      target.localName = localName
  kept : ∀ key, (p.skills.lookup key).map LoadedSkill.unresolved =
    (skills.lookup key).map LoadedSkill.unresolved

namespace Registered

theorem start : Registered skills reserved [] (.start skills reserved) where
  held name hmem := mem_toFinset.mpr hmem
  used name target h := nomatch h
  target name target h := nomatch h
  named seed h := absurd h not_mem_nil
  inverse key localName name := by
    refine ⟨fun h => ?_, fun ⟨target, h, _⟩ => nomatch h⟩
    rw [Progress.resolvedName, Progress.start, lookup_mapValues] at h
    cases hskill : skills.lookup key with
    | none | some skill =>
      rw [hskill] at h
      cases h
  kept key := by
    rw [Progress.start, lookup_mapValues, Option.map_map]
    rfl

/-- The skills that the loop changes are the loaded ones. -/
theorem lookup_skill (R : Registered skills reserved done p) (h : skills.lookup key = some skill) :
    ∃ skill', p.skills.lookup key = some skill' := by
  have hkept := R.kept key
  rw [h] at hkept
  obtain ⟨skill', hskill', -⟩ := Option.map_eq_some_iff.mp hkept
  exact ⟨skill', hskill'⟩

theorem registerSeed (R : Registered skills reserved done p)
    (hapart : ∀ other ∈ done, Apart other seed) (hskill : skills.lookup seed.skillStorageKey = some skill) :
    ∃ p' name, registerSeed p seed = some (.ok p') ∧
      entryNumbering.take p.names seed.baseName = some (name, p'.names) ∧
        p'.registry = p.registry.insert name (seed.target name) ∧
          Registered skills reserved (done ++ [seed]) p' := by
  obtain ⟨skill', hskill'⟩ := R.lookup_skill hskill
  obtain ⟨name, names, htake, hstep⟩ := registerSeed_eq seed hskill'
  obtain ⟨i, hi, hname, hfree, hoccupied, -, -⟩ := entryNumbering.take_eq_some htake
  have hfresh : ∀ name' target, p.registry.lookup name' = some target → name' ≠ name :=
    fun name' target h heq => hfree (heq ▸ (R.used name' target h).1)
  refine ⟨_, name, hstep, htake, rfl, ?_⟩
  have hregistry : ∀ name' target, (p.registry.insert name (seed.target name)).lookup name' = some target ↔
      name' = name ∧ target = seed.target name ∨ p.registry.lookup name' = some target := by
    intro name' target
    rw [SortedMap.lookup_insert]
    split
    next heq =>
      subst heq
      refine ⟨fun h => .inl ⟨rfl, (Option.some.inj h).symm⟩, ?_⟩
      rintro (⟨-, rfl⟩ | h)
      · rfl
      · exact absurd rfl (hfresh _ _ h)
    next hne => exact ⟨.inr, fun h => h.resolve_left fun h => hne h.1⟩
  constructor
  case held =>
    intro name' hmem
    rw [hoccupied]
    exact Finset.mem_insert_of_mem (R.held name' hmem)
  case used =>
    intro name' target h
    rw [hoccupied]
    rcases (hregistry name' target).mp h with ⟨rfl, rfl⟩ | h
    · exact ⟨Finset.mem_insert_self _ _, fun hmem => hfree (R.held _ hmem)⟩
    · exact (R.used name' target h).imp_left Finset.mem_insert_of_mem
  case target =>
    intro name' target h
    rcases (hregistry name' target).mp h with ⟨rfl, rfl⟩ | h
    · exact ⟨seed, mem_append_right _ mem_cons_self, rfl, i, by omega, hname⟩
    · obtain ⟨other, hmem, htarget⟩ := R.target name' target h
      exact ⟨other, mem_append_left _ hmem, htarget⟩
  case named =>
    intro other hmem
    rcases mem_append.mp hmem with hmem | hmem
    · obtain ⟨name', h⟩ := R.named other hmem
      exact ⟨name', (hregistry _ _).mpr (.inr h)⟩
    · cases mem_singleton.mp hmem
      exact ⟨name, (hregistry _ _).mpr (.inl ⟨rfl, rfl⟩)⟩
  case inverse =>
    intro key localName name'
    have hresolved : Progress.resolvedName ⟨p.registry.insert name (seed.target name),
        p.skills.insert seed.skillStorageKey { skill' with
          resolvedEntryNames := skill'.resolvedEntryNames.insert seed.localName name }, names⟩ key localName =
        if key = seed.skillStorageKey ∧ localName = seed.localName then some name
        else p.resolvedName key localName := by
      simp only [Progress.resolvedName, lookup_insert_eq]
      by_cases hkey : key = seed.skillStorageKey
      · rw [if_pos hkey, Option.bind_some, lookup_insert_eq, hkey, hskill', Option.bind_some]
        simp only [true_and]
      · rw [if_neg hkey, if_neg fun h => hkey h.1]
    rw [hresolved]
    split
    next heq =>
      obtain ⟨rfl, rfl⟩ := heq
      constructor
      · intro h
        cases h
        exact ⟨_, (hregistry _ _).mpr (.inl ⟨rfl, rfl⟩), rfl, rfl⟩
      · rintro ⟨target, h, hkey, hlocal⟩
        rcases (hregistry _ _).mp h with ⟨rfl, -⟩ | h
        · rfl
        · obtain ⟨other, hmem, rfl, -⟩ := R.target _ _ h
          exact absurd hlocal (hapart other hmem hkey)
    next hne =>
      rw [R.inverse]
      constructor
      · rintro ⟨target, h, htarget⟩
        exact ⟨target, (hregistry _ _).mpr (.inr h), htarget⟩
      · rintro ⟨target, h, hkey, hlocal⟩
        rcases (hregistry _ _).mp h with ⟨rfl, rfl⟩ | h
        · exact absurd ⟨hkey.symm, hlocal.symm⟩ hne
        · exact ⟨target, h, hkey, hlocal⟩
  case kept =>
    intro key
    rw [lookup_insert_eq, ← R.kept key]
    split
    next heq =>
      rw [heq, hskill']
      rfl
    · rfl

theorem registerSeeds (R : Registered skills reserved done p) (hapart : (done ++ seeds).Pairwise Apart)
    (hskill : ∀ seed ∈ seeds, seed.skillStorageKey ∈ skills) :
    ∃ p', registerSeeds p seeds = some (.ok p') ∧ Registered skills reserved (done ++ seeds) p' := by
  induction seeds generalizing done p with
  | nil =>
    rw [append_nil]
    exact ⟨p, rfl, R⟩
  | cons seed seeds ih =>
    obtain ⟨skill, hseed⟩ := mem_iff_lookup.mp (hskill seed mem_cons_self)
    have hdone : ∀ other ∈ done, Apart other seed := fun other hmem =>
      (pairwise_append.mp hapart).2.2 other hmem seed mem_cons_self
    obtain ⟨p₁, name, hstep, -, -, R₁⟩ := R.registerSeed hdone hseed
    have hsplit : done ++ seed :: seeds = done ++ [seed] ++ seeds := append_cons done seed seeds
    rw [hsplit] at hapart ⊢
    obtain ⟨p', hrun, R'⟩ := ih R₁ hapart fun other hmem => hskill other (mem_cons_of_mem _ hmem)
    refine ⟨p', ?_, R'⟩
    rw [EntryRegistry.registerSeeds, hstep]
    exact hrun

end Registered

/-! ## The result -/

/-- The registry and the skills' resolved names after a rebuild. -/
structure WellFormed (skills : AssocMap String LoadedSkill) (reserved : List String) (p : Progress) :
    Prop where
  declared : ∀ name target, p.registry.lookup name = some target → target.canonicalName = name ∧
    ∃ skill tool, Declares skills target.skillStorageKey skill tool ∧ target.localName = trim tool.name ∧
      target.skillId = skill.skillMeta.effectiveSkillId ∧
        (name = skill.skillMeta.toolBaseName tool ∨
          ∃ k, 2 ≤ k ∧ name = skill.skillMeta.toolBaseName tool ++ "-" ++ k.repr)
  registered : ∀ key skill tool, Declares skills key skill tool →
    ∃! name, ∃ target, p.registry.lookup name = some target ∧ target.skillStorageKey = key ∧
      target.localName = trim tool.name
  unreserved : ∀ name target, p.registry.lookup name = some target → name ∉ reserved
  inverse : ∀ key localName name, p.resolvedName key localName = some name ↔
    ∃ target, p.registry.lookup name = some target ∧ target.skillStorageKey = key ∧
      target.localName = localName
  kept : ∀ key, (p.skills.lookup key).map LoadedSkill.unresolved =
    (skills.lookup key).map LoadedSkill.unresolved

theorem Registered.wellFormed (R : Registered skills reserved (sortSeeds (declaredSeeds skills)) p) :
    WellFormed skills reserved p where
  declared name target h := by
    obtain ⟨seed, hmem, rfl, i, hi, hname⟩ := R.target name target h
    obtain ⟨key, skill, tool, hdeclares, rfl⟩ :=
      mem_declaredSeeds.mp ((sortSeeds_perm _).mem_iff.mp hmem)
    refine ⟨rfl, skill, tool, hdeclares, rfl, rfl, ?_⟩
    rcases Nat.eq_or_lt_of_le hi with rfl | hi
    · exact .inl (hname.trans (if_pos rfl))
    · exact .inr ⟨i, hi, hname.trans (if_neg (by omega))⟩
  registered key skill tool hdeclares := by
    have hmem : seedOf key skill tool ∈ sortSeeds (declaredSeeds skills) :=
      (sortSeeds_perm _).mem_iff.mpr (mem_declaredSeeds.mpr ⟨key, skill, tool, hdeclares, rfl⟩)
    obtain ⟨name, hname⟩ := R.named _ hmem
    refine ⟨name, ⟨_, hname, rfl, rfl⟩, fun name' h' => ?_⟩
    have hresolved := (R.inverse key (trim tool.name) name).mpr ⟨_, hname, rfl, rfl⟩
    rw [(R.inverse key (trim tool.name) name').mpr h'] at hresolved
    exact Option.some.inj hresolved
  unreserved name target h := (R.used name target h).2
  inverse := R.inverse
  kept := R.kept

/-! ## The order of traversal -/

structure Alike (p q : Progress) : Prop where
  registry : p.registry = q.registry
  names : p.names = q.names
  skills : ∀ key, p.skills.lookup key = q.skills.lookup key

theorem Alike.registerSeeds (A : Alike p q) (h : registerSeeds p seeds = some (.ok p')) :
    ∃ q', registerSeeds q seeds = some (.ok q') ∧ Alike p' q' := by
  induction seeds generalizing p q with
  | nil =>
    cases h
    exact ⟨q, rfl, A⟩
  | cons seed seeds ih =>
    rw [EntryRegistry.registerSeeds] at h
    split at h
    next p₁ hstep =>
      cases hskill : p.skills.lookup seed.skillStorageKey with
      | none =>
        obtain ⟨_, htake⟩ := Option.isSome_iff_exists.mp (entryNumbering.take_isSome p.names seed.baseName)
        simp only [registerSeed, htake, Option.map_some, hskill, okOr] at hstep
        cases hstep
      | some skill =>
        obtain ⟨name, names, htake, hp⟩ := registerSeed_eq seed hskill
        obtain ⟨name', names', htake', hq⟩ :=
          registerSeed_eq (p := q) seed ((A.skills _).symm.trans hskill)
        rw [← A.names, htake] at htake'
        cases htake'
        cases hp.symm.trans hstep
        rw [EntryRegistry.registerSeeds, hq]
        refine ih ?_ h
        refine ⟨?_, rfl, fun key => ?_⟩
        · rw [A.registry]
        · rw [lookup_insert_eq, lookup_insert_eq, A.skills]
    next hother => exact absurd h (hother p')

/-- The loader knows the name of every directory, so every entry gets its seed. -/
theorem LoadedSkills.rebuild_eq (L : LoadedSkills) (hsame : ∀ key, skills.lookup key = L.skills.lookup key)
    (hdistinct : ∀ key skill, L.skills.lookup key = some skill → skill.Distinct) :
    rebuildEntryRegistry skills reserved =
      registerSeeds (.start skills reserved) (sortSeeds (declaredSeeds skills)) := by
  rw [rebuildEntryRegistry, collectSeeds_eq]
  intro key skill hskill
  rw [hsame] at hskill
  obtain ⟨name, hname, -⟩ := Option.map_eq_some_iff.mp (L.loaded key skill hskill).directory
  exact ⟨Option.isSome_iff_exists.mpr ⟨name, hname⟩, hdistinct key skill hskill⟩

theorem sortedSeeds_apart (hdistinct : ∀ key skill, skills.lookup key = some skill → skill.Distinct) :
    (sortSeeds (declaredSeeds skills)).Pairwise Apart :=
  (sortSeeds_perm _).symm.pairwise (declaredSeeds_apart hdistinct) fun h => h.symm

theorem LoadedSkills.sortKey_inj (L : LoadedSkills)
    (hdistinct : ∀ key skill, L.skills.lookup key = some skill → skill.Distinct)
    (ha : a ∈ declaredSeeds L.skills) (hb : b ∈ declaredSeeds L.skills) (h : a.sortKey = b.sortKey) :
    a = b := by
  have hkey : ∀ seed ∈ declaredSeeds L.skills, seed.skillStorageKey = seed.skillId := by
    intro seed hmem
    obtain ⟨key, skill, tool, ⟨hskill, -⟩, rfl⟩ := mem_declaredSeeds.mp hmem
    exact (L.loaded key skill hskill).storageKey.symm
  have htexts : a.skillId = b.skillId ∧ a.localName = b.localName := by
    simp only [EntrySeed.sortKey, toLex_inj, Prod.mk.injEq] at h
    exact ⟨h.2.2.1, h.2.2.2.1⟩
  by_contra hne
  have hsymm : Std.Symm Apart := ⟨fun _ _ => Apart.symm⟩
  refine (declaredSeeds_apart hdistinct).forall ha hb hne ?_ htexts.2
  rw [hkey a ha, hkey b hb, htexts.1]

/-- A rebuild over loaded skills ends without an error. -/
theorem LoadedSkills.rebuild_formed (L : LoadedSkills)
    (hdistinct : ∀ key skill, L.skills.lookup key = some skill → skill.Distinct) :
    ∃ p, rebuildEntryRegistry L.skills reserved = some (.ok p) ∧ WellFormed L.skills reserved p := by
  have hskill : ∀ seed ∈ sortSeeds (declaredSeeds L.skills), seed.skillStorageKey ∈ L.skills := by
    intro seed hmem
    obtain ⟨key, skill, tool, ⟨hskill, -⟩, rfl⟩ :=
      mem_declaredSeeds.mp ((sortSeeds_perm _).mem_iff.mp hmem)
    exact mem_of_lookup hskill
  have R₀ : Registered L.skills reserved [] (.start L.skills reserved) := .start
  obtain ⟨p, hrun, R⟩ : ∃ p, registerSeeds (.start L.skills reserved) (sortSeeds (declaredSeeds L.skills)) =
      some (.ok p) ∧ Registered L.skills reserved (sortSeeds (declaredSeeds L.skills)) p :=
    R₀.registerSeeds (sortedSeeds_apart hdistinct) hskill
  refine ⟨p, ?_, R.wellFormed⟩
  rw [L.rebuild_eq (fun _ => rfl) hdistinct]
  exact hrun

/-- **The entry registry.** A rebuild over loaded skills ends with a registry in which the declared entries
and the canonical names correspond one to one, and the skills may be traversed in any order. -/
theorem rebuild_wellFormed (L : LoadedSkills) (reserved : List String)
    (hdistinct : ∀ key skill, L.skills.lookup key = some skill → skill.Distinct) :
    ∃ p, rebuildEntryRegistry L.skills reserved = some (.ok p) ∧ WellFormed L.skills reserved p ∧
      ∀ skills' : AssocMap String LoadedSkill, skills'.entries.Perm L.skills.entries →
        ∃ p', rebuildEntryRegistry skills' reserved = some (.ok p') ∧ p'.registry = p.registry ∧
          ∀ key, p'.skills.lookup key = p.skills.lookup key := by
  obtain ⟨p, hrun, hformed⟩ := L.rebuild_formed hdistinct
  refine ⟨p, hrun, hformed, fun skills' hperm => ?_⟩
  have hlookup : ∀ key, skills'.lookup key = L.skills.lookup key := fun key => perm_lookup hperm
  have hseeds : sortSeeds (declaredSeeds L.skills) = sortSeeds (declaredSeeds skills') :=
    sortSeeds_congr (hperm.symm.flatMap_right _) fun a ha b hb => L.sortKey_inj hdistinct ha hb
  have hstart : Alike (.start L.skills reserved) (.start skills' reserved) := by
    refine ⟨rfl, rfl, fun key => ?_⟩
    rw [Progress.start, Progress.start, lookup_mapValues, lookup_mapValues, hlookup]
  rw [L.rebuild_eq (fun _ => rfl) hdistinct] at hrun
  obtain ⟨p', hrun', A⟩ := hstart.registerSeeds hrun
  refine ⟨p', ?_, A.registry.symm, fun key => (A.skills key).symm⟩
  rw [L.rebuild_eq hlookup hdistinct, ← hseeds]
  exact hrun'

/-- A skill from the directory `name` with the given entries, each with a module of its name. -/
def loadedSkill (name : String) (entries : List String) : LoadedSkill :=
  ⟨⟨name, entries.map fun entry => ⟨entry, entry⟩⟩, some name, name, ∅⟩

/-- Two skills whose entries have one base name. -/
def collidingSkills : LoadedSkills where
  skills := ((∅ : AssocMap String LoadedSkill).insert "foo-bar" (loadedSkill "foo-bar" ["baz"])).insert "foo"
    (loadedSkill "foo" ["bar-baz"])
  loaded := forall_insert (forall_insert (fun _ _ h => nomatch h) ⟨by decide, by decide⟩)
    ⟨by decide, by decide⟩

theorem rebuild_wellFormed_colliding : ∃ p, rebuildEntryRegistry collidingSkills.skills ["foo-bar-baz"] =
    some (.ok p) ∧ WellFormed collidingSkills.skills ["foo-bar-baz"] p := by
  have hdistinct : ∀ key skill, collidingSkills.skills.lookup key = some skill → skill.Distinct :=
    forall_insert (forall_insert (fun _ _ h => nomatch h) (nodup_singleton _))
      (nodup_singleton _)
  obtain ⟨p, hrun, hformed, -⟩ := rebuild_wellFormed collidingSkills ["foo-bar-baz"] hdistinct
  exact ⟨p, hrun, hformed⟩

end LuaSkills.EntryRegistry
