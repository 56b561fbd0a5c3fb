import Mathlib.Data.List.Sort
import Mathlib.Data.Prod.Lex
import Mathlib.Data.String.Basic
import LuaSkills.Data.NumberedNames
import LuaSkills.Data.Numerals
import LuaSkills.Data.SortedMap
import LuaSkills.Embedded.Identity
import LuaSkills.SkillConfig.Document

/-!
# The entry registry

Every entry of every loaded skill is published under a canonical name: `skill-entry`, with a number behind
it where that name is taken. The entries are sorted by their texts before names are given out, so the hash
map of skills may be traversed in any order.
-/

namespace LuaSkills.EntryRegistry

open List

open SkillConfig (trim)

structure SkillToolMeta where
  name : String
  luaModule : String
deriving DecidableEq

/-- The part of a manifest that names its entries. -/
structure SkillMeta where
  resolvedSkillId : String
  entries : List SkillToolMeta
deriving DecidableEq

def SkillMeta.effectiveSkillId (m : SkillMeta) : String := trim m.resolvedSkillId

def SkillMeta.toolBaseName (m : SkillMeta) (tool : SkillToolMeta) : String :=
  m.effectiveSkillId ++ "-" ++ trim tool.name

/-- A loaded skill; of its directory the registry reads the basename, if that is UTF-8, and shows the
rendered path in an error. -/
structure LoadedSkill where
  skillMeta : SkillMeta
  dirName : Option String
  dirText : String
  resolvedEntryNames : AssocMap String String
deriving DecidableEq

structure ResolvedEntryTarget where
  canonicalName : String
  skillStorageKey : String
  skillId : String
  localName : String
deriving DecidableEq

structure EntrySeed where
  skillStorageKey : String
  skillId : String
  localName : String
  baseName : String
  directoryName : String
  moduleName : String
deriving DecidableEq

/-- The five texts by which seeds are compared. -/
def EntrySeed.sortKey (s : EntrySeed) : String ×ₗ String ×ₗ String ×ₗ String ×ₗ String :=
  toLex (s.baseName, toLex (s.directoryName, toLex (s.skillId, toLex (s.localName, s.moduleName))))

def EntrySeed.target (s : EntrySeed) (canonicalName : String) : ResolvedEntryTarget :=
  ⟨canonicalName, s.skillStorageKey, s.skillId, s.localName⟩

/-! ## Candidate names -/

/-- The name that the suffix loop tries with one duplicate index. -/
def candidateName (baseName : String) (duplicateIndex : ℕ) : String :=
  if duplicateIndex = 1 then baseName else baseName ++ "-" ++ duplicateIndex.repr

theorem candidateName_of_two_le (hi : 2 ≤ i) :
    (candidateName b i).toList = b.toList ++ '-' :: i.repr.toList := by
  rw [candidateName, if_neg (by omega), String.toList_append, String.toList_append, append_assoc]
  rfl

theorem hyphen_notMem_repr (i : ℕ) : '-' ∉ i.repr.toList := fun h =>
  absurd (isDigit_of_mem_repr h) (by decide)

/-- The last separator splits a text. -/
theorem append_cons_inj_left {c : Char} {first first' last last' : List Char} (hlast : c ∉ last)
    (hlast' : c ∉ last') (h : first ++ c :: last = first' ++ c :: last') :
    first = first' ∧ last = last' := by
  rcases append_eq_append_iff.mp h with ⟨rest, rfl, hrest⟩ | ⟨rest, rfl, hrest⟩
  · cases rest with
    | nil => exact ⟨(append_nil _).symm, (cons.inj hrest).2⟩
    | cons d rest =>
      obtain ⟨-, rfl⟩ := cons.inj hrest
      exact absurd (mem_append_right _ mem_cons_self) hlast
  · cases rest with
    | nil => exact ⟨append_nil _, (cons.inj hrest).2.symm⟩
    | cons d rest =>
      obtain ⟨-, rfl⟩ := cons.inj hrest
      exact absurd (mem_append_right _ mem_cons_self) hlast'

theorem candidateName_inj (hi : 2 ≤ i) (hi' : 2 ≤ i') (h : candidateName b i = candidateName b' i') :
    b = b' ∧ i = i' := by
  have htext := congrArg String.toList h
  rw [candidateName_of_two_le hi, candidateName_of_two_le hi'] at htext
  obtain ⟨hbase, hindex⟩ :=
    append_cons_inj_left (hyphen_notMem_repr i) (hyphen_notMem_repr i') htext
  exact ⟨String.toList_injective hbase, Nat.decimal_injective (String.toList_injective hindex)⟩

/-- A base is before its numbered variants. -/
theorem lt_candidateName (hi : 2 ≤ i) : b < candidateName b i := by
  rw [String.lt_iff_toList_lt, candidateName_of_two_le hi]
  induction b.toList with
  | nil => exact nil_lt_cons _ _
  | cons c cs ih => exact cons_lt_cons_iff.mpr (.inr ⟨rfl, ih⟩)

def entryNumbering : NameNumbering String where
  name := candidateName
  size b := b.toList.length
  name_one b := if_pos rfl
  name_inj := candidateName_inj
  size_lt hi := by
    rw [candidateName_of_two_le hi, length_append, length_cons]
    omega

/-! ## Rebuilding the registry -/

/-- The seed of one entry, behind the seeds collected before. -/
def collectSeed (key : String) (skill : LoadedSkill) (seeds : List EntrySeed) (tool : SkillToolMeta) :
    Except String (List EntrySeed) := do
  let localName := trim tool.name
  refuseIf (seeds.any fun seed => seed.skillStorageKey = key && seed.localName = localName)
    ("skill '" ++ skill.skillMeta.effectiveSkillId ++ "' declares duplicate local entry name '" ++
      localName ++ "'")
  let directoryName ← okOr skill.dirName ("loaded skill '" ++ skill.skillMeta.effectiveSkillId ++
    "' has invalid directory name: " ++ skill.dirText)
  return seeds ++ [⟨key, skill.skillMeta.effectiveSkillId, localName, skill.skillMeta.toolBaseName tool,
    directoryName, tool.luaModule⟩]

def collectSeeds (skills : AssocMap String LoadedSkill) : Except String (List EntrySeed) :=
  skills.entries.foldlM
    (fun seeds e => e.2.skillMeta.entries.foldlM (collectSeed e.1 e.2) seeds) []

structure Progress where
  registry : SortedMap String ResolvedEntryTarget
  skills : AssocMap String LoadedSkill
  names : NameBooks String

/-- One round of that loop. It has no value where the suffix loop would never end. -/
def registerSeed (p : Progress) (seed : EntrySeed) : Option (Except String Progress) :=
  (entryNumbering.take p.names seed.baseName).map fun (canonicalName, names) => do
    let skill ← okOr (p.skills.lookup seed.skillStorageKey) ("internal error: missing loaded skill '" ++
      seed.skillStorageKey ++ "' while building entry registry")
    return {
      registry := p.registry.insert canonicalName (seed.target canonicalName)
      skills := p.skills.insert seed.skillStorageKey
        { skill with resolvedEntryNames := skill.resolvedEntryNames.insert seed.localName canonicalName }
      names }

def registerSeeds (p : Progress) : List EntrySeed → Option (Except String Progress)
  | [] => some (.ok p)
  | seed :: seeds =>
    match registerSeed p seed with
    | some (.ok p') => registerSeeds p' seeds
    | other => other

def sortSeeds (seeds : List EntrySeed) : List EntrySeed :=
  seeds.insertionSort fun left right => left.sortKey ≤ right.sortKey

/-- The skills without resolved names, and the reserved names in use. -/
def Progress.start (skills : AssocMap String LoadedSkill) (reserved : List String) : Progress where
  registry := ∅
  skills := skills.mapValues fun _ skill => { skill with resolvedEntryNames := ∅ }
  names := ⟨∅, reserved.toFinset⟩

def rebuildEntryRegistry (skills : AssocMap String LoadedSkill) (reserved : List String) :
    Option (Except String Progress) :=
  match collectSeeds skills with
  | .ok seeds => registerSeeds (.start skills reserved) (sortSeeds seeds)
  | .error error => some (.error error)

/-! ## Loaded skills -/

/-- What the loader inserts: a skill under its identifier, which is its directory's name. -/
structure LoadedSkill.Loaded (key : String) (skill : LoadedSkill) : Prop where
  storageKey : skill.skillMeta.effectiveSkillId = key
  directory : skill.dirName.map trim = some key

/-- The map of skills that the loader built. -/
structure LoadedSkills where
  skills : AssocMap String LoadedSkill
  loaded : ∀ key skill, skills.lookup key = some skill → skill.Loaded key

/-- The skill's entries have different local names. -/
def LoadedSkill.Distinct (skill : LoadedSkill) : Prop :=
  (skill.skillMeta.entries.map fun tool => trim tool.name).Nodup

end LuaSkills.EntryRegistry
