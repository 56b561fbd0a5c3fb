import Mathlib.Data.List.Infix

/-!
# A tree of files

The entries of a file system by path. Every proper ancestor of an entry is a directory or a link to
one, so that removing a directory removes all that lies below it.
-/

/-- What a path holds. A link tells whether what it leads to is a directory, when it leads anywhere. -/
inductive FileEntry where
  | dir
  | file (executable : Bool)
  | link (directory : Option Bool)
deriving DecidableEq

/-- `Metadata::is_dir`, links followed. -/
def FileEntry.isDir : FileEntry → Bool
  | .dir => true
  | .file _ => false
  | .link directory => directory = some true

namespace List
variable {K V : Type*} [BEq K] [LawfulBEq K] {k : K}

theorem lookup_filter_key (l : List (K × V)) (f : K → Bool) :
    (l.filter fun e => f e.1).lookup k = if f k then l.lookup k else none := by
  induction l with
  | nil => simp
  | cons e l ih =>
    obtain ⟨k', v⟩ := e
    rcases eq_or_ne k k' with rfl | hne
    · cases hf : f k with
      | false => simpa [hf] using ih
      | true => simp [hf]
    · have hbeq : (k == k') = false := by simpa using hne
      cases hf : f k' with
      | false | true => simpa [hf, List.lookup_cons, hbeq] using ih

end List

@[ext] structure FileTree where
  entries : List (List String × FileEntry)
  closed : ∀ p q, (entries.lookup p).isSome → q <+: p → q ≠ p → (entries.lookup q).any FileEntry.isDir

namespace FileTree
variable {t t' : FileTree} {p q : List String}

instance : DecidableEq FileTree := fun a b =>
  decidable_of_iff (a.entries = b.entries) FileTree.ext_iff.symm

def lookup (t : FileTree) (p : List String) : Option FileEntry := t.entries.lookup p

/-- A path below another one has it as a directory. -/
theorem isDir_of_below (h : (t.lookup p).isSome) (hq : q <+: p) (hne : q ≠ p) :
    ∃ e, t.lookup q = some e ∧ e.isDir := by
  have hany := t.closed p q h hq hne
  unfold lookup
  cases hlookup : t.entries.lookup q with
  | none => simp [hlookup] at hany
  | some e => exact ⟨e, rfl, by simpa [hlookup] using hany⟩

def empty : FileTree where
  entries := []
  closed := by simp

def subdirectories (t : FileTree) (p : List String) : List String :=
  t.entries.filterMap fun e =>
    match e.1.getLast? with
    | some name => if e.1.dropLast = p && e.2 = .dir then some name else none
    | none => none

/-- The entry `e` at a path whose parents are directories and that has nothing below it. -/
def put (t : FileTree) (p : List String) (e : FileEntry)
    (hparents : ∀ q, q <+: p → q ≠ p → (t.lookup q).any FileEntry.isDir)
    (hleaf : (t.lookup p).any FileEntry.isDir → e.isDir) : FileTree where
  entries := (p, e) :: t.entries.filter fun e => e.1 ≠ p
  closed := by
    have hother : ∀ q, q ≠ p →
        ((p, e) :: t.entries.filter fun e => e.1 ≠ p).lookup q = t.lookup q := by
      intro q hne
      have hbeq : (q == p) = false := by simpa using hne
      simp only [List.lookup_cons, hbeq]
      rw [List.lookup_filter_key t.entries fun k => decide (k ≠ p)]
      simp [hne, lookup]
    intro q r hq hr hne
    rcases eq_or_ne q p with rfl | hqp
    · rw [hother r hne]
      exact hparents r hr hne
    · rw [hother q hqp] at hq
      rcases eq_or_ne r p with rfl | hrp
      · simpa [List.lookup_cons] using hleaf (t.closed q r hq hr hne)
      · rw [hother r hrp]
        exact t.closed q r hq hr hne

instance decidableParents (t : FileTree) (p : List String) :
    Decidable (∀ q, q <+: p → q ≠ p → (t.lookup q).any FileEntry.isDir) :=
  decidable_of_iff (∀ q ∈ p.inits, q ≠ p → (t.lookup q).any FileEntry.isDir) (by simp)

/-- `fs::create_dir` unless the directory is there; a path that is no directory refuses it. -/
def createDir (t : FileTree) (p : List String) : Option FileTree :=
  match t.lookup p with
  | some e => if e.isDir then some t else none
  | none =>
    if hparents : ∀ q, q <+: p → q ≠ p → (t.lookup q).any FileEntry.isDir then
      some (t.put p .dir hparents fun _ => rfl)
    else none

def createDirsFrom (t : FileTree) (p : List String) : List String → Option FileTree
  | [] => t.createDir p
  | name :: rest => (t.createDir p).bind fun t => createDirsFrom t (p ++ [name]) rest

/-- `fs::create_dir_all`. -/
def createDirAll (t : FileTree) (p : List String) : Option FileTree := t.createDirsFrom [] p

/-- A regular file over a regular file or over nothing. -/
def writeFile (t : FileTree) (p : List String) (executable : Bool) : Option FileTree :=
  if hparents : ∀ q, q <+: p → q ≠ p → (t.lookup q).any FileEntry.isDir then
    if hleaf : (t.lookup p).any FileEntry.isDir = false then
      some (t.put p (.file executable) hparents fun h => by simp [hleaf] at h)
    else none
  else none

/-- `fs::remove_dir_all` of a path that is a directory. -/
def removeDirAll (t : FileTree) (p : List String) : FileTree where
  entries := t.entries.filter fun e => !p.isPrefixOf e.1
  closed := by
    intro q r hq hr hne
    rw [List.lookup_filter_key t.entries fun k => !p.isPrefixOf k] at hq
    split at hq
    next hq' =>
      have hr' : (!p.isPrefixOf r) = true := by
        simp only [Bool.not_eq_true', ← Bool.not_eq_true, List.isPrefixOf_iff_prefix] at hq' ⊢
        exact fun h => hq' (h.trans hr)
      rw [List.lookup_filter_key t.entries fun k => !p.isPrefixOf k, if_pos hr']
      exact t.closed q r hq hr hne
    next => simp at hq

theorem lookup_removeDirAll :
    (t.removeDirAll p).lookup q = if p <+: q then none else t.lookup q := by
  unfold removeDirAll lookup
  rw [List.lookup_filter_key t.entries fun k => !p.isPrefixOf k]
  by_cases h : p <+: q
  · rw [if_pos h, List.isPrefixOf_iff_prefix.mpr h]
    rfl
  · rw [if_neg h, if_pos]
    rw [Bool.not_eq_true', ← Bool.not_eq_true]
    exact fun hprefix => h (List.isPrefixOf_iff_prefix.mp hprefix)

/-! ## What the operations change -/

/-- `fs::remove_dir_all` that stopped: of the entries below the directory those that `kept` names are
left, with the directories above them. -/
def removeSome (t : FileTree) (p : List String) (kept : List String → Bool) : FileTree where
  entries := t.entries.filter fun e =>
    !p.isPrefixOf e.1 || t.entries.any fun below => e.1.isPrefixOf below.1 && kept below.1
  closed := by
    intro q r hq hr hne
    rw [List.lookup_filter_key t.entries fun k =>
      !p.isPrefixOf k || t.entries.any fun below => k.isPrefixOf below.1 && kept below.1] at hq ⊢
    split at hq
    next hq' =>
      have hr' : (!p.isPrefixOf r ||
          t.entries.any fun below => r.isPrefixOf below.1 && kept below.1) = true := by
        simp only [Bool.or_eq_true, Bool.not_eq_true', ← Bool.not_eq_true, List.isPrefixOf_iff_prefix,
          List.any_eq_true, Bool.and_eq_true] at hq' ⊢
        rcases hq' with hq' | ⟨below, hmem, hbelow, hkept⟩
        · exact .inl fun h => hq' (h.trans hr)
        · exact .inr ⟨below, hmem, hr.trans hbelow, hkept⟩
      rw [if_pos hr']
      exact t.closed q r hq hr hne
    next => simp at hq

theorem lookup_put {e : FileEntry}
    (hparents : ∀ q, q <+: p → q ≠ p → (t.lookup q).any FileEntry.isDir)
    (hleaf : (t.lookup p).any FileEntry.isDir → e.isDir) :
    (t.put p e hparents hleaf).lookup q = if q = p then some e else t.lookup q := by
  unfold put lookup
  rcases eq_or_ne q p with rfl | hne
  · simp
  · have hbeq : (q == p) = false := by simpa using hne
    rw [List.lookup_cons, hbeq, List.lookup_filter_key t.entries fun k => decide (k ≠ p)]
    simp [hne]

theorem lookup_createDir (h : t.createDir p = some t') :
    t'.lookup q = if q = p ∧ t.lookup p = none then some .dir else t.lookup q := by
  unfold createDir at h
  cases hlookup : t.lookup p with
  | some e =>
    simp only [hlookup, Option.ite_none_right_eq_some, Option.some.injEq] at h
    simp [h.2]
  | none =>
    simp only [hlookup] at h
    split at h
    · cases h
      refine Eq.trans (lookup_put _ _) ?_
      simp
    · cases h

theorem isDir_createDir (h : t.createDir p = some t') : (t'.lookup p).any FileEntry.isDir := by
  rw [lookup_createDir h]
  split
  · rfl
  next hnot =>
    unfold createDir at h
    cases hlookup : t.lookup p with
    | none => exact absurd ⟨rfl, hlookup⟩ hnot
    | some e =>
      simp only [hlookup, Option.ite_none_right_eq_some] at h
      exact h.1

theorem createDir_isSome (hparents : ∀ q, q <+: p → q ≠ p → (t.lookup q).any FileEntry.isDir)
    (hp : t.lookup p = none ∨ (t.lookup p).any FileEntry.isDir) : (t.createDir p).isSome := by
  unfold createDir
  cases hlookup : t.lookup p with
  | none =>
    simp only [dif_pos hparents]
    rfl
  | some e =>
    rw [hlookup] at hp
    have he : e.isDir = true := by simpa using hp
    simp only [if_pos he]
    rfl

theorem lookup_createDirsFrom (h : t.createDirsFrom p rest = some t') : t'.lookup q = t.lookup q ∨
      t.lookup q = none ∧ t'.lookup q = some .dir ∧ q <+: p ++ rest := by
  induction rest generalizing t p with
  | nil =>
    have hq := lookup_createDir (q := q) h
    split at hq
    next hnew =>
      obtain ⟨rfl, hnone⟩ := hnew
      exact .inr ⟨hnone, hq, by simp⟩
    next => exact .inl hq
  | cons name rest ih =>
    obtain ⟨t₁, h₁, hrest⟩ := Option.bind_eq_some_iff.1 h
    have hq := lookup_createDir (q := q) h₁
    have happend : p ++ [name] ++ rest = p ++ name :: rest := by simp
    split at hq
    next hnew =>
      obtain ⟨rfl, hnone⟩ := hnew
      refine .inr ⟨hnone, ?_, List.prefix_append _ _⟩
      rcases ih hrest with hsame | ⟨hnone', -⟩
      · rw [hsame, hq]
      · rw [hq] at hnone'
        cases hnone'
    next =>
      rw [← hq, ← happend]
      exact ih hrest

theorem isDir_createDirsFrom (h : t.createDirsFrom p rest = some t') :
    (t'.lookup (p ++ rest)).any FileEntry.isDir := by
  induction rest generalizing t p with
  | nil =>
    rw [List.append_nil]
    exact isDir_createDir h
  | cons name rest ih =>
    obtain ⟨t₁, -, hrest⟩ := Option.bind_eq_some_iff.1 h
    rw [show p ++ name :: rest = p ++ [name] ++ rest by simp]
    exact ih hrest

theorem createDirsFrom_isSome (hparents : ∀ q, q <+: p → q ≠ p → (t.lookup q).any FileEntry.isDir)
    (hfree : ∀ q, p <+: q → q <+: p ++ rest → t.lookup q = none ∨ (t.lookup q).any FileEntry.isDir) :
    (t.createDirsFrom p rest).isSome := by
  induction rest generalizing t p with
  | nil => exact createDir_isSome hparents (hfree p (List.prefix_refl p) (by simp))
  | cons name rest ih =>
    obtain ⟨t₁, h₁⟩ := Option.isSome_iff_exists.1
      (createDir_isSome hparents (hfree p (List.prefix_refl p) (List.prefix_append _ _)))
    have happend : p ++ [name] ++ rest = p ++ name :: rest := by simp
    have hdir : ∀ {q}, (t.lookup q).any FileEntry.isDir → (t₁.lookup q).any FileEntry.isDir := by
      intro q hq
      rw [lookup_createDir h₁]
      split
      · rfl
      · exact hq
    rw [createDirsFrom, h₁]
    apply ih
    · intro q hq hne
      rcases List.prefix_concat_iff.1 hq with rfl | hq
      · exact absurd rfl hne
      · rcases eq_or_ne q p with rfl | hqp
        · exact isDir_createDir h₁
        · exact hdir (hparents q hq hqp)
    · intro q hpq hq
      rw [happend] at hq
      rcases hfree q ((List.prefix_append p [name]).trans hpq) hq with hnone | hsome
      · left
        rw [lookup_createDir h₁, if_neg, hnone]
        rintro ⟨rfl, -⟩
        exact absurd hpq.length_le (by simp)
      · exact .inr (hdir hsome)

theorem lookup_createDirAll (h : t.createDirAll p = some t') :
    t'.lookup q = t.lookup q ∨ t.lookup q = none ∧ t'.lookup q = some .dir ∧ q <+: p :=
  lookup_createDirsFrom h

/-- After `create_dir_all` the path and all above it are directories. -/
theorem isDir_createDirAll (h : t.createDirAll p = some t') (hq : q <+: p) :
    (t'.lookup q).any FileEntry.isDir := by
  have hp : (t'.lookup p).any FileEntry.isDir := isDir_createDirsFrom h
  rcases eq_or_ne q p with rfl | hne
  · exact hp
  · have hsome : (t'.lookup p).isSome := by
      cases hlookup : t'.lookup p with
      | none => simp [hlookup] at hp
      | some e => rfl
    exact t'.closed p q hsome hq hne

theorem createDirAll_isSome
    (hfree : ∀ q, q <+: p → t.lookup q = none ∨ (t.lookup q).any FileEntry.isDir) :
    (t.createDirAll p).isSome := by
  apply createDirsFrom_isSome
  · intro q hq hne
    exact absurd (List.prefix_nil.1 hq) hne
  · intro q _ hq
    exact hfree q hq

theorem lookup_writeFile (h : t.writeFile p executable = some t') :
    t'.lookup q = if q = p then some (.file executable) else t.lookup q := by
  unfold writeFile at h
  split at h
  · split at h
    · cases h
      exact lookup_put _ _
    · cases h
  · cases h

theorem writeFile_isSome (hparents : ∀ q, q <+: p → q ≠ p → (t.lookup q).any FileEntry.isDir)
    (hleaf : (t.lookup p).any FileEntry.isDir = false) : (t.writeFile p executable).isSome := by
  rw [writeFile, dif_pos hparents, dif_pos hleaf]
  rfl

end FileTree
