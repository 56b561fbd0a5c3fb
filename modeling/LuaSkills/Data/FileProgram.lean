import Mathlib.Logic.Function.Basic
import LuaSkills.Data.FileTree
import LuaSkills.Data.Triples

/-!
# Programs over stored files whose calls can fail

A `FileProg` makes calls of the file system one after the other. Each call takes the environment's
answer: it takes place, or it fails and leaves a part of its work behind. The rules for the calls bound
what a program has written when it ends and what it has touched when it stops, and say which calls take
place when nothing fails.
-/

/-- A tree of files with the bytes of each. -/
structure FileStore where
  tree : FileTree
  contents : List String → List UInt8

/-- A failed call with what it did. A creation of directories made the first `done` of them, a write
left the first `done` bytes, and a removal left the entries that `kept` names. -/
structure CallFault where
  error : String
  done : Option ℕ
  kept : List String → Bool

/-- A store with the answers to the calls to come; calls beyond them do not fail by themselves. -/
structure FileWorld where
  store : FileStore
  faults : List (Option CallFault)

abbrev FileProg := EStateM String FileWorld

namespace FileStore

def IsFile (s : FileStore) (p : List String) : Prop := ∃ mode, s.tree.lookup p = some (.file mode)

def createDirAll (s : FileStore) (p : List String) : Option FileStore :=
  (s.tree.createDirAll p).map fun tree => { s with tree }

/-- A regular file with its bytes; no link is followed. -/
def put (s : FileStore) (p : List String) (executable : Bool) (bytes : List UInt8) : Option FileStore :=
  match s.tree.lookup p with
  | some (.link _) => none
  | _ => (s.tree.writeFile p executable).map fun tree => ⟨tree, Function.update s.contents p bytes⟩

/-- `File::create`: a file that was there keeps its mode. -/
def create (s : FileStore) (p : List String) : Option FileStore :=
  s.put p (s.tree.lookup p = some (.file true)) []

def fill (s : FileStore) (p : List String) (bytes : List UInt8) : FileStore :=
  { s with contents := Function.update s.contents p bytes }

/-- `fs::copy`, which copies the mode as well. -/
def copy (s : FileStore) (source target : List String) : Option FileStore :=
  match s.tree.lookup source with
  | some (.file mode) => s.put target mode (s.contents source)
  | _ => none

/-- `fs::set_permissions` to a mode with the executable bits. -/
def setExecutable (s : FileStore) (p : List String) : Option FileStore :=
  match s.tree.lookup p with
  | some (.file _) => s.put p true (s.contents p)
  | _ => none

def removeDirAll (s : FileStore) (p : List String) : FileStore :=
  { s with tree := s.tree.removeDirAll p }

def removeSome (s : FileStore) (p : List String) (kept : List String → Bool) : FileStore :=
  { s with tree := s.tree.removeSome p kept }

end FileStore

namespace FileProg

/-- A call of the file system: it does what `whole` says, or fails after `torn`. -/
def perform (describe : String → String) (whole : FileStore → Option FileStore)
    (torn : CallFault → FileStore → FileStore) : FileProg Unit := fun w =>
  match w.faults.head?.join with
  | some fault => .error (describe fault.error) ⟨torn fault w.store, w.faults.tail⟩
  | none =>
    match whole w.store with
    | some store => .ok () ⟨store, w.faults.tail⟩
    | none => .error (describe "refused by the file system") ⟨w.store, w.faults.tail⟩

/-- A call that only looks at the file system. -/
def probe (describe : String → String) : FileProg Unit := perform describe some fun _ s => s

def createDirAll (describe : String → String) (p : List String) : FileProg Unit :=
  perform describe (·.createDirAll p) fun fault s =>
    (fault.done.bind fun n => s.createDirAll (p.take n)).getD s

def create (describe : String → String) (p : List String) : FileProg Unit :=
  perform describe (·.create p) fun _ s => s

/-- `io::copy` into the file that was created at `p`. -/
def write (describe : String → String) (p : List String) (bytes : List UInt8) : FileProg Unit :=
  perform describe (fun s => some (s.fill p bytes)) fun fault s =>
    fault.done.elim s fun n => s.fill p (bytes.take n)

/-- `fs::copy` of a file that is not in the tree. -/
def copyIn (describe : String → String) (bytes : List UInt8) (executable : Bool) (p : List String) :
    FileProg Unit :=
  perform describe (·.put p executable bytes) fun fault s =>
    (fault.done.bind fun n => s.put p executable (bytes.take n)).getD s

def copy (describe : String → String) (source target : List String) : FileProg Unit :=
  perform describe (·.copy source target) fun fault s =>
    (fault.done.bind fun n =>
      (s.copy source target).map (·.fill target ((s.contents source).take n))).getD s

def setExecutable (describe : String → String) (p : List String) : FileProg Unit :=
  perform describe (·.setExecutable p) fun _ s => s

def removeDirAll (describe : String → String) (p : List String) : FileProg Unit :=
  perform describe (fun s => some (s.removeDirAll p)) fun fault s => s.removeSome p fault.kept

/-- A computation that reads the store and may refuse it. -/
def check {α : Type} (f : FileStore → Except String α) : FileProg α := fun w =>
  match f w.store with
  | .ok a => .ok a w
  | .error e => .error e w

end FileProg

/-! ## What is written -/

/-- `s` is `s₀` with directories added and the files `ws` written, in this order. -/
structure FileStore.Wrote (s₀ : FileStore) (ws : List (List String × List UInt8)) (s : FileStore) :
    Prop where
  contents : s.contents = ws.foldl (fun c w => Function.update c w.1 w.2) s₀.contents
  isFile : ∀ p, s.IsFile p ↔ s₀.IsFile p ∨ ∃ w ∈ ws, w.1 = p

/-- `s` is `s₀` with directories added and something written to files among `ts`. -/
def FileStore.Touched (s₀ : FileStore) (ts : List (List String)) (s : FileStore) : Prop :=
  ∃ ws, s₀.Wrote ws s ∧ ∀ w ∈ ws, w.1 ∈ ts

namespace FileStore
variable {s₀ s s' : FileStore} {p q target : List String} {bytes : List UInt8}
  {ws : List (List String × List UInt8)} {ts : List (List String)}

theorem createDirAll_contents (h : s.createDirAll p = some s') : s'.contents = s.contents := by
  obtain ⟨tree, -, rfl⟩ := Option.map_eq_some_iff.1 h
  rfl

theorem isFile_createDirAll (h : s.createDirAll p = some s') : s'.IsFile q ↔ s.IsFile q := by
  obtain ⟨tree, htree, rfl⟩ := Option.map_eq_some_iff.1 h
  rcases FileTree.lookup_createDirAll (q := q) htree with hsame | ⟨hnone, hdir, -⟩
  · simp [IsFile, hsame]
  · simp [IsFile, hnone, hdir]

theorem put_eq_some (h : s.put p executable bytes = some s') :
    ∃ tree, s.tree.writeFile p executable = some tree ∧
      s' = ⟨tree, Function.update s.contents p bytes⟩ := by
  unfold put at h
  split at h
  · cases h
  · obtain ⟨tree, htree, rfl⟩ := Option.map_eq_some_iff.1 h
    exact ⟨tree, htree, rfl⟩

theorem isFile_put (h : s.put p executable bytes = some s') : s'.IsFile q ↔ s.IsFile q ∨ p = q := by
  obtain ⟨tree, htree, rfl⟩ := put_eq_some h
  have hq := FileTree.lookup_writeFile (q := q) htree
  rcases eq_or_ne q p with rfl | hne
  · rw [if_pos rfl] at hq
    simp [IsFile, hq]
  · rw [if_neg hne] at hq
    simp [IsFile, hq, hne.symm]

theorem copy_eq_some (h : s.copy source target = some s') :
    ∃ mode, s.put target mode (s.contents source) = some s' := by
  unfold copy at h
  split at h
  next mode _ => exact ⟨mode, h⟩
  next => cases h

theorem setExecutable_eq_some (h : s.setExecutable p = some s') :
    s.IsFile p ∧ s.put p true (s.contents p) = some s' := by
  unfold setExecutable at h
  split at h
  next mode hmode => exact ⟨⟨mode, hmode⟩, h⟩
  next => cases h

namespace Wrote

theorem refl (s : FileStore) : s.Wrote [] s where
  contents := rfl
  isFile p := by simp

theorem createDirAll (H : s₀.Wrote ws s) (h : s.createDirAll p = some s') : s₀.Wrote ws s' where
  contents := by rw [createDirAll_contents h, H.contents]
  isFile q := by rw [isFile_createDirAll h, H.isFile]

/-- Directories that were made before count as made by the program. -/
theorem of_createDirAll {s₁ : FileStore} (H : s₁.Wrote ws s) (h : s₀.createDirAll p = some s₁) :
    s₀.Wrote ws s where
  contents := by rw [H.contents, createDirAll_contents h]
  isFile q := by rw [H.isFile, isFile_createDirAll h]

theorem put (H : s₀.Wrote ws s) (h : s.put p executable bytes = some s') :
    s₀.Wrote (ws ++ [(p, bytes)]) s' where
  contents := by
    obtain ⟨tree, -, rfl⟩ := put_eq_some h
    rw [List.foldl_append, ← H.contents]
    rfl
  isFile q := by
    rw [isFile_put h, H.isFile]
    simp [or_and_right, exists_or, or_assoc]

theorem overwrite (H : s₀.Wrote (ws ++ [(p, old)]) s) : s₀.Wrote (ws ++ [(p, bytes)]) (s.fill p bytes) where
  contents := by
    rw [fill, H.contents, List.foldl_append, List.foldl_append]
    exact Function.update_idem _ _ _
  isFile q := by
    rw [show (s.fill p bytes).IsFile q ↔ s.IsFile q from Iff.rfl, H.isFile]
    simp

/-- Writing what a file holds changes nothing. -/
theorem rewrite (H : s₀.Wrote ws s) (hp : s.IsFile p) : s₀.Wrote (ws ++ [(p, s.contents p)]) s where
  contents := by
    rw [List.foldl_append, ← H.contents]
    exact (Function.update_eq_self p s.contents).symm
  isFile q := by
    rw [H.isFile] at hp ⊢
    constructor
    · rintro (h | ⟨w, hw, rfl⟩)
      · exact .inl h
      · exact .inr ⟨w, List.mem_append_left _ hw, rfl⟩
    · rintro (h | ⟨w, hw, rfl⟩)
      · exact .inl h
      · rcases List.mem_append.1 hw with hw | hw
        · exact .inr ⟨w, hw, rfl⟩
        · cases List.mem_singleton.1 hw
          exact hp

theorem setExecutable (H : s₀.Wrote ws s) (h : s.setExecutable p = some s') : s₀.Wrote ws s' := by
  obtain ⟨hp, hput⟩ := setExecutable_eq_some h
  obtain ⟨tree, -, hs'⟩ := put_eq_some hput
  constructor
  case contents =>
    rw [← H.contents, hs']
    exact Function.update_eq_self p s.contents
  case isFile =>
    intro q
    rw [isFile_put hput, ← H.isFile]
    exact or_iff_left_of_imp fun h => h ▸ hp

theorem touched (H : s₀.Wrote ws s) (hws : ∀ w ∈ ws, w.1 ∈ ts) : s₀.Touched ts s := ⟨ws, H, hws⟩

/-- The last bytes written to a file. -/
theorem contents_eq (H : s₀.Wrote ws s) (p : List String) :
    s.contents p = ((ws.reverse.find? fun w => w.1 = p).map (·.2)).getD (s₀.contents p) := by
  rw [H.contents]
  clear H
  induction ws using List.reverseRecOn with
  | nil => rfl
  | append_singleton ws w ih =>
    rw [List.foldl_append, List.foldl_cons, List.foldl_nil, List.reverse_concat, List.find?_cons]
    rcases eq_or_ne p w.1 with rfl | hne
    · simp
    · rw [Function.update_of_ne hne, ih]
      simp [hne.symm]

/-- A file that was written holds the bytes of one of the writes. -/
theorem mem_of_written (H : s₀.Wrote ws s) (hp : ∃ w ∈ ws, w.1 = p) : (p, s.contents p) ∈ ws := by
  obtain ⟨w, hw, hwp⟩ := hp
  obtain ⟨found, hfound⟩ : ∃ found, ws.reverse.find? (fun w => w.1 = p) = some found :=
    Option.isSome_iff_exists.1 (List.find?_isSome.2 ⟨w, List.mem_reverse.2 hw, by simpa using hwp⟩)
  have hfst := List.find?_some hfound
  rw [decide_eq_true_eq] at hfst
  rw [H.contents_eq, hfound, ← hfst]
  exact List.mem_reverse.1 (List.mem_of_find?_eq_some hfound)

end Wrote

/-- A file that is not among those written is what it was. -/
theorem Touched.other (H : s₀.Touched ts s) (hp : p ∉ ts) :
    s.contents p = s₀.contents p ∧ (s.IsFile p ↔ s₀.IsFile p) := by
  obtain ⟨ws, hwrote, hws⟩ := H
  have hno : ∀ w ∈ ws, w.1 ≠ p := fun w hw h => hp (h ▸ hws w hw)
  constructor
  · rw [hwrote.contents_eq, List.find?_eq_none.2]
    · rfl
    · intro w hw
      simpa using hno w (List.mem_reverse.1 hw)
  · rw [hwrote.isFile]
    exact or_iff_left fun ⟨w, hw, h⟩ => hno w hw h

end FileStore

/-! ## Rules for the calls -/

namespace FileProg
open EStateM FileStore

variable {s₀ : FileStore} {p : List String} {bytes : List UInt8} {d : String → String}
  {ws : List (List String × List UInt8)} {ts : List (List String)}
  {whole : FileStore → Option FileStore} {torn : CallFault → FileStore → FileStore}

theorem triple_perform {P Q E : FileStore → Prop} (hok : ∀ s s', P s → whole s = some s' → Q s')
    (hrefused : ∀ s, P s → E s) (htorn : ∀ fault s, P s → E (torn fault s)) :
    Triple (fun w => P w.store) (perform d whole torn) (fun _ w => Q w.store) fun w => E w.store := by
  intro w hw
  unfold perform
  cases w.faults.head?.join with
  | some fault => exact htorn fault w.store hw
  | none =>
    simp only
    cases hwhole : whole w.store with
    | some store => exact hok w.store store hw hwhole
    | none => exact hrefused w.store hw

theorem triple_check {α : Type} {f : FileStore → Except String α} {P E : FileWorld → Prop}
    {Q : α → FileWorld → Prop} (hok : ∀ w a, P w → f w.store = .ok a → Q a w)
    (herror : ∀ w e, P w → f w.store = .error e → E w) : Triple P (check f) Q E := by
  intro w hw
  unfold check
  cases hf : f w.store with
  | ok a => exact hok w a hw hf
  | error e => exact herror w e hw hf

theorem triple_probe {P : FileStore → Prop} :
    Triple (fun w => P w.store) (probe d) (fun _ w => P w.store) fun w => P w.store :=
  triple_perform (fun _ _ hs h => Option.some.inj h ▸ hs) (fun _ hs => hs) fun _ _ hs => hs

theorem triple_removeDirAll :
    Triple (fun w => w.store = s₀) (removeDirAll d p) (fun _ w => w.store = s₀.removeDirAll p)
      fun _ => True := by
  apply triple_perform (P := (· = s₀)) (Q := (· = s₀.removeDirAll p)) (E := fun _ => True)
  · intro s s' hs h
    rw [← Option.some.inj h, hs]
  · exact fun _ _ => trivial
  · exact fun _ _ _ => trivial

theorem triple_createDirAll (hws : ∀ w ∈ ws, w.1 ∈ ts) :
    Triple (fun w => s₀.Wrote ws w.store) (createDirAll d p) (fun _ w => s₀.Wrote ws w.store)
      fun w => s₀.Touched ts w.store := by
  apply triple_perform
  · exact fun s s' hs h => hs.createDirAll h
  · exact fun s hs => hs.touched hws
  · intro fault s hs
    cases hdone : fault.done.bind fun n => s.createDirAll (p.take n) with
    | none => exact hs.touched hws
    | some s' =>
      obtain ⟨n, -, hcreate⟩ := Option.bind_eq_some_iff.1 hdone
      exact (hs.createDirAll hcreate).touched hws

theorem triple_create (hws : ∀ w ∈ ws, w.1 ∈ ts) :
    Triple (fun w => s₀.Wrote ws w.store) (create d p) (fun _ w => s₀.Wrote (ws ++ [(p, [])]) w.store)
      fun w => s₀.Touched ts w.store :=
  triple_perform (fun _ _ hs h => hs.put h) (fun _ hs => hs.touched hws) fun _ _ hs => hs.touched hws

theorem forall_concat (hws : ∀ w ∈ ws, w.1 ∈ ts) (hp : p ∈ ts) :
    ∀ w ∈ ws ++ [(p, bytes)], w.1 ∈ ts := by
  intro w hw
  rcases List.mem_append.1 hw with hw | hw
  · exact hws w hw
  · cases List.mem_singleton.1 hw
    exact hp

theorem triple_write {old : List UInt8} (hws : ∀ w ∈ ws, w.1 ∈ ts) (hp : p ∈ ts) :
    Triple (fun w => s₀.Wrote (ws ++ [(p, old)]) w.store) (write d p bytes)
      (fun _ w => s₀.Wrote (ws ++ [(p, bytes)]) w.store) fun w => s₀.Touched ts w.store := by
  apply triple_perform
  · exact fun s s' hs h => Option.some.inj h ▸ hs.overwrite
  · exact fun s hs => hs.touched (forall_concat hws hp)
  · intro fault s hs
    cases fault.done with
    | none => exact hs.touched (forall_concat hws hp)
    | some n => exact hs.overwrite.touched (forall_concat hws hp)

theorem triple_copyIn {executable : Bool} (hws : ∀ w ∈ ws, w.1 ∈ ts) (hp : p ∈ ts) :
    Triple (fun w => s₀.Wrote ws w.store) (copyIn d bytes executable p)
      (fun _ w => s₀.Wrote (ws ++ [(p, bytes)]) w.store) fun w => s₀.Touched ts w.store := by
  apply triple_perform
  · exact fun s s' hs h => hs.put h
  · exact fun s hs => hs.touched hws
  · intro fault s hs
    cases hdone : fault.done.bind fun n => s.put p executable (bytes.take n) with
    | none => exact hs.touched hws
    | some s' =>
      obtain ⟨n, -, hput⟩ := Option.bind_eq_some_iff.1 hdone
      exact (hs.put hput).touched (forall_concat hws hp)

theorem triple_copy {source : List String} (hws : ∀ w ∈ ws, w.1 ∈ ts) (hp : p ∈ ts) :
    Triple (fun w => s₀.Wrote ws w.store ∧ w.store.contents source = bytes) (copy d source p)
      (fun _ w => s₀.Wrote (ws ++ [(p, bytes)]) w.store) fun w => s₀.Touched ts w.store := by
  apply triple_perform (P := fun s => s₀.Wrote ws s ∧ s.contents source = bytes)
    (Q := s₀.Wrote (ws ++ [(p, bytes)])) (E := s₀.Touched ts)
  · intro s s' hs h
    obtain ⟨mode, hput⟩ := copy_eq_some h
    exact hs.2 ▸ hs.1.put hput
  · exact fun s hs => hs.1.touched hws
  · intro fault s hs
    cases hdone : fault.done.bind fun n =>
        (s.copy source p).map (·.fill p ((s.contents source).take n)) with
    | none => exact hs.1.touched hws
    | some s' =>
      obtain ⟨n, -, hmap⟩ := Option.bind_eq_some_iff.1 hdone
      obtain ⟨s₁, hcopy, rfl⟩ := Option.map_eq_some_iff.1 hmap
      obtain ⟨mode, hput⟩ := copy_eq_some hcopy
      exact (hs.1.put hput).overwrite.touched (forall_concat hws hp)

theorem triple_setExecutable (hws : ∀ w ∈ ws, w.1 ∈ ts) :
    Triple (fun w => s₀.Wrote ws w.store) (setExecutable d p) (fun _ w => s₀.Wrote ws w.store)
      fun w => s₀.Touched ts w.store :=
  triple_perform (fun _ _ hs h => hs.setExecutable h) (fun _ hs => hs.touched hws)
    fun _ _ hs => hs.touched hws

end FileProg

/-! ## Room for the targets -/

/-- Nothing is in the way of the targets `ts`, and the files `fs` are there. -/
structure FileStore.Room (ts fs : List (List String)) (s : FileStore) : Prop where
  parents : ∀ t ∈ ts, ∀ q, q <+: t → q ≠ t →
    s.tree.lookup q = none ∨ (s.tree.lookup q).any FileEntry.isDir
  leaf : ∀ t ∈ ts, s.tree.lookup t = none ∨ s.IsFile t
  files : ∀ p ∈ fs, s.IsFile p

/-- No target lies below another one. -/
def FileStore.Apart (ts : List (List String)) : Prop := ∀ t ∈ ts, ∀ t' ∈ ts, t <+: t' → t = t'

namespace FileStore
variable {s s' : FileStore} {p q target : List String} {bytes : List UInt8} {ts fs : List (List String)}

theorem IsFile.not_isDir (h : s.IsFile p) : (s.tree.lookup p).any FileEntry.isDir = false := by
  obtain ⟨mode, hmode⟩ := h
  rw [hmode]
  rfl

theorem apart_of_isFile (h : ∀ t ∈ ts, s.IsFile t) : Apart ts := by
  intro t ht t' ht' hprefix
  by_contra hne
  obtain ⟨mode, hmode⟩ := h t' ht'
  have hdir := s.tree.closed t' t (by rw [← FileTree.lookup, hmode]; rfl) hprefix hne
  rw [← FileTree.lookup, (h t ht).not_isDir] at hdir
  cases hdir

namespace Room

theorem createDirAll (H : Room ts fs s) (hapart : Apart ts) (ht : target ∈ ts) (hne : target ≠ []) :
    ∃ s', s.createDirAll target.dropLast = some s' ∧ Room ts fs s' ∧
      ∀ q, q <+: target → q ≠ target → (s'.tree.lookup q).any FileEntry.isDir := by
  have hlength : ∀ {q}, q <+: target.dropLast → q <+: target ∧ q ≠ target := by
    intro q hq
    refine ⟨hq.trans (List.dropLast_prefix target), fun h => ?_⟩
    have hle := hq.length_le
    have hpos := List.length_pos_iff.2 hne
    rw [h, List.length_dropLast] at hle
    omega
  obtain ⟨tree, htree⟩ := Option.isSome_iff_exists.1 (FileTree.createDirAll_isSome fun q hq =>
    H.parents target ht q (hlength hq).1 (hlength hq).2)
  refine ⟨{ s with tree }, by rw [FileStore.createDirAll, htree]; rfl, ?_, ?_⟩
  · constructor
    case parents =>
      intro t htmem q hq hne
      rcases FileTree.lookup_createDirAll (q := q) htree with hsame | ⟨-, hdir, -⟩
      · rw [hsame]
        exact H.parents t htmem q hq hne
      · exact .inr (by rw [hdir]; rfl)
    case leaf =>
      intro t htmem
      rcases FileTree.lookup_createDirAll (q := t) htree with hsame | ⟨-, -, hprefix⟩
      · rcases H.leaf t htmem with h | ⟨mode, h⟩
        · exact .inl (hsame.trans h)
        · exact .inr ⟨mode, hsame.trans h⟩
      · exact absurd (hapart t htmem target ht (hlength hprefix).1) (hlength hprefix).2
    case files =>
      exact fun p hp => (isFile_createDirAll (s := s) (by rw [FileStore.createDirAll, htree]; rfl)).2
        (H.files p hp)
  · intro q hq hne'
    refine FileTree.isDir_createDirAll htree ?_
    -- A proper beginning of a path is a beginning of its parent.
    rcases List.eq_nil_or_concat target with rfl | ⟨parent, name, rfl⟩
    · exact absurd rfl hne
    · rw [List.concat_eq_append] at hq hne' ⊢
      rw [List.dropLast_concat]
      exact (List.prefix_concat_iff.1 hq).resolve_left hne'

theorem put (H : Room ts fs s) (hapart : Apart ts) (ht : target ∈ ts)
    (hparents : ∀ q, q <+: target → q ≠ target → (s.tree.lookup q).any FileEntry.isDir) :
    ∃ s', s.put target executable bytes = some s' ∧ Room ts (fs ++ [target]) s' := by
  have hleaf : (s.tree.lookup target).any FileEntry.isDir = false := by
    rcases H.leaf target ht with h | h
    · rw [h]
      rfl
    · exact h.not_isDir
  have hsome : (s.tree.writeFile target executable).isSome :=
    FileTree.writeFile_isSome hparents hleaf
  obtain ⟨tree, htree⟩ := Option.isSome_iff_exists.1 hsome
  have hput : s.put target executable bytes =
      some ⟨tree, Function.update s.contents target bytes⟩ := by
    unfold FileStore.put
    rcases H.leaf target ht with h | ⟨mode, h⟩
    · simp only [h, htree]
      rfl
    · simp only [h, htree]
      rfl
  refine ⟨_, hput, ?_⟩
  have hlookup : ∀ q, tree.lookup q = if q = target then some (.file executable) else s.tree.lookup q :=
    fun q => FileTree.lookup_writeFile htree
  constructor
  case parents =>
    intro t htmem q hq hne
    rw [hlookup, if_neg]
    · exact H.parents t htmem q hq hne
    · rintro rfl
      exact hne (hapart q ht t htmem hq)
  case leaf =>
    intro t htmem
    rw [isFile_put hput, hlookup]
    rcases eq_or_ne t target with rfl | hne
    · exact .inr (.inr rfl)
    · rw [if_neg hne]
      exact (H.leaf t htmem).imp_right .inl
  case files =>
    intro p hp
    rw [isFile_put hput]
    rcases List.mem_append.1 hp with hp | hp
    · exact .inl (H.files p hp)
    · exact .inr (List.mem_singleton.1 hp).symm

theorem fill (H : Room ts fs s) : Room ts fs (s.fill p bytes) := ⟨H.parents, H.leaf, H.files⟩

theorem copy (H : Room ts fs s) (hapart : Apart ts) (ht : target ∈ ts)
    (hparents : ∀ q, q <+: target → q ≠ target → (s.tree.lookup q).any FileEntry.isDir)
    (hsource : source ∈ fs) : ∃ s', s.copy source target = some s' ∧ Room ts (fs ++ [target]) s' := by
  obtain ⟨mode, hmode⟩ := H.files source hsource
  obtain ⟨s', hput, H'⟩ : ∃ s', s.put target mode (s.contents source) = some s' ∧
      Room ts (fs ++ [target]) s' := H.put hapart ht hparents
  refine ⟨s', ?_, H'⟩
  unfold FileStore.copy
  simp only [hmode]
  exact hput

theorem setExecutable (H : Room ts fs s) (hapart : Apart ts) (ht : target ∈ ts)
    (hfile : target ∈ fs) : ∃ s', s.setExecutable target = some s' ∧ Room ts fs s' := by
  obtain ⟨mode, hmode⟩ := H.files target hfile
  have hparents : ∀ q, q <+: target → q ≠ target → (s.tree.lookup q).any FileEntry.isDir :=
    fun q hq hne => s.tree.closed target q (by rw [← FileTree.lookup, hmode]; rfl) hq hne
  obtain ⟨s', hput, H'⟩ : ∃ s', s.put target true (s.contents target) = some s' ∧
      Room ts (fs ++ [target]) s' := H.put hapart ht hparents
  refine ⟨s', ?_, H'.parents, H'.leaf, fun p hp => H'.files p (List.mem_append_left _ hp)⟩
  unfold FileStore.setExecutable
  simp only [hmode]
  exact hput

end Room

end FileStore

/-! ## Without faults -/

namespace FileProg
open EStateM FileStore

/-- No call to come fails by itself. -/
def Quiet (P : FileStore → Prop) (w : FileWorld) : Prop := w.faults = [] ∧ P w.store

variable {p target : List String} {bytes : List UInt8} {ts fs : List (List String)}
  {d : String → String} {P Q : FileStore → Prop}

/-- A call that is possible takes place. -/
theorem quiet_perform (h : ∀ s, P s → ∃ s', whole s = some s' ∧ Q s') :
    Triple (Quiet P) (perform d whole torn) (fun _ => Quiet Q) fun _ => False := by
  intro w ⟨hfaults, hw⟩
  obtain ⟨s', hs', hq⟩ := h w.store hw
  unfold perform
  simp only [hfaults, hs', List.head?_nil, Option.join_none, List.tail_nil]
  exact ⟨rfl, hq⟩

theorem quiet_probe : Triple (Quiet P) (probe d) (fun _ => Quiet P) fun _ => False :=
  quiet_perform fun s hs => ⟨s, rfl, hs⟩

theorem quiet_createDirAll {s : FileStore} (h : s.createDirAll p = some s') :
    Triple (Quiet (· = s)) (createDirAll d p) (fun _ => Quiet (· = s')) fun _ => False :=
  quiet_perform fun _ hs => ⟨s', hs ▸ h, rfl⟩

theorem quiet_createParent (hapart : Apart ts) (ht : target ∈ ts) (hne : target ≠ []) :
    Triple (Quiet (Room ts fs)) (createDirAll d target.dropLast)
      (fun _ => Quiet fun s => Room ts fs s ∧
        ∀ q, q <+: target → q ≠ target → (s.tree.lookup q).any FileEntry.isDir)
      fun _ => False :=
  quiet_perform fun _ hs => hs.createDirAll hapart ht hne

theorem quiet_create (hapart : Apart ts) (ht : target ∈ ts) :
    Triple (Quiet fun s => Room ts fs s ∧
        ∀ q, q <+: target → q ≠ target → (s.tree.lookup q).any FileEntry.isDir)
      (create d target) (fun _ => Quiet (Room ts (fs ++ [target]))) fun _ => False :=
  quiet_perform fun _ hs => hs.1.put hapart ht hs.2

theorem quiet_write :
    Triple (Quiet (Room ts fs)) (write d p bytes) (fun _ => Quiet (Room ts fs)) fun _ => False :=
  quiet_perform fun _ hs => ⟨_, rfl, hs.fill⟩

theorem quiet_copy (hapart : Apart ts) (ht : target ∈ ts) (hsource : source ∈ fs) :
    Triple (Quiet fun s => Room ts fs s ∧
        ∀ q, q <+: target → q ≠ target → (s.tree.lookup q).any FileEntry.isDir)
      (copy d source target) (fun _ => Quiet (Room ts (fs ++ [target]))) fun _ => False :=
  quiet_perform fun _ hs => hs.1.copy hapart ht hs.2 hsource

theorem quiet_setExecutable (hapart : Apart ts) (ht : target ∈ ts) (hfile : target ∈ fs) :
    Triple (Quiet (Room ts fs)) (setExecutable d target) (fun _ => Quiet (Room ts fs))
      fun _ => False :=
  quiet_perform fun _ hs => hs.setExecutable hapart ht hfile

end FileProg
