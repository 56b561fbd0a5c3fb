import LuaSkills.Data.AssocMap

/-!
# The shared file watcher

Logical registrations share one native watcher: each is backed by a path that exists, the requested one
or its nearest ancestor, and a backend path is watched in the strongest mode its registrations need. A
missing path is reconsidered when the directory tree has changed. Every native call may fail; what the
tree looks like and how the calls end is input to each step.
-/

namespace LuaSkills.FileWatcher

/-- An absolute path, by its components below the root. -/
abbrev WatchPath := List String

inductive RecursiveMode where
  | recursive
  | nonRecursive
deriving DecidableEq

structure LiveWatchPath where
  path : WatchPath
  recursive : Bool
deriving DecidableEq

structure PathWatchCounts where
  nonRecursive : ℕ := 0
  recursive : ℕ := 0
deriving DecidableEq

namespace PathWatchCounts

def increment (counts : PathWatchCounts) (recursive : Bool) : PathWatchCounts :=
  if recursive then { counts with recursive := counts.recursive + 1 }
  else { counts with nonRecursive := counts.nonRecursive + 1 }

def decrement (counts : PathWatchCounts) (recursive : Bool) : PathWatchCounts :=
  if recursive then { counts with recursive := counts.recursive - 1 }
  else { counts with nonRecursive := counts.nonRecursive - 1 }

def effectiveMode (counts : PathWatchCounts) : Option RecursiveMode :=
  if 0 < counts.recursive then some .recursive
  else if 0 < counts.nonRecursive then some .nonRecursive
  else none

def isEmpty (counts : PathWatchCounts) : Bool := counts.nonRecursive = 0 ∧ counts.recursive = 0

/-- The bucket that a reference of this kind is counted in. -/
def bucket (counts : PathWatchCounts) (recursive : Bool) : ℕ :=
  if recursive then counts.recursive else counts.nonRecursive

end PathWatchCounts

structure LiveWatchRegistrationState where
  requested : LiveWatchPath
  actual : LiveWatchPath
  fallback : Bool
deriving DecidableEq

/-- The registry, the recorded modes of the backend, and whether a count was ever lowered at zero. -/
structure Watcher where
  nextRegistrationId : ℕ := 0
  registrations : AssocMap ℕ LiveWatchRegistrationState := ∅
  pathRefCounts : AssocMap WatchPath PathWatchCounts := ∅
  watchedPaths : AssocMap WatchPath RecursiveMode := ∅
  underflowed : Bool := false

/-- How a call of the watcher ended. -/
inductive Outcome where
  | done
  | failed (error : String)
  | panicked
deriving DecidableEq

/-! ## The native backend -/

/-- The errors of the native calls of one reconfiguration; what the call that restores the previous mode
answers is ignored. -/
structure NativeCalls where
  unwatch : Option String := none
  watch : Option String := none

def watcherFailed (error : String) : Outcome := .failed s!"CONFIG_WATCHER_FAILED: {error}"

def reconfigureWatch (watchedPaths : AssocMap WatchPath RecursiveMode) (path : WatchPath)
    (previousMode nextMode : Option RecursiveMode) (calls : NativeCalls) :
    AssocMap WatchPath RecursiveMode × Outcome :=
  if previousMode = nextMode then (watchedPaths, .done)
  else
    match (previousMode.bind fun _ => calls.unwatch) with
    | some error => (watchedPaths, watcherFailed error)
    | none =>
      let released := if previousMode.isSome then watchedPaths.erase path else watchedPaths
      match nextMode with
      | none => (released, .done)
      | some mode =>
        match calls.watch with
        | none => (released.insert path mode, .done)
        | some error =>
          match previousMode with
          | some previous => (released.insert path previous, watcherFailed error)
          | none => (released, watcherFailed error)

/-! ## The backing path -/

/-- What the file system answers while a path is resolved. -/
structure FileSystem where
  pathExists : WatchPath → Bool
  isDir : WatchPath → Bool
  canonicalize : WatchPath → Option WatchPath

/-- The parent of a path, the parent of that, up to the root. -/
def ancestors (path : WatchPath) : List WatchPath :=
  (List.range path.length).reverse.map path.take

def actualWatchPath (fs : FileSystem) (requested : LiveWatchPath) : LiveWatchPath × Bool :=
  if fs.pathExists requested.path then
    (⟨(fs.canonicalize requested.path).getD requested.path, requested.recursive⟩, false)
  else
    match (ancestors requested.path).find? fs.isDir with
    | some path => (⟨(fs.canonicalize path).getD path, false⟩, true)
    | none => (requested, false)

/-! ## Reference counts -/

/-- The counts of a path, as `entry(..).or_default()` finds them. -/
def countsAt (counts : AssocMap WatchPath PathWatchCounts) (path : WatchPath) : PathWatchCounts :=
  (counts.lookup path).getD {}

def removeIfEmpty (counts : AssocMap WatchPath PathWatchCounts) (path : WatchPath) :
    AssocMap WatchPath PathWatchCounts :=
  if ((counts.lookup path).any PathWatchCounts.isEmpty) then counts.erase path else counts

namespace Watcher

/-- Lowers the counts found at a path. -/
def release (s : Watcher) (path : LiveWatchPath) (counts : PathWatchCounts) : Watcher :=
  { s with
    pathRefCounts := s.pathRefCounts.insert path.path (counts.decrement path.recursive)
    underflowed := s.underflowed || counts.bucket path.recursive = 0 }

/-- Raises the counts of a path. -/
def acquire (s : Watcher) (path : LiveWatchPath) : Watcher :=
  { s with
    pathRefCounts := s.pathRefCounts.insert path.path
      ((countsAt s.pathRefCounts path.path).increment path.recursive) }

/-- Takes back one reference that was just added. -/
def withdraw (s : Watcher) (path : LiveWatchPath) : Watcher :=
  match s.pathRefCounts.lookup path.path with
  | none => s
  | some counts =>
    let s := s.release path counts
    { s with pathRefCounts := removeIfEmpty s.pathRefCounts path.path }

/-- Applies a change of mode to the backend. -/
def reconfigure (s : Watcher) (path : WatchPath) (previousMode nextMode : Option RecursiveMode)
    (calls : NativeCalls) : Watcher × Outcome :=
  let result := reconfigureWatch s.watchedPaths path previousMode nextMode calls
  ({ s with watchedPaths := result.1 }, result.2)

/-! ## Registration -/

/-- A call of `register_path`: the path as displayed and made absolute, and what the call meets. -/
structure Registering where
  display : String
  absolute : Except String WatchPath
  recursive : Bool
  fs : FileSystem
  calls : NativeCalls

def registerPath (s : Watcher) (r : Registering) : Watcher × Outcome :=
  match r.absolute with
  | .error error =>
    (s, .failed s!"CONFIG_WATCHER_FAILED: failed to normalize watch path '{r.display}': {error}")
  | .ok path =>
    let requested : LiveWatchPath := ⟨path, r.recursive⟩
    let (actual, fallback) := actualWatchPath r.fs requested
    let id := s.nextRegistrationId
    let s := { s with nextRegistrationId := min (id + 1) (2 ^ 64 - 1) }
    let counts := countsAt s.pathRefCounts actual.path
    let previousMode := counts.effectiveMode
    let nextMode := (counts.increment actual.recursive).effectiveMode
    let s := s.acquire actual
    let (s, outcome) := s.reconfigure actual.path previousMode nextMode r.calls
    match outcome with
    | .done => ({ s with registrations := s.registrations.insert id ⟨requested, actual, fallback⟩ }, .done)
    | refused => (s.withdraw actual, refused)

def unregisterPath (s : Watcher) (id : ℕ) (calls : NativeCalls) : Watcher × Outcome :=
  match s.registrations.lookup id with
  | none => (s, .done)
  | some state =>
    let s := { s with registrations := s.registrations.erase id }
    match s.pathRefCounts.lookup state.actual.path with
    | none => (s, .done)
    | some counts =>
      let previousMode := counts.effectiveMode
      let nextMode := (counts.decrement state.actual.recursive).effectiveMode
      let s := s.release state.actual counts
      let (s, outcome) := s.reconfigure state.actual.path previousMode nextMode calls
      match outcome with
      | .done => ({ s with pathRefCounts := removeIfEmpty s.pathRefCounts state.actual.path }, .done)
      | refused => (s, refused)

/-! ## Moving a fallback -/

/-- The native calls of a move: for the path it leaves, the path it enters, and the way back. -/
structure MoveCalls where
  leave : NativeCalls := {}
  enter : NativeCalls := {}
  back : NativeCalls := {}

def moveActualWatch (s : Watcher) (previous next : LiveWatchPath) (calls : MoveCalls) :
    Watcher × Outcome :=
  match s.pathRefCounts.lookup previous.path with
  | none => (s, .panicked)
  | some counts =>
    let previousOldMode := counts.effectiveMode
    let previousNextMode := (counts.decrement previous.recursive).effectiveMode
    let s := s.release previous counts
    let nextCounts := countsAt s.pathRefCounts next.path
    let nextOldMode := nextCounts.effectiveMode
    let nextNextMode := (nextCounts.increment next.recursive).effectiveMode
    let s := s.acquire next
    let (s, left) := s.reconfigure previous.path previousOldMode previousNextMode calls.leave
    match left with
    | .done =>
      let (s, entered) := s.reconfigure next.path nextOldMode nextNextMode calls.enter
      match entered with
      | .done => ({ s with pathRefCounts := removeIfEmpty s.pathRefCounts previous.path }, .done)
      | refused =>
        let s := (s.withdraw next).acquire previous
        ((s.reconfigure previous.path previousNextMode previousOldMode calls.back).1, refused)
    -- the counts stay as they are
    | refused => (s, refused)

/-- One candidate of a refresh, and what its turn meets. -/
structure Visit where
  id : ℕ
  fs : FileSystem
  calls : MoveCalls

def visitCandidate (s : Watcher) (v : Visit) : Watcher × Outcome :=
  match s.registrations.lookup v.id with
  | none => (s, .done)
  | some current =>
    let (nextActual, nextFallback) := actualWatchPath v.fs current.requested
    let moved := { current with actual := nextActual, fallback := nextFallback }
    if current.actual = nextActual then
      ({ s with registrations := s.registrations.insert v.id moved }, .done)
    else
      let (s, outcome) := s.moveActualWatch current.actual nextActual v.calls
      match outcome with
      | .done => ({ s with registrations := s.registrations.insert v.id moved }, .done)
      | refused => (s, refused)

def candidateIds (s : Watcher) : List ℕ :=
  (s.registrations.entries.filter fun e => e.2.fallback).map Sigma.fst

/-- The turns of a refresh, up to the first that fails. -/
def refreshFallbackPaths (s : Watcher) : List Visit → Watcher × Outcome
  | [] => (s, .done)
  | v :: rest =>
    match s.visitCandidate v with
    | (s, .done) => s.refreshFallbackPaths rest
    | refused => refused

/-! ## Runs -/

/-- A call of the watcher; a refresh takes its candidates in the order of a hash map. -/
inductive Event where
  | register (r : Registering)
  | drop (id : ℕ) (calls : NativeCalls)
  | refresh (visits : List Visit)

def step (s : Watcher) : Event → Watcher × Outcome
  | .register r => s.registerPath r
  | .drop id calls => s.unregisterPath id calls
  | .refresh visits => s.refreshFallbackPaths visits

/-- The calls in which the watcher can take part. -/
def Possible (s : Watcher) : Event → Prop
  | .refresh visits => (visits.map Visit.id).Perm s.candidateIds
  | _ => True

instance (s : Watcher) : (event : Event) → Decidable (s.Possible event)
  | .register _ => inferInstanceAs (Decidable True)
  | .drop .. => inferInstanceAs (Decidable True)
  | .refresh visits => inferInstanceAs (Decidable ((visits.map Visit.id).Perm s.candidateIds))

def run (s : Watcher) (events : List Event) : Watcher := events.foldl (fun s e => (s.step e).1) s

end Watcher

end LuaSkills.FileWatcher
