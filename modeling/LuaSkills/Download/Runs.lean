import LuaSkills.Download.System

/-!
# Where cached payloads come from

The cache path of a request leaves its locator out, so two requests for different sources can meet in
one file. A run in which no unverified call reuses a file of another locator, and no call publishes over
a file whose path an unrelated call still holds, hands every caller a payload of its own; two skills
that declare one tool from different URLs leave that kind of run.
-/

namespace LuaSkills.Download

open SkillConfig (trim)
open Dependency Function List Option Except Services

variable {s : Services} {w w' : World} {t : ℕ} {call : Call} {purpose : Purpose} {bytes : Payload}
  {path : Path} {created : Except String Unit}

/-! ## Payloads of their own -/

/-- A dependency resolved from its own source: an index file is the one behind the declared URL. -/
def Resolves (s : Services) (job : DependencyJob) (resolved : ResolvedDependencyRequest) : Prop :=
  ∃ answers, resolveDependencyRequest s.config s.digest job answers = .ok resolved ∧
    (job.spec.source.sourceType = .skillList → ∀ skilllist, job.spec.source.skilllist = some skilllist →
      answers.index = s.parseIndex (s.serve skilllist.url))

def Services.source (s : Services) (job : DependencyJob) (resolved : ResolvedDependencyRequest) :
    Payload :=
  if job.spec.source.sourceType = .bundled then s.bundled resolved.downloadUrl
  else s.serve resolved.downloadUrl

def normalizedSha256 (text : String) : String := Text.toAsciiLowercase (trim text)

def DownloadValidation.expectedSha256 : DownloadValidation → Option String
  | .sha256 text => some (normalizedSha256 text)
  | .none | .utf8 => Option.none

def Delivery.Own (s : Services) (delivery : Delivery) : Prop :=
  delivery.call.Owns s.digest s.serve delivery.bytes

/-- An installation whose files come from the archive at the dependency's own locator, or from an
archive with its declared digest. -/
structure Installation.Own (s : Services) (i : Installation) : Prop where
  resolves : Resolves s i.job i.resolved
  exported : s.unpack i.resolved.archiveType i.resolved.exports i.archive = .ok i.exported
  archive : i.archive = s.source i.job i.resolved ∨
    i.resolved.expectedSha256.map normalizedSha256 = some (s.digest i.archive)

/-- Every payload handed out so far, and every new installation, belongs to its own source. -/
structure World.Belongs (s : Services) (w : World) : Prop where
  returned : ∀ delivery ∈ w.returned, delivery.Own s
  installed : ∀ i ∈ w.installed, i.Own s

/-! ## The calls of a task -/

theorem normalizeExpectedSha256_eq_ok (h : normalizeExpectedSha256 path text = .ok expected) :
    expected = normalizedSha256 text := by
  simp only [normalizeExpectedSha256] at h
  split at h
  · exact nomatch h
  · exact (ok.inj h).symm

theorem openCall_eq_ok {config : DownloadManagerConfig} {digest : Digest} {request : DownloadRequest}
    {validation : DownloadValidation} {policy : DownloadCachePolicy}
    (h : openCall config digest request validation policy created = .ok call) :
    call.request = request ∧ call.targetPath = cachedPathForRequest config digest request ∧
      call.expectedSha256 = validation.expectedSha256 := by
  cases validation with
  | none | utf8 =>
    simp only [openCall, bind_eq_ok] at h
    obtain ⟨_, _, _, _, _, hexpected, heq⟩ := h
    rw [← ok.inj heq]
    exact ⟨rfl, rfl, (ok.inj hexpected).symm⟩
  | sha256 text =>
    simp only [openCall, bind_eq_ok, map_eq_ok] at h
    obtain ⟨_, _, _, _, _, ⟨expected, hexpected, rfl⟩, heq⟩ := h
    rw [← ok.inj heq]
    exact ⟨rfl, rfl, congrArg some (normalizeExpectedSha256_eq_ok hexpected)⟩

/-- What the purpose of a call says about its request. -/
def Purpose.Fits (s : Services) (call : Call) : Purpose → Prop
  | .file | .text => True
  | .index job _ => ∃ skilllist, job.spec.source.skilllist = some skilllist ∧
      call.request.sourceLocator = skilllist.url ∧ call.expectedSha256 = none
  | .archive job resolved _ _ => Resolves s job resolved ∧ job.spec.source.sourceType ≠ .bundled ∧
      call.request.sourceLocator = resolved.downloadUrl ∧
      call.expectedSha256 = resolved.expectedSha256.map normalizedSha256

/-- What the stage of a call says about the cache: a fetched payload is the locator's own, and the file
behind a returned path belongs to the call. -/
def Stage.Sound (s : Services) (cache : Path → Option CacheFile) (call : Call) : Stage → Prop
  | .pending bytes => bytes = s.serve call.request.sourceLocator ∧
      ∀ expected, call.expectedSha256 = some expected → s.digest bytes = expected
  | .held => ∀ file, cache call.targetPath = some file → call.Owns s.digest s.serve file.bytes
  | _ => True

def Task.Sound (s : Services) (cache : Path → Option CacheFile) : Task → Prop
  | .calling call stage purpose => purpose.Fits s call ∧ stage.Sound s cache call
  | .bundling job resolved _ => Resolves s job resolved ∧ job.spec.source.sourceType = .bundled
  | .cleaning _ job resolved _ _ => Resolves s job resolved ∧ job.spec.source.sourceType ≠ .bundled
  | _ => True

section
variable {cache : Path → Option CacheFile} {job : DependencyJob} {rest : Ensuring} {error : String}

theorem failDependency_sound : (failDependency job rest error).Sound s cache := by
  unfold failDependency
  split <;> trivial

theorem failed_sound : (purpose.failed error).Sound s cache := by
  cases purpose with
  | file | text => trivial
  | index | archive => exact failDependency_sound

theorem beginCall_sound {validation : DownloadValidation} (h : ∀ call : Call, call.request = request →
      call.expectedSha256 = validation.expectedSha256 → purpose.Fits s call) :
    (s.beginCall request validation policy purpose created).Sound s cache := by
  unfold beginCall
  split
  next call hcall =>
    obtain ⟨hrequest, _, hexpected⟩ := openCall_eq_ok hcall
    exact ⟨h call hrequest hexpected, trivial⟩
  next => exact failed_sound

theorem beginArchive_sound (hresolves : Resolves s job resolved)
    (hsource : job.spec.source.sourceType ≠ .bundled) :
    (s.beginArchive job resolved firstError rest created).Sound s cache := by
  refine beginCall_sound fun call hrequest hexpected => ⟨hresolves, hsource, ?_, ?_⟩
  · rw [hrequest]
    rfl
  · rw [hexpected]
    cases hdeclared : resolved.expectedSha256 with
    | none | some declared => simp [dependencyValidation, hdeclared, DownloadValidation.expectedSha256]

theorem continueInstall_sound {answers : SourceAnswers}
    (h : job.spec.source.sourceType = .skillList → ∀ skilllist,
      job.spec.source.skilllist = some skilllist →
        answers.index = s.parseIndex (s.serve skilllist.url)) :
    (s.continueInstall job rest answers detected created).Sound s cache := by
  unfold continueInstall
  cases hresolved : resolveDependencyRequest s.config s.digest job answers with
  | error e => exact failDependency_sound
  | ok resolved =>
    have hresolves : Resolves s job resolved := ⟨answers, hresolved, h⟩
    cases detected with
    | error e => exact failDependency_sound
    | ok present =>
      cases present with
      | true => trivial
      | false =>
        dsimp only
        split
        next hbundled => exact ⟨hresolves, hbundled⟩
        next hbundled => exact beginArchive_sound hresolves hbundled

theorem considerDependency_sound :
    (s.considerDependency job rest found answers detected created).Sound s cache := by
  unfold considerDependency
  split
  · exact failDependency_sound
  · trivial
  · split
    · exact failDependency_sound
    · split
      · exact failDependency_sound
      · split
        next skilllist htype hlist =>
          refine beginCall_sound fun call hrequest hexpected => ⟨skilllist, hlist, ?_, hexpected⟩
          rw [hrequest]
        next hother =>
          exact continueInstall_sound fun htype skilllist hlist => (hother skilllist htype hlist).elim

theorem begin_sound : (s.begin created caller).Sound s cache := by
  cases caller with
  | download | downloadWithSha256 | fetchText | fetchTextFresh =>
    exact beginCall_sound fun _ _ _ => trivial
  | ensureSkillDependencies skillId manifest =>
    unfold begin
    dsimp only
    split
    · trivial
    · split <;> trivial

end

/-! ## Runs without a meeting of two sources -/

/-- What a step leaves to its caller: an unverified reuse finds a file that a request for its own locator
published, and a publication that succeeds meets no held path of a call for another payload. -/
def Action.Apart (w : World) : Action → Prop
  | .reuse t _ => ∀ call purpose, w.tasks t = some (.calling call .hit purpose) →
      call.expectedSha256 = none → ∀ file, w.cache call.targetPath = some file →
        file.origin = call.request.sourceLocator
  | .publish t none => ∀ call bytes purpose, w.tasks t = some (.calling call (.pending bytes) purpose) →
      ∀ t' call' purpose', t' ≠ t → w.tasks t' = some (.calling call' .held purpose') →
        call'.targetPath = call.targetPath →
          call'.request.sourceLocator = call.request.sourceLocator ∨
            call'.expectedSha256 ≠ none ∧ call'.expectedSha256 = call.expectedSha256
  | _ => True

/-- The states of runs from an empty cache whose steps all keep sources apart. -/
inductive Reached (s : Services) : World → Prop where
  | start : Reached s .empty
  | step {w w' : World} {a : Action} : Reached s w → a.Apart w → s.step w a = some w' → Reached s w'

structure World.Inv (s : Services) (w : World) : Prop where
  served : ∀ path file, w.cache path = some file → file.bytes = s.serve file.origin
  tasks : ∀ t task, w.tasks t = some task → task.Sound s w.cache
  belongs : w.Belongs s

namespace World.Inv

theorem empty : World.empty.Inv s where
  served _ _ h := nomatch h
  tasks _ _ h := nomatch h
  belongs :=
    { returned := fun _ h => nomatch h
      installed := fun _ h => nomatch h }

theorem setTask {task : Task} (h : w.Inv s) (htask : task.Sound s w.cache) :
    (w.setTask t task).Inv s where
  served := h.served
  tasks := by
    intro t' task' ht
    rcases eq_or_ne t' t with rfl | hne
    · simp only [World.setTask, update_self, some.injEq] at ht
      exact ht ▸ htask
    · simp only [World.setTask, update_of_ne hne] at ht
      exact h.tasks t' task' ht
  belongs := ⟨h.belongs.returned, h.belongs.installed⟩

theorem setLock (h : w.Inv s) : (w.setLock path owner).Inv s :=
  ⟨h.served, h.tasks, h.belongs.returned, h.belongs.installed⟩

theorem failCall {error : String} (h : w.Inv s) : (w.failCall t call purpose error).Inv s :=
  h.setLock.setTask failed_sound

theorem deliver (h : w.Inv s) (hown : call.Owns s.digest s.serve bytes) : (w.deliver call bytes).Inv s where
  served := h.served
  tasks := h.tasks
  belongs := by
    refine ⟨fun delivery hmem => ?_, h.belongs.installed⟩
    rcases mem_append.mp hmem with hmem | hmem
    · exact h.belongs.returned delivery hmem
    · rw [mem_singleton.mp hmem]
      exact hown

theorem install {i : Installation} (h : w.Inv s) (hown : i.Own s) : (w.install i).Inv s where
  served := h.served
  tasks := h.tasks
  belongs := by
    refine ⟨h.belongs.returned, fun i' hmem => ?_⟩
    rcases mem_append.mp hmem with hmem | hmem
    · exact h.belongs.installed i' hmem
    · rw [mem_singleton.mp hmem]
      exact hown

/-- A removed file only weakens what the tasks know. -/
theorem removeFile (h : w.Inv s) : (w.setFile path none).Inv s where
  served := by
    intro path' file hfile
    rcases eq_or_ne path' path with rfl | hne
    · simp [World.setFile] at hfile
    · exact h.served path' file (by simpa [World.setFile, update_of_ne hne] using hfile)
  tasks := by
    intro t' task ht
    have hsound := h.tasks t' task ht
    cases task with
    | calling call stage purpose =>
      refine ⟨hsound.1, ?_⟩
      cases stage with
      | held =>
        intro file hfile
        rcases eq_or_ne call.targetPath path with heq | hne
        · simp [World.setFile, heq] at hfile
        · exact hsound.2 file (by simpa [World.setFile, update_of_ne hne] using hfile)
      | _ => exact hsound.2
    | _ => exact hsound
  belongs := ⟨h.belongs.returned, h.belongs.installed⟩

theorem hold (h : w.Inv s) (hfits : purpose.Fits s call)
    (hown : ∀ file, w.cache call.targetPath = some file → call.Owns s.digest s.serve file.bytes) :
    (w.hold t call purpose).Inv s := by
  have hheld : ((w.setLock call.targetPath none).setTask t (.calling call .held purpose)).Inv s :=
    h.setLock.setTask ⟨hfits, hown⟩
  unfold World.hold
  dsimp only
  split
  next file hfile => exact hheld.deliver (hown file hfile)
  next => exact hheld

/-- A publication replaces the file: the calls that hold its path are served by the new payload. -/
theorem publishFile (h : w.Inv s) (htask : w.tasks t = some (.calling call (.pending bytes) purpose))
    (hapart : ∀ t' call' purpose', t' ≠ t → w.tasks t' = some (.calling call' .held purpose') →
      call'.targetPath = call.targetPath → call'.request.sourceLocator = call.request.sourceLocator ∨
        call'.expectedSha256 ≠ none ∧ call'.expectedSha256 = call.expectedSha256) :
    (w.setFile call.targetPath (some ⟨bytes, call.request.sourceLocator⟩)).Inv s where
  served := by
    obtain ⟨_, hserved, _⟩ := h.tasks t _ htask
    intro path file hfile
    rcases eq_or_ne path call.targetPath with rfl | hne
    · simp only [World.setFile, update_self, some.injEq] at hfile
      rw [← hfile]
      exact hserved
    · exact h.served path file (by simpa [World.setFile, update_of_ne hne] using hfile)
  tasks := by
    obtain ⟨_, hserved, hdigest⟩ := h.tasks t _ htask
    intro t' task ht
    have hsound := h.tasks t' task ht
    cases task with
    | calling call' stage purpose' =>
      refine ⟨hsound.1, ?_⟩
      cases stage with
      | held =>
        intro file hfile
        rcases eq_or_ne call'.targetPath call.targetPath with heq | hne
        · simp only [World.setFile, heq, update_self, some.injEq] at hfile
          subst hfile
          have hne : t' ≠ t := by
            rintro rfl
            exact nomatch htask.symm.trans ht
          rcases hapart t' call' purpose' hne ht heq with hlocator | ⟨hsome, hexpected⟩
          · exact Or.inl (hserved.trans (by rw [hlocator]))
          · obtain ⟨expected, hcall'⟩ := ne_none_iff_exists'.mp hsome
            right
            rw [hcall', hdigest expected (hexpected ▸ hcall')]
        · exact hsound.2 file (by simpa [World.setFile, update_of_ne hne] using hfile)
      | _ => exact hsound.2
    | _ => exact hsound
  belongs := ⟨h.belongs.returned, h.belongs.installed⟩

section
variable {fault firstError : Option String} {detected : Except String Bool}
  {created : Except String Unit} {job : DependencyJob} {resolved : ResolvedDependencyRequest}
  {rest : Ensuring}

theorem inspectTarget (h : w.Inv s) (hfits : purpose.Fits s call) :
    (inspectTarget w t call purpose fault).Inv s := by
  unfold Services.inspectTarget
  split
  · exact h.failCall
  · split <;> exact h.setTask ⟨hfits, trivial⟩

/-- A verified reuse owns the file by its digest, an unverified one by its locator. -/
theorem owns_of_answered (h : w.Inv s)
    (hjudge : judgeCached s.digest call (w.read call.targetPath fault) = .answered)
    (hapart : call.expectedSha256 = none → ∀ file, w.cache call.targetPath = some file →
      file.origin = call.request.sourceLocator)
    {file : CacheFile} (hfile : w.cache call.targetPath = some file) :
    call.Owns s.digest s.serve file.bytes := by
  cases hexpected : call.expectedSha256 with
  | none => exact Or.inl ((h.served _ file hfile).trans (by rw [hapart hexpected file hfile]))
  | some expected =>
    refine Or.inr ?_
    cases fault with
    | some error => simp [judgeCached, World.read, hexpected] at hjudge
    | none =>
      simp only [judgeCached, World.read, hexpected, hfile] at hjudge
      split at hjudge
      next hdigest => rw [hexpected, hdigest]
      next => exact nomatch hjudge

theorem reuseTarget (h : w.Inv s) (hfits : purpose.Fits s call)
    (hapart : call.expectedSha256 = none → ∀ file, w.cache call.targetPath = some file →
      file.origin = call.request.sourceLocator) :
    (s.reuseTarget w t call purpose fault).Inv s := by
  unfold Services.reuseTarget
  split
  next hjudge => exact h.hold hfits fun _ hfile => h.owns_of_answered hjudge hapart hfile
  next => exact h.setTask ⟨hfits, trivial⟩
  next => exact h.failCall

theorem digest_of_pending (h : judgeFetched s.digest call bytes = .pending) :
    ∀ expected, call.expectedSha256 = some expected → s.digest bytes = expected := by
  intro expected hexpected
  simp only [judgeFetched, hexpected] at h
  split at h
  next => exact nomatch h
  next hdigest => exact not_not.mp hdigest

theorem fetchTarget (h : w.Inv s) (hfits : purpose.Fits s call) :
    (s.fetchTarget w t call purpose attempts firstError fault).Inv s := by
  unfold Services.fetchTarget
  split
  · exact h.failCall
  · split
    next hpending => exact h.setTask ⟨hfits, rfl, digest_of_pending hpending⟩
    next => exact h.failCall
    next =>
      split
      · exact h.setTask ⟨hfits, trivial⟩
      · exact h.failCall

theorem publishTarget (h : w.Inv s) (htask : w.tasks t = some (.calling call (.pending bytes) purpose))
    (hapart : (Action.publish t fault).Apart w) :
    (publishTarget w t call purpose bytes fault).Inv s := by
  obtain ⟨hfits, hserved, _⟩ := h.tasks t _ htask
  unfold Services.publishTarget
  split
  · exact h.failCall
  · refine (h.publishFile htask (hapart _ _ _ htask)).hold hfits fun file hfile => Or.inl ?_
    simp only [World.setFile, update_self, some.injEq] at hfile
    rw [← hfile]
    exact hserved

theorem read_eq_ok (h : w.read path fault = .ok bytes) :
    ∃ file, w.cache path = some file ∧ file.bytes = bytes := by
  unfold World.read at h
  split at h
  · exact nomatch h
  next file hfile => exact ⟨file, hfile, ok.inj h⟩
  · exact nomatch h

/-- The archive of a held path belongs to the dependency that reads it. -/
theorem archive_own (h : w.Inv s)
    (htask : w.tasks t = some (.calling call .held (.archive job resolved firstError rest)))
    (hread : w.read call.targetPath fault >>= s.unpack resolved.archiveType resolved.exports =
      .ok exported) :
    (Installation.mk job resolved ((w.cache call.targetPath).elim [] CacheFile.bytes) exported).Own s := by
  obtain ⟨⟨hresolves, hsource, hlocator, hexpected⟩, hheld⟩ := h.tasks t _ htask
  obtain ⟨bytes, hbytes, hunpack⟩ := bind_eq_ok.mp hread
  obtain ⟨file, hfile, rfl⟩ := read_eq_ok hbytes
  refine ⟨hresolves, by simpa [hfile] using hunpack, ?_⟩
  simp only [hfile, elim_some, source, hsource, if_false]
  rw [← hlocator, ← hexpected]
  exact hheld file hfile

theorem index_own (h : w.Inv s) (htask : w.tasks t = some (.calling call .held (.index job rest)))
    (hfile : w.cache call.targetPath = some file) :
    ∀ skilllist, job.spec.source.skilllist = some skilllist → file.bytes = s.serve skilllist.url := by
  obtain ⟨⟨declared, hdeclared, hlocator, hexpected⟩, hheld⟩ := h.tasks t _ htask
  intro skilllist hlist
  cases hdeclared.symm.trans hlist
  rcases hheld file hfile with hserved | hdigest
  · rw [hserved, hlocator]
  · exact nomatch hexpected.symm.trans hdigest

theorem useTarget (h : w.Inv s) (htask : w.tasks t = some (.calling call .held purpose)) :
    (s.useTarget w t call fault detected created purpose).Inv s := by
  obtain ⟨_, hheld⟩ := h.tasks t _ htask
  have hown : ∀ bytes, w.read call.targetPath fault = .ok bytes →
      call.Owns s.digest s.serve bytes := by
    intro bytes hread
    obtain ⟨file, hfile, rfl⟩ := read_eq_ok hread
    exact hheld file hfile
  cases purpose with
  | file =>
    simp only [useTarget]
    split
    · exact h.setTask trivial
    next bytes hread => exact (h.deliver (hown bytes hread)).setTask trivial
  | text =>
    simp only [useTarget]
    split
    · exact h.setTask trivial
    next bytes hread =>
      split
      · exact (h.deliver (hown bytes hread)).setTask trivial
      · exact h.setTask trivial
  | index job rest =>
    simp only [useTarget]
    split
    · exact h.setTask failDependency_sound
    next bytes hread =>
      split
      · refine (h.deliver (hown bytes hread)).setTask (continueInstall_sound fun _ skilllist hlist => ?_)
        obtain ⟨file, hfile, rfl⟩ := read_eq_ok hread
        rw [h.index_own htask hfile skilllist hlist]
      · exact h.setTask failDependency_sound
  | archive job resolved firstError rest =>
    obtain ⟨⟨hresolves, hsource, _⟩, _⟩ := h.tasks t _ htask
    simp only [useTarget]
    split
    next exported hread => exact (h.install (h.archive_own htask hread)).setTask trivial
    next =>
      split
      · exact h.setTask ⟨hresolves, hsource⟩
      · exact h.setTask failDependency_sound

theorem cleanAttempt (h : w.Inv s) (hresolves : Resolves s job resolved)
    (hsource : job.spec.source.sourceType ≠ .bundled) :
    (s.cleanAttempt w t call job resolved first rest removed rootRemoved created).Inv s := by
  unfold Services.cleanAttempt
  split
  · exact h.setTask failDependency_sound
  · dsimp only
    split
    · exact h.removeFile.setTask failDependency_sound
    · exact h.removeFile.setTask (beginArchive_sound hresolves hsource)

theorem bundlePayload (h : w.Inv s) (hresolves : Resolves s job resolved)
    (hsource : job.spec.source.sourceType = .bundled) :
    (s.bundlePayload w t job resolved rest fault).Inv s := by
  unfold Services.bundlePayload
  dsimp only
  split
  · exact h.setTask failDependency_sound
  · exact h.setTask failDependency_sound
  next exported hunpack =>
    obtain ⟨_, _, hunpack⟩ := bind_eq_ok.mp hunpack
    refine (h.install ⟨hresolves, hunpack, Or.inl ?_⟩).setTask trivial
    simp only [source, hsource, if_true]

end

/-- One step that keeps sources apart preserves the invariant. -/
theorem step {a : Action} (h : w.Inv s) (hapart : a.Apart w) (hstep : s.step w a = some w') :
    w'.Inv s := by
  cases a with
  | start t caller created =>
    simp only [Services.step] at hstep
    split at hstep
    · cases hstep
      exact h.setTask begin_sound
    · cases hstep
  | consider t found answers detected created =>
    simp only [Services.step] at hstep
    split at hstep
    · cases hstep
      exact h.setTask trivial
    · cases hstep
      exact h.setTask considerDependency_sound
    · cases hstep
  | lock t =>
    simp only [Services.step] at hstep
    split at hstep
    next call purpose htask =>
      split at hstep
      · cases hstep
        exact h.setLock.setTask ⟨(h.tasks t _ htask).1, trivial⟩
      · cases hstep
    · cases hstep
  | inspect t fault =>
    simp only [Services.step] at hstep
    split at hstep
    next htask =>
      cases hstep
      exact h.inspectTarget (h.tasks t _ htask).1
    · cases hstep
  | reuse t fault =>
    simp only [Services.step] at hstep
    split at hstep
    next htask =>
      cases hstep
      exact h.reuseTarget (h.tasks t _ htask).1 (hapart _ _ htask)
    · cases hstep
  | fetch t fault =>
    simp only [Services.step] at hstep
    split at hstep
    next htask =>
      cases hstep
      exact h.fetchTarget (h.tasks t _ htask).1
    · cases hstep
  | publish t fault =>
    simp only [Services.step] at hstep
    split at hstep
    next htask =>
      cases hstep
      exact h.publishTarget htask hapart
    · cases hstep
  | use t fault detected created =>
    simp only [Services.step] at hstep
    split at hstep
    next htask =>
      cases hstep
      exact h.useTarget htask
    · cases hstep
  | clean t removed rootRemoved created =>
    simp only [Services.step] at hstep
    split at hstep
    next htask =>
      cases hstep
      exact h.cleanAttempt (h.tasks t _ htask).1 (h.tasks t _ htask).2
    · cases hstep
  | bundle t fault =>
    simp only [Services.step] at hstep
    split at hstep
    next htask =>
      cases hstep
      exact h.bundlePayload (h.tasks t _ htask).1 (h.tasks t _ htask).2
    · cases hstep
  | detect t detected =>
    simp only [Services.step] at hstep
    split at hstep
    · cases hstep
      refine h.setTask ?_
      unfold detectInstalled
      split
      · exact failDependency_sound
      · trivial
      · exact failDependency_sound
    · cases hstep
  | remove path =>
    cases hstep
    exact h.removeFile

end World.Inv

theorem Reached.inv (h : Reached s w) : w.Inv s := by
  induction h with
  | start => exact .empty
  | step _ hapart hstep ih => exact ih.step hapart hstep

/-! ## Runs of one task -/

def Action.task : Action → Option ℕ
  | .start t _ _ | .consider t _ _ _ _ | .lock t | .inspect t _ | .reuse t _ | .fetch t _
  | .publish t _ | .use t _ _ _ | .clean t _ _ _ | .bundle t _ | .detect t _ => some t
  | .remove _ => none

def World.SameTasks (t : ℕ) (w w' : World) : Prop := ∀ t' ≠ t, w'.tasks t' = w.tasks t'

theorem World.SameTasks.setTask {v : World} (h : v.tasks = w.tasks) : w.SameTasks t (v.setTask t task) := by
  intro t' hne
  simp [World.setTask, update_of_ne hne, h]

theorem World.SameTasks.hold {v : World} (h : v.tasks = w.tasks) :
    w.SameTasks t (v.hold t call purpose) := by
  unfold World.hold
  dsimp only
  split <;> exact .setTask h

open World (SameTasks) in
theorem Services.step_sameTasks {a : Action} (ha : a.task = some t) (hstep : s.step w a = some w') :
    w.SameTasks t w' := by
  cases a with
  | remove path => cases ha
  | start | consider =>
    cases ha
    simp only [step] at hstep
    split at hstep <;> cases hstep <;> exact .setTask rfl
  | lock =>
    cases ha
    simp only [step] at hstep
    split at hstep
    · split at hstep <;> cases hstep
      exact .setTask rfl
    · cases hstep
  | inspect =>
    cases ha
    simp only [step, inspectTarget] at hstep
    split at hstep <;> cases hstep
    split
    · exact .setTask rfl
    · split <;> exact .setTask rfl
  | reuse =>
    cases ha
    simp only [step, reuseTarget] at hstep
    split at hstep <;> cases hstep
    split
    · exact .hold rfl
    · exact .setTask rfl
    · exact .setTask rfl
  | fetch =>
    cases ha
    simp only [step, fetchTarget] at hstep
    split at hstep <;> cases hstep
    split
    · exact .setTask rfl
    · split
      · exact .setTask rfl
      · exact .setTask rfl
      · split <;> exact .setTask rfl
  | publish =>
    cases ha
    simp only [step, publishTarget] at hstep
    split at hstep <;> cases hstep
    split
    · exact .setTask rfl
    · exact .hold rfl
  | use =>
    cases ha
    simp only [step] at hstep
    split at hstep
    next call purpose htask =>
      cases hstep
      cases purpose <;> simp only [useTarget] <;> split <;>
        first
          | exact .setTask rfl
          | split <;> exact .setTask rfl
    · cases hstep
  | clean =>
    cases ha
    simp only [step, cleanAttempt] at hstep
    split at hstep <;> cases hstep
    split
    · exact .setTask rfl
    · split <;> exact .setTask rfl
  | bundle =>
    cases ha
    simp only [step, bundlePayload] at hstep
    split at hstep <;> cases hstep
    split <;> exact .setTask rfl
  | detect =>
    cases ha
    simp only [step] at hstep
    split at hstep <;> cases hstep
    exact .setTask rfl

/-- The caller has been handed a path and has not read it. -/
def Task.holds : Task → Bool
  | .calling _ .held _ => true
  | _ => false

/-- A test for `Apart` where the tasks are those below `n`. -/
def Action.apart (n : ℕ) (w : World) : Action → Bool
  | .reuse t _ =>
    match w.tasks t with
    | some (.calling call .hit _) =>
      (w.cache call.targetPath).all fun file => file.origin = call.request.sourceLocator
    | _ => true
  | .publish t _ => (range n).all fun t' => t' = t || !(w.tasks t').any Task.holds
  | _ => true

theorem Action.apart_sound {n : ℕ} {a : Action} (hnone : ∀ t ≥ n, w.tasks t = none) (h : a.apart n w) :
    a.Apart w := by
  cases a with
  | reuse t fault =>
    intro call purpose htask _ file hfile
    simpa [apart, htask, hfile] using h
  | publish t fault =>
    cases fault with
    | some error => trivial
    | none =>
      intro call bytes purpose _ t' call' purpose' hne hheld
      have hlt : t' < n := by
        by_contra hge
        rw [hnone t' (not_lt.mp hge)] at hheld
        cases hheld
      simpa [hne, hheld, Task.holds] using all_eq_true.mp h t' (mem_range.mpr hlt)
  | _ => trivial

/-- The run of the tasks below `n`, refused where two sources meet. -/
def Services.runApart (s : Services) (n : ℕ) (w : World) : List Action → Option World
  | [] => some w
  | a :: as =>
    if a.task.any (· < n) && a.apart n w then (s.step w a).bind fun w' => runApart s n w' as else none

theorem Reached.runApart {n : ℕ} (h : Reached s w) (hnone : ∀ t ≥ n, w.tasks t = none)
    (hrun : s.runApart n w actions = some w') : Reached s w' := by
  induction actions generalizing w with
  | nil =>
    cases hrun
    exact h
  | cons a actions ih =>
    simp only [Services.runApart] at hrun
    split at hrun
    next hcheck =>
      simp only [Bool.and_eq_true, Option.any_eq_true, decide_eq_true_eq] at hcheck
      obtain ⟨⟨t, htask, hlt⟩, hapart⟩ := hcheck
      obtain ⟨v, hstep, hrest⟩ := bind_eq_some_iff.mp hrun
      refine ih (h.step (Action.apart_sound hnone hapart) hstep) (fun t' ht' => ?_) hrest
      rw [step_sameTasks htask hstep t' (hlt.trans_le ht').ne', hnone t' ht']
    · cases hrun

/-- In every state of a run that keeps sources apart, each payload handed out and each new
installation belongs to its own source. -/
theorem Reached.belongs (h : Reached s w) : w.Belongs s := h.inv.belongs

/-! ## One tool from two sources -/

namespace Example

def rgPackage (url : String) : DependencyPackageSpec where
  archiveType := .raw
  assetName := none
  url := some url
  path := none
  sha256 := none
  exports := [⟨"rg", "bin/rg", true⟩]

/-- The declaration of ripgrep from one URL, without a digest. -/
def rgSpec (url : String) : DependencySpec where
  name := "rg"
  version := some "14.1.1"
  required := true
  scope := .skill
  source := ⟨.url, none, none⟩
  packages := (∅ : SortedMap String DependencyPackageSpec).insert "linux-x64" (rgPackage url)

def rgManifest (url : String) : PackageDependencyManifest := ⟨[rgSpec url], [], []⟩

def services : Services where
  config := ⟨["tools"], ["host", "tools"], ["lua"], ["host", "lua"], ["ffi"], ["host", "ffi"], ["cache"],
    true, none⟩
  platformKey := "linux-x64"
  digest := fun bytes =>
    if bytes = utf8 "tool-rg-linux-x64" then
      "bbb68ad272bd0655a3f67cd937dffc19c459a15d4e6c5fe5fdc614ae63dc588d"
    else ""
  serve := fun url => if url = "https://example.com/a/rg" then [1] else [2]
  bundled := fun _ => []
  parseIndex := fun _ => .error "not an index"
  unpack := fun _ exports bytes =>
    match exports with
    | [spec] => .ok [(spec.targetPath, bytes)]
    | _ => .error "raw dependency payload must declare exactly one export"

def noAnswers : SourceAnswers := ⟨.error "no index", .error "no release", .error "no bundled payload"⟩

/-- A skill's installation of ripgrep up to the inspection of the cache. -/
def ensure (t : ℕ) (skillId url : String) : List Action :=
  [.start t (.ensureSkillDependencies skillId (rgManifest url)) (.ok ()),
    .consider t (.ok false) noAnswers (.ok false) (.ok ()), .lock t, .inspect t none]

def fetched (t : ℕ) : List Action := [.fetch t none, .publish t none, .use t none (.ok false) (.ok ())]

def cached (t : ℕ) : List Action := [.reuse t none, .use t none (.ok false) (.ok ())]

/-- What an installation says about its source. -/
def record (i : Installation) : DependencySourceType × String × Option String × Payload :=
  (i.job.spec.source.sourceType, i.resolved.downloadUrl, i.resolved.expectedSha256, i.archive)

/-- The second skill's ripgrep is installed from the archive that the first has fetched from the same URL. -/
theorem rg_from_own_source : ∃ w, Reached services w ∧
    w.installed.map record = [(.url, "https://example.com/a/rg", none, [1]),
      (.url, "https://example.com/a/rg", none, [1])] ∧ w.Belongs services := by
  obtain ⟨w, hrun, hrecord⟩ := map_eq_some_iff.mp (show
    (services.runApart 2 .empty (ensure 0 "alpha-skill" "https://example.com/a/rg" ++ fetched 0 ++
      (ensure 1 "beta-skill" "https://example.com/a/rg" ++ cached 1))).map
      (fun w => w.installed.map record) =
        some [(.url, "https://example.com/a/rg", none, [1]),
          (.url, "https://example.com/a/rg", none, [1])] by
      decide +kernel)
  have hreached : Reached services w := Reached.start.runApart (fun _ _ => rfl) hrun
  exact ⟨w, hreached, hrecord, hreached.belongs⟩

/-- The second skill's ripgrep is installed from the archive of the first one's URL. -/
theorem rg_from_other_source :
    ¬ ∀ actions w, services.run .empty actions = some w → w.Belongs services := by
  intro h
  obtain ⟨w, hrun, hrecord⟩ := map_eq_some_iff.mp (show
    (services.run .empty (ensure 0 "alpha-skill" "https://example.com/a/rg" ++ fetched 0 ++
      (ensure 1 "beta-skill" "https://example.com/b/rg" ++ cached 1))).map
      (fun w => w.installed.map record) =
        some [(.url, "https://example.com/a/rg", none, [1]),
          (.url, "https://example.com/b/rg", none, [1])] by
      decide +kernel)
  have hmem : (DependencySourceType.url, "https://example.com/b/rg", (none : Option String), [1]) ∈
      w.installed.map record := by
    rw [hrecord]
    simp
  obtain ⟨i, hi, hirecord⟩ := mem_map.mp hmem
  simp only [record, Prod.mk.injEq] at hirecord
  obtain ⟨htype, hurl, hexpected, harchive⟩ := hirecord
  rcases ((h _ w hrun).installed i hi).archive with hsource | hdigest
  · rw [harchive, source, htype, hurl] at hsource
    exact absurd hsource (by decide)
  · simp [hexpected] at hdigest

end Example

end LuaSkills.Download
