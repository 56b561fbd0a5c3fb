import LuaSkills.Dependency.Ensure

/-!
# A dependency that is detected is complete

Detection looks for the exported files only. Between attempts every file in the area that the manager
writes holds the full bytes of a member, as long as a failed installation is always cleaned up. The
installation after a second download is not: what it wrote before it failed is taken for the dependency
from then on.
-/

namespace LuaSkills.Dependency.OnDisk

open EStateM FileStore List
open Archive (Payload)
open EnsureProg (runFiles)

/-! ## What holds between attempts -/

/-- Every file in the managed area holds the full bytes of a member from an installation of `Admits`. -/
def Backed (config : DependencyManagerConfig) (Admits : ResolvedDependencyRequest → Prop)
    (w : DependencyWorld) : Prop :=
  ∀ p, Managed config p → w.store.IsFile p → ∃ installation ∈ w.installed,
    Admits installation.request ∧ ∃ archivePath,
      installation.Supplies archivePath p (w.store.contents p)

section
variable {Admits : ResolvedDependencyRequest → Prop} {config : DependencyManagerConfig} {digest : Digest} {w₀ w w₁ w₂ : DependencyWorld}
  {request : ResolvedDependencyRequest} {payload : Payload} {faults : List (Option CallFault)}
  {p : Path} {job : DependencyJob} {answers : EnsureAnswers}

/-- A file that did not change holds what it held. -/
theorem Backed.kept (B : Backed config Admits w₀) (hp : Managed config p) (hfile : w₀.store.IsFile p)
    (hcontents : w.store.contents p = w₀.store.contents p)
    (hinstalled : w₀.installed ⊆ w.installed) : ∃ installation ∈ w.installed,
      Admits installation.request ∧ ∃ archivePath,
        installation.Supplies archivePath p (w.store.contents p) := by
  obtain ⟨installation, hmem, hadmits, hsupplies⟩ := B p hp hfile
  exact ⟨installation, hinstalled hmem, hadmits, by rwa [hcontents]⟩

theorem triple_backed_installPayload (B : Backed config Admits w₀) (hadmits : Admits request) :
    Triple (· = w₀) (installPayload request payload faults) (fun _ => Backed config Admits)
      fun w => ∃ e, installPayload request payload faults w₀ = .error e w := by
  refine (triple_installPayload.and (Triple.run (installPayload request payload faults))).mono
    (fun _ hw => ⟨hw, hw⟩) ?_ fun w hw => hw.2
  intro _ w ⟨⟨hinstalled, hfiles⟩, _⟩ p hp hfile
  rcases hfiles p hfile with hsupplies | ⟨hfile₀, hcontents⟩
  · exact ⟨_, by rw [hinstalled]; exact mem_append_right _ mem_cons_self, hadmits, hsupplies⟩
  · exact B.kept hp hfile₀ hcontents (by rw [hinstalled]; exact subset_append_left _ _)

/-- Behind a clean-up only files outside of the failed root are left, and these did not change. -/
theorem backed_removed (B : Backed config Admits w₀)
    (hfailed : installPayload request payload faults w₀ = .error error w₁)
    (hremoved : Removed request.installRoot w₁.store w₂.store) (hsame : w₂.installed = w₁.installed) :
    Backed config Admits w₂ := by
  obtain ⟨⟨ts, hts, htouched⟩, hinstalled⟩ := triple_installPayload.error rfl hfailed
  intro p hp hfile
  have hout : ¬ request.installRoot <+: p := fun h => hremoved.1 p h hfile
  obtain ⟨hcontents, hfile₁⟩ := hremoved.2 p hout
  obtain ⟨hcontents₀, hfile₀⟩ := htouched.other fun hmem => hout (hts p hmem)
  exact B.kept hp (hfile₀.1 (hfile₁ hfile)) (hcontents.trans hcontents₀)
    (by rw [hsame, hinstalled]; exact Subset.refl _)

theorem triple_backed_cleanup (B : Backed config Admits w₀) (T : Tidy config digest w₀ job answers)
    (hprepare : prepareDependency config digest job answers w₀ = .ok (.missing request) w₀)
    (hdownload : answers.first.download = .ok payload) :
    Triple (fun w₁ => ∃ e, installPayload request payload answers.first.faults w₀ = .error e w₁)
      (runFiles answers.cleanup (cleanupOf job request.installRoot))
      (fun _ w₂ => Backed config Admits w₂ ∧ ∃ e w₁,
        installPayload request payload answers.first.faults w₀ = .error e w₁ ∧
          runFiles answers.cleanup (cleanupOf job request.installRoot) w₁ = .ok () w₂)
      fun _ => False := by
  apply Triple.of_forall
  intro w₁ ⟨e, hfailed⟩
  obtain ⟨w₂, hcleaned⟩ := T.cleanup request w₀ payload e w₁ hprepare hdownload hfailed
  intro w hw
  subst hw
  rw [hcleaned]
  have hremoved := (triple_runFiles (Q := fun _ s => Removed request.installRoot w.store s)
    (E := fun _ => True) triple_cleanupOf).ok rfl hcleaned
  exact ⟨backed_removed B hfailed hremoved.1 hremoved.2, e, w, hfailed, hcleaned⟩

/-- The detection at the end changes nothing. -/
theorem triple_backed_detection {present missing : EnsureProg Unit}
    (hpresent : Triple (Backed config Admits) present (fun _ => Backed config Admits) (Backed config Admits))
    (hmissing : Triple (Backed config Admits) missing (fun _ => Backed config Admits) (Backed config Admits)) :
    Triple (Backed config Admits)
      (runFiles faults (detectDependency request) >>= fun status =>
        match status with
        | .present => present
        | .missing => missing) (fun _ => Backed config Admits) (Backed config Admits) := by
  apply Triple.of_forall
  intro w₀ B
  apply Triple.bind (Q := fun _ => Backed config Admits)
  · exact triple_runFiles_check.mono (fun _ hw => hw) (fun _ _ hw => hw ▸ B) fun _ hw => hw ▸ B
  · intro status
    cases status with
    | present => exact hpresent
    | missing => exact hmissing

theorem triple_bundled (B : Backed config Admits w₀) (T : Tidy config digest w₀ job answers)
    (hadmits : Admits request)
    (hbundled : bundled job = true)
    (hprepare : prepareDependency config digest job answers w₀ = .ok (.missing request) w₀) :
    Triple (· = w₀) (installBundledDependency request answers) (fun _ => Backed config Admits)
      (Backed config Admits) := by
  unfold installBundledDependency
  apply (triple_ofExcept.mono (fun _ hw => hw) (fun _ _ hw => hw) fun _ hw => hw ▸ B).bind
  intro payload
  apply Triple.of_and
  intro hdownload
  apply Triple.bind (Q := fun _ => Backed config Admits)
  · refine Triple.tryCatch (triple_backed_installPayload B hadmits) fun error => ?_
    have hcleanup := triple_backed_cleanup B T hprepare hdownload
    rw [cleanupOf, if_pos hbundled] at hcleanup
    apply (hcleanup.mono (fun _ hw => hw) (fun _ _ hw => hw.1) fun _ hw => hw.elim).bind
    intro _
    exact .throw fun _ hw => hw
  · intro _
    exact triple_backed_detection (.pure fun _ hw => hw) (.throw fun _ hw => hw)

theorem triple_remote (B : Backed config Admits w₀) (T : Tidy config digest w₀ job answers)
    (hadmits : Admits request)
    (hremote : bundled job = false)
    (hprepare : prepareDependency config digest job answers w₀ = .ok (.missing request) w₀) :
    Triple (· = w₀) (installRemoteDependency request answers) (fun _ => Backed config Admits)
      (Backed config Admits) := by
  unfold installRemoteDependency
  apply (triple_ofExcept.mono (fun _ hw => hw) (fun _ _ hw => hw) fun _ hw => hw ▸ B).bind
  intro payload
  apply Triple.of_and
  intro hdownload
  apply Triple.bind (Q := fun _ => Backed config Admits)
  · refine Triple.tryCatch (triple_backed_installPayload B hadmits) fun firstError => ?_
    have hcleanup := triple_backed_cleanup B T hprepare hdownload
    rw [show cleanupOf job request.installRoot =
      cleanupFailedDependencyInstallAttempt request.installRoot by rw [cleanupOf, hremote]; rfl]
      at hcleanup
    apply (hcleanup.mono (fun _ hw => hw) (fun _ _ hw => hw) fun _ hw => hw.elim).bind
    intro _
    apply Triple.of_forall
    intro w₂ ⟨B₂, e, w₁, hfailed, hcleaned⟩
    apply (triple_ofExcept.mono (fun _ hw => hw) (fun _ _ hw => hw) fun _ hw => hw ▸ B₂).bind
    intro redownloaded
    apply Triple.of_and
    intro hredownload
    -- The second installation of a tidy attempt does not fail.
    have hretry := T.retry hremote request w₀ payload e w₁ w₂ redownloaded hprepare hdownload hfailed
      (by rwa [show cleanupOf job request.installRoot =
        cleanupFailedDependencyInstallAttempt request.installRoot by rw [cleanupOf, hremote]; rfl])
      hredownload
    have hretried : Triple (· = w₂) (installPayload request redownloaded answers.second.faults)
        (fun _ => Backed config Admits) fun _ => False := by
      refine (triple_backed_installPayload B₂ hadmits).mono (fun _ hw => hw) (fun _ _ hw => hw) ?_
      intro w ⟨e', hw⟩
      obtain ⟨w₃, hok⟩ := hretry
      cases hok.symm.trans hw
    exact Triple.tryCatch hretried fun _ => fun _ hw => hw.elim
  · intro _
    exact triple_backed_detection (.pure fun _ hw => hw) (.throw fun _ hw => hw)

theorem triple_installDependency (B : Backed config Admits w₀) (T : Tidy config digest w₀ job answers)
    (hadmits : ∀ request w₁, prepareDependency config digest job answers w₀ = .ok (.missing request) w₁ →
      Admits request) :
    Triple (· = w₀) (installDependency config digest job answers) (fun _ => Backed config Admits)
      (Backed config Admits) := by
  unfold installDependency
  have hprepare : Triple (· = w₀) (prepareDependency config digest job answers)
      (fun prepared w => prepareDependency config digest job answers w₀ = .ok prepared w₀ ∧ w = w₀)
      (Backed config Admits) := by
    refine (triple_prepareDependency.and (Triple.run _)).mono (fun _ hw => ⟨hw, hw⟩) ?_ ?_
    · intro prepared w ⟨hw, hrun⟩
      exact ⟨hw ▸ hrun, hw⟩
    · exact fun w hw => hw.1 ▸ B
  apply hprepare.bind
  intro prepared
  apply Triple.of_and
  intro hrun
  cases prepared with
  | present request => exact .pure fun _ hw => hw ▸ B
  | missing request =>
    dsimp only
    split
    next hbundled =>
      apply (triple_bundled B T (hadmits request w₀ hrun) hbundled hrun).bind
      intro _
      exact .pure fun _ hw => hw
    next hremote =>
      apply (triple_remote B T (hadmits request w₀ hrun) (Bool.not_eq_true _ ▸ hremote) hrun).bind
      intro _
      exact .pure fun _ hw => hw

/-- One tidy attempt, whatever it returns. -/
theorem backed_attempt {attempt : DependencyJob × EnsureAnswers} (B : Backed config Admits w)
    (T : Tidy config digest w attempt.1 attempt.2)
    (hadmits : ∀ request w₁, prepareDependency config digest attempt.1 attempt.2 w =
      .ok (.missing request) w₁ → Admits request) :
    Backed config Admits (w.attempt config digest attempt) := by
  have htriple := triple_installDependency B T hadmits w rfl
  unfold DependencyWorld.attempt
  cases hrun : installDependency config digest attempt.1 attempt.2 w with
  | ok request w' =>
    rw [hrun] at htriple
    exact htriple
  | error e w' =>
    rw [hrun] at htriple
    exact htriple

theorem backed_history (B : Backed config Admits w) (T : TidyHistory config digest w attempts)
    (hadmits : ∀ before attempt after, attempts = before ++ attempt :: after → ∀ request w₁,
      prepareDependency config digest attempt.1 attempt.2 (w.history config digest before) =
        .ok (.missing request) w₁ → Admits request) :
    Backed config Admits (w.history config digest attempts) := by
  induction attempts using reverseRecOn with
  | nil => exact B
  | append_singleton attempts attempt ih =>
    rw [DependencyWorld.history, foldl_append]
    refine backed_attempt (ih (fun before a after h => ?_) fun before a after h => ?_)
      (T attempts attempt [] rfl) (hadmits attempts attempt [] rfl)
    · exact T before a (after ++ [attempt]) (by rw [h]; simp)
    · exact hadmits before a (after ++ [attempt]) (by rw [h]; simp)

end

/-- In a history of tidy attempts over an area that only the manager writes, a dependency whose targets
were never installed from other members is complete when it is detected. -/
theorem detected_complete (config : DependencyManagerConfig) (digest : Digest) (w : DependencyWorld)
    (attempts : List (DependencyJob × EnsureAnswers))
    (hfresh : ∀ p, Managed config p → ¬ w.store.IsFile p) (htidy : TidyHistory config digest w attempts)
    (request : ResolvedDependencyRequest) (hmanaged : Managed config request.installRoot)
    (hsettled : Settled config digest w attempts request)
    (hpresent : Dependency.detectDependency (w.history config digest attempts).store.tree request =
      .ok .present) :
    (w.history config digest attempts).Complete request := by
  have B : Backed config (SameMembers request) (w.history config digest attempts) :=
    backed_history (fun p hp hfile => absurd hfile (hfresh p hp)) htidy hsettled
  intro spec hspec
  obtain ⟨target, htarget, hready⟩ := (detectDependency_eq_present.1 hpresent).2 spec hspec
  have hfile : (w.history config digest attempts).store.IsFile target := by
    unfold dependencyExportTargetIsReady at hready
    split at hready
    next mode hmode => exact ⟨mode, hmode⟩
    next => cases hready
  have hbelow : Managed config target := by
    obtain ⟨kind, hkind⟩ := hmanaged
    obtain ⟨names, -, rfl, -⟩ := resolveTarget_eq_ok htarget
    exact ⟨kind, hkind.trans (prefix_append _ _)⟩
  obtain ⟨installation, hmem, hsame, archivePath, ⟨export_, hexport, rfl, htarget'⟩, hbytes⟩ :=
    B target hbelow hfile
  have hpath := hsame spec hspec export_ hexport target htarget htarget'
  rw [hpath] at hbytes
  exact ⟨target, htarget, installation, hmem, ⟨export_, hexport, hpath, htarget'⟩, hbytes⟩

/-! ## A retry that is cut off -/

/-- The library `words` in one zip archive with one file. -/
def wordsJob : DependencyJob where
  skillId := "demo-skill"
  kind := .lua
  spec :=
    { name := "words"
      version := some "1.0"
      required := true
      scope := .skill
      source := ⟨.url, none, none⟩
      packages := (∅ : SortedMap String DependencyPackageSpec).insert "linux-x64"
        { archiveType := .zip
          assetName := none
          url := some "https://example.com/words.zip"
          path := none
          sha256 := none
          exports := [⟨"words.lua", "words.lua", false⟩] } }
  platformKey := "linux-x64"

def wordsConfig : DependencyManagerConfig :=
  ⟨["tools"], ["host", "tools"], ["lua"], ["host", "lua"], ["ffi"], ["host", "ffi"], ["cache"], true, none⟩

def wordsRequest : ResolvedDependencyRequest where
  kind := .lua
  name := "words"
  scope := .skill
  platformKey := "linux-x64"
  downloadUrl := "https://example.com/words.zip"
  expectedSha256 := none
  version := some "1.0"
  installRoot := ["lua", "demo-skill", "words", "1.0", "linux-x64"]
  archiveType := .zip
  exports := [⟨"words.lua", "words.lua", false⟩]

def wordsPayload : Payload := ⟨[], false, .ok [⟨"words.lua", [104, 105]⟩], []⟩

/-- Both downloads succeed, and the installations meet `faults`. -/
def wordsAnswers (faults : List (Option CallFault)) : EnsureAnswers where
  source := ⟨.error "no index", .error "no release", .error "no bundled payload"⟩
  probe := []
  recheck := []
  first := ⟨.ok wordsPayload, faults⟩
  cleanup := []
  second := ⟨.ok wordsPayload, faults⟩
  detection := []

def emptyWorld : DependencyWorld := ⟨⟨.empty, fun _ => []⟩, []⟩

/-- The disk is full after the first byte of the member. -/
def diskFull : List (Option CallFault) :=
  [none, none, none, none, none, some ⟨"No space left on device", some 1, fun _ => false⟩]

theorem emptyWorld_fresh (p : Path) : ¬ emptyWorld.store.IsFile p := by
  rintro ⟨mode, hmode⟩
  cases hmode

theorem managed_words : Managed wordsConfig wordsRequest.installRoot :=
  ⟨.lua, ["demo-skill", "words", "1.0", "linux-x64"], rfl⟩

/-- An attempt whose first installation does not fail is tidy. -/
theorem Tidy.of_ok
    (h : ∀ request payload, prepareDependency config digest job answers w = .ok (.missing request) w →
      answers.first.download = .ok payload →
        ∃ w₁, installPayload request payload answers.first.faults w = .ok () w₁) :
    Tidy config digest w job answers := by
  have hcontra : ∀ request w₀ payload error w₁,
      prepareDependency config digest job answers w = .ok (.missing request) w₀ →
      answers.first.download = .ok payload →
      installPayload request payload answers.first.faults w₀ ≠ .error error w₁ := by
    intro request w₀ payload error w₁ hprepare hdownload hfailed
    cases triple_prepareDependency.ok rfl hprepare
    obtain ⟨w₁', hok⟩ := h request payload hprepare hdownload
    cases hok.symm.trans hfailed
  constructor
  case cleanup => exact fun _ _ _ _ _ hprepare hdownload hfailed =>
    (hcontra _ _ _ _ _ hprepare hdownload hfailed).elim
  case retry => exact fun _ _ _ _ _ _ _ _ hprepare hdownload hfailed =>
    (hcontra _ _ _ _ _ hprepare hdownload hfailed).elim

def preparedMissing : EStateM.Result String DependencyWorld Prepared → Option ResolvedDependencyRequest
  | .ok (.missing request) _ => some request
  | _ => none

def endedWell {α : Type} : EStateM.Result String DependencyWorld α → Bool
  | .ok _ _ => true
  | .error _ _ => false

theorem detected_complete_words :
    (∀ p, Managed wordsConfig p → ¬ emptyWorld.store.IsFile p) ∧
    TidyHistory wordsConfig (fun _ => "") emptyWorld [(wordsJob, wordsAnswers [])] ∧
    Managed wordsConfig wordsRequest.installRoot ∧
    Dependency.detectDependency (emptyWorld.history wordsConfig (fun _ => "")
      [(wordsJob, wordsAnswers [])]).store.tree wordsRequest = .ok .present ∧
    Settled wordsConfig (fun _ => "") emptyWorld [(wordsJob, wordsAnswers [])] wordsRequest ∧
    (emptyWorld.history wordsConfig (fun _ => "") [(wordsJob, wordsAnswers [])]).Complete
      wordsRequest := by
  have hfresh : ∀ p, Managed wordsConfig p → ¬ emptyWorld.store.IsFile p :=
    fun p _ => emptyWorld_fresh p
  have hprepared : ∀ request w, prepareDependency wordsConfig (fun _ => "") wordsJob (wordsAnswers [])
      emptyWorld = .ok (.missing request) w → request = wordsRequest := by
    intro request w hprepare
    have hrequest : preparedMissing (prepareDependency wordsConfig (fun _ => "") wordsJob
        (wordsAnswers []) emptyWorld) = some wordsRequest := by decide +kernel
    rw [hprepare] at hrequest
    exact Option.some.inj hrequest
  have hsettled : Settled wordsConfig (fun _ => "") emptyWorld [(wordsJob, wordsAnswers [])]
      wordsRequest := by
    intro before attempt after h other w hprepare
    cases before with
    | nil =>
      cases h
      obtain rfl := hprepared other w hprepare
      intro spec hspec export_ hexport _ _ _
      rw [mem_singleton.1 hspec, mem_singleton.1 hexport]
    | cons first before => simp at h
  have htidy : TidyHistory wordsConfig (fun _ => "") emptyWorld [(wordsJob, wordsAnswers [])] := by
    intro before attempt after h
    cases before with
    | nil =>
      cases h
      refine Tidy.of_ok fun request payload hprepare hdownload => ?_
      cases hdownload
      rw [show emptyWorld.history wordsConfig (fun _ => "") [] = emptyWorld from rfl] at hprepare ⊢
      obtain rfl := hprepared request emptyWorld hprepare
      have hended : endedWell (installPayload wordsRequest wordsPayload [] emptyWorld) = true := by
        decide +kernel
      generalize hrun : installPayload wordsRequest wordsPayload [] emptyWorld = result at hended
      cases result with
      | ok u w₁ => exact ⟨w₁, hrun⟩
      | error e w₁ => cases hended
    | cons first before => simp at h
  have hpresent : Dependency.detectDependency (emptyWorld.history wordsConfig (fun _ => "")
      [(wordsJob, wordsAnswers [])]).store.tree wordsRequest = .ok .present := by decide +kernel
  exact ⟨hfresh, htidy, managed_words, hpresent, hsettled, detected_complete wordsConfig _ emptyWorld _
    hfresh htidy wordsRequest managed_words hsettled hpresent⟩

/-- Both installations of one attempt run out of space; the attempt fails, its file is cut off after
one byte, and from then on the dependency is present. -/
theorem truncated_is_present :
    ¬ ∀ (w : DependencyWorld) (attempts : List (DependencyJob × EnsureAnswers)),
      (∀ p, Managed wordsConfig p → ¬ w.store.IsFile p) →
      ∀ request, Managed wordsConfig request.installRoot →
        Dependency.detectDependency (w.history wordsConfig (fun _ => "") attempts).store.tree request =
          .ok .present →
        (w.history wordsConfig (fun _ => "") attempts).Complete request := by
  intro h
  have hpresent : Dependency.detectDependency (emptyWorld.history wordsConfig (fun _ => "")
      [(wordsJob, wordsAnswers diskFull)]).store.tree wordsRequest = .ok .present := by decide +kernel
  obtain ⟨target, -, installation, hmem, -⟩ := h emptyWorld [(wordsJob, wordsAnswers diskFull)]
    (fun p _ => emptyWorld_fresh p) wordsRequest managed_words hpresent _ mem_cons_self
  have hnone : (emptyWorld.history wordsConfig (fun _ => "")
      [(wordsJob, wordsAnswers diskFull)]).installed.length = 0 := by decide +kernel
  rw [length_eq_zero_iff.1 hnone] at hmem
  cases hmem

end LuaSkills.Dependency.OnDisk
