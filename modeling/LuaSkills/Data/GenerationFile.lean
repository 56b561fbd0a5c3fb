import LuaSkills.Data.PositionedBytes
import LuaSkills.Data.Triples

/-!
# A file with generations, and calls that can fail

Every change of the file at a path, by a call or by others, starts a new generation of it. The programs
over the file make calls that take the environment's answers: a call takes place, or it fails, and a
failed write leaves the first bytes of its payload. The rules for the calls say what the file holds after
a program and that every change gave it a later generation; a program that no answer makes fail does not
stop.
-/

structure StoredFile where
  bytes : List UInt8
  generation : ℕ
deriving DecidableEq

/-- What is at a path, and the next generation. -/
structure FilePlace where
  file : Option StoredFile
  clock : ℕ
deriving DecidableEq

/-- The failure of a call; a failed write has written the first `done` bytes. -/
structure PathFault where
  error : String
  done : ℕ

inductive PathError where
  | notFound
  | other (error : String)

/-- A place with the answers to the calls to come; calls beyond them do not fail by themselves. -/
structure PathWorld where
  place : FilePlace
  answers : List (Option PathFault)

abbrev PathProg := EStateM PathError PathWorld

namespace FilePlace

def bytes (p : FilePlace) : Option (List UInt8) := p.file.map (·.bytes)

/-- The file is changed to these bytes, or removed. -/
def change (p : FilePlace) (bytes : Option (List UInt8)) : FilePlace where
  file := bytes.map fun b => ⟨b, p.clock⟩
  clock := p.clock + 1

/-- The bytes laid over those of the file from `pos` on; writing nothing changes nothing. -/
def overlay (p : FilePlace) (pos : ℕ) (payload : List UInt8) : FilePlace :=
  match p.file with
  | some f => if payload = [] then p else p.change (some (f.bytes.overlay 0 pos payload))
  | none => p

def setLen (p : FilePlace) (n : ℕ) : FilePlace :=
  match p.file with
  | some f => p.change (some (f.bytes.resize 0 n))
  | none => p

end FilePlace

namespace PathProg

/-- A call that takes place, or fails and leaves what `torn` says. -/
def perform {α : Type} (whole : FilePlace → Except PathError (α × FilePlace))
    (torn : ℕ → FilePlace → FilePlace) : PathProg α := fun w =>
  match w.answers.head?.join with
  | some fault => .error (.other fault.error) ⟨torn fault.done w.place, w.answers.tail⟩
  | none =>
    match whole w.place with
    | .ok (a, p) => .ok a ⟨p, w.answers.tail⟩
    | .error e => .error e ⟨w.place, w.answers.tail⟩

/-- A call that changes nothing and needs no file, such as a seek or a flush. -/
def probe : PathProg Unit := perform (fun p => .ok ((), p)) fun _ p => p

/-- `create(true).write(true).truncate(true)`. -/
def openTruncate : PathProg Unit := perform (fun p => .ok ((), p.change (some []))) fun _ p => p

/-- `create(true).append(true)`. -/
def openAppend : PathProg Unit :=
  perform (fun p => .ok ((), if p.file.isSome then p else p.change (some []))) fun _ p => p

/-- `write_all` at a position. -/
def writeAt (pos : ℕ) (payload : List UInt8) : PathProg Unit :=
  perform (fun p => .ok ((), p.overlay pos payload)) fun n p => p.overlay pos (payload.take n)

/-- `write_all` at the end. -/
def writeEnd (payload : List UInt8) : PathProg Unit := fun w =>
  writeAt (w.place.bytes.getD []).length payload w

def setLen (n : ℕ) : PathProg Unit := perform (fun p => .ok ((), p.setLen n)) fun _ p => p

/-- A call that only looks at the file, which has to be there. -/
def look {α : Type} (seen : StoredFile → α) : PathProg α :=
  perform (fun p => (p.file.map seen).elim (.error .notFound) fun a => .ok (a, p)) fun _ p => p

abbrev openExisting : PathProg Unit := look fun _ => ()

/-- What the file shows of its generation. -/
abbrev observe {F : Type} (observed : StoredFile → F) : PathProg F := look observed

/-- Reading the whole file. -/
abbrev readToEnd : PathProg (List UInt8) := look (·.bytes)

def remove : PathProg Unit :=
  perform (fun p => if p.file.isSome then .ok ((), p.change none) else .error .notFound) fun _ p => p

/-- The outcome of a call for which a missing file is no failure. -/
def ifPresent {α : Type} (x : PathProg α) : PathProg (Option α) := fun w =>
  match x w with
  | .ok a w' => .ok (some a) w'
  | .error .notFound w' => .ok none w'
  | .error e w' => .error e w'

end PathProg

/-! ## Later places -/

namespace FilePlace

/-- The file is the one of `p`, or it was changed since. -/
structure Later (p p' : FilePlace) : Prop where
  clock : p.clock ≤ p'.clock
  file : p'.file = p.file ∨ ∀ f ∈ p'.file, p.clock ≤ f.generation

def Dated (p : FilePlace) : Prop := ∀ f ∈ p.file, f.generation < p.clock

/-- A place before any change. -/
def start (bytes : Option (List UInt8)) : FilePlace := ⟨bytes.map (⟨·, 0⟩), 1⟩

/-- What can be reached from `p₀` by changes. -/
structure Reached (p₀ p : FilePlace) : Prop where
  later : p₀.Later p
  dated : p.Dated

structure Holding (p₀ : FilePlace) (b : List UInt8) (p : FilePlace) : Prop extends Reached p₀ p where
  holds : p.bytes = some b

variable {p₀ p p' p'' : FilePlace} {b payload : List UInt8} {new : Option (List UInt8)} {pos n : ℕ}

@[simp] theorem change_bytes : (p.change new).bytes = new := by
  cases new <;> rfl

theorem dated_change : (p.change new).Dated := by
  intro f hf
  obtain ⟨b, -, rfl⟩ := Option.map_eq_some_iff.1 hf
  exact Nat.lt_succ_self _

theorem dated_start {bytes : Option (List UInt8)} : (start bytes).Dated := by
  intro f hf
  obtain ⟨b, -, rfl⟩ := Option.map_eq_some_iff.1 hf
  exact Nat.zero_lt_one

namespace Later

theorem refl (p : FilePlace) : p.Later p where
  clock := Nat.le_refl _
  file := .inl rfl

theorem trans (h : p.Later p') (h' : p'.Later p'') : p.Later p'' where
  clock := Nat.le_trans h.clock h'.clock
  file := by
    rcases h'.file with hsame | hnew
    · rcases h.file with hsame' | hnew'
      · exact .inl (hsame.trans hsame')
      · exact .inr fun f hf => hnew' f (hsame ▸ hf)
    · exact .inr fun f hf => Nat.le_trans h.clock (hnew f hf)

theorem change : p.Later (p.change new) where
  clock := Nat.le_succ _
  file := by
    refine .inr ?_
    intro f hf
    obtain ⟨b, -, rfl⟩ := Option.map_eq_some_iff.1 hf
    exact Nat.le_refl _

theorem eq_of_generation_lt (h : p.Later p') (hf : p'.file = some f) (hlt : f.generation < p.clock) :
    p.file = some f := by
  rcases h.file with hsame | hnew
  · exact hsame ▸ hf
  · exact absurd (hnew f hf) (Nat.not_le.2 hlt)

end Later

namespace Reached

theorem refl (h : p.Dated) : Reached p p := ⟨.refl p, h⟩

theorem change (h : Reached p₀ p) : Holding p₀ b (p.change (some b)) :=
  ⟨⟨h.later.trans .change, dated_change⟩, change_bytes⟩

theorem changed (h : Reached p₀ p) : Reached p₀ (p.change new) := ⟨h.later.trans .change, dated_change⟩

theorem overlay (h : Reached p₀ p) : Reached p₀ (p.overlay pos payload) := by
  unfold FilePlace.overlay
  split
  · split
    · exact h
    · exact h.changed
  · exact h

end Reached

namespace Holding

theorem file_eq (h : Holding p₀ b p) : ∃ g, p.file = some ⟨b, g⟩ := by
  obtain ⟨f, hf, rfl⟩ := Option.map_eq_some_iff.1 h.holds
  exact ⟨f.generation, hf⟩

theorem overlay (h : Holding p₀ b p) (hpos : pos ≤ b.length) :
    Holding p₀ (b.overlay 0 pos payload) (p.overlay pos payload) := by
  obtain ⟨g, hg⟩ := h.file_eq
  simp only [FilePlace.overlay, hg]
  split
  next hnil =>
    rw [hnil, List.overlay_nil hpos]
    exact h
  next => exact h.toReached.change

theorem setLen (h : Holding p₀ b p) : Holding p₀ (b.resize 0 n) (p.setLen n) := by
  obtain ⟨g, hg⟩ := h.file_eq
  simp only [FilePlace.setLen, hg]
  exact h.toReached.change

end Holding

end FilePlace

/-! ## Rules for the calls -/

/-- `P` holds of the place, and an answer is left only if `A` allows it. -/
structure PathWorld.Under (A : Prop) (P : FilePlace → Prop) (w : PathWorld) : Prop where
  place : P w.place
  answers : w.answers ≠ [] → A

/-- The end of a program that an answer made fail. -/
def PathWorld.Failed (A : Prop) (P : FilePlace → Prop) (w : PathWorld) : Prop := A ∧ P w.place

namespace PathProg
open EStateM PathWorld FilePlace

variable {A : Prop} {α : Type} {P E : FilePlace → Prop} {Q : α → FilePlace → Prop} {p₀ : FilePlace}
  {b payload : List UInt8} {pos n : ℕ}

theorem triple_perform {torn : ℕ → FilePlace → FilePlace}
    (hok : ∀ p a p', P p → whole p = .ok (a, p') → Q a p')
    (hrefused : ∀ p e, P p → whole p = .error e → A ∧ E p) (htorn : ∀ n p, P p → E (torn n p)) :
    Triple (Under A P) (perform whole torn) (fun a => Under A (Q a)) (Failed A E) := by
  intro w hw
  have htail : w.answers.tail ≠ [] → A := fun h => hw.answers fun hnil => h (by rw [hnil]; rfl)
  unfold perform
  cases hanswer : w.answers.head?.join with
  | some fault =>
    have hne : w.answers ≠ [] := by
      rintro hnil
      rw [hnil] at hanswer
      cases hanswer
    exact ⟨hw.answers hne, htorn _ _ hw.place⟩
  | none =>
    simp only
    cases hwhole : whole w.place with
    | ok r => exact ⟨hok _ _ _ hw.place hwhole, htail⟩
    | error e => exact hrefused _ _ hw.place hwhole

theorem triple_probe (hE : ∀ p, P p → E p) :
    Triple (Under A P) probe (fun _ => Under A P) (Failed A E) := by
  apply triple_perform
  · rintro p a p' hp ⟨⟩
    exact hp
  · exact fun p e _ => nofun
  · exact fun _ p hp => hE p hp

theorem triple_openTruncate : Triple (Under A (Reached p₀)) openTruncate
    (fun _ => Under A (Holding p₀ [])) (Failed A (Reached p₀)) := by
  apply triple_perform
  · rintro p a p' hp ⟨⟩
    exact hp.change
  · exact fun p e _ => nofun
  · exact fun _ _ hp => hp

theorem triple_writeAt (hpos : pos ≤ b.length) : Triple (Under A (Holding p₀ b)) (writeAt pos payload)
    (fun _ => Under A (Holding p₀ (b.overlay 0 pos payload))) (Failed A (Reached p₀)) := by
  apply triple_perform
  · rintro p a p' hp ⟨⟩
    exact hp.overlay hpos
  · exact fun p e _ => nofun
  · exact fun _ _ hp => hp.toReached.overlay

theorem triple_setLen : Triple (Under A (Holding p₀ b)) (setLen n)
    (fun _ => Under A (Holding p₀ (b.resize 0 n))) (Failed A (Reached p₀)) := by
  apply triple_perform
  · rintro p a p' hp ⟨⟩
    exact hp.setLen
  · exact fun p e _ => nofun
  · exact fun _ _ hp => hp.toReached

/-- A call that only looks at the file; `A` has to allow that there is none. -/
theorem triple_look {seen : StoredFile → α} (hfile : (∀ p, P p → ∃ f, p.file = some f) ∨ A)
    (hE : ∀ p, P p → E p) : Triple (Under A P) (look seen)
      (fun a => Under A fun p => P p ∧ ∃ f, p.file = some f ∧ a = seen f) (Failed A E) := by
  apply triple_perform
  · intro p a p' hp h
    cases hsome : p.file with
    | none =>
      rw [hsome] at h
      cases h
    | some f =>
      rw [hsome] at h
      cases h
      exact ⟨hp, f, hsome, rfl⟩
  · intro p e hp h
    cases hsome : p.file with
    | none =>
      refine ⟨hfile.resolve_left fun hP => ?_, hE p hp⟩
      obtain ⟨f, hf⟩ := hP p hp
      rw [hsome] at hf
      cases hf
    | some f =>
      rw [hsome] at h
      cases h
  · exact fun _ p hp => hE p hp

/-- A missing file found on the way leaves what a failure leaves. -/
theorem triple_ifPresent {x : PathProg α} {P E : PathWorld → Prop} {Q : α → PathWorld → Prop}
    (h : Triple P x Q E) : Triple P (ifPresent x) (fun o w => o.elim (E w) fun a => Q a w) E := by
  intro w hw
  have hx := h w hw
  unfold ifPresent
  cases hrun : x w with
  | ok a w' =>
    rw [hrun] at hx
    exact hx
  | error e w' =>
    rw [hrun] at hx
    cases e with
    | notFound => exact hx
    | other error => exact hx

/-- Opening a file that may be missing says whether it is there. -/
theorem triple_ifPresent_openExisting (hE : ∀ p, P p → E p) :
    Triple (Under A P) (ifPresent openExisting)
      (fun opened => Under A fun p => P p ∧ (opened.isSome ↔ p.file.isSome)) (Failed A E) := by
  intro w hw
  have htail : w.answers.tail ≠ [] → A := fun h => hw.answers fun hnil => h (by rw [hnil]; rfl)
  unfold ifPresent openExisting look perform
  cases hanswer : w.answers.head?.join with
  | some fault =>
    have hne : w.answers ≠ [] := by
      rintro hnil
      rw [hnil] at hanswer
      cases hanswer
    exact ⟨hw.answers hne, hE _ hw.place⟩
  | none =>
    cases hfile : w.place.file with
    | none =>
      simp only [hfile, Option.map_none, Option.elim_none]
      exact ⟨⟨hw.place, by simp [hfile]⟩, htail⟩
    | some f =>
      simp only [hfile, Option.map_some, Option.elim_some]
      exact ⟨⟨hw.place, by simp [hfile]⟩, htail⟩

/-- The errors of the calls do not matter to what they do. -/
theorem triple_adaptExcept {ε ε' σ : Type} {f : ε → ε'} {x : EStateM ε σ α} {P : σ → Prop}
    {Q : α → σ → Prop} {E : σ → Prop} (h : Triple P x Q E) : Triple P (EStateM.adaptExcept f x) Q E := by
  intro s hs
  have hx := h s hs
  unfold EStateM.adaptExcept
  cases hrun : x s with
  | ok a s' =>
    rw [hrun] at hx
    exact hx
  | error e s' =>
    rw [hrun] at hx
    exact hx

end PathProg
