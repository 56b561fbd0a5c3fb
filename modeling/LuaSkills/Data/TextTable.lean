import Mathlib.Data.Countable.Basic
import Mathlib.Data.List.Nodup

/-!
# Printers that agree with given texts

A `TextTable` prints the listed values by given texts and every other value by a text of its own,
and its parser, applied to a printed text and a line feed, returns the value. It stands for a linked
JSON library on fixed inputs: the list holds the bytes the library prints for them, and `accepted`
further texts that it parses.
-/

structure TextTable (α : Type) where
  printed : List (α × List UInt8)
  accepted : List (List UInt8 × α)
  printed_nodup : (printed.map Prod.snd).Nodup
  printed_head : ∀ e ∈ printed, e.2.head? = some 0x7b
  accepted_head : ∀ e ∈ accepted, e.1.head? = some 0x7b
  accepted_ne : ∀ e ∈ accepted, ∀ p ∈ printed, e.1 ≠ p.2 ++ [0x0a]

namespace TextTable

open List
variable {α : Type} [DecidableEq α] [Countable α] (table : TextTable α)

noncomputable def index : α → ℕ := Classical.choose (Countable.exists_injective_nat α)

omit [DecidableEq α] in
theorem index_inj : Function.Injective (index : α → ℕ) :=
  Classical.choose_spec (Countable.exists_injective_nat α)

omit [DecidableEq α] [Countable α] in
theorem none_head : ∀ e ∈ ([] : List (List UInt8 × α)), e.1.head? = some 0x7b := by simp

/-- The text of a value that is not listed; no JSON text starts like it. -/
noncomputable def unlisted (a : α) : List UInt8 := 0xff :: replicate (index a) 0xff

noncomputable def print (a : α) : List UInt8 :=
  match table.printed.find? fun e => e.1 = a with
  | some e => e.2
  | none => unlisted a

theorem print_of_mem (hnodup : (table.printed.map Prod.fst).Nodup) {a : α} (h : (a, text) ∈ table.printed) :
    table.print a = text := by
  have hsome : (table.printed.find? fun e => e.1 = a).isSome = true :=
    find?_isSome.2 ⟨(a, text), h, decide_eq_true rfl⟩
  obtain ⟨e, he⟩ := Option.isSome_iff_exists.1 hsome
  have hkey : e.1 = a := by simpa using find?_some he
  have heq : e = (a, text) :=
    inj_on_of_nodup_map hnodup (mem_of_find?_eq_some he) h hkey
  rw [print, he, heq]

theorem print_cases (a : α) :
    (a, table.print a) ∈ table.printed ∨ table.print a = unlisted a := by
  unfold print
  split
  · next e he =>
    obtain rfl : e.1 = a := by simpa using find?_some he
    exact Or.inl (mem_of_find?_eq_some he)
  · exact Or.inr rfl

theorem print_inj : Function.Injective table.print := by
  have hclash : ∀ a b, (a, table.print a) ∈ table.printed → table.print b = unlisted b →
      table.print a ≠ table.print b := by
    intro a b ha hb heq
    have hhead := table.printed_head _ ha
    rw [heq, hb] at hhead
    simp [unlisted] at hhead
  intro a b h
  rcases table.print_cases a with ha | ha
  · rcases table.print_cases b with hb | hb
    · exact congrArg Prod.fst (inj_on_of_nodup_map table.printed_nodup ha hb h)
    · exact absurd h (hclash a b ha hb)
  · rcases table.print_cases b with hb | hb
    · exact absurd h.symm (hclash b a hb ha)
    · rw [ha, hb] at h
      refine index_inj ?_
      simpa [unlisted] using congrArg length h

open Classical in
noncomputable def parse (bytes : List UInt8) : Option α :=
  match table.accepted.find? fun e => e.1 = bytes with
  | some e => some e.2
  | none => if h : ∃ a, table.print a ++ [0x0a] = bytes then some (Classical.choose h) else none

theorem parse_print (a : α) : table.parse (table.print a ++ [0x0a]) = some a := by
  have hnone : table.accepted.find? (fun e => e.1 = table.print a ++ [0x0a]) = none := by
    refine find?_eq_none.2 fun e he h => ?_
    have heq : e.1 = table.print a ++ [0x0a] := of_decide_eq_true h
    rcases table.print_cases a with ha | ha
    · exact table.accepted_ne e he _ ha heq
    · have hhead := table.accepted_head e he
      rw [heq, ha] at hhead
      simp [unlisted] at hhead
  have hex : ∃ b, table.print b ++ [0x0a] = table.print a ++ [0x0a] := ⟨a, rfl⟩
  simp only [parse, hnone, dif_pos hex, Option.some.injEq]
  exact table.print_inj (append_cancel_right (Classical.choose_spec hex))

theorem parse_of_mem (hnodup : (table.accepted.map Prod.fst).Nodup) {bytes : List UInt8}
    (h : (bytes, a) ∈ table.accepted) : table.parse bytes = some a := by
  have hsome : (table.accepted.find? fun e => e.1 = bytes).isSome = true :=
    find?_isSome.2 ⟨(bytes, a), h, decide_eq_true rfl⟩
  obtain ⟨e, he⟩ := Option.isSome_iff_exists.1 hsome
  have hkey : e.1 = bytes := by simpa using find?_some he
  have heq : e = (bytes, a) :=
    inj_on_of_nodup_map hnodup (mem_of_find?_eq_some he) h hkey
  simp only [parse, he, heq]

end TextTable
