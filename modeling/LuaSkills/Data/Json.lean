import Mathlib.Algebra.GroupWithZero.Nat
import Mathlib.Data.Countable.Basic
import Mathlib.Logic.Equiv.List
import Mathlib.Tactic.DeriveCountable

/-!
# JSON values

`Json` is the tree of a parsed document: numbers keep the three representations a parser
distinguishes, floats by their bit pattern, and an object is its list of fields. Equality of values
follows the floating-point comparison, under which the two zeros are equal; `Json.Same` is that
relation, equality of the trees with negative zero removed. `toTree` flattens the nested lists into a
binary tree, from which decidable equality and countability are inherited.
-/

inductive JsonNumber where
  | posInt (n : ℕ)
  /-- The integer `-(n + 1)`. -/
  | negInt (n : ℕ)
  | float (bits : ℕ)
deriving DecidableEq, Countable

inductive Json where
  | null
  | bool (b : Bool)
  | number (n : JsonNumber)
  | string (s : String)
  | array (items : List Json)
  | object (fields : List (String × Json))

instance Char.instCountable : Countable Char :=
  Function.Injective.countable (f := Char.toNat) fun _ _ h => Char.toNat_inj.1 h

instance String.instCountable : Countable String :=
  Function.Injective.countable (f := String.toList) fun _ _ h => String.toList_inj.1 h

namespace Json

/-- The labels of a flattened value. -/
inductive Atom where
  | null | nil | cons | array | object
  | bool (b : Bool)
  | number (n : JsonNumber)
  | string (s : String)
deriving DecidableEq, Countable

inductive AtomTree where
  | leaf (a : Atom)
  | node (a : Atom) (left right : AtomTree)
deriving DecidableEq, Countable

mutual
def toTree : Json → AtomTree
  | .null => .leaf .null
  | .bool b => .leaf (.bool b)
  | .number n => .leaf (.number n)
  | .string s => .leaf (.string s)
  | .array items => .node .array (.leaf .nil) (itemsToTree items)
  | .object fields => .node .object (.leaf .nil) (fieldsToTree fields)

def itemsToTree : List Json → AtomTree
  | [] => .leaf .nil
  | v :: rest => .node .cons v.toTree (itemsToTree rest)

def fieldsToTree : List (String × Json) → AtomTree
  | [] => .leaf .nil
  | (key, v) :: rest => .node (.string key) v.toTree (fieldsToTree rest)
end

mutual
theorem toTree_inj : ∀ {v w : Json}, v.toTree = w.toTree → v = w
  | .null, w, h => by cases w <;> simp_all [toTree]
  | .bool _, w, h => by cases w <;> simp_all [toTree]
  | .number _, w, h => by cases w <;> simp_all [toTree]
  | .string _, w, h => by cases w <;> simp_all [toTree]
  | .array items, w, h => by
    cases w with
    | array items' =>
      simp only [toTree, AtomTree.node.injEq, true_and] at h
      rw [itemsToTree_inj h]
    | _ => simp [toTree] at h
  | .object fields, w, h => by
    cases w with
    | object fields' =>
      simp only [toTree, AtomTree.node.injEq, true_and] at h
      rw [fieldsToTree_inj h]
    | _ => simp [toTree] at h

theorem itemsToTree_inj : ∀ {l l' : List Json}, itemsToTree l = itemsToTree l' → l = l'
  | [], l', h => by cases l' <;> simp_all [itemsToTree]
  | v :: l, l', h => by
    cases l' with
    | nil => simp [itemsToTree] at h
    | cons w l' =>
      simp only [itemsToTree, AtomTree.node.injEq, true_and] at h
      rw [toTree_inj h.1, itemsToTree_inj h.2]

theorem fieldsToTree_inj :
    ∀ {l l' : List (String × Json)}, fieldsToTree l = fieldsToTree l' → l = l'
  | [], l', h => by
    cases l' with
    | nil => rfl
    | cons e l' => simp [fieldsToTree] at h
  | (key, v) :: l, l', h => by
    cases l' with
    | nil => simp [fieldsToTree] at h
    | cons e l' =>
      obtain ⟨key', w⟩ := e
      simp only [fieldsToTree, AtomTree.node.injEq, Atom.string.injEq] at h
      rw [h.1, toTree_inj h.2.1, fieldsToTree_inj h.2.2]
end

instance : DecidableEq Json := fun v w =>
  decidable_of_iff (v.toTree = w.toTree) ⟨toTree_inj, fun h => h ▸ rfl⟩

instance : Countable Json := Function.Injective.countable (f := toTree) fun _ _ => toTree_inj

/-! ## Equality of values -/

def negativeZero : ℕ := 2 ^ 63

mutual
def normalize : Json → Json
  | .number (.float bits) => .number (.float (if bits = negativeZero then 0 else bits))
  | .array items => .array (normalizeItems items)
  | .object fields => .object (normalizeFields fields)
  | v => v

def normalizeItems : List Json → List Json
  | [] => []
  | v :: rest => v.normalize :: normalizeItems rest

def normalizeFields : List (String × Json) → List (String × Json)
  | [] => []
  | (key, v) :: rest => (key, v.normalize) :: normalizeFields rest
end

/-- Equality of parsed values. -/
def Same (v w : Json) : Prop := v.normalize = w.normalize

instance {v w : Json} : Decidable (v.Same w) := inferInstanceAs (Decidable (_ = _))

end Json
