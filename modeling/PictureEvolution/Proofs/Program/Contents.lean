import PictureEvolution.Program.Element

/-!
# What a program contains

The names that occur in a program at any depth, the number of its blocks, and its weight, which
counts leaves and blocks. Executing an element that repeats nothing takes as many steps as it
weighs.
-/

namespace PictureEvolution

inductive Leaf where
  | literal (value : Literal)
  | instruction (name : String)

def Leaf.element : Leaf → Element
  | literal value => .literal value
  | instruction name => .instruction name

namespace Element

theorem leaf_or_block (e : Element) : (∃ l : Leaf, e = l.element) ∨ ∃ p, e = block p := by
  cases e with
  | literal value => exact .inl ⟨.literal value, rfl⟩
  | instruction name => exact .inl ⟨.instruction name, rfl⟩
  | block p => exact .inr ⟨p, rfl⟩

mutual

/-- The leaves of an element, at any depth, from left to right. -/
def leaves : Element → List Leaf
  | literal value => [.literal value]
  | instruction name => [.instruction name]
  | block elements => leavesAll elements

def leavesAll : List Element → List Leaf
  | [] => []
  | e :: rest => leaves e ++ leavesAll rest

end

@[simp] theorem leaves_leaf (l : Leaf) : l.element.leaves = [l] := by
  cases l <;> rfl

theorem leavesAll_append (p q : List Element) :
    leavesAll (p ++ q) = leavesAll p ++ leavesAll q := by
  induction p with
  | nil => rfl
  | cons e rest ih => simp [leavesAll, ih]

mutual

def names : Element → List String
  | literal _ => []
  | instruction name => [name]
  | block elements => namesAll elements

def namesAll : List Element → List String
  | [] => []
  | e :: rest => names e ++ namesAll rest

end

theorem mem_namesAll {name : String} {elements : List Element} :
    name ∈ namesAll elements ↔ ∃ e ∈ elements, name ∈ e.names := by
  induction elements with
  | nil => simp [namesAll]
  | cons e rest ih => simp [namesAll, ih]

theorem namesAll_append (p q : List Element) : namesAll (p ++ q) = namesAll p ++ namesAll q := by
  induction p with
  | nil => rfl
  | cons e rest ih => simp [namesAll, ih]

mutual

theorem mem_names_iff_leaf {name : String} (e : Element) :
    name ∈ e.names ↔ .instruction name ∈ e.leaves := by
  cases e with
  | literal value => simp [names, leaves]
  | instruction other => simp [names, leaves]
  | block elements =>
    rw [names, leaves]
    exact mem_namesAll_iff_leaf elements

theorem mem_namesAll_iff_leaf {name : String} (elements : List Element) :
    name ∈ namesAll elements ↔ .instruction name ∈ leavesAll elements := by
  cases elements with
  | nil => simp [namesAll, leavesAll]
  | cons e rest =>
    simp [namesAll, leavesAll, mem_names_iff_leaf e, mem_namesAll_iff_leaf rest]

end

mutual

def blocks : Element → Nat
  | literal _ => 0
  | instruction _ => 0
  | block elements => blocksAll elements + 1

def blocksAll : List Element → Nat
  | [] => 0
  | e :: rest => blocks e + blocksAll rest

end

theorem blocksAll_eq_zero_iff {elements : List Element} :
    blocksAll elements = 0 ↔ ∀ e ∈ elements, e.blocks = 0 := by
  induction elements with
  | nil => simp [blocksAll]
  | cons e rest ih => simp [blocksAll, ih]

def weight (e : Element) : Nat := e.size + e.blocks

@[simp] theorem weight_literal (value : Literal) : (literal value).weight = 1 := rfl

@[simp] theorem weight_instruction (name : String) : (instruction name).weight = 1 := rfl

@[simp] theorem weight_leaf (l : Leaf) : l.element.weight = 1 := by
  cases l <;> rfl

def weightAll (elements : List Element) : Nat := sizeAll elements + blocksAll elements

@[simp] theorem weightAll_nil : weightAll [] = 0 := rfl

@[simp] theorem weightAll_cons (e : Element) (rest : List Element) :
    weightAll (e :: rest) = e.weight + weightAll rest := by
  simp only [weightAll, sizeAll, blocksAll, weight]
  omega

theorem weightAll_append (p q : List Element) :
    weightAll (p ++ q) = weightAll p + weightAll q := by
  induction p with
  | nil => simp
  | cons e rest ih => simp [ih, Nat.add_assoc]

@[simp] theorem weight_block (elements : List Element) :
    (block elements).weight = weightAll elements + 1 := by
  simp only [weight, size, blocks, weightAll]
  omega

theorem weight_pos (e : Element) : 0 < e.weight := by
  cases e <;> simp

def isBlock : Element → Bool
  | block _ => true
  | _ => false

theorem weight_of_not_isBlock {e : Element} (h : e.isBlock = false) : e.weight = 1 := by
  cases e with
  | literal value => rfl
  | instruction name => rfl
  | block elements => cases h

end Element

end PictureEvolution
