/-!
# Tables

A table is a finite map that remembers the order in which its keys were first added. Writing to a
key that is present replaces the value in place; a new key goes to the end. The stacks and inputs
of a machine state, instruction sets and file collections are tables.
-/

namespace PictureEvolution

universe u v w

/-- A finite map in the order of first insertion; no key occurs twice. -/
structure Table (κ : Type u) (α : Type v) where
  entries : List (κ × α)
  nodup : (entries.map Prod.fst).Nodup

namespace Table

variable {κ : Type u} {α : Type v} {β : Type w}

def empty : Table κ α := ⟨[], List.nodup_nil⟩

instance : EmptyCollection (Table κ α) := ⟨empty⟩
instance : Inhabited (Table κ α) := ⟨empty⟩

@[ext] theorem ext {s t : Table κ α} (h : s.entries = t.entries) : s = t := by
  cases s; cases t; cases h; rfl

instance [DecidableEq κ] [DecidableEq α] : DecidableEq (Table κ α) := fun s t =>
  decidable_of_iff (s.entries = t.entries) ⟨ext, fun h => h ▸ rfl⟩

def keys (t : Table κ α) : List κ := t.entries.map Prod.fst

def values (t : Table κ α) : List α := t.entries.map Prod.snd

def size (t : Table κ α) : Nat := t.entries.length

@[simp] theorem keys_empty : (∅ : Table κ α).keys = [] := rfl

@[simp] theorem length_keys (t : Table κ α) : t.keys.length = t.size := by simp [keys, size]

@[simp] theorem length_values (t : Table κ α) : t.values.length = t.size := by simp [values, size]

def map (f : α → β) (t : Table κ α) : Table κ β :=
  ⟨t.entries.map fun e => (e.1, f e.2), by simpa [List.map_map, Function.comp_def] using t.nodup⟩

variable [DecidableEq κ]

def find (k : κ) : List (κ × α) → Option α
  | [] => none
  | (j, a) :: rest => if j = k then some a else find k rest

/-- Replace the value at a key in place, or append a new entry. -/
def put (k : κ) (a : α) : List (κ × α) → List (κ × α)
  | [] => [(k, a)]
  | (j, b) :: rest => if j = k then (k, a) :: rest else (j, b) :: put k a rest

theorem mem_keys_put {k j : κ} {a : α} {l : List (κ × α)} :
    j ∈ (put k a l).map Prod.fst ↔ j = k ∨ j ∈ l.map Prod.fst := by
  induction l with
  | nil => simp [put]
  | cons e rest ih =>
    obtain ⟨i, b⟩ := e
    by_cases h : i = k
    · subst h; simp [put]
    · simp only [put, if_neg h, List.map_cons, List.mem_cons, ih]
      grind

theorem nodup_put {k : κ} {a : α} {l : List (κ × α)} (h : (l.map Prod.fst).Nodup) :
    ((put k a l).map Prod.fst).Nodup := by
  induction l with
  | nil => simp [put]
  | cons e rest ih =>
    obtain ⟨i, b⟩ := e
    rw [List.map_cons, List.nodup_cons] at h
    by_cases hk : i = k
    · subst hk
      simpa [put] using h
    · simp only [put, if_neg hk, List.map_cons, List.nodup_cons]
      exact ⟨fun m => (mem_keys_put.mp m).elim hk h.1, ih h.2⟩

def get? (t : Table κ α) (k : κ) : Option α := find k t.entries

def contains (t : Table κ α) (k : κ) : Bool := (t.get? k).isSome

def insert (t : Table κ α) (k : κ) (a : α) : Table κ α := ⟨put k a t.entries, nodup_put t.nodup⟩

def erase (t : Table κ α) (k : κ) : Table κ α :=
  ⟨t.entries.filter (fun e => e.1 ≠ k), t.nodup.sublist (List.filter_sublist.map _)⟩

/-- Insert the entries one after the other: of two with one key the later value stays. -/
def insertAll (t : Table κ α) (entries : List (κ × α)) : Table κ α :=
  entries.foldl (fun t e => t.insert e.1 e.2) t

def ofList (entries : List (κ × α)) : Table κ α := insertAll ∅ entries

theorem find_put {k j : κ} {a : α} {l : List (κ × α)} :
    find j (put k a l) = if j = k then some a else find j l := by
  induction l with
  | nil => grind [put, find]
  | cons e rest ih => grind [put, find]

@[simp] theorem get?_empty (k : κ) : (∅ : Table κ α).get? k = none := rfl

theorem get?_insert (t : Table κ α) (k j : κ) (a : α) :
    (t.insert k a).get? j = if j = k then some a else t.get? j := find_put

@[simp] theorem get?_insert_self (t : Table κ α) (k : κ) (a : α) :
    (t.insert k a).get? k = some a := by simp [get?_insert]

theorem put_of_find {k : κ} {a : α} {l : List (κ × α)} (h : find k l = some a) : put k a l = l := by
  induction l with
  | nil => cases h
  | cons e rest ih => grind [put, find]

theorem put_put {k : κ} {a b : α} {l : List (κ × α)} : put k b (put k a l) = put k b l := by
  induction l with
  | nil => grind [put]
  | cons e rest ih => grind [put]

theorem put_comm {k j : κ} {a b : α} {l : List (κ × α)} (ne : k ≠ j)
    (present : (find k l).isSome = true) : put j b (put k a l) = put k a (put j b l) := by
  induction l with
  | nil => cases present
  | cons e rest ih => grind [put, find]

/-- Writing what is there already changes nothing. -/
theorem insert_eq_self {t : Table κ α} {k : κ} {a : α} (h : t.get? k = some a) :
    t.insert k a = t :=
  ext (put_of_find h)

theorem insert_insert (t : Table κ α) (k : κ) (a b : α) :
    (t.insert k a).insert k b = t.insert k b :=
  ext put_put

/-- The order of two writes does not matter when one of the keys is there already. -/
theorem insert_comm {t : Table κ α} {k j : κ} (a b : α) (ne : k ≠ j)
    (present : t.contains k = true) : (t.insert k a).insert j b = (t.insert j b).insert k a :=
  ext (put_comm ne present)

theorem get?_eq_none_iff {t : Table κ α} {k : κ} : t.get? k = none ↔ k ∉ t.keys := by
  unfold get? keys
  induction t.entries with
  | nil => simp [find]
  | cons e rest ih => grind [find]

theorem contains_iff {t : Table κ α} {k : κ} : t.contains k = true ↔ k ∈ t.keys := by
  rw [contains, Option.isSome_iff_ne_none, ne_eq, get?_eq_none_iff, Decidable.not_not]

theorem entries_insert_of_not_mem {t : Table κ α} {k : κ} (a : α) (h : k ∉ t.keys) :
    (t.insert k a).entries = t.entries ++ [(k, a)] := by
  unfold insert keys at *
  revert h
  show _ → put k a t.entries = _
  induction t.entries with
  | nil => simp [put]
  | cons e rest ih => grind [put]

theorem get?_erase (t : Table κ α) (k j : κ) :
    (t.erase k).get? j = if j = k then none else t.get? j := by
  unfold erase get?
  simp only
  induction t.entries with
  | nil => simp [find]
  | cons e rest ih => grind [find]

theorem mem_entries_iff {t : Table κ α} {k : κ} {a : α} :
    (k, a) ∈ t.entries ↔ t.get? k = some a := by
  obtain ⟨entries, nodup⟩ := t
  unfold get?
  induction entries with
  | nil => simp [find]
  | cons e rest ih =>
    obtain ⟨i, b⟩ := e
    rw [List.map_cons, List.nodup_cons] at nodup
    by_cases hk : i = k
    · subst hk
      have absent : (i, a) ∉ rest := fun h => nodup.1 (List.mem_map.mpr ⟨_, h, rfl⟩)
      simp [find, absent, eq_comm]
    · simp [find, hk, Ne.symm hk, ih nodup.2]

/-- What was added last is taken away from the end. -/
theorem entries_erase_of_concat {t : Table κ α} {front : List (κ × α)} {k : κ} {a : α}
    (h : t.entries = front ++ [(k, a)]) : (t.erase k).entries = front := by
  have nodup := t.nodup
  rw [h, List.map_append, List.nodup_append] at nodup
  have absent : ∀ e ∈ front, e.1 ≠ k := by
    intro e he
    exact nodup.2.2 _ (List.mem_map_of_mem he) _ (by simp)
  have kept : front.filter (fun e => e.1 ≠ k) = front :=
    List.filter_eq_self.mpr fun e he => decide_eq_true (absent e he)
  simp only [erase, h, List.filter_append, kept]
  simp

end Table

end PictureEvolution
