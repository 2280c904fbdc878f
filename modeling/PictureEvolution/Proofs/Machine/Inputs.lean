import PictureEvolution.Proofs.Machine.Moves

/-!
# Inputs in order

However a state comes about, its inputs are numbered from one without gaps, and in that order. So
the input with the highest number is there whenever one is to be popped, and what was pushed as an
input keeps its key until the inputs become fewer than its number.
-/

namespace PictureEvolution

namespace State

variable {s t : State} {name : StackName} {v : Value} {front : List Value} {n i : Nat}

theorem inputKey_inj : inputKey i = inputKey n ↔ i = n := by
  constructor
  · intro same
    have texts : i.repr = n.repr := (String.append_right_inj "in").mp same
    have digits : Nat.toDigits 10 i = Nat.toDigits 10 n := by
      rw [← Nat.toList_repr, texts, Nat.toList_repr]
    have value (k : Nat) : Nat.ofDigitChars 10 (Nat.toDigits 10 k) 0 = k :=
      Nat.ofDigitChars_toDigits (by decide) (by decide)
    rw [← value i, digits, value]
  · rintro rfl
    rfl

def inputKeys (count : Nat) : List String := (List.range count).map fun i => inputKey (i + 1)

@[simp] theorem length_inputKeys : (inputKeys n).length = n := by simp [inputKeys]

theorem inputKeys_succ : inputKeys (n + 1) = inputKeys n ++ [inputKey (n + 1)] := by
  simp [inputKeys, List.range_succ]

theorem getElem?_inputKeys (h : i < n) : (inputKeys n)[i]? = some (inputKey (i + 1)) := by
  simp [inputKeys, h]

@[simp] theorem mem_inputKeys : inputKey (i + 1) ∈ inputKeys n ↔ i < n := by
  simp [inputKeys, inputKey_inj]

/-- The inputs are numbered from one without gaps, in the order of their numbers. -/
def Numbered (s : State) : Prop := s.inputs.keys = inputKeys s.inputs.size

theorem numbered_empty : (∅ : State).Numbered := rfl

namespace Numbered

theorem of_inputs_eq (h : s.Numbered) (same : t.inputs = s.inputs) : t.Numbered := by
  rw [Numbered, same]
  exact h

/-- The input with some number is found under the key of that number. -/
theorem get?_inputKey (h : s.Numbered) (i : Nat) :
    s.inputs.get? (inputKey (i + 1)) = s.inputs.values[i]? := by
  by_cases numbered : i < s.inputs.size
  · have within : i < s.inputs.entries.length := numbered
    have key : s.inputs.entries[i].1 = inputKey (i + 1) := by
      have found := getElem?_inputKeys numbered
      rw [← h, Table.keys, List.getElem?_map, List.getElem?_eq_getElem within] at found
      exact Option.some.inj found
    have value : s.inputs.values[i]? = some s.inputs.entries[i].2 := by
      rw [Table.values, List.getElem?_map, List.getElem?_eq_getElem within]
      rfl
    rw [value, ← Table.mem_entries_iff, ← key]
    exact List.getElem_mem within
  · have absent : s.inputs.get? (inputKey (i + 1)) = none := by
      rw [Table.get?_eq_none_iff, h, mem_inputKeys]
      exact numbered
    rw [absent, eq_comm, List.getElem?_eq_none_iff, Table.length_values]
    exact Nat.le_of_not_lt numbered

theorem get?_inputKey_zero (h : s.Numbered) : s.inputs.get? (inputKey 0) = none := by
  rw [Table.get?_eq_none_iff, h, inputKeys, List.mem_map]
  rintro ⟨i, -, same⟩
  exact Nat.succ_ne_zero i (inputKey_inj.mp same)

theorem contains_last (h : s.Numbered) (inhabited : 0 < s.inputs.size) :
    s.inputs.contains (inputKey s.inputs.size) = true := by
  obtain ⟨n, size⟩ := Nat.exists_eq_add_of_lt inhabited
  rw [Table.contains_iff, h, size, mem_inputKeys]
  exact Nat.lt_succ_self _

/-- The top of the inputs is the one with the highest number. -/
theorem peek?_input (h : s.Numbered) :
    s.peek? .input = s.inputs.get? (inputKey s.inputs.size) := by
  rw [peek?, if_pos rfl, List.getLast?_eq_getElem?, Table.length_values]
  cases size : s.inputs.size with
  | zero =>
    have none : s.inputs.values.length = 0 := (Table.length_values _).trans size
    rw [h.get?_inputKey_zero]
    exact List.getElem?_eq_none (Nat.le_of_eq none)
  | succ n => rw [h.get?_inputKey, Nat.add_sub_cancel]

theorem entries_push (h : s.Numbered) (v : Value) : (s.push .input v).inputs.entries =
    s.inputs.entries ++ [(inputKey (s.inputs.size + 1), v)] := by
  have fresh : inputKey (s.inputs.size + 1) ∉ s.inputs.keys := by
    rw [h, mem_inputKeys]
    exact Nat.lt_irrefl _
  exact Table.entries_insert_of_not_mem v fresh

theorem values_push (h : s.Numbered) (v : Value) :
    (s.push .input v).inputs.values = s.inputs.values ++ [v] := by
  rw [Table.values, h.entries_push, List.map_append]
  rfl

theorem size_push (h : s.Numbered) (v : Value) :
    (s.push .input v).inputs.size = s.inputs.size + 1 := by
  rw [← Table.length_values, h.values_push, List.length_append, Table.length_values]
  rfl

theorem push (h : s.Numbered) (name : StackName) (v : Value) : (s.push name v).Numbered := by
  by_cases isInput : name = .input
  · subst isInput
    rw [Numbered, h.size_push, inputKeys_succ, ← h, Table.keys, h.entries_push, List.map_append]
    rfl
  · exact h.of_inputs_eq (inputs_push s v isInput)

theorem entries_eq_concat (h : s.Numbered) (inhabited : s.inputs.size ≠ 0) :
    ∃ front v, s.inputs.entries = front ++ [(inputKey s.inputs.size, v)] := by
  rcases List.eq_nil_or_concat s.inputs.entries with none | ⟨front, ⟨key, v⟩, entries⟩
  · exact absurd (congrArg List.length none) inhabited
  · rw [List.concat_eq_append] at entries
    have size : s.inputs.size = front.length + 1 := by
      rw [Table.size, entries, List.length_append]
      rfl
    have keys :
        front.map Prod.fst ++ [key] = inputKeys front.length ++ [inputKey s.inputs.size] := by
      rw [size, ← inputKeys_succ, ← size, ← h, Table.keys, entries, List.map_append]
      rfl
    have last : key = inputKey s.inputs.size := by simpa using (List.append_inj' keys rfl).2
    exact ⟨front, v, last ▸ entries⟩

/-- To pop an input is to drop the last entry. -/
theorem entries_pop (h : s.Numbered) :
    (s.pop .input).inputs.entries = s.inputs.entries.dropLast := by
  rw [pop, if_pos rfl]
  split
  next none => rw [List.length_eq_zero_iff.mp none, List.dropLast_nil]
  next inhabited =>
    obtain ⟨front, v, entries⟩ := h.entries_eq_concat inhabited
    rw [Table.entries_erase_of_concat entries, entries, List.dropLast_concat]

theorem values_pop (h : s.Numbered) :
    (s.pop .input).inputs.values = s.inputs.values.dropLast := by
  rw [Table.values, h.entries_pop, List.map_dropLast]
  rfl

theorem size_pop (h : s.Numbered) : (s.pop .input).inputs.size = s.inputs.size - 1 := by
  rw [← Table.length_values, h.values_pop, List.length_dropLast, Table.length_values]

theorem pop (h : s.Numbered) (name : StackName) : (s.pop name).Numbered := by
  by_cases isInput : name = .input
  · subst isInput
    rw [Numbered, h.size_pop, Table.keys, h.entries_pop, List.map_dropLast]
    show s.inputs.keys.dropLast = _
    rw [h]
    cases s.inputs.size with
    | zero => rfl
    | succ n => rw [inputKeys_succ, List.dropLast_concat, Nat.add_sub_cancel]
  · exact h.of_inputs_eq (inputs_pop s isInput)

/-- The values of the inputs determine their keys. -/
theorem ext (h : s.Numbered) (h' : t.Numbered) (contents : s.contents = t.contents)
    (values : s.inputs.values = t.inputs.values) : s = t := by
  have size : s.inputs.size = t.inputs.size := by
    rw [← Table.length_values, values, Table.length_values]
  have keys : s.inputs.keys = t.inputs.keys := by rw [h, h', size]
  have inputs : s.inputs = t.inputs := by
    apply Table.ext
    rw [← List.zip_unzip s.inputs.entries, ← List.zip_unzip t.inputs.entries, List.unzip_eq_map,
      List.unzip_eq_map]
    exact congr (congrArg List.zip keys) values
  cases s
  cases t
  cases contents
  cases inputs
  rfl

theorem contents_pop_input (s : State) : (s.pop .input).contents = s.contents := by
  rw [State.pop, if_pos rfl]
  split <;> rfl

/-- To pop what was pushed as an input is to undo the push. -/
theorem pop_push (h : s.Numbered) (v : Value) : (s.push .input v).pop .input = s := by
  apply ((h.push .input v).pop .input).ext h
  · rw [contents_pop_input]
    rfl
  · rw [(h.push .input v).values_pop, h.values_push, List.dropLast_concat]

/-- To push the input that was popped is to undo the pop. -/
theorem push_pop (h : s.Numbered) (top : s.inputs.values.getLast? = some v) :
    (s.pop .input).push .input v = s := by
  apply ((h.pop .input).push .input v).ext h
  · exact contents_pop_input s
  · obtain ⟨front, values⟩ := List.getLast?_eq_some_iff.mp top
    rw [(h.pop .input).values_push, h.values_pop, values, List.dropLast_concat]

/-- The inputs that are left when arguments were taken are the first ones. -/
theorem takeArgs? (h : s.Numbered) {names : List StackName} {vs : List Value}
    (taken : s.takeArgs? names = some (vs, t)) :
    t.Numbered ∧ t.inputs.entries <+: s.inputs.entries := by
  refine takeArgs?_keeps taken
    (P := fun u => u.Numbered ∧ u.inputs.entries <+: s.inputs.entries) ?_ ⟨h, List.prefix_rfl⟩
  rintro name - u ⟨numbered, first⟩
  refine ⟨numbered.pop name, ?_⟩
  by_cases isInput : name = .input
  · subst isInput
    rw [numbered.entries_pop]
    exact (List.dropLast_prefix _).trans first
  · rwa [inputs_pop u isInput]

end Numbered

end State

end PictureEvolution
