import PictureEvolution.Proofs.Machine.Inputs

/-!
# Arguments from the stacks

Arguments are taken one after the other, each from what the ones before have left. In closed form:
a name that is asked for the third time gets the third value of its stack, whatever was asked for in
between, and there are no arguments at all when some stack has fewer values than it is asked for.
-/

namespace PictureEvolution

namespace State

variable {s t : State} {name other : StackName} {v : Value} {names : List StackName}
  {args : List Value}

/-- The values of a stack from the top down, those of the inputs from the highest number. -/
def column (s : State) (name : StackName) : List Value :=
  if name = .input then s.inputs.values.reverse else s.stack name

def atDepth (s : State) (name : StackName) (depth : Nat) : Option Value :=
  if name = .input then s.inputs.get? (inputKey (s.inputs.size - depth))
  else (s.stack name)[depth]?

/-- Push values back on the stacks from which they were taken, the last one first. -/
def giveBack (s : State) : List StackName → List Value → State
  | name :: names, v :: args => (s.giveBack names args).push name v
  | _, _ => s

theorem column_input (s : State) : s.column .input = s.inputs.values.reverse := if_pos rfl

theorem column_of_ne (s : State) (h : name ≠ .input) : s.column name = s.stack name := if_neg h

@[simp] theorem length_column (s : State) (name : StackName) :
    (s.column name).length = (s.stack name).length := by
  unfold column stack
  split <;> simp

theorem peek?_eq_head? (s : State) (name : StackName) : s.peek? name = (s.column name).head? := by
  unfold peek? column
  split
  · rw [List.head?_reverse]
  · rfl

theorem push_pop_of_ne {rest : List Value} (h : name ≠ .input) (top : s.stack name = v :: rest) :
    (s.pop name).push name v = s := by
  have found : s.contents.get? name = some (v :: rest) := by
    rw [stack_eq_getD s h] at top
    cases values : s.contents.get? name with
    | none => simp [values] at top
    | some values' => simpa [values] using top
  rw [pop_of_stack h top, push_assign h, assign, Table.insert_eq_self found]

namespace Numbered

theorem atDepth_eq (h : s.Numbered) (name : StackName) (depth : Nat) :
    s.atDepth name depth = (s.column name)[depth]? := by
  unfold atDepth column
  split
  · by_cases within : depth < s.inputs.size
    · rw [List.getElem?_reverse (by rwa [Table.length_values]), ← h.get?_inputKey,
        Table.length_values]
      congr
      omega
    · rw [Nat.sub_eq_zero_of_le (Nat.le_of_not_lt within), h.get?_inputKey_zero, eq_comm,
        List.getElem?_eq_none_iff, List.length_reverse, Table.length_values]
      exact Nat.le_of_not_lt within
  · rfl

theorem column_pop (h : s.Numbered) (name other : StackName) :
    (s.pop name).column other = if other = name then (s.column name).tail else s.column other := by
  by_cases isInput : other = .input
  · subst isInput
    by_cases same : .input = name
    · subst same
      rw [if_pos rfl, column_input, column_input, h.values_pop, List.tail_reverse]
    · rw [if_neg same, column_input, column_input, inputs_pop s (Ne.symm same)]
  · rw [column_of_ne _ isInput]
    by_cases same : other = name
    · subst same
      rw [stack_pop isInput, column_of_ne _ isInput]
    · rw [if_neg same, stack_pop_of_ne s same isInput, column_of_ne _ isInput]

theorem push_pop_of_peek? (h : s.Numbered) (top : s.peek? name = some v) :
    (s.pop name).push name v = s := by
  by_cases isInput : name = .input
  · subst isInput
    exact h.push_pop top
  · rw [peek?_eq_head?, column_of_ne s isInput] at top
    obtain ⟨rest, stack⟩ := List.head?_eq_some_iff.mp top
    exact push_pop_of_ne isInput stack

theorem takeArgs?_of_empty (names : List StackName) (empty : s.column name = []) :
    s.takeArgs? (name :: names) = none := by
  rw [State.takeArgs?, peek?_eq_head?, empty]
  rfl

theorem takeArgs?_of_top {rest : List Value} (names : List StackName)
    (column : s.column name = v :: rest) : s.takeArgs? (name :: names) =
      ((s.pop name).takeArgs? names).map fun (args, t) => (v :: args, t) := by
  rw [State.takeArgs?, peek?_eq_head?, column]
  rfl

/-- There are no arguments exactly when some stack has fewer values than it is asked for. -/
theorem takeArgs?_eq_none_iff (h : s.Numbered) (names : List StackName) :
    s.takeArgs? names = none ↔ ∃ name, (s.stack name).length < names.count name := by
  induction names generalizing s with
  | nil => simp [State.takeArgs?]
  | cons name names ih =>
    simp only [← length_column] at ih ⊢
    cases column : s.column name with
    | nil =>
      refine iff_of_true (takeArgs?_of_empty names column) ⟨name, ?_⟩
      rw [column, List.count_cons_self]
      exact Nat.succ_pos _
    | cons v rest =>
      rw [takeArgs?_of_top names column, Option.map_eq_none_iff, ih (h.pop name)]
      refine exists_congr fun other => ?_
      rw [h.column_pop, List.count_cons]
      by_cases same : other = name
      · subst same
        simp [column]
      · simp [same, Ne.symm same]

/-- What taking arguments gives and leaves, all columns at once. -/
theorem columns_takeArgs? (h : s.Numbered) (taken : s.takeArgs? names = some (args, t)) :
    args.length = names.length ∧
      (∀ i name, names[i]? = some name →
        args[i]? = (s.column name)[(names.take i).count name]?) ∧
      ∀ name, t.column name = (s.column name).drop (names.count name) := by
  induction names generalizing s args with
  | nil =>
    simp only [State.takeArgs?, Option.some.injEq, Prod.mk.injEq] at taken
    obtain ⟨rfl, rfl⟩ := taken
    simp
  | cons name names ih =>
    cases column : s.column name with
    | nil => simp [takeArgs?_of_empty names column] at taken
    | cons v rest =>
      rw [takeArgs?_of_top names column, Option.map_eq_some_iff] at taken
      obtain ⟨⟨args', t'⟩, taken, same⟩ := taken
      cases same
      obtain ⟨length, arguments, left⟩ := ih (h.pop name) taken
      refine ⟨congrArg Nat.succ length, fun i other asked => ?_, fun other => ?_⟩
      · cases i with
        | zero =>
          cases asked
          simp [column]
        | succ i =>
          rw [List.getElem?_cons_succ] at asked ⊢
          rw [arguments i other asked, h.column_pop, List.take_succ_cons, List.count_cons]
          by_cases same : other = name
          · subst same
            simp [column]
          · simp [same, Ne.symm same]
      · rw [left, h.column_pop, List.count_cons]
        by_cases same : other = name
        · subst same
          simp [column]
        · simp [same, Ne.symm same]

theorem giveBack_takeArgs? (h : s.Numbered) (taken : s.takeArgs? names = some (args, t)) :
    t.giveBack names args = s := by
  induction names generalizing s args with
  | nil =>
    simp only [State.takeArgs?, Option.some.injEq, Prod.mk.injEq] at taken
    exact taken.2.symm
  | cons name names ih =>
    cases column : s.column name with
    | nil => simp [takeArgs?_of_empty names column] at taken
    | cons v rest =>
      rw [takeArgs?_of_top names column, Option.map_eq_some_iff] at taken
      obtain ⟨⟨args', t'⟩, taken, same⟩ := taken
      cases same
      rw [giveBack, ih (h.pop name) taken]
      apply h.push_pop_of_peek?
      rw [peek?_eq_head?, column, List.head?_cons]

end Numbered

/-- Values that were taken from the named stacks in turn, and the state that this leaves. -/
structure Taken (s : State) (names : List StackName) (args : List Value) (t : State) : Prop where
  length : args.length = names.length
  /-- an argument stands as deep in its stack as its name was asked for before -/
  argument : ∀ i name, names[i]? = some name → args[i]? = s.atDepth name ((names.take i).count name)
  stack : ∀ name, name ≠ .input → t.stack name = (s.stack name).drop (names.count name)
  inputs : t.inputs.entries = s.inputs.entries.take (s.inputs.size - names.count .input)
  restored : t.giveBack names args = s

theorem Numbered.taken (h : s.Numbered) (taken : s.takeArgs? names = some (args, t)) :
    s.Taken names args t := by
  obtain ⟨length, arguments, left⟩ := h.columns_takeArgs? taken
  refine ⟨length, fun i name asked => ?_, fun name isStack => ?_, ?_, h.giveBack_takeArgs? taken⟩
  · rw [h.atDepth_eq]
    exact arguments i name asked
  · rw [← column_of_ne t isStack, ← column_of_ne s isStack]
    exact left name
  · have size : t.inputs.size = s.inputs.size - names.count .input := by
      have lengths := congrArg List.length (left .input)
      rwa [column_input, column_input, List.length_drop, List.length_reverse, List.length_reverse,
        Table.length_values, Table.length_values] at lengths
    rw [← size]
    exact List.prefix_iff_eq_take.mp (h.takeArgs? taken).2

/-- Arguments are taken all or none: none when some stack has fewer values than it is asked for, and
otherwise each from the depth that the requests before it leave. An instruction that applies a
function therefore does nothing, or pushes what comes of the arguments on what is left. -/
theorem arguments_taken (h : s.Numbered) (names : List StackName) :
    (s.takeArgs? names = none ↔ ∃ name, (s.stack name).length < names.count name) ∧
      (∀ args t, s.takeArgs? names = some (args, t) → s.Taken names args t) ∧
      ∀ {ω : Type} (f : List Value → Task ω Value) (result : StackName),
        ((∃ name, (s.stack name).length < names.count name) ∧
          (Action.value f names result).apply s = pure s) ∨
        ∃ args t, s.takeArgs? names = some (args, t) ∧
          (Action.value f names result).apply s = do return t.push result (← f args) := by
  refine ⟨h.takeArgs?_eq_none_iff names, fun args t => h.taken, fun f result => ?_⟩
  rw [Action.apply, invoke]
  cases taken : s.takeArgs? names with
  | none => exact .inl ⟨(h.takeArgs?_eq_none_iff names).mp taken, rfl⟩
  | some found =>
    obtain ⟨args, t⟩ := found
    exact .inr ⟨args, t, rfl, rfl⟩

def inputsAndNumber : State := ((∅ : State).loadInputs [.int 1, .int 2]).push .integer (.int 7)

/-- Both inputs are taken around the number, and the list of the three becomes an input. -/
theorem inputsAndNumber_arguments_taken :
    let names : List StackName := [.input, .integer, .input]
    let gather : List Value → Task Script Value := fun vs => pure (.list vs)
    ∃ t, inputsAndNumber.Taken names [.int 2, .int 7, .int 1] t ∧
      (Action.value gather names .input).apply inputsAndNumber =
        pure (t.push .input (.list [.int 2, .int 7, .int 1])) ∧
      inputsAndNumber.takeArgs? (.bool :: names) = none := by
  intro names gather
  have numbered : inputsAndNumber.Numbered :=
    ((numbered_empty.push .input (.int 1)).push .input (.int 2)).push .integer (.int 7)
  obtain ⟨none_iff, taken, applied⟩ := arguments_taken numbered names
  obtain ⟨short_iff, -, -⟩ := arguments_taken numbered (.bool :: names)
  have short : inputsAndNumber.takeArgs? (.bool :: names) = none := short_iff.mpr ⟨.bool, by decide⟩
  rcases applied gather .input with ⟨short, -⟩ | ⟨args, t, found, yields⟩
  · cases none_iff.mpr short
  · cases found
    exact ⟨_, taken _ _ rfl, yields, short⟩

end State

end PictureEvolution
