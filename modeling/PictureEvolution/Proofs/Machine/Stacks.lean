import PictureEvolution.Machine.Instruction
import PictureEvolution.Proofs.Machine.Task

/-!
# Stacks under the operations of the machine

What taking arguments, pushing and popping do to a stack other than the one they work on: nothing,
or, for taking arguments, at most dropping some values from its top.
-/

namespace PictureEvolution

open scoped List

/-- Whether putting the value back means executing it. -/
def Value.isExecuted : Value → Bool
  | bool _ | int _ | text _ | list _ => true
  | _ => false

namespace State

variable {s t : State} {name other : StackName} {v : Value}

theorem stack_eq_getD (s : State) (h : name ≠ .input) :
    s.stack name = (s.contents.get? name).getD [] := if_neg h

theorem assign_assign (s : State) (name : StackName) (values values' : List Value) :
    (s.assign name values).assign name values' = s.assign name values' := by
  simp only [assign, Table.insert_insert]

theorem push_assign (h : name ≠ .input) (s : State) (v : Value) (values : List Value) :
    (s.assign name values).push name v = s.assign name (v :: values) := by
  rw [push_eq_assign h, assign_assign, stack_assign h, if_pos rfl]

theorem pop_of_stack {top : Value} {rest : List Value} (h : name ≠ .input)
    (hs : s.stack name = top :: rest) : s.pop name = s.assign name rest := by
  rw [pop, if_neg h, hs]

theorem stack_push_of_ne (s : State) (v : Value) (h : other ≠ name) (hi : other ≠ .input) :
    (s.push name v).stack other = s.stack other := by
  by_cases hn : name = .input
  · subst hn
    simp [push, stack, hi]
  · rw [stack_push hn, if_neg h]

theorem suffix_push (s : State) (v : Value) (hi : other ≠ .input) :
    s.stack other <:+ (s.push name v).stack other := by
  by_cases ho : other = name
  · subst ho
    rw [stack_push hi, if_pos rfl]
    exact List.suffix_cons v _
  · exact stack_push_of_ne s v ho hi ▸ List.suffix_rfl

theorem mem_stack_push {u : Value} (hi : other ≠ .input) (h : u ∈ (s.push name v).stack other) :
    u = v ∨ u ∈ s.stack other := by
  by_cases ho : other = name
  · subst ho
    rw [stack_push hi, if_pos rfl] at h
    exact List.mem_cons.mp h
  · exact .inr (stack_push_of_ne s v ho hi ▸ h)

theorem stack_pop_of_ne (s : State) (h : other ≠ name) (hi : other ≠ .input) :
    (s.pop name).stack other = s.stack other := by
  by_cases hn : name = .input
  · subst hn
    by_cases hz : s.inputs.size = 0 <;> simp [pop, stack, hi, hz]
  · rw [stack_pop hn, if_neg h]

@[simp] theorem inputs_loadExec (s : State) (p : Program) : (s.loadExec p).inputs = s.inputs := rfl

@[simp] theorem stack_loadExec (s : State) (p : Program) :
    (s.loadExec p).stack .exec = p.map .element ++ s.stack .exec := by
  rw [loadExec, stack_assign (by decide), if_pos rfl]

theorem stack_loadExec_of_ne (s : State) (p : Program) (h : other ≠ .exec) :
    (s.loadExec p).stack other = s.stack other := by
  rw [loadExec, stack_assign (by decide), if_neg h]

theorem stack_pop_exec {top : Value} {rest : List Value} (h : s.stack .exec = top :: rest) :
    (s.pop .exec).stack .exec = rest := by
  rw [stack_pop (by decide), if_pos rfl, h, List.tail_cons]

theorem stack_pop_suffix (s : State) (h : other ≠ .input) :
    (s.pop name).stack other <:+ s.stack other := by
  by_cases ho : other = name
  · subst ho
    rw [stack_pop h, if_pos rfl]
    exact List.tail_suffix _
  · exact stack_pop_of_ne s ho h ▸ List.suffix_rfl

/-- Taking arguments keeps what each of its pops keeps. -/
theorem takeArgs?_keeps {P : State → Prop} {names : List StackName} {vs : List Value}
    (h : s.takeArgs? names = some (vs, t)) (pop : ∀ name ∈ names, ∀ u, P u → P (u.pop name))
    (start : P s) : P t := by
  induction names generalizing s vs with
  | nil =>
    simp only [takeArgs?, Option.some.injEq, Prod.mk.injEq] at h
    exact h.2 ▸ start
  | cons name names ih =>
    rw [takeArgs?] at h
    cases hv : s.peek? name with
    | none => simp [hv] at h
    | some v =>
      simp only [hv, Option.map_eq_some_iff, Prod.mk.injEq] at h
      obtain ⟨⟨rest, t'⟩, taken, -, rfl⟩ := h
      exact ih taken (fun other mem => pop other (List.mem_cons_of_mem name mem))
        (pop name List.mem_cons_self s start)

/-- What is left of a stack after arguments were taken is its lower part. -/
theorem takeArgs?_suffix {names : List StackName} {vs : List Value}
    (h : s.takeArgs? names = some (vs, t)) (hi : other ≠ .input) :
    t.stack other <:+ s.stack other :=
  takeArgs?_keeps h (P := fun u => u.stack other <:+ s.stack other)
    (fun _ _ u lower => (stack_pop_suffix u hi).trans lower) List.suffix_rfl

theorem takeArgs?_of_nil {names : List StackName} (hn : name ≠ .input) (h : s.stack name = []) :
    s.takeArgs? (name :: names) = none := by
  simp [takeArgs?, peek?, hn, h]

theorem takeArgs?_of_cons {names : List StackName} {rest : List Value} (hn : name ≠ .input)
    (h : s.stack name = v :: rest) :
    s.takeArgs? (name :: names) =
      ((s.pop name).takeArgs? names).map fun (vs, t) => (v :: vs, t) := by
  simp [takeArgs?, peek?, hn, h]

theorem inputs_push (s : State) (v : Value) (h : name ≠ .input) :
    (s.push name v).inputs = s.inputs := by
  rw [push_eq_assign h, inputs_assign]

theorem inputs_pop (s : State) (h : name ≠ .input) : (s.pop name).inputs = s.inputs := by
  rw [pop, if_neg h]
  split <;> rfl

theorem takeArgs?_inputs {names : List StackName} {vs : List Value}
    (h : s.takeArgs? names = some (vs, t)) (spared : .input ∉ names) : t.inputs = s.inputs := by
  refine takeArgs?_keeps h (P := fun u => u.inputs = s.inputs) (fun name mem u same => ?_) rfl
  rw [inputs_pop u fun isInput => spared (isInput ▸ mem), same]

theorem get?_inputs_pop {key : String} (h : (s.pop name).inputs.get? key = some v) :
    s.inputs.get? key = some v := by
  by_cases hn : name = .input
  · rw [pop, if_pos hn] at h
    split at h
    · exact h
    · rw [Table.get?_erase] at h
      split at h
      · cases h
      · exact h
  · rwa [inputs_pop s hn] at h

/-- Taking arguments may drop inputs, and leaves the others as they are. -/
theorem takeArgs?_get?_inputs {names : List StackName} {vs : List Value} {key : String}
    (h : s.takeArgs? names = some (vs, t)) (present : t.inputs.get? key = some v) :
    s.inputs.get? key = some v :=
  takeArgs?_keeps h (P := fun u => u.inputs.get? key = some v → s.inputs.get? key = some v)
    (fun _ _ _ before after => before (get?_inputs_pop after)) id present

/-- Applying a function does nothing when the stacks run short, and otherwise pushes a value that
the function yields for the arguments. -/
theorem yields_invoke {ω : Type} {f : List Value → Task ω Value} {args : List StackName}
    {result : StackName} {w w' : ω} :
    (s.invoke f args result).Yields w t w' ↔
      (s.takeArgs? args = none ∧ t = s ∧ w' = w) ∨
        ∃ vs rest v, s.takeArgs? args = some (vs, rest) ∧ (f vs).Yields w v w' ∧
          t = rest.push result v := by
  rw [invoke]
  cases taken : s.takeArgs? args with
  | none => simp
  | some found =>
    obtain ⟨vs, rest⟩ := found
    simp only [Task.yields_bind, Task.yields_pure]
    constructor
    · rintro ⟨v, v', called, rfl, rfl⟩
      exact .inr ⟨vs, rest, v, rfl, called, rfl⟩
    · rintro (⟨short, -⟩ | ⟨vs', rest', v, same, called, rfl⟩)
      · cases short
      · cases same
        exact ⟨v, w', called, rfl, rfl⟩

/-- Applying a function fails only when the function does. -/
theorem fails_invoke {ω : Type} {f : List Value → Task ω Value} {args : List StackName}
    {result : StackName} {w w' : ω} {fault : Fault} :
    (s.invoke f args result).Fails w fault w' ↔
      ∃ vs rest, s.takeArgs? args = some (vs, rest) ∧ (f vs).Fails w fault w' := by
  rw [invoke]
  cases taken : s.takeArgs? args with
  | none => simp
  | some found =>
    obtain ⟨vs, rest⟩ := found
    simp only [Task.fails_bind, Task.not_fails_pure, and_false, exists_false, or_false]
    constructor
    · exact fun called => ⟨vs, rest, rfl, called⟩
    · rintro ⟨_, _, same, called⟩
      cases same
      exact called

/-- Applying a function leaves of every stack but the one of its results a lower part. -/
theorem invoke_suffix {ω : Type} {f : List Value → Task ω Value} {args : List StackName}
    {result : StackName} {w w' : ω} (h : (s.invoke f args result).Yields w t w')
    (hr : other ≠ result) (hi : other ≠ .input) : t.stack other <:+ s.stack other := by
  rcases yields_invoke.mp h with ⟨-, rfl, -⟩ | ⟨vs, rest, v, taken, -, rfl⟩
  · exact List.suffix_rfl
  · rw [stack_push_of_ne rest v hr hi]
    exact takeArgs?_suffix taken hi

theorem invoke_inputs {ω : Type} {f : List Value → Task ω Value} {args : List StackName}
    {result : StackName} {w w' : ω} (h : (s.invoke f args result).Yields w t w')
    (ha : .input ∉ args) (hr : result ≠ .input) : t.inputs = s.inputs := by
  rcases yields_invoke.mp h with ⟨-, rfl, -⟩ | ⟨vs, rest, v, taken, -, rfl⟩
  · rfl
  · rw [inputs_push rest v hr, takeArgs?_inputs taken ha]

theorem invoke_get?_inputs {ω : Type} {f : List Value → Task ω Value} {args : List StackName}
    {result : StackName} {w w' : ω} {key : String} (h : (s.invoke f args result).Yields w t w')
    (hr : result ≠ .input) (present : t.inputs.get? key = some v) :
    s.inputs.get? key = some v := by
  rcases yields_invoke.mp h with ⟨-, rfl, -⟩ | ⟨vs, rest, u, taken, -, rfl⟩
  · exact present
  · rw [inputs_push rest u hr] at present
    exact takeArgs?_get?_inputs taken present

theorem dup_cases (s : State) :
    s.dup = s ∨ ∃ top rest, s.stack .exec = top :: rest ∧ s.dup = s.push .exec top := by
  rw [dup]
  split
  next => exact .inl rfl
  next top rest hs =>
    split
    · split
      · exact .inl rfl
      · exact .inr ⟨_, rest, hs, rfl⟩
    · exact .inr ⟨top, rest, hs, rfl⟩

/-- A repetition only repeats what is to be executed. -/
theorem mem_dup (h : v ∈ s.dup.stack .exec) : v ∈ s.stack .exec := by
  rcases s.dup_cases with same | ⟨top, rest, hs, pushed⟩
  · rwa [same] at h
  · rw [pushed] at h
    rcases mem_stack_push (by decide) h with rfl | hv
    · exact hs ▸ List.mem_cons_self
    · exact hv

theorem stack_dup_of_ne (s : State) (h : other ≠ .exec) (hi : other ≠ .input) :
    s.dup.stack other = s.stack other := by
  rcases s.dup_cases with same | ⟨top, rest, -, pushed⟩
  · rw [same]
  · rw [pushed, stack_push_of_ne s top h hi]

theorem inputs_dup (s : State) : s.dup.inputs = s.inputs := by
  rcases s.dup_cases with same | ⟨top, rest, -, pushed⟩
  · rw [same]
  · rw [pushed, inputs_push s top (by decide)]

/-- A choice that succeeds does nothing, or takes its condition and keeps one of two elements. -/
theorem branch_cases (h : s.branch = .ok t) :
    t = s ∨ ∃ first second rest kept, s.stack .exec = first :: second :: rest ∧
      (kept = first ∨ kept = second) ∧ t = (s.pop .bool).assign .exec (kept :: rest) := by
  rw [branch] at h
  split at h
  next condition conditions first second rest hb he =>
    split at h <;> cases h
    · exact .inr ⟨first, second, rest, first, he, .inl rfl, rfl⟩
    · exact .inr ⟨first, second, rest, second, he, .inr rfl, rfl⟩
  next =>
    cases h
    exact .inl rfl

theorem branch_inputs (h : s.branch = .ok t) : t.inputs = s.inputs := by
  obtain rfl | ⟨first, second, rest, kept, -, -, rfl⟩ := branch_cases h
  · rfl
  · rw [inputs_assign, inputs_pop s (by decide)]

theorem branch_sublist (h : s.branch = .ok t) : t.stack .exec <+ s.stack .exec := by
  obtain rfl | ⟨first, second, rest, kept, hs, isKept, rfl⟩ := branch_cases h
  · exact List.Sublist.refl _
  · rw [stack_assign (by decide), if_pos rfl, hs]
    rcases isKept with rfl | rfl
    · exact .cons_cons _ (.cons _ (List.Sublist.refl _))
    · exact .cons _ (List.Sublist.refl _)

/-- A choice takes from no other stacks than it looks at. -/
theorem branch_stack_of_ne (h : s.branch = .ok t) (he : other ≠ .exec) (hb : other ≠ .bool)
    (hi : other ≠ .input) : t.stack other = s.stack other := by
  obtain rfl | ⟨first, second, rest, kept, -, -, rfl⟩ := branch_cases h
  · rfl
  · rw [stack_assign (by decide), if_neg he, stack_pop_of_ne s hb hi]

theorem branch_bools (h : s.branch = .ok t) : t.stack .bool <:+ s.stack .bool := by
  obtain rfl | ⟨first, second, rest, kept, -, -, rfl⟩ := branch_cases h
  · exact List.suffix_rfl
  · rw [stack_assign (by decide), if_neg (by decide)]
    exact stack_pop_suffix s (by decide)

/-- A choice fails only on a condition without a truth value. -/
theorem branch_succeeds (decided : ∀ v ∈ s.stack .bool, v.isTrue?.isSome = true) :
    ∃ t, s.branch = .ok t := by
  rw [branch]
  split
  next condition conditions first second rest hb he =>
    have decides := decided condition (hb ▸ List.mem_cons_self)
    split
    · exact ⟨_, rfl⟩
    · exact ⟨_, rfl⟩
    next undecided => simp [undecided] at decides
  next => exact ⟨s, rfl⟩

theorem branch_error {fault : Fault} (h : s.branch = .error fault) : fault = .undecidedTruth := by
  rw [branch] at h
  split at h
  · split at h <;> cases h
    rfl
  · cases h

theorem putBack_of_absent {key : String} (h : s.inputs.get? key = none) :
    s.putBack key = .ok s := by
  rw [putBack, h]

theorem putBack_of_isExecuted {key : String} (h : s.inputs.get? key = some v)
    (hv : v.isExecuted = true) :
    s.putBack key = match v.toElement with
      | .ok e => .ok (s.push .exec (.element e))
      | .error offender => .error (.notAnElement offender) := by
  rw [putBack, h]
  cases v <;> first | rfl | cases hv

theorem putBack_of_not_isExecuted {key : String} (h : s.inputs.get? key = some v)
    (hv : v.isExecuted = false) : s.putBack key = .ok (s.push .image v) := by
  rw [putBack, h]
  cases v <;> first | rfl | cases hv

theorem putBack_error {key : String} {fault : Fault} (h : s.putBack key = .error fault) :
    ∃ offender, fault = .notAnElement offender := by
  cases present : s.inputs.get? key with
  | none => simp [putBack_of_absent present] at h
  | some v =>
    cases hv : v.isExecuted with
    | false => simp [putBack_of_not_isExecuted present hv] at h
    | true =>
      rw [putBack_of_isExecuted present hv] at h
      cases he : v.toElement with
      | ok e => simp [he] at h
      | error offender => exact ⟨offender, by simpa [he] using h.symm⟩

/-- An input that is put back is not there, or stands for an element that is to be executed, or goes
to the images. -/
theorem putBack_cases {key : String} (h : s.putBack key = .ok t) :
    t = s ∨
    (∃ v e, s.inputs.get? key = some v ∧ v.isExecuted = true ∧ v.toElement = .ok e ∧
      t = s.push .exec (.element e)) ∨
    ∃ v, s.inputs.get? key = some v ∧ v.isExecuted = false ∧ t = s.push .image v := by
  cases present : s.inputs.get? key with
  | none =>
    rw [putBack_of_absent present] at h
    cases h
    exact .inl rfl
  | some v =>
    cases hv : v.isExecuted with
    | true =>
      rw [putBack_of_isExecuted present hv] at h
      cases he : v.toElement with
      | error offender => simp [he] at h
      | ok e =>
        rw [he] at h
        cases h
        exact .inr (.inl ⟨v, e, rfl, hv, he, rfl⟩)
    | false =>
      rw [putBack_of_not_isExecuted present hv] at h
      cases h
      exact .inr (.inr ⟨v, rfl, hv, rfl⟩)

theorem putBack_inputs {key : String} (h : s.putBack key = .ok t) : t.inputs = s.inputs := by
  obtain rfl | ⟨v, e, -, -, -, rfl⟩ | ⟨v, -, -, rfl⟩ := putBack_cases h
  · rfl
  · exact inputs_push s _ (by decide)
  · exact inputs_push s v (by decide)

end State

end PictureEvolution
