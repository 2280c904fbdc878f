import PictureEvolution.Proofs.Machine.PictureSet
import PictureEvolution.Proofs.Program.Contents

/-!
# Termination of runs

A step may lengthen what is to be executed, when it splices a block, and may leave it as long as it
was, when it repeats an element; a choice may put a repetition in front of a heavier element. What
falls with every step is a potential: the weight of what is to be executed, counted twice from the
first repetition on. So a run in which no block holds a repetition takes at most twice as many steps
as it weighs.
-/

namespace PictureEvolution

open scoped List

namespace Value

/-- The weight of what is to be executed; anything but an element counts as one leaf. -/
def weight : Value → Nat
  | element e => e.weight
  | _ => 1

def isDup : Value → Bool
  | element (.instruction name) => name == InstructionSet.dupName
  | _ => false

def Calm : Value → Prop
  | element (.block elements) => InstructionSet.dupName ∉ Element.namesAll elements
  | _ => True

instance : DecidablePred Calm
  | element (.block _) => inferInstanceAs (Decidable (_ ∉ _))
  | element (.literal _) | element (.instruction _) => isTrue trivial
  | bool _ | int _ | real _ | text _ | nothing | mapping | list _ | image _ => isTrue trivial

theorem weight_pos (v : Value) : 0 < v.weight := by
  cases v with
  | element e => exact e.weight_pos
  | _ => exact Nat.one_pos

theorem weight_of_isDup {v : Value} (h : v.isDup = true) : v.weight = 1 := by
  cases v with
  | element e => cases e <;> first | rfl | cases h
  | _ => rfl

def weightAll : List Value → Nat
  | [] => 0
  | v :: rest => v.weight + weightAll rest

@[simp] theorem weightAll_nil : weightAll [] = 0 := rfl

@[simp] theorem weightAll_cons (v : Value) (rest : List Value) :
    weightAll (v :: rest) = v.weight + weightAll rest := rfl

theorem weightAll_elements (p : Program) : weightAll (p.map element) = Element.weightAll p := by
  induction p with
  | nil => rfl
  | cons e rest ih => simp [weight, ih]

/-- The weight of what is to be executed, counted twice behind the first repetition. -/
def potential : List Value → Nat
  | [] => 0
  | v :: rest => if v.isDup then 2 * weightAll rest + 1 else v.weight + potential rest

theorem potential_of_isDup {v : Value} (h : v.isDup = true) (rest : List Value) :
    potential (v :: rest) = 2 * weightAll rest + 1 := by rw [potential, if_pos h]

theorem potential_of_not_isDup {v : Value} (h : v.isDup = false) (rest : List Value) :
    potential (v :: rest) = v.weight + potential rest := by
  rw [potential, if_neg (by simp [h])]

theorem potential_le (values : List Value) : potential values ≤ 2 * weightAll values := by
  induction values with
  | nil => exact Nat.zero_le _
  | cons v rest ih =>
    rw [weightAll_cons]
    by_cases h : v.isDup = true
    · rw [potential_of_isDup h, weight_of_isDup h]
      omega
    · rw [potential_of_not_isDup (by simpa using h)]
      omega

theorem potential_lt_cons (v : Value) (rest : List Value) :
    potential rest < potential (v :: rest) := by
  have bounded := potential_le rest
  have positive := v.weight_pos
  by_cases h : v.isDup = true
  · rw [potential_of_isDup h]
    omega
  · rw [potential_of_not_isDup (by simpa using h)]
    omega

theorem weightAll_sublist_le {kept values : List Value} (h : kept <+ values) :
    weightAll kept ≤ weightAll values := by
  induction h with
  | slnil => exact Nat.le_refl _
  | cons v _ ih =>
    rw [weightAll_cons]
    omega
  | cons_cons v _ ih =>
    rw [weightAll_cons, weightAll_cons]
    omega

/-- Taking anything away does not raise the potential, not even when a repetition goes. -/
theorem potential_sublist_le {kept values : List Value} (h : kept <+ values) :
    potential kept ≤ potential values := by
  induction h with
  | slnil => exact Nat.le_refl _
  | cons v _ ih => exact Nat.le_trans ih (Nat.le_of_lt (potential_lt_cons v _))
  | @cons_cons kept values v sub ih =>
    by_cases h : v.isDup = true
    · have lighter := weightAll_sublist_le sub
      rw [potential_of_isDup h, potential_of_isDup h]
      omega
    · rw [potential_of_not_isDup (by simpa using h), potential_of_not_isDup (by simpa using h)]
      omega

theorem potential_append {front : List Value} (h : ∀ v ∈ front, v.isDup = false)
    (rest : List Value) : potential (front ++ rest) = weightAll front + potential rest := by
  induction front with
  | nil => simp
  | cons v front ih =>
    rw [List.forall_mem_cons] at h
    rw [List.cons_append, potential_of_not_isDup h.1, ih h.2, weightAll_cons, Nat.add_assoc]

theorem potential_eq_zero {values : List Value} (h : potential values = 0) : values = [] := by
  cases values with
  | nil => rfl
  | cons v rest =>
    have := potential_lt_cons v rest
    omega

theorem isDup_of_mem_block {p : Program} (h : Calm (element (.block p))) :
    ∀ v ∈ p.map element, v.isDup = false := by
  intro v hv
  obtain ⟨e, he, rfl⟩ := List.mem_map.mp hv
  cases e with
  | instruction name =>
    have outside : name ≠ InstructionSet.dupName := by
      rintro rfl
      exact h (Element.mem_namesAll.mpr ⟨_, he, by simp [Element.names]⟩)
    simpa [isDup] using outside
  | literal value => rfl
  | block elements => rfl

theorem calm_of_mem_block {p : Program} (h : Calm (element (.block p))) :
    ∀ v ∈ p.map element, v.Calm := by
  intro v hv
  obtain ⟨e, he, rfl⟩ := List.mem_map.mp hv
  cases e with
  | block elements =>
    intro inside
    exact h (Element.mem_namesAll.mpr ⟨_, he, by simpa [Element.names] using inside⟩)
  | literal value => trivial
  | instruction name => trivial

end Value

namespace State

variable {s t : State}

def Calm (s : State) : Prop := ∀ v ∈ s.stack .exec, v.Calm

instance (s : State) : Decidable s.Calm :=
  inferInstanceAs (Decidable (∀ v ∈ s.stack .exec, v.Calm))

def potential (s : State) : Nat := Value.potential (s.stack .exec)

/-- A repetition puts a second copy on top of an element, unless there is none or it is a repetition
itself. -/
theorem stack_dup (s : State) :
    s.dup.stack .exec = s.stack .exec ∨ ∃ top rest, s.stack .exec = top :: rest ∧
      top.isDup = false ∧ s.dup.stack .exec = top :: top :: rest := by
  cases h : s.stack .exec with
  | nil =>
    left
    rw [dup, h]
    exact h
  | cons top rest =>
    have pushed : (s.push .exec top).stack .exec = top :: top :: rest := by
      rw [stack_push (by decide), if_pos rfl, h]
    rw [dup, h]
    dsimp only
    split
    next name =>
      split
      next same => exact .inl h
      next other => exact .inr ⟨_, rest, rfl, by simpa [Value.isDup] using other, pushed⟩
    next other =>
      refine .inr ⟨top, rest, rfl, ?_, pushed⟩
      cases top with
      | element e =>
        cases e with
        | instruction name => exact absurd rfl (other name)
        | literal value => rfl
        | block elements => rfl
      | _ => rfl

theorem putBack_exec {key : String} (h : s.putBack key = .ok t)
    (quiet : ∀ v, s.inputs.get? key = some v → v.isExecuted = false) :
    t.stack .exec = s.stack .exec := by
  obtain rfl | ⟨v, e, present, executed, -, rfl⟩ | ⟨v, -, -, rfl⟩ := putBack_cases h
  · rfl
  · rw [quiet v present] at executed
    cases executed
  · exact stack_push_of_ne s v (by decide) (by decide)

end State

namespace InstructionSet

variable {ω : Type} {set : InstructionSet ω} {s t : State} {w w' v : ω} {n : Nat}

/-- Beside the two basic instructions a set has inputs, and functions whose results are not
executed. -/
structure Plain (set : InstructionSet ω) : Prop where
  dup : set.get? dupName = some .dup
  branch : set.get? branchName = some .branch
  other : ∀ name action, set.get? name = some action → name ≠ dupName → name ≠ branchName →
    (∃ key, action = .input key) ∨
      ∃ f args result, action = .value f args result ∧ result ≠ .exec

/-- If an input is to be put back next, it is absent or goes to the images. -/
def Quiet (set : InstructionSet ω) (s : State) : Prop :=
  ∀ name key rest value, s.stack .exec = .element (.instruction name) :: rest →
    set.get? name = some (.input key) → s.inputs.get? key = some value → value.isExecuted = false

/-- All instructions but the repetition only take away from what is to be executed. -/
theorem apply_sublist (plain : set.Plain) {name : String} {action : Action ω} {rest : List Value}
    (found : set.get? name = some action) (other : name ≠ dupName) (quiet : set.Quiet s)
    (pending : s.stack .exec = .element (.instruction name) :: rest)
    (h : (action.apply (s.pop .exec)).Yields w t w') : t.stack .exec <+ rest := by
  rw [← State.stack_pop_exec pending]
  by_cases isBranch : name = branchName
  · subst isBranch
    rw [plain.branch] at found
    cases found
    exact State.branch_sublist (Action.yields_branch.mp h).1
  · rcases plain.other name action found other isBranch with
      ⟨key, rfl⟩ | ⟨f, args, result, rfl, notExec⟩
    · have kept : t.stack .exec = (s.pop .exec).stack .exec := by
        refine State.putBack_exec (Action.yields_input.mp h).1 fun value present => ?_
        rw [State.inputs_pop s (by decide)] at present
        exact quiet name key rest value pending found present
      exact kept ▸ List.Sublist.refl _
    · exact (State.invoke_suffix h notExec.symm (by decide)).sublist

/-- Every step of a calm state lowers the potential and leaves the state calm. -/
theorem step_potential_lt (plain : set.Plain) (calm : s.Calm) (quiet : set.Quiet s)
    (pending : s.stack .exec ≠ []) (h : (set.step s).Yields w t w') :
    t.Calm ∧ t.potential < s.potential := by
  obtain ⟨top, rest, hs⟩ := List.exists_cons_of_ne_nil pending
  have popped := State.stack_pop_exec hs
  have calmRest : ∀ v ∈ rest, v.Calm := fun v hv => calm v (by rw [hs]; exact .tail _ hv)
  -- whatever only takes away from the rest loses at least the top
  have done : t.stack .exec <+ rest → t.Calm ∧ t.potential < s.potential := by
    intro sub
    refine ⟨fun v hv => calmRest v (sub.subset hv), ?_⟩
    calc t.potential ≤ Value.potential rest := Value.potential_sublist_le sub
      _ < s.potential := by
        rw [State.potential, hs]
        exact Value.potential_lt_cons top rest
  obtain ⟨value, rfl, -, rfl⟩ | ⟨p, rfl, -, rfl⟩ | ⟨name, action, rfl, found, applied⟩ :=
    step_cases hs h
  · have notExec : StackName.exec ≠ value.stack := value.ne_stack (by decide) (by decide)
    have kept :=
      (State.stack_push_of_ne (s.pop .exec) (.ofLiteral value) notExec (by decide)).trans popped
    exact done (kept ▸ List.Sublist.refl _)
  · have calmBlock : Value.Calm (.element (.block p)) := calm _ (by rw [hs]; exact .head _)
    have spliced : ((s.pop .exec).loadExec p).stack .exec = p.map .element ++ rest := by
      rw [State.stack_loadExec, popped]
    constructor
    · intro v hv
      rw [spliced, List.mem_append] at hv
      exact hv.elim (Value.calm_of_mem_block calmBlock v) (calmRest v)
    · rw [State.potential, State.potential, spliced, hs,
        Value.potential_append (Value.isDup_of_mem_block calmBlock),
        Value.potential_of_not_isDup rfl, Value.weightAll_elements, Value.weight,
        Element.weight_block]
      omega
  · by_cases isDup : name = dupName
    · subst isDup
      rw [plain.dup] at found
      cases found
      obtain ⟨rfl, -⟩ := Action.yields_dup.mp applied
      rcases (s.pop .exec).stack_dup with same | ⟨first, below, hr, notDup, doubled⟩
      · exact done (same.trans popped ▸ List.Sublist.refl _)
      · rw [popped] at hr
        subst hr
        constructor
        · intro v hv
          rw [doubled] at hv
          exact calmRest v (by simpa using hv)
        · have bounded := Value.potential_le below
          rw [State.potential, State.potential, doubled, hs, Value.potential_of_not_isDup notDup,
            Value.potential_of_not_isDup notDup, Value.potential_of_isDup rfl,
            Value.weightAll_cons]
          omega
    · exact done (apply_sublist plain found isDup quiet hs applied)

/-- Along a run the number of steps and the potential that is left stay within the potential at the
start. -/
theorem Steps.potential_le (h : set.Steps n s w t v) (plain : set.Plain) (calm : s.Calm)
    (quiet : ∀ k u x, set.Steps k s w u x → set.Quiet u) : n + t.potential ≤ s.potential := by
  induction h with
  | refl => omega
  | cons pending one rest ih =>
    obtain ⟨calm', less⟩ := step_potential_lt plain calm (quiet _ _ _ .refl) pending one
    have bounded := ih calm' fun k u x steps => quiet _ _ _ (.cons pending one steps)
    omega

/-- Within so many steps the run of a program ends, with nothing left to execute or with the fault
of a step, and any limit that allows as many steps lets it. -/
def HaltsWithin (set : InstructionSet ω) (bound : Nat) (p : Program) (s : State) (w : ω) : Prop :=
  ∃ n ≤ bound, ∃ outcome, set.Ends (s.loadExec p) w n outcome ∧
    ∀ limit : Limit, bound ≤ limit.bound → set.run limit p s w = match set.validate p with
      | .ok () => outcome
      | .error fault => (.error fault, w)

theorem haltsWithin_of_calm {p : Program} (plain : set.Plain) (calm : (s.loadExec p).Calm)
    (quiet : ∀ n t v, set.Steps n (s.loadExec p) w t v → set.Quiet t) {bound : Nat}
    (enough : 2 * Value.weightAll ((s.loadExec p).stack .exec) ≤ bound) :
    set.HaltsWithin bound p s w := by
  obtain ⟨n, le, outcome, ends⟩ | ⟨t, v, steps, pending⟩ :=
    set.ends_or_steps (s.loadExec p) w bound
  · refine ⟨n, le, outcome, ends, ?_⟩
    intro limit reaches
    rw [run]
    cases set.validate p with
    | error fault => rfl
    | ok => exact ends.drain_eq (Nat.le_trans le reaches)
  · have bounded := steps.potential_le plain calm quiet
    have start : (s.loadExec p).potential ≤ bound :=
      Nat.le_trans (Value.potential_le _) enough
    exact absurd (Value.potential_eq_zero (show t.potential = 0 by omega)) pending

theorem weightAll_of_flat {p : Program} (flat : ∀ e ∈ p, e.isBlock = false) :
    Value.weightAll (p.map .element) = p.length := by
  rw [Value.weightAll_elements]
  induction p with
  | nil => rfl
  | cons e rest ih =>
    rw [List.forall_mem_cons] at flat
    rw [Element.weightAll_cons, ih flat.2, Element.weight_of_not_isBlock flat.1, List.length_cons,
      Nat.add_comm]

theorem calm_of_flat {p : Program} (flat : ∀ e ∈ p, e.isBlock = false) :
    ∀ v ∈ p.map Value.element, v.Calm := by
  intro v hv
  obtain ⟨e, he, rfl⟩ := List.mem_map.mp hv
  cases e with
  | block elements => exact absurd (flat _ he) (by simp [Element.isBlock])
  | literal value => trivial
  | instruction name => trivial

theorem flat_of_default {p : Program} (h : ∀ e ∈ p, e ∈ defaultCatalog) :
    ∀ e ∈ p, e.isBlock = false := by
  have flat : ∀ e ∈ defaultCatalog, e.isBlock = false := by decide
  exact fun e he => flat e (h e he)

/-- A run in which no block holds a repetition and no input is executed takes at most twice as many
steps as there are leaves and blocks to execute at its start, and one of a flat program on its own
at most twice its length. Programs from the default catalog are flat. -/
theorem haltsWithin_twice_weight (set : InstructionSet ω) (plain : set.Plain) (p : Program)
    (s : State) (w : ω) (quiet : ∀ n t v, set.Steps n (s.loadExec p) w t v → set.Quiet t) :
    ((s.loadExec p).Calm →
      set.HaltsWithin (2 * Value.weightAll ((s.loadExec p).stack .exec)) p s w) ∧
    (s.stack .exec = [] → (∀ e ∈ p, e.isBlock = false) →
      set.HaltsWithin (2 * p.length) p s w) ∧
    ((∀ e ∈ p, e ∈ defaultCatalog) → ∀ e ∈ p, e.isBlock = false) := by
  refine ⟨fun calm => haltsWithin_of_calm plain calm quiet (Nat.le_refl _), ?_, flat_of_default⟩
  intro alone flat
  have loaded : (s.loadExec p).stack .exec = p.map .element := by
    rw [State.stack_loadExec, alone, List.append_nil]
  apply haltsWithin_of_calm plain _ quiet
  · exact Nat.le_of_eq (by rw [loaded, weightAll_of_flat flat])
  · intro v hv
    rw [loaded] at hv
    exact calm_of_flat flat v hv

section Pictures

variable [Source ω]

theorem plain_pictures (inputs : Nat) : (pictures inputs : InstructionSet ω).Plain where
  dup := get?_pictures_dup inputs
  branch := get?_pictures_branch inputs
  other name action found notDup notBranch := by
    rcases get?_pictures_cases found with ⟨h, -⟩ | ⟨h, -⟩ | ⟨f, -, rfl⟩ | ⟨m, -, rfl⟩ | ⟨key, rfl⟩
    · exact absurd h notDup
    · exact absurd h notBranch
    · exact .inr ⟨_, _, _, rfl, by decide⟩
    · exact .inr ⟨_, _, _, rfl, by decide⟩
    · exact .inl ⟨key, rfl⟩

/-- When no input is a piece of program, the picture instructions never execute one. -/
theorem quiet_pictures {inputs : Nat}
    (images : ∀ key v, s.inputs.get? key = some v → v.isExecuted = false)
    (h : (pictures inputs).Steps n s w t v) : (pictures inputs : InstructionSet ω).Quiet t := by
  intro name key rest value _ _ present
  rw [h.inputs_eq (sparesInputs_pictures inputs)] at present
  exact images key value present

end Pictures

end InstructionSet

/-- A repetition of a repetition, in front of a choice between a block and a repetition. -/
def repetitions : Program :=
  [.instruction InstructionSet.dupName, .instruction InstructionSet.dupName,
   .block [.literal (.bool true), .block [.instruction (State.inputKey 1)]],
   .instruction InstructionSet.branchName, .instruction InstructionSet.dupName,
   .block [.instruction Filter.noise.name, .literal (.int 3)],
   .instruction Merge.rows.name]

def pendingState : State :=
  let img := Value.image (.ofFn 2 2 (.channels 3) fun _ _ _ => 0)
  (((∅ : State).loadImages [img]).loadInputs [img]).loadExec [.instruction InstructionSet.dupName]

theorem repetitions_haltsWithin :
    (pendingState.loadExec repetitions).Calm ∧
      (InstructionSet.pictures 1).HaltsWithin 26 repetitions pendingState
        (⟨[1, 2, 3]⟩ : Script) := by
  have images : ∀ key v, (pendingState.loadExec repetitions).inputs.get? key = some v →
      v.isExecuted = false := by
    intro key v present
    change Table.find key [(State.inputKey 1, Value.image _)] = some v at present
    rw [Table.find] at present
    split at present
    · cases present
      rfl
    · cases present
  have calm : (pendingState.loadExec repetitions).Calm := by decide
  have halts := InstructionSet.haltsWithin_twice_weight (InstructionSet.pictures 1)
    (InstructionSet.plain_pictures 1) repetitions pendingState (⟨[1, 2, 3]⟩ : Script)
    fun n t v steps => InstructionSet.quiet_pictures images steps
  exact ⟨calm, halts.1 calm⟩

end PictureEvolution
