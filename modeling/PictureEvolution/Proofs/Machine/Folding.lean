import PictureEvolution.Proofs.Machine.Limits

/-!
# Programs as sequences of leaves

Where no instruction takes from the exec stack or returns to it, blocks only group: a run executes
the leaves of the program and of what was waiting behind it from left to right, each on its own, and
takes one step for each leaf and one for each block. What waits on the exec stack meanwhile is a
frame: an operation on the other stacks does the same with any frame.
-/

namespace PictureEvolution

namespace State

variable {s t : State} {name : StackName} {v : Value}

/-- Something was written to the exec stack before, if only that it is empty. -/
def Framed (s : State) : Prop := s.contents.contains .exec = true

structure Idle (s : State) : Prop where
  framed : s.Framed
  exec : s.stack .exec = []

theorem framed_assign_exec (s : State) (frame : List Value) : (s.assign .exec frame).Framed := by
  simp [Framed, assign, Table.contains]

theorem Framed.assign (h : s.Framed) (name : StackName) (values : List Value) :
    (s.assign name values).Framed := by
  unfold Framed Table.contains at *
  rw [State.assign, Table.get?_insert]
  split
  · rfl
  · exact h

theorem Framed.push (h : s.Framed) (name : StackName) (v : Value) : (s.push name v).Framed := by
  rw [State.push]
  split
  · exact h
  · exact h.assign name _

theorem Framed.pop (h : s.Framed) (name : StackName) : (s.pop name).Framed := by
  rw [State.pop]
  split
  · split
    · exact h
    · exact h
  · split
    · exact h
    · exact h.assign name _

@[simp] theorem stack_assign_exec (s : State) (values : List Value) :
    (s.assign .exec values).stack .exec = values := by
  rw [stack_assign (by decide), if_pos rfl]

theorem pop_assign_exec (s : State) (v : Value) (rest : List Value) :
    (s.assign .exec (v :: rest)).pop .exec = s.assign .exec rest := by
  rw [pop, if_neg (by decide), stack_assign_exec]
  exact assign_assign s .exec _ rest

theorem loadExec_assign_exec (s : State) (p : Program) (values : List Value) :
    (s.assign .exec values).loadExec p = s.assign .exec (p.map .element ++ values) := by
  rw [loadExec, stack_assign_exec, assign_assign]

theorem assign_self (h : s.Framed) : s.assign .exec (s.stack .exec) = s := by
  obtain ⟨values, found⟩ := Option.isSome_iff_exists.mp h
  have same : s.stack .exec = values := by
    rw [stack_eq_getD s (by decide), found, Option.getD_some]
  simp only [assign, same, Table.insert_eq_self found]

section Frame

variable (frame : List Value)

theorem stack_frame (hn : name ≠ .exec) (s : State) :
    (s.assign .exec frame).stack name = s.stack name := by
  rw [stack_assign (by decide), if_neg hn]

theorem assign_frame (h : s.Framed) (hn : name ≠ .exec) (values : List Value) :
    (s.assign .exec frame).assign name values = (s.assign name values).assign .exec frame := by
  simp only [assign, Table.insert_comm _ _ hn.symm h]

theorem push_frame (h : s.Framed) (hn : name ≠ .exec) :
    (s.assign .exec frame).push name v = (s.push name v).assign .exec frame := by
  by_cases hi : name = .input
  · subst hi
    rfl
  · rw [push_eq_assign hi, push_eq_assign hi, stack_frame frame hn, assign_frame frame h hn]

theorem pop_frame (h : s.Framed) (hn : name ≠ .exec) :
    (s.assign .exec frame).pop name = (s.pop name).assign .exec frame := by
  by_cases hi : name = .input
  · subst hi
    rw [pop, pop, if_pos rfl, if_pos rfl, inputs_assign]
    split <;> rfl
  · rw [pop, pop, if_neg hi, if_neg hi, stack_frame frame hn]
    split
    · rfl
    · exact assign_frame frame h hn _

theorem peek?_frame (hn : name ≠ .exec) (s : State) :
    (s.assign .exec frame).peek? name = s.peek? name := by
  rw [peek?, peek?, stack_frame frame hn, inputs_assign]

theorem takeArgs?_frame {names : List StackName} (h : s.Framed) (hn : .exec ∉ names) :
    (s.assign .exec frame).takeArgs? names =
      (s.takeArgs? names).map fun (vs, t) => (vs, t.assign .exec frame) := by
  induction names generalizing s with
  | nil => rfl
  | cons name names ih =>
    rw [List.mem_cons, not_or] at hn
    rw [takeArgs?, takeArgs?, peek?_frame frame (Ne.symm hn.1)]
    cases s.peek? name with
    | none => rfl
    | some v =>
      simp only [pop_frame frame h (Ne.symm hn.1), ih (h.pop name) hn.2, Option.map_map]
      rfl

theorem Framed.takeArgs? {names : List StackName} {vs : List Value} (h : s.Framed)
    (taken : s.takeArgs? names = some (vs, t)) : t.Framed :=
  takeArgs?_keeps taken (fun name _ _ framed => framed.pop name) h

/-- A function that works beside the exec stack gives the same with any frame. -/
theorem invoke_frame {ω : Type} (f : List Value → Task ω Value) {args : List StackName}
    {result : StackName} (h : s.Framed) (ha : .exec ∉ args) (hr : result ≠ .exec) :
    (s.assign .exec frame).invoke f args result =
      s.invoke f args result >>= fun t => pure (t.assign .exec frame) := by
  rw [invoke, invoke, takeArgs?_frame frame h ha]
  cases taken : s.takeArgs? args with
  | none => simp
  | some both =>
    obtain ⟨vs, rest⟩ := both
    simp [push_frame frame (h.takeArgs? taken) hr]

end Frame

end State

namespace InstructionSet

variable {ω : Type} {set : InstructionSet ω} {s t u : State} {w v : ω}

/-- The name has a function that neither takes from the exec stack nor returns to it. -/
def Detached (set : InstructionSet ω) (name : String) : Prop :=
  ∃ f args result, set.get? name = some (.value f args result) ∧ .exec ∉ args ∧ result ≠ .exec

def Infallible (set : InstructionSet ω) (name : String) : Prop :=
  ∀ f args result, set.get? name = some (.value f args result) →
    ∀ vs, (f vs).Succeeds fun _ => True

/-- What a leaf does on its own. -/
def execute (set : InstructionSet ω) (s : State) : Leaf → Task ω State
  | .literal value => pure (s.push value.stack (.ofLiteral value))
  | .instruction name =>
    match set.get? name with
    | some action => action.apply s
    | none => throw (.unknownInstruction name [])

def executeAll (set : InstructionSet ω) (leaves : List Leaf) (s : State) : Task ω State :=
  leaves.foldlM set.execute s

theorem executeAll_cons {l : Leaf} {rest : List Leaf} :
    set.executeAll (l :: rest) s = set.execute s l >>= set.executeAll rest := List.foldlM_cons

section Leaf

variable {l : Leaf} (detached : ∀ name, l = .instruction name → set.Detached name)

include detached

/-- With others behind it a leaf does what it does on its own. -/
theorem step_leaf (framed : s.Framed) (frame : List Value) :
    set.step (s.assign .exec (.element l.element :: frame)) =
      set.execute s l >>= fun t => pure (t.assign .exec frame) := by
  have top := s.stack_assign_exec (.element l.element :: frame)
  cases l with
  | literal value =>
    have notExec : value.stack ≠ .exec := Ne.symm (value.ne_stack (by decide) (by decide))
    rw [step_literal top, State.pop_assign_exec, State.push_frame frame framed notExec]
    rfl
  | instruction name =>
    obtain ⟨f, args, result, found, ha, hr⟩ := detached name rfl
    rw [step_instruction top, State.pop_assign_exec, execute, found]
    exact State.invoke_frame frame f framed ha hr

theorem execute_idle (idle : s.Idle) (one : (set.execute s l).Yields w t v) : t.Idle := by
  cases l with
  | literal value =>
    have notExec : value.stack ≠ .exec := Ne.symm (value.ne_stack (by decide) (by decide))
    obtain ⟨rfl, -⟩ := Task.yields_pure.mp one
    refine ⟨idle.framed.push _ _, ?_⟩
    rw [State.stack_push_of_ne s _ notExec.symm (by decide), idle.exec]
  | instruction name =>
    obtain ⟨f, args, result, found, ha, hr⟩ := detached name rfl
    rw [execute, found] at one
    have untouched := State.invoke_suffix one hr.symm (by decide)
    rw [idle.exec, List.suffix_nil] at untouched
    refine ⟨?_, untouched⟩
    rcases State.yields_invoke.mp one with ⟨-, rfl, -⟩ | ⟨vs, rest, u, taken, -, rfl⟩
    · exact idle.framed
    · exact (idle.framed.takeArgs? taken).push result u

theorem execute_succeeds (infallible : ∀ name, l = .instruction name → set.Infallible name)
    (s : State) : (set.execute s l).Succeeds fun _ => True := by
  intro w
  cases l with
  | literal value => exact ⟨_, w, rfl, trivial⟩
  | instruction name =>
    obtain ⟨f, args, result, found, -, -⟩ := detached name rfl
    rw [execute, found]
    cases taken : s.takeArgs? args with
    | none => exact ⟨s, w, State.yields_invoke.mpr (.inl ⟨taken, rfl, rfl⟩), trivial⟩
    | some both =>
      obtain ⟨vs, rest⟩ := both
      obtain ⟨u, x, called, -⟩ := infallible name rfl f args result found vs w
      exact ⟨_, x, State.yields_invoke.mpr (.inr ⟨vs, rest, u, taken, called, rfl⟩), trivial⟩

end Leaf

theorem executeAll_succeeds {leaves : List Leaf}
    (detached : ∀ name, .instruction name ∈ leaves → set.Detached name)
    (infallible : ∀ name, .instruction name ∈ leaves → set.Infallible name) (s : State) :
    (set.executeAll leaves s).Succeeds fun _ => True := by
  intro w
  induction leaves generalizing s w with
  | nil => exact ⟨s, w, rfl, trivial⟩
  | cons l rest ih =>
    obtain ⟨t, x, one, -⟩ := execute_succeeds (fun name h => detached name (h ▸ List.mem_cons_self))
      (fun name h => infallible name (h ▸ List.mem_cons_self)) s w
    obtain ⟨u, y, others, -⟩ := ih (fun name h => detached name (List.mem_cons_of_mem l h))
      (fun name h => infallible name (List.mem_cons_of_mem l h)) t x
    rw [executeAll_cons]
    exact ⟨u, y, Task.yields_bind.mpr ⟨t, x, one, others⟩, trivial⟩

theorem step_spliced (set : InstructionSet ω) (s : State) (p : Program) (frame : List Value)
    (w : ω) : (set.step (s.assign .exec (.element (.block p) :: frame))).Yields w
      (s.assign .exec (p.map .element ++ frame)) w := by
  rw [step_block (s.stack_assign_exec _), State.pop_assign_exec, State.loadExec_assign_exec]
  rfl

/-- A start comes to an outcome after so many steps, or before that if the outcome is a fault. -/
def EndsWithin (set : InstructionSet ω) (s : State) (w : ω) (n : Nat)
    (outcome : Except Fault State × ω) : Prop :=
  ∃ k ≤ n, set.Ends s w k outcome ∧ ∀ t v, outcome = (.ok t, v) → k = n

namespace EndsWithin

variable {n : Nat} {p rest : Program} {fault : Fault} {outcome : Except Fault State × ω}

theorem cons (pending : s.stack .exec ≠ []) (one : (set.step s).Yields w t v)
    (h : set.EndsWithin t v n outcome) : set.EndsWithin s w (n + 1) outcome := by
  obtain ⟨k, le, ends, exact⟩ := h
  refine ⟨k + 1, Nat.succ_le_succ le, ends.cons pending one, fun t v yields => ?_⟩
  rw [exact t v yields]

theorem failed (pending : s.stack .exec ≠ []) (last : (set.step s).Fails w fault v) :
    set.EndsWithin s w (n + 1) (.error fault, v) :=
  ⟨1, Nat.succ_le_succ (Nat.zero_le n), .failed .refl pending last, nofun⟩

theorem block (h : set.EndsWithin (s.assign .exec ((p ++ rest).map .element)) w n outcome) :
    set.EndsWithin (s.assign .exec ((.block p :: rest).map .element)) w (n + 1) outcome := by
  rw [List.map_append] at h
  exact h.cons (by simp) (set.step_spliced s p _ w)

theorem leaf {l : Leaf} {f : State → Task ω State}
    (detached : ∀ name, l = .instruction name → set.Detached name) (idle : s.Idle)
    (h : ∀ u x, u.Idle → set.EndsWithin (u.assign .exec (rest.map .element)) x n (f u x)) :
    set.EndsWithin (s.assign .exec ((l.element :: rest).map .element)) w (n + 1)
      ((set.execute s l >>= f) w) := by
  have pending : (s.assign .exec ((l.element :: rest).map .element)).stack .exec ≠ [] := by simp
  have step := step_leaf detached idle.framed (rest.map .element)
  rcases (set.execute s l).yields_or_fails w with ⟨u, x, one⟩ | ⟨fault, x, one⟩
  · have stepped : (set.step (s.assign .exec ((l.element :: rest).map .element))).Yields w
        (u.assign .exec (rest.map .element)) x := by
      rw [List.map_cons, step]
      exact Task.yields_bind.mpr ⟨u, x, one, rfl⟩
    rw [Task.bind_of_yields one]
    exact (h u x (execute_idle detached idle one)).cons pending stepped
  · have stepped : (set.step (s.assign .exec ((l.element :: rest).map .element))).Fails w
        fault x := by
      rw [List.map_cons, step]
      exact Task.bind_of_fails one
    rw [show (set.execute s l >>= f) w = (.error fault, x) from Task.bind_of_fails one]
    exact failed pending stepped

end EndsWithin

/-- The chain of steps executes the leaves of what is waiting, in order, and ends as they do: with
the fault of one of them, or with nothing left after as many steps as there are leaves and blocks.
By induction on that number, which a step lowers by one whether it executes a leaf or splices a
block. -/
theorem endsWithin_executeAll {q : Program} (idle : s.Idle)
    (detached : ∀ name ∈ Element.namesAll q, set.Detached name) :
    set.EndsWithin (s.assign .exec (q.map .element)) w (Element.weightAll q)
      (set.executeAll (Element.leavesAll q) s w) := by
  induction weight : Element.weightAll q generalizing q s w with
  | zero =>
    cases q with
    | nil =>
      have same := State.assign_self idle.framed
      rw [idle.exec] at same
      exact ⟨0, Nat.le_refl 0, .halted (same.symm ▸ .refl) idle.exec, fun _ _ _ => rfl⟩
    | cons e rest =>
      have := e.weight_pos
      rw [Element.weightAll_cons] at weight
      omega
  | succ n ih =>
    cases q with
    | nil => cases weight
    | cons e rest =>
      rw [Element.namesAll, List.forall_mem_append] at detached
      obtain ⟨l, rfl⟩ | ⟨p, rfl⟩ := e.leaf_or_block
      · rw [Element.weightAll_cons, Element.weight_leaf] at weight
        have known (name : String) (h : l = .instruction name) : set.Detached name :=
          detached.1 name (by rw [h]; exact List.mem_cons_self)
        rw [Element.leavesAll, Element.leaves_leaf, List.singleton_append, executeAll_cons]
        exact .leaf known idle fun u x still => ih still detached.2 (by omega)
      · rw [Element.weightAll_cons, Element.weight_block] at weight
        have names : ∀ name ∈ Element.namesAll (p ++ rest), set.Detached name := by
          rw [Element.namesAll_append, List.forall_mem_append]
          exact detached
        have spliced : set.EndsWithin (s.assign .exec ((p ++ rest).map .element)) w n
            (set.executeAll (Element.leavesAll (p ++ rest)) s w) :=
          ih idle names (by rw [Element.weightAll_append]; omega)
        rw [Element.leavesAll_append] at spliced
        exact spliced.block

/-- How many steps programs take in which no block is dropped or repeated: one for each leaf and one
for each block. -/
def stepCount (p q : Program) : Nat :=
  Element.sizeAll p + Element.sizeAll q + (Element.blocksAll p + Element.blocksAll q)

theorem weightAll_eq_stepCount (p q : Program) : Element.weightAll (p ++ q) = stepCount p q := by
  rw [Element.weightAll_append, stepCount, Element.weightAll, Element.weightAll]
  omega

theorem validate_of_detached {p : Program}
    (detached : ∀ name ∈ Element.namesAll p, set.Detached name) : set.validate p = .ok () := by
  rw [validate_eq_ok_iff]
  intro name hn
  obtain ⟨f, args, result, found, -⟩ := detached name hn
  simp [Table.contains, found]

/-- What the leaves of a program, and of another one behind it, come to with an empty exec stack. -/
def evaluate (set : InstructionSet ω) (p q : Program) (s : State) : Task ω State :=
  set.executeAll (Element.leavesAll p ++ Element.leavesAll q) (s.assign .exec [])

section Evaluate

variable {p q : Program} (waiting : s.stack .exec = q.map .element)
  (detached : ∀ name ∈ Element.namesAll (p ++ q), set.Detached name)

include detached

theorem evaluate_succeeds (infallible : ∀ name ∈ Element.namesAll (p ++ q), set.Infallible name) :
    (set.evaluate p q s).Succeeds fun _ => True := by
  have leaf {name : String}
      (h : Leaf.instruction name ∈ Element.leavesAll p ++ Element.leavesAll q) :
      name ∈ Element.namesAll (p ++ q) := by
    rwa [Element.mem_namesAll_iff_leaf, Element.leavesAll_append]
  exact executeAll_succeeds (fun name h => detached name (leaf h))
    (fun name h => infallible name (leaf h)) (s.assign .exec [])

include waiting

theorem endsWithin_evaluate :
    set.EndsWithin (s.loadExec p) w (stepCount p q) (set.evaluate p q s w) := by
  have idle : (s.assign .exec []).Idle := ⟨s.framed_assign_exec [], s.stack_assign_exec []⟩
  have loaded : s.loadExec p = (s.assign .exec []).assign .exec ((p ++ q).map .element) := by
    rw [State.assign_assign, State.loadExec, waiting, List.map_append]
  rw [evaluate, ← Element.leavesAll_append, loaded, ← weightAll_eq_stepCount]
  exact endsWithin_executeAll idle detached

theorem run_eq_evaluate (limit : Limit) (enough : stepCount p q ≤ limit.bound) :
    set.run limit p s w = set.evaluate p q s w := by
  have valid : set.validate p = .ok () := validate_of_detached fun name hn =>
    detached name (by rw [Element.namesAll_append]; exact List.mem_append_left _ hn)
  obtain ⟨k, le, ends, -⟩ := endsWithin_evaluate (w := w) waiting detached
  rw [run_of_valid valid]
  exact ends.drain_eq (Nat.le_trans le enough)

theorem steps_of_evaluate (yields : (set.evaluate p q s).Yields w t v) :
    set.Steps (stepCount p q) (s.loadExec p) w t v ∧ t.stack .exec = [] := by
  obtain ⟨k, -, ends, exact⟩ := endsWithin_evaluate (w := w) waiting detached
  rw [show set.evaluate p q s w = (.ok t, v) from yields] at ends
  cases ends with
  | halted steps empty => exact ⟨exact t v yields ▸ steps, empty⟩

end Evaluate

/-- The run of a program `p`, with a program `q` waiting behind it, where no instruction touches the
exec stack. If the functions do not fail, it halts after one step for each leaf and each block, with
what the leaves come to one after the other. In any case nesting does not matter: every program with
the leaves of `p` has the outcome of these leaves, be it a state or a fault. -/
theorem halts_evaluated (set : InstructionSet ω) (p q : Program) (s : State)
    (waiting : s.stack .exec = q.map .element)
    (detached : ∀ name ∈ Element.namesAll (p ++ q), set.Detached name) (w : ω) :
    ((∀ name ∈ Element.namesAll (p ++ q), set.Infallible name) →
      ∃ t v, (set.evaluate p q s).Yields w t v ∧ t.stack .exec = [] ∧
        set.Steps (stepCount p q) (s.loadExec p) w t v ∧
        ∀ limit, stepCount p q ≤ limit.bound → (set.run limit p s).Yields w t v) ∧
    ∀ p', Element.leavesAll p' = Element.leavesAll p →
      (∀ limit, stepCount p' q ≤ limit.bound → set.run limit p' s w = set.evaluate p q s w) ∧
      ∀ t v, (set.evaluate p q s).Yields w t v →
        set.Steps (stepCount p' q) (s.loadExec p') w t v := by
  constructor
  · intro infallible
    obtain ⟨t, v, yields, -⟩ := evaluate_succeeds (s := s) detached infallible w
    obtain ⟨steps, empty⟩ := steps_of_evaluate waiting detached yields
    exact ⟨t, v, yields, empty, steps, fun limit enough =>
      (run_eq_evaluate waiting detached limit enough).trans yields⟩
  · intro p' same
    have known : ∀ name ∈ Element.namesAll (p' ++ q), set.Detached name := by
      intro name hn
      apply detached name
      rw [Element.mem_namesAll_iff_leaf, Element.leavesAll_append] at hn ⊢
      rwa [same] at hn
    have folded : set.evaluate p q s = set.evaluate p' q s := by
      rw [evaluate, evaluate, same]
    rw [folded]
    exact ⟨fun limit enough => run_eq_evaluate waiting known limit enough,
      fun t v yields => (steps_of_evaluate waiting known yields).1⟩

end InstructionSet

def dieAndSum : InstructionSet Script :=
  (InstructionSet.basic.insert "add" (.value sum [.integer, .integer] .integer)).insert "die"
    (.value (fun _ => do return .int (← Task.ofDraw (Draw.below 6 (by decide))).val) [] .input)
where
  sum : List Value → Task Script Value
    | [.int m, .int n] => pure (.int (m + n))
    | _ => pure .nothing

def nestedThrow : Program :=
  [.block [.literal (.int 2), .block [.instruction "die", .literal (.bool true)]],
   .instruction "add"]

def waitingThrow : Program := [.block [], .block [.instruction "die"], .literal (.int 3)]

theorem dieAndSum_names {name : String}
    (h : name ∈ Element.namesAll (nestedThrow ++ waitingThrow)) : name = "die" ∨ name = "add" := by
  rw [show Element.namesAll (nestedThrow ++ waitingThrow) = ["die", "add", "die"] from rfl] at h
  simp only [List.mem_cons, List.not_mem_nil, or_false] at h
  grind

theorem dieAndSum_detached (name : String)
    (h : name ∈ Element.namesAll (nestedThrow ++ waitingThrow)) : dieAndSum.Detached name := by
  rcases dieAndSum_names h with rfl | rfl
  · exact ⟨_, _, _, rfl, by decide, by decide⟩
  · exact ⟨_, _, _, rfl, by decide, by decide⟩

theorem dieAndSum_infallible (name : String)
    (h : name ∈ Element.namesAll (nestedThrow ++ waitingThrow)) : dieAndSum.Infallible name := by
  intro f args result found vs w
  rcases dieAndSum_names h with rfl | rfl
  · change some (Action.value _ [] .input) = some (.value f args result) at found
    cases found
    exact ⟨_, _, Task.yields_bind.mpr ⟨_, _, Task.yields_ofDraw.mpr rfl, rfl⟩, trivial⟩
  · change some (Action.value dieAndSum.sum [.integer, .integer] .integer) =
      some (.value f args result) at found
    cases found
    unfold dieAndSum.sum
    split
    · exact ⟨_, w, rfl, trivial⟩
    · exact ⟨_, w, rfl, trivial⟩

theorem nestedThrow_halts :
    ((∅ : State).loadExec waitingThrow).stack .exec = waitingThrow.map .element ∧
    (∀ name ∈ Element.namesAll (nestedThrow ++ waitingThrow), dieAndSum.Detached name) ∧
    (∀ name ∈ Element.namesAll (nestedThrow ++ waitingThrow), dieAndSum.Infallible name) ∧
    ∃ t v, (dieAndSum.evaluate nestedThrow waitingThrow ((∅ : State).loadExec waitingThrow)).Yields
        ⟨[4, 9]⟩ t v ∧ t.stack .exec = [] ∧
      dieAndSum.Steps 10 (((∅ : State).loadExec waitingThrow).loadExec nestedThrow) ⟨[4, 9]⟩ t v ∧
      ∀ limit, 10 ≤ limit.bound →
        (dieAndSum.run limit nestedThrow ((∅ : State).loadExec waitingThrow)).Yields ⟨[4, 9]⟩ t
          v := by
  exact ⟨rfl, dieAndSum_detached, dieAndSum_infallible, (InstructionSet.halts_evaluated dieAndSum
    nestedThrow waitingThrow _ rfl dieAndSum_detached ⟨[4, 9]⟩).1 dieAndSum_infallible⟩

end PictureEvolution
