import PictureEvolution.Proofs.Machine.PictureSet
import PictureEvolution.Proofs.Random.Records

/-!
# Records of runs

A run over the picture instructions knows its source by the answers only: on a recorded source it
does the same, and its record is a script for it. For this the instructions are named without a
source first, so that one name stands for the same instruction on every source.
-/

namespace PictureEvolution

namespace Table

variable {κ α β : Type} [DecidableEq κ] (f : α → β) (t : Table κ α)

theorem get?_map (k : κ) : (t.map f).get? k = (t.get? k).map f := by
  have found (entries : List (κ × α)) :
      find k (entries.map fun e => (e.1, f e.2)) = (find k entries).map f := by
    induction entries with
    | nil => rfl
    | cons e rest ih =>
      simp only [List.map_cons, find, ih]
      split <;> rfl
  exact found t.entries

theorem map_insert (k : κ) (a : α) : (t.insert k a).map f = (t.map f).insert k (f a) := by
  have inserted (entries : List (κ × α)) : (put k a entries).map (fun e => (e.1, f e.2)) =
      put k (f a) (entries.map fun e => (e.1, f e.2)) := by
    induction entries with
    | nil => rfl
    | cons e rest ih =>
      simp only [put, List.map_cons]
      split
      · rfl
      · rw [List.map_cons, ih]
  exact ext (inserted t.entries)

theorem map_insertAll (entries : List (κ × α)) :
    (t.insertAll entries).map f = (t.map f).insertAll (entries.map fun e => (e.1, f e.2)) := by
  induction entries generalizing t with
  | nil => rfl
  | cons e rest ih => exact (ih _).trans (by rw [map_insert]; rfl)

end Table

namespace Task

variable {α β : Type}

/-- On a recorded source the task has the same outcome, and what is added to the record is a script
for it. -/
def Transcribed (t : (ω : Type) → [Source ω] → Task ω α) : Prop :=
  Draw.Transcribed (α := Except Fault α) t

namespace Transcribed

theorem pure (a : α) : Transcribed fun _ => Pure.pure a :=
  Draw.Transcribed.pure (Except.ok (ε := Fault) a)

theorem throw (fault : Fault) : Transcribed (α := α) fun _ => MonadExcept.throw fault :=
  Draw.Transcribed.pure (Except.error (α := α) fault)

theorem ofDraw {d : (ω : Type) → [Source ω] → Draw ω α} (h : Draw.Transcribed d) :
    Transcribed fun ω => Task.ofDraw (d ω) :=
  Draw.Transcribed.bind h fun a => .pure (Except.ok (ε := Fault) a)

theorem ofOption (fault : Fault) (r : Option α) : Transcribed fun _ => Task.ofOption fault r := by
  cases r with
  | none => exact throw fault
  | some a => exact pure a

theorem bind {t : (ω : Type) → [Source ω] → Task ω α} {f : α → (ω : Type) → [Source ω] → Task ω β}
    (h : Transcribed t) (hf : ∀ a, Transcribed (f a)) :
    Transcribed fun ω => t ω >>= fun a => f a ω := by
  refine Draw.Transcribed.bind (f := fun r ω => ExceptT.bindCont (fun a => f a ω) r) h fun r => ?_
  cases r with
  | ok a => exact hf a
  | error fault => exact throw fault

theorem liftExcept (r : Except Fault α) : Transcribed fun _ => Action.apply.liftExcept r := by
  cases r with
  | ok a => exact pure a
  | error fault => exact throw fault

end Transcribed

end Task

open PictureEvolution.Task (Transcribed)

namespace Image

open Draw.Transcribed

theorem transcribed_addNoise (img : Image) : Draw.Transcribed fun _ => img.addNoise :=
  (answer .seed).bind fun _ => .pure _

theorem transcribed_rotateSection (img : Image) : Draw.Transcribed fun _ => img.rotateSection := by
  unfold rotateSection
  split
  · exact (below _ _).bind fun x => (below _ _).bind fun y => (between _ _ _).bind fun side =>
      (choose _ _).bind fun turns => .pure _
  · exact .pure img

theorem transcribed_scrambleQuadrants (img : Image) :
    Draw.Transcribed fun _ => img.scrambleQuadrants := by
  unfold scrambleQuadrants
  split
  · exact .pure img
  · exact (shuffle _).bind fun order => .pure _

theorem transcribed_splitRows (a b : Image) : Draw.Transcribed fun _ => splitRows a b := by
  unfold splitRows
  split
  · exact (between _ _ _).bind fun row => .pure _
  · exact .pure b

theorem transcribed_splitColumns (a b : Image) : Draw.Transcribed fun _ => splitColumns a b := by
  unfold splitColumns
  split
  · exact (between _ _ _).bind fun column => .pure _
  · exact .pure b

end Image

theorem Filter.transcribed_apply (f : Filter) (img : Image) : Transcribed fun _ => f.apply img := by
  cases f with
  | invert => exact .pure _
  | laplace | emboss | edge => exact .ofOption _ _
  | noise => exact .ofDraw img.transcribed_addNoise
  | rotate => exact .ofDraw img.transcribed_rotateSection
  | scramble => exact .ofDraw img.transcribed_scrambleQuadrants

theorem Merge.transcribed_apply (m : Merge) (a b : Image) : Transcribed fun _ => m.apply a b := by
  unfold Merge.apply
  split
  · cases m with
    | and | or | xor => exact .pure _
    | rows => exact .ofDraw (a.transcribed_splitRows b)
    | columns => exact .ofDraw (a.transcribed_splitColumns b)
  · exact .throw _

theorem State.transcribed_invoke {f : (ω : Type) → [Source ω] → List Value → Task ω Value}
    (h : ∀ vs, Transcribed fun ω => f ω vs) (s : State) (args : List StackName)
    (result : StackName) : Transcribed fun ω => s.invoke (f ω) args result := by
  unfold invoke
  split
  · exact .pure s
  · exact (h _).bind fun v => .pure _

/-- A picture instruction, whatever it draws from. -/
inductive PictureAction where
  | dup
  | branch
  | filter (f : Filter)
  | merge (m : Merge)
  | input (key : String)

namespace PictureAction

def action {ω : Type} [Source ω] : PictureAction → Action ω
  | dup => .dup
  | branch => .branch
  | filter f => .ofFilter f
  | merge m => .ofMerge m
  | input key => .input key

def basic : Table String PictureAction where
  entries := [(InstructionSet.dupName, dup), (InstructionSet.branchName, branch)]
  nodup := InstructionSet.basic (ω := Unit).nodup

def table (inputs : Nat) : Table String PictureAction :=
  (basic.insertAll (Filter.all.map (fun f => (f.name, filter f)) ++
    Merge.all.map fun m => (m.name, merge m))).insertAll
      ((List.range inputs).map fun i => (State.inputKey (i + 1), input (State.inputKey (i + 1))))

theorem transcribed_apply (k : PictureAction) (s : State) :
    Transcribed fun _ => k.action.apply s := by
  cases k with
  | dup => exact .pure s.dup
  | branch => exact .liftExcept s.branch
  | input key => exact .liftExcept (s.putBack key)
  | filter f =>
    refine State.transcribed_invoke (fun vs => ?_) s _ _
    unfold Action.onOne
    split
    · exact (f.transcribed_apply _).bind fun img => .pure _
    · exact .throw _
  | merge m =>
    refine State.transcribed_invoke (fun vs => ?_) s _ _
    unfold Action.onTwo
    split
    · exact (m.transcribed_apply _ _).bind fun img => .pure _
    · exact .throw _

end PictureAction

namespace InstructionSet

theorem pictures_eq_map {ω : Type} [Source ω] (inputs : Nat) :
    (pictures inputs : InstructionSet ω) =
      (PictureAction.table inputs).map PictureAction.action := by
  rw [PictureAction.table, Table.map_insertAll, Table.map_insertAll, List.map_map]
  rfl

theorem get?_pictures {ω : Type} [Source ω] (inputs : Nat) (name : String) :
    (pictures inputs : InstructionSet ω).get? name =
      ((PictureAction.table inputs).get? name).map PictureAction.action := by
  rw [pictures_eq_map, Table.get?_map]

variable {inputs : Nat}

theorem transcribed_step (s : State) : Transcribed fun _ => (pictures inputs).step s := by
  cases hs : s.stack .exec with
  | nil =>
    simp only [step, hs]
    exact .pure s
  | cons top rest =>
    by_cases isElement : ∃ e, top = .element e
    · obtain ⟨e, rfl⟩ := isElement
      cases e with
      | literal value =>
        simp only [step_literal hs]
        exact .pure _
      | block p =>
        simp only [step_block hs]
        exact .pure _
      | instruction name =>
        simp only [step_instruction hs, get?_pictures]
        cases (PictureAction.table inputs).get? name with
        | none => exact .throw _
        | some k => exact k.transcribed_apply _
    · simp only [step_other hs fun e he => isElement ⟨e, he⟩]
      exact .throw _

theorem transcribed_drain (fault : State → Fault) (n : Nat) (s : State) :
    Transcribed fun _ => (pictures inputs).drain fault n s := by
  induction n generalizing s with
  | zero =>
    unfold drain
    split
    · exact .pure s
    · exact .throw _
  | succ n ih =>
    unfold drain
    split
    · exact .pure s
    · exact (transcribed_step s).bind ih

theorem transcribed_run (inputs : Nat) (limit : Limit) (p : Program) (s : State) :
    Transcribed fun _ => (pictures inputs).run limit p s := by
  have known {ω : Type} [Source ω] :
      (pictures inputs : InstructionSet ω).contains = (PictureAction.table inputs).contains := by
    funext name
    rw [Table.contains, get?_pictures, Option.isSome_map, Table.contains]
  simp only [run, validate, known]
  cases Element.firstUnknownFrom? (PictureAction.table inputs).contains [] 0 p with
  | none => exact transcribed_drain _ _ _
  | some found => exact .throw _

end InstructionSet

end PictureEvolution
