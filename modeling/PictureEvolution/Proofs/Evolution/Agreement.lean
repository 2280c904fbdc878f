import PictureEvolution.Proofs.Evolution.Steps

/-!
# Evolutions on related sources

Random programs, variation and selection only draw, so on sources whose answers agree they have the
same outcome. The same holds for whole steps of two experiments when their evaluations and reports
agree.
-/

namespace PictureEvolution

namespace Program

variable {ω : Type} [Source ω]

@[simp] theorem crossUniform_nil (a : Program) :
    (a.crossUniform [] : Draw ω Program) = a.filterDraw (Draw.oneIn 2) := by cases a <;> rfl

@[simp] theorem nil_crossUniform (b : Program) :
    (crossUniform [] b : Draw ω Program) = b.filterDraw (Draw.oneIn 2) := by cases b <;> rfl

end Program

variable {ω γ : Type} [Source ω] [Source γ] {R : ω → γ → Prop} (answers : Source.Agree R)

include answers

namespace Catalog

theorem agree_element (catalog : Catalog) : Task.Agree R catalog.element catalog.element := by
  refine (Task.Agree.ofDraw (Draw.agree_choose? answers catalog)).bind fun found => ?_
  cases found with
  | none => exact .throw _
  | some e => exact .pure _

theorem agree_elements (catalog : Catalog) (count : Nat) :
    Task.Agree R (catalog.elements count) (catalog.elements count) := by
  induction count with
  | zero => exact .pure _
  | succ count ih => exact (agree_element answers catalog).bind fun _ => ih.bind fun _ => .pure _

theorem agree_program (catalog : Catalog) (maxSize : Int) :
    Task.Agree R (catalog.program maxSize) (catalog.program maxSize) := by
  unfold program
  split
  · exact .throw _
  · split
    · exact (Task.Agree.ofDraw (Draw.agree_between answers _ _ _)).bind fun _ =>
        agree_elements answers catalog _
    · exact .throw _

theorem agree_population (catalog : Catalog) (maxSize : Int) (count : Nat) :
    Task.Agree R (catalog.population maxSize count) (catalog.population maxSize count) := by
  induction count with
  | zero => exact .pure _
  | succ count ih => exact (agree_program answers catalog _).bind fun _ => ih.bind fun _ => .pure _

end Catalog

namespace Program

omit answers [Source ω] [Source γ] in
theorem agree_filterDraw {keep : Draw ω Bool} {keep' : Draw γ Bool} (h : Draw.Agree R keep keep')
    (p : Program) : Draw.Agree R (p.filterDraw keep) (p.filterDraw keep') := by
  induction p with
  | nil => exact .pure _
  | cons e rest ih => exact h.bind fun _ => ih.bind fun _ => .pure _

theorem agree_crossUniform (a b : Program) :
    Draw.Agree R (a.crossUniform b) (a.crossUniform b) := by
  induction a generalizing b with
  | nil =>
    rw [nil_crossUniform, nil_crossUniform]
    exact agree_filterDraw (Draw.agree_oneIn answers _) b
  | cons x xs ih =>
    cases b with
    | nil =>
      rw [crossUniform_nil, crossUniform_nil]
      exact agree_filterDraw (Draw.agree_oneIn answers _) (x :: xs)
    | cons y ys =>
      exact (Draw.agree_below answers _ _).bind fun _ => (ih ys).bind fun _ => .pure _

theorem agree_cutPoints (length : Nat) : Draw.Agree R (cutPoints length) (cutPoints length) := by
  match length with
  | 0 => exact .pure _
  | 1 => exact (Draw.agree_below answers _ _).bind fun _ => .pure _
  | n + 2 =>
    exact (Draw.agree_below answers _ _).bind fun _ =>
      (Draw.agree_below answers _ _).bind fun _ => .pure _

theorem agree_crossTwoPoint (a b : Program) :
    Draw.Agree R (a.crossTwoPoint b) (a.crossTwoPoint b) :=
  (agree_cutPoints answers _).bind fun _ => (agree_cutPoints answers _).bind fun _ => .pure _

theorem agree_insertion (catalog : Catalog) :
    Task.Agree R (insertion catalog) (insertion catalog) := by
  refine (Task.Agree.ofDraw (Draw.agree_oneIn answers _)).bind fun inserts => ?_
  cases inserts with
  | false => exact .pure _
  | true => exact (Catalog.agree_element answers catalog).bind fun _ => .pure _

theorem agree_add (catalog : Catalog) (p : Program) :
    Task.Agree R (p.add catalog) (p.add catalog) := by
  induction p with
  | nil => exact agree_insertion answers catalog
  | cons e rest ih =>
    exact (agree_insertion answers catalog).bind fun _ => ih.bind fun _ => .pure _

theorem agree_delete (p : Program) : Draw.Agree R p.delete p.delete :=
  agree_filterDraw ((Draw.agree_oneIn answers _).map _) p

end Program

namespace Operator

theorem agree_pick : Draw.Agree R pick pick :=
  (Draw.agree_band answers _).bind fun _ => .pure _

theorem agree_apply (op : Operator) (a b : Program) (catalog : Catalog) :
    Task.Agree R (op.apply a b catalog) (op.apply a b catalog) := by
  cases op with
  | uniformCrossover => exact .ofDraw (Program.agree_crossUniform answers a b)
  | twoPointCrossover => exact .ofDraw (Program.agree_crossTwoPoint answers a b)
  | uniformAddition => exact Program.agree_add answers catalog a
  | uniformDeletion => exact .ofDraw (Program.agree_delete answers a)

end Operator

theorem Lexicase.agree_select {κ : Type} (rule : Survival κ) {n : Nat} (pos : 0 < n)
    (errors : Fin n → List κ) :
    Task.Agree R (Lexicase.select rule pos errors) (Lexicase.select rule pos errors) := by
  refine (Task.Agree.ofDraw (Draw.agree_shuffle answers _)).bind fun order => ?_
  match winnow rule errors order (List.finRange n) with
  | .error fault => exact .throw _
  | .ok [] => exact .ofDraw (Draw.agree_below answers _ _)
  | .ok [i] => exact .pure _
  | .ok (i :: j :: rest) => exact .ofDraw (Draw.agree_choose answers _ _)

namespace Population

theorem agree_tournament (population : List Individual) (size : Int) :
    Task.Agree R (tournament population size) (tournament population size) := by
  unfold tournament
  split
  · split
    · exact .throw _
    · exact (Task.Agree.ofDraw (Draw.agree_below answers _ _)).bind fun _ =>
        (Task.Agree.ofDraw ((Draw.agree_below answers _ _).many _)).bind fun _ => .pure _
  · exact .throw _

theorem agree_lexicase (population : List Individual) (epsilon : Option Score) :
    Task.Agree R (lexicase population epsilon) (lexicase population epsilon) := by
  unfold lexicase
  split
  · split
    · exact Lexicase.agree_select answers _ _ _
    · exact .throw _
  · exact .throw _

theorem agree_parent (population : List Individual) (method : SelectionMethod) (size : Int)
    (epsilon : Option Score) :
    Task.Agree R (parent population method size epsilon)
      (parent population method size epsilon) := by
  cases method with
  | tournament => exact agree_tournament answers population size
  | lexicase => exact agree_lexicase answers population epsilon
  | other name => exact .throw _

end Population

namespace Config

theorem agree_couple (c : Config) (population : List Individual) :
    Task.Agree R (c.couple population) (c.couple population) :=
  (Population.agree_parent answers _ _ _ _).bind fun _ =>
    (Population.agree_parent answers _ _ _ _).bind fun _ => .pure _

theorem agree_child (c : Config) (population : List Individual) :
    Task.Agree R (c.child population) (c.child population) :=
  (agree_couple answers c population).bind fun _ =>
    (Task.Agree.ofDraw (Operator.agree_pick answers)).bind fun _ =>
      (Operator.agree_apply answers _ _ _ _).bind fun _ => .pure _

theorem agree_childrenOf (c : Config) (population : List Individual) (count : Nat) :
    Task.Agree R (c.childrenOf population count) (c.childrenOf population count) := by
  induction count with
  | zero => exact .pure _
  | succ count ih =>
    exact (agree_child answers c population).bind fun _ => ih.bind fun _ => .pure _

theorem agree_children (c : Config) (population : List Individual) :
    Task.Agree R (c.children population) (c.children population) :=
  agree_childrenOf answers c population _

end Config

namespace Progress

omit answers [Source ω] [Source γ]

def Along (R : ω → γ → Prop) (st : Evolution × ω) (st' : Evolution × γ) : Prop :=
  st.1 = st'.1 ∧ R st.2 st'.2

theorem agree_perform {α : Type} {t : Task ω α} {u : Task γ α} (h : Task.Agree R t u) :
    Task.Agree (Along R) (perform t) (perform u) := by
  rintro ⟨e, w⟩ ⟨e', g⟩ ⟨rfl, related⟩
  obtain ⟨same, next⟩ := h w g related
  exact ⟨same, rfl, next⟩

theorem agree_evolution : Task.Agree (Along R) evolution evolution := by
  rintro ⟨e, w⟩ ⟨e', g⟩ ⟨rfl, related⟩
  exact ⟨rfl, rfl, related⟩

theorem agree_change (f : Evolution → Evolution) : Task.Agree (Along R) (change f) (change f) := by
  rintro ⟨e, w⟩ ⟨e', g⟩ ⟨rfl, related⟩
  exact ⟨rfl, rfl, related⟩

theorem agree_ofExcept {α : Type} (r : Except Fault α) :
    Task.Agree (Along R) (ofExcept r) (ofExcept r) := by
  cases r with
  | error fault => exact .throw _
  | ok a => exact .pure _

end Progress

namespace Experiment

open Progress

variable {x : Experiment ω} {y : Experiment γ} (settings : x.config = y.config)
  (evaluations : ∀ i, Task.Agree R (x.evaluate i) (y.evaluate i))
  (reports : ∀ population generation,
    Task.Agree R (x.report population generation) (y.report population generation))

include evaluations

omit answers [Source ω] [Source γ] in
theorem agree_evaluateAll (is : List Individual) :
    Task.Agree R (x.evaluateAll is) (y.evaluateAll is) := by
  induction is with
  | nil => exact .pure _
  | cons i rest ih => exact (evaluations i).bind fun _ => ih.bind fun _ => .pure _

include settings

theorem agree_start : Task.Agree (Along R) x.start y.start := by
  unfold start
  rw [settings]
  exact (agree_perform ((Catalog.agree_population answers _ _ _).bind fun _ =>
    agree_evaluateAll evaluations _)).bind fun _ => agree_change _

theorem agree_advance : Task.Agree (Along R) x.advance y.advance := by
  refine agree_evolution.bind fun e => ?_
  rw [settings]
  split
  · exact agree_change _
  · split
    · exact agree_change _
    · exact (agree_perform ((Config.agree_children answers _ _).bind fun _ =>
        agree_evaluateAll evaluations _)).bind fun _ => agree_change _

theorem agree_begun : Task.Agree (Along R) x.begun y.begun := by
  refine agree_evolution.bind fun e => ?_
  split
  · exact .pure _
  · exact agree_start answers settings evaluations

section Report

variable {e : Evolution} {w : ω} {g : γ} (related : R w g)

include related

omit answers evaluations settings [Source ω] [Source γ] in
theorem agreeAt_note (report : Task.AgreeAt R (x.report e.population e.generation)
    (y.report e.population e.generation) w g) :
    Task.AgreeAt (Along R) x.note y.note (e, w) (e, g) := by
  unfold note Task.AgreeAt
  rw [evolution_bind, evolution_bind]
  cases Population.best e.population with
  | error fault => exact ⟨rfl, rfl, related⟩
  | ok best =>
    cases Population.meanTotal e.population with
    | error fault => exact ⟨rfl, rfl, related⟩
    | ok mean =>
      obtain ⟨same, next⟩ := report
      exact ⟨same, rfl, next⟩

/-- Steps agree when the reports agree of the population that the step reports. -/
theorem agreeAt_step
    (reports : e.status = .running → ∀ e₁ w₁ g₁, Task.Yields x.begun (e, w) () (e₁, w₁) →
      R w₁ g₁ → Task.AgreeAt R (x.report e₁.population e₁.generation)
        (y.report e₁.population e₁.generation) w₁ g₁) :
    Task.AgreeAt (Along R) x.step y.step (e, w) (e, g) := by
  by_cases running : e.status = .running
  · unfold Task.AgreeAt
    rw [step_of_running running, step_of_running running]
    refine Task.AgreeAt.bind (agree_begun answers settings evaluations _ _ ⟨rfl, related⟩) ?_
    rintro ⟨⟩ ⟨e₁, w₁⟩ ⟨_, g₁⟩ begins ⟨rfl, related₁⟩
    apply (agreeAt_note related₁ (reports running e₁ w₁ g₁ begins related₁)).bind
    rintro ⟨⟩ st st' - next
    refine ((agree_advance answers settings evaluations).bind fun _ => ?_) st st' next
    exact agree_evolution.bind fun _ => .pure _
  · unfold Task.AgreeAt
    rw [step_of_ended running, step_of_ended running]
    exact ⟨rfl, rfl, related⟩

end Report

include reports in
theorem agree_step : Task.Agree (Along R) x.step y.step := by
  rintro ⟨e, w⟩ ⟨_, g⟩ ⟨rfl, related⟩
  exact agreeAt_step answers settings evaluations related fun _ e₁ w₁ g₁ _ next =>
    reports _ _ w₁ g₁ next

end Experiment

end PictureEvolution
