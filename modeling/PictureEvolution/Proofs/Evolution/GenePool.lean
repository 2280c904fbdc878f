import Mathlib.Algebra.Ring.Int.Defs
import Mathlib.Algebra.Ring.Nat
import PictureEvolution.Proofs.Evolution.Observed
import PictureEvolution.Proofs.Evolution.Variation
import PictureEvolution.Proofs.Machine.Validation

/-!
# The gene pool

Whatever an evolution comes to, the elements of all its programs are elements of the catalog, and
from one generation to the next programs at most double their length and one more.
-/

namespace PictureEvolution

/-- The population is over the catalog and as short as its generation demands, and everything that
was evaluated is over the catalog. -/
structure Pooled {ω : Type} (c : Config) (st : Evolution × Observed ω) : Prop where
  population : ∀ i ∈ st.1.population,
    c.catalog.Holds (2 ^ st.1.generation * (c.maxInitialProgramSize.toNat + 1)) i.program
  evaluated : ∀ i ∈ st.2.evaluated, ∀ e ∈ i.program, e ∈ c.catalog

namespace Experiment

variable {ω : Type} [Source ω] {x : Experiment ω}
  (faithful : ∀ i, (x.evaluate i).Gives fun j => j.program = i.program)

section Evaluation

variable {P : Individual → Prop}

omit [Source ω] in
theorem keeps_evaluateAll {is : List Individual} (h : ∀ i ∈ is, P i) :
    Task.Keeps (fun o => ∀ i ∈ o.evaluated, P i) (x.observed.evaluateAll is) := by
  induction is with
  | nil => exact .pure _
  | cons i rest ih =>
    have evaluate : Task.Keeps (fun o => ∀ i ∈ o.evaluated, P i) (x.observed.evaluate i) := by
      intro o holds j hj
      unfold Observed.evaluated at hj
      obtain ⟨v, hv, rfl⟩ := List.mem_map.mp hj
      rcases List.mem_append.mp hv with earlier | last
      · exact holds _ (List.mem_map_of_mem earlier)
      · rw [List.mem_singleton.mp last]
        exact h i List.mem_cons_self
    refine evaluate.bind fun _ => (ih fun j hj => ?_).bind fun _ => .pure _
    exact h j (List.mem_cons_of_mem i hj)

include faithful

omit [Source ω] in
theorem observed_faithful (i : Individual) :
    (x.observed.evaluate i).Gives fun j => j.program = i.program := by
  intro o j o' evaluated
  obtain ⟨w', scored, -⟩ := (x.agree_observed_evaluate i).yields rfl evaluated
  exact faithful i _ _ _ scored

omit [Source ω] in
theorem gives_evaluateAll {Q : Program → Prop} {is : List Individual}
    (h : ∀ i ∈ is, Q i.program) : (x.evaluateAll is).Gives fun js => ∀ j ∈ js, Q j.program := by
  refine evaluateAll_gives fun i hi => (faithful i).mono fun j same => ?_
  rw [same]
  exact h i hi

end Evaluation

section Pooled

variable {st : Evolution × Observed ω}

theorem keeps_drawn {c : Config} {size : Nat} {t : Task (Observed ω) (List Individual)}
    {t' : Task ω (List Individual)} (h : ∀ o, Task.Agree (Observed.Beside o) t t')
    (holds : t.Gives fun is => ∀ i ∈ is, c.catalog.Holds size i.program) :
    Task.Keeps (fun o => ∀ i ∈ o.evaluated, ∀ e ∈ i.program, e ∈ c.catalog)
      (t >>= x.observed.evaluateAll) :=
  (Observed.keeps_of_agree (fun _ _ evaluated => evaluated) h).bind_of holds
    fun _ is => keeps_evaluateAll fun i hi => (is i hi).elements

include faithful

theorem keeps_pooled_start : Task.Keeps (Pooled x.config) x.observed.start := by
  rintro ⟨e, o⟩ pooled
  have drawn := Catalog.gives_population (ω := Observed ω) x.config.catalog
    x.config.maxInitialProgramSize x.config.populationSize.toNat
  have evaluated := keeps_drawn (x := x)
    (fun o => Catalog.agree_population (Observed.agree_beside o) _ _ _) drawn o pooled.evaluated
  refine Progress.holds_perform_change ⟨pooled.population, evaluated⟩ fun population o' built => ?_
  have built : x.observed.firstPopulation.Yields o population o' := built
  refine ⟨?_, built.snd ▸ evaluated⟩
  show ∀ i ∈ population, x.config.catalog.Holds (2 ^ 0 * _) i.program
  rw [Nat.pow_zero, Nat.one_mul]
  have gives := drawn.bind fun is holds => gives_evaluateAll (observed_faithful faithful) holds
  exact gives _ _ _ built

theorem keeps_pooled_advance : Task.Keeps (Pooled x.config) x.observed.advance := by
  refine Progress.keeps_evolution_bind fun e o pooled => ?_
  split
  · exact ⟨pooled.population, pooled.evaluated⟩
  · split
    · exact ⟨pooled.population, pooled.evaluated⟩
    · have drawn := Config.gives_childrenOf (ω := Observed ω) pooled.population
        x.config.populationSize.toNat
      have evaluated := keeps_drawn (x := x)
        (fun o => Config.agree_children (Observed.agree_beside o) _ _) drawn o pooled.evaluated
      refine Progress.holds_perform_change ⟨pooled.population, evaluated⟩ ?_
      intro population o' built
      have built : (x.observed.nextPopulation e.population).Yields o population o' := built
      refine ⟨?_, built.snd ▸ evaluated⟩
      show ∀ i ∈ population, x.config.catalog.Holds (2 ^ (e.generation + 1) * _) i.program
      rw [Nat.pow_succ, Nat.mul_comm _ 2, Nat.mul_assoc]
      have gives := drawn.bind fun is holds => gives_evaluateAll (observed_faithful faithful) holds
      exact gives _ _ _ built

theorem keeps_pooled_step : Task.Keeps (Pooled x.config) x.observed.step := by
  refine keeps_step (keeps_pooled_start faithful) ?_ (keeps_pooled_advance faithful)
  refine keeps_note (fun e o _ _ pooled => ⟨pooled.population, pooled.evaluated⟩) ?_
  intro population generation e o pooled
  refine ⟨pooled.population, ?_⟩
  have report : Task.Keeps (fun o => ∀ i ∈ o.evaluated, ∀ e ∈ i.program, e ∈ x.config.catalog)
      (x.observed.report population generation) := by
    refine Task.Keeps.bind (fun o holds => holds) fun _ => ?_
    exact Observed.keeps_lift (fun o w holds => holds) _
  exact report o pooled.evaluated

theorem pooled_of_reached {w : ω} (h : x.observed.Reached (.of w) st) : Pooled x.config st :=
  h.holds ⟨nofun, nofun⟩ (keeps_pooled_start faithful) (keeps_pooled_step faithful)

end Pooled

/-- Programs never leave the catalog, and they grow at most twofold, counting one more than their
length, in each generation. So whatever the catalog promises holds of everything evaluated. -/
theorem gene_pool (x : Experiment ω) (valid : x.config.validate = .ok ())
    (faithful : ∀ i, (x.evaluate i).Gives fun j => j.program = i.program) (w w' : ω)
    (e : Evolution) (h : x.Reached w (e, w')) :
    (∀ i ∈ e.population, (∀ el ∈ i.program, el ∈ x.config.catalog) ∧
      (i.program.length + 1 : Int) ≤ 2 ^ e.generation * (x.config.maxInitialProgramSize + 1)) ∧
    ∃ o : Observed ω, o.source = w' ∧ x.observed.Reached (.of w) (e, o) ∧
      (∀ {γ : Type} (set : InstructionSet γ), set.validate x.config.catalog = .ok () →
        ∀ i ∈ o.evaluated, set.validate i.program = .ok ()) ∧
      (Element.blocksAll x.config.catalog = 0 →
        ∀ i ∈ o.evaluated, Element.blocksAll i.program = 0) := by
  obtain ⟨o, same, reached⟩ := h.observed
  have pooled := pooled_of_reached faithful reached
  refine ⟨fun i hi => ⟨(pooled.population i hi).elements, ?_⟩, o, same, reached, ?_, ?_⟩
  · have length := (pooled.population i hi).length
    obtain ⟨n, size⟩ := Int.eq_ofNat_of_zero_le
      (Int.le_trans (by decide) (Config.bounds_of_validate valid).2.2)
    rw [size, Int.toNat_natCast] at length
    rw [size]
    exact_mod_cast length
  · intro γ set passes i hi
    exact InstructionSet.validate_of_subset (pooled.evaluated i hi) passes
  · intro flat i hi
    rw [Element.blocksAll_eq_zero_iff] at flat ⊢
    exact fun el hel => flat el (pooled.evaluated i hi el hel)

/-- Two steps of a small evolution that ends at its second generation. -/
theorem trial_gene_pool : ∃ e w, (trial 7).Reached ⟨[1, 0, 2]⟩ (e, w) ∧ e.generation = 1 ∧
    (∀ i ∈ e.population, (∀ el ∈ i.program, el ∈ (trial 7).config.catalog) ∧
      (i.program.length + 1 : Int) ≤
        2 ^ e.generation * ((trial 7).config.maxInitialProgramSize + 1)) := by
  have reached : (trial 7).Reached ⟨[1, 0, 2]⟩ _ := .step (.step .fresh)
  refine ⟨_, _, reached, by decide +kernel, ?_⟩
  exact (gene_pool (trial 7) rfl (fun _ => .pure rfl) _ _ _ reached).1

end Experiment

end PictureEvolution
