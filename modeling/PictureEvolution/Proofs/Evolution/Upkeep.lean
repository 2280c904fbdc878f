import PictureEvolution.Proofs.Evolution.Agreement

/-!
# Evaluations that count on the state

An evaluation may give what is promised only in states with a property, such as a cache that holds
what it should. An evolution keeps what answers, evaluations and reports keep; so the promise holds
of every population that it reaches.
-/

namespace PictureEvolution.Experiment

open Progress

variable {ω : Type} {x : Experiment ω} {I : ω → Prop} {P : Individual → Prop}
  (evaluated : ∀ i, Task.Upholds I P (x.evaluate i))

include evaluated

theorem upholds_evaluateAll (is : List Individual) :
    Task.Upholds I (fun js => ∀ j ∈ js, P j) (x.evaluateAll is) := by
  induction is with
  | nil => exact .pure nofun
  | cons i rest ih =>
    refine (evaluated i).bind fun j first => ih.bind fun js others => .pure ?_
    intro j' hj'
    rcases List.mem_cons.mp hj' with rfl | hj'
    · exact first
    · exact others j' hj'

theorem upholds_drawn {t : Task ω (List Individual)} {count : Nat} (keeps : t.Keeps I)
    (length : t.Gives (·.length = count)) :
    Task.Upholds I (fun js => (∀ j ∈ js, P j) ∧ js.length = count) (t >>= x.evaluateAll) :=
  (keeps.upholds length).bind fun is size =>
    (upholds_evaluateAll evaluated is).and (size ▸ evaluateAll_length is)

section Keeps

variable [Source ω] (answers : Source.Keeps I) (evaluations : ∀ i, (x.evaluate i).Keeps I)

include answers evaluations

omit evaluated in
theorem keeps_firstPopulation : x.firstPopulation.Keeps I :=
  (upholds_drawn (P := fun _ => True) (fun i => (evaluations i).upholds (.any _))
    (.of_agree (Catalog.agree_population answers.agree _ _ _))
      (Catalog.population_length _ _ _)).keeps

omit evaluated in
theorem keeps_nextPopulation (population : List Individual) :
    (x.nextPopulation population).Keeps I :=
  (upholds_drawn (P := fun _ => True) (fun i => (evaluations i).upholds (.any _))
    (.of_agree (Config.agree_children answers.agree _ _)) (Config.childrenOf_length _ _ _)).keeps

end Keeps

variable [Source ω] (answers : Source.Keeps I)
  (reports : ∀ population generation, Task.Keeps I (x.report population generation))

include answers reports

/-- Every population that is reached has the size that was asked for and consists of individuals
that were evaluated in states with the property. -/
theorem Reached.upholds {w : ω} {st : Evolution × ω} (h : x.Reached w st) (begins : I w) :
    I st.2 ∧ (∀ i ∈ st.1.population, P i) ∧
      (st.1.started = true → st.1.population.length = x.config.populationSize.toNat) := by
  -- the invariant of starts and steps, also of those that fail
  let J (st : Evolution × ω) : Prop := I st.2 ∧ (∀ i ∈ st.1.population, P i) ∧
    (st.1.started = true → st.1.population.length = x.config.populationSize.toNat)
  have first := upholds_drawn evaluated (.of_agree (Catalog.agree_population answers.agree
    x.config.catalog x.config.maxInitialProgramSize x.config.populationSize.toNat))
    (Catalog.population_length _ _ _)
  have next (population : List Individual) := upholds_drawn evaluated
    (.of_agree (Config.agree_children answers.agree x.config population))
    (Config.childrenOf_length _ _ _)
  have start : Task.Keeps J x.start := by
    rintro ⟨e, w⟩ ⟨holds, members, size⟩
    refine holds_perform_change (I := J) ⟨first.keeps w holds, members, size⟩ ?_
    intro population w' built
    obtain ⟨members, size⟩ := first.gives _ _ _ holds built
    exact ⟨built.snd ▸ first.keeps w holds, members, fun _ => size⟩
  have advance : Task.Keeps J x.advance := by
    refine keeps_evolution_bind fun e w ⟨holds, members, size⟩ => ?_
    split
    · exact ⟨holds, members, size⟩
    · split
      · exact ⟨holds, members, size⟩
      · refine holds_perform_change (I := J) ⟨(next _).keeps w holds, members, size⟩ ?_
        intro population w' built
        obtain ⟨members, size⟩ := (next _).gives _ _ _ holds built
        exact ⟨built.snd ▸ (next _).keeps w holds, members, fun _ => size⟩
  have note : Task.Keeps J x.note :=
    keeps_note (fun _ _ _ _ holds => holds)
      fun _ _ _ w ⟨holds, members⟩ => ⟨reports _ _ w holds, members⟩
  exact h.holds (I := J) ⟨begins, nofun, nofun⟩ start (keeps_step start note advance)

end PictureEvolution.Experiment
