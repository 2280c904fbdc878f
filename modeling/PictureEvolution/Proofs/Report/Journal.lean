import PictureEvolution.Proofs.Evolution.Outcome
import PictureEvolution.Proofs.Evolution.Upkeep
import PictureEvolution.Proofs.Report.Rerun

/-!
# The journal of an evolution

Populations are built without a look at the journal, and each report adds the summary of its
population at the end. So after any number of steps that succeed the journal holds the summaries of
the reported populations, one for each report and in order.
-/

namespace PictureEvolution

namespace Experiment

variable {ω : Type} [Source ω] {x : Experiment ω}

section Logged

variable {I : Observed ω → Prop} (answers : Source.Keeps I)
  (evaluated : ∀ i, (x.observed.evaluate i).Keeps I)

include answers evaluated

variable (reported : ∀ population generation o o', I o →
  (x.observed.report population generation).Yields o () o' → I o')

include reported

theorem holds_step {e e' : Evolution} {o o' : Observed ω} {status : Status} (holds : I o)
    (taken : Task.Yields x.observed.step (e, o) status (e', o')) : I o' := by
  by_cases running : e.status = .running
  · obtain ⟨e₁, o₁, e₂, o₂, begins, notes, advances, -⟩ :=
      (yields_step_of_running running).mp taken
    have begun : I o₁ := by
      rcases yields_begun.mp begins with ⟨-, -, same⟩ | ⟨-, starts⟩
      · exact same ▸ holds
      · obtain ⟨population, built, -⟩ := yields_start.mp starts
        exact built.snd ▸ keeps_firstPopulation answers evaluated o holds
    have noted : I o₂ := by
      obtain ⟨best, mean, -, -, report, -⟩ := yields_note.mp notes
      exact reported _ _ _ _ begun report
    rcases yields_advance.mp advances with ⟨-, -, same⟩ | ⟨-, -, -, same⟩ |
      ⟨-, -, population, built, -⟩
    · exact same ▸ noted
    · exact same ▸ noted
    · exact built.snd ▸ keeps_nextPopulation answers evaluated _ o₂ noted
  · rw [Task.Yields, step_of_ended running] at taken
    cases taken
    exact holds

/-- What holds at the beginning, is kept by draws and evaluations and holds again after each report
that succeeds, holds after any number of steps that succeed. -/
theorem holds_steps {count : Nat} {w : ω} {e : Evolution} {o : Observed ω} (begins : I (.of w))
    (h : Task.Yields (x.observed.steps count) (.fresh, .of w) () (e, o)) : I o := by
  refine holds_of_steps (x := x.observed) (I := fun _ _ o => I o) begins ?_ h
  intro _ _ _ _ _ _ holds taken
  exact holds_step answers evaluated reported holds taken

end Logged

end Experiment

variable {γ : Type}

namespace Workspace

theorem keeps_onSource {α : Type} (t : Task γ α) (j : Journal) :
    (onSource t).Keeps fun w => w.journal = j :=
  fun _ same => same

theorem keeps_onCache {α : Type} (look : Task TargetCache α) (j : Journal) :
    (onCache look : Task (Workspace γ) α).Keeps fun w => w.journal = j :=
  fun _ same => same

end Workspace

theorem Scorer.keeps_evaluate (s : Scorer γ) (initial : State) (inputs : List Value)
    (target : Target) (i : Individual) (j : Journal) :
    (s.evaluate initial inputs target i).Keeps fun w => w.journal = j := by
  refine (Workspace.keeps_onCache _ j).bind fun expected => ?_
  refine (Workspace.keeps_onSource _ j).bind fun result => ?_
  split
  · exact .throw _
  · exact (Task.Upholds.ofScore (P := fun _ => True) fun _ _ => trivial).keeps.bind fun errors =>
      (Task.Upholds.ofScore (P := fun _ => True) fun _ _ => trivial).keeps

theorem Summary.of_ofPopulation {population : List Individual} {generation : Int} {s : Summary}
    (h : ofPopulation population generation = .ok s) :
    ∃ best mean total, Population.best population = .ok best ∧
      Population.meanTotal population = .ok mean ∧ best.total.toFloat = .ok total ∧
      s = ⟨generation, total, mean, best.program.size, best.program.text, best.errors⟩ := by
  unfold ofPopulation at h
  cases least : Population.best population with
  | error fault =>
    rw [least] at h
    cases h
  | ok best =>
    cases average : Population.meanTotal population with
    | error fault =>
      rw [least, average] at h
      cases h
    | ok mean =>
      cases number : best.total.toFloat with
      | error fault =>
        simp only [least, average, number, Bind.bind, Except.bind] at h
        cases h
      | ok total =>
        simp only [least, average, number, Bind.bind, Except.bind] at h
        cases h
        exact ⟨best, mean, total, rfl, rfl, number, rfl⟩

namespace Reporter

/-- Keeping a picture leaves the summaries as they are. -/
theorem keep_summaries (r : Reporter γ) (generation : Int) (result : Option Value)
    (w : Workspace γ) :
    (r.keep generation result w).2.journal.summaries = w.journal.summaries := by
  cases result with
  | none => rfl
  | some v =>
    unfold keep
    dsimp only
    cases r.directory with
    | none => rfl
    | some directory =>
      cases picture r.size v with
      | error fault => rfl
      | ok img => rfl

theorem report_summaries {r : Reporter γ} {population : List Individual} {generation : Nat}
    {w w' : Workspace γ} (h : (r.report population generation).Yields w () w') :
    ∃ s, Summary.ofPopulation population generation = .ok s ∧
      w'.journal.summaries = w.journal.summaries ++ [s] := by
  rcases summed_or_refused γ population generation with ⟨s, best, hs, hb⟩ | ⟨-, fault, refused⟩
  · refine ⟨s, hs, ?_⟩
    rw [report_eq hs hb] at h
    obtain ⟨_, w₁, written, h⟩ := Task.yields_bind.mp h
    obtain ⟨result, w₂, again, kept⟩ := Task.yields_bind.mp h
    cases written
    rw [← kept.snd, keep_summaries, ← again.snd]
    rfl
  · rw [refused r] at h
    exact absurd h Task.not_yields_throw

end Reporter

def Observed.Summarized (o : Observed (Workspace γ)) : Prop :=
  o.source.journal.summaries.map .ok = o.reports.map fun r => Summary.ofPopulation r.1 r.2

namespace Experiment

variable {x : Experiment (Workspace γ)} {o o' : Observed (Workspace γ)}

/-- What leaves the journal and the log of reports leaves the summaries of the reports. -/
theorem summarized_evaluate (evaluated : ∀ i j, (x.evaluate i).Keeps fun w => w.journal = j)
    (i : Individual) : (x.observed.evaluate i).Keeps Observed.Summarized := by
  intro o holds
  have journal : (x.evaluate i o.source).2.journal = o.source.journal :=
    evaluated i o.source.journal o.source rfl
  show (x.evaluate i o.source).2.journal.summaries.map _ = _
  rw [journal]
  exact holds

theorem summarized_report {r : Reporter γ} {population : List Individual} {generation : Nat}
    (reports : x.report population generation = r.report population generation)
    (holds : o.Summarized) (h : (x.observed.report population generation).Yields o () o') :
    o'.Summarized := by
  have logged := observed_report_log h
  obtain ⟨w', reported, same⟩ :=
    (x.agree_observed_report population generation).yields rfl h
  rw [reports] at reported
  obtain ⟨s, summed, written⟩ := Reporter.report_summaries reported
  have grown : o'.reports = o.reports ++ [(population, generation)] := by rw [logged]
  unfold Observed.Summarized at *
  rw [same, written, grown, List.map_append, List.map_append, holds, List.map_singleton,
    List.map_singleton, summed]

/-- At the end of a whole evolution the journal holds the summaries of the reported populations. -/
theorem summarized_evolve [Source γ] {r : Reporter γ} {source : γ} {result : Outcome}
    (evaluated : ∀ i j, (x.evaluate i).Keeps fun w => w.journal = j)
    (reports : ∀ population (generation : Nat),
      x.report population generation = r.report population generation)
    (h : x.observed.evolve.Yields (.of (.ofSource source)) result o) : o.Summarized := by
  obtain ⟨-, e, taken, -⟩ := yields_evolve h
  have answers : Source.Keeps fun o : Observed (Workspace γ) => o.Summarized :=
    fun _ _ holds => holds
  have begins : (Observed.of (.ofSource source) : Observed (Workspace γ)).Summarized := rfl
  exact holds_steps answers (summarized_evaluate evaluated)
    (fun population generation _ _ holds => summarized_report (reports population generation) holds)
    begins taken

end Experiment

end PictureEvolution
