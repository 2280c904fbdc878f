import PictureEvolution.Proofs.Cli.Reporting
import PictureEvolution.Proofs.Report.Journal

/-!
# The document of an evolution

The history in the document comes from the reports, its end from the outcome, and both from the
histories that the evolution wrote for itself. They agree: nothing changes the population between
the last report and the outcome.
-/

namespace PictureEvolution

namespace Document

def part? (name : String) : Document → Option Document
  | object parts => (parts.find? fun p => p.1 = name).map Prod.snd
  | _ => none

def items : Document → List Document
  | list items => items
  | _ => []

end Document

/-- Two lists of results, one of which has no faults, are the same place by place. -/
theorem getElem?_of_map_ok {α β ε : Type} {as : List α} {bs : List β} {f : β → Except ε α}
    (h : as.map .ok = bs.map f) {i : Nat} {b : β} (hb : bs[i]? = some b) :
    ∃ a, as[i]? = some a ∧ f b = .ok a := by
  have place := congrArg (·[i]?) h
  simp only [List.getElem?_map, hb, Option.map_some] at place
  obtain ⟨a, ha, same⟩ := Option.map_eq_some_iff.mp place
  exact ⟨a, ha, same.symm⟩

theorem Outcome.Accounts.report {o : Outcome} {reports : List (List Individual × Nat)}
    (h : o.Accounts reports) {i : Nat} (le : i ≤ o.generation) :
    ∃ population, reports[i]? = some (population, i) := by
  have place := congrArg (·[i]?) h.generations
  simp only [List.getElem?_map, List.getElem?_range (Nat.lt_succ_of_le le)] at place
  obtain ⟨⟨population, _⟩, found, rfl⟩ := Option.map_eq_some_iff.mp place
  exact ⟨population, found⟩

namespace Cli

open Document

def Ending.isDone : Ending → Bool
  | done => true
  | _ => false

theorem Ending.done_of_isDone {e : Ending} (h : e.isDone = true) : e = .done := by
  cases e with
  | done => rfl
  | stopped message => cases h
  | failed fault => cases h

def history (d : Document) : List Document := ((d.part? "history").map items).getD []

def final? (d : Document) (name : String) : Option Document := (d.part? "final").bind (part? name)

/-- What a document says of an evolution fits together, to its outcome and to its reports. -/
structure Coherent (d : Document) (o : Outcome) (reports : List (List Individual × Nat)) :
    Prop where
  length : (history d).length = o.generation + 1
  bests : o.bestHistory.length = o.generation + 1
  means : o.meanHistory.length = o.generation + 1
  entry : ∀ i ≤ o.generation, ∃ entry best mean total, (history d)[i]? = some entry ∧
    o.bestHistory[i]? = some best ∧ o.meanHistory[i]? = some mean ∧ best.toFloat = .ok total ∧
      entry.part? "generation" = some (.int i) ∧
      entry.part? "best_total_error" = some (.real total) ∧
      entry.part? "mean_total_error" = some (.real mean)
  last : ∃ entry total, (history d).getLast? = some entry ∧ o.best.total.toFloat = .ok total ∧
    entry.part? "best_total_error" = some (.real total) ∧
    final? d "best_total_error" = some (.real total) ∧
    entry.part? "best_program" = some (.text o.best.program.text) ∧
    final? d "best_program" = some (.text o.best.program.text)
  generation : final? d "generation" = some (.int o.generation)
  status : final? d "status" = some (.text o.status.name)
  ended : o.status = .success ∨ o.status = .exhausted
  success : ∃ population, reports.getLast? = some (population, o.generation) ∧
    (o.status = .success ↔ Population.Solved population)

section Document

variable {γ : Type} {a : Arguments} {o : Outcome} {log : Observed (Workspace γ)} {best : Float}

/-- What the reports summed up and what the evolution noted are the same in every generation. -/
theorem history_entry (accounts : o.Accounts log.reports) (summarized : log.Summarized) {i : Nat}
    (le : i ≤ o.generation) :
    ∃ population s b mean, log.reports[i]? = some (population, i) ∧
      log.source.journal.summaries[i]? = some s ∧ o.bestHistory[i]? = some b.total ∧
      o.meanHistory[i]? = some mean ∧ Population.best population = .ok b ∧
      b.total.toFloat = .ok s.best ∧ s.mean = mean ∧ s.generation = i ∧
      s.program = b.program.text := by
  obtain ⟨population, found⟩ := accounts.report le
  obtain ⟨s, hs, summed⟩ := getElem?_of_map_ok summarized found
  obtain ⟨total, ht, noted⟩ := getElem?_of_map_ok accounts.bests found
  obtain ⟨mean, hm, averaged⟩ := getElem?_of_map_ok accounts.means found
  obtain ⟨b, mean', x, least, average, number, rfl⟩ := Summary.of_ofPopulation summed
  simp only [least, Except.map, Except.ok.injEq] at noted
  cases average.symm.trans averaged
  subst noted
  exact ⟨population, _, b, _, found, hs, ht, hm, least, number, rfl, rfl, rfl⟩

theorem coherent (accounts : o.Accounts log.reports) (summarized : log.Summarized)
    (number : o.best.total.toFloat = .ok best) :
    Coherent (summaryDocument a log.source.journal.summaries o best) o log.reports := by
  have reported : log.reports.length = o.generation + 1 := by
    simpa using congrArg List.length accounts.generations
  have length : log.source.journal.summaries.length = o.generation + 1 := by
    simpa [reported] using congrArg List.length summarized
  have entries : history (summaryDocument a log.source.journal.summaries o best) =
      log.source.journal.summaries.map generationDocument := rfl
  refine ⟨?_, ?_, ?_, fun i le => ?_, ?_, rfl, rfl, accounts.ended, ?_⟩
  · rw [entries, List.length_map, length]
  · simpa [reported] using congrArg List.length accounts.bests
  · simpa [reported] using congrArg List.length accounts.means
  · obtain ⟨population, s, b, mean, -, hs, hb, hm, -, total, rfl, generation, -⟩ :=
      history_entry accounts summarized le
    refine ⟨generationDocument s, b.total, s.mean, s.best, ?_, hb, hm, total, ?_, rfl, rfl⟩
    · rw [entries, List.getElem?_map, hs]
      rfl
    · rw [← generation]
      rfl
  · obtain ⟨population, s, b, mean, found, hs, -, -, least, total, -, -, program⟩ :=
      history_entry accounts summarized (Nat.le_refl o.generation)
    have last := accounts.last
    rw [List.getLast?_eq_getElem?, reported, Nat.add_sub_cancel, found] at last
    cases last
    cases least.symm.trans accounts.best
    cases total.symm.trans number
    refine ⟨generationDocument s, s.best, ?_, number, rfl, rfl, ?_, rfl⟩
    · rw [entries, List.getLast?_map, List.getLast?_eq_getElem?, length, Nat.add_sub_cancel, hs]
      rfl
    · rw [← program]
      rfl
  · exact ⟨o.population, accounts.last, accounts.success⟩

end Document

section Launch

variable {γ : Type} [Source γ] {determinant : List (List Float) → Float} {horizon : Nat}
  {a : Arguments} {files : String → Option Found} {source : γ}

/-- The ways of a launch that is done: everything could be read, the settings were good, and an
evolution came to an outcome whose best total is a double. -/
theorem launch_done (done : (launch determinant horizon a files source).ending = .done) :
    ∃ m scorer o w best, readMaterial a files = .ok m ∧
      Scorer.make (instructionSet a m.inputs.length) a.grid (limit horizon a) determinant =
        .ok scorer ∧
      (experiment a m scorer).evolve.Yields (.ofSource source) o w ∧
      o.best.total.toFloat = .ok best ∧
      (launch determinant horizon a files source).documents =
        if a.outJson.isEmpty then ∅
        else .ofList [(normalize a.outJson, summaryDocument a w.journal.summaries o best)] := by
  unfold launch at done ⊢
  split at done
  · cases done
  · split at done
    · cases done
    next m read =>
      split at done
      · cases done
      next scorer made =>
        split at done
        · cases done
        · split at done
          · cases done
          next o w evolved =>
            split at done
            · cases done
            next best number =>
              refine ⟨m, scorer, o, w, best, read, made, evolved, number, ?_⟩
              simp only [*]

/-- Every launch that is done and was asked for a document leaves one that fits to the outcome of
its evolution and to the populations that this reported. -/
theorem launch_coherent (done : (launch determinant horizon a files source).ending = .done)
    (asked : a.outJson.isEmpty = false) :
    ∃ m scorer o log d, readMaterial a files = .ok m ∧
      Scorer.make (instructionSet a m.inputs.length) a.grid (limit horizon a) determinant =
        .ok scorer ∧
      (experiment a m scorer).evolve.Yields (.ofSource source) o log.source ∧
      (experiment a m scorer).observed.evolve.Yields (.of (.ofSource source)) o log ∧
      (launch determinant horizon a files source).documents.get? (normalize a.outJson) = some d ∧
      Coherent d o log.reports := by
  obtain ⟨m, scorer, o, w, best, read, made, evolved, number, documents⟩ := launch_done done
  obtain ⟨log, observed, rfl⟩ := Experiment.observed_evolve evolved
  have summarized : log.Summarized :=
    Experiment.summarized_evolve (r := reporter a m scorer.limit)
      (scorer.keeps_evaluate m.state m.values ⟨0, m.target⟩) (fun _ _ => rfl) observed
  refine ⟨m, scorer, o, log, summaryDocument a log.source.journal.summaries o best, read, made,
    evolved, observed, ?_, coherent (Experiment.accounts_evolve observed) summarized number⟩
  rw [documents, if_neg (by simp [asked])]
  exact Table.get?_insert_self _ _ _

end Launch

def documented : Arguments := { miniature with outJson := "summary.json" }

theorem documented_coherent :
    let result := launch Matrix.determinant 0 documented (fun _ => some (.picture blackPixel))
      (⟨[1, 7]⟩ : Script)
    result.ending = .done ∧ documented.outJson.isEmpty = false ∧
      ∃ o d, ∃ log : Observed (Workspace Script),
        result.documents.get? (normalize documented.outJson) = some d ∧
          Coherent d o log.reports := by
  have ends : (launch Matrix.determinant 0 documented (fun _ => some (.picture blackPixel))
      (⟨[1, 7]⟩ : Script)).ending.isDone = true := by decide +kernel
  have asked : documented.outJson.isEmpty = false := by decide
  obtain ⟨m, scorer, o, log, d, -, -, -, -, kept, coherent⟩ :=
    launch_coherent (Ending.done_of_isDone ends) asked
  exact ⟨Ending.done_of_isDone ends, asked, o, d, log, kept, coherent⟩

end Cli

end PictureEvolution
