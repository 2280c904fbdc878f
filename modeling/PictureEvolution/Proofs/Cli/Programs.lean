import PictureEvolution.Proofs.Cli.Summary
import PictureEvolution.Proofs.Evolution.GenePool
import PictureEvolution.Proofs.Program.Readability

/-!
# Programs in reports and documents

Reports and documents give the best program as a text. No two programs with readable names have the
same text, so the text says which program it was. The names that the command line puts into programs
are all readable: those of the picture instructions, and those of the inputs.
-/

namespace PictureEvolution

/-- The text is that of a program with readable names, and of no other such program. -/
structure Program.IdentifiedBy (p : Program) (text : String) : Prop where
  readable : p.Readable
  text_eq : p.text = text
  unique : ∀ q : Program, q.Readable → q.text = text → q = p

theorem Program.Readable.identifiedBy {p : Program} (h : p.Readable) : p.IdentifiedBy p.text :=
  ⟨h, rfl, fun _ hq => Program.text_inj hq h⟩

theorem Program.readable_of_mem {p : Program} (h : ∀ e ∈ p, e.Readable) : p.Readable := by
  intro name mem
  obtain ⟨e, he, occurs⟩ := Element.mem_namesAll.mp mem
  exact h e he name occurs

theorem readableName_inputKey (n : Nat) : ReadableName (State.inputKey n) := by
  have characters : (State.inputKey n).toList = 'i' :: 'n' :: Nat.toDigits 10 n := by
    rw [State.inputKey, String.toList_append, Nat.toString_eq_repr, Nat.toList_repr]
    rfl
  have other {s : String} (first : s.toList.head? ≠ some 'i') : State.inputKey n ≠ s := by
    rintro rfl
    rw [characters] at first
    exact first rfl
  refine .of_letter ⟨'i', ?_, by decide, by decide⟩ ?_ (other (by decide)) (other (by decide))
  · rw [characters]
    exact List.mem_cons_self
  · rw [characters]
    intro c hc
    rw [List.mem_cons, List.mem_cons] at hc
    rcases hc with rfl | rfl | hc
    · decide
    · decide
    · exact not_isMark_of_isDigit (Nat.isDigit_of_mem_toDigits (by decide) (by decide) hc)

theorem readable_defaultCatalog : Program.Readable defaultCatalog := by
  have plain : ∀ name ∈ Element.namesAll defaultCatalog,
      (name.toList.any fun c => c != '-' && !c.isDigit) = true ∧
      (name.toList.all fun c => !decide (IsMark c)) = true ∧ name ≠ "true" ∧ name ≠ "false" := by
    decide
  intro name mem
  obtain ⟨letter, unmarked, ne_true, ne_false⟩ := plain name mem
  exact .of_letter (by simpa using letter) (unmarked_of_all unmarked) ne_true ne_false

namespace Cli

open Document

theorem readable_catalog (a : Arguments) (inputs : Nat) : Program.Readable (catalog a inputs) := by
  intro name mem
  rw [catalog, Element.namesAll_append, List.mem_append] at mem
  rcases mem with standard | added
  · exact readable_defaultCatalog name standard
  · obtain ⟨e, he, occurs⟩ := Element.mem_namesAll.mp added
    split at he
    · obtain ⟨i, -, rfl⟩ := List.mem_map.mp he
      rw [List.mem_singleton.mp occurs]
      exact readableName_inputKey (i + 1)
    · cases he

/-- What a document says of best programs is enough to know them: the one of the outcome, and those
of all populations that were reported. -/
structure Identifies (d : Document) (o : Outcome) (reports : List (List Individual × Nat)) :
    Prop where
  final : ∃ text, final? d "best_program" = some (.text text) ∧ o.best.program.IdentifiedBy text
  entry : ∀ i ≤ o.generation, ∃ population best entry text, reports[i]? = some (population, i) ∧
    Population.best population = .ok best ∧ (history d)[i]? = some entry ∧
    entry.part? "best_program" = some (.text text) ∧ best.program.IdentifiedBy text

section Launch

variable {γ : Type} [Source γ] {a : Arguments} {files : String → Option Found} {source : γ}
  {m : Material} {scorer : Scorer γ} {o : Outcome} {log : Observed (Workspace γ)} {best : Float}

/-- The programs of a reported population are made of elements of the catalog. -/
theorem readable_of_reported
    (h : (experiment a m scorer).observed.evolve.Yields (.of (.ofSource source)) o log) :
    ∀ r ∈ log.reports, ∀ i ∈ r.1, i.program.Readable := by
  have faithful (i : Individual) :
      ((experiment a m scorer).evaluate i).Gives fun j => j.program = i.program := by
    intro w j w' scored
    obtain ⟨-, -, -, -, -, -, -, program⟩ := Scorer.output_of_evaluate scored
    exact program
  intro r hr i hi
  obtain ⟨-, e, taken, -⟩ := Experiment.yields_evolve h
  obtain ⟨e', log', reached, same⟩ := Experiment.reached_of_reported taken r hr
  have pooled := Experiment.pooled_of_reached faithful reached
  have elements := (pooled.population i (same ▸ hi)).elements
  refine Program.readable_of_mem fun el hel name occurs => ?_
  have known := Element.mem_namesAll.mpr ⟨el, elements el hel, occurs⟩
  exact readable_catalog a m.inputs.length name known

omit [Source γ] in
theorem identifies (accounts : o.Accounts log.reports) (summarized : log.Summarized)
    (readable : ∀ r ∈ log.reports, ∀ i ∈ r.1, i.program.Readable) :
    Identifies (summaryDocument a log.source.journal.summaries o best) o log.reports := by
  constructor
  · have last := readable _ (List.mem_of_getLast? accounts.last)
    exact ⟨_, rfl, (last o.best (Population.mem_of_best accounts.best)).identifiedBy⟩
  · intro i le
    obtain ⟨population, s, b, mean, found, hs, -, -, least, -, -, -, program⟩ :=
      history_entry accounts summarized le
    have reported := readable _ (List.mem_of_getElem? found) b (Population.mem_of_best least)
    refine ⟨population, b, generationDocument s, s.program, found, least, ?_, rfl,
      program ▸ reported.identifiedBy⟩
    show (log.source.journal.summaries.map generationDocument)[i]? = _
    rw [List.getElem?_map, hs]
    rfl

end Launch

/-- The text of a program determines the program, if its names can be told from the notation. So do
the text in the summary of a population, and the texts in the document of a launch, where nothing
need be asked of the names. -/
theorem text_determines_program :
    (∀ p q : Program, p.Readable → q.Readable → p.text = q.text → p = q) ∧
    (∀ population generation s, Summary.ofPopulation population generation = .ok s →
      ∃ best, Population.best population = .ok best ∧
        (best.program.Readable → best.program.IdentifiedBy s.program)) ∧
    ∀ {γ : Type} [Source γ] (determinant : List (List Float) → Float) (horizon : Nat)
      (a : Arguments) (files : String → Option Found) (source : γ),
      (launch determinant horizon a files source).ending = .done → a.outJson.isEmpty = false →
        ∃ m scorer o log d, readMaterial a files = .ok m ∧
          Scorer.make (instructionSet a m.inputs.length) a.grid (limit horizon a) determinant =
            .ok scorer ∧
          (experiment a m scorer).observed.evolve.Yields (.of (.ofSource source)) o log ∧
          (launch determinant horizon a files source).documents.get? (normalize a.outJson) =
            some d ∧
          Identifies d o log.reports := by
  refine ⟨fun p q => Program.text_inj, ?_, ?_⟩
  · intro population generation s summed
    obtain ⟨best, mean, total, least, -, -, rfl⟩ := Summary.of_ofPopulation summed
    exact ⟨best, least, fun readable => readable.identifiedBy⟩
  · intro γ _ determinant horizon a files source done asked
    obtain ⟨m, scorer, o, w, best, read, made, evolved, number, documents⟩ := launch_done done
    obtain ⟨log, observed, rfl⟩ := Experiment.observed_evolve evolved
    have summarized : log.Summarized :=
      Experiment.summarized_evolve (r := reporter a m scorer.limit)
        (scorer.keeps_evaluate m.state m.values ⟨0, m.target⟩) (fun _ _ => rfl) observed
    refine ⟨m, scorer, o, log, summaryDocument a log.source.journal.summaries o best, read, made,
      observed, ?_, identifies (Experiment.accounts_evolve observed) summarized
        (readable_of_reported observed)⟩
    rw [documents, if_neg (by simp [asked])]
    exact Table.get?_insert_self _ _ _

def nested : Program :=
  [.block [], .block [.block [.literal (.int (-12))], .literal (.bool true)],
    .instruction (State.inputKey 1)]

theorem readable_nested : nested.Readable := by
  intro name mem
  rw [List.mem_singleton.mp mem]
  exact readableName_inputKey 1

/-- The text of a nested program, and the document of the evolution of one program on one pixel. -/
theorem nested_determined :
    nested.Readable ∧ nested.text = "(() ((-12) true) in1)" ∧
    (∀ q : Program, q.Readable → q.text = "(() ((-12) true) in1)" → q = nested) ∧
    let result := launch Matrix.determinant 0 documented (fun _ => some (.picture blackPixel))
      (⟨[1, 7]⟩ : Script)
    result.ending = .done ∧ ∃ o d, ∃ log : Observed (Workspace Script),
      result.documents.get? (normalize documented.outJson) = some d ∧
        Identifies d o log.reports := by
  have text : nested.text = "(() ((-12) true) in1)" := by cbv
  obtain ⟨determines, -, launched⟩ := text_determines_program
  have ends : (launch Matrix.determinant 0 documented (fun _ => some (.picture blackPixel))
      (⟨[1, 7]⟩ : Script)).ending.isDone = true := by decide +kernel
  obtain ⟨m, scorer, o, log, d, -, -, -, kept, identifies⟩ :=
    launched Matrix.determinant 0 documented _ _ (Ending.done_of_isDone ends) (by decide)
  exact ⟨readable_nested, text,
    fun q hq same => determines q nested hq readable_nested (same.trans text.symm),
    Ending.done_of_isDone ends, o, d, log, kept, identifies⟩

end Cli

end PictureEvolution
