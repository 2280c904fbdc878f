import PictureEvolution.Proofs.Evolution.Edits

/-!
# What random programs and children are made of

Every element of a random program is one of the catalog. A child takes its elements from its parents
and from the catalog, and counting one more than its length, it is at most twice as long as the
longer parent.
-/

namespace PictureEvolution

variable {ω : Type} [Source ω]

namespace Catalog

/-- The elements are of the catalog, and the length with one more is at most the size. -/
structure Holds (catalog : Catalog) (size : Nat) (p : Program) : Prop where
  elements : ∀ e ∈ p, e ∈ catalog
  length : p.length + 1 ≤ size

theorem gives_elements (catalog : Catalog) (count : Nat) :
    Task.Gives (catalog.Holds (count + 1)) (catalog.elements count : Task ω Program) := by
  induction count with
  | zero => exact .pure ⟨nofun, Nat.le_refl 1⟩
  | succ count ih =>
    refine (gives_element catalog).bind fun e member => ih.bind fun rest holds => .pure ⟨?_, ?_⟩
    · intro e' he'
      rcases List.mem_cons.mp he' with rfl | he'
      · exact member
      · exact holds.elements e' he'
    · exact Nat.succ_le_succ holds.length

theorem Holds.mono {catalog : Catalog} {size size' : Nat} {p : Program} (h : catalog.Holds size p)
    (le : size ≤ size') : catalog.Holds size' p :=
  ⟨h.elements, Nat.le_trans h.length le⟩

theorem gives_program (catalog : Catalog) (maxSize : Int) :
    Task.Gives (catalog.Holds (maxSize.toNat + 1)) (catalog.program maxSize : Task ω Program) := by
  unfold program
  split
  · exact .throw _
  · split
    · refine Task.Gives.bind (.any _) fun count _ => ?_
      refine (gives_elements catalog count).mono fun p holds => holds.mono ?_
      have limit := count.2.2
      omega
    · exact .throw _

theorem gives_population (catalog : Catalog) (maxSize : Int) (count : Nat) :
    Task.Gives (fun is => ∀ i ∈ is, catalog.Holds (maxSize.toNat + 1) i.program)
      (catalog.population maxSize count : Task ω (List Individual)) := by
  induction count with
  | zero => exact .pure nofun
  | succ count ih =>
    refine (gives_program catalog maxSize).bind fun p holds => ih.bind fun rest others => .pure ?_
    intro i hi
    rcases List.mem_cons.mp hi with rfl | hi
    · exact holds
    · exact others i hi

end Catalog

open Catalog

/-- Whichever operator is used, a child of programs over the catalog is one of at most twice the
size. -/
theorem Operator.gives_apply (op : Operator) {a b : Program} {catalog : Catalog} {size : Nat}
    (ha : catalog.Holds size a) (hb : catalog.Holds size b) :
    Task.Gives (catalog.Holds (2 * size)) (op.apply a b catalog : Task ω Program) := by
  have la := ha.length
  have lb := hb.length
  cases op with
  | uniformCrossover =>
    refine (Task.Gives.ofDraw (Program.gives_crossUniform a b)).mono fun q blends =>
      ⟨fun e he => ?_, ?_⟩
    · exact (blends.mem e he).elim (ha.elements e) (hb.elements e)
    · have length := blends.length
      omega
  | twoPointCrossover =>
    refine Task.Gives.ofDraw fun w => ?_
    have spliced := Program.spliced_crossTwoPoint a b w
    refine ⟨fun e he => (spliced.mem e he).elim (ha.elements e) (hb.elements e), ?_⟩
    have length := spliced.length
    have segment := spliced.first.le_length
    omega
  | uniformAddition =>
    refine (Program.gives_add catalog a).mono fun q extended => ⟨fun e he => ?_, ?_⟩
    · exact (extended.mem e he).elim (ha.elements e) id
    · have length := extended.length_le
      omega
  | uniformDeletion =>
    refine (Task.Gives.ofDraw (Program.gives_delete a)).mono fun q sublist => ⟨fun e he => ?_, ?_⟩
    · exact ha.elements e (sublist.subset he)
    · have length := sublist.length_le
      omega

theorem Population.mem_of_mem_others {population : List Individual} {place : Nat} {i : Individual}
    (h : i ∈ others population place) : i ∈ population := by
  unfold others at h
  split at h
  · exact h
  · exact List.mem_of_mem_eraseIdx h

namespace Couple

variable {population : List Individual} (c : Couple population)

theorem firstParent_mem : c.firstParent ∈ population := List.get_mem _ _

theorem secondParent_mem : c.secondParent ∈ population :=
  Population.mem_of_mem_others (List.get_mem _ _)

end Couple

namespace Config

theorem gives_child {c : Config} {population : List Individual} {size : Nat}
    (h : ∀ i ∈ population, c.catalog.Holds size i.program) :
    Task.Gives (fun i => c.catalog.Holds (2 * size) i.program)
      (c.child population : Task ω Individual) := by
  refine Task.Gives.bind (.any _) fun parents _ => Task.Gives.bind (.any _) fun op _ => ?_
  refine Task.Gives.bind (op.gives_apply (h _ parents.firstParent_mem)
    (h _ parents.secondParent_mem)) fun p holds => ?_
  exact .pure holds

theorem gives_childrenOf {c : Config} {population : List Individual} {size : Nat}
    (h : ∀ i ∈ population, c.catalog.Holds size i.program) (count : Nat) :
    Task.Gives (fun is => ∀ i ∈ is, c.catalog.Holds (2 * size) i.program)
      (c.childrenOf population count : Task ω (List Individual)) := by
  induction count with
  | zero => exact .pure nofun
  | succ count ih =>
    refine (gives_child h).bind fun first holds => ih.bind fun rest others => .pure ?_
    intro i hi
    rcases List.mem_cons.mp hi with rfl | hi
    · exact holds
    · exact others i hi

end Config

end PictureEvolution
