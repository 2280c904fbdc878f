import PictureEvolution.Proofs.Evolution.Crossover

/-!
# What deletion and insertion make of a program

Deletion can leave every subsequence of a program and nothing else. Insertion can leave the programs
in which at most one element of the catalog follows each element and one more stands at the end, and
nothing else. What was inserted cannot be told from the result when the catalog has elements of the
program, so the description speaks of the inserted elements, not of places in the result.
-/

namespace PictureEvolution

namespace Task

variable {α β : Type}

theorem scripted_ofDraw {d : Draw Script α} {a : α} (h : Draw.Scripted d a) :
    Draw.Scripted (ofDraw d).run (.ok a) :=
  h.map Except.ok

theorem scripted_bind {t : Task Script α} {f : α → Task Script β} {a : α} {result : Except Fault β}
    (h : Draw.Scripted t.run (.ok a)) (hf : Draw.Scripted (f a).run result) :
    Draw.Scripted (t >>= f).run result :=
  Draw.Scripted.bind (f := ExceptT.bindCont f) h hf

/-- What a task can come to, from what it gives and how it fails. -/
theorem Gives.run {ω : Type} {t : Task ω α} {P : α → Prop} {F : Fault → Prop} (h : Gives P t)
    (fails : FailsOnly F t) :
    Draw.Gives
      (fun result => (∃ a, result = .ok a ∧ P a) ∨ ∃ fault, result = .error fault ∧ F fault)
      t.run := by
  intro w
  rcases t.yields_or_fails w with ⟨a, w', ht⟩ | ⟨fault, w', ht⟩
  · exact .inl ⟨a, congrArg Prod.fst ht, h w a w' ht⟩
  · exact .inr ⟨fault, congrArg Prod.fst ht, fails w fault w' ht⟩

end Task

namespace Catalog

variable {ω : Type} [Source ω] (catalog : Catalog)

theorem gives_element : Task.Gives (· ∈ catalog) (catalog.element : Task ω Element) := by
  refine (Task.Gives.ofDraw (Draw.gives_choose? catalog)).bind fun found member => ?_
  cases found with
  | none => exact .throw _
  | some e => exact .pure (member e rfl)

theorem element_failsOnly :
    Task.FailsOnly (fun _ => catalog = []) (catalog.element : Task ω Element) := by
  have found : Task.Gives (fun found => found = none → catalog = [])
      (Task.ofDraw (Draw.choose? catalog) : Task ω (Option Element)) := by
    unfold Draw.choose?
    split
    · exact .ofDraw fun w absent => absurd absent (Option.some_ne_none _)
    next empty => exact .ofDraw (.pure fun _ => Decidable.not_not.mp empty)
  refine (Task.FailsOnly.ofDraw _).bind found fun found empty => ?_
  cases found with
  | none => exact .throw (empty rfl)
  | some e => exact .pure e

theorem scripted_element {catalog : Catalog} {e : Element} (member : e ∈ catalog) :
    Draw.Scripted (catalog.element : Task Script Element).run (.ok e) := by
  obtain ⟨i, lt, rfl⟩ := List.mem_iff_getElem.mp member
  have ne : catalog ≠ [] := List.ne_nil_of_mem member
  refine Task.scripted_bind (a := some catalog[i]) (Task.scripted_ofDraw ?_) (.pure _)
  unfold Draw.choose?
  rw [dif_pos ne]
  exact Draw.Scripted.map some ((Draw.Scripted.below ⟨i, lt⟩).bind (.pure _))

end Catalog

namespace Program

open Draw

/-! ### Deletion -/

theorem gives_delete {ω : Type} [Source ω] (p : Program) :
    Gives (List.Sublist · p) (p.delete : Draw ω Program) :=
  gives_filterDraw _ p

theorem scripted_delete {p q : Program} (h : q.Sublist p) : Scripted p.delete q := by
  refine scripted_filterDraw (fun kept => ?_) h
  have drawn := (Scripted.oneIn (by decide : 2 ≤ editOdds) !kept).map (! ·)
  rwa [Bool.not_not] at drawn

theorem possible_delete (p q : Program) : Possible (fun _ => p.delete) q ↔ q.Sublist p :=
  possible_iff (fun _ => gives_delete p) (fun _ => scripted_delete) q

/-! ### Insertion -/

def Insertable (catalog : Catalog) (inserted : Option Element) : Prop :=
  ∀ e ∈ inserted, e ∈ catalog

/-- The program is the other one with at most one element of the catalog put in after each element,
and then at most one more put at the end. -/
def Extends (catalog : Catalog) (q p : Program) : Prop :=
  ∃ (after : List (Option Element)) (last : Option Element), after.length = p.length ∧
    (∀ inserted ∈ after, Insertable catalog inserted) ∧ Insertable catalog last ∧
    q = (List.zipWith (fun e inserted => e :: inserted.toList) p after).flatten ++ last.toList

namespace Extends

variable {catalog : Catalog} {p q : Program}

theorem nil_iff : Extends catalog q [] ↔ ∃ last, Insertable catalog last ∧ q = last.toList := by
  constructor
  · rintro ⟨after, last, length, -, insertable, rfl⟩
    exact ⟨last, insertable, by simp⟩
  · rintro ⟨last, insertable, rfl⟩
    exact ⟨[], last, rfl, nofun, insertable, by simp⟩

theorem cons_iff {x : Element} {xs : Program} :
    Extends catalog q (x :: xs) ↔
      ∃ inserted rest, Insertable catalog inserted ∧ Extends catalog rest xs ∧
        q = x :: inserted.toList ++ rest := by
  constructor
  · rintro ⟨after, last, length, insertable, atEnd, rfl⟩
    cases after with
    | nil => simp at length
    | cons inserted after =>
      refine ⟨inserted, _, insertable inserted (by simp), ⟨after, last, by simpa using length,
        fun i hi => insertable i (by simp [hi]), atEnd, rfl⟩, by simp⟩
  · rintro ⟨inserted, rest, first, ⟨after, last, length, insertable, atEnd, rfl⟩, rfl⟩
    refine ⟨inserted :: after, last, by simp [length], ?_, atEnd, by simp⟩
    intro i hi
    rcases List.mem_cons.mp hi with rfl | hi
    · exact first
    · exact insertable i hi

theorem sublist (h : Extends catalog q p) : p.Sublist q := by
  induction p generalizing q with
  | nil => exact List.nil_sublist q
  | cons x xs ih =>
    obtain ⟨inserted, rest, -, tail, rfl⟩ := cons_iff.mp h
    exact ((ih tail).trans (List.sublist_append_right _ _)).cons_cons x

theorem length_le (h : Extends catalog q p) : q.length ≤ 2 * p.length + 1 := by
  have one (inserted : Option Element) : inserted.toList.length ≤ 1 := by cases inserted <;> simp
  induction p generalizing q with
  | nil =>
    obtain ⟨last, -, rfl⟩ := nil_iff.mp h
    exact one last
  | cons x xs ih =>
    obtain ⟨inserted, rest, -, tail, rfl⟩ := cons_iff.mp h
    have here := one inserted
    have behind := ih tail
    simp only [List.length_append, List.length_cons]
    omega

theorem head? (h : Extends catalog q p) (ne : p ≠ []) : q.head? = p.head? := by
  cases p with
  | nil => exact absurd rfl ne
  | cons x xs =>
    obtain ⟨inserted, rest, -, -, rfl⟩ := cons_iff.mp h
    rfl

theorem mem (h : Extends catalog q p) : ∀ e ∈ q, e ∈ p ∨ e ∈ catalog := by
  induction p generalizing q with
  | nil =>
    obtain ⟨last, insertable, rfl⟩ := nil_iff.mp h
    exact fun e he => .inr (insertable e (Option.mem_toList.mp he))
  | cons x xs ih =>
    obtain ⟨inserted, rest, insertable, tail, rfl⟩ := cons_iff.mp h
    intro e he
    rcases List.mem_append.mp he with he | he
    · rcases List.mem_cons.mp he with rfl | he
      · exact .inl List.mem_cons_self
      · exact .inr (insertable e (Option.mem_toList.mp he))
    · exact (ih tail e he).imp_left (List.mem_cons_of_mem x)

end Extends

variable {ω : Type} [Source ω]

theorem gives_insertion (catalog : Catalog) :
    Task.Gives (fun q => ∃ inserted, Insertable catalog inserted ∧ q = inserted.toList)
      (insertion catalog : Task ω Program) := by
  refine Task.Gives.bind (.any _) fun inserts _ => ?_
  cases inserts with
  | false => exact .pure ⟨none, nofun, rfl⟩
  | true =>
    refine catalog.gives_element.bind fun e member => .pure ⟨some e, ?_, rfl⟩
    rintro _ ⟨⟩
    exact member

theorem insertion_failsOnly (catalog : Catalog) :
    Task.FailsOnly (fun _ => catalog = []) (insertion catalog : Task ω Program) := by
  refine (Task.FailsOnly.ofDraw _).bind (.any _) fun inserts _ => ?_
  cases inserts with
  | false => exact .pure _
  | true => exact catalog.element_failsOnly.bind (.any _) fun e _ => .pure _

theorem scripted_insertion {catalog : Catalog} {inserted : Option Element}
    (h : Insertable catalog inserted) :
    Scripted (insertion catalog : Task Script Program).run (.ok inserted.toList) := by
  have drawn (inserts : Bool) :=
    Task.scripted_ofDraw (Scripted.oneIn (by decide : 2 ≤ editOdds) inserts)
  cases inserted with
  | none => exact Task.scripted_bind (drawn false) (.pure _)
  | some e =>
    exact Task.scripted_bind (drawn true)
      (Task.scripted_bind (Catalog.scripted_element (h e rfl)) (.pure _))

theorem gives_add (catalog : Catalog) (p : Program) :
    Task.Gives (Extends catalog · p) (p.add catalog : Task ω Program) := by
  induction p with
  | nil => exact (gives_insertion catalog).mono fun _ => Extends.nil_iff.mpr
  | cons x xs ih =>
    refine (gives_insertion catalog).bind fun _ ⟨inserted, insertable, same⟩ => ih.bind
      fun rest tail => .pure ?_
    exact Extends.cons_iff.mpr ⟨inserted, rest, insertable, tail, by rw [same]⟩

theorem add_failsOnly (catalog : Catalog) (p : Program) :
    Task.FailsOnly (fun _ => catalog = []) (p.add catalog : Task ω Program) := by
  induction p with
  | nil => exact insertion_failsOnly catalog
  | cons x xs ih =>
    exact (insertion_failsOnly catalog).bind (.any _) fun _ _ => ih.bind (.any _) fun _ _ => .pure _

theorem scripted_add {catalog : Catalog} {p q : Program} (h : Extends catalog q p) :
    Scripted (p.add catalog : Task Script Program).run (.ok q) := by
  induction p generalizing q with
  | nil =>
    obtain ⟨last, insertable, rfl⟩ := Extends.nil_iff.mp h
    exact scripted_insertion insertable
  | cons x xs ih =>
    obtain ⟨inserted, rest, insertable, tail, rfl⟩ := Extends.cons_iff.mp h
    exact Task.scripted_bind (scripted_insertion insertable)
      (Task.scripted_bind (ih tail) (.pure _))

/-- With an element to insert, insertion always comes to a program. -/
theorem possible_add {catalog : Catalog} (ne : catalog ≠ []) (p : Program)
    (result : Except Fault Program) :
    Possible (fun ω => (p.add catalog : Task ω Program).run) result ↔
      ∃ q, result = .ok q ∧ Extends catalog q p := by
  have sound (ω : Type) [Source ω] : Gives (fun result => ∃ q, result = .ok q ∧ Extends catalog q p)
      (p.add catalog : Task ω Program).run := by
    refine ((gives_add catalog p).run (add_failsOnly catalog p)).mono ?_
    rintro _ (comes | ⟨_, _, empty⟩)
    · exact comes
    · exact absurd empty ne
  refine possible_iff sound ?_ result
  rintro _ ⟨q, rfl, tail⟩
  exact scripted_add tail

/-- Deletion leaves exactly the subsequences of a program. Insertion always comes to a program, and
to exactly those with at most one element of the catalog put in after each element and one more at
the end; so the program is a subsequence of what it becomes and begins it, its length is at most
doubled and one more, and deletion can lead back. -/
theorem edits_possible {catalog : Catalog} (ne : catalog ≠ []) (p : Program) :
    (∀ q, Possible (fun _ => p.delete) q ↔ q.Sublist p) ∧
    (∀ result, Possible (fun ω => (p.add catalog : Task ω Program).run) result ↔
      ∃ q, result = .ok q ∧ Extends catalog q p) ∧
    ∀ q, Possible (fun ω => (p.add catalog : Task ω Program).run) (.ok q) →
      p.Sublist q ∧ p.length ≤ q.length ∧ q.length ≤ 2 * p.length + 1 ∧
        (p ≠ [] → q.head? = p.head?) ∧ Possible (fun _ => q.delete) p := by
  refine ⟨possible_delete p, possible_add ne p, fun q possible => ?_⟩
  obtain ⟨_, same, extended⟩ := (possible_add ne p _).mp possible
  obtain rfl := Except.ok.inj same
  have sublist := extended.sublist
  exact ⟨sublist, sublist.length_le, extended.length_le, extended.head?,
    (possible_delete q p).mpr sublist⟩

/-- A catalog of one element, which the program has too. -/
theorem echo_possible :
    let one : Element := .literal (.int 1)
    let flag : Element := .literal (.bool true)
    [one] ≠ [] ∧
      Possible (fun ω => (add [one] [one, flag] : Task ω Program).run)
        (.ok [one, one, flag, one, one]) ∧
      ¬ Possible (fun ω => (add [one] [flag] : Task ω Program).run) (.ok [one, flag]) ∧
      Possible (fun _ => delete [one, one, flag, one, one]) [one, flag] := by
  intro one flag
  have ne : [one] ≠ [] := nofun
  have insertable : Insertable [one] (some one) := by
    rintro _ ⟨⟩
    exact List.mem_singleton_self one
  have longest : Possible (fun ω => (add [one] [one, flag] : Task ω Program).run)
      (.ok [one, one, flag, one, one]) := by
    refine ((edits_possible ne [one, flag]).2.1 _).mpr ⟨_, rfl, [some one, some one], some one, rfl,
      ?_, insertable, rfl⟩
    simpa using insertable
  refine ⟨ne, longest, fun before => ?_, ?_⟩
  · have first := ((edits_possible ne [flag]).2.2 _ before).2.2.2.1 nofun
    exact absurd first (by decide)
  · exact ((edits_possible ne [one, flag]).2.2 _ longest).2.2.2.2

end Program

end PictureEvolution
