import PictureEvolution.Proofs.Evolution.Agreement
import PictureEvolution.Proofs.Random.Scripts

/-!
# What crossover makes of two programs

For both ways to cross two programs, the children that can be drawn are described without draws,
and every description is met by some draws.
-/

namespace PictureEvolution.Program

open Draw

/-! ### Uniform crossover -/

/-- What the longer of two programs has behind the end of the other. -/
def surplus (a b : Program) : Program :=
  if a.length ≤ b.length then b.drop a.length else a.drop b.length

@[simp] theorem nil_surplus (b : Program) : surplus [] b = b := by simp [surplus]

@[simp] theorem surplus_nil (a : Program) : surplus a [] = a := by cases a <;> simp [surplus]

@[simp] theorem surplus_cons (x y : Element) (xs ys : Program) :
    surplus (x :: xs) (y :: ys) = surplus xs ys := by simp [surplus]

theorem surplus_comm (a b : Program) : surplus a b = surplus b a := by
  unfold surplus
  split <;> split
  · have same : a.length = b.length := by omega
    rw [same, List.drop_length, ← same, List.drop_length]
  all_goals first | rfl | omega

theorem length_surplus (a b : Program) :
    min a.length b.length + (surplus a b).length = max a.length b.length := by
  unfold surplus
  split <;> rw [List.length_drop] <;> omega

/-- As far as both programs go each element is from one of them at its place, and behind there are
elements of the longer one in order. -/
def Blends (a b c : Program) : Prop :=
  ∃ aligned kept, c = aligned ++ kept ∧ aligned.length = min a.length b.length ∧
    (∀ i < min a.length b.length, aligned[i]? = a[i]? ∨ aligned[i]? = b[i]?) ∧
    kept.Sublist (surplus a b)

namespace Blends

theorem of_nil {b c : Program} : Blends [] b c ↔ c.Sublist b := by
  constructor
  · rintro ⟨aligned, kept, rfl, length, -, sublist⟩
    have empty : aligned = [] := by simpa using length
    simpa [empty] using sublist
  · intro sublist
    exact ⟨[], c, rfl, by simp, by simp, by simpa using sublist⟩

theorem comm {a b c : Program} : Blends a b c ↔ Blends b a c := by
  simp only [Blends, surplus_comm a b, Nat.min_comm a.length, or_comm (a := _ = a[_]?)]

theorem to_nil {a c : Program} : Blends a [] c ↔ c.Sublist a := comm.trans of_nil

theorem cons_iff {x y : Element} {xs ys c : Program} :
    Blends (x :: xs) (y :: ys) c ↔
      ∃ e rest, c = e :: rest ∧ (e = x ∨ e = y) ∧ Blends xs ys rest := by
  constructor
  · rintro ⟨aligned, kept, rfl, length, origin, sublist⟩
    cases aligned with
    | nil => simp at length
    | cons e aligned =>
      refine ⟨e, aligned ++ kept, rfl, ?_, aligned, kept, rfl, ?_, ?_, ?_⟩
      · simpa using origin 0 (by simp)
      · simpa using length
      · intro i lt
        simpa using origin (i + 1) (by simpa using lt)
      · simpa using sublist
  · rintro ⟨e, rest, rfl, first, aligned, kept, rfl, length, origin, sublist⟩
    refine ⟨e :: aligned, kept, rfl, by simp [length], ?_, by simpa using sublist⟩
    intro i lt
    cases i with
    | zero => simpa using first
    | succ i => simpa using origin i (by simpa using lt)

theorem length {a b c : Program} (h : Blends a b c) :
    min a.length b.length ≤ c.length ∧ c.length ≤ max a.length b.length := by
  obtain ⟨aligned, kept, rfl, length, -, sublist⟩ := h
  have atMost := sublist.length_le
  have all := length_surplus a b
  rw [List.length_append]
  omega

theorem mem {a b c : Program} (h : Blends a b c) : ∀ e ∈ c, e ∈ a ∨ e ∈ b := by
  induction a generalizing b c with
  | nil => exact fun e he => .inr ((of_nil.mp h).subset he)
  | cons x xs ih =>
    cases b with
    | nil => exact fun e he => .inl ((to_nil.mp h).subset he)
    | cons y ys =>
      obtain ⟨e, rest, rfl, origin, blends⟩ := cons_iff.mp h
      intro e' he'
      rcases List.mem_cons.mp he' with rfl | he'
      · rcases origin with rfl | rfl <;> simp
      · rcases ih blends e' he' with he | he <;> simp [he]

/-- Two copies of a program blend into that program only. -/
theorem eq_of_self {a c : Program} (h : Blends a a c) : c = a := by
  induction a generalizing c with
  | nil => exact List.sublist_nil.mp (of_nil.mp h)
  | cons x xs ih =>
    obtain ⟨e, rest, rfl, origin, blends⟩ := cons_iff.mp h
    rw [ih blends, or_self_iff.mp origin]

end Blends

theorem gives_filterDraw {ω : Type} (keep : Draw ω Bool) (p : Program) :
    Gives (List.Sublist · p) (p.filterDraw keep) := by
  induction p with
  | nil => exact .pure (List.Sublist.refl [])
  | cons e rest ih =>
    refine (Gives.any keep).bind fun kept _ => ih.bind fun q sublist => .pure ?_
    cases kept with
    | true => exact sublist.cons_cons e
    | false => exact sublist.cons e

theorem scripted_filterDraw {keep : Draw Script Bool} (either : ∀ b, Scripted keep b)
    {p q : Program} (h : q.Sublist p) : Scripted (p.filterDraw keep) q := by
  induction h with
  | slnil => exact .pure _
  | cons e _ ih => exact (either false).bind (ih.bind (.pure _))
  | cons_cons e _ ih => exact (either true).bind (ih.bind (.pure _))

theorem gives_crossUniform {ω : Type} [Source ω] (a b : Program) :
    Gives (Blends a b) (a.crossUniform b : Draw ω Program) := by
  induction a generalizing b with
  | nil =>
    rw [nil_crossUniform]
    exact (gives_filterDraw _ b).mono fun _ => Blends.of_nil.mpr
  | cons x xs ih =>
    cases b with
    | nil =>
      rw [crossUniform_nil]
      exact (gives_filterDraw _ (x :: xs)).mono fun _ => Blends.to_nil.mpr
    | cons y ys =>
      refine (Gives.any _).bind fun side _ => (ih ys).bind fun rest blends => .pure ?_
      exact Blends.cons_iff.mpr ⟨_, rest, rfl, by split <;> simp, blends⟩

theorem scripted_crossUniform {a b c : Program} (h : Blends a b c) :
    Scripted (a.crossUniform b) c := by
  induction a generalizing b c with
  | nil =>
    rw [nil_crossUniform]
    exact scripted_filterDraw (Scripted.oneIn (Nat.le_refl 2)) (Blends.of_nil.mp h)
  | cons x xs ih =>
    cases b with
    | nil =>
      rw [crossUniform_nil]
      exact scripted_filterDraw (Scripted.oneIn (Nat.le_refl 2)) (Blends.to_nil.mp h)
    | cons y ys =>
      obtain ⟨e, rest, rfl, origin, blends⟩ := Blends.cons_iff.mp h
      rcases origin with rfl | rfl
      · exact (Scripted.below (0 : Fin 2)).bind ((ih blends).bind (.pure _))
      · exact (Scripted.below (1 : Fin 2)).bind ((ih blends).bind (.pure _))

/-- The children by uniform crossover are the blends of the parents. The parents can change places,
the length of a child is between theirs, and a program crossed with itself stays as it is. -/
theorem crossUniform_possible (a b : Program) :
    (∀ c, Possible (fun _ => a.crossUniform b) c ↔ Blends a b c) ∧
    (∀ c, Possible (fun _ => a.crossUniform b) c ↔ Possible (fun _ => b.crossUniform a) c) ∧
    (∀ (ω : Type) [Source ω] (w : ω),
      min a.length b.length ≤ (a.crossUniform b w).1.length ∧
        (a.crossUniform b w).1.length ≤ max a.length b.length) ∧
    ∀ (ω : Type) [Source ω] (w : ω), (a.crossUniform a w).1 = a := by
  have children (a b c : Program) : Possible (fun _ => a.crossUniform b) c ↔ Blends a b c :=
    possible_iff (fun _ => gives_crossUniform a b) (fun _ => scripted_crossUniform) c
  refine ⟨children a b, fun c => ?_, fun ω _ w => ?_, fun ω _ w => ?_⟩
  · rw [children, children, Blends.comm]
  · exact (gives_crossUniform a b w).length
  · exact (gives_crossUniform a a w).eq_of_self

/-! ### Two-point crossover -/

/-- Two places that a program of some length can be cut at: different ones before its last end, or
the front when it has less than two elements. -/
structure Cuts (length : Nat) (cut : Nat × Nat) : Prop where
  apart : 2 ≤ length → cut.1 < cut.2 ∧ cut.2 < length
  front : length < 2 → cut = (0, 0)

theorem gives_cutPoints {ω : Type} [Source ω] (length : Nat) :
    Gives (Cuts length) (cutPoints length : Draw ω (Nat × Nat)) := by
  match length with
  | 0 => exact .pure ⟨by omega, fun _ => rfl⟩
  | 1 =>
    refine (Gives.any _).bind fun first _ => .pure ⟨by omega, fun _ => ?_⟩
    rw [Subsingleton.elim first 0]
    rfl
  | n + 2 =>
    refine (Gives.any _).bind fun first _ => (Gives.any _).bind fun other _ =>
      .pure ⟨fun _ => ?_, by omega⟩
    have := first.isLt
    have := other.isLt
    dsimp only
    split <;> omega

theorem scripted_cutPoints {length : Nat} {cut : Nat × Nat} (h : Cuts length cut) :
    Scripted (cutPoints length) cut := by
  match length with
  | 0 =>
    rw [h.front (by omega)]
    exact .pure _
  | 1 =>
    rw [h.front (by omega)]
    exact (Scripted.below (0 : Fin 1)).bind (.pure _)
  | n + 2 =>
    obtain ⟨low, high⟩ := cut
    obtain ⟨lt, bound⟩ : low < high ∧ high < n + 2 := h.apart (by omega)
    -- drawn after the greater place, the smaller one is not behind it and keeps its number
    refine (Scripted.below ⟨high, bound⟩).bind ((Scripted.below ⟨low, by omega⟩).bind ?_)
    have cut : (low, high) = (min high low, max high low) := by
      rw [Nat.min_eq_right (Nat.le_of_lt lt), Nat.max_eq_left (Nat.le_of_lt lt)]
    simp only [if_pos lt]
    rw [cut]
    exact .pure _

/-- The second program with the segment between two places replaced by one of the first. -/
def splice (a b : Program) (x y : Nat × Nat) : Program :=
  b.take y.1 ++ (a.take x.2).drop x.1 ++ b.drop y.2

/-- What is to be said of a child by two-point crossover, with the places at which its parents are
cut. -/
structure Spliced (a b : Program) (x y : Nat × Nat) (c : Program) : Prop where
  first : Cuts a.length x
  second : Cuts b.length y
  eq : c = splice a b x y
  /-- the inserted segment ends before the last element of the first parent -/
  inserted : ∀ i, x.1 ≤ i → i < x.2 → i + 1 < a.length
  /-- the last element of the second parent stays the last -/
  last : b ≠ [] → b.drop y.2 ≠ [] ∧ c.getLast? = b.getLast?
  nonempty : b ≠ [] → c ≠ []
  length : c.length = b.length - (y.2 - y.1) + (x.2 - x.1)
  bounds : 2 ≤ a.length → 2 ≤ b.length → 2 ≤ c.length ∧ c.length ≤ a.length + b.length - 2
  sublist : a.length ≤ 1 → c.Sublist b

namespace Cuts

variable {n : Nat} {cut : Nat × Nat}

theorem le (h : Cuts n cut) : cut.1 ≤ cut.2 := by
  by_cases two : 2 ≤ n
  · exact Nat.le_of_lt (h.apart two).1
  · simp [h.front (by omega)]

/-- A cut leaves the last element behind it. -/
theorem lt (h : Cuts n cut) (pos : 0 < n) : cut.2 < n := by
  by_cases two : 2 ≤ n
  · exact (h.apart two).2
  · rwa [h.front (by omega)]

theorem le_length (h : Cuts n cut) : cut.2 ≤ n := by
  rcases n.eq_zero_or_pos with rfl | pos
  · simp [h.front (by omega)]
  · exact Nat.le_of_lt (h.lt pos)

end Cuts

theorem splice_spliced {a b : Program} {x y : Nat × Nat} (hx : Cuts a.length x)
    (hy : Cuts b.length y) : Spliced a b x y (splice a b x y) := by
  have length : (splice a b x y).length = b.length - (y.2 - y.1) + (x.2 - x.1) := by
    have := hx.le
    have := hx.le_length
    have := hy.le
    have := hy.le_length
    simp only [splice, List.length_append, List.length_take, List.length_drop]
    omega
  have behind (ne : b ≠ []) : b.drop y.2 ≠ [] := by
    rw [ne_eq, List.drop_eq_nil_iff, Nat.not_le]
    exact hy.lt (List.length_pos_iff.mpr ne)
  have last (ne : b ≠ []) : (splice a b x y).getLast? = b.getLast? := by
    rw [splice, List.getLast?_append, List.getLast?_drop,
      if_neg (Nat.not_le.mpr (hy.lt (List.length_pos_iff.mpr ne))),
      Option.or_of_isSome (List.getLast?_isSome.mpr ne)]
  refine ⟨hx, hy, rfl, ?_, fun ne => ⟨behind ne, last ne⟩, ?_, length, ?_, ?_⟩
  · intro i low high
    have := hx.lt (by have := hx.le_length; omega)
    omega
  · intro ne empty
    have same := last ne
    rw [empty] at same
    exact ne (List.getLast?_eq_none_iff.mp same.symm)
  · intro two two'
    have := hx.apart two
    have := hy.apart two'
    omega
  · intro short
    have nothing : (a.take x.2).drop x.1 = [] := by rw [hx.front (by omega)]; rfl
    rw [splice, nothing, List.append_nil]
    calc
      b.take y.1 ++ b.drop y.2
      _ = b.take y.1 ++ (b.drop y.1).drop (y.2 - y.1) := by
        rw [List.drop_drop, Nat.add_sub_cancel' hy.le]
      List.Sublist _ (b.take y.1 ++ b.drop y.1) :=
        (List.Sublist.refl _).append (List.drop_sublist _ _)
      _ = b := List.take_append_drop _ _

theorem Spliced.mem {a b c : Program} {x y : Nat × Nat} (h : Spliced a b x y c) :
    ∀ e ∈ c, e ∈ a ∨ e ∈ b := by
  intro e he
  rw [h.eq, splice, List.append_assoc, List.mem_append, List.mem_append] at he
  rcases he with he | he | he
  · exact .inr (List.mem_of_mem_take he)
  · exact .inl (List.mem_of_mem_take (List.mem_of_mem_drop he))
  · exact .inr (List.mem_of_mem_drop he)

theorem spliced_crossTwoPoint {ω : Type} [Source ω] (a b : Program) (w : ω) :
    Spliced a b (cutPoints a.length w).1 (cutPoints b.length (cutPoints a.length w).2).1
      (a.crossTwoPoint b w).1 :=
  splice_spliced (gives_cutPoints _ _) (gives_cutPoints _ _)

theorem scripted_crossTwoPoint {a b : Program} {x y : Nat × Nat} (hx : Cuts a.length x)
    (hy : Cuts b.length y) : Scripted (a.crossTwoPoint b) (splice a b x y) :=
  (scripted_cutPoints hx).bind ((scripted_cutPoints hy).bind (.pure _))

/-- The children by two-point crossover are the splices at the cuts of both parents, which are
drawn apart, and every draw leaves the ends of the parents where they belong. -/
theorem crossTwoPoint_possible (a b : Program) :
    (∀ c, Possible (fun _ => a.crossTwoPoint b) c ↔
      ∃ x y, Cuts a.length x ∧ Cuts b.length y ∧ c = splice a b x y) ∧
    ∀ (ω : Type) [Source ω] (w : ω),
      Spliced a b (cutPoints a.length w).1 (cutPoints b.length (cutPoints a.length w).2).1
        (a.crossTwoPoint b w).1 := by
  refine ⟨possible_iff (fun ω _ w => ?_) ?_, fun ω _ => spliced_crossTwoPoint a b⟩
  · have spliced := spliced_crossTwoPoint a b w
    exact ⟨_, _, spliced.first, spliced.second, spliced.eq⟩
  · rintro c ⟨x, y, hx, hy, rfl⟩
    exact scripted_crossTwoPoint hx hy

end PictureEvolution.Program
