import PictureEvolution.Random.Source

/-!
# Outcomes of draws

What holds of a drawn value from whatever state it is drawn.
-/

namespace PictureEvolution.Draw

variable {ω α β : Type}

@[simp] theorem bind_apply (d : Draw ω α) (f : α → Draw ω β) (w : ω) :
    (d >>= f) w = f (d w).1 (d w).2 := rfl

/-- Whatever is drawn has the property. -/
def Gives (P : α → Prop) (d : Draw ω α) : Prop := ∀ w, P (d w).1

theorem Gives.pure {P : α → Prop} {a : α} (h : P a) : Gives P (Pure.pure a : Draw ω α) :=
  fun _ => h

theorem Gives.any (d : Draw ω α) : Gives (fun _ => True) d := fun _ => trivial

theorem Gives.bind {P : α → Prop} {Q : β → Prop} {d : Draw ω α} {f : α → Draw ω β}
    (h : Gives P d) (hf : ∀ a, P a → Gives Q (f a)) : Gives Q (d >>= f) := by
  intro w
  rw [bind_apply]
  exact hf _ (h w) _

theorem Gives.mono {P Q : α → Prop} {d : Draw ω α} (h : Gives P d) (weaker : ∀ a, P a → Q a) :
    Gives Q d :=
  fun w => weaker _ (h w)

variable [Source ω]

theorem gives_choose (xs : List α) (ne : xs ≠ []) :
    Gives (· ∈ xs) (choose xs ne : Draw ω α) :=
  (Gives.any _).bind fun _ _ => .pure (List.get_mem _ _)

theorem gives_choose? (xs : List α) :
    Gives (fun found => ∀ a, found = some a → a ∈ xs) (choose? xs : Draw ω (Option α)) := by
  unfold choose?
  split
  next ne =>
    intro w a found
    cases found
    exact gives_choose xs ne w
  · refine .pure ?_
    intro a found
    cases found

theorem gives_shuffleUpTo {n : Nat} (last : Nat) (lt : last < n) (xs : Vector α n) :
    Gives (Vector.Perm · xs) (shuffleUpTo last lt xs : Draw ω (Vector α n)) := by
  induction last generalizing xs with
  | zero => exact .pure (Vector.Perm.refl xs)
  | succ last ih =>
    refine (Gives.any _).bind fun other _ => (ih (by omega) _).mono fun ys perm => ?_
    exact perm.trans (Vector.swap_perm lt _)

theorem gives_shuffle (xs : List α) : Gives (List.Perm · xs) (shuffle xs : Draw ω (List α)) := by
  unfold shuffle
  split
  · exact (gives_shuffleUpTo _ _ _).bind fun ys perm => .pure perm.toList
  · exact .pure (List.Perm.refl xs)

end PictureEvolution.Draw
