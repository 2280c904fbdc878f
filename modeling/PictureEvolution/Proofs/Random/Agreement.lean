import PictureEvolution.Proofs.Random.Outcomes

/-!
# Draws on related sources

A source is told from another only by its answers. Two draws agree through a relation between the
states on which they run if related states give the same result and related states again. When the
answers of two sources agree, so does everything that is drawn from them: a source with a log
answers like the source alone, and a source inside a larger state like the source itself.
-/

namespace PictureEvolution

/-- Related states answer every query alike and stay related. -/
def Source.Agree {ω γ : Type} [Source ω] [Source γ] (R : ω → γ → Prop) : Prop :=
  ∀ q w g, R w g →
    (Source.answer q w).1 = (Source.answer q g).1 ∧ R (Source.answer q w).2 (Source.answer q g).2

/-- Answers leave a property of the source as it was. -/
def Source.Keeps {ω : Type} [Source ω] (I : ω → Prop) : Prop :=
  ∀ q w, I w → I (Source.answer q w).2

theorem Source.Keeps.agree {ω : Type} [Source ω] {I : ω → Prop} (h : Source.Keeps I) :
    Source.Agree fun w w' : ω => w = w' ∧ I w := by
  rintro q w _ ⟨rfl, holds⟩
  exact ⟨rfl, rfl, h q w holds⟩

namespace Draw

variable {ω γ α β : Type} {R : ω → γ → Prop}

def Agree (R : ω → γ → Prop) (d : Draw ω α) (d' : Draw γ α) : Prop :=
  ∀ w g, R w g → (d w).1 = (d' g).1 ∧ R (d w).2 (d' g).2

theorem Agree.pure (a : α) : Agree R (Pure.pure a) (Pure.pure a) :=
  fun _ _ related => ⟨rfl, related⟩

theorem Agree.bind {d : Draw ω α} {d' : Draw γ α} {f : α → Draw ω β} {f' : α → Draw γ β}
    (h : Agree R d d') (hf : ∀ a, Agree R (f a) (f' a)) : Agree R (d >>= f) (d' >>= f') := by
  intro w g related
  obtain ⟨same, next⟩ := h w g related
  rw [bind_apply, bind_apply, same]
  exact hf _ _ _ next

theorem Agree.map {d : Draw ω α} {d' : Draw γ α} (f : α → β) (h : Agree R d d') :
    Agree R (f <$> d) (f <$> d') := by
  intro w g related
  obtain ⟨same, next⟩ := h w g related
  exact ⟨congrArg f same, next⟩

section Source

variable [Source ω] [Source γ] (answers : Source.Agree R)

include answers

theorem agree_below (bound : Nat) (pos : 0 < bound) :
    Agree R (below bound pos) (below bound pos) :=
  answers (.below bound pos)

theorem agree_between (low high : Nat) (le : low ≤ high) :
    Agree R (between low high le) (between low high le) :=
  (agree_below answers _ _).bind fun _ => .pure _

theorem agree_band (bands : Nat) : Agree R (band bands) (band bands) :=
  Agree.bind (answers .fraction) fun _ => .pure _

theorem agree_oneIn (odds : Nat) : Agree R (oneIn odds) (oneIn odds) :=
  Agree.bind (answers .fraction) fun _ => .pure _

omit answers [Source ω] [Source γ] in
theorem Agree.many {d : Draw ω α} {d' : Draw γ α} (h : Agree R d d') (count : Nat) :
    Agree R (many count d) (Draw.many count d') := by
  induction count with
  | zero => exact .pure _
  | succ count ih => exact h.bind fun _ => ih.bind fun _ => .pure _

theorem agree_choose (xs : List α) (ne : xs ≠ []) : Agree R (choose xs ne) (choose xs ne) :=
  (agree_below answers _ _).bind fun _ => .pure _

theorem agree_choose? (xs : List α) : Agree R (choose? xs) (choose? xs) := by
  unfold choose?
  split
  · exact (agree_choose answers xs _).map some
  · exact .pure _

theorem agree_shuffleUpTo {n : Nat} (last : Nat) (lt : last < n) (xs : Vector α n) :
    Agree R (shuffleUpTo last lt xs) (shuffleUpTo last lt xs) := by
  induction last generalizing xs with
  | zero => exact .pure _
  | succ last ih => exact (agree_below answers _ _).bind fun _ => ih _ _

theorem agree_shuffle (xs : List α) : Agree R (shuffle xs) (shuffle xs) := by
  unfold shuffle
  split
  · exact (agree_shuffleUpTo answers _ _ _).bind fun _ => .pure _
  · exact .pure _

end Source

end Draw

end PictureEvolution
