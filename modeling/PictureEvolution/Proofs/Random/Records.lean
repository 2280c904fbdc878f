import PictureEvolution.Proofs.Random.Scripts

/-!
# Records of draws

A recorded source answers like the source and writes the answers down. What is drawn depends on the
source through its answers only: the record of a draw is a script that leads to the same value. So
two draws come to the same value as soon as the answers that the first one got are the first ones
that the other got, whatever the sources are otherwise.
-/

namespace PictureEvolution

/-- A source and the answers that it has given. -/
structure Recorded (ω : Type) where
  source : ω
  answers : List Nat

instance {ω : Type} [Source ω] : Source (Recorded ω) where
  answer q r :=
    let (k, w) := Source.answer q r.source
    (k, ⟨w, r.answers ++ [k.val]⟩)

namespace Draw

variable {α β : Type}

/-- On a recorded source the same is drawn, and what is added to the record is a script for it. -/
def Transcribed (d : (ω : Type) → [Source ω] → Draw ω α) : Prop :=
  ∀ (ω : Type) [Source ω] (w : ω) (before : List Nat), ∃ answers,
    d (Recorded ω) ⟨w, before⟩ = ((d ω w).1, ⟨(d ω w).2, before ++ answers⟩) ∧
      Answered (d Script) answers (d ω w).1

namespace Transcribed

theorem pure (a : α) : Transcribed fun _ => Pure.pure a := by
  intro ω _ w before
  refine ⟨[], ?_, .pure a⟩
  rw [List.append_nil]
  rfl

theorem bind {d : (ω : Type) → [Source ω] → Draw ω α} {f : α → (ω : Type) → [Source ω] → Draw ω β}
    (h : Transcribed d) (hf : ∀ a, Transcribed (f a)) :
    Transcribed fun ω => d ω >>= fun a => f a ω := by
  intro ω _ w before
  obtain ⟨answers, recorded, scripted⟩ := h ω w before
  obtain ⟨more, recorded', scripted'⟩ := hf (d ω w).1 ω (d ω w).2 (before ++ answers)
  refine ⟨answers ++ more, ?_, scripted.bind scripted'⟩
  dsimp only
  rw [bind_apply, recorded, bind_apply, recorded', List.append_assoc]

theorem answer (q : Query) : Transcribed fun _ => Source.answer q := by
  intro ω _ w before
  refine ⟨[(Source.answer q w).1.val], rfl, fun rest => ?_⟩
  exact Prod.ext (Fin.ext (Nat.mod_eq_of_lt (Source.answer q w).1.isLt)) rfl

theorem below (bound : Nat) (pos : 0 < bound) : Transcribed fun _ => Draw.below bound pos :=
  answer (.below bound pos)

theorem between (low high : Nat) (le : low ≤ high) :
    Transcribed fun _ => Draw.between low high le :=
  (below _ _).bind fun _ => .pure _

theorem choose (xs : List α) (ne : xs ≠ []) : Transcribed fun _ => Draw.choose xs ne :=
  (below _ _).bind fun _ => .pure _

theorem shuffleUpTo {n : Nat} (last : Nat) (lt : last < n) (xs : Vector α n) :
    Transcribed fun _ => Draw.shuffleUpTo last lt xs := by
  induction last generalizing xs with
  | zero => exact .pure xs
  | succ last ih => exact (below _ _).bind fun _ => ih _ _

theorem shuffle (xs : List α) : Transcribed fun _ => Draw.shuffle xs := by
  unfold Draw.shuffle
  split
  · exact (shuffleUpTo _ _ _).bind fun _ => .pure _
  · exact .pure xs

end Transcribed

def answersTo {ω : Type} [Source ω] (d : (ω : Type) → [Source ω] → Draw ω α) (w : ω) : List Nat :=
  (d (Recorded ω) ⟨w, []⟩).2.answers

/-- The answers determine what is drawn, wherever they come from. -/
theorem Transcribed.determined {d : (ω : Type) → [Source ω] → Draw ω α} (h : Transcribed d)
    {ω γ : Type} [Source ω] [Source γ] {w : ω} {g : γ} (begins : answersTo d w <+: answersTo d g) :
    (d ω w).1 = (d γ g).1 := by
  obtain ⟨first, recorded, scripted⟩ := h ω w []
  obtain ⟨second, recorded', scripted'⟩ := h γ g []
  rw [answersTo, answersTo, recorded, recorded', List.nil_append, List.nil_append] at begins
  obtain ⟨more, rfl⟩ := begins
  have one : d Script ⟨first ++ more⟩ = ((d ω w).1, ⟨more⟩) := scripted more
  have other : d Script ⟨first ++ more ++ []⟩ = ((d γ g).1, ⟨[]⟩) := scripted' []
  rw [List.append_nil] at other
  exact congrArg Prod.fst (one.symm.trans other)

end Draw

end PictureEvolution
