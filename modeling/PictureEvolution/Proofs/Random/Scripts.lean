import PictureEvolution.Proofs.Random.Outcomes

/-!
# Scripts of draws

A draw takes some answers off the front of a script and leaves the others. The scripts of a
composed draw are composed of the scripts of its parts. What some source leads to can be drawn:
when every source gives only values of a kind, and for each of them there is a script, the values
of that kind are exactly what can be drawn.
-/

namespace PictureEvolution.Draw

variable {α β : Type}

/-- From every script that begins with the answers the value is drawn, and the rest is left. -/
def Answered (d : Draw Script α) (answers : List Nat) (a : α) : Prop :=
  ∀ rest, d ⟨answers ++ rest⟩ = (a, ⟨rest⟩)

namespace Answered

theorem pure (a : α) : Answered (Pure.pure a) [] a := fun _ => rfl

theorem bind {d : Draw Script α} {f : α → Draw Script β} {p q : List Nat} {a : α} {b : β}
    (h : Answered d p a) (hf : Answered (f a) q b) : Answered (d >>= f) (p ++ q) b := by
  intro rest
  rw [List.append_assoc, bind_apply, h]
  exact hf rest

theorem below {bound : Nat} {pos : 0 < bound} (i : Fin bound) :
    Answered (Draw.below bound pos) [i.val] i := by
  intro rest
  have fits : i.val % bound = i.val := Nat.mod_eq_of_lt i.isLt
  exact Prod.ext (Fin.ext fits) rfl

theorem oneIn (odds : Nat) {answer : Nat} (lt : answer < fractionSize) :
    Answered (Draw.oneIn odds) [answer] (decide (odds * answer < fractionSize)) := by
  intro rest
  have fits : answer % fractionSize = answer := Nat.mod_eq_of_lt lt
  show (decide (odds * (answer % fractionSize) < fractionSize), _) = _
  rw [fits]
  rfl

end Answered

def Scripted (d : Draw Script α) (a : α) : Prop := ∃ answers, Answered d answers a

namespace Scripted

theorem pure (a : α) : Scripted (Pure.pure a) a := ⟨[], .pure a⟩

theorem bind {d : Draw Script α} {f : α → Draw Script β} {a : α} {b : β} (h : Scripted d a)
    (hf : Scripted (f a) b) : Scripted (d >>= f) b := by
  obtain ⟨p, hp⟩ := h
  obtain ⟨q, hq⟩ := hf
  exact ⟨p ++ q, hp.bind hq⟩

theorem map {d : Draw Script α} {a : α} (f : α → β) (h : Scripted d a) :
    Scripted (f <$> d) (f a) := by
  obtain ⟨answers, answered⟩ := h
  exact ⟨answers, fun rest => congrArg (Prod.map f id) (answered rest)⟩

theorem below {bound : Nat} {pos : 0 < bound} (i : Fin bound) :
    Scripted (Draw.below bound pos) i :=
  ⟨_, .below i⟩

/-- Unless the odds are one, a draw at some odds can go either way: the least fraction is below
every inverse, and the greatest is at least one half. -/
theorem oneIn {odds : Nat} (h : 2 ≤ odds) (b : Bool) : Scripted (Draw.oneIn odds) b := by
  cases b with
  | true => exact ⟨[0], .oneIn odds (by decide)⟩
  | false =>
    have half : ¬ odds * (fractionSize - 1) < fractionSize := by
      have twice : 2 * (fractionSize - 1) ≤ odds * (fractionSize - 1) := Nat.mul_le_mul_right _ h
      have size : fractionSize ≤ 2 * (fractionSize - 1) := by decide
      omega
    rw [← decide_eq_false half]
    exact ⟨[fractionSize - 1], .oneIn odds (by decide)⟩

end Scripted

def Possible (d : (ω : Type) → [Source ω] → Draw ω α) (a : α) : Prop :=
  ∃ (ω : Type) (_ : Source ω) (w : ω), (d ω w).1 = a

theorem possible_iff {d : (ω : Type) → [Source ω] → Draw ω α} {P : α → Prop}
    (sound : ∀ (ω : Type) [Source ω], Gives P (d ω)) (complete : ∀ a, P a → Scripted (d Script) a)
    (a : α) : Possible d a ↔ P a := by
  constructor
  · rintro ⟨ω, _, w, rfl⟩
    exact sound ω w
  · intro h
    obtain ⟨answers, answered⟩ := complete a h
    exact ⟨Script, inferInstance, ⟨answers ++ []⟩, congrArg Prod.fst (answered [])⟩

end PictureEvolution.Draw
