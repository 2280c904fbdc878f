import PictureEvolution.Proofs.Machine.Task
import PictureEvolution.Workspace

/-!
# Tasks on parts of a workspace

Each task on the source or on the cache agrees with itself on workspaces that differ in their
journals only. What a task on the source alone comes to, it comes to in a workspace as well, in one
piece or in parts.
-/

namespace PictureEvolution

variable {γ α : Type}

namespace Workspace

def SameWork (w w' : Workspace γ) : Prop := w.source = w'.source ∧ w.cache = w'.cache

theorem agree_source [Source γ] :
    Source.Agree (SameWork : Workspace γ → Workspace γ → Prop) := by
  rintro q ⟨source, cache, journal⟩ ⟨_, _, journal'⟩ ⟨rfl, rfl⟩
  exact ⟨rfl, rfl, rfl⟩

theorem agree_onSource (t : Task γ α) : Task.Agree SameWork (onSource t) (onSource t) := by
  rintro ⟨source, cache, journal⟩ ⟨_, _, journal'⟩ ⟨rfl, rfl⟩
  exact ⟨rfl, rfl, rfl⟩

theorem agree_onCache (look : Task TargetCache α) :
    Task.Agree SameWork (onCache look : Task (Workspace γ) α) (onCache look) := by
  rintro ⟨source, cache, journal⟩ ⟨_, _, journal'⟩ ⟨rfl, rfl⟩
  exact ⟨rfl, rfl, rfl⟩

theorem agree_record (f f' : Journal → Journal) :
    Task.Agree SameWork (record f : Task (Workspace γ) Unit) (record f') := by
  rintro w w' same
  exact ⟨rfl, same⟩

theorem onCache_of_yields {look : Task TargetCache α} {w : Workspace γ} {a : α}
    {cache : TargetCache} (h : look.Yields w.cache a cache) :
    (onCache look).Yields w a { w with cache } :=
  congrArg (fun result : Except Fault α × TargetCache =>
    (result.1, ({ w with cache := result.2 } : Workspace γ))) h

theorem onCache_of_fails {look : Task TargetCache α} {w : Workspace γ} {fault : Fault}
    {cache : TargetCache} (h : look.Fails w.cache fault cache) :
    (onCache look).Fails w fault { w with cache } :=
  congrArg (fun result : Except Fault α × TargetCache =>
    (result.1, ({ w with cache := result.2 } : Workspace γ))) h

theorem yields_onCache {look : Task TargetCache α} {w w' : Workspace γ} {a : α} :
    (onCache look).Yields w a w' ↔
      ∃ cache, look.Yields w.cache a cache ∧ w' = { w with cache } := by
  constructor
  · intro h
    have looked : onCache look w = (.ok a, w') := h
    have value := congrArg Prod.fst looked
    have left := congrArg Prod.snd looked
    exact ⟨_, Prod.ext value rfl, left.symm⟩
  · rintro ⟨cache, looked, rfl⟩
    exact onCache_of_yields looked

theorem onSource_of_yields {t : Task γ α} {w : Workspace γ} {a : α} {g : γ}
    (h : t.Yields w.source a g) : (onSource t).Yields w a { w with source := g } :=
  congrArg (fun result : Except Fault α × γ =>
    (result.1, ({ w with source := result.2 } : Workspace γ))) h

theorem onSource_of_fails {t : Task γ α} {w : Workspace γ} {fault : Fault} {g : γ}
    (h : t.Fails w.source fault g) : (onSource t).Fails w fault { w with source := g } :=
  congrArg (fun result : Except Fault α × γ =>
    (result.1, ({ w with source := result.2 } : Workspace γ))) h

theorem yields_of_onSource {t : Task γ α} {w w' : Workspace γ} {a : α}
    (h : (onSource t).Yields w a w') : t.Yields w.source a w'.source := by
  rcases t.yields_or_fails w.source with ⟨b, g, ht⟩ | ⟨fault, g, ht⟩
  · obtain ⟨rfl, rfl⟩ := h.unique (onSource_of_yields ht)
    exact ht
  · exact absurd (onSource_of_fails ht) h.not_fails

theorem onSource_bind {β : Type} (t : Task γ α) (f : α → Task γ β) :
    onSource (t >>= f) = onSource t >>= fun a => onSource (f a) := by
  funext w
  rcases t.yields_or_fails w.source with ⟨a, g, ht⟩ | ⟨fault, g, ht⟩
  · rw [Task.bind_of_yields (onSource_of_yields ht)]
    unfold onSource
    rw [Task.bind_of_yields ht]
  · rw [onSource_of_fails (Task.bind_of_fails ht)]
    exact (Task.bind_of_fails (onSource_of_fails ht)).symm

theorem onSource_ofScore (r : Except ScoreFault α) :
    onSource (Task.ofScore r : Task γ α) = (Task.ofScore r : Task (Workspace γ) α) := by
  cases r <;> rfl

/-- What only writes into the journal after a task on the source leaves that task's source. -/
theorem onSource_bind_work {β : Type} {t : Task γ α} {f : α → Task (Workspace γ) β}
    (hf : ∀ a w, SameWork (f a w).2 w) (w : Workspace γ) :
    ((onSource t >>= f) w).2.source = (t w.source).2 ∧
      ((onSource t >>= f) w).2.cache = w.cache := by
  rcases t.yields_or_fails w.source with ⟨a, g, ht⟩ | ⟨fault, g, ht⟩
  · obtain ⟨source, cache⟩ := hf a { w with source := g }
    rw [Task.bind_of_yields (onSource_of_yields ht), ht.snd]
    exact ⟨source, cache⟩
  · rw [(Task.bind_of_fails (onSource_of_fails ht)).snd, ht.snd]
    exact ⟨rfl, rfl⟩

end Workspace

end PictureEvolution
