import PictureEvolution.Machine.Fault
import PictureEvolution.Proofs.Random.Agreement

/-!
# Outcomes of tasks

Run on a state, a task either yields a value or fails with a fault, and leaves a state either way.
`Task.Yields` and `Task.Fails` say which, and the lemmas here say it for each way to build a task.
Further notions speak about all starts at once: a task gives only values with a property, or
succeeds with such a value; it keeps a property of the state; and two tasks agree through a relation
between the states on which they run. The lemmas at the beginning are about the results that the
members of a list have one by one.
-/

namespace PictureEvolution

section Results

variable {α β ε : Type} {f : α → Except ε β} {as : List α} {bs : List β}

/-- Results for all members of a list are a result for each, in the order of the list. -/
theorem mapM_eq_ok_iff : as.mapM f = .ok bs ↔ as.map f = bs.map .ok := by
  induction as generalizing bs with
  | nil => cases bs <;> simp [pure, Except.pure]
  | cons a rest ih =>
    rw [List.mapM_cons, List.map_cons]
    cases first : f a with
    | error fault => cases bs <;> simp [bind, Except.bind]
    | ok b =>
      cases bs with
      | nil => cases rest.mapM f <;> simp [bind, Except.bind, pure, Except.pure]
      | cons b' others =>
        rw [List.map_cons, List.cons.injEq, ← ih]
        cases rest.mapM f <;> simp [bind, Except.bind, pure, Except.pure]

theorem length_of_mapM (h : as.mapM f = .ok bs) : bs.length = as.length := by
  have lengths := congrArg List.length (mapM_eq_ok_iff.mp h)
  rw [List.length_map, List.length_map] at lengths
  exact lengths.symm

theorem mem_of_mapM {b : β} (h : as.mapM f = .ok bs) (member : b ∈ bs) :
    ∃ a ∈ as, f a = .ok b := by
  have result : .ok b ∈ as.map f := mapM_eq_ok_iff.mp h ▸ List.mem_map_of_mem member
  exact List.mem_map.mp result

theorem mapM_eq_map {g : α → β} (h : ∀ a ∈ as, f a = .ok (g a)) :
    as.mapM f = .ok (as.map g) := by
  rw [mapM_eq_ok_iff, List.map_map]
  exact List.map_congr_left h

theorem exists_mapM (h : ∀ a ∈ as, ∃ b, f a = .ok b) : ∃ bs, as.mapM f = .ok bs := by
  induction as with
  | nil => exact ⟨[], rfl⟩
  | cons a rest ih =>
    rw [List.forall_mem_cons] at h
    obtain ⟨⟨b, first⟩, others⟩ := h
    obtain ⟨bs, mapped⟩ := ih others
    exact ⟨b :: bs, by rw [List.mapM_cons, first, mapped]; rfl⟩

end Results

namespace Task

variable {ω γ α β : Type}

/-- From one state the task comes to a value and another state. -/
def Yields (t : Task ω α) (w : ω) (a : α) (w' : ω) : Prop := t w = (.ok a, w')

/-- From one state the task comes to a fault and another state. -/
def Fails (t : Task ω α) (w : ω) (fault : Fault) (w' : ω) : Prop := t w = (.error fault, w')

section Outcome

variable {t u : Task ω α} {f : α → Task ω β} {w w' w'' : ω} {a b : α} {fault : Fault}

theorem yields_or_fails (t : Task ω α) (w : ω) :
    (∃ a w', t.Yields w a w') ∨ ∃ fault w', t.Fails w fault w' := by
  rcases h : t w with ⟨fault | a, w'⟩
  · exact .inr ⟨fault, w', h⟩
  · exact .inl ⟨a, w', h⟩

theorem Yields.unique (h : t.Yields w a w') (h' : t.Yields w b w'') : a = b ∧ w' = w'' := by
  have e : ((.ok a, w') : Except Fault α × ω) = (.ok b, w'') := h.symm.trans h'
  simpa using e

theorem Fails.unique {other : Fault} (h : t.Fails w fault w') (h' : t.Fails w other w'') :
    fault = other ∧ w' = w'' := by
  have e : ((.error fault, w') : Except Fault α × ω) = (.error other, w'') := h.symm.trans h'
  simpa using e

theorem Yields.not_fails (h : t.Yields w a w') : ¬ t.Fails w fault w'' := by
  intro h'
  have e : ((.ok a, w') : Except Fault α × ω) = (.error fault, w'') := h.symm.trans h'
  simp at e

theorem Yields.snd (h : t.Yields w a w') : (t w).2 = w' := by
  rw [show t w = (.ok a, w') from h]

theorem Fails.snd (h : t.Fails w fault w') : (t w).2 = w' := by
  rw [show t w = (.error fault, w') from h]

@[simp] theorem yields_pure : (pure b : Task ω α).Yields w a w' ↔ a = b ∧ w' = w := by
  constructor
  · intro h
    exact Yields.unique h rfl
  · rintro ⟨rfl, rfl⟩
    rfl

@[simp] theorem not_fails_pure : ¬ (pure a : Task ω α).Fails w fault w' :=
  Yields.not_fails rfl

@[simp] theorem not_yields_throw {fault : Fault} : ¬ (throw fault : Task ω α).Yields w a w' :=
  fun h => h.not_fails rfl

@[simp] theorem fails_throw {fault' : Fault} :
    (throw fault' : Task ω α).Fails w fault w' ↔ fault = fault' ∧ w' = w := by
  constructor
  · intro h
    have e : ((.error fault, w') : Except Fault α × ω) = (.error fault', w) := h.symm
    simpa using e
  · rintro ⟨rfl, rfl⟩
    rfl

theorem yields_of_isOk (h : (t w).1.isOk = true) : ∃ a, t.Yields w a (t w).2 := by
  rcases t.yields_or_fails w with ⟨a, w', ht⟩ | ⟨fault, w', ht⟩
  · exact ⟨a, ht.snd ▸ ht⟩
  · rw [show t w = (.error fault, w') from ht] at h
    cases h

theorem fails_of_not_isOk (h : (t w).1.isOk = false) : ∃ fault, t.Fails w fault (t w).2 := by
  rcases t.yields_or_fails w with ⟨a, w', ht⟩ | ⟨fault, w', ht⟩
  · rw [show t w = (.ok a, w') from ht] at h
    cases h
  · exact ⟨fault, ht.snd ▸ ht⟩

theorem discard_eq (t : Task ω α) : discard t = t >>= fun _ => pure () := by
  rw [bind_pure_comp, discard]
  rfl

theorem bind_of_yields {f : α → Task ω β} (h : t.Yields w a w') : (t >>= f) w = f a w' :=
  congrArg (fun result : Except Fault α × ω => ExceptT.bindCont f result.1 result.2) h

theorem bind_of_fails {f : α → Task ω β} (h : t.Fails w fault w') :
    (t >>= f).Fails w fault w' :=
  congrArg (fun result : Except Fault α × ω => ExceptT.bindCont f result.1 result.2) h

/-- What comes next depends on where the first task leads only. -/
theorem bind_of_eq {u : Task ω α} (h : t w = u w) (f : α → Task ω β) :
    (t >>= f) w = (u >>= f) w :=
  congrArg (fun result : Except Fault α × ω => ExceptT.bindCont f result.1 result.2) h

theorem yields_bind {f : α → Task ω β} {b : β} :
    (t >>= f).Yields w b w'' ↔ ∃ a w', t.Yields w a w' ∧ (f a).Yields w' b w'' := by
  constructor
  · intro h
    rcases t.yields_or_fails w with ⟨a, w', ht⟩ | ⟨fault, w', ht⟩
    · exact ⟨a, w', ht, (bind_of_yields ht).symm.trans h⟩
    · exact absurd (bind_of_fails ht) h.not_fails
  · rintro ⟨a, w', ht, hf⟩
    exact (bind_of_yields ht).trans hf

theorem fails_bind {f : α → Task ω β} :
    (t >>= f).Fails w fault w'' ↔
      t.Fails w fault w'' ∨ ∃ a w', t.Yields w a w' ∧ (f a).Fails w' fault w'' := by
  constructor
  · intro h
    rcases t.yields_or_fails w with ⟨a, w', ht⟩ | ⟨other, w', ht⟩
    · exact .inr ⟨a, w', ht, (bind_of_yields ht).symm.trans h⟩
    · obtain ⟨rfl, rfl⟩ := (bind_of_fails ht).unique h
      exact .inl ht
  · rintro (ht | ⟨a, w', ht, hf⟩)
    · exact bind_of_fails ht
    · exact (bind_of_yields ht).trans hf

@[simp] theorem yields_ofDraw {d : Draw ω α} : (ofDraw d).Yields w a w' ↔ d w = (a, w') := by
  have e : ofDraw d w = (.ok (d w).1, (d w).2) := rfl
  unfold Yields
  rw [e]
  constructor
  · intro h
    have h : ((.ok (d w).1, (d w).2) : Except Fault α × ω) = (.ok a, w') := h
    simp only [Prod.mk.injEq, Except.ok.injEq] at h
    exact Prod.ext h.1 h.2
  · intro h
    rw [show (d w).1 = a from congrArg Prod.fst h, show (d w).2 = w' from congrArg Prod.snd h]

@[simp] theorem yields_ofScore {r : Except ScoreFault α} :
    (ofScore r).Yields w a w' ↔ r = .ok a ∧ w' = w := by
  cases r with
  | error fault => simp [ofScore]
  | ok b => rw [ofScore, yields_pure, Except.ok.injEq, eq_comm]

@[simp] theorem not_fails_ofDraw {d : Draw ω α} : ¬ (ofDraw d).Fails w fault w' :=
  Yields.not_fails (yields_ofDraw.mpr rfl)

end Outcome

section Gives

/-- Whatever the task yields has the property. -/
def Gives (P : α → Prop) (t : Task ω α) : Prop := ∀ w a w', t.Yields w a w' → P a

variable {P Q : α → Prop} {t : Task ω α}

theorem Gives.pure {a : α} (h : P a) : Gives P (Pure.pure a : Task ω α) := by
  intro w b w' yields
  rw [(yields_pure.mp yields).1]
  exact h

theorem Gives.any (t : Task ω α) : Gives (fun _ => True) t := fun _ _ _ _ => trivial

theorem Gives.throw (fault : Fault) : Gives P (throw fault : Task ω α) :=
  fun _ _ _ yields => absurd yields not_yields_throw

theorem Gives.ofDraw {d : Draw ω α} (h : d.Gives P) : Gives P (ofDraw d) := by
  intro w a w' yields
  have drawn := h w
  rw [yields_ofDraw.mp yields] at drawn
  exact drawn

theorem Gives.ofScore {r : Except ScoreFault α} (h : ∀ a, r = .ok a → P a) :
    Gives P (ofScore r : Task ω α) :=
  fun _ _ _ yields => h _ (yields_ofScore.mp yields).1

theorem Gives.bind {P : α → Prop} {Q : β → Prop} {f : α → Task ω β} (h : Gives P t)
    (hf : ∀ a, P a → Gives Q (f a)) : Gives Q (t >>= f) := by
  intro w b w'' yields
  obtain ⟨a, w', ht, next⟩ := yields_bind.mp yields
  exact hf a (h w a w' ht) w' b w'' next

theorem Gives.mono (h : Gives P t) (weaker : ∀ a, P a → Q a) : Gives Q t :=
  fun w a w' yields => weaker a (h w a w' yields)

end Gives

section Succeeds

/-- From every state the task yields something, and that has the property. -/
def Succeeds (P : α → Prop) (t : Task ω α) : Prop := ∀ w, ∃ a w', t.Yields w a w' ∧ P a

variable {P : α → Prop}

theorem Succeeds.pure {a : α} (h : P a) : Succeeds P (Pure.pure a : Task ω α) :=
  fun w => ⟨a, w, rfl, h⟩

theorem Succeeds.ofDraw {d : Draw ω α} (h : d.Gives P) : Succeeds P (ofDraw d) :=
  fun w => ⟨(d w).1, (d w).2, yields_ofDraw.mpr rfl, h w⟩

theorem Succeeds.mono {Q : α → Prop} {t : Task ω α} (h : Succeeds P t)
    (weaker : ∀ a, P a → Q a) : Succeeds Q t := by
  intro w
  obtain ⟨a, w', ht, holds⟩ := h w
  exact ⟨a, w', ht, weaker a holds⟩

theorem Succeeds.bind {Q : β → Prop} {t : Task ω α} {f : α → Task ω β} (h : Succeeds P t)
    (hf : ∀ a, P a → Succeeds Q (f a)) : Succeeds Q (t >>= f) := by
  intro w
  obtain ⟨a, w', ht, holds⟩ := h w
  obtain ⟨b, w'', next, holds'⟩ := hf a holds w'
  exact ⟨b, w'', yields_bind.mpr ⟨a, w', ht, next⟩, holds'⟩

end Succeeds

section FailsOnly

/-- Whenever the task fails, its fault has the property. -/
def FailsOnly (F : Fault → Prop) (t : Task ω α) : Prop := ∀ w fault w', t.Fails w fault w' → F fault

variable {F : Fault → Prop} {t : Task ω α}

theorem FailsOnly.pure (a : α) : FailsOnly F (Pure.pure a : Task ω α) :=
  fun _ _ _ fails => absurd fails not_fails_pure

theorem FailsOnly.throw {fault : Fault} (h : F fault) : FailsOnly F (throw fault : Task ω α) := by
  intro w other w' fails
  rw [(fails_throw.mp fails).1]
  exact h

theorem FailsOnly.ofDraw (d : Draw ω α) : FailsOnly F (ofDraw d) :=
  fun _ _ _ fails => absurd fails not_fails_ofDraw

theorem FailsOnly.bind {P : α → Prop} {f : α → Task ω β} (h : FailsOnly F t) (gives : Gives P t)
    (hf : ∀ a, P a → FailsOnly F (f a)) : FailsOnly F (t >>= f) := by
  intro w fault w'' fails
  rcases fails_bind.mp fails with here | ⟨a, w', yields, later⟩
  · exact h w fault w'' here
  · exact hf a (gives w a w' yields) w' fault w'' later

theorem FailsOnly.mono {G : Fault → Prop} (h : FailsOnly F t)
    (weaker : ∀ fault, F fault → G fault) :
    FailsOnly G t :=
  fun w fault w' fails => weaker fault (h w fault w' fails)

theorem Succeeds.failsOnly {P : α → Prop} (h : Succeeds P t) : FailsOnly F t := by
  intro w fault w' fails
  obtain ⟨a, w'', yields, -⟩ := h w
  exact absurd fails yields.not_fails

end FailsOnly

section Keeps

/-- Whether it succeeds or not, the task leaves a property of the state as it was. -/
def Keeps (I : ω → Prop) (t : Task ω α) : Prop := ∀ w, I w → I (t w).2

variable {I : ω → Prop} {t : Task ω α} {f : α → Task ω β}

theorem Keeps.pure (a : α) : Keeps I (Pure.pure a : Task ω α) := fun _ h => h

theorem Keeps.throw (fault : Fault) : Keeps I (throw fault : Task ω α) := fun _ h => h

/-- The second task may count on what the first one gives. -/
theorem Keeps.bind_of {P : α → Prop} (h : Keeps I t) (gives : Gives P t)
    (hf : ∀ a, P a → Keeps I (f a)) : Keeps I (t >>= f) := by
  intro w hw
  have kept := h w hw
  rcases t.yields_or_fails w with ⟨a, w', ht⟩ | ⟨fault, w', ht⟩
  · rw [bind_of_yields ht]
    exact hf a (gives w a w' ht) w' (ht.snd ▸ kept)
  · rw [(bind_of_fails ht).snd]
    exact ht.snd ▸ kept

theorem Keeps.bind (h : Keeps I t) (hf : ∀ a, Keeps I (f a)) : Keeps I (t >>= f) :=
  h.bind_of (.any _) fun a _ => hf a

end Keeps

section Upholds

/-- Counting on a property of the state, the task keeps it, and what it yields has another. -/
structure Upholds (I : ω → Prop) (P : α → Prop) (t : Task ω α) : Prop where
  keeps : Keeps I t
  gives : ∀ w a w', I w → t.Yields w a w' → P a

variable {I : ω → Prop} {P : α → Prop} {t : Task ω α}

theorem Keeps.upholds (h : Keeps I t) (gives : Gives P t) : Upholds I P t where
  keeps := h
  gives w a w' _ := gives w a w'

theorem Upholds.pure {a : α} (h : P a) : Upholds I P (Pure.pure a : Task ω α) :=
  (Keeps.pure a).upholds (.pure h)

theorem Upholds.throw (fault : Fault) : Upholds I P (throw fault : Task ω α) :=
  (Keeps.throw fault).upholds (.throw fault)

theorem Upholds.ofScore {r : Except ScoreFault α} (h : ∀ a, r = .ok a → P a) :
    Upholds I P (ofScore r) := by
  cases r with
  | error fault => exact .throw _
  | ok a => exact .pure (h a rfl)

theorem Upholds.and {Q : α → Prop} (h : Upholds I P t) (gives : Gives Q t) :
    Upholds I (fun a => P a ∧ Q a) t where
  keeps := h.keeps
  gives w a w' hw yields := ⟨h.gives w a w' hw yields, gives w a w' yields⟩

theorem Upholds.bind {Q : β → Prop} {f : α → Task ω β} (h : Upholds I P t)
    (hf : ∀ a, P a → Upholds I Q (f a)) : Upholds I Q (t >>= f) where
  keeps := by
    intro w hw
    have kept := h.keeps w hw
    rcases t.yields_or_fails w with ⟨a, w', ht⟩ | ⟨fault, w', ht⟩
    · rw [bind_of_yields ht]
      exact (hf a (h.gives w a w' hw ht)).keeps w' (ht.snd ▸ kept)
    · rw [(bind_of_fails ht).snd]
      exact ht.snd ▸ kept
  gives := by
    intro w b w'' hw yields
    obtain ⟨a, w', ht, next⟩ := yields_bind.mp yields
    exact (hf a (h.gives w a w' hw ht)).gives w' b w'' (ht.snd ▸ h.keeps w hw) next

end Upholds

section Silent

/-- The task leaves every state as it is. -/
def Silent (t : Task ω α) : Prop := ∀ w, (t w).2 = w

variable {t : Task ω α} {f : α → Task ω β}

theorem Silent.pure (a : α) : Silent (Pure.pure a : Task ω α) := fun _ => rfl

theorem Silent.throw (fault : Fault) : Silent (throw fault : Task ω α) := fun _ => rfl

theorem Silent.bind (h : Silent t) (hf : ∀ a, Silent (f a)) : Silent (t >>= f) := by
  intro w
  rcases t.yields_or_fails w with ⟨a, w', ht⟩ | ⟨fault, w', ht⟩
  · rw [bind_of_yields ht, hf a w', ← ht.snd, h w]
  · rw [(bind_of_fails ht).snd, ← ht.snd, h w]

end Silent

section Agree

variable {R : ω → γ → Prop} {t : Task ω α} {u : Task γ α}

/-- From these two states come the same outcome and related states. -/
def AgreeAt (R : ω → γ → Prop) (t : Task ω α) (u : Task γ α) (w : ω) (g : γ) : Prop :=
  (t w).1 = (u g).1 ∧ R (t w).2 (u g).2

/-- From related states come the same outcome and related states. -/
def Agree (R : ω → γ → Prop) (t : Task ω α) (u : Task γ α) : Prop :=
  ∀ w g, R w g → AgreeAt R t u w g

theorem AgreeAt.yields {w w' : ω} {g : γ} {a : α} (h : AgreeAt R t u w g) (ht : t.Yields w a w') :
    ∃ g', u.Yields g a g' ∧ R w' g' := by
  obtain ⟨same, next⟩ := h
  rw [show t w = (.ok a, w') from ht] at same next
  exact ⟨(u g).2, Prod.ext same.symm rfl, next⟩

theorem AgreeAt.fails {w w' : ω} {g : γ} {fault : Fault} (h : AgreeAt R t u w g)
    (ht : t.Fails w fault w') : ∃ g', u.Fails g fault g' ∧ R w' g' := by
  obtain ⟨same, next⟩ := h
  rw [show t w = (.error fault, w') from ht] at same next
  exact ⟨(u g).2, Prod.ext same.symm rfl, next⟩

theorem AgreeAt.bind {f : α → Task ω β} {f' : α → Task γ β} {w : ω} {g : γ}
    (h : AgreeAt R t u w g)
    (hf : ∀ a w' g', t.Yields w a w' → R w' g' → AgreeAt R (f a) (f' a) w' g') :
    AgreeAt R (t >>= f) (u >>= f') w g := by
  rcases t.yields_or_fails w with ⟨a, w', ht⟩ | ⟨fault, w', ht⟩
  · obtain ⟨g', hu, next⟩ := h.yields ht
    rw [AgreeAt, bind_of_yields ht, bind_of_yields hu]
    exact hf a w' g' ht next
  · obtain ⟨g', hu, next⟩ := h.fails ht
    rw [AgreeAt, show (t >>= f) w = (.error fault, w') from bind_of_fails ht,
      show (u >>= f') g = (.error fault, g') from bind_of_fails hu]
    exact ⟨rfl, next⟩

theorem Agree.pure (a : α) : Agree R (Pure.pure a) (Pure.pure a) :=
  fun _ _ related => ⟨rfl, related⟩

theorem Agree.throw (fault : Fault) : Agree R (throw fault : Task ω α) (throw fault) :=
  fun _ _ related => ⟨rfl, related⟩

theorem Agree.ofDraw {d : Draw ω α} {d' : Draw γ α} (h : Draw.Agree R d d') :
    Agree R (ofDraw d) (Task.ofDraw d') := by
  intro w g related
  obtain ⟨same, next⟩ := h w g related
  exact ⟨congrArg Except.ok same, next⟩

theorem Agree.ofScore (r : Except ScoreFault α) : Agree R (ofScore r) (Task.ofScore r) := by
  cases r with
  | error fault => exact .throw _
  | ok a => exact .pure a

theorem Agree.symm (h : Agree R t u) : Agree (fun g w => R w g) u t := by
  intro g w related
  obtain ⟨same, next⟩ := h w g related
  exact ⟨same.symm, next⟩

theorem Agree.yields {w w' : ω} {g : γ} {a : α} (h : Agree R t u) (related : R w g)
    (ht : t.Yields w a w') : ∃ g', u.Yields g a g' ∧ R w' g' :=
  (h w g related).yields ht

theorem Agree.bind {f : α → Task ω β} {f' : α → Task γ β} (h : Agree R t u)
    (hf : ∀ a, Agree R (f a) (f' a)) : Agree R (t >>= f) (u >>= f') :=
  fun w g related => (h w g related).bind fun a w' g' _ next => hf a w' g' next

/-- What agrees with itself where a property holds keeps the property. -/
theorem Keeps.of_agree {I : ω → Prop} {t : Task ω α}
    (h : Agree (fun w w' => w = w' ∧ I w) t t) : Keeps I t :=
  fun w holds => (h w w ⟨rfl, holds⟩).2.2

end Agree

end Task

end PictureEvolution
