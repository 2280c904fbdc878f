import PictureEvolution.Proofs.Machine.Likeness
import PictureEvolution.Proofs.Machine.Safety

/-!
# Runs on images

The picture instructions take one or two images from their stack and put one back that has the shape
of the last one taken. So a run that starts with an image on the stack never fails and never runs
out of images, and all images that it comes to have shapes that were there at the start.
-/

namespace PictureEvolution

namespace State

/-- There is an image on the image stack; only images of admitted shapes are there and among the
inputs; and every condition has a truth value. -/
structure Gallery (S : Nat → Nat → Prop) (s : State) : Prop where
  picture : s.stack .image ≠ []
  images : ∀ v ∈ s.stack .image, ∃ img, v = .image img ∧ img.Admitted S
  inputs : ∀ key v, s.inputs.get? key = some v → ∃ img, v = .image img ∧ img.Admitted S
  bools : ∀ v ∈ s.stack .bool, v.isTrue?.isSome = true

theorem Pictured.gallery {S : Nat → Nat → Prop} {s : State} (h : s.Pictured S)
    (picture : s.stack .image ≠ []) : s.Gallery S where
  picture := picture
  images := h.images
  inputs := h.inputs
  bools v hv := by
    obtain ⟨b, rfl⟩ := h.bools v hv
    rfl

namespace Gallery

variable {S : Nat → Nat → Prop} {s t : State} {img : Image} {rest : List Value}

theorem frame (h : s.Gallery S) (image : t.stack .image = s.stack .image)
    (inputs : t.inputs = s.inputs) (bools : t.stack .bool <:+ s.stack .bool) : t.Gallery S where
  picture := by
    rw [image]
    exact h.picture
  images := by
    rw [image]
    exact h.images
  inputs := by
    rw [inputs]
    exact h.inputs
  bools v hv := h.bools v (bools.subset hv)

/-- An image is put on what is left of the images. -/
theorem hang (h : s.Gallery S) (admitted : img.Admitted S)
    (less : t.stack .image <:+ s.stack .image)
    (others : ∀ name, name ≠ .image → name ≠ .input → t.stack name = s.stack name)
    (inputs : t.inputs = s.inputs) :
    (t.push .image (.image img)).Gallery S ∧
      (t.push .image (.image img)).stack .integer = s.stack .integer := by
  have image : (t.push .image (.image img)).stack .image = .image img :: t.stack .image := by
    rw [stack_push (by decide), if_pos rfl]
  have other {name : StackName} (hn : name ≠ .image) (hi : name ≠ .input) :
      (t.push .image (.image img)).stack name = s.stack name :=
    (stack_push_of_ne t _ hn hi).trans (others name hn hi)
  have unchanged : (t.push .image (.image img)).inputs = s.inputs :=
    (inputs_push t _ (by decide)).trans inputs
  refine ⟨⟨by simp [image], ?_, unchanged ▸ h.inputs, ?_⟩, other (by decide) (by decide)⟩
  · intro v hv
    rcases mem_stack_push (by decide) hv with rfl | hv
    · exact ⟨img, rfl, admitted⟩
    · exact h.images v (less.subset hv)
  · rw [other (by decide) (by decide)]
    exact h.bools

theorem pop (h : s.Gallery S) : (s.pop .exec).Gallery S :=
  h.frame (stack_pop_of_ne s (by decide) (by decide)) (inputs_pop s (by decide))
    (stack_pop_suffix s (by decide))

theorem loadExec (h : s.Gallery S) (p : Program) : (s.loadExec p).Gallery S := by
  have bools : (s.loadExec p).stack .bool = s.stack .bool := stack_loadExec_of_ne s p (by decide)
  exact h.frame (stack_loadExec_of_ne s p (by decide)) rfl (bools ▸ List.suffix_rfl)

theorem literal (h : s.Gallery S) (value : Literal) :
    (s.push value.stack (.ofLiteral value)).Gallery S := by
  have notImage : StackName.image ≠ value.stack := value.ne_stack (by decide) (by decide)
  have notInput : StackName.input ≠ value.stack := value.ne_stack (by decide) (by decide)
  have image := stack_push_of_ne s (.ofLiteral value) notImage (by decide)
  have inputs := inputs_push s (.ofLiteral value) notInput.symm
  refine ⟨image ▸ h.picture, image ▸ h.images, inputs ▸ h.inputs, ?_⟩
  intro v hv
  rcases mem_stack_push (by decide) hv with rfl | hv
  · cases value <;> rfl
  · exact h.bools v hv

theorem putBack (h : s.Gallery S) (key : String) :
    ∃ t, s.putBack key = .ok t ∧ t.Gallery S ∧ t.stack .integer = s.stack .integer := by
  cases present : s.inputs.get? key with
  | none => exact ⟨s, putBack_of_absent present, h, rfl⟩
  | some v =>
    obtain ⟨img, rfl, admitted⟩ := h.inputs key v present
    exact ⟨_, putBack_of_not_isExecuted present rfl,
      h.hang admitted List.suffix_rfl (fun _ _ _ => rfl) rfl⟩

theorem image_cons (h : s.Gallery S) :
    ∃ a rest, s.stack .image = .image a :: rest ∧ a.Admitted S := by
  obtain ⟨top, rest, hs⟩ := List.exists_cons_of_ne_nil h.picture
  obtain ⟨a, rfl, admitted⟩ := h.images top (hs ▸ List.mem_cons_self)
  exact ⟨a, rest, hs, admitted⟩

variable {ω : Type} [Source ω]

theorem filter (h : s.Gallery S)
    (positive : ∀ height width, S height width → 0 < height ∧ 0 < width) (f : Filter) (w : ω) :
    ∃ t x, (s.invoke (Action.onOne f) [.image] .image).Yields w t x ∧ t.Gallery S ∧
      t.stack .integer = s.stack .integer := by
  obtain ⟨a, rest, hs, admitted⟩ := h.image_cons
  obtain ⟨r, x, yields, shape⟩ := invoke_filter positive f hs admitted w
  have others (name : StackName) (hn : name ≠ .image) (hi : name ≠ .input) :
      (s.pop .image).stack name = s.stack name := stack_pop_of_ne s hn hi
  exact ⟨_, x, yields, h.hang (admitted.of_sameShape shape) (stack_pop_suffix s (by decide)) others
    (inputs_pop s (by decide))⟩

/-- Without a second image nothing happens. -/
theorem merge (h : s.Gallery S) (m : Merge) (w : ω) :
    ∃ t x, (s.invoke (Action.onTwo m) [.image, .image] .image).Yields w t x ∧ t.Gallery S ∧
      t.stack .integer = s.stack .integer := by
  obtain ⟨a, rest, hs, admitted⟩ := h.image_cons
  have below : (s.pop .image).stack .image = rest := by
    rw [stack_pop (by decide), if_pos rfl, hs, List.tail_cons]
  cases rest with
  | nil =>
    have short : s.takeArgs? [.image, .image] = none := by
      rw [takeArgs?_of_cons (by decide) hs, takeArgs?_of_nil (by decide) below]
      rfl
    exact ⟨s, w, invoke_of_short short w, h, rfl⟩
  | cons next others =>
    obtain ⟨b, rfl, admitted'⟩ := h.images next (by simp [hs])
    obtain ⟨r, x, yields, shape⟩ := invoke_merge m hs below (admitted.1.trans admitted'.1.symm) w
    have left (name : StackName) (hn : name ≠ .image) (hi : name ≠ .input) :
        ((s.pop .image).pop .image).stack name = s.stack name :=
      (stack_pop_of_ne _ hn hi).trans (stack_pop_of_ne s hn hi)
    have less : ((s.pop .image).pop .image).stack .image <:+ s.stack .image :=
      (stack_pop_suffix _ (by decide)).trans (stack_pop_suffix s (by decide))
    exact ⟨_, x, yields, h.hang (admitted'.of_sameShape shape) less left
      ((inputs_pop _ (by decide)).trans (inputs_pop s (by decide)))⟩

theorem apply (h : s.Gallery S)
    (positive : ∀ height width, S height width → 0 < height ∧ 0 < width) {inputs : Nat}
    {name : String} {action : Action ω}
    (found : (InstructionSet.pictures inputs).get? name = some action) (w : ω) :
    ∃ t x, (action.apply s).Yields w t x ∧ t.Gallery S ∧ t.stack .integer = s.stack .integer := by
  obtain ⟨-, rfl⟩ | ⟨-, rfl⟩ | ⟨f, -, rfl⟩ | ⟨m, -, rfl⟩ | ⟨key, rfl⟩ :=
    InstructionSet.get?_pictures_cases found
  · have other {name : StackName} (hn : name ≠ .exec) (hi : name ≠ .input) :
        s.dup.stack name = s.stack name := stack_dup_of_ne s hn hi
    have bools : s.dup.stack .bool = s.stack .bool := other (by decide) (by decide)
    exact ⟨s.dup, w, rfl, h.frame (other (by decide) (by decide)) (inputs_dup s)
      (bools ▸ List.suffix_rfl), other (by decide) (by decide)⟩
  · obtain ⟨t, chosen⟩ := branch_succeeds h.bools
    have other {name : StackName} (he : name ≠ .exec) (hb : name ≠ .bool) (hi : name ≠ .input) :
        t.stack name = s.stack name := branch_stack_of_ne chosen he hb hi
    exact ⟨t, w, Action.yields_branch.mpr ⟨chosen, rfl⟩,
      h.frame (other (by decide) (by decide) (by decide)) (branch_inputs chosen)
        (branch_bools chosen), other (by decide) (by decide) (by decide)⟩
  · exact h.filter positive f w
  · exact h.merge m w
  · obtain ⟨t, done, gallery, integers⟩ := h.putBack key
    exact ⟨t, w, Action.yields_input.mpr ⟨done, rfl⟩, gallery, integers⟩

end Gallery

def Shows (s : State) (img : Image) : Prop :=
  .image img ∈ s.stack .image ∨ ∃ key, s.inputs.get? key = some (.image img)

def Shapes (s : State) (height width : Nat) : Prop :=
  ∃ shown, s.Shows shown ∧ shown.layout = .channels 3 ∧ shown.height = height ∧
    shown.width = width

structure Keeps (s t : State) : Prop where
  picture : t.stack .image ≠ []
  shapes : ∀ v ∈ t.stack .image, ∃ img shown, v = .image img ∧ s.Shows shown ∧ img.SameShape shown
  inputs : t.inputs = s.inputs
  integers : s.stack .integer <:+ t.stack .integer

theorem Keeps.top {s t : State} (h : s.Keeps t) :
    ∃ img shown, t.peek? .image = some (.image img) ∧ s.Shows shown ∧ img.SameShape shown := by
  obtain ⟨v, rest, hs⟩ := List.exists_cons_of_ne_nil h.picture
  obtain ⟨img, shown, rfl, displayed, shape⟩ := h.shapes v (hs ▸ List.mem_cons_self)
  refine ⟨img, shown, ?_, displayed, shape⟩
  rw [peek?, if_neg (by decide), hs, List.head?_cons]

namespace Gallery

variable {S : Nat → Nat → Prop} {s t : State}

theorem ofShapes (h : s.Gallery S) : s.Gallery s.Shapes where
  picture := h.picture
  images v hv := by
    obtain ⟨img, rfl, channels, -⟩ := h.images v hv
    exact ⟨img, rfl, channels, img, .inl hv, channels, rfl, rfl⟩
  inputs key v hv := by
    obtain ⟨img, rfl, channels, -⟩ := h.inputs key v hv
    exact ⟨img, rfl, channels, img, .inr ⟨key, hv⟩, channels, rfl, rfl⟩
  bools := h.bools

theorem admitted {img : Image} (h : s.Gallery S) (shown : s.Shows img) : img.Admitted S := by
  rcases shown with hung | ⟨key, present⟩
  · obtain ⟨_, same, admitted⟩ := h.images _ hung
    cases same
    exact admitted
  · obtain ⟨_, same, admitted⟩ := h.inputs key _ present
    cases same
    exact admitted

theorem shapes_positive (h : s.Gallery Image.HasPixels) (height width : Nat)
    (shape : s.Shapes height width) : 0 < height ∧ 0 < width := by
  obtain ⟨img, shown, -, rfl, rfl⟩ := shape
  exact (h.admitted shown).2

/-- Images of the shapes that a state shows are like images of that state. -/
theorem keeps (h : t.Gallery s.Shapes) (inputs : t.inputs = s.inputs)
    (integers : s.stack .integer <:+ t.stack .integer) : s.Keeps t where
  picture := h.picture
  shapes v hv := by
    obtain ⟨img, rfl, channels, shown, displayed, same, height, width⟩ := h.images v hv
    exact ⟨img, shown, rfl, displayed, height.symm, width.symm, channels.trans same.symm⟩
  inputs := inputs
  integers := integers

end Gallery

end State

namespace InstructionSet

variable {ω : Type} [Source ω] {S : Nat → Nat → Prop} {s t : State} {w v : ω} {inputs n : Nat}

theorem returnsElsewhere_pictures (inputs : Nat) :
    (pictures inputs : InstructionSet ω).ReturnsElsewhere := by
  intro name f args result h
  obtain ⟨-, rfl⟩ := value_pictures h
  decide

/-- Where images are put up, no step fails, and the integers only become more. -/
theorem step_gallery (h : s.Gallery S) (covered : (pictures inputs : InstructionSet ω).Covers s)
    (positive : ∀ height width, S height width → 0 < height ∧ 0 < width)
    (pending : s.stack .exec ≠ []) (w : ω) :
    ∃ t x, ((pictures inputs).step s).Yields w t x ∧ t.Gallery S ∧
      s.stack .integer <:+ t.stack .integer := by
  obtain ⟨top, rest, hs⟩ := List.exists_cons_of_ne_nil pending
  obtain ⟨e, rfl, known⟩ := covered.exec top (hs ▸ List.mem_cons_self)
  have popped : (s.pop .exec).stack .integer = s.stack .integer :=
    State.stack_pop_of_ne s (by decide) (by decide)
  rw [← popped]
  cases e with
  | literal value =>
    rw [step_literal hs]
    exact ⟨_, w, rfl, h.pop.literal value, State.suffix_push _ _ (by decide)⟩
  | block p =>
    rw [step_block hs]
    have same : ((s.pop .exec).loadExec p).stack .integer = (s.pop .exec).stack .integer :=
      State.stack_loadExec_of_ne _ p (by decide)
    exact ⟨_, w, rfl, h.pop.loadExec p, same ▸ List.suffix_rfl⟩
  | instruction name =>
    obtain ⟨action, found⟩ := known.get?
    rw [step_instruction hs, found]
    obtain ⟨t, x, yields, gallery, integers⟩ := h.pop.apply positive found w
    exact ⟨t, x, yields, gallery, integers ▸ List.suffix_rfl⟩

theorem Steps.gallery (steps : (pictures inputs).Steps n s w t v) (h : s.Gallery S)
    (covered : (pictures inputs : InstructionSet ω).Covers s)
    (positive : ∀ height width, S height width → 0 < height ∧ 0 < width) :
    t.Gallery S ∧ s.stack .integer <:+ t.stack .integer := by
  induction steps with
  | refl => exact ⟨h, List.suffix_rfl⟩
  | cons pending one _ ih =>
    obtain ⟨u, x, yields, gallery, more⟩ := step_gallery h covered positive pending _
    obtain ⟨rfl, -⟩ := one.unique yields
    have still := covered.step (returnsElsewhere_pictures inputs) pending one
    obtain ⟨last, later⟩ := ih gallery still
    exact ⟨last, more.trans later⟩

omit [Source ω] in
/-- With images as inputs and nothing pending, there is only the program to be executed. -/
theorem covers_of_gallery (set : InstructionSet ω) (h : s.Gallery S) (idle : s.stack .exec = []) :
    set.Covers s where
  exec v hv := by
    rw [idle] at hv
    cases hv
  inputs key v present executed := by
    obtain ⟨img, rfl, -⟩ := h.inputs key v present
    cases executed

/-- What becomes of a program on images: every state of the run keeps them, no step fails, and only
the limit can stop the run. -/
structure Exhibits (set : InstructionSet ω) (p : Program) (s : State) (w : ω) : Prop where
  keeps (n : Nat) (t : State) (v : ω) : set.Steps n (s.loadExec p) w t v → s.Keeps t
  succeeds (n : Nat) (t : State) (v : ω) : set.Steps n (s.loadExec p) w t v →
    t.stack .exec ≠ [] → ∃ u x, (set.step t).Yields v u x ∧ t.stack .integer <:+ u.stack .integer
  stopped (limit : Limit) (fault : Fault) (v : ω) : (set.run limit p s).Fails w fault v →
    ∃ t, set.Stopped limit.bound (s.loadExec p) w t v ∧ fault = limit.fault t

theorem exhibits_of_gallery {p : Program}
    (known : ∀ e ∈ p, (pictures inputs : InstructionSet ω).Knows e) (idle : s.stack .exec = [])
    (h : s.Gallery Image.HasPixels) (w : ω) : (pictures inputs).Exhibits p s w := by
  have hung := h.ofShapes.loadExec p
  have covered := (covers_of_gallery (pictures inputs) h idle).loadExec known
  have positive := h.shapes_positive
  have elsewhere := returnsElsewhere_pictures (ω := ω) inputs
  have succeeds {n : Nat} {t : State} {v : ω}
      (steps : (pictures inputs).Steps n (s.loadExec p) w t v) (pending : t.stack .exec ≠ []) :
      ∃ u x, ((pictures inputs).step t).Yields v u x ∧
        t.stack .integer <:+ u.stack .integer := by
    obtain ⟨u, x, yields, -, more⟩ := step_gallery (steps.gallery hung covered positive).1
      (steps.covers covered elsewhere) positive pending v
    exact ⟨u, x, yields, more⟩
  refine ⟨fun n t v steps => ?_, fun n t v => succeeds, fun limit fault v failed => ?_⟩
  · obtain ⟨gallery, more⟩ := steps.gallery hung covered positive
    rw [State.stack_loadExec_of_ne s p (by decide)] at more
    exact gallery.keeps (steps.inputs_eq (sparesInputs_pictures inputs)) more
  · rw [run_of_valid (validate_eq_ok_iff_knows.mpr known)] at failed
    obtain ⟨t, stopped, rfl⟩ | ⟨k, -, t, x, ⟨steps, pending⟩, last⟩ := drain_fails_iff.mp failed
    · exact ⟨t, stopped, rfl⟩
    · obtain ⟨u, y, yields, -⟩ := succeeds steps pending
      exact absurd last yields.not_fails

end InstructionSet

end PictureEvolution
