import Mathlib.Data.List.Forall2
import PictureEvolution.Proofs.Image.Shape
import PictureEvolution.Proofs.Machine.PictureSet
import PictureEvolution.Proofs.Program.Contents

/-!
# Runs side by side

Two states are alike when they hold the same elements, truth values and inputs, and images of the
same shapes. The picture instructions lead from alike states to alike states and never fail there,
whatever is drawn: draws decide about samples, never about the course of a run.
-/

namespace PictureEvolution

def Image.HasPixels (height width : Nat) : Prop := 0 < height ∧ 0 < width

def Image.Admitted (S : Nat → Nat → Prop) (img : Image) : Prop :=
  img.layout = .channels 3 ∧ S img.height img.width

theorem Image.Admitted.of_sameShape {S : Nat → Nat → Prop} {a b : Image} (h : a.Admitted S)
    (same : b.SameShape a) : b.Admitted S := by
  refine ⟨same.2.2.trans h.1, ?_⟩
  rw [same.1, same.2.1]
  exact h.2

/-- What two values have in common at one place of a stack: they are one element with admitted
names, one truth value, or images of one admitted shape. Other stacks may hold anything. -/
def Value.Alike (N : String → Prop) (S : Nat → Nat → Prop) (name : StackName) (v v' : Value) :
    Prop :=
  (name = .exec → v = v' ∧ ∃ e, v = .element e ∧ ∀ n ∈ e.names, N n) ∧
  (name = .bool → v = v' ∧ ∃ b, v = .bool b) ∧
  (name = .image → ∃ a a', v = .image a ∧ v' = .image a' ∧ a.Admitted S ∧ a'.SameShape a)

namespace State

section Invoke

variable {ω : Type} {s : State} {rest : List Value}

theorem invoke_of_short {f : List Value → Task ω Value} {args : List StackName} {result : StackName}
    (h : s.takeArgs? args = none) (w : ω) : (s.invoke f args result).Yields w s w :=
  yields_invoke.mpr (.inl ⟨h, rfl, rfl⟩)

variable [Source ω]

theorem invoke_filter {S : Nat → Nat → Prop}
    (positive : ∀ height width, S height width → 0 < height ∧ 0 < width) (f : Filter) {a : Image}
    (hs : s.stack .image = .image a :: rest) (ha : a.Admitted S) (w : ω) :
    ∃ r x, (s.invoke (Action.onOne f) [.image] .image).Yields w
      ((s.pop .image).push .image (.image r)) x ∧ r.SameShape a := by
  have pixels := positive _ _ ha.2
  obtain ⟨r, x, applied, shape⟩ := f.succeeds_apply (Image.isEmpty_eq_false pixels.1 pixels.2) w
  have called : (Action.onOne f [.image a]).Yields w (.image r) x :=
    Task.yields_bind.mpr ⟨r, x, applied, rfl⟩
  refine ⟨r, x,
    yields_invoke.mpr (.inr ⟨[.image a], s.pop .image, .image r, ?_, called, rfl⟩), shape⟩
  rw [takeArgs?_of_cons (by decide) hs]
  rfl

theorem invoke_merge (m : Merge) {a b : Image} {rest' : List Value}
    (hs : s.stack .image = .image a :: rest) (hn : (s.pop .image).stack .image = .image b :: rest')
    (same : a.layout = b.layout) (w : ω) :
    ∃ r x, (s.invoke (Action.onTwo m) [.image, .image] .image).Yields w
      (((s.pop .image).pop .image).push .image (.image r)) x ∧ r.SameShape b := by
  obtain ⟨r, x, applied, shape⟩ := m.succeeds_apply same w
  have called : (Action.onTwo m [.image a, .image b]).Yields w (.image r) x :=
    Task.yields_bind.mpr ⟨r, x, applied, rfl⟩
  refine ⟨r, x,
    yields_invoke.mpr (.inr ⟨[.image a, .image b], (s.pop .image).pop .image, .image r, ?_,
    called, rfl⟩), shape⟩
  rw [takeArgs?_of_cons (by decide) hs, takeArgs?_of_cons (by decide) hn]
  rfl

end Invoke

/-- The stacks are alike place by place, and the inputs are the same images. -/
structure Alike (N : String → Prop) (S : Nat → Nat → Prop) (s s' : State) : Prop where
  entries : ∀ name, name ≠ .input →
    List.Forall₂ (Value.Alike N S name) (s.stack name) (s'.stack name)
  inputs : s'.inputs = s.inputs
  images : ∀ key v, s.inputs.get? key = some v → ∃ img, v = .image img ∧ img.Admitted S

namespace Alike

variable {N : String → Prop} {S : Nat → Nat → Prop} {s s' : State} {name : StackName}

theorem assign {vs vs' : List Value} (h : Alike N S s s') (hn : name ≠ .input)
    (hv : List.Forall₂ (Value.Alike N S name) vs vs') :
    Alike N S (s.assign name vs) (s'.assign name vs') where
  entries other ho := by
    rw [stack_assign hn, stack_assign hn]
    by_cases same : other = name
    · rw [if_pos same, if_pos same, same]
      exact hv
    · rw [if_neg same, if_neg same]
      exact h.entries other ho
  inputs := h.inputs
  images := h.images

theorem push {v v' : Value} (h : Alike N S s s') (hn : name ≠ .input)
    (hv : Value.Alike N S name v v') : Alike N S (s.push name v) (s'.push name v') := by
  rw [push_eq_assign hn, push_eq_assign hn]
  exact h.assign hn (.cons hv (h.entries name hn))

theorem pop (h : Alike N S s s') (hn : name ≠ .input) : Alike N S (s.pop name) (s'.pop name) where
  entries other ho := by
    rw [stack_pop hn, stack_pop hn]
    by_cases same : other = name
    · rw [if_pos same, if_pos same, same, ← List.drop_one, ← List.drop_one]
      exact List.forall₂_drop 1 (h.entries name hn)
    · rw [if_neg same, if_neg same]
      exact h.entries other ho
  inputs := by rw [inputs_pop _ hn, inputs_pop _ hn, h.inputs]
  images := by
    rw [inputs_pop _ hn]
    exact h.images

theorem element {e : Element} (h : ∀ n ∈ e.names, N n) :
    Value.Alike N S .exec (.element e) (.element e) :=
  ⟨fun _ => ⟨rfl, e, rfl, h⟩, fun other => absurd other (by decide),
    fun other => absurd other (by decide)⟩

theorem elements {p : Program} (h : ∀ n ∈ Element.namesAll p, N n) :
    List.Forall₂ (Value.Alike N S .exec) (p.map .element) (p.map .element) := by
  rw [List.forall₂_same]
  intro v hv
  obtain ⟨e, he, rfl⟩ := List.mem_map.mp hv
  exact element fun n hn => h n (Element.mem_namesAll.mpr ⟨e, he, hn⟩)

theorem image {a a' : Image} (h : a.Admitted S) (same : a'.SameShape a) :
    Value.Alike N S .image (.image a) (.image a') :=
  ⟨fun other => absurd other (by decide), fun other => absurd other (by decide),
    fun _ => ⟨a, a', rfl, rfl, h, same⟩⟩

theorem loadExec {p : Program} (h : Alike N S s s') (hp : ∀ n ∈ Element.namesAll p, N n) :
    Alike N S (s.loadExec p) (s'.loadExec p) :=
  h.assign (by decide) (List.rel_append (elements hp) (h.entries .exec (by decide)))

theorem literal (h : Alike N S s s') (value : Literal) :
    Alike N S (s.push value.stack (.ofLiteral value)) (s'.push value.stack (.ofLiteral value)) := by
  apply h.push (Ne.symm (value.ne_stack (by decide) (by decide)))
  cases value with
  | bool b =>
    show Value.Alike N S .bool _ _
    exact ⟨fun other => absurd other (by decide), fun _ => ⟨rfl, b, rfl⟩,
      fun other => absurd other (by decide)⟩
  | int n =>
    show Value.Alike N S .integer _ _
    exact ⟨fun other => absurd other (by decide), fun other => absurd other (by decide),
      fun other => absurd other (by decide)⟩

/-- The next elements are the same, with admitted names. -/
theorem exec_cons {top : Value} {rest : List Value} (h : Alike N S s s')
    (hs : s.stack .exec = top :: rest) :
    ∃ e rest', top = .element e ∧ (∀ n ∈ e.names, N n) ∧ s'.stack .exec = top :: rest' ∧
      List.Forall₂ (Value.Alike N S .exec) rest rest' := by
  have both := h.entries .exec (by decide)
  rw [hs] at both
  cases hs' : s'.stack .exec with
  | nil =>
    rw [hs'] at both
    cases both
  | cons top' rest' =>
    rw [hs'] at both
    cases both with
    | cons head tail =>
      obtain ⟨rfl, e, rfl, names⟩ := head.1 rfl
      exact ⟨e, rest', rfl, names, rfl, tail⟩

theorem exec_eq_nil_iff (h : Alike N S s s') : s'.stack .exec = [] ↔ s.stack .exec = [] := by
  have both := h.entries .exec (by decide)
  constructor
  · intro hs'
    rw [hs'] at both
    exact List.forall₂_nil_right_iff.mp both
  · intro hs
    rw [hs] at both
    exact List.forall₂_nil_left_iff.mp both

theorem dup (h : Alike N S s s') : Alike N S s.dup s'.dup := by
  cases hs : s.stack .exec with
  | nil =>
    rw [State.dup, State.dup, hs, h.exec_eq_nil_iff.mpr hs]
    exact h
  | cons top rest =>
    obtain ⟨e, rest', rfl, names, hs', -⟩ := h.exec_cons hs
    rw [State.dup, State.dup, hs, hs']
    cases e with
    | instruction name =>
      dsimp only
      split
      · exact h
      · exact h.push (by decide) (element names)
    | literal value => exact h.push (by decide) (element names)
    | block p => exact h.push (by decide) (element names)

theorem bool_cons {top : Value} {rest : List Value} (h : Alike N S s s')
    (hs : s.stack .bool = top :: rest) :
    ∃ b rest', top = .bool b ∧ s'.stack .bool = top :: rest' := by
  have both := h.entries .bool (by decide)
  rw [hs] at both
  obtain ⟨top', rest', head, -, hs'⟩ := List.forall₂_cons_left_iff.mp both
  obtain ⟨rfl, b, rfl⟩ := head.2.1 rfl
  exact ⟨b, rest', rfl, hs'⟩

theorem image_cons {top : Value} {rest : List Value} (h : Alike N S s s')
    (hs : s.stack .image = top :: rest) :
    ∃ a a' rest', top = .image a ∧ s'.stack .image = .image a' :: rest' ∧ a.Admitted S ∧
      a'.SameShape a := by
  have both := h.entries .image (by decide)
  rw [hs] at both
  obtain ⟨top', rest', head, -, hs'⟩ := List.forall₂_cons_left_iff.mp both
  obtain ⟨a, a', rfl, rfl, admitted, same⟩ := head.2.2 rfl
  exact ⟨a, a', rest', rfl, hs', admitted, same⟩

theorem image_nil (h : Alike N S s s') (hs : s.stack .image = []) : s'.stack .image = [] := by
  have both := h.entries .image (by decide)
  rw [hs] at both
  exact List.forall₂_nil_left_iff.mp both

theorem branch (h : Alike N S s s') :
    ∃ t t', s.branch = .ok t ∧ s'.branch = .ok t' ∧ Alike N S t t' := by
  unfold State.branch
  cases hb : s.stack .bool with
  | nil =>
    have hb' := List.forall₂_nil_left_iff.mp (hb ▸ h.entries .bool (by decide))
    rw [hb']
    exact ⟨s, s', rfl, rfl, h⟩
  | cons condition others =>
    obtain ⟨b, others', rfl, hb'⟩ := h.bool_cons hb
    rw [hb']
    have exec := h.entries .exec (by decide)
    match hs : s.stack .exec with
    | [] =>
      rw [h.exec_eq_nil_iff.mpr hs]
      exact ⟨s, s', rfl, rfl, h⟩
    | [first] =>
      obtain ⟨e, rest', rfl, names, hs', tail⟩ := h.exec_cons hs
      rw [List.forall₂_nil_left_iff.mp tail] at hs'
      rw [hs']
      exact ⟨s, s', rfl, rfl, h⟩
    | first :: second :: rest =>
      rw [hs] at exec
      obtain ⟨first', others', head, others, hs'⟩ := List.forall₂_cons_left_iff.mp exec
      obtain ⟨second', rest', next, tail, rfl⟩ := List.forall₂_cons_left_iff.mp others
      rw [hs']
      cases b with
      | true => exact ⟨_, _, rfl, rfl, (h.pop (by decide)).assign (by decide) (.cons head tail)⟩
      | false => exact ⟨_, _, rfl, rfl, (h.pop (by decide)).assign (by decide) (.cons next tail)⟩

theorem putBack (h : Alike N S s s') (key : String) :
    ∃ t t', s.putBack key = .ok t ∧ s'.putBack key = .ok t' ∧ Alike N S t t' := by
  cases present : s.inputs.get? key with
  | none =>
    have present' : s'.inputs.get? key = none := by rw [h.inputs, present]
    exact ⟨s, s', putBack_of_absent present, putBack_of_absent present', h⟩
  | some v =>
    obtain ⟨img, rfl, admitted⟩ := h.images key v present
    have present' : s'.inputs.get? key = some (.image img) := by rw [h.inputs, present]
    exact ⟨_, _, putBack_of_not_isExecuted present rfl, putBack_of_not_isExecuted present' rfl,
      h.push (by decide) (image admitted (.refl img))⟩

variable {ω : Type} [Source ω]

/-- A filter works on both or on none. -/
theorem filter (h : Alike N S s s')
    (positive : ∀ height width, S height width → 0 < height ∧ 0 < width) (f : Filter) (w w' : ω) :
    ∃ t x t' x', (s.invoke (Action.onOne f) [.image] .image).Yields w t x ∧
      (s'.invoke (Action.onOne f) [.image] .image).Yields w' t' x' ∧ Alike N S t t' := by
  cases hs : s.stack .image with
  | nil =>
    exact ⟨s, w, s', w', invoke_of_short (takeArgs?_of_nil (by decide) hs) w,
      invoke_of_short (takeArgs?_of_nil (by decide) (h.image_nil hs)) w', h⟩
  | cons top rest =>
    obtain ⟨a, a', rest', rfl, hs', admitted, same⟩ := h.image_cons hs
    obtain ⟨r, x, yields, shape⟩ := invoke_filter positive f hs admitted w
    obtain ⟨r', x', yields', shape'⟩ := invoke_filter positive f hs' (admitted.of_sameShape same) w'
    refine ⟨_, x, _, x', yields, yields', (h.pop (by decide)).push (by decide) ?_⟩
    exact image (admitted.of_sameShape shape) (shape'.trans (same.trans shape.symm))

theorem merge (h : Alike N S s s') (m : Merge) (w w' : ω) :
    ∃ t x t' x', (s.invoke (Action.onTwo m) [.image, .image] .image).Yields w t x ∧
      (s'.invoke (Action.onTwo m) [.image, .image] .image).Yields w' t' x' ∧ Alike N S t t' := by
  have popped := h.pop (show StackName.image ≠ .input by decide)
  cases hs : s.stack .image with
  | nil =>
    exact ⟨s, w, s', w', invoke_of_short (takeArgs?_of_nil (by decide) hs) w,
      invoke_of_short (takeArgs?_of_nil (by decide) (h.image_nil hs)) w', h⟩
  | cons top rest =>
    obtain ⟨a, a', rest', rfl, hs', admitted, same⟩ := h.image_cons hs
    cases hn : (s.pop .image).stack .image with
    | nil =>
      have short {u : State} {v : Value} {us : List Value} (hu : u.stack .image = v :: us)
          (hp : (u.pop .image).stack .image = []) : u.takeArgs? [.image, .image] = none := by
        rw [takeArgs?_of_cons (by decide) hu, takeArgs?_of_nil (by decide) hp]
        rfl
      exact ⟨s, w, s', w', invoke_of_short (short hs hn) w,
        invoke_of_short (short hs' (popped.image_nil hn)) w', h⟩
    | cons next others =>
      obtain ⟨b, b', others', rfl, hn', admitted', same'⟩ := popped.image_cons hn
      obtain ⟨r, x, yields, shape⟩ := invoke_merge m hs hn (admitted.1.trans admitted'.1.symm) w
      obtain ⟨r', x', yields', shape'⟩ := invoke_merge m hs' hn'
        ((admitted.of_sameShape same).1.trans (admitted'.of_sameShape same').1.symm) w'
      refine ⟨_, x, _, x', yields, yields', (popped.pop (by decide)).push (by decide) ?_⟩
      exact image (admitted'.of_sameShape shape) (shape'.trans (same'.trans shape.symm))

end Alike

/-- Nothing is to be executed, the truth values are ones, and the images and inputs are images of
admitted shapes. -/
structure Pictured (S : Nat → Nat → Prop) (s : State) : Prop where
  exec : s.stack .exec = []
  bools : ∀ v ∈ s.stack .bool, ∃ b, v = .bool b
  images : ∀ v ∈ s.stack .image, ∃ img, v = .image img ∧ img.Admitted S
  inputs : ∀ key v, s.inputs.get? key = some v → ∃ img, v = .image img ∧ img.Admitted S

namespace Pictured

variable {S : Nat → Nat → Prop} {s : State} {img : Image}

theorem alike (h : Pictured S s) (N : String → Prop) : Alike N S s s where
  entries name hn := by
    rw [List.forall₂_same]
    intro v hv
    refine ⟨?_, ?_, ?_⟩
    · rintro rfl
      rw [h.exec] at hv
      cases hv
    · rintro rfl
      exact ⟨rfl, h.bools v hv⟩
    · rintro rfl
      obtain ⟨img, rfl, admitted⟩ := h.images v hv
      exact ⟨img, img, rfl, rfl, admitted, .refl img⟩
  inputs := rfl
  images := h.inputs

theorem empty : Pictured S State.empty where
  exec := rfl
  bools := nofun
  images := nofun
  inputs := nofun

theorem pushImage (h : Pictured S s) (admitted : img.Admitted S) :
    Pictured S (s.push .image (.image img)) where
  exec := by rw [stack_push_of_ne s _ (by decide) (by decide), h.exec]
  bools := by
    rw [stack_push_of_ne s _ (by decide) (by decide)]
    exact h.bools
  images := by
    rw [stack_push (by decide), if_pos rfl]
    intro v hv
    rcases List.mem_cons.mp hv with rfl | hv
    · exact ⟨img, rfl, admitted⟩
    · exact h.images v hv
  inputs := by
    rw [inputs_push s _ (by decide)]
    exact h.inputs

theorem pushInput (h : Pictured S s) (admitted : img.Admitted S) :
    Pictured S (s.push .input (.image img)) where
  exec := by rw [stack_push_of_ne s _ (by decide) (by decide), h.exec]
  bools := by
    rw [stack_push_of_ne s _ (by decide) (by decide)]
    exact h.bools
  images := by
    rw [stack_push_of_ne s _ (by decide) (by decide)]
    exact h.images
  inputs := by
    intro key v hv
    rw [push, if_pos rfl, Table.get?_insert] at hv
    split at hv
    · cases hv
      exact ⟨img, rfl, admitted⟩
    · exact h.inputs key v hv

theorem loadImages {imgs : List Image} (h : Pictured S s) (all : ∀ img ∈ imgs, img.Admitted S) :
    Pictured S (s.loadImages (imgs.map .image)) := by
  induction imgs generalizing s with
  | nil => exact h
  | cons img rest ih =>
    refine ih (h.pushImage (all img List.mem_cons_self)) fun other ho => ?_
    exact all other (List.mem_cons_of_mem img ho)

theorem loadInputs {imgs : List Image} (h : Pictured S s) (all : ∀ img ∈ imgs, img.Admitted S) :
    Pictured S (s.loadInputs (imgs.map .image)) := by
  induction imgs generalizing s with
  | nil => exact h
  | cons img rest ih =>
    refine ih (h.pushInput (all img List.mem_cons_self)) fun other ho => ?_
    exact all other (List.mem_cons_of_mem img ho)

end Pictured

end State

namespace InstructionSet

variable {ω : Type} [Source ω] {N : String → Prop} {S : Nat → Nat → Prop} {s s' : State}

/-- From alike states a step leads to alike states, whatever is drawn. -/
theorem step_alike {inputs : Nat} (h : s.Alike N S s')
    (known : ∀ name, N name → (pictures inputs : InstructionSet ω).contains name = true)
    (positive : ∀ height width, S height width → 0 < height ∧ 0 < width)
    (pending : s.stack .exec ≠ []) (w w' : ω) : ∃ t x t' x',
      ((pictures inputs).step s).Yields w t x ∧ ((pictures inputs).step s').Yields w' t' x' ∧
        t.Alike N S t' := by
  obtain ⟨top, rest, hs⟩ := List.exists_cons_of_ne_nil pending
  obtain ⟨e, rest', rfl, names, hs', -⟩ := h.exec_cons hs
  have popped := h.pop (show StackName.exec ≠ .input by decide)
  cases e with
  | literal value =>
    rw [step_literal hs, step_literal hs']
    exact ⟨_, w, _, w', rfl, rfl, popped.literal value⟩
  | block p =>
    rw [step_block hs, step_block hs']
    exact ⟨_, w, _, w', rfl, rfl, popped.loadExec names⟩
  | instruction name =>
    have found := known name (names name List.mem_cons_self)
    rw [step_instruction hs, step_instruction hs']
    obtain ⟨action, found⟩ := Option.isSome_iff_exists.mp found
    rw [found]
    dsimp only
    obtain ⟨-, rfl⟩ | ⟨-, rfl⟩ | ⟨f, -, rfl⟩ | ⟨m, -, rfl⟩ | ⟨key, rfl⟩ := get?_pictures_cases found
    · exact ⟨_, w, _, w', rfl, rfl, popped.dup⟩
    · obtain ⟨t, t', ht, ht', alike⟩ := popped.branch
      exact ⟨t, w, t', w', Action.yields_branch.mpr ⟨ht, rfl⟩,
        Action.yields_branch.mpr ⟨ht', rfl⟩, alike⟩
    · exact popped.filter positive f w w'
    · exact popped.merge m w w'
    · obtain ⟨t, t', ht, ht', alike⟩ := popped.putBack key
      exact ⟨t, w, t', w', Action.yields_input.mpr ⟨ht, rfl⟩,
        Action.yields_input.mpr ⟨ht', rfl⟩, alike⟩

end InstructionSet

end PictureEvolution
