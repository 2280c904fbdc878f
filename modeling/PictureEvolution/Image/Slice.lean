import PictureEvolution.Image.Basic

/-!
# Slices

A window names rows and columns, each from a first one up to a bound that is left out. The slice of
an image in a window is what the image has of them, so it can be smaller than the window. A window
can be overwritten by a patch that has the size of the slice.
-/

namespace PictureEvolution

structure Window where
  top : Nat
  bottom : Nat
  left : Nat
  right : Nat

namespace Window

/-- The first rows and columns, so many of each. -/
def corner (height width : Nat) : Window := ⟨0, height, 0, width⟩

/-- So many rows and columns from a row and a column on. -/
def box (top left height width : Nat) : Window := ⟨top, top + height, left, left + width⟩

def Holds (w : Window) (y x : Nat) : Prop :=
  (w.top ≤ y ∧ y < w.bottom) ∧ w.left ≤ x ∧ x < w.right

instance (w : Window) (y x : Nat) : Decidable (w.Holds y x) :=
  inferInstanceAs (Decidable (_ ∧ _))

end Window

namespace Image

def slice (img : Image) (w : Window) : Image :=
  ofFn (min w.bottom img.height - w.top) (min w.right img.width - w.left) img.layout fun y x c =>
    img.get (w.top + y) (w.left + x) c

/-- A patch has the size of the slice of an image in a window. -/
structure Fits (patch img : Image) (w : Window) : Prop where
  height : patch.height = min w.bottom img.height - w.top
  width : patch.width = min w.right img.width - w.left

def overwrite (img : Image) (w : Window) (patch : Image) (_ : patch.Fits img w) : Image :=
  ofFn img.height img.width img.layout fun y x c =>
    if w.Holds y x then patch.get (y - w.top) (x - w.left) c else img.get y x c

theorem Fits.overwrite {patch img other : Image} {w v : Window} (h : patch.Fits img w)
    (fits : other.Fits img v) : patch.Fits (img.overwrite v other fits) w :=
  ⟨h.height, h.width⟩

def overwriteAll (img : Image) : (patches : List (Window × Image)) →
    (∀ p ∈ patches, p.2.Fits img p.1) → Image
  | [], _ => img
  | p :: rest, fits =>
    overwriteAll (img.overwrite p.1 p.2 (fits p List.mem_cons_self)) rest fun q hq =>
      (fits q (List.mem_cons_of_mem p hq)).overwrite _

section Slice

variable {img patch : Image} {w : Window} {height width top left y x c : Nat}

theorem height_slice (rows : w.bottom ≤ img.height) :
    (img.slice w).height = w.bottom - w.top :=
  congrArg (· - w.top) (Nat.min_eq_left rows)

theorem width_slice (columns : w.right ≤ img.width) : (img.slice w).width = w.right - w.left :=
  congrArg (· - w.left) (Nat.min_eq_left columns)

theorem get_slice (hy : y < (img.slice w).height) (hx : x < (img.slice w).width)
    (hc : c < img.layout.samples) :
    (img.slice w).get y x c = img.get (w.top + y) (w.left + x) c :=
  get_ofFn hy hx hc

theorem height_slice_corner (rows : height ≤ img.height) :
    (img.slice (.corner height width)).height = height :=
  height_slice rows

theorem width_slice_corner (columns : width ≤ img.width) :
    (img.slice (.corner height width)).width = width :=
  width_slice columns

theorem get_slice_corner (rows : height ≤ img.height) (columns : width ≤ img.width)
    (hy : y < height) (hx : x < width) (hc : c < img.layout.samples) :
    (img.slice (.corner height width)).get y x c = img.get y x c := by
  rw [get_slice (Nat.lt_of_lt_of_eq hy (height_slice_corner rows).symm)
    (Nat.lt_of_lt_of_eq hx (width_slice_corner columns).symm) hc]
  simp only [Window.corner, Nat.zero_add]

theorem height_slice_box (rows : top + height ≤ img.height) :
    (img.slice (.box top left height width)).height = height :=
  (height_slice rows).trans (Nat.add_sub_cancel_left top height)

theorem width_slice_box (columns : left + width ≤ img.width) :
    (img.slice (.box top left height width)).width = width :=
  (width_slice columns).trans (Nat.add_sub_cancel_left left width)

theorem get_slice_box (rows : top + height ≤ img.height) (columns : left + width ≤ img.width)
    (hy : y < height) (hx : x < width) (hc : c < img.layout.samples) :
    (img.slice (.box top left height width)).get y x c = img.get (top + y) (left + x) c :=
  get_slice (Nat.lt_of_lt_of_eq hy (height_slice_box rows).symm)
    (Nat.lt_of_lt_of_eq hx (width_slice_box columns).symm) hc

theorem get_overwrite (fits : patch.Fits img w) (hy : y < img.height) (hx : x < img.width)
    (hc : c < img.layout.samples) :
    (img.overwrite w patch fits).get y x c =
      if w.Holds y x then patch.get (y - w.top) (x - w.left) c else img.get y x c :=
  get_ofFn hy hx hc

theorem get_overwrite_corner (fits : patch.Fits img (.corner height width)) (hy : y < img.height)
    (hx : x < img.width) (hc : c < img.layout.samples) :
    (img.overwrite (.corner height width) patch fits).get y x c =
      if y < height ∧ x < width then patch.get y x c else img.get y x c := by
  rw [get_overwrite fits hy hx hc]
  simp [Window.corner, Window.Holds]

section OverwriteAll

variable {patches : List (Window × Image)} (fits : ∀ p ∈ patches, p.2.Fits img p.1)

theorem shape_overwriteAll : (img.overwriteAll patches fits).height = img.height ∧
    (img.overwriteAll patches fits).width = img.width ∧
    (img.overwriteAll patches fits).layout = img.layout := by
  induction patches generalizing img with
  | nil => exact ⟨rfl, rfl, rfl⟩
  | cons p rest ih => exact ih _

variable (hy : y < img.height) (hx : x < img.width) (hc : c < img.layout.samples)

include hy hx hc

/-- What no window holds stays. -/
theorem get_overwriteAll_of_outside (outside : ∀ p ∈ patches, ¬ p.1.Holds y x) :
    (img.overwriteAll patches fits).get y x c = img.get y x c := by
  induction patches generalizing img with
  | nil => rfl
  | cons p rest ih =>
    rw [List.forall_mem_cons] at outside
    have stays := get_overwrite (fits p List.mem_cons_self) hy hx hc
    rw [if_neg outside.1] at stays
    rw [overwriteAll, ← stays]
    exact ih _ hy hx hc outside.2

/-- What one window alone holds is overwritten by its patch. -/
theorem get_overwriteAll {p : Window × Image} (member : p ∈ patches) (inside : p.1.Holds y x)
    (only : ∀ q ∈ patches, q.1.Holds y x → q = p) :
    (img.overwriteAll patches fits).get y x c = p.2.get (y - p.1.top) (x - p.1.left) c := by
  induction patches generalizing img with
  | nil => cases member
  | cons q rest ih =>
    rw [List.forall_mem_cons] at only
    by_cases later : p ∈ rest
    · exact ih _ hy hx hc later only.2
    · obtain rfl : p = q := (List.mem_cons.mp member).resolve_right later
      have outside : ∀ r ∈ rest, ¬ r.1.Holds y x := by
        intro r hr holds
        exact later (only.2 r hr holds ▸ hr)
      have written := get_overwrite (fits p List.mem_cons_self) hy hx hc
      rw [if_pos inside] at written
      rw [overwriteAll, ← written]
      exact get_overwriteAll_of_outside _ hy hx hc outside

end OverwriteAll

end Slice

end Image

end PictureEvolution
