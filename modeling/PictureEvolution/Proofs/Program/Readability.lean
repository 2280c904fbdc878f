import Mathlib.Data.Int.Basic
import Std.Data.String.ToInt
import PictureEvolution.Proofs.Program.Contents
import PictureEvolution.Program.Text

/-!
# Unique readability

The text of a program can be read in one way only, as long as its names can be told apart from the
notation around them: a name is a word without marks, and not the text of a literal. An element and
what follows it are then determined by the characters that they make together, since a leaf goes on
up to the next mark and a block up to the parenthesis that closes it.
-/

namespace PictureEvolution

/-- The characters that separate words. -/
def IsMark (c : Char) : Prop := c = ' ' ∨ c = '(' ∨ c = ')'

instance (c : Char) : Decidable (IsMark c) := inferInstanceAs (Decidable (_ ∨ _))

theorem not_isMark_of_isDigit {c : Char} (digit : c.isDigit = true) : ¬ IsMark c := by
  rintro (rfl | rfl | rfl) <;> cases digit

structure IsWord (w : List Char) : Prop where
  ne_nil : w ≠ []
  unmarked : ∀ c ∈ w, ¬ IsMark c

theorem unmarked_of_all {w : List Char} (h : (w.all fun c => !decide (IsMark c)) = true) :
    ∀ c ∈ w, ¬ IsMark c := by
  simpa using h

/-- A word begins with none of the marks. -/
theorem IsWord.append_ne_cons {w : List Char} {c : Char} (h : IsWord w) (mark : IsMark c)
    (rest rest' : List Char) : w ++ rest ≠ c :: rest' := by
  obtain ⟨first, others, rfl⟩ := List.exists_cons_of_ne_nil h.ne_nil
  intro same
  obtain ⟨rfl, -⟩ := List.cons.inj same
  exact h.unmarked first List.mem_cons_self mark

/-- Where a word ends: there is nothing more, or a mark. -/
def Separated (rest : List Char) : Prop := ∀ c ∈ rest.head?, IsMark c

theorem separated_nil : Separated [] := nofun

theorem separated_cons {c : Char} {rest : List Char} (mark : IsMark c) : Separated (c :: rest) := by
  rintro _ ⟨⟩
  exact mark

/-- Two words that are followed by the same end where the same mark follows. -/
theorem append_inj_of_unmarked {w w' rest rest' : List Char} (unmarked : ∀ c ∈ w, ¬ IsMark c)
    (unmarked' : ∀ c ∈ w', ¬ IsMark c) (ends : Separated rest) (ends' : Separated rest')
    (h : w ++ rest = w' ++ rest') : w = w' ∧ rest = rest' := by
  induction w generalizing w' with
  | nil =>
    cases w' with
    | nil => exact ⟨rfl, h⟩
    | cons c w' =>
      rw [List.nil_append] at h
      exact absurd (ends c (by rw [h]; rfl)) (unmarked' c List.mem_cons_self)
  | cons c w ih =>
    cases w' with
    | nil =>
      rw [List.nil_append] at h
      exact absurd (ends' c (by rw [← h]; rfl)) (unmarked c List.mem_cons_self)
    | cons c' w' =>
      rw [List.cons_append, List.cons_append, List.cons.injEq] at h
      obtain ⟨rfl, h⟩ := h
      obtain ⟨rfl, rfl⟩ := ih (fun d hd => unmarked d (List.mem_cons_of_mem c hd))
        (fun d hd => unmarked' d (List.mem_cons_of_mem c hd)) h
      exact ⟨rfl, rfl⟩

namespace Literal

theorem mem_decimal {n : Int} {c : Char} (h : c ∈ (toString n).toList) :
    c = '-' ∨ c.isDigit = true := by
  have digit {m : Nat} (h : c ∈ m.repr.toList) : c.isDigit = true := by
    rw [Nat.toList_repr] at h
    exact Nat.isDigit_of_mem_toDigits (by decide) (by decide) h
  rw [Int.toString_eq_repr, Int.repr_eq_if] at h
  split at h
  · exact .inr (digit h)
  · rw [String.toList_append, List.mem_append] at h
    rcases h with sign | h
    · exact .inl (List.mem_singleton.mp sign)
    · exact .inr (digit h)

theorem decimal_ne_empty (n : Int) : toString n ≠ "" := by
  rw [Int.toString_eq_repr, Int.repr_eq_if]
  split
  · exact Nat.repr_ne_empty
  · intro h
    have signed := congrArg String.toList h
    rw [String.toList_append] at signed
    cases signed

/-- No decimal has a letter in it. -/
theorem decimal_ne {n : Int} {s : String} {c : Char} (h : c ∈ s.toList) (sign : c ≠ '-')
    (digit : c.isDigit = false) : toString n ≠ s := by
  rintro rfl
  rcases mem_decimal h with rfl | h
  · exact sign rfl
  · rw [digit] at h
    cases h

theorem isWord_text (v : Literal) : IsWord v.text.toList := by
  cases v with
  | bool b => cases b <;> exact ⟨by decide, unmarked_of_all (by decide)⟩
  | int n =>
    refine ⟨mt String.toList_eq_nil_iff.mp (decimal_ne_empty n), fun c hc => ?_⟩
    rcases mem_decimal hc with rfl | digit
    · decide
    · exact not_isMark_of_isDigit digit

theorem text_inj {v v' : Literal} (h : v.text = v'.text) : v = v' := by
  have letters (b : Bool) : 'e' ∈ (bool b).text.toList := by cases b <;> decide
  cases v with
  | bool b =>
    cases v' with
    | bool b' => revert b b' h; decide
    | int n => exact absurd h.symm (decimal_ne (letters b) (by decide) (by decide))
  | int n =>
    cases v' with
    | bool b' => exact absurd h (decimal_ne (letters b') (by decide) (by decide))
    | int n' =>
      simp only [text, Int.toString_eq_repr, Int.repr_inj] at h
      rw [h]

end Literal

structure ReadableName (name : String) : Prop where
  ne_empty : name ≠ ""
  unmarked : ∀ c ∈ name.toList, ¬ IsMark c
  ne_true : name ≠ "true"
  ne_false : name ≠ "false"
  ne_decimal : ∀ n : Int, name ≠ toString n

namespace ReadableName

variable {name : String}

theorem isWord (h : ReadableName name) : IsWord name.toList :=
  ⟨mt String.toList_eq_nil_iff.mp h.ne_empty, h.unmarked⟩

theorem ne_text (h : ReadableName name) (v : Literal) : name ≠ v.text := by
  match v with
  | .bool true => exact h.ne_true
  | .bool false => exact h.ne_false
  | .int n => exact h.ne_decimal n

/-- A name with a letter is no decimal. -/
theorem of_letter (letter : ∃ c ∈ name.toList, c ≠ '-' ∧ c.isDigit = false)
    (unmarked : ∀ c ∈ name.toList, ¬ IsMark c) (ne_true : name ≠ "true")
    (ne_false : name ≠ "false") : ReadableName name := by
  obtain ⟨c, hc, sign, digit⟩ := letter
  refine ⟨?_, unmarked, ne_true, ne_false, fun n => (Literal.decimal_ne hc sign digit).symm⟩
  rintro rfl
  cases hc

end ReadableName

namespace Element

def Readable (e : Element) : Prop := ∀ name ∈ e.names, ReadableName name

theorem readable_block_cons {e : Element} {rest : List Element} :
    (block (e :: rest)).Readable ↔ e.Readable ∧ (block rest).Readable := by
  simp only [Readable, names, namesAll, List.mem_append, or_imp, forall_and]

/-- What follows the first element of a block, up to the parenthesis. -/
def after : List Element → List Char
  | [] => []
  | rest => ' ' :: (textAll rest).toList

theorem toList_textAll_cons (e : Element) (rest : List Element) :
    (textAll (e :: rest)).toList = e.text.toList ++ after rest := by
  cases rest with
  | nil => rw [textAll, after, List.append_nil]
  | cons e' rest =>
    have more : textAll (e :: e' :: rest) = e.text ++ " " ++ textAll (e' :: rest) := rfl
    rw [more, String.toList_append, String.toList_append, List.append_assoc]
    rfl

theorem toList_text_block (elements : List Element) (rest : List Char) :
    (block elements).text.toList ++ rest = '(' :: ((textAll elements).toList ++ ')' :: rest) := by
  rw [text, String.toList_append, String.toList_append]
  simp

theorem separated_after (elements : List Element) (rest : List Char) :
    Separated (after elements ++ ')' :: rest) := by
  cases elements with
  | nil => exact separated_cons (.inr (.inr rfl))
  | cons e others => exact separated_cons (.inl rfl)

/-- After their first element either both blocks are closed, or both go on behind a blank. -/
theorem textAll_of_after {others others' : List Element} {rest rest' : List Char}
    (same : after others ++ ')' :: rest = after others' ++ ')' :: rest') :
    (textAll others).toList ++ ')' :: rest = (textAll others').toList ++ ')' :: rest' := by
  cases others with
  | nil =>
    cases others' with
    | nil => exact same
    | cons e' others' => exact absurd (List.cons.inj same).1 (by decide)
  | cons e others =>
    cases others' with
    | nil => exact absurd (List.cons.inj same).1 (by decide)
    | cons e' others' => exact (List.cons.inj same).2

theorem isWord_text_leaf {l : Leaf} (h : l.element.Readable) : IsWord l.element.text.toList := by
  cases l with
  | literal v => exact v.isWord_text
  | instruction name => exact (h name List.mem_cons_self).isWord

theorem text_leaf_inj {l l' : Leaf} (h : l.element.Readable) (h' : l'.element.Readable)
    (same : l.element.text = l'.element.text) : l.element = l'.element := by
  cases l with
  | literal v =>
    cases l' with
    | literal v' => exact congrArg literal (Literal.text_inj same)
    | instruction name => exact absurd same.symm ((h' name List.mem_cons_self).ne_text v)
  | instruction name =>
    cases l' with
    | literal v => exact absurd same ((h name List.mem_cons_self).ne_text v)
    | instruction name' => exact congrArg instruction same

/-- A block begins with a mark, so no leaf is read as a block. -/
theorem text_leaf_ne_block {l : Leaf} (h : l.element.Readable) (elements : List Element)
    (rest rest' : List Char) :
    l.element.text.toList ++ rest ≠ (block elements).text.toList ++ rest' := by
  rw [toList_text_block]
  exact (isWord_text_leaf h).append_ne_cons (.inr (.inl rfl)) rest _

/-- No element begins with the parenthesis that closes a block. -/
theorem text_ne_closing {e : Element} (h : e.Readable) (rest rest' : List Char) :
    e.text.toList ++ rest ≠ ')' :: rest' := by
  rcases e.leaf_or_block with ⟨l, rfl⟩ | ⟨elements, rfl⟩
  · exact (isWord_text_leaf h).append_ne_cons (.inr (.inr rfl)) rest rest'
  · rw [toList_text_block]
    exact fun same => absurd (List.cons.inj same).1 (by decide)

theorem text_leaf_append_inj {l : Leaf} {e : Element} {rest rest' : List Char}
    (h : l.element.Readable) (h' : e.Readable) (ends : Separated rest) (ends' : Separated rest')
    (same : l.element.text.toList ++ rest = e.text.toList ++ rest') :
    l.element = e ∧ rest = rest' := by
  rcases e.leaf_or_block with ⟨l', rfl⟩ | ⟨elements, rfl⟩
  · obtain ⟨text, rest⟩ := append_inj_of_unmarked (isWord_text_leaf h).unmarked
      (isWord_text_leaf h').unmarked ends ends' same
    exact ⟨text_leaf_inj h h' (String.toList_inj.mp text), rest⟩
  · exact absurd same (text_leaf_ne_block h elements rest rest')

mutual

/-- An element and what follows it can be told from the characters of both. -/
theorem text_append_inj {rest rest' : List Char} (e e' : Element) (h : e.Readable)
    (h' : e'.Readable) (ends : Separated rest) (ends' : Separated rest')
    (same : e.text.toList ++ rest = e'.text.toList ++ rest') : e = e' ∧ rest = rest' := by
  cases e with
  | literal v => exact text_leaf_append_inj (l := .literal v) h h' ends ends' same
  | instruction name => exact text_leaf_append_inj (l := .instruction name) h h' ends ends' same
  | block elements =>
    rcases e'.leaf_or_block with ⟨l, rfl⟩ | ⟨elements', rfl⟩
    · exact absurd same.symm (text_leaf_ne_block h' elements rest' rest)
    · rw [toList_text_block, toList_text_block, List.cons.injEq] at same
      obtain ⟨rfl, rfl⟩ := textAll_append_inj elements elements' h h' same.2
      exact ⟨rfl, rfl⟩

/-- The elements of a block and what follows it can be told as well, since the block is closed. -/
theorem textAll_append_inj {rest rest' : List Char} (elements elements' : List Element)
    (h : (block elements).Readable) (h' : (block elements').Readable)
    (same : (textAll elements).toList ++ ')' :: rest = (textAll elements').toList ++ ')' :: rest') :
    elements = elements' ∧ rest = rest' := by
  match elements, elements' with
  | [], [] => exact ⟨rfl, (List.cons.inj same).2⟩
  | [], e' :: others' =>
    rw [toList_textAll_cons, List.append_assoc] at same
    exact absurd same.symm (text_ne_closing (readable_block_cons.mp h').1 _ _)
  | e :: others, [] =>
    rw [toList_textAll_cons, List.append_assoc] at same
    exact absurd same (text_ne_closing (readable_block_cons.mp h).1 _ _)
  | e :: others, e' :: others' =>
    rw [toList_textAll_cons, toList_textAll_cons, List.append_assoc, List.append_assoc] at same
    rw [readable_block_cons] at h h'
    obtain ⟨rfl, behind⟩ := text_append_inj e e' h.1 h'.1 (separated_after others rest)
      (separated_after others' rest') same
    obtain ⟨rfl, rfl⟩ := textAll_append_inj others others' h.2 h'.2 (textAll_of_after behind)
    exact ⟨rfl, rfl⟩

end

end Element

namespace Program

def Readable (p : Program) : Prop := ∀ name ∈ Element.namesAll p, ReadableName name

/-- Programs with readable names have different texts. -/
theorem text_inj {p q : Program} (hp : p.Readable) (hq : q.Readable) (h : p.text = q.text) :
    p = q := by
  have same : (Element.block p).text.toList ++ [] = (Element.block q).text.toList ++ [] :=
    congrArg (String.toList · ++ []) h
  have read := Element.text_append_inj (.block p) (.block q) hp hq separated_nil separated_nil same
  exact Element.block.inj read.1

/-- Names that can be taken for something else are not told apart. -/
example : text [.instruction "in1 ()"] = text [.instruction "in1", .block []] := by decide

end Program

end PictureEvolution
