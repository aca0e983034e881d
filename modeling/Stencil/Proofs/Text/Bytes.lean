import Mathlib.Data.String.Basic
import Stencil.Text.Search

/-!
# Byte offsets

A place in a text can be told by its offset, which counts the bytes before it. A character takes up
to four bytes, so an offset may lie inside one, and a text cannot be cut there. To take the part of
a text between two offsets, or to replace it, fails unless both are boundaries and the first one
does not lie behind the second one.

Main definitions:

* `IsBoundary`: an offset at which a text can be cut.
* `behind?`, `slice?`, `replaceRange?`: what depends on a text being cut, so that it can fail.
* `find?`: the offset of the first place of a pattern.

Main statements:

* `isBoundary_iff`: the boundaries of a text are the ends of the texts that it starts with.
* `behind?_of_eq_append`, `slice?_of_eq_append`, `replaceRange?_of_eq_append`: a text that is put
  together is cut at the ends of its parts.
-/

namespace Stencil.Text

/-- The `offset` lies neither inside a character of `text` nor past its end. -/
def IsBoundary (text : List Char) (offset : Nat) : Prop :=
  String.Pos.Raw.IsValid (String.ofList text) ⟨offset⟩

/-- Whether an offset is a boundary is decidable. -/
instance (text : List Char) (offset : Nat) : Decidable (IsBoundary text offset) :=
  decidable_of_iff _ String.Pos.Raw.isValid_eq_true_iff

/-- The parts of a text before and behind a boundary. -/
def cut : List Char → Nat → List Char × List Char
  | text, 0 => ([], text)
  | [], _ + 1 => ([], [])
  | c :: rest, offset + 1 =>
    let parts := cut rest (offset + 1 - c.utf8Size)
    (c :: parts.1, parts.2)

/-- The part of `text` from the offset `start` on. -/
def behind? (text : List Char) (start : Nat) : Option (List Char) :=
  if IsBoundary text start then some (cut text start).2 else none

/-- The part of `text` between the offsets `start` and `stop`. -/
def slice? (text : List Char) (start stop : Nat) : Option (List Char) :=
  if start ≤ stop ∧ IsBoundary text start ∧ IsBoundary text stop then
    some (cut (cut text stop).1 start).2
  else none

/-- The `text` with `value` in the place of what stands between the offsets `start` and `stop`. -/
def replaceRange? (text : List Char) (start stop : Nat) (value : List Char) :
    Option (List Char) :=
  if start ≤ stop ∧ IsBoundary text start ∧ IsBoundary text stop then
    some ((cut text start).1 ++ value ++ (cut text stop).2)
  else none

/-- The offset of the first place where `pattern` stands. -/
def find? (pattern text : List Char) : Option Nat :=
  (splitFirst pattern text).map fun (before, _) => String.utf8Len before

/-- The boundaries of `text` are the ends of the texts that it starts with. -/
theorem isBoundary_iff {text : List Char} {offset : Nat} :
    IsBoundary text offset ↔
      ∃ before after, text = before ++ after ∧ String.utf8Len before = offset := by
  rw [IsBoundary, String.Pos.Raw.isValid_iff_exists_append]
  constructor
  · rintro ⟨first, second, htext, hoffset⟩
    refine ⟨first.toList, second.toList, by simpa using congrArg String.toList htext, ?_⟩
    rw [← String.ofList_toList (s := first), String.rawEndPos_ofList] at hoffset
    exact (congrArg String.Pos.Raw.byteIdx hoffset).symm
  · rintro ⟨before, after, rfl, rfl⟩
    exact ⟨String.ofList before, String.ofList after, String.ofList_append, by simp⟩

/-- No boundary lies past the end of `text`. -/
theorem IsBoundary.le {text : List Char} {offset : Nat} (h : IsBoundary text offset) :
    offset ≤ String.utf8Len text := by
  obtain ⟨before, after, rfl, rfl⟩ := isBoundary_iff.1 h
  rw [String.utf8Len_append]
  omega

theorem boundaries_of_slice? {text part : List Char} {start stop : Nat}
    (h : slice? text start stop = some part) : IsBoundary text start ∧ IsBoundary text stop := by
  rw [slice?] at h
  split at h
  · rename_i hguard
    exact hguard.2
  · cases h

theorem boundaries_of_replaceRange? {text value result : List Char} {start stop : Nat}
    (h : replaceRange? text start stop value = some result) :
    IsBoundary text start ∧ IsBoundary text stop := by
  rw [replaceRange?] at h
  split at h
  · rename_i hguard
    exact hguard.2
  · cases h

/-! ### Texts that are put together -/

section

variable {text before middle after : List Char} {start stop : Nat}

theorem isBoundary_of_eq_append (htext : text = before ++ after)
    (hstart : String.utf8Len before = start) : IsBoundary text start :=
  isBoundary_iff.2 ⟨before, after, htext, hstart⟩

/-- The text `before ++ after` is cut at the end of `before`. -/
theorem cut_append (before after : List Char) :
    cut (before ++ after) (String.utf8Len before) = (before, after) := by
  induction before with
  | nil => cases after <;> rfl
  | cons c before ih =>
    -- a character takes at least one byte, so the offset is not at the start
    have hpos : 0 < c.utf8Size := c.utf8Size_pos
    obtain ⟨size, hsize⟩ : ∃ size, String.utf8Len (c :: before) = size + 1 :=
      Nat.exists_eq_add_one.2 (by rw [String.utf8Len_cons]; omega)
    have hrest : size + 1 - c.utf8Size = String.utf8Len before := by
      rw [← hsize, String.utf8Len_cons, Nat.add_sub_cancel]
    rw [hsize, List.cons_append, cut, hrest, ih]

theorem cut_of_eq_append (htext : text = before ++ after)
    (hstart : String.utf8Len before = start) : cut text start = (before, after) := by
  subst htext hstart
  exact cut_append before after

theorem behind?_of_eq_append (htext : text = before ++ after)
    (hstart : String.utf8Len before = start) : behind? text start = some after := by
  rw [behind?, if_pos (isBoundary_of_eq_append htext hstart), cut_of_eq_append htext hstart]

/-- Where `middle` ends is told from where it starts. -/
theorem utf8Len_append_of_eq (hstart : String.utf8Len before = start)
    (hstop : start + String.utf8Len middle = stop) : String.utf8Len (before ++ middle) = stop := by
  rw [String.utf8Len_append, hstart, hstop]

/-- The ends `start` and `stop` of a part of `text` are boundaries, the first one not behind the
second one. -/
theorem boundaries_of_eq_append (htext : text = before ++ middle ++ after)
    (hstart : String.utf8Len before = start) (hstop : start + String.utf8Len middle = stop) :
    start ≤ stop ∧ IsBoundary text start ∧ IsBoundary text stop := by
  have hfirst : text = before ++ (middle ++ after) := by rw [htext, List.append_assoc]
  have hboth : String.utf8Len (before ++ middle) = stop := utf8Len_append_of_eq hstart hstop
  refine ⟨by omega, ?_, ?_⟩
  · exact isBoundary_of_eq_append hfirst hstart
  · exact isBoundary_of_eq_append htext hboth

/-- The part `middle` of `text` stands between its ends. -/
theorem slice?_of_eq_append (htext : text = before ++ middle ++ after)
    (hstart : String.utf8Len before = start) (hstop : start + String.utf8Len middle = stop) :
    slice? text start stop = some middle := by
  have hboth : String.utf8Len (before ++ middle) = stop := utf8Len_append_of_eq hstart hstop
  rw [slice?, if_pos (boundaries_of_eq_append htext hstart hstop), cut_of_eq_append htext hboth,
    cut_of_eq_append rfl hstart]

/-- The text `value` takes the place of the part `middle` of `text`. -/
theorem replaceRange?_of_eq_append (htext : text = before ++ middle ++ after)
    (hstart : String.utf8Len before = start) (hstop : start + String.utf8Len middle = stop)
    (value : List Char) :
    replaceRange? text start stop value = some (before ++ value ++ after) := by
  have hfirst : text = before ++ (middle ++ after) := by rw [htext, List.append_assoc]
  have hboth : String.utf8Len (before ++ middle) = stop := utf8Len_append_of_eq hstart hstop
  rw [replaceRange?, if_pos (boundaries_of_eq_append htext hstart hstop),
    cut_of_eq_append htext hboth, cut_of_eq_append hfirst hstart]

end

end Stencil.Text
