import Mathlib.Data.List.Basic
import Stencil.Text.Search

/-!
# Replacing in texts of known parts

The places of a pattern that are replaced divide a text into parts, and what comes of replacing them
are these parts with the value between them.

Main definitions:

* `around`: the parts of a text between the places of a pattern.

Main statements:

* `replaceFrom_append`: characters at which the pattern does not stand are left as they are.
* `replaceFrom_self`: where the pattern stands, it is replaced.
* `replaceFrom_eq_intercalate`: the value stands between the parts of the text.
* `infix_of_mem_around`, `not_infix_of_mem_around`: what the parts contain.
-/

namespace Stencil.Text

variable {pattern value chars rest : List Char}

/-- The characters `chars`, which belong to the place replaced last, are dropped. -/
theorem replaceFrom_length_append (pattern value chars rest : List Char) :
    replaceFrom pattern value chars.length (chars ++ rest) =
      replaceFrom pattern value 0 rest := by
  induction chars with
  | nil => rfl
  | cons c chars ih => exact ih

/-- The characters `chars`, at which `pattern` does not stand, are left as they are. -/
theorem replaceFrom_append
    (h : ∀ place < chars.length, ¬ pattern <+: (chars ++ rest).drop place) :
    replaceFrom pattern value 0 (chars ++ rest) = chars ++ replaceFrom pattern value 0 rest := by
  induction chars with
  | nil => rfl
  | cons c chars ih =>
    -- no occurrence begins at the first character
    have hprefix : pattern.isPrefixOf (c :: (chars ++ rest)) = false := by
      rw [← Bool.not_eq_true, List.isPrefixOf_iff_prefix]
      exact h 0 (Nat.succ_pos _)
    have hchars : ∀ place < chars.length, ¬ pattern <+: (chars ++ rest).drop place :=
      fun place hplace => h (place + 1) (Nat.succ_lt_succ hplace)
    rw [List.cons_append, replaceFrom, hprefix, if_neg Bool.false_ne_true, ih hchars]
    rfl

/-- Where `pattern` stands, `value` takes its place. -/
theorem replaceFrom_self (h : pattern ≠ []) (value rest : List Char) :
    replaceFrom pattern value 0 (pattern ++ rest) =
      value ++ replaceFrom pattern value 0 rest := by
  have hprefix : pattern.isPrefixOf (pattern ++ rest) = true :=
    List.isPrefixOf_iff_prefix.2 (List.prefix_append _ _)
  cases pattern with
  | nil => exact absurd rfl h
  | cons c pattern =>
    rw [List.cons_append] at hprefix ⊢
    rw [replaceFrom, hprefix, if_pos rfl, List.length_cons, Nat.add_sub_cancel,
      replaceFrom_length_append]

/-- The parts of a text between the places of `pattern`, which is not empty, in order; there is
always one. The first `skip` characters still belong to the place found last. -/
def around (pattern : List Char) : Nat → List Char → List (List Char)
  | _, [] => [[]]
  | skip + 1, _ :: rest => around pattern skip rest
  | 0, c :: rest =>
    if pattern.isPrefixOf (c :: rest) then [] :: around pattern (pattern.length - 1) rest
    else (around pattern 0 rest).modifyHead (List.cons c)

/-- There is always a `first` part, and `text` starts with it. -/
theorem exists_around_zero (pattern text : List Char) :
    ∃ first parts, around pattern 0 text = first :: parts ∧ first <+: text := by
  induction text with
  | nil => exact ⟨[], [], rfl, List.prefix_rfl⟩
  | cons c rest ih =>
    obtain ⟨first, parts, hparts, hfirst⟩ := ih
    rw [around]
    split
    · exact ⟨[], _, rfl, List.nil_prefix⟩
    · rw [hparts]
      exact ⟨c :: first, parts, rfl, List.cons_prefix_cons.2 ⟨rfl, hfirst⟩⟩

theorem around_ne_nil (pattern : List Char) (skip : Nat) (text : List Char) :
    around pattern skip text ≠ [] := by
  fun_induction around pattern skip text with
  | case1 | case3 => simp
  | case2 _ _ _ ih => exact ih
  | case4 _ _ _ ih => simpa using ih

/-- To replace `pattern` is to put `value` between the parts of `text` around it. -/
theorem replaceFrom_eq_intercalate (pattern value : List Char) (skip : Nat) (text : List Char) :
    replaceFrom pattern value skip text = value.intercalate (around pattern skip text) := by
  fun_induction around pattern skip text with
  | case1 => simp [replaceFrom]
  | case2 skip c rest ih => rw [replaceFrom, ih]
  | case3 c rest hprefix ih =>
    rw [replaceFrom, if_pos hprefix, ih,
      List.intercalate_cons_of_ne_nil (around_ne_nil pattern _ rest), List.nil_append]
  | case4 c rest hprefix ih =>
    rw [replaceFrom, if_neg hprefix, ih]
    obtain ⟨first, parts, hparts, -⟩ := exists_around_zero pattern rest
    rw [hparts, List.modifyHead_cons]
    cases parts with
    | nil => simp
    | cons second parts => simp only [List.intercalate_cons_cons, List.cons_append]

/-- Each `part` around `pattern` is a part of `text`. -/
theorem infix_of_mem_around {skip : Nat} {text part : List Char}
    (h : part ∈ around pattern skip text) : part <:+: text := by
  fun_induction around pattern skip text with
  | case1 =>
    obtain rfl := List.mem_singleton.1 h
    exact List.nil_infix
  | case2 skip c rest ih => exact (ih h).trans (List.suffix_cons c rest).isInfix
  | case3 c rest hprefix ih =>
    rcases List.mem_cons.1 h with rfl | h
    · exact List.nil_infix
    · exact (ih h).trans (List.suffix_cons c rest).isInfix
  | case4 c rest hprefix ih =>
    obtain ⟨first, parts, hparts, hfirst⟩ := exists_around_zero pattern rest
    rw [hparts] at h ih
    rcases List.mem_cons.1 h with rfl | h
    · exact (List.cons_prefix_cons.2 ⟨rfl, hfirst⟩).isInfix
    · exact (ih (List.mem_cons_of_mem _ h)).trans (List.suffix_cons c rest).isInfix

/-- The `pattern` stands in no `part` around it. -/
theorem not_infix_of_mem_around (hne : pattern ≠ []) {skip : Nat} {text part : List Char}
    (h : part ∈ around pattern skip text) : ¬ pattern <:+: part := by
  have hnil : ¬ pattern <:+: [] := fun hin => hne (List.infix_nil.1 hin)
  fun_induction around pattern skip text generalizing part with
  | case1 =>
    rw [List.mem_singleton.1 h]
    exact hnil
  | case2 skip c rest ih => exact ih h
  | case3 c rest hprefix ih =>
    rcases List.mem_cons.1 h with rfl | h
    · exact hnil
    · exact ih h
  | case4 c rest hprefix ih =>
    obtain ⟨first, parts, hparts, hfirst⟩ := exists_around_zero pattern rest
    rw [hparts] at h ih
    rcases List.mem_cons.1 h with rfl | h
    · -- it would stand at the start of the text, or inside the first part
      intro hin
      rcases List.infix_cons_iff.1 hin with hstart | hinside
      · have htext : pattern <+: c :: rest :=
          hstart.trans (List.cons_prefix_cons.2 ⟨rfl, hfirst⟩)
        exact hprefix (List.isPrefixOf_iff_prefix.2 htext)
      · exact ih List.mem_cons_self hinside
    · exact ih (List.mem_cons_of_mem _ h)

end Stencil.Text
