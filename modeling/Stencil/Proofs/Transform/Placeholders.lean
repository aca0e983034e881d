import Mathlib.Data.List.Infix
import Stencil.Format

/-!
# Filling in a format at once

A format is read from left to right. Where a placeholder is written, its value is put in and the
reading goes on behind it; any other character is copied. Placeholders cannot overlap, because a
brace opens each of them and none has a second one. So the places that are found are all the places
where a placeholder is written, and they divide the format in one way only. What is put in has no
part in this.

Main definitions:

* `Piece`: a placeholder of a format, or a character that is copied.
* `Format.Splits`: pieces that make up a text, with all places of placeholders among them.

Main statements:

* `Placeholder.apart_of_ne`: places where placeholders are written do not overlap.
* `Format.exists_splits`: a text has such pieces, and to fill it in is to show each piece.
* `Format.splits_unique`: it has no others.
* `Format.render_simultaneous`: a format is filled in at all places at once.
-/

namespace Stencil

namespace Placeholder

variable {p q : Placeholder} {text before before' after after' : List Char}

/-- A brace opens `p.written`, and there is no other one in it. -/
theorem exists_written (p : Placeholder) : ∃ name, p.written = '{' :: name ∧ '{' ∉ name := by
  cases p <;> exact ⟨_, rfl, by decide⟩

theorem written_ne_nil (p : Placeholder) : p.written ≠ [] := by
  cases p <;> decide

/-- If `p` begins `q`, it is `q`. -/
theorem eq_of_begins (h : p.written <+: q.written) : p = q := by
  revert h
  cases p <;> cases q <;> decide

/-- The `text` starts with one placeholder at most. -/
theorem eq_of_prefix (hp : p.written <+: text) (hq : q.written <+: text) : p = q :=
  (List.prefix_or_prefix_of_prefix hp hq).elim eq_of_begins
    fun h => (eq_of_begins h).symm

theorem prefix_of_ahead?_eq_some (h : ahead? text = some p) : p.written <+: text := by
  have hprefix := List.find?_some (p := fun p : Placeholder => p.written.isPrefixOf text) h
  exact List.isPrefixOf_iff_prefix.1 hprefix

theorem ahead?_eq_some_iff : ahead? text = some p ↔ p.written <+: text := by
  refine ⟨prefix_of_ahead?_eq_some, fun hp => ?_⟩
  have hall : p ∈ all := by cases p <;> decide
  have hfound : (ahead? text).isSome :=
    List.find?_isSome.2 ⟨p, hall, List.isPrefixOf_iff_prefix.2 hp⟩
  obtain ⟨q, hq⟩ := Option.isSome_iff_exists.1 hfound
  rw [hq, eq_of_prefix hp (prefix_of_ahead?_eq_some hq)]

@[simp]
theorem ahead?_written_append (p : Placeholder) (rest : List Char) :
    ahead? (p.written ++ rest) = some p :=
  ahead?_eq_some_iff.2 (List.prefix_append _ _)

/-- The places where `p` and `q` are written are the same or do not overlap. -/
theorem apart_of_ne (h : before ++ p.written ++ after = before' ++ q.written ++ after')
    (hne : before ≠ before') (hle : before.length ≤ before'.length) :
    before ++ p.written <+: before' := by
  have hprefix : before <+: before ++ p.written ++ after :=
    ⟨p.written ++ after, by rw [List.append_assoc]⟩
  have hprefix' : before' <+: before ++ p.written ++ after :=
    ⟨q.written ++ after', by rw [h, List.append_assoc]⟩
  obtain ⟨middle, rfl⟩ := List.prefix_of_prefix_length_le hprefix hprefix' hle
  have hmiddle : p.written ++ after = middle ++ (q.written ++ after') := by
    simpa only [List.append_assoc, List.append_cancel_left_eq] using h
  refine (List.prefix_append_right_inj before).2 ?_
  rcases List.append_eq_append_iff.1 hmiddle with ⟨more, hmore, -⟩ | ⟨more, hmore, hq⟩
  · exact hmore ▸ List.prefix_append _ _
  · -- a brace that opens the second placeholder would stand within the first one
    cases more with
    | nil => exact ⟨[], by rw [hmore, List.append_nil, List.append_nil]⟩
    | cons c more =>
      obtain ⟨name, hname, hbrace⟩ := p.exists_written
      obtain ⟨name', hname', -⟩ := q.exists_written
      obtain ⟨first, middle, rfl⟩ : ∃ first rest, middle = first :: rest :=
        List.exists_cons_of_ne_nil fun hnil => hne (by rw [hnil, List.append_nil])
      rw [hname'] at hq
      obtain ⟨rfl, -⟩ := List.cons_eq_cons.1 hq
      rw [hname] at hmore
      obtain ⟨-, rfl⟩ := List.cons_eq_cons.1 hmore
      exact absurd (List.mem_append_right _ List.mem_cons_self) hbrace

end Placeholder

/-- A part of a format. -/
inductive Piece where
  /-- A character that is copied. -/
  | char (c : Char)
  /-- A placeholder, which is replaced. -/
  | placeholder (p : Placeholder)
deriving DecidableEq, Repr

namespace Piece

/-- How a piece is written. -/
def written : Piece → List Char
  | char c => [c]
  | placeholder p => p.written

/-- What stands in the place of a piece, if `value` tells what placeholders stand for. -/
def shown (value : Placeholder → List Char) : Piece → List Char
  | char c => [c]
  | placeholder p => value p

theorem written_ne_nil : (piece : Piece) → piece.written ≠ []
  | char c => List.cons_ne_nil c []
  | placeholder p => p.written_ne_nil

/-- If nothing is written in `pieces`, there are none. -/
theorem eq_nil_of_flatMap_written {pieces : List Piece} (h : pieces.flatMap written = []) :
    pieces = [] := by
  cases pieces with
  | nil => rfl
  | cons piece pieces =>
    rw [List.flatMap_cons, List.append_eq_nil_iff] at h
    exact absurd h.1 piece.written_ne_nil

end Piece

namespace Format

variable {value : Placeholder → List Char} {text rest : List Char} {pieces pieces' : List Piece}
  {piece : Piece} {p : Placeholder} {c : Char}

/-- The characters `chars`, which belong to the placeholder filled in last, are passed over. -/
theorem renderFrom_length_append (value : Placeholder → List Char) (chars rest : List Char) :
    renderFrom value chars.length (chars ++ rest) = renderFrom value 0 rest := by
  induction chars with
  | nil => rfl
  | cons c chars ih => exact ih

/-- Where `p` is written, `value p` is put in. -/
theorem renderFrom_written_append (value : Placeholder → List Char) (p : Placeholder)
    (rest : List Char) :
    renderFrom value 0 (p.written ++ rest) = value p ++ renderFrom value 0 rest := by
  have hahead := p.ahead?_written_append rest
  obtain ⟨name, hname, -⟩ := p.exists_written
  rw [hname, List.cons_append] at hahead ⊢
  simp only [renderFrom, hahead]
  rw [hname, List.length_cons, Nat.add_sub_cancel, renderFrom_length_append]

/-- Where no placeholder is written, the character `c` is copied. -/
theorem renderFrom_cons (value : Placeholder → List Char)
    (h : Placeholder.ahead? (c :: rest) = none) :
    renderFrom value 0 (c :: rest) = c :: renderFrom value 0 rest := by
  simp only [renderFrom, h]

/-- Induction on `text`, which is read by placeholders and by characters where none is written. -/
theorem scan_induction {motive : List Char → Prop} (nil : motive [])
    (placeholder : ∀ p rest, motive rest → motive (Placeholder.written p ++ rest))
    (char : ∀ c rest, Placeholder.ahead? (c :: rest) = none → motive rest → motive (c :: rest))
    (text : List Char) : motive text := by
  induction hlength : text.length using Nat.strong_induction_on generalizing text with
  | _ length ih =>
    subst hlength
    cases text with
    | nil => exact nil
    | cons c rest =>
      cases hahead : Placeholder.ahead? (c :: rest) with
      | none => exact char c rest hahead (ih _ (Nat.lt_succ_self _) rest rfl)
      | some p =>
        obtain ⟨behind, hbehind⟩ := Placeholder.ahead?_eq_some_iff.1 hahead
        -- a placeholder is written with some characters, so less text is left
        have hless : behind.length < (c :: rest).length := by
          rw [← hbehind, List.length_append]
          exact Nat.lt_add_of_pos_left (List.length_pos_of_ne_nil p.written_ne_nil)
        exact hbehind ▸ placeholder p behind (ih _ hless behind rfl)

/-- The pieces make up the text, and wherever a placeholder is written in it, it is one of them. -/
structure Splits (text : List Char) (pieces : List Piece) : Prop where
  /-- What the pieces write is the text. -/
  written : pieces.flatMap Piece.written = text
  /-- Every place where a placeholder is written is that of a piece. -/
  whole : ∀ before p after, text = before ++ Placeholder.written p ++ after →
    ∃ front back, pieces = front ++ .placeholder p :: back ∧ front.flatMap Piece.written = before

theorem splits_nil : Splits [] [] where
  written := rfl
  whole before p after h := by
    have hnil := (List.append_eq_nil_iff.1 (List.append_eq_nil_iff.1 h.symm).1).2
    exact absurd hnil p.written_ne_nil

/-- A placeholder `p` before `rest`, whose pieces are known, is one more piece. -/
theorem Splits.placeholder (h : Splits rest pieces) (p : Placeholder) :
    Splits (p.written ++ rest) (.placeholder p :: pieces) where
  written := by rw [List.flatMap_cons, h.written, Piece.written]
  whole before q after hplace := by
    rcases eq_or_ne before [] with rfl | hne
    · have hq : q.written <+: p.written ++ rest := ⟨after, hplace.symm⟩
      obtain rfl := Placeholder.eq_of_prefix hq (List.prefix_append p.written rest)
      exact ⟨[], pieces, rfl, rfl⟩
    · -- another one is behind it
      have hplaces : [] ++ p.written ++ rest = before ++ q.written ++ after := hplace
      obtain ⟨more, rfl⟩ : p.written <+: before :=
        Placeholder.apart_of_ne hplaces hne.symm (Nat.zero_le _)
      simp only [List.append_assoc, List.append_cancel_left_eq] at hplace
      rw [← List.append_assoc] at hplace
      obtain ⟨front, back, rfl, rfl⟩ := h.whole more q after hplace
      exact ⟨.placeholder p :: front, back, rfl, rfl⟩

/-- A character `c` at which no placeholder is written is one more piece before those of `rest`. -/
theorem Splits.char (h : Splits rest pieces) (hahead : Placeholder.ahead? (c :: rest) = none) :
    Splits (c :: rest) (.char c :: pieces) where
  written := by rw [List.flatMap_cons, h.written, Piece.written, List.singleton_append]
  whole before q after hplace := by
    cases before with
    | nil =>
      have hq : q.written <+: c :: rest := ⟨after, hplace.symm⟩
      rw [← Placeholder.ahead?_eq_some_iff, hahead] at hq
      cases hq
    | cons first before =>
      obtain ⟨rfl, hrest⟩ := List.cons_eq_cons.1 hplace
      obtain ⟨front, back, rfl, rfl⟩ := h.whole before q after hrest
      exact ⟨.char c :: front, back, rfl, rfl⟩

/-- The `text` has `pieces` with all its placeholders among them, and to fill it in is to show
each. -/
theorem exists_splits (text : List Char) :
    ∃ pieces, Splits text pieces ∧
      ∀ value, renderFrom value 0 text = pieces.flatMap (Piece.shown value) := by
  induction text using scan_induction with
  | nil => exact ⟨[], splits_nil, fun _ => rfl⟩
  | placeholder p rest ih =>
    obtain ⟨pieces, hsplits, hshown⟩ := ih
    refine ⟨.placeholder p :: pieces, hsplits.placeholder p, fun value => ?_⟩
    rw [renderFrom_written_append, hshown, List.flatMap_cons, Piece.shown]
  | char c rest hahead ih =>
    obtain ⟨pieces, hsplits, hshown⟩ := ih
    refine ⟨.char c :: pieces, hsplits.char hahead, fun value => ?_⟩
    rw [renderFrom_cons value hahead, hshown, List.flatMap_cons, Piece.shown,
      List.singleton_append]

/-- Behind `piece`, the first one, are the pieces of the text that is left. -/
theorem Splits.tail (h : Splits text (piece :: pieces)) :
    Splits (pieces.flatMap Piece.written) pieces where
  written := rfl
  whole before p after hplace := by
    have htext : text = piece.written ++ before ++ p.written ++ after := by
      rw [← h.written, List.flatMap_cons, hplace]
      simp only [List.append_assoc]
    -- a placeholder behind the first piece lies at a place of the whole text
    obtain ⟨front, back, heq, hfront⟩ := h.whole _ p after htext
    cases front with
    | nil =>
      have hnil := (List.append_eq_nil_iff.1 hfront.symm).1
      exact absurd hnil piece.written_ne_nil
    | cons first front =>
      obtain ⟨rfl, rfl⟩ := List.cons_eq_cons.1 heq
      rw [List.flatMap_cons, List.append_cancel_left_eq] at hfront
      exact ⟨front, back, rfl, hfront⟩

/-- The first `piece` of `text` is the placeholder `p` that it starts with. -/
theorem Splits.head (h : Splits text (piece :: pieces)) (hp : p.written <+: text) :
    piece = .placeholder p := by
  obtain ⟨after, hafter⟩ := hp
  obtain ⟨front, back, heq, hfront⟩ := h.whole [] p after hafter.symm
  obtain rfl := Piece.eq_nil_of_flatMap_written hfront
  exact (List.cons_eq_cons.1 heq).1

/-- No other `pieces'` than `pieces` make up `text` with all its placeholders among them. -/
theorem splits_unique (h : Splits text pieces) (h' : Splits text pieces') : pieces = pieces' := by
  induction pieces generalizing text pieces' with
  | nil =>
    have hnil : pieces'.flatMap Piece.written = [] := h'.written.trans h.written.symm
    exact (Piece.eq_nil_of_flatMap_written hnil).symm
  | cons piece pieces ih =>
    cases pieces' with
    | nil =>
      have hnil : (piece :: pieces).flatMap Piece.written = [] := h.written.trans h'.written.symm
      exact Piece.eq_nil_of_flatMap_written hnil
    | cons piece' pieces' =>
      -- what the text starts with decides about the first pieces
      have hhead : piece = piece' := by
        cases piece with
        | placeholder p => exact (h'.head ⟨_, h.written⟩).symm
        | char c =>
          cases piece' with
          | placeholder p => exact h.head ⟨_, h'.written⟩
          | char c' =>
            have hchars := h.written.trans h'.written.symm
            simp only [List.flatMap_cons, Piece.written, List.singleton_append] at hchars
            rw [(List.cons_eq_cons.1 hchars).1]
      subst hhead
      have hrest : pieces.flatMap Piece.written = pieces'.flatMap Piece.written := by
        have hboth := h.written.trans h'.written.symm
        rwa [List.flatMap_cons, List.flatMap_cons, List.append_cancel_left_eq] at hboth
      rw [ih h.tail (hrest ▸ h'.tail)]

/-- A `format` is filled in at all places at once. It has exactly one split into `pieces`,
characters and placeholders, in which no place of a placeholder is missed (`Splits`). The filled in
format is this split with `element`, `state.inner` and `state.iteration`, in decimal, in the places
of the placeholders, whatever these are, and all characters as they were. -/
theorem render_simultaneous (format : String) :
    ∃ pieces, (∀ other, Splits format.toList other ↔ other = pieces) ∧
      ∀ (element : String) (state : IterationState),
        (render format element state.view).toList =
          pieces.flatMap (Piece.shown fun
            | .element => element.toList
            | .literal => state.inner.toList
            | .iteration => Nat.toDigits 10 state.iteration) := by
  obtain ⟨pieces, hsplits, hshown⟩ := exists_splits format.toList
  refine ⟨pieces, fun other => ⟨fun h => splits_unique h hsplits, fun h => h ▸ hsplits⟩,
    fun element state => ?_⟩
  -- the view of a state tells its element, its text and its iteration
  have hvalue : Placeholder.value element state.view = fun
      | .element => element.toList
      | .literal => state.inner.toList
      | .iteration => Nat.toDigits 10 state.iteration := by
    funext p
    cases p with
    | element | literal => rfl
    | iteration => exact String.toList_ofList
  rw [render, String.toList_ofList, hshown, hvalue]

/-- What was put in is not read, and an unknown placeholder is copied. -/
example : render "{element}/{unknown}{iteration}" "{literal}" ⟨false, 0, "x", []⟩ =
    "{literal}/{unknown}0" := by
  decide

end Format

end Stencil
