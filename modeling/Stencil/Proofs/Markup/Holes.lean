import Stencil.Proofs.Text.Replacing
import Stencil.Substitution

/-!
# Texts with holes

A text with holes is a row of texts and holes. It is spelled with an alias in the place of each
hole, and a substitution for the alias fills the hole, if the alias is read nowhere else.

Main definitions:

* `Chunk`: a text or a hole.
* `OnlyAtHoles`: whether an alias is read only where its holes are.
* `Undisturbed`: whether this is so for each of several substitutions when it is its turn.

Main statements:

* `onlyAtHoles_cons_iff`: an alias is sought from left to right.
* `replace_spell`: a substitution fills holes.
* `substitute_spell`: so do several.
* `fillAll_hole`: of several substitutions for a hole the first one fills it.
-/

namespace Stencil

/-- A piece of a text with holes. -/
inductive Chunk where
  /-- Text. -/
  | text (chars : List Char)
  /-- A hole, known by its alias. -/
  | hole (aliasName : String)
deriving DecidableEq, Repr

namespace Chunk

/-- A piece, with its alias in the place of a hole. -/
def spell : Chunk → List Char
  | .text chars => chars
  | .hole aliasName => aliasName.toList

/-- A piece, after `sub` fills it, if it is a hole for `sub.aliasName`. -/
def fill (sub : Substitution) : Chunk → Chunk
  | .text chars => .text chars
  | .hole aliasName =>
    if aliasName = sub.aliasName then .text sub.value.toList else .hole aliasName

/-- A piece, after the substitutions `subs` one after the other. -/
def fillAll (subs : List Substitution) (chunk : Chunk) : Chunk :=
  subs.foldl (fun chunk sub => chunk.fill sub) chunk

theorem fillAll_text (subs : List Substitution) (chars : List Char) :
    fillAll subs (.text chars) = .text chars := by
  induction subs with
  | nil => rfl
  | cons sub subs ih => exact ih

/-- A hole for `aliasName` is filled by the first of `subs` for this alias. -/
theorem fillAll_hole (subs : List Substitution) (aliasName : String) :
    fillAll subs (.hole aliasName) =
      ((subs.find? fun sub => sub.aliasName = aliasName).map fun sub =>
        Chunk.text sub.value.toList).getD (.hole aliasName) := by
  induction subs with
  | nil => rfl
  | cons sub subs ih =>
    rw [fillAll, List.foldl_cons]
    by_cases heq : sub.aliasName = aliasName
    · -- filled once, it is text
      rw [fill, if_pos heq.symm, List.find?_cons_of_pos (by simpa using heq)]
      exact fillAll_text subs _
    · rw [fill, if_neg (Ne.symm heq), List.find?_cons_of_neg (by simpa using heq)]
      exact ih

end Chunk

/-- A text with holes, with aliases in the places of the holes. -/
def spell (chunks : List Chunk) : List Char :=
  chunks.flatMap Chunk.spell

@[simp]
theorem spell_cons (chunk : Chunk) (chunks : List Chunk) :
    spell (chunk :: chunks) = chunk.spell ++ spell chunks := rfl

/-- The alias is read only at its holes: wherever `aliasName` stands in the text of `chunks`, there
is a hole for it. -/
def OnlyAtHoles (aliasName : String) (chunks : List Chunk) : Prop :=
  ∀ place, aliasName.toList <+: (spell chunks).drop place →
    ∃ left right, chunks = left ++ .hole aliasName :: right ∧ (spell left).length = place

/-- Within `chunk`, in front of `rest`, `aliasName` stands nowhere but at the start, and there only
if `chunk` is a hole for it. -/
def Clear (aliasName : String) (chunk : Chunk) (rest : List Char) : Prop :=
  ∀ place < chunk.spell.length, aliasName.toList <+: (chunk.spell ++ rest).drop place →
    chunk = .hole aliasName ∧ place = 0

instance (aliasName : String) (chunk : Chunk) (rest : List Char) :
    Decidable (Clear aliasName chunk rest) :=
  inferInstanceAs (Decidable (∀ place < chunk.spell.length,
    aliasName.toList <+: (chunk.spell ++ rest).drop place → chunk = .hole aliasName ∧ place = 0))

section OnlyAtHoles

variable {aliasName : String} {chunk : Chunk} {chunks : List Chunk}

/-- What is read only at holes is not empty, as `""` stands everywhere. -/
theorem OnlyAtHoles.ne_empty (h : OnlyAtHoles aliasName chunks) : aliasName ≠ "" := by
  rintro rfl
  -- the empty alias would stand even behind the end of the text
  obtain ⟨left, right, hsplit, hleft⟩ := h ((spell chunks).length + 1) (by simp)
  have hlength := congrArg (fun chunks => (spell chunks).length) hsplit
  simp [spell] at hlength hleft
  omega

theorem onlyAtHoles_nil_iff : OnlyAtHoles aliasName [] ↔ aliasName ≠ "" := by
  refine ⟨OnlyAtHoles.ne_empty, fun hne place hprefix => ?_⟩
  simp [spell] at hprefix
  exact absurd hprefix hne

/-- An alias is read only at its holes exactly when it is `Clear` in the first `chunk` and read only
at its holes in `chunks` behind it. -/
theorem onlyAtHoles_cons_iff :
    OnlyAtHoles aliasName (chunk :: chunks) ↔
      Clear aliasName chunk (spell chunks) ∧ OnlyAtHoles aliasName chunks := by
  constructor
  · intro h
    constructor
    · intro place hplace hprefix
      obtain ⟨left, right, hsplit, hleft⟩ := h place hprefix
      cases left with
      | nil =>
        rw [List.nil_append, List.cons.injEq] at hsplit
        exact ⟨hsplit.1, hleft.symm⟩
      | cons first left =>
        -- such a hole lies behind the first piece
        rw [List.cons_append, List.cons.injEq] at hsplit
        rw [← hsplit.1, spell_cons, List.length_append] at hleft
        omega
    · intro place hprefix
      obtain ⟨left, right, hsplit, hleft⟩ := h (chunk.spell.length + place) (by
        rwa [spell_cons, List.drop_append, List.drop_eq_nil_of_le (Nat.le_add_right _ _),
          List.nil_append, Nat.add_sub_cancel_left])
      cases left with
      | nil =>
        -- a hole at the very start would be spelled as nothing
        rw [List.nil_append, List.cons.injEq] at hsplit
        rw [hsplit.1, Chunk.spell, show spell [] = [] from rfl, List.length_nil] at hleft
        have hempty : aliasName.toList = [] := List.eq_nil_of_length_eq_zero (by omega)
        exact absurd (by simpa using hempty) h.ne_empty
      | cons first left =>
        rw [List.cons_append, List.cons.injEq] at hsplit
        rw [← hsplit.1, spell_cons, List.length_append] at hleft
        exact ⟨left, right, hsplit.2, by omega⟩
  · rintro ⟨hclear, hrest⟩ place hprefix
    by_cases hplace : place < chunk.spell.length
    · obtain ⟨rfl, rfl⟩ := hclear place hplace hprefix
      exact ⟨[], chunks, rfl, rfl⟩
    · rw [spell_cons, List.drop_append, List.drop_eq_nil_of_le (Nat.not_lt.1 hplace),
        List.nil_append] at hprefix
      obtain ⟨left, right, rfl, hleft⟩ := hrest _ hprefix
      refine ⟨chunk :: left, right, rfl, ?_⟩
      rw [spell_cons, List.length_append, hleft]
      omega

end OnlyAtHoles

instance decidableOnlyAtHoles (aliasName : String) :
    (chunks : List Chunk) → Decidable (OnlyAtHoles aliasName chunks)
  | [] => decidable_of_iff _ onlyAtHoles_nil_iff.symm
  | _ :: chunks =>
    have := decidableOnlyAtHoles aliasName chunks
    decidable_of_iff _ onlyAtHoles_cons_iff.symm

/-- If `sub.aliasName` is read only at its holes, `sub` fills these. -/
theorem replace_spell {sub : Substitution} {chunks : List Chunk}
    (h : OnlyAtHoles sub.aliasName chunks) :
    sub.apply (spell chunks) = spell (chunks.map (Chunk.fill sub)) := by
  have hne : sub.aliasName.toList ≠ [] := by simpa using h.ne_empty
  rw [Substitution.apply, Text.replace, if_neg (by simpa using hne)]
  induction chunks with
  | nil => rfl
  | cons chunk chunks ih =>
    obtain ⟨hclear, hrest⟩ := onlyAtHoles_cons_iff.1 h
    rw [spell_cons, List.map_cons, spell_cons, ← ih hrest]
    by_cases hhole : chunk = .hole sub.aliasName
    · rw [hhole, Chunk.fill, if_pos rfl]
      exact Text.replaceFrom_self hne _ _
    · -- any other piece is copied, as the alias does not stand in it
      have hkeep : chunk.fill sub = chunk := by
        cases chunk with
        | text chars => rfl
        | hole other =>
          rw [Chunk.fill, if_neg]
          rintro rfl
          exact hhole rfl
      rw [hkeep]
      refine Text.replaceFrom_append fun place hplace hprefix => ?_
      exact hhole (hclear place hplace hprefix).1

/-- Substitutions do not disturb each other: when it is the turn of `sub`, its alias is read only at
the holes that the ones before have left. -/
def Undisturbed : List Substitution → List Chunk → Prop
  | [], _ => True
  | sub :: subs, chunks =>
    OnlyAtHoles sub.aliasName chunks ∧ Undisturbed subs (chunks.map (Chunk.fill sub))

instance decidableUndisturbed :
    (subs : List Substitution) → (chunks : List Chunk) → Decidable (Undisturbed subs chunks)
  | [], _ => inferInstanceAs (Decidable True)
  | sub :: subs, chunks =>
    have := decidableUndisturbed subs (chunks.map (Chunk.fill sub))
    inferInstanceAs (Decidable
      (OnlyAtHoles sub.aliasName chunks ∧ Undisturbed subs (chunks.map (Chunk.fill sub))))

/-- If `subs` are `Undisturbed`, they fill the holes for their aliases. -/
theorem substitute_spell {subs : List Substitution} {chunks : List Chunk}
    (h : Undisturbed subs chunks) :
    substitute subs (spell chunks) = spell (chunks.map (Chunk.fillAll subs)) := by
  induction subs generalizing chunks with
  | nil =>
    rw [substitute_nil, show Chunk.fillAll [] = id from rfl, List.map_id]
  | cons sub subs ih =>
    rw [substitute_cons, replace_spell h.1, ih h.2, List.map_map]
    rfl

end Stencil
