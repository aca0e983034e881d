import Stencil.Alias

/-!
# Draws of several aliases

The aliases that are drawn one after the other for the same text are all different, occur nowhere
in it and consist of letters. A text that is shorter than an alias refuses no candidate, so its
first alias is known as soon as the letters of the generator are, and those can be computed.

Main definitions:

* `Generator.counting`: the generator of a seed, block after block.
* `AliasPool.Draws`: the aliases that are drawn from a pool, and what is left of it.
* `AliasPool.FailsWithin`: a draw fails before a number of aliases is drawn.

Main statements:

* `Generator.seeded_eq_counting`: it is `Generator.seeded`.
* `fresh?_of_length_lt`: the first alias for a short text.
* `draws_freshList`, `Draws.freshList_eq`: the next aliases are drawn, unless the patience of the
  pool runs out.
* `Draws.append_iff`: draws one after the other.
* `Draws.issued`: the aliases that a pool has issued in the end.
* `Draws.nodup`, `Draws.not_occurs`, `Draws.notMem_of_notMem_letters`, `Draws.length_toList`: what
  aliases are like.
-/

namespace Stencil

/-- The block that comes `steps` behind block `number`. -/
def ChaCha.blockFrom (key : Vector UInt32 8) : Nat → UInt64 → State
  | 0, number => block key number
  | steps + 1, number => blockFrom key steps (number + 1)

theorem ChaCha.blockFrom_eq (key : Vector UInt32 8) (steps : Nat) (number : UInt64) :
    blockFrom key steps number = block key (number + UInt64.ofNat steps) := by
  induction steps generalizing number with
  | zero => simp [blockFrom]
  | succ steps ih =>
    rw [blockFrom, ih, Nat.add_comm steps 1, UInt64.ofNat_add, ← UInt64.add_assoc]
    rfl

/-- A `position` of the stream has its place in a block of sixteen words. -/
theorem ChaCha.offset_lt (position : Nat) : position % 16 < 16 :=
  Nat.mod_lt position (Nat.succ_pos 15)

/-- The generator that `seed` determines, with its blocks counted from the first one. All the words
of a block are read from one term, so that the block is computed once where words are evaluated. -/
def Generator.counting (seed : UInt64) : Generator where
  word position :=
    (ChaCha.blockFrom (ChaCha.keyOfSeed seed) (position / 16) 0).get
      ⟨position % 16, ChaCha.offset_lt position⟩
  position := 0

theorem Generator.seeded_eq_counting (seed : UInt64) : seeded seed = counting seed := by
  rw [seeded, counting]
  congr 1
  funext position
  rw [ChaCha.blockFrom_eq, UInt64.zero_add]
  rfl

namespace AliasPool

/-- The aliases that are drawn from a pool, one after the other, and the pool that is left. -/
inductive Draws (avoid : List Char) : AliasPool → List String → AliasPool → Prop where
  /-- Nothing is drawn. -/
  | nil (pool : AliasPool) : Draws avoid pool [] pool
  /-- An alias is drawn, and then more of them. -/
  | cons {pool next pool' : AliasPool} {name : String} {names : List String}
      (head : pool.fresh? avoid = some (name, next)) (tail : Draws avoid next names pool') :
      Draws avoid pool (name :: names) pool'

variable {avoid : List Char} {pool pool' : AliasPool} {names : List String}

/-- The aliases of `freshList` are drawn. They are as many as are asked for, unless the draw behind
the last of them fails. -/
theorem draws_freshList (avoid : List Char) (count : Nat) (pool : AliasPool) :
    ∃ pool', Draws avoid pool (pool.freshList avoid count) pool' ∧
      ((pool.freshList avoid count).length = count ∨
        (pool.freshList avoid count).length < count ∧ pool'.fresh? avoid = none) := by
  induction count generalizing pool with
  | zero => exact ⟨pool, .nil pool, .inl rfl⟩
  | succ count ih =>
    rw [freshList]
    cases hfresh : pool.fresh? avoid with
    | none => exact ⟨pool, .nil pool, .inr ⟨Nat.succ_pos count, hfresh⟩⟩
    | some drawn =>
      obtain ⟨pool', hdraws, hlength⟩ := ih drawn.2
      refine ⟨pool', .cons hfresh hdraws, ?_⟩
      simpa only [List.length_cons, Nat.add_right_cancel_iff, Nat.add_lt_add_iff_right]
        using hlength

/-- No candidate occurs in a text `avoid` that is shorter than an alias, so the first one is
taken. -/
theorem drawFresh_of_length_lt (hlength : avoid.length < aliasLength) {patience : Nat}
    (hpatience : 0 < patience) (g : Generator) :
    drawFresh avoid [] patience g =
      some (String.ofList (drawLetters aliasLength g).1, (drawLetters aliasLength g).2) := by
  obtain ⟨patience, rfl⟩ := Nat.exists_eq_add_of_lt hpatience
  have hoccurs : Text.occurs (drawLetters aliasLength g).1 avoid = false := by
    rw [← Bool.not_eq_true, Text.occurs_iff]
    intro hin
    have hle := hin.length_le
    rw [drawLetters_length] at hle
    exact absurd hle (Nat.not_le_of_lt hlength)
  rw [drawFresh, hoccurs, List.contains_nil]
  exact if_neg (by decide)

/-- The first alias for a text `avoid` that is shorter than an alias is `name`, if these are the
first letters that `pool.generator` gives. -/
theorem fresh?_of_length_lt (hissued : pool.issued = []) (hpatience : 0 < pool.patience)
    (hlength : avoid.length < aliasLength) {name : String} {rest : Generator}
    (hdrawn : drawLetters aliasLength pool.generator = (name.toList, rest)) :
    pool.fresh? avoid = some (name, { pool with generator := rest, issued := [name] }) := by
  rw [fresh?, hissued, drawFresh_of_length_lt hlength hpatience, hdrawn, Option.map_some,
    String.ofList_toList]

/-- An alias `name` that is drawn is issued from then on. -/
theorem issued_of_fresh? {next : AliasPool} {name : String}
    (h : pool.fresh? avoid = some (name, next)) : next.issued = name :: pool.issued := by
  obtain ⟨drawn, -, heq⟩ := Option.map_eq_some_iff.1 h
  simp only [Prod.mk.injEq] at heq
  rw [← heq.2, ← heq.1]

namespace Draws

/-- Draws of `names ++ more` are draws of `names` and then, from the pool `next` that is left, of
`more`. -/
theorem append_iff {more : List String} :
    Draws avoid pool (names ++ more) pool' ↔
      ∃ next, Draws avoid pool names next ∧ Draws avoid next more pool' := by
  constructor
  · intro h
    induction names generalizing pool with
    | nil => exact ⟨pool, .nil pool, h⟩
    | cons name names ih =>
      cases h with
      | cons head tail =>
        obtain ⟨next, hnames, hmore⟩ := ih tail
        exact ⟨next, .cons head hnames, hmore⟩
  · rintro ⟨next, hnames, hmore⟩
    induction hnames with
    | nil => exact hmore
    | cons head _ ih => exact .cons head (ih hmore)

/-- No alias in `names` is issued by `pool` already, and none is drawn twice. -/
theorem nodup_append_issued (h : Draws avoid pool names pool') :
    names.Nodup ∧ ∀ name ∈ names, name ∉ pool.issued := by
  induction h with
  | nil => simp
  | @cons pool next pool' name names head _ ih =>
    -- the alias drawn first is among the issued ones when the others are drawn
    rw [issued_of_fresh? head] at ih
    refine ⟨List.nodup_cons.2 ⟨fun hmem => ih.2 name hmem List.mem_cons_self, ih.1⟩, ?_⟩
    intro other hother
    rcases List.mem_cons.1 hother with rfl | hother
    · exact not_mem_issued_of_fresh? head
    · exact fun hmem => ih.2 other hother (List.mem_cons_of_mem _ hmem)

/-- The `names` that are drawn are issued by `pool'`, the last one first. -/
theorem issued (h : Draws avoid pool names pool') :
    pool'.issued = names.reverse ++ pool.issued := by
  induction h with
  | nil => rfl
  | cons head _ ih =>
    rw [ih, issued_of_fresh? head]
    simp

/-- Behind a draw that fails there are no more aliases than `names`, however large `count` is. -/
theorem freshList_eq (h : Draws avoid pool names pool') (hfails : pool'.fresh? avoid = none)
    {count : Nat} (hlt : names.length < count) : pool.freshList avoid count = names := by
  induction h generalizing count with
  | nil pool =>
    obtain ⟨count, rfl⟩ := Nat.exists_eq_add_of_lt hlt
    rw [freshList, hfails]
  | cons head _ ih =>
    obtain ⟨count, rfl⟩ := Nat.exists_eq_add_of_lt hlt
    rw [freshList, head]
    simp only
    rw [ih hfails (by simp at hlt ⊢; omega)]

/-- No alias in `names` is drawn twice. -/
theorem nodup (h : Draws avoid pool names pool') : names.Nodup :=
  h.nodup_append_issued.1

/-- No alias `name` that is drawn occurs in the text `avoid`. -/
theorem not_occurs (h : Draws avoid pool names pool') {name : String} (hname : name ∈ names) :
    Text.occurs name.toList avoid = false := by
  induction h with
  | nil => simp at hname
  | cons head _ ih =>
    rcases List.mem_cons.1 hname with rfl | hname
    · exact not_occurs_of_fresh? head
    · exact ih hname

/-- An alias `name` consists of letters that some generator has given. -/
theorem exists_drawLetters (h : Draws avoid pool names pool') {name : String}
    (hname : name ∈ names) : ∃ g, name.toList = (drawLetters aliasLength g).1 := by
  induction h with
  | nil => simp at hname
  | cons head _ ih =>
    rcases List.mem_cons.1 hname with rfl | hname
    · obtain ⟨⟨drawn, g⟩, hdraw, heq⟩ := Option.map_eq_some_iff.1 head
      simp only [Prod.mk.injEq] at heq
      obtain ⟨⟨g, hletters⟩, -⟩ := of_drawFresh hdraw
      exact ⟨g, by rw [← heq.1, hletters, String.toList_ofList]⟩
    · exact ih hname

/-- A character `c` that is not among `letters` is not in an alias. -/
theorem notMem_of_notMem_letters (h : Draws avoid pool names pool') {name : String}
    (hname : name ∈ names) {c : Char} (hc : c ∉ letters) : c ∉ name.toList := by
  obtain ⟨g, hletters⟩ := h.exists_drawLetters hname
  rw [hletters]
  exact fun hmem => hc (mem_letters_of_mem_drawLetters hmem)

/-- Aliases all have `aliasLength` characters. -/
theorem length_toList (h : Draws avoid pool names pool') {name : String}
    (hname : name ∈ names) : name.toList.length = aliasLength := by
  obtain ⟨g, hletters⟩ := h.exists_drawLetters hname
  rw [hletters, drawLetters_length]

end Draws

/-- If `count` aliases can be drawn, fewer of them can. -/
theorem length_freshList_of_le {count fewer : Nat} (hle : fewer ≤ count)
    (h : (pool.freshList avoid count).length = count) :
    (pool.freshList avoid fewer).length = fewer := by
  obtain ⟨pool', hdraws, hall | ⟨hlt, hfails⟩⟩ := draws_freshList avoid fewer pool
  · exact hall
  · rw [hdraws.freshList_eq hfails (Nat.lt_of_lt_of_le hlt hle)] at h
    omega

/-- A draw from the pool fails, and fewer than `bound` aliases are drawn before. -/
def FailsWithin (pool : AliasPool) (avoid : List Char) (bound : Nat) : Prop :=
  ∃ names pool', Draws avoid pool names pool' ∧ pool'.fresh? avoid = none ∧ names.length < bound

namespace FailsWithin

variable {bound count : Nat}

/-- A draw that fails within `bound` of `pool'` fails within `names.length + bound` of `pool`, from
which `names` are drawn before. -/
theorem after (hdraws : Draws avoid pool names pool') (h : pool'.FailsWithin avoid bound)
    (hle : names.length + bound ≤ count) : pool.FailsWithin avoid count := by
  obtain ⟨more, last, hmore, hfails, hlt⟩ := h
  refine ⟨names ++ more, last, Draws.append_iff.2 ⟨pool', hdraws, hmore⟩, hfails, ?_⟩
  rw [List.length_append]
  omega

theorem mono (h : pool.FailsWithin avoid bound) (hle : bound ≤ count) :
    pool.FailsWithin avoid count :=
  h.after (.nil pool) (by simpa using hle)

/-- So `bound` aliases cannot be drawn. -/
theorem length_freshList_ne (h : pool.FailsWithin avoid bound) :
    (pool.freshList avoid bound).length ≠ bound := by
  obtain ⟨names, pool', hdraws, hfails, hlt⟩ := h
  rw [hdraws.freshList_eq hfails hlt]
  exact Nat.ne_of_lt hlt

end FailsWithin

end AliasPool

end Stencil
