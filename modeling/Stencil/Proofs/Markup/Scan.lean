import Stencil.Proofs.Markup.Document
import Stencil.Proofs.Text.Splitting

/-!
# Scanning a text of known parts

A scan looks for the first open tag for its name, and what stands before it comes through as it is.
So a text in front of another one makes no difference to the scan of the other one, if no open tag
starts in it.

Main definitions:

* `Site.Passed`: a text is passed over in the search for open tags.
* `Inert`: text in which no tag of a family starts.
* `Region.bindings`: the names that some regions bind, in order.

Main statements:

* `scan_of_site`: how a scan goes on from what it finds.
* `scan_append`: a scan behind a text that is passed over.
* `Inert.passed`, `Inert.occurs_closeTag`: what inert text means to a scan and to the mode.
-/

namespace Stencil

/-! ### Text that is passed over -/

namespace Site

/-- The `site` with `start` before it. -/
def behind (start : List Char) (site : Site) : Site :=
  { site with before := start ++ site.before }

/-- A text is passed over in the search for open tags that start with `opening`. -/
def Passed (opening close text rest : List Char) : Prop :=
  splitOpen opening close (text ++ rest) =
    (splitOpen opening close rest).map fun parts => (text ++ parts.1, parts.2)

variable {opening close text rest : List Char}

theorem passed_nil : Passed opening close [] rest := by
  simp [Passed]

/-- If `text` and then `more` are passed over, both are passed over together. -/
theorem Passed.append {more : List Char} (h : Passed opening close text (more ++ rest))
    (hmore : Passed opening close more rest) : Passed opening close (text ++ more) rest := by
  rw [Passed, List.append_assoc, h, hmore]
  cases splitOpen opening close rest <;> simp

/-- The character `c` is passed over unless an open tag starts there that is no close tag. -/
theorem passed_singleton {c : Char}
    (h : opening.isPrefixOf (c :: rest) = false ∨ close.isPrefixOf (c :: rest) = true) :
    Passed opening close [c] rest := by
  -- the condition under which `splitOpen` stops at the character
  have hopen : (opening.isPrefixOf (c :: rest) && !close.isPrefixOf (c :: rest)) = false := by
    rcases h with h | h <;> simp [h]
  simp [Passed, splitOpen, hopen]

/-- Behind a `text` that is passed over, the same site is found. -/
theorem locate_append {family : Family} {name : String}
    (h : Passed (family.openPrefix name.toList) family.closeTag text rest) :
    locate family name (text ++ rest) =
      (locate family name rest).map (Option.map (behind text)) := by
  -- the close tag and the `]` are sought behind the bracket, which is the same on both sides
  simp only [locate]
  rw [h]
  cases splitOpen (family.openPrefix name.toList) family.closeTag rest with
  | none => rfl
  | some parts =>
    simp only [Option.map_some]
    split
    · rfl
    · split <;> rfl

end Site

namespace Scanned

theorem behind_behind (first second : List Char) (scanned : Scanned) :
    (scanned.behind second).behind first = scanned.behind (first ++ second) := by
  simp [behind]

theorem behind_withRegion (first second : List Char) (region : Region) (scanned : Scanned) :
    (scanned.withRegion second region).behind first =
      scanned.withRegion (first ++ second) region := by
  simp [behind, withRegion]

end Scanned

/-- The names that `regions` bind, in order. -/
def Region.bindings (regions : List Region) : List String :=
  regions.flatMap (·.names)

theorem Region.bindings_append (regions more : List Region) :
    bindings (regions ++ more) = bindings regions ++ bindings more := by
  simp [bindings]

namespace Search

variable (search : Search) (earlier : List Region) (pool : AliasPool) {text rest : List Char}

/-- A clash is with the names that the regions found `earlier` bind. -/
theorem clash?_eq (names : List String) :
    search.clash? names earlier =
      if search.family.bindsOnce then names.find? (Region.bindings earlier).contains else none := by
  have hbound : (fun name => earlier.any fun region => region.names.contains name) =
      (Region.bindings earlier).contains := by
    funext name
    rw [Bool.eq_iff_iff, List.any_eq_true, List.contains_iff_mem, Region.bindings, List.mem_flatMap]
    simp only [List.contains_iff_mem]
  rw [clash?, hbound]

/-- A scan that finds no site leaves `text` as it is. -/
theorem scan_of_none (h : Site.locate search.family search.name text = .ok none) :
    search.scan earlier pool text = .ok ⟨text, [], pool⟩ := by
  rw [scan]
  split <;> simp_all

theorem scan_of_error {error : SetupError}
    (h : Site.locate search.family search.name text = .error error) :
    search.scan earlier pool text = .error error := by
  rw [scan]
  split <;> simp_all

/-- A scan goes on from `site` as its heading asks for. -/
theorem scan_of_site {site : Site}
    (h : Site.locate search.family search.name text = .ok (some site)) :
    search.scan earlier pool text =
      match search.boundNames site.heading with
      | .error error => .error error
      | .ok none => (search.scan earlier pool site.rest).map (·.behind (site.before ++ ['[']))
      | .ok (some names) =>
        match search.clash? names earlier with
        | some name => .error (.duplicateBinding search.family name)
        | none =>
          match pool.fresh? search.avoid with
          | none => .error .noFreshAlias
          | some (aliasName, pool) =>
            let region : Region :=
              ⟨String.ofList site.heading, names, aliasName, String.ofList site.literal⟩
            (search.scan (earlier ++ [region]) pool site.after).map
              (·.withRegion site.before region) := by
  rw [scan]
  split
  · simp_all
  · simp_all
  · -- the site that the scan names in its match is the one found
    rename_i found hfound
    rw [h] at hfound
    simp only [Except.ok.injEq, Option.some.injEq] at hfound
    subst hfound
    rfl

/-- A scan passes over a `text` in which it finds no open tag. -/
theorem scan_append
    (h : Site.Passed (search.family.openPrefix search.name.toList) search.family.closeTag
      text rest) :
    search.scan earlier pool (text ++ rest) =
      (search.scan earlier pool rest).map (·.behind text) := by
  have happend : Site.locate search.family search.name (text ++ rest) =
      (Site.locate search.family search.name rest).map (Option.map (Site.behind text)) :=
    Site.locate_append h
  cases hrest : Site.locate search.family search.name rest with
  | error error =>
    rw [hrest] at happend
    rw [scan_of_error search earlier pool hrest, scan_of_error search earlier pool happend]
    rfl
  | ok found =>
    rw [hrest] at happend
    cases found with
    | none =>
      rw [scan_of_none search earlier pool hrest, scan_of_none search earlier pool happend]
      rfl
    | some site =>
      -- only the text before the site differs
      rw [scan_of_site search earlier pool hrest, scan_of_site search earlier pool happend]
      simp only [Site.behind]
      split
      · rfl
      · cases search.scan earlier pool site.rest <;> simp [Except.map, Scanned.behind_behind]
      · split
        · rfl
        · split
          · rfl
          · generalize search.scan (earlier ++ [_]) _ site.after = outcome
            cases outcome <;> simp [Except.map, Scanned.behind_withRegion]

end Search

/-! ### Text without tags of a family -/

/-- Text in which no tag of `family` starts: a character other than its sigil stands behind each
bracket. -/
def Inert (family : Family) : List Char → Prop
  | [] => True
  | c :: rest => (c = '[' → ∃ d ∈ rest.head?, d ≠ family.sigil) ∧ Inert family rest

/-- A `text` without brackets is inert. -/
theorem inert_of_notMem (family : Family) {text : List Char} (h : '[' ∉ text) :
    Inert family text := by
  induction text with
  | nil => trivial
  | cons c text ih =>
    obtain ⟨hne, hrest⟩ := not_or.1 (mt List.mem_cons.2 h)
    exact ⟨fun hc => absurd hc.symm hne, ih hrest⟩

/-- A tag with another `sigil` than that of `family` is inert. -/
theorem inert_tag {family : Family} {sigil : Char} {text : List Char} (hne : sigil ≠ family.sigil)
    (h : '[' ∉ sigil :: text) : Inert family ('[' :: sigil :: text) :=
  ⟨fun _ => ⟨sigil, rfl, hne⟩, inert_of_notMem family h⟩

namespace Inert

variable {family : Family} {text : List Char}

theorem append {more : List Char} (h : Inert family text) (hmore : Inert family more) :
    Inert family (text ++ more) := by
  induction text with
  | nil => exact hmore
  | cons c text ih =>
    refine ⟨fun hc => ?_, ih h.2⟩
    obtain ⟨d, hd, hne⟩ := h.1 hc
    exact ⟨d, by simp [Option.mem_def.1 hd], hne⟩

/-- What `write` makes of `items` is inert, if it is for each `item`. -/
theorem flatMap {α : Type} {write : α → List Char} {items : List α}
    (h : ∀ item ∈ items, Inert family (write item)) : Inert family (items.flatMap write) := by
  induction items with
  | nil => trivial
  | cons item items ih =>
    rw [List.flatMap_cons]
    exact (h item List.mem_cons_self).append
      (ih fun other hother => h other (List.mem_cons_of_mem _ hother))

/-- No tag of `family` starts with the first character `c` of an inert text, whatever follows. -/
theorem not_prefix {c : Char} (h : Inert family (c :: text)) (tag rest : List Char) :
    ¬ '[' :: family.sigil :: tag <+: c :: (text ++ rest) := by
  intro hprefix
  obtain ⟨hc, htail⟩ := List.cons_prefix_cons.1 hprefix
  obtain ⟨d, hd, hne⟩ := h.1 hc.symm
  -- the character behind the bracket would have to be the sigil
  cases text with
  | nil => simp at hd
  | cons e text =>
    rw [List.cons_append] at htail
    simp only [List.head?_cons, Option.mem_def, Option.some.injEq] at hd
    exact hne (hd ▸ (List.cons_prefix_cons.1 htail).1.symm)

/-- Inert `text` is passed over, whatever the `name` is. -/
theorem passed (h : Inert family text) (name close rest : List Char) :
    Site.Passed (family.openPrefix name) close text rest := by
  induction text with
  | nil => exact Site.passed_nil
  | cons c text ih =>
    -- no open tag starts at the first character, and the rest is passed over in its turn
    rw [← List.singleton_append]
    refine Site.Passed.append (Site.passed_singleton (.inl ?_)) (ih h.2)
    rw [← Bool.not_eq_true, List.isPrefixOf_iff_prefix]
    exact h.not_prefix name rest

/-- The close tag of `family` does not occur in inert `text`. -/
theorem occurs_closeTag (h : Inert family text) : Text.occurs family.closeTag text = false := by
  rw [← Bool.not_eq_true, Text.occurs_iff]
  induction text with
  | nil => simp [Family.closeTag]
  | cons c text ih =>
    rw [List.infix_cons_iff, not_or]
    -- the tag starts neither at the first character nor behind it
    refine ⟨?_, ih h.2⟩
    have hprefix := h.not_prefix ['e', 'n', 'd', ']'] []
    rwa [List.append_nil] at hprefix

end Inert

end Stencil
