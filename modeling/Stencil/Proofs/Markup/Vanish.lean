import Stencil.Chain
import Stencil.Proofs.Markup.Unclosed
import Stencil.Proofs.Text.Replacing

/-!
# Aliases vanish

A payload is made by replacing aliases, so in the end none should be left. An alias is gone once it
was replaced, unless the value that replaces it has an alias in it, or one comes about where a value
meets the text around it. Values that are the texts of regions have an alias in them when a region
lies inside another one and is read before it. When no alias lies inside, these texts are what the
source has between the tags.

Main definitions:

* `FreeOf`: a text without aliases.
* `Seamless`, `AllSeamless`, `Discreet`, `SeamlessFill`: no alias comes about by chance, where
  values are joined to a text, in what a chain makes of a text, and in both when persistent regions
  are filled.
* `Template.aliases`: the aliases of a template.
* `Template.PlainLiterals`, `Template.PlainBodies`: no region was read with another one inside.

Main statements:

* `infix_of_infix_substitute`, `infix_of_infix_applyPersistent`: which aliases are left.
* `freeOf_of_applyPersistent`: none is left in a payload.
* `mem_aliases_iff_of_parse`: the aliases of a template are those that were issued.
* `written_of_parse`: the text of a region without aliases is as it was written.
-/

namespace Stencil

/-- None of `aliases` occurs in `text`. -/
def FreeOf (aliases : List String) (text : List Char) : Prop :=
  ∀ aliasName ∈ aliases, ¬ aliasName.toList <:+: text

instance (aliases : List String) (text : List Char) : Decidable (FreeOf aliases text) :=
  inferInstanceAs (Decidable (∀ aliasName ∈ aliases, ¬ aliasName.toList <:+: text))

/-! ### Substitutions -/

section Substitutions

/-- Where `sub.value` is joined to the parts of `text` around the places of its alias, no alias
comes about: every one in the whole is in the value or in one of the parts. -/
def Seamless (aliases : List String) (sub : Substitution) (text : List Char) : Prop :=
  ∀ aliasName ∈ aliases,
    aliasName.toList <:+: sub.value.toList.intercalate (Text.around sub.aliasName.toList 0 text) →
      aliasName.toList <:+: sub.value.toList ∨
        ∃ part ∈ Text.around sub.aliasName.toList 0 text, aliasName.toList <:+: part

instance (aliases : List String) (sub : Substitution) (text : List Char) :
    Decidable (Seamless aliases sub text) :=
  inferInstanceAs (Decidable (∀ aliasName ∈ aliases,
    aliasName.toList <:+: sub.value.toList.intercalate (Text.around sub.aliasName.toList 0 text) →
      aliasName.toList <:+: sub.value.toList ∨
        ∃ part ∈ Text.around sub.aliasName.toList 0 text, aliasName.toList <:+: part))

/-- No one of `aliases` comes about while values are put into a text one after the other. -/
def AllSeamless (aliases : List String) : List Substitution → List Char → Prop
  | [], _ => True
  | sub :: subs, text => Seamless aliases sub text ∧ AllSeamless aliases subs (sub.apply text)

instance decidableAllSeamless (aliases : List String) :
    (subs : List Substitution) → (text : List Char) → Decidable (AllSeamless aliases subs text)
  | [], _ => inferInstanceAs (Decidable True)
  | sub :: subs, text =>
    have := decidableAllSeamless aliases subs (sub.apply text)
    inferInstanceAs (Decidable (Seamless aliases sub text ∧
      AllSeamless aliases subs (sub.apply text)))

variable {aliases : List String} {aliasName : String} {sub : Substitution}
  {subs : List Substitution} {text : List Char}

/-- What `sub` does is to join its value to the parts of `text` around its alias. -/
theorem Substitution.apply_eq_intercalate (hne : sub.aliasName ≠ "") (text : List Char) :
    sub.apply text =
      sub.value.toList.intercalate (Text.around sub.aliasName.toList 0 text) := by
  rw [apply, Text.replace, if_neg (by simpa using hne), Text.replaceFrom_eq_intercalate]

/-- An alias that is left after `sub` was in `text` and is not the one replaced. -/
theorem Seamless.infix_of_infix_apply (h : Seamless aliases sub text)
    (hne : sub.aliasName ≠ "") (hvalue : FreeOf aliases sub.value.toList)
    (halias : aliasName ∈ aliases) (hin : aliasName.toList <:+: sub.apply text) :
    aliasName.toList <:+: text ∧ sub.aliasName ≠ aliasName := by
  rw [Substitution.apply_eq_intercalate hne] at hin
  -- what is left lies in a part of the text, and the alias replaced lies in none of them
  rcases h aliasName halias hin with hin | ⟨part, hpart, hin⟩
  · exact absurd hin (hvalue aliasName halias)
  · refine ⟨hin.trans (Text.infix_of_mem_around hpart), ?_⟩
    rintro rfl
    exact Text.not_infix_of_mem_around (by simpa using hne) hpart hin

/-- An alias that is left after `subs` was in `text`, and none of them is for it. -/
theorem infix_of_infix_substitute (h : AllSeamless aliases subs text)
    (hne : ∀ sub ∈ subs, sub.aliasName ≠ "")
    (hvalues : ∀ sub ∈ subs, FreeOf aliases sub.value.toList)
    (halias : aliasName ∈ aliases) (hin : aliasName.toList <:+: substitute subs text) :
    aliasName.toList <:+: text ∧ ∀ sub ∈ subs, sub.aliasName ≠ aliasName := by
  induction subs generalizing text with
  | nil => exact ⟨hin, by simp⟩
  | cons sub subs ih =>
    obtain ⟨hfirst, hrest⟩ := h
    rw [List.forall_mem_cons] at hne hvalues
    -- back from the end: what the later substitutions leave the first one has left
    obtain ⟨hleft, hothers⟩ := ih hrest hne.2 hvalues.2 hin
    obtain ⟨htext, hother⟩ := hfirst.infix_of_infix_apply hne.1 hvalues.1 halias hleft
    exact ⟨htext, List.forall_mem_cons.2 ⟨hother, hothers⟩⟩

end Substitutions

/-! ### Persistent regions -/

section Persistent

variable {σ : Type} {apply : Application σ} {subs : List Substitution} {aliases : List String}
  {aliasName : String}

/-- No transform of a chain makes one of `aliases` of a text without one. -/
def Discreet (aliases : List String) (apply : Application σ) : List String → String → σ → Prop
  | [], _, _ => True
  | name :: names, text, s =>
    match apply name text s with
    | (.error _, _) => True
    | (.ok out, s) =>
      (FreeOf aliases text.toList → FreeOf aliases out.toList) ∧ Discreet aliases apply names out s

/-- While persistent regions are filled, none of `aliases` comes about: not in their texts, not in
what their chains make of these, and not where the outcome is joined to the payload. -/
def SeamlessFill (aliases : List String) (apply : Application σ) (subs : List Substitution) :
    List PersistentOperation → List Char → σ → Prop
  | [], _, _ => True
  | op :: ops, payload, s =>
    let body := String.ofList (substitute subs op.literal.toList)
    AllSeamless aliases subs op.literal.toList ∧ Discreet aliases apply op.chain body s ∧
      match runChain apply op.chain body s with
      | (.error _, _) => True
      | (.ok value, s) =>
        Seamless aliases ⟨op.aliasName, value⟩ payload ∧
          SeamlessFill aliases apply subs ops (Substitution.apply ⟨op.aliasName, value⟩ payload) s

instance decidableDiscreet (aliases : List String) (apply : Application σ) :
    (chain : List String) → (text : String) → (s : σ) →
      Decidable (Discreet aliases apply chain text s)
  | [], _, _ => inferInstanceAs (Decidable True)
  | name :: names, text, s =>
    match hmade : apply name text s with
    | (.error _, _) => .isTrue (by simp only [Discreet, hmade])
    | (.ok out, s') =>
      have := decidableDiscreet aliases apply names out s'
      decidable_of_iff ((FreeOf aliases text.toList → FreeOf aliases out.toList) ∧
        Discreet aliases apply names out s') (by simp only [Discreet, hmade])

instance decidableSeamlessFill (aliases : List String) (apply : Application σ)
    (subs : List Substitution) : (ops : List PersistentOperation) → (payload : List Char) →
      (s : σ) → Decidable (SeamlessFill aliases apply subs ops payload s)
  | [], _, _ => inferInstanceAs (Decidable True)
  | op :: ops, payload, s =>
    let body := String.ofList (substitute subs op.literal.toList)
    match hrun : runChain apply op.chain body s with
    | (.error _, _) =>
      decidable_of_iff (AllSeamless aliases subs op.literal.toList ∧
        Discreet aliases apply op.chain body s) (by simp only [SeamlessFill, body, hrun, and_true])
    | (.ok value, s') =>
      have := decidableSeamlessFill aliases apply subs ops
        (Substitution.apply ⟨op.aliasName, value⟩ payload) s'
      decidable_of_iff (AllSeamless aliases subs op.literal.toList ∧
        Discreet aliases apply op.chain body s ∧ Seamless aliases ⟨op.aliasName, value⟩ payload ∧
          SeamlessFill aliases apply subs ops (Substitution.apply ⟨op.aliasName, value⟩ payload) s')
        (by simp only [SeamlessFill, body, hrun])

/-- A discreet `chain` makes a text `out` without aliases of a `text` without them. -/
theorem Discreet.freeOf_of_runChain {chain : List String} {text out : String} {s : σ}
    (h : Discreet aliases apply chain text s) (htext : FreeOf aliases text.toList)
    (hrun : (runChain apply chain text s).1 = .ok out) : FreeOf aliases out.toList := by
  induction chain generalizing text s with
  | nil =>
    cases hrun
    exact htext
  | cons name chain ih =>
    rw [Discreet] at h
    rw [runChain] at hrun
    generalize apply name text s = outcome at h hrun
    rcases outcome with ⟨error | made, s'⟩
    · cases hrun
    · obtain ⟨hmade, hrest⟩ := h
      exact ih hrest (hmade htext) hrun

/-- An alias that is left in `out`, when the regions of `ops` are filled, was in `payload`, and it
is the alias of none of them. Their own texts have to be without aliases once `subs` are applied. -/
theorem infix_of_infix_applyPersistent {ops : List PersistentOperation} {payload out : List Char}
    {s : σ} (h : SeamlessFill aliases apply subs ops payload s)
    (hne : ∀ op ∈ ops, op.aliasName ≠ "")
    (hbodies : ∀ op ∈ ops, AllSeamless aliases subs op.literal.toList →
      FreeOf aliases (substitute subs op.literal.toList))
    (hrun : (applyPersistent apply subs ops payload s).1 = .ok out)
    (halias : aliasName ∈ aliases) (hin : aliasName.toList <:+: out) :
    aliasName.toList <:+: payload ∧ ∀ op ∈ ops, op.aliasName ≠ aliasName := by
  induction ops generalizing payload s with
  | nil =>
    cases hrun
    exact ⟨hin, by simp⟩
  | cons op ops ih =>
    rw [List.forall_mem_cons] at hne hbodies
    simp only [SeamlessFill] at h
    obtain ⟨hliteral, hchain, hfill⟩ := h
    -- the chain is given a text without aliases, and so its outcome has none
    have hbody : FreeOf aliases (substitute subs op.literal.toList) := hbodies.1 hliteral
    have hvalue : ∀ value, (runChain apply op.chain
        (String.ofList (substitute subs op.literal.toList)) s).1 = .ok value →
          FreeOf aliases value.toList := by
      intro value hvalue
      exact hchain.freeOf_of_runChain (by rwa [String.toList_ofList]) hvalue
    rw [applyPersistent] at hrun
    generalize runChain apply op.chain (String.ofList (substitute subs op.literal.toList)) s =
      outcome at hvalue hfill hrun
    rcases outcome with ⟨error | value, s'⟩
    · cases hrun
    · obtain ⟨hseam, hrest⟩ := hfill
      obtain ⟨hleft, hothers⟩ := ih hrest hne.2 hbodies.2 hrun
      obtain ⟨hpayload, hother⟩ :=
        hseam.infix_of_infix_apply hne.1 (hvalue value rfl) halias hleft
      exact ⟨hpayload, List.forall_mem_cons.2 ⟨hother, hothers⟩⟩

end Persistent

/-! ### Templates -/

namespace Template

/-- The aliases that stand for the regions of `template`. -/
def aliases (template : Template) : List String :=
  template.operations.map Operation.aliasName ++
    template.persistent.map PersistentOperation.aliasName

/-- No iterative region of `template` was read with another region inside. -/
def PlainLiterals (template : Template) : Prop :=
  ∀ op ∈ template.operations, FreeOf template.aliases op.literal.toList

/-- No persistent region of `template` was read with another persistent region inside. -/
def PlainBodies (template : Template) : Prop :=
  ∀ op ∈ template.persistent,
    FreeOf (template.persistent.map PersistentOperation.aliasName) op.literal.toList

instance (template : Template) : Decidable template.PlainLiterals :=
  inferInstanceAs (Decidable (∀ op ∈ template.operations,
    FreeOf template.aliases op.literal.toList))

instance (template : Template) : Decidable template.PlainBodies :=
  inferInstanceAs (Decidable (∀ op ∈ template.persistent,
    FreeOf (template.persistent.map PersistentOperation.aliasName) op.literal.toList))

/-- When `subs` give every iterative region a value without aliases, and the persistent regions are
filled, no alias is left in `out`. -/
theorem freeOf_of_applyPersistent {σ : Type} {apply : Application σ} {template : Template}
    {subs : List Substitution} {out : List Char} {s : σ} (hne : "" ∉ template.aliases)
    (hbodies : template.PlainBodies)
    (hshown : (subs.map Substitution.aliasName).Perm
      (template.operations.map Operation.aliasName))
    (hvalues : ∀ sub ∈ subs, FreeOf template.aliases sub.value.toList)
    (htext : AllSeamless template.aliases subs template.text.toList)
    (hfill : SeamlessFill template.aliases apply subs template.persistent
      (substitute subs template.text.toList) s)
    (hrun : (applyPersistent apply subs template.persistent
      (substitute subs template.text.toList) s).1 = .ok out) :
    FreeOf template.aliases out := by
  have hsubs : ∀ sub ∈ subs, sub.aliasName ≠ "" := by
    rintro sub hsub hempty
    exact hne (hempty ▸ List.mem_append_left _ (hshown.mem_iff.1 (List.mem_map_of_mem hsub)))
  have hops : ∀ op ∈ template.persistent, op.aliasName ≠ "" := by
    rintro op hop hempty
    exact hne (hempty ▸ List.mem_append_right _ (List.mem_map_of_mem hop))
  -- the substitutions leave aliases of persistent regions only
  have hlasting : ∀ {text aliasName}, AllSeamless template.aliases subs text →
      aliasName ∈ template.aliases → aliasName.toList <:+: substitute subs text →
      aliasName.toList <:+: text ∧
        aliasName ∈ template.persistent.map PersistentOperation.aliasName := by
    intro text aliasName hseams halias hin
    obtain ⟨hleft, hother⟩ := infix_of_infix_substitute hseams hsubs hvalues halias hin
    refine ⟨hleft, (List.mem_append.1 halias).resolve_left fun hvarying => ?_⟩
    obtain ⟨sub, hsub, rfl⟩ := List.mem_map.1 (hshown.mem_iff.2 hvarying)
    exact hother sub hsub rfl
  -- and filling the persistent regions leaves none of these either
  intro aliasName halias hin
  obtain ⟨hleft, hother⟩ := infix_of_infix_applyPersistent hfill hops
    (fun op hop hseams aliasName halias hin =>
      hbodies op hop aliasName (hlasting hseams halias hin).2 (hlasting hseams halias hin).1)
    hrun halias hin
  obtain ⟨op, hop, rfl⟩ := List.mem_map.1 (hlasting htext halias hleft).2
  exact hother op hop rfl

end Template

/-! ### What is written in a region -/

namespace Splice

variable {registered : List String} {splice : Splice} {aliasName : String}

/-- The region of `splice` has no alias in it, if none is in its literal or in the names that are
`registered`. -/
theorem Sound.not_infix (h : splice.Sound registered) (hword : Wordy aliasName)
    (hregistered : ∀ listed ∈ registered, ¬ aliasName.toList <:+: listed.toList)
    (hliteral : ¬ aliasName.toList <:+: splice.literal) :
    ¬ aliasName.toList <:+: splice.body ++ splice.family.closeTag := by
  have hother : ∀ c, c ∉ AliasPool.letters → c ∉ aliasName.toList :=
    fun c hc hmem => hc (hword.1 c hmem)
  intro hin
  have hparts : splice.body ++ splice.family.closeTag =
      ('[' :: splice.family.sigil :: splice.heading) ++ ']' ::
        (splice.literal ++ '[' :: [splice.family.sigil, 'e', 'n', 'd', ']']) := by
    simp [body, Family.closeTag]
  rw [hparts] at hin
  -- the brackets and sigils divide the region into heading, text and the end of the close tag
  rcases Text.infix_append_cons_cases (hother _ (by decide)) hin with hin | hin
  · have hheading := Text.infix_of_infix_cons (hother _ splice.family.sigil_notMem_letters)
      (Text.infix_of_infix_cons (hother _ (by decide)) hin)
    have hne : aliasName.toList ≠ [] := List.ne_nil_of_length_pos (Nat.zero_lt_of_lt hword.2)
    have hjoint : splice.family.joint ∉ AliasPool.letters := by
      cases splice.family <;> decide
    obtain ⟨listed, hlisted, hin⟩ := splice.exists_name_of_infix hne
      (fun c hc => AliasPool.isBlank_of_mem_letters (hword.1 c hc)) (hother _ hjoint) hheading
    exact hregistered listed (h.names listed hlisted) hin
  · rcases Text.infix_append_cons_cases (hother _ (by decide)) hin with hin | hin
    · exact hliteral hin
    · exact absurd hin.length_le (Nat.not_le.2 (Nat.lt_of_succ_lt hword.2))

end Splice

/-- What `splice` takes out, without an alias of any `other` in it, was in `text` from the start. -/
theorem Spliced.infix_of_mem {text text' : List Char} {splices : List Splice}
    (h : Spliced text splices text') {splice : Splice} (hsplice : splice ∈ splices)
    (hapart : ∀ other ∈ splices, Wordy other.aliasName ∧
      ¬ other.aliasName.toList <:+: splice.body ++ splice.family.closeTag) :
    splice.body ++ splice.family.closeTag <:+: text := by
  induction h with
  | nil => exact absurd hsplice (by simp)
  | @cons first splices _ _ ih =>
    obtain ⟨⟨hword, hfirst⟩, hrest⟩ := List.forall_mem_cons.1 hapart
    rcases List.mem_cons.1 hsplice with rfl | hsplice
    · exact ⟨splice.before, splice.after, by simp [Splice.source, Splice.tail]⟩
    · -- the region is on one side of the alias of the first splice
      obtain ⟨before, after, htext⟩ := ih hsplice hrest
      have hbracket : '[' ∉ first.aliasName.toList ∧ ']' ∉ first.aliasName.toList :=
        ⟨fun hmem => absurd (hword.1 _ hmem) (by decide),
          fun hmem => absurd (hword.1 _ hmem) (by decide)⟩
      rw [Splice.source]
      rcases Text.append_eq_append_around (by simp [Splice.body]) hfirst
        (by simpa [Splice.body] using hbracket.1) (by simpa [Family.closeTag] using hbracket.2)
        htext.symm with ⟨middle, hbefore, -⟩ | ⟨middle, hafter, -⟩
      · rw [hbefore]
        exact ⟨before, middle ++ first.tail, by simp⟩
      · rw [Splice.tail, hafter]
        exact ⟨first.before ++ first.body ++ first.family.closeTag ++ middle, after, by simp⟩

namespace Template

variable {source : String} {names : TransformNames} {pool pool' : AliasPool} {template : Template}

/-- The operations of `splices` that bind names have the aliases of these. -/
theorem mem_map_aliasName_iff {splices : List Splice} {aliasName : String}
    (hnames : ∀ splice ∈ splices, splice.names ≠ []) :
    aliasName ∈ (splices.flatMap fun splice => splice.region.operations).map Operation.aliasName ↔
      aliasName ∈ splices.map Splice.aliasName := by
  simp only [List.mem_map, List.mem_flatMap]
  constructor
  · rintro ⟨op, ⟨splice, hsplice, hop⟩, rfl⟩
    obtain ⟨listed, -, rfl⟩ := List.mem_map.1 hop
    exact ⟨splice, hsplice, rfl⟩
  · rintro ⟨splice, hsplice, rfl⟩
    obtain ⟨listed, more, hlisted⟩ := List.exists_cons_of_ne_nil (hnames splice hsplice)
    refine ⟨⟨listed, splice.aliasName, String.ofList splice.literal, none⟩,
      ⟨splice, hsplice, ?_⟩, rfl⟩
    simp [Region.operations, Splice.region, hlisted]

/-- The aliases of `template` are those that `pool'` has issued and `pool` has not. -/
theorem mem_aliases_iff_of_parse (h : parse source names pool = .ok (template, pool'))
    (hvalid : ∀ name ∈ names.iterative, Transforms.nameFlaw? name = none) :
    (∀ aliasName, aliasName ∈ pool'.issued ↔
      aliasName ∈ template.aliases ∨ aliasName ∈ pool.issued) ∧
      ∀ aliasName ∈ template.aliases, Wordy aliasName := by
  obtain ⟨first, second, -, hfirst, hsecond, -, hoperations, hpersistent, rfl⟩ :=
    exists_of_parse h
  obtain ⟨varying, -, hregions, hdraws, hvarying⟩ := traced_of_scanFamily hfirst
  obtain ⟨lasting, -, hregions', hdraws', -⟩ := traced_of_scanFamily hsecond
  -- every region that is taken out has a name, so an operation records its alias
  have hiterative : ∀ aliasName, aliasName ∈ template.operations.map Operation.aliasName ↔
      aliasName ∈ varying.map Splice.aliasName := by
    intro aliasName
    rw [hoperations, hregions, List.flatMap_map]
    exact mem_map_aliasName_iff fun splice hsplice =>
      (hvarying splice hsplice).2.names_ne_nil hvalid
  have hlasting : template.persistent.map PersistentOperation.aliasName =
      lasting.map Splice.aliasName := by
    rw [hpersistent, hregions', List.map_map, List.map_map]
    rfl
  have hissued : AliasPool.Draws source.toList pool
      (varying.map Splice.aliasName ++ lasting.map Splice.aliasName) second.pool :=
    AliasPool.Draws.append_iff.2 ⟨first.pool, hdraws, hdraws'⟩
  have hmem : ∀ aliasName, aliasName ∈ template.aliases ↔
      aliasName ∈ varying.map Splice.aliasName ++ lasting.map Splice.aliasName := by
    intro aliasName
    rw [aliases, List.mem_append, List.mem_append, hiterative, hlasting]
  constructor
  · intro aliasName
    rw [hissued.issued, List.mem_append, List.mem_reverse, hmem]
  · intro aliasName halias
    exact hissued.wordy ((hmem aliasName).1 halias)

/-- If the literal of `op` is free of aliases, it is what the source has between the tags of its
region. -/
theorem written_of_parse (h : parse source names pool = .ok (template, pool'))
    (hvalid : ∀ name ∈ names.iterative, Transforms.nameFlaw? name = none)
    (hnames : ∀ name ∈ names.iterative, FreeOf template.aliases name.toList) {op : Operation}
    (hop : op ∈ template.operations) (hliteral : FreeOf template.aliases op.literal.toList) :
    ∃ family heading, template.mode.family? = some family ∧
      '[' :: family.sigil :: heading ++ ']' :: op.literal.toList ++ family.closeTag <:+:
        source.toList ∧
      (Text.trim heading = op.transform.toList ∨
        ∃ separator, family.separator? = some separator ∧
          op.transform ∈ Search.listedNames separator heading) := by
  obtain ⟨hissued, hwordy⟩ := mem_aliases_iff_of_parse h hvalid
  obtain ⟨first, second, -, hfirst, hsecond, -, hoperations, -, rfl⟩ := exists_of_parse h
  obtain ⟨varying, hspliced, hregions, hdraws, hvarying⟩ := traced_of_scanFamily hfirst
  rw [hregions, List.flatMap_map] at hoperations
  rw [hoperations] at hop
  obtain ⟨splice, hsplice, hop⟩ := List.mem_flatMap.1 hop
  obtain ⟨listed, hlisted, rfl⟩ := List.mem_map.1 hop
  obtain ⟨hfamily, hsound⟩ := hvarying splice hsplice
  have halias : ∀ other ∈ varying, other.aliasName ∈ template.aliases := by
    intro other hother
    refine List.mem_append_left _ ?_
    rw [hoperations]
    exact (mem_map_aliasName_iff fun splice hsplice =>
      (hvarying splice hsplice).2.names_ne_nil hvalid).2 (List.mem_map_of_mem hother)
  -- no alias was in the region when it was taken out, so it is a part of the source
  have hwritten := hspliced.infix_of_mem hsplice fun other hother =>
    ⟨hwordy _ (halias other hother), hsound.not_infix (hwordy _ (halias other hother))
      (fun name hname => hnames name hname _ (halias other hother))
      (by simpa [Splice.region] using hliteral _ (halias other hother))⟩
  refine ⟨splice.family, splice.heading, hfamily, ?_, ?_⟩
  · simpa [Splice.body, Splice.region] using hwritten
  · have hnames : listed ∈ splice.names := hlisted
    unfold Splice.names at hnames
    split at hnames
    · rename_i separator hseparator
      exact .inr ⟨separator, (Option.filter_eq_some_iff.1 hseparator).1, hnames⟩
    · rw [List.mem_singleton.1 hnames, String.toList_ofList]
      exact .inl rfl

end Template

end Stencil
