import Stencil.Proofs.Markup.Vanish

/-!
# Aliases tell regions apart

Each region of a template has an alias of its own, whatever letters are drawn. Operations have the
alias of their region, so two of them have the same one only if a region has several operations.
Those are the regions of the single-target family whose heading lists names.

Main definitions:

* `Splice.operationCount`: how many operations a region gives rise to.
* `Splice.owners`: the number of the region of each operation.
* `Splice.Cumulative`: regions whose heading lists names.

Main statements:

* `map_aliasName_operations`, `map_aliasName_persistentOperations`: the operations have the aliases
  of their regions.
* `pairwise_zip_owners`: two operations share an alias exactly when they share a region.
* `aliases_of_parse`: what the aliases of a template are like, and which operations share one.
-/

namespace Stencil

/-- A character of `letters` is an ASCII letter. -/
theorem AliasPool.isAlpha_of_mem_letters {c : Char} (h : c ∈ letters) : c.isAlpha = true := by
  have hall : letters.all Char.isAlpha = true := by decide
  exact List.all_eq_true.1 hall c h

namespace Splice

/-- How many operations `splice` gives rise to: one for each name of an iterative region, and one
for a persistent region, whose names make up a chain. -/
def operationCount (splice : Splice) : Nat :=
  if splice.family = .persistent then 1 else splice.names.length

/-- For each operation that the numbered `regions` give rise to, in order, the number of its
region. -/
def owners (regions : List (Splice × Nat)) : List Nat :=
  regions.flatMap fun region => List.replicate region.1.operationCount region.2

/-- The region of `splice` is of the single-target family, and its heading lists names. -/
def Cumulative (splice : Splice) : Prop :=
  splice.family = .single ∧ ';' ∈ splice.heading

/-- A `splice` with several operations is `Cumulative`. -/
theorem cumulative_of_operationCount {splice : Splice} (h : 1 < splice.operationCount) :
    splice.Cumulative := by
  rw [operationCount] at h
  split at h
  · omega
  · rename_i hiterative
    unfold names at h
    split at h
    · rename_i separator hseparator
      obtain ⟨hseparator, hcontains⟩ := Option.filter_eq_some_iff.1 hseparator
      -- of the iterative families one has separators
      cases hfamily : splice.family with
      | single =>
        rw [hfamily, Family.separator?, Option.some.injEq] at hseparator
        exact ⟨hfamily, by simpa [← hseparator] using hcontains⟩
      | lockstep => simp [hfamily, Family.separator?] at hseparator
      | cross => simp [hfamily, Family.separator?] at hseparator
      | persistent => exact absurd hfamily hiterative
    · exact absurd h (by simp)

/-- The operations of regions that are numbered from `first` on have their numbers. -/
theorem le_of_mem_owners {first number : Nat} {splices : List Splice}
    (h : number ∈ owners (splices.zipIdx first)) : first ≤ number := by
  obtain ⟨region, hregion, hnumber⟩ := List.mem_flatMap.1 h
  rw [List.eq_of_mem_replicate hnumber]
  exact List.le_snd_of_mem_zipIdx hregion

/-- If the aliases of `splices` differ, two of their operations share an alias exactly when they
share a region, which is then `Cumulative`. -/
theorem pairwise_zip_owners (first : Nat) {splices : List Splice}
    (hnodup : (splices.map Splice.aliasName).Nodup) :
    ((splices.flatMap fun splice => List.replicate splice.operationCount splice.aliasName).zip
        (owners (splices.zipIdx first))).Pairwise fun one other =>
      one.1 = other.1 ↔ one.2 = other.2 ∧
        ∃ splice, (splice, one.2) ∈ splices.zipIdx first ∧ splice.Cumulative := by
  induction splices generalizing first with
  | nil => simp [owners]
  | cons splice splices ih =>
    obtain ⟨hnew, hrest⟩ := List.nodup_cons.1 hnodup
    have hlength : (List.replicate splice.operationCount splice.aliasName).length =
        (List.replicate splice.operationCount first).length := by
      simp
    rw [List.flatMap_cons, List.zipIdx_cons, owners, List.flatMap_cons, List.zip_append hlength,
      List.zip_replicate, Nat.min_self, List.pairwise_append]
    refine ⟨List.pairwise_replicate.2 ?_, (ih (first + 1) hrest).imp_of_mem ?_, ?_⟩
    · -- two operations of the first region
      by_cases hone : splice.operationCount ≤ 1
      · exact .inl hone
      · exact .inr ⟨fun _ => ⟨rfl, splice, List.mem_cons_self,
          cumulative_of_operationCount (by omega)⟩, fun _ => rfl⟩
    · -- two operations of other regions, whose numbers are greater
      rintro ⟨one, number⟩ ⟨other, number'⟩ hone - hshare
      have hgreater : number ≠ first := by
        have hle := le_of_mem_owners (List.of_mem_zip hone).2
        omega
      simpa [hgreater] using hshare
    · -- an operation of the first region and one of another
      rintro ⟨one, number⟩ hone ⟨other, number'⟩ hother
      obtain ⟨rfl, rfl⟩ := Prod.mk.inj (List.eq_of_mem_replicate hone)
      obtain ⟨halias, hnumber⟩ := List.of_mem_zip hother
      have hgreater := le_of_mem_owners hnumber
      obtain ⟨later, hlater, hin⟩ := List.mem_flatMap.1 halias
      obtain rfl := List.eq_of_mem_replicate hin
      constructor
      · intro heq
        rw [show splice.aliasName = later.aliasName from heq] at hnew
        exact absurd (List.mem_map_of_mem hlater) hnew
      · rintro ⟨heq, -⟩
        rw [show number = number' from heq] at hgreater
        exact absurd hgreater (Nat.not_succ_le_self _)

theorem length_owners (first : Nat) (splices : List Splice) :
    (owners (splices.zipIdx first)).length =
      (splices.flatMap fun splice =>
        List.replicate splice.operationCount splice.aliasName).length := by
  induction splices generalizing first with
  | nil => rfl
  | cons splice splices ih =>
    rw [List.zipIdx_cons, owners, List.flatMap_cons, List.flatMap_cons, List.length_append,
      List.length_append, List.length_replicate, List.length_replicate, ← ih (first + 1), owners]

/-- The operations of iterative regions have the aliases of their `splices`, each as often as
`operationCount` says. -/
theorem map_aliasName_operations {splices : List Splice}
    (h : ∀ splice ∈ splices, splice.family ≠ .persistent) :
    (splices.flatMap fun splice => splice.region.operations).map Operation.aliasName =
      splices.flatMap fun splice => List.replicate splice.operationCount splice.aliasName := by
  rw [List.map_flatMap]
  refine List.flatMap_congr fun splice hsplice => ?_
  rw [operationCount, if_neg (h splice hsplice), Region.operations, List.map_map, ← List.map_const']
  rfl

/-- The operations of persistent regions have the aliases of their `splices`. -/
theorem map_aliasName_persistentOperations {splices : List Splice}
    (h : ∀ splice ∈ splices, splice.family = .persistent) :
    (splices.map fun splice => splice.region.persistentOperation).map
        PersistentOperation.aliasName =
      splices.flatMap fun splice => List.replicate splice.operationCount splice.aliasName := by
  rw [List.map_map, ← List.flatMap_pure_eq_map]
  refine List.flatMap_congr fun splice hsplice => ?_
  rw [operationCount, if_pos (h splice hsplice)]
  rfl

end Splice

namespace Template

/-- Aliases tell the regions of a `template` apart, whatever generator they come from. The template
comes from `source` by splices, each of which puts an alias in the place of a region. The aliases of
all operations, iterative and persistent ones, have 32 ASCII letters and do not occur in `source`;
no two splices have the same one; and the aliases of two operations, `one.1` and `other.1`, are
equal exactly when both belong to one splice, `one.2 = other.2`, and in that case it is
`Cumulative`: a region of the single-target family whose heading lists names. -/
theorem aliases_of_parse {source : String} {names : TransformNames} {pool pool' : AliasPool}
    {template : Template} (h : parse source names pool = .ok (template, pool')) :
    ∃ varying lasting : List Splice,
      Spliced source.toList (varying ++ lasting) template.text.toList ∧
      (∀ splice ∈ varying, template.mode.family? = some splice.family ∧
        splice.Sound names.iterative) ∧
      (∀ splice ∈ lasting, splice.family = .persistent ∧ splice.Sound names.persistent) ∧
      template.operations = varying.flatMap (fun splice => splice.region.operations) ∧
      template.persistent = lasting.map (fun splice => splice.region.persistentOperation) ∧
      (∀ aliasName ∈ template.aliases, aliasName.length = 32 ∧
        (∀ c ∈ aliasName.toList, c.isAlpha = true) ∧ ¬ aliasName.toList <:+: source.toList) ∧
      ((varying ++ lasting).map Splice.aliasName).Nodup ∧
      (Splice.owners (varying ++ lasting).zipIdx).length = template.aliases.length ∧
      (template.aliases.zip (Splice.owners (varying ++ lasting).zipIdx)).Pairwise fun one other =>
        one.1 = other.1 ↔ one.2 = other.2 ∧
          ∃ splice, (varying ++ lasting)[one.2]? = some splice ∧ splice.Cumulative := by
  obtain ⟨first, second, -, hfirst, hsecond, htext, hoperations, hpersistent, rfl⟩ :=
    exists_of_parse h
  obtain ⟨varying, hspliced, hregions, hdraws, hvarying⟩ := traced_of_scanFamily hfirst
  obtain ⟨lasting, hspliced', hregions', hdraws', hlasting⟩ := traced_of_scanFamily hsecond
  rw [hregions, List.flatMap_map] at hoperations
  rw [hregions', List.map_map] at hpersistent
  -- the aliases of the operations are drawn one after the other, each for its region
  have hissued : AliasPool.Draws source.toList pool ((varying ++ lasting).map Splice.aliasName)
      second.pool := by
    rw [List.map_append]
    exact AliasPool.Draws.append_iff.2 ⟨first.pool, hdraws, hdraws'⟩
  have haliases : template.aliases = (varying ++ lasting).flatMap fun splice =>
      List.replicate splice.operationCount splice.aliasName := by
    have hiterative : ∀ splice ∈ varying, splice.family ≠ .persistent := by
      intro splice hsplice heq
      have hmem := Mode.family?_mem_iterative (hvarying splice hsplice).1
      rw [heq] at hmem
      exact absurd hmem (by decide)
    rw [aliases, hoperations, hpersistent, List.flatMap_append,
      Splice.map_aliasName_operations hiterative]
    congr 1
    exact Splice.map_aliasName_persistentOperations fun splice hsplice =>
      (Option.some.inj (hlasting splice hsplice).1).symm
  have htext' : Spliced source.toList (varying ++ lasting) template.text.toList := by
    rw [htext, String.toList_ofList]
    exact hspliced.append hspliced'
  refine ⟨varying, lasting, htext', hvarying, fun splice hsplice =>
    ⟨(Option.some.inj (hlasting splice hsplice).1).symm, (hlasting splice hsplice).2⟩,
    hoperations, hpersistent, ?_, hissued.nodup, ?_, ?_⟩
  · intro aliasName halias
    rw [haliases] at halias
    obtain ⟨splice, hsplice, hin⟩ := List.mem_flatMap.1 halias
    obtain rfl := List.eq_of_mem_replicate hin
    have hdrawn : splice.aliasName ∈ (varying ++ lasting).map Splice.aliasName :=
      List.mem_map_of_mem hsplice
    refine ⟨?_, fun c hc => ?_, ?_⟩
    · rw [← String.length_toList, hissued.length_toList hdrawn, AliasPool.aliasLength]
    · exact AliasPool.isAlpha_of_mem_letters ((hissued.wordy hdrawn).1 c hc)
    · rw [← Text.occurs_iff, hissued.not_occurs hdrawn]
      exact Bool.false_ne_true
  · rw [haliases, Splice.length_owners]
  · rw [haliases]
    simpa only [List.mk_mem_zipIdx_iff_getElem?] using Splice.pairwise_zip_owners 0 hissued.nodup

/-- A pool whose candidates repeat: each of them comes twice. -/
def repeatingPool : AliasPool where
  generator := .ofWords fun place => (place / 64).toUInt64 <<< 60

/-- The first candidates occur in the source, and the one that is issued first comes again: the
region that lists names has one alias for both of its operations, and the other region another. -/
theorem aliases_of_parse_repeating :
    ∃ (template : Template) (pool' : AliasPool) (varying lasting : List Splice),
      parse "[+a;b]x[+end][@p]y[@end]aaaaaaaaaaaaaaaaaaaaaaaaaaaaaaaa" ⟨["a", "b"], ["p"]⟩
          repeatingPool = .ok (template, pool') ∧
        template.aliases = [String.ofList (List.replicate 32 'd'),
          String.ofList (List.replicate 32 'd'), String.ofList (List.replicate 32 'g')] ∧
        ∃ shared own splice, Splice.owners (varying ++ lasting).zipIdx = [shared, shared, own] ∧
          shared ≠ own ∧ (varying ++ lasting)[shared]? = some splice ∧ splice.Cumulative := by
  have hread : (parse "[+a;b]x[+end][@p]y[@end]aaaaaaaaaaaaaaaaaaaaaaaaaaaaaaaa"
      ⟨["a", "b"], ["p"]⟩ repeatingPool).toOption.map (fun read => read.1.aliases) =
        some [String.ofList (List.replicate 32 'd'), String.ofList (List.replicate 32 'd'),
          String.ofList (List.replicate 32 'g')] := by
    decide +kernel
  obtain ⟨⟨template, pool'⟩, hparse, haliases⟩ := Except.exists_of_toOption_map hread
  obtain ⟨varying, lasting, -, -, -, -, -, -, -, hlength, hshare⟩ := aliases_of_parse hparse
  rw [show template.aliases = _ from haliases] at hlength hshare
  refine ⟨template, pool', varying, lasting, hparse, haliases, ?_⟩
  -- there are three operations, so there are three numbers
  generalize Splice.owners (varying ++ lasting).zipIdx = numbers at hlength hshare ⊢
  obtain ⟨first, second, third, rfl⟩ : ∃ first second third, numbers = [first, second, third] :=
    List.length_eq_three.1 hlength
  simp only [List.zip_cons_cons, List.pairwise_cons, List.mem_cons] at hshare
  obtain ⟨hfirst, hsecond, -⟩ := hshare
  obtain ⟨hsame, splice, hsplice, hlists⟩ := (hfirst _ (.inl rfl)).1 rfl
  have hsame : first = second := hsame
  subst hsame
  refine ⟨first, third, splice, rfl, fun heq => ?_, hsplice, hlists⟩
  have hother : String.ofList (List.replicate 32 'd') = String.ofList (List.replicate 32 'g') :=
    (hsecond _ (.inl rfl)).2 ⟨heq, splice, hsplice, hlists⟩
  exact absurd hother (by decide)

end Template

end Stencil
