import Stencil.Proofs.Config.Building
import Stencil.Proofs.Engine.Ending

/-!
# The order of registrations

Two registrations that do not depend on each other commute: each of them checks its own name and
enters one transform under it, and rosters do not tell in which order their entries were made. So a
run of registrations comes to the same set in every order, as long as it makes no clones, which have
to come after their sources. What templates are read with, and in which order, is up to the names
alone; so is all that an engine does.

Main definitions:

* `Registration.Plain`: a call that makes no clone.
* `Registration.enter`: what it enters, without the checks.

Main statements:

* `Roster.insert_comm`, `Registration.enter_comm`: entries under two names commute.
* `register_comm`: so do calls that succeed.
* `registerAll_perm`: a run of calls that succeeds comes to the same in every order.
* `registration_order`: sets and engines after registrations in two orders.
-/

namespace Stencil

namespace Roster

variable {α : Type} {name key : String}

/-- Entries under `name` and under another `key` commute. -/
theorem insert_comm (h : name ≠ key) (value other : α) (roster : Roster α) :
    (roster.insert name value).insert key other = (roster.insert key other).insert name value := by
  refine ext_find? fun sought => ?_
  rw [find?_insert, find?_insert, find?_insert, find?_insert]
  by_cases hkey : key = sought
  · rw [if_pos hkey, if_neg fun hname => h (hname.trans hkey.symm), if_pos hkey]
  · rw [if_neg hkey, if_neg hkey]

/-- What stands under `key` after an entry under the free `name`. -/
theorem find?_insert_eq_some_iff {roster : Roster α} {value found : α}
    (hfree : name ∉ roster.names) :
    (roster.insert name value).find? key = some found ↔
      (name = key ∧ value = found) ∨ roster.find? key = some found := by
  rw [find?_insert]
  split
  · rename_i heq
    subst heq
    have hnone : roster.find? name = none := by
      simpa [contains] using contains_eq_false_iff.2 hfree
    simp [hnone]
  · rename_i hne
    simp [hne]

end Roster

namespace Registration

/-- A call that is given all that it enters. To make a clone, another transform is looked up. -/
def Plain : Registration → Prop
  | iterative .. | persistent .. => True
  | clone .. => False

/-- The set in which a plain call has entered its transform in `set`, whether or not it may. -/
def enter (set : Transforms) : Registration → Transforms
  | iterative name strategy step =>
    { set with iterative := set.iterative.insert name ⟨name, strategy, step⟩ }
  | persistent name edit => { set with persistent := set.persistent.insert name ⟨name, edit⟩ }
  | clone .. => set

variable {call first second : Registration}

/-- Whether a plain `call` is founded does not depend on the set. -/
theorem Plain.founded_iff (h : call.Plain) (set later : Transforms) :
    call.Founded later ↔ call.Founded set := by
  cases call with
  | iterative | persistent => exact Iff.rfl
  | clone => cases h

/-- The calls `first` and `second` enter their transforms in either order, if these differ in name
or kind. -/
theorem enter_comm (h : first.key ≠ second.key) (set : Transforms) :
    second.enter (first.enter set) = first.enter (second.enter set) := by
  cases first with
  | clone => rfl
  | iterative name strategy step =>
    cases second with
    | iterative other =>
      have hname : name ≠ other := fun heq => h (by rw [key, key, heq]; rfl)
      simp only [enter, Roster.insert_comm hname]
    | persistent | clone => rfl
  | persistent name edit =>
    cases second with
    | persistent other =>
      have hname : name ≠ other := fun heq => h (by rw [key, key, heq]; rfl)
      simp only [enter, Roster.insert_comm hname]
    | iterative | clone => rfl

/-- What stands under `name` among the iterative transforms after a plain `call` has entered one. -/
theorem find?_iterative_enter {set : Transforms} (h : call.Plain)
    (hfree : call.name ∉ set.names call.kind) (name : String) (transform : IterativeTransform) :
    (call.enter set).iterative.find? name = some transform ↔
      (.iterative name transform.strategy transform.step = call ∧ transform.name = name) ∨
        set.iterative.find? name = some transform := by
  cases call with
  | clone => cases h
  | persistent => simp [enter]
  | iterative other strategy step =>
    have hfree : other ∉ set.iterative.names := hfree
    rw [enter, Roster.find?_insert_eq_some_iff hfree]
    cases transform
    refine or_congr_left ⟨?_, ?_⟩
    · rintro ⟨rfl, heq⟩
      cases heq
      exact ⟨rfl, rfl⟩
    · rintro ⟨heq, rfl⟩
      cases heq
      exact ⟨rfl, rfl⟩

/-- What stands under `name` among the persistent transforms after a plain `call` has entered
one. -/
theorem find?_persistent_enter {set : Transforms} (h : call.Plain)
    (hfree : call.name ∉ set.names call.kind) (name : String) (transform : PersistentTransform) :
    (call.enter set).persistent.find? name = some transform ↔
      (.persistent name transform.edit = call ∧ transform.name = name) ∨
        set.persistent.find? name = some transform := by
  cases call with
  | clone => cases h
  | iterative => simp [enter]
  | persistent other edit =>
    have hfree : other ∉ set.persistent.names := hfree
    rw [enter, Roster.find?_insert_eq_some_iff hfree]
    cases transform
    refine or_congr_left ⟨?_, ?_⟩
    · rintro ⟨rfl, heq⟩
      cases heq
      exact ⟨rfl, rfl⟩
    · rintro ⟨heq, rfl⟩
      cases heq
      exact ⟨rfl, rfl⟩

end Registration

namespace Transforms

variable {set middle later : Transforms} {first second call : Registration}
  {calls calls' : List Registration}

/-- A plain `call` succeeds exactly if its name can be written and is free and its strategy moves,
and then it has entered its transform. -/
theorem register_eq_ok_iff (h : call.Plain) :
    set.register call = .ok later ↔
      nameFlaw? call.name = none ∧ call.Founded set ∧ call.name ∉ set.names call.kind ∧
        later = call.enter set := by
  cases call with
  | iterative name strategy step =>
    rw [register, registerIterative_eq_ok_iff, Roster.contains_eq_false_iff]
    exact Iff.rfl
  | persistent name edit =>
    rw [register, registerPersistent_eq_ok_iff, Roster.contains_eq_false_iff]
    -- a persistent transform needs no strategy that moves
    constructor
    · rintro ⟨hname, hfree, heq⟩
      exact ⟨hname, trivial, hfree, heq⟩
    · rintro ⟨hname, -, hfree, heq⟩
      exact ⟨hname, hfree, heq⟩
  | clone => cases h

/-- If the plain calls `first` and `second` succeed one after the other, they succeed in the other
order, too, and come to the same `later`. -/
theorem register_comm (hfirst : first.Plain) (hsecond : second.Plain)
    (h : set.register first = .ok middle) (h' : middle.register second = .ok later) :
    ∃ middle', set.register second = .ok middle' ∧ middle'.register first = .ok later := by
  obtain ⟨hname, hfounded, hfree, rfl⟩ := (register_eq_ok_iff hfirst).1 h
  obtain ⟨hname', hfounded', hfree', rfl⟩ := (register_eq_ok_iff hsecond).1 h'
  -- the second name is neither that of the first call nor one of the set
  rw [mem_names_register h, not_or] at hfree'
  obtain ⟨hkey, hfree'⟩ := hfree'
  have hne : first.key ≠ second.key := fun heq =>
    hkey ⟨(congrArg Prod.fst heq).symm, (congrArg Prod.snd heq).symm⟩
  have hearly : set.register second = .ok (second.enter set) :=
    (register_eq_ok_iff hsecond).2 ⟨hname', (hsecond.founded_iff _ _).1 hfounded', hfree', rfl⟩
  have hlate : first.name ∉ (second.enter set).names first.kind := by
    rw [mem_names_register hearly, not_or]
    exact ⟨fun heq => hne (Prod.ext heq.1 heq.2), hfree⟩
  refine ⟨_, hearly, (register_eq_ok_iff hfirst).2 ⟨hname, ?_, hlate, ?_⟩⟩
  · exact (hfirst.founded_iff _ _).2 hfounded
  · exact Registration.enter_comm hne set

/-- Plain `calls` of which none fails come to the same set in every order. -/
theorem registerAll_perm (hperm : calls.Perm calls') (hplain : ∀ call ∈ calls, call.Plain)
    (h : registerAll calls set = .ok later) : registerAll calls' set = .ok later := by
  induction hperm generalizing set with
  | nil => exact h
  | cons call _ ih =>
    obtain ⟨middle, hmiddle, hlater⟩ := registerAll_cons_eq_ok_iff.1 h
    have hrest := ih (fun other hother => hplain other (List.mem_cons_of_mem _ hother)) hlater
    exact registerAll_cons_eq_ok_iff.2 ⟨middle, hmiddle, hrest⟩
  | swap first second calls =>
    -- two calls next to each other change places, and the others find the same set
    obtain ⟨middle, hmiddle, hlater⟩ := registerAll_cons_eq_ok_iff.1 h
    obtain ⟨both, hboth, hlater⟩ := registerAll_cons_eq_ok_iff.1 hlater
    obtain ⟨middle', hmiddle', hboth'⟩ := register_comm (hplain second (by simp))
      (hplain first (by simp)) hmiddle hboth
    exact registerAll_cons_eq_ok_iff.2
      ⟨middle', hmiddle', registerAll_cons_eq_ok_iff.2 ⟨both, hboth', hlater⟩⟩
  | trans hfirst _ ih ih' =>
    exact ih' (fun call hcall => hplain call (hfirst.mem_iff.2 hcall)) (ih hplain h)

/-- The names of each `kind` ascend. -/
theorem pairwise_names (set : Transforms) (kind : TransformKind) :
    (set.names kind).Pairwise (· < ·) := by
  cases kind with
  | iterative => exact List.pairwise_map.2 set.iterative.ascending
  | persistent => exact List.pairwise_map.2 set.persistent.ascending

/-- If each plain call makes the entries that `Makes` tells in a `roster` and leaves the others,
plain `calls` that succeed have made the entries of all of them. -/
theorem find?_registerAll_of_enter {α : Type} {roster : Transforms → Roster α}
    {Makes : Registration → String → α → Prop}
    (henter : ∀ {call : Registration} {set : Transforms}, call.Plain →
      call.name ∉ set.names call.kind → ∀ name value,
        (roster (call.enter set)).find? name = some value ↔
          Makes call name value ∨ (roster set).find? name = some value)
    (hplain : ∀ call ∈ calls, call.Plain) (h : registerAll calls set = .ok later) (name : String)
    (value : α) :
    (roster later).find? name = some value ↔
      (∃ call ∈ calls, Makes call name value) ∨ (roster set).find? name = some value := by
  induction calls generalizing set with
  | nil => simp [Except.ok.inj h]
  | cons call calls ih =>
    obtain ⟨hcall, hrest⟩ := List.forall_mem_cons.1 hplain
    obtain ⟨middle, hmiddle, hlater⟩ := registerAll_cons_eq_ok_iff.1 h
    obtain ⟨-, -, hfree, rfl⟩ := (register_eq_ok_iff hcall).1 hmiddle
    rw [ih hrest hlater, henter hcall hfree, List.exists_mem_cons_iff, or_assoc]
    exact or_left_comm

/-- Let `calls` register iterative and persistent transforms only, and let them succeed on `set`
with `later`. Then they succeed in every order `calls'`, with a set `later'` that has the same names
of each kind, in ascending order, and the same transforms under them, which are those of `set` and
those that the calls were given. So whatever `source` an engine is built for, either set gives the
same template, with the same operations in the same order and the same aliases, or the same error,
and the engines give the same answers to any calls. -/
theorem registration_order (hplain : ∀ call ∈ calls, call.Plain) (hperm : calls.Perm calls')
    (h : registerAll calls set = .ok later) :
    ∃ later', registerAll calls' set = .ok later' ∧
      (∀ kind, later'.names kind = later.names kind ∧ (later.names kind).Pairwise (· < ·)) ∧
      (∀ name, later'.iterative.find? name = later.iterative.find? name ∧
        later'.persistent.find? name = later.persistent.find? name ∧
        later'.kindOf name = later.kindOf name) ∧
      (∀ name transform, later'.iterative.find? name = some transform ↔
        (.iterative name transform.strategy transform.step ∈ calls ∧ transform.name = name) ∨
          set.iterative.find? name = some transform) ∧
      (∀ name transform, later'.persistent.find? name = some transform ↔
        (.persistent name transform.edit ∈ calls ∧ transform.name = name) ∨
          set.persistent.find? name = some transform) ∧
      ∀ source randomize generator,
        let engine := Engine.build source later randomize generator
        let engine' := Engine.build source later' randomize generator
        engine'.map Engine.template = engine.map Engine.template ∧
          engine'.map Engine.answers = engine.map Engine.answers := by
  -- the set is the same, so all that is asked of it is
  refine ⟨later, registerAll_perm hperm hplain h, fun kind => ⟨rfl, later.pairwise_names kind⟩,
    fun name => ⟨rfl, rfl, rfl⟩, ?_, ?_, fun source randomize generator => ⟨rfl, rfl⟩⟩
  · intro name transform
    rw [find?_registerAll_of_enter Registration.find?_iterative_enter hplain h]
    simp
  · intro name transform
    rw [find?_registerAll_of_enter Registration.find?_persistent_enter hplain h]
    simp

/-- A transform of each kind under the name `a`, and an iterative one that is registered first and
comes last. In reverse order a template is read the same: the digit of `a` moves fastest, although
the region of `b` stands in front. -/
theorem registration_order_reversed :
    let step : StepFunction := fun element _ memory => (.value element, memory)
    let calls : List Registration :=
      [.iterative "b" (.list ["x", "y"]) step, .persistent "a" fun _ text => .ok (text ++ "!"),
        .iterative "a" (.range 0 2 1) step]
    (∀ call ∈ calls, call.Plain) ∧
    ∃ later later', registerAll calls empty = .ok later ∧
      registerAll calls.reverse empty = .ok later' ∧ later'.names .iterative = ["a", "b"] ∧
      ∃ engine', Engine.build "[%b]1[%end][%a]2[%end][@a]z[@end]" later' false
          Document.nestedPool.generator = .ok engine' ∧
        engine'.answers [.nothing, .nothing, .nothing] =
          [.ok (some ⟨0, none, "x0z!"⟩), .ok (some ⟨1, none, "x1z!"⟩),
            .ok (some ⟨2, none, "y0z!"⟩)] := by
  intro step calls
  have hplain : ∀ call ∈ calls, call.Plain := by
    simp [calls, Registration.Plain]
  refine ⟨hplain, ?_⟩
  have hread : (registerAll calls empty).toOption.map (fun later =>
      (later.names .iterative, (Engine.build "[%b]1[%end][%a]2[%end][@a]z[@end]" later false
        Document.nestedPool.generator).toOption.map fun engine =>
          decide (engine.answers [.nothing, .nothing, .nothing] =
            [.ok (some ⟨0, none, "x0z!"⟩), .ok (some ⟨1, none, "x1z!"⟩),
              .ok (some ⟨2, none, "y0z!"⟩)]))) = some (["a", "b"], some true) := by
    decide +kernel
  obtain ⟨later, hlater, hread⟩ := Except.exists_of_toOption_map hread
  obtain ⟨hnames, hread⟩ := Prod.mk.inj hread
  obtain ⟨engine, hbuild, hanswers⟩ := Except.exists_of_toOption_map hread
  -- the second engine is not computed, it is as the first one
  obtain ⟨later', hlater', hlisted, -, -, -, hengines⟩ :=
    registration_order hplain calls.reverse_perm.symm hlater
  obtain ⟨-, hsame⟩ := hengines "[%b]1[%end][%a]2[%end][@a]z[@end]" false
    Document.nestedPool.generator
  rw [hbuild] at hsame
  obtain ⟨engine', hbuild', hequal⟩ := Except.exists_of_map_eq_ok hsame
  refine ⟨later, later', hlater, hlater', (hlisted .iterative).1.trans hnames, engine', hbuild', ?_⟩
  rw [hequal]
  exact of_decide_eq_true hanswers

end Transforms

end Stencil
