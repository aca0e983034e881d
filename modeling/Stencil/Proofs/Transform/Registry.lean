import Mathlib.Data.List.Perm.Basic
import Mathlib.Logic.Relation
import Stencil.Proofs.Transform.Independence

/-!
# The transforms that are registered

A transform is registered by one of three calls, each of which checks what it is given before it
enters anything. Here the calls are programs that change a set of transforms in place, so that what
a call has changed before it fails would stay changed. Nothing has: every check comes before the
only change. So whatever calls are made, in whatever order, each adds one transform or nothing, and
the transforms that are registered keep to what was checked. A clone stays like its source because
neither of them ever changes.

Main definitions:

* `Registration`: the calls.
* `Registration.perform`: a call as a program; `Transforms.registered`: what calls leave.
* `Registration.Adds`: what a call that succeeds adds.
* `Transforms.Sound`: what holds of the transforms that are registered.
* `Registration.Copies`: a call has made a transform a clone of another one.

Main statements:

* `run_perform`: a call that fails changes nothing.
* `adds_of_register`, `Sound.register`: what a call adds, and that it keeps to what is checked.
* `exists_register_iff`, `run_eq_ok_iff`: when a call succeeds.
* `shares_of_transGen`: a clone shares with its source, with the source of that, and so on.
* `registry_run`: the registry after any calls.
-/

namespace Stencil

namespace Roster

variable {α : Type} {roster : Roster α} {name key : String} {value : α}

theorem contains_eq_true_iff : roster.contains name = true ↔ name ∈ roster.names :=
  isSome_lookup_iff

theorem contains_eq_false_iff : roster.contains name = false ↔ name ∉ roster.names := by
  rw [← contains_eq_true_iff, Bool.not_eq_true]

theorem place_perm {entries : List (String × α)} (h : name ∉ entries.map (·.1)) :
    (place name value entries).Perm ((name, value) :: entries) := by
  induction entries with
  | nil => exact .refl _
  | cons head rest ih =>
    obtain ⟨hne, hrest⟩ := not_or.1 (List.mem_cons.not.1 h)
    rw [place, if_neg (Ne.symm hne)]
    split
    · exact .refl _
    · exact ((ih hrest).cons head).trans (.swap _ _ _)

/-- Under a free `name` an entry is added, and the others stay as they are. -/
theorem entries_insert_perm (h : name ∉ roster.names) :
    (roster.insert name value).entries.Perm ((name, value) :: roster.entries) :=
  place_perm h

theorem mem_names_insert (h : name ∉ roster.names) :
    key ∈ (roster.insert name value).names ↔ key = name ∨ key ∈ roster.names := by
  rw [names, ((entries_insert_perm h).map (·.1)).mem_iff, List.map_cons, List.mem_cons, names]

theorem find?_insert_of_notMem (h : name ∉ roster.names) {found : α}
    (hfound : roster.find? key = some found) :
    (roster.insert name value).find? key = some found := by
  have hkey : key ∈ roster.names := isSome_lookup_iff.1 (Option.isSome_iff_exists.2 ⟨found, hfound⟩)
  have hne : name ≠ key := by
    rintro rfl
    exact h hkey
  rw [find?_insert, if_neg hne, hfound]

end Roster

theorem toInt_eq_zero_iff {n : Int64} : n.toInt = 0 ↔ n = 0 := by
  rw [← Int64.toInt_zero, Int64.toInt_inj]

theorem Strategy.isStuck_eq_false_iff {strategy : Strategy} :
    strategy.isStuck = false ↔ ∀ start stop, strategy ≠ .range start stop 0 := by
  cases strategy <;> simp [isStuck, toInt_eq_zero_iff]

/-- A call that registers a transform. -/
inductive Registration where
  /-- Registers an iterative transform. -/
  | iterative (name : String) (strategy : Strategy) (step : StepFunction)
  /-- Registers a persistent transform. -/
  | persistent (name : String) (edit : PersistentFunction)
  /-- Registers an iterative transform under one more name. -/
  | clone (source name : String)

namespace Registration

/-- The kind of transform that a call registers. -/
def kind : Registration → TransformKind
  | iterative .. | clone .. => .iterative
  | persistent .. => .persistent

/-- The name under which a call registers. -/
def name : Registration → String
  | iterative name .. | persistent name .. | clone _ name => name

end Registration

namespace Transforms

/-- The names of the transforms of `set` that are of a kind. -/
def names (set : Transforms) : TransformKind → List String
  | .iterative => set.iterative.names
  | .persistent => set.persistent.names

@[simp]
theorem names_iterative (set : Transforms) : set.names .iterative = set.iterative.names := rfl

@[simp]
theorem names_persistent (set : Transforms) : set.names .persistent = set.persistent.names := rfl

/-- The transforms after a call on `set` that succeeds. -/
def register (set : Transforms) : Registration → Except SetupError Transforms
  | .iterative name strategy step => set.registerIterative name strategy step
  | .persistent name edit => set.registerPersistent name edit
  | .clone source name => set.clone source name

end Transforms

/-! ### Calls that change a set in place -/

/-- A program that changes a set of transforms and can fail. What it has changed before it fails
stays changed. -/
abbrev Registering := ExceptT SetupError (StateM Transforms)

namespace Registering

/-- Fails if `name` cannot be registered. -/
def checkName (name : String) : Registering Unit :=
  match Transforms.nameFlaw? name with
  | some flaw => throw (.invalidName name flaw)
  | none => pure ()

/-- Fails if `strategy` is a range that does not move. -/
def checkMoves (strategy : Strategy) : Registering Unit :=
  if strategy.isStuck then throw .zeroStep else pure ()

/-- Fails if `name` is taken. -/
def checkFree (taken : Transforms → Bool) (name : String) : Registering Unit := do
  if taken (← get) then throw (.duplicateTransform name) else pure ()

/-- Enters an iterative transform under `name`. -/
def insertIterative (name : String) (strategy : Strategy) (step : StepFunction) :
    Registering Unit := do
  checkName name
  checkMoves strategy
  checkFree (·.iterative.contains name) name
  -- nothing that can fail comes behind this change
  modify fun set => { set with iterative := set.iterative.insert name ⟨name, strategy, step⟩ }

/-- Enters a persistent transform under `name`. -/
def insertPersistent (name : String) (edit : PersistentFunction) : Registering Unit := do
  checkName name
  checkFree (·.persistent.contains name) name
  modify fun set => { set with persistent := set.persistent.insert name ⟨name, edit⟩ }

/-- Enters the iterative transform `source` under one more `name`. -/
def insertClone (source name : String) : Registering Unit := do
  match (← get).iterative.find? source with
  | none => throw (.unknownCloneSource source)
  | some original => insertIterative name original.strategy original.step

end Registering

namespace Registration

/-- A call as a program. -/
def perform : Registration → Registering Unit
  | iterative name strategy step => Registering.insertIterative name strategy step
  | persistent name edit => Registering.insertPersistent name edit
  | clone source name => Registering.insertClone source name

/-- Makes `call` on `set`: how it ends, and the set that it leaves. -/
def run (call : Registration) (set : Transforms) : Except SetupError Unit × Transforms :=
  call.perform.run.run set

end Registration

/-- How a program on `set` ends that either succeeds with a new set or fails. -/
def Registering.outcome (set : Transforms) :
    Except SetupError Transforms → Except SetupError Unit × Transforms
  | .ok later => (.ok (), later)
  | .error error => (.error error, set)

namespace Transforms

/-- The set that `calls` leave, one after the other, some of which may fail. -/
def registerEach (set : Transforms) (calls : List Registration) : Transforms :=
  calls.foldl (fun set call => (call.run set).2) set

/-- The set that `calls` leave where nothing was registered before. -/
def registered (calls : List Registration) : Transforms :=
  empty.registerEach calls

end Transforms

namespace Registering

/-- The program `next` goes on where `first` has left the set, unless `first` ends it. -/
theorem run_bind (first next : Registering Unit) (set : Transforms) :
    (do first; next).run.run set =
      match first.run.run set with
      | (.ok (), later) => next.run.run later
      | (.error error, later) => (.error error, later) := by
  -- the layers are unfolded here once, so that programs can be run part by part
  have hbind : (do first; next).run.run set =
      ExceptT.bindCont (fun _ => next) (first.run.run set).1 (first.run.run set).2 := rfl
  rw [hbind]
  rcases first.run.run set with ⟨error | _, later⟩ <;> rfl

theorem run_checkName (name : String) (set : Transforms) :
    (checkName name).run.run set =
      match Transforms.nameFlaw? name with
      | some flaw => (.error (.invalidName name flaw), set)
      | none => (.ok (), set) := by
  unfold checkName
  split <;> rfl

theorem run_checkMoves (strategy : Strategy) (set : Transforms) :
    (checkMoves strategy).run.run set =
      if strategy.isStuck then (.error .zeroStep, set) else (.ok (), set) := by
  unfold checkMoves
  split <;> rfl

theorem run_checkFree (taken : Transforms → Bool) (name : String) (set : Transforms) :
    (checkFree taken name).run.run set =
      if taken set then (.error (.duplicateTransform name), set) else (.ok (), set) := by
  have hread : (checkFree taken name).run.run set =
      (if taken set then throw (.duplicateTransform name) else pure () :
        Registering Unit).run.run set := rfl
  rw [hread]
  split <;> rfl

theorem run_insertIterative (name : String) (strategy : Strategy) (step : StepFunction)
    (set : Transforms) :
    (insertIterative name strategy step).run.run set =
      outcome set (set.registerIterative name strategy step) := by
  rw [insertIterative, run_bind, run_checkName, Transforms.registerIterative]
  cases Transforms.nameFlaw? name with
  | some flaw => rfl
  | none =>
    dsimp only
    rw [run_bind, run_checkMoves]
    cases strategy.isStuck with
    | true => rfl
    | false =>
      rw [if_neg Bool.false_ne_true]
      dsimp only
      rw [run_bind, run_checkFree]
      cases set.iterative.contains name <;> rfl

theorem run_insertPersistent (name : String) (edit : PersistentFunction) (set : Transforms) :
    (insertPersistent name edit).run.run set = outcome set (set.registerPersistent name edit) := by
  rw [insertPersistent, run_bind, run_checkName, Transforms.registerPersistent]
  cases Transforms.nameFlaw? name with
  | some flaw => rfl
  | none =>
    dsimp only
    rw [run_bind, run_checkFree]
    cases set.persistent.contains name <;> rfl

theorem run_insertClone (source name : String) (set : Transforms) :
    (insertClone source name).run.run set = outcome set (set.clone source name) := by
  have hread : (insertClone source name).run.run set =
      (match set.iterative.find? source with
        | none => throw (.unknownCloneSource source)
        | some original => insertIterative name original.strategy original.step :
        Registering Unit).run.run set := rfl
  rw [hread, Transforms.clone]
  cases set.iterative.find? source with
  | none => rfl
  | some original => exact run_insertIterative name original.strategy original.step set

end Registering

/-- As a program, `call` ends like the function that gives a new set, and if it fails it changes
nothing. -/
theorem Registration.run_perform (call : Registration) (set : Transforms) :
    call.run set = Registering.outcome set (set.register call) := by
  cases call with
  | iterative name strategy step => exact Registering.run_insertIterative name strategy step set
  | persistent name edit => exact Registering.run_insertPersistent name edit set
  | clone source name => exact Registering.run_insertClone source name set

/-! ### What a call does -/

/-- `later` has the entries of `roster` and one more, under a name that was free. -/
def Roster.OneMore {α : Type} (name : String) (value : α) (roster later : Roster α) : Prop :=
  name ∉ roster.names ∧ later.entries.Perm ((name, value) :: roster.entries)

namespace Registration

/-- The iterative transform that a call on `set` enters, if it enters one. -/
def transform? (set : Transforms) : Registration → Option IterativeTransform
  | iterative name strategy step => some ⟨name, strategy, step⟩
  | persistent .. => none
  | clone source name =>
    (set.iterative.find? source).map fun original => ⟨name, original.strategy, original.step⟩

/-- What a call that succeeds adds to `set`, so that it becomes `later`: what it was given, and
nothing else. -/
def Adds (set later : Transforms) : Registration → Prop
  | iterative name strategy step =>
    Roster.OneMore name ⟨name, strategy, step⟩ set.iterative later.iterative ∧
      later.persistent = set.persistent
  | persistent name edit =>
    Roster.OneMore name ⟨name, edit⟩ set.persistent later.persistent ∧
      later.iterative = set.iterative
  | clone source name =>
    ∃ original : IterativeTransform, set.iterative.find? source = some original ∧
      Roster.OneMore name ⟨name, original.strategy, original.step⟩ set.iterative
        later.iterative ∧
      later.persistent = set.persistent

/-- A call is given a strategy that moves, or a source that is registered in `set`. -/
def Founded (set : Transforms) : Registration → Prop
  | iterative _ strategy _ => strategy.isStuck = false
  | persistent .. => True
  | clone source _ => source ∈ set.iterative.names

end Registration

namespace Transforms

variable {set later : Transforms} {call : Registration} {calls : List Registration}
  {name source key : String} {kind : TransformKind}

theorem clone_eq_ok_iff :
    set.clone source name = .ok later ↔
      ∃ original : IterativeTransform, set.iterative.find? source = some original ∧
        set.registerIterative name original.strategy original.step = .ok later := by
  unfold clone
  split <;> simp_all

/-- All that a `call` that succeeds can do: it enters one transform under a free name that is
sound. -/
theorem cases_of_register (h : set.register call = .ok later) :
    nameFlaw? call.name = none ∧ call.name ∉ set.names call.kind ∧
      ((∃ transform, call.kind = .iterative ∧ call.transform? set = some transform ∧
          transform.name = call.name ∧ transform.strategy.isStuck = false ∧
          later = { set with iterative := set.iterative.insert call.name transform }) ∨
        ∃ edit, call = .persistent call.name edit ∧
          later =
            { set with persistent := set.persistent.insert call.name ⟨call.name, edit⟩ }) := by
  cases call with
  | iterative name strategy step =>
    obtain ⟨hname, hmoves, hfree, rfl⟩ := registerIterative_eq_ok_iff.1 h
    exact ⟨hname, Roster.contains_eq_false_iff.1 hfree, .inl ⟨_, rfl, rfl, rfl, hmoves, rfl⟩⟩
  | persistent name edit =>
    obtain ⟨hname, hfree, rfl⟩ := registerPersistent_eq_ok_iff.1 h
    exact ⟨hname, Roster.contains_eq_false_iff.1 hfree, .inr ⟨edit, rfl, rfl⟩⟩
  | clone source name =>
    obtain ⟨original, hfound, hregistered⟩ := clone_eq_ok_iff.1 h
    obtain ⟨hname, hmoves, hfree, rfl⟩ := registerIterative_eq_ok_iff.1 hregistered
    have hgiven : (Registration.clone source name).transform? set =
        some ⟨name, original.strategy, original.step⟩ := by
      rw [Registration.transform?, hfound]
      rfl
    exact ⟨hname, Roster.contains_eq_false_iff.1 hfree, .inl ⟨_, rfl, hgiven, rfl, hmoves, rfl⟩⟩

/-- What a `call` that succeeds adds to `set`. -/
theorem adds_of_register (h : set.register call = .ok later) : call.Adds set later := by
  obtain ⟨-, hfree, ⟨transform, hkind, hgiven, -, -, rfl⟩ | ⟨edit, hcall, rfl⟩⟩ :=
    cases_of_register h
  · cases call with
    | iterative name strategy step =>
      obtain rfl := Option.some.inj hgiven
      exact ⟨⟨hfree, Roster.entries_insert_perm hfree⟩, rfl⟩
    | persistent name edit => cases hkind
    | clone source name =>
      obtain ⟨original, hfound, rfl⟩ := Option.map_eq_some_iff.1 hgiven
      exact ⟨original, hfound, ⟨hfree, Roster.entries_insert_perm hfree⟩, rfl⟩
  · rw [hcall] at hfree ⊢
    exact ⟨⟨hfree, Roster.entries_insert_perm hfree⟩, rfl⟩

/-- The names of `later`, after a `call` that succeeds. -/
theorem mem_names_register (h : set.register call = .ok later) :
    key ∈ later.names kind ↔ (kind = call.kind ∧ key = call.name) ∨ key ∈ set.names kind := by
  obtain ⟨-, hfree, ⟨transform, hkind, -, -, -, rfl⟩ | ⟨edit, hcall, rfl⟩⟩ := cases_of_register h
  · rw [hkind] at hfree ⊢
    cases kind with
    | iterative => simpa using Roster.mem_names_insert hfree
    | persistent => simp
  · -- only the names of its own kind change
    have hkind : call.kind = .persistent := by rw [hcall]; rfl
    rw [hkind] at hfree ⊢
    cases kind with
    | iterative => simp
    | persistent => simpa using Roster.mem_names_insert hfree

/-- The iterative transform under `key` stays as it is when another one is registered. -/
theorem find?_register (h : set.register call = .ok later) {transform : IterativeTransform}
    (hfound : set.iterative.find? key = some transform) :
    later.iterative.find? key = some transform := by
  obtain ⟨-, hfree, ⟨added, hkind, -, -, -, rfl⟩ | ⟨edit, -, rfl⟩⟩ := cases_of_register h
  · rw [hkind] at hfree
    exact Roster.find?_insert_of_notMem hfree hfound
  · exact hfound

/-! ### What holds of the transforms that are registered -/

/-- The text `name` can be written in a heading and does not read as a close tag. -/
def Writable (name : String) : Prop :=
  name ≠ "" ∧ name ≠ "end" ∧
    ∀ c ∈ name.toList, Text.isBlank c = false ∧ c ≠ '[' ∧ c ≠ ']' ∧ c ≠ ';' ∧ c ≠ '|'

theorem writable_iff : Writable name ↔ nameFlaw? name = none := by
  simp only [nameFlaw?_eq_none_iff, Writable, isReserved, Bool.or_eq_false_iff, beq_eq_false_iff_ne,
    and_assoc]

/-- What holds of the transforms that are registered: each knows its name, which can be written in a
heading, and no iterative one has a range that does not move. -/
structure Sound (set : Transforms) : Prop where
  /-- The iterative transforms. -/
  iterative : ∀ entry ∈ set.iterative.entries, entry.2.name = entry.1 ∧ Writable entry.1 ∧
    ∀ start stop, entry.2.strategy ≠ .range start stop 0
  /-- The persistent transforms. -/
  persistent : ∀ entry ∈ set.persistent.entries, entry.2.name = entry.1 ∧ Writable entry.1

theorem sound_empty : empty.Sound where
  iterative _ hentry := absurd hentry List.not_mem_nil
  persistent _ hentry := absurd hentry List.not_mem_nil

/-- A `call` that succeeds keeps to what is checked. -/
theorem Sound.register (hset : set.Sound) (h : set.register call = .ok later) : later.Sound := by
  obtain ⟨hname, -, ⟨transform, -, -, hown, hmoves, rfl⟩ | ⟨edit, -, rfl⟩⟩ := cases_of_register h
  · refine ⟨fun entry hentry => ?_, hset.persistent⟩
    rcases Roster.mem_place hentry with rfl | hentry
    · exact ⟨hown, writable_iff.2 hname, Strategy.isStuck_eq_false_iff.1 hmoves⟩
    · exact hset.iterative entry hentry
  · refine ⟨hset.iterative, fun entry hentry => ?_⟩
    rcases Roster.mem_place hentry with rfl | hentry
    · exact ⟨rfl, writable_iff.2 hname⟩
    · exact hset.persistent entry hentry

/-- On a sound `set` a `call` succeeds exactly if its name can be written and is free, and it is
founded. -/
theorem exists_register_iff (hset : set.Sound) :
    (∃ later, set.register call = .ok later) ↔
      nameFlaw? call.name = none ∧ call.name ∉ set.names call.kind ∧ call.Founded set := by
  constructor
  · rintro ⟨later, h⟩
    obtain ⟨hname, hfree, -⟩ := cases_of_register h
    refine ⟨hname, hfree, ?_⟩
    cases call with
    | iterative name strategy step => exact (registerIterative_eq_ok_iff.1 h).2.1
    | persistent name edit => trivial
    | clone source name =>
      obtain ⟨original, hfound, -⟩ := clone_eq_ok_iff.1 h
      exact Roster.isSome_lookup_iff.1 (Option.isSome_iff_exists.2 ⟨original, hfound⟩)
  · rintro ⟨hname, hfree, hfounded⟩
    cases call with
    | iterative name strategy step =>
      have hfree := Roster.contains_eq_false_iff.2 hfree
      exact ⟨_, registerIterative_eq_ok_iff.2 ⟨hname, hfounded, hfree, rfl⟩⟩
    | persistent name edit =>
      have hfree := Roster.contains_eq_false_iff.2 hfree
      exact ⟨_, registerPersistent_eq_ok_iff.2 ⟨hname, hfree, rfl⟩⟩
    | clone source name =>
      have hfree := Roster.contains_eq_false_iff.2 hfree
      obtain ⟨original, hfound⟩ := Roster.exists_find?_of_mem_names hfounded
      -- the range of a registered transform moves, and so does that of its copy
      have hmoves := (hset.iterative _ (Roster.find?_eq_some_iff.1 hfound)).2.2
      exact ⟨_, clone_eq_ok_iff.2 ⟨original, hfound, registerIterative_eq_ok_iff.2
        ⟨hname, Strategy.isStuck_eq_false_iff.2 hmoves, hfree, rfl⟩⟩⟩

/-! ### Runs -/

/-- What `call` leaves is sound if `set` is. -/
theorem Sound.run (hset : set.Sound) (call : Registration) : (call.run set).2.Sound := by
  rw [call.run_perform]
  cases h : set.register call with
  | ok later => exact hset.register h
  | error error => exact hset

/-- The iterative transform under `key` stays as it is whatever `call` is made. -/
theorem find?_run {transform : IterativeTransform}
    (hfound : set.iterative.find? key = some transform) (call : Registration) :
    (call.run set).2.iterative.find? key = some transform := by
  rw [call.run_perform]
  cases h : set.register call with
  | ok later => exact find?_register h hfound
  | error error => exact hfound

theorem registerEach_append (set : Transforms) (calls later : List Registration) :
    set.registerEach (calls ++ later) = (set.registerEach calls).registerEach later :=
  List.foldl_append

/-- What `calls` leave is sound if `set` is. -/
theorem Sound.registerEach (hset : set.Sound) (calls : List Registration) :
    (set.registerEach calls).Sound := by
  induction calls generalizing set with
  | nil => exact hset
  | cons call calls ih => exact ih (hset.run call)

/-- The iterative transform under `key` stays as it is whatever `calls` are made. -/
theorem find?_registerEach {transform : IterativeTransform}
    (hfound : set.iterative.find? key = some transform) (calls : List Registration) :
    (set.registerEach calls).iterative.find? key = some transform := by
  induction calls generalizing set with
  | nil => exact hfound
  | cons call calls ih => exact ih (find?_run hfound call)

theorem sound_registered (calls : List Registration) : (registered calls).Sound :=
  sound_empty.registerEach calls

/-- The names `name` and `source` stand for iterative transforms with the same strategy and the same
step function. -/
def Shares (set : Transforms) (name source : String) : Prop :=
  ∃ copy original : IterativeTransform, set.iterative.find? name = some copy ∧
    set.iterative.find? source = some original ∧ copy.strategy = original.strategy ∧
    copy.step = original.step

/-- A clone `name` that is made shares with its `source`. -/
theorem shares_of_clone (h : set.clone source name = .ok later) : later.Shares name source := by
  obtain ⟨-, original, copy, horiginal, hcopy, hsame⟩ := exists_of_clone h
  exact ⟨copy, original, hcopy, horiginal, hsame⟩

theorem Shares.trans {first second third : String} (h : set.Shares first second)
    (h' : set.Shares second third) : set.Shares first third := by
  obtain ⟨copy, middle, hcopy, hmiddle, hstrategy, hstep⟩ := h
  obtain ⟨middle', original, hmiddle', horiginal, hstrategy', hstep'⟩ := h'
  obtain rfl := Option.some.inj (hmiddle.symm.trans hmiddle')
  exact ⟨copy, original, hcopy, horiginal, hstrategy.trans hstrategy', hstep.trans hstep'⟩

/-- What shares goes on sharing whatever `calls` are made. -/
theorem Shares.registerEach (h : set.Shares name source) (calls : List Registration) :
    (set.registerEach calls).Shares name source := by
  obtain ⟨copy, original, hcopy, horiginal, hsame⟩ := h
  exact ⟨copy, original, find?_registerEach hcopy calls, find?_registerEach horiginal calls, hsame⟩

end Transforms

/-- One of the calls has made the transform `name` a clone of `source`. -/
def Registration.Copies (calls : List Registration) (name source : String) : Prop :=
  ∃ before after, calls = before ++ .clone source name :: after ∧
    ((Registration.clone source name).run (Transforms.registered before)).1 = .ok ()

namespace Transforms

variable {set : Transforms} {call : Registration} {calls : List Registration}
  {name source : String}

theorem shares_run (h : ((Registration.clone source name).run set).1 = .ok ()) :
    ((Registration.clone source name).run set).2.Shares name source := by
  rw [Registration.run_perform] at h ⊢
  cases hclone : set.register (.clone source name) with
  | ok later => exact shares_of_clone hclone
  | error error =>
    rw [hclone] at h
    cases h

/-- If `calls` make `name` a clone of `source`, it shares with it. -/
theorem shares_of_copies (h : Registration.Copies calls name source) :
    (registered calls).Shares name source := by
  obtain ⟨before, after, rfl, hanswer⟩ := h
  rw [registered, registerEach_append]
  exact (shares_run hanswer).registerEach after

/-- A clone `name` shares with its source, with the source of that, and so on. -/
theorem shares_of_transGen (h : Relation.TransGen (Registration.Copies calls) name source) :
    (registered calls).Shares name source := by
  induction h with
  | single h => exact shares_of_copies h
  | tail _ h ih => exact ih.trans (shares_of_copies h)

/-- On a sound `set` a `call` ends well exactly if its name can be written and is free, and what it
is founded on is there. -/
theorem run_eq_ok_iff (hset : set.Sound) :
    (call.run set).1 = .ok () ↔
      Writable call.name ∧ call.name ∉ set.names call.kind ∧ call.Founded set := by
  rw [writable_iff, ← exists_register_iff hset, call.run_perform]
  cases set.register call <;> simp [Registering.outcome]

/-- The registry `set` after any `calls` on a new one, in any order, whatever they are given. A
further `call` succeeds exactly if its name can be written and is free, and its strategy moves or
its source is there (`Founded`). Then it adds what it was given and touches nothing else (`Adds`);
otherwise it leaves the set as it was. The set is sound: each transform knows its name, which can be
written in a heading, and no range is stuck. And every clone `name` shares the strategy and the step
function of its `source`, and of the source of its source, if that is a clone. -/
theorem registry_run (calls : List Registration) :
    let set := registered calls
    (∀ call : Registration,
        ((call.run set).1 = .ok () ↔
          Writable call.name ∧ call.name ∉ set.names call.kind ∧ call.Founded set) ∧
        match call.run set with
        | (.ok (), later) => call.Adds set later
        | (.error _, later) => later = set) ∧
      set.Sound ∧
      ∀ name source, Relation.TransGen (Registration.Copies calls) name source →
        set.Shares name source := by
  intro set
  refine ⟨fun call => ⟨run_eq_ok_iff (sound_registered calls), ?_⟩, sound_registered calls,
    fun name source => shares_of_transGen⟩
  rw [call.run_perform]
  cases h : set.register call with
  | ok later => exact adds_of_register h
  | error error => rfl

/-- A clone of a clone, among calls that fail. -/
theorem registry_run_clones :
    let step : StepFunction := fun element _ memory => (.value element, memory)
    let calls : List Registration :=
      [.iterative "a" (.range 0 3 1) step, .iterative "r" (.range 0 3 0) step, .clone "a" "b",
        .clone "a" "end", .iterative "a" (.counted 2) step, .clone "b" "c"]
    (registered calls).iterative.names = ["a", "b", "c"] ∧
      Relation.TransGen (Registration.Copies calls) "c" "a" ∧
      (registered calls).Shares "c" "a" := by
  intro step calls
  have hcopies : Relation.TransGen (Registration.Copies calls) "c" "a" :=
    .head ⟨calls.take 5, [], rfl, by decide +kernel⟩
      (.single ⟨calls.take 2, calls.drop 3, rfl, by decide +kernel⟩)
  exact ⟨by decide +kernel, hcopies, (registry_run calls).2.2 "c" "a" hcopies⟩

end Transforms

end Stencil
