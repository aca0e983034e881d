import Mathlib.Data.List.Forall2
import Mathlib.Data.List.Nodup
import Mathlib.Data.Prod.Basic
import Stencil.Config
import Stencil.Proofs.Except
import Stencil.Proofs.Transform.Registry

/-!
# What a configuration declares

The transforms of a configuration are made in two passes. The first one looks at the tables alone,
the second one goes through them and registers what they declare. So a configuration can fail in
both, and what is declared is one run of registrations: those of the iterative transforms, then
those of the persistent ones, then those of the clones.

A run of registrations succeeds exactly if no two of them have the same kind and name, and if each
name is sound and free where the run starts. From this it follows which configurations can be built.

Main definitions:

* `Transforms.registerAll`: calls up to the first one that fails.
* `Config.iterativeCall`, `Config.persistentCall`, `Config.cloneCall`: what an entry of a table is
  registered by.
* `Config.Fits`: what is asked of a configuration.

Main statements:

* `exists_registerAll_iff`: when a run of registrations succeeds.
* `build_eq_ok_iff`: to build a configuration is to look it over and to make its calls.
* `build_ok_iff`: which configurations can be built, and what comes of it.
-/

namespace Stencil

/-! ### Runs of registrations -/

/-- What `call` takes up: a name among the transforms of a kind. -/
def Registration.key (call : Registration) : TransformKind × String :=
  (call.kind, call.name)

namespace Transforms

variable {set middle later : Transforms} {call other : Registration}
  {calls calls' : List Registration} {kind : TransformKind} {name source : String}

/-- Makes calls one after the other, up to the first one that fails. -/
def registerAll : List Registration → Transforms → Except SetupError Transforms
  | [], set => .ok set
  | call :: calls, set =>
    match set.register call with
    | .error error => .error error
    | .ok set => registerAll calls set

theorem registerAll_cons_eq_ok_iff :
    registerAll (call :: calls) set = .ok later ↔
      ∃ middle, set.register call = .ok middle ∧ registerAll calls middle = .ok later := by
  rw [registerAll]
  cases set.register call <;> simp

theorem registerAll_append_eq_ok_iff :
    registerAll (calls ++ calls') set = .ok later ↔
      ∃ middle, registerAll calls set = .ok middle ∧ registerAll calls' middle = .ok later := by
  induction calls generalizing set with
  | nil => simp [registerAll]
  | cons call calls ih =>
    simp only [List.cons_append, registerAll_cons_eq_ok_iff, ih]
    constructor
    · rintro ⟨first, hfirst, middle, hmiddle, hlater⟩
      exact ⟨middle, ⟨first, hfirst, hmiddle⟩, hlater⟩
    · rintro ⟨middle, ⟨first, hfirst, hmiddle⟩, hlater⟩
      exact ⟨first, hfirst, middle, hmiddle, hlater⟩

/-- If none of `calls` fails, they leave what they leave one after the other. -/
theorem registerEach_of_registerAll (h : registerAll calls set = .ok later) :
    set.registerEach calls = later := by
  induction calls generalizing set with
  | nil => exact Except.ok.inj h
  | cons call calls ih =>
    obtain ⟨middle, hmiddle, hlater⟩ := registerAll_cons_eq_ok_iff.1 h
    have hrun : (call.run set).2 = middle := by
      rw [call.run_perform, hmiddle]
      rfl
    rw [← ih hlater, ← hrun]
    rfl

/-- The names of `later`, after `calls` that succeed. -/
theorem mem_names_registerAll (h : registerAll calls set = .ok later) :
    name ∈ later.names kind ↔
      (kind, name) ∈ calls.map Registration.key ∨ name ∈ set.names kind := by
  induction calls generalizing set with
  | nil => simp [Except.ok.inj h]
  | cons call calls ih =>
    obtain ⟨middle, hmiddle, hlater⟩ := registerAll_cons_eq_ok_iff.1 h
    rw [ih hlater, mem_names_register hmiddle, List.map_cons, List.mem_cons, Registration.key,
      Prod.mk.injEq]
    tauto

/-- If `calls` succeed and one of them clones `source` as `name`, the clone shares with it. -/
theorem shares_of_mem (h : registerAll calls set = .ok later)
    (hcall : .clone source name ∈ calls) : later.Shares name source := by
  induction calls generalizing set with
  | nil => cases hcall
  | cons call calls ih =>
    obtain ⟨middle, hmiddle, hlater⟩ := registerAll_cons_eq_ok_iff.1 h
    rcases List.mem_cons.1 hcall with rfl | hcall
    · exact registerEach_of_registerAll hlater ▸ (shares_of_clone hmiddle).registerEach calls
    · exact ih hlater hcall

/-- What `call` is founded on is not taken away by an `other` one. -/
theorem founded_register (h : set.register other = .ok later) (hfounded : call.Founded set) :
    call.Founded later := by
  cases call with
  | iterative | persistent => exact hfounded
  | clone source name =>
    have hsource : source ∈ later.names .iterative ↔ _ := mem_names_register h
    exact hsource.2 (.inr hfounded)

/-- When `calls` succeed that are founded in `set`: no two of them are of the same kind and name,
and each name is sound and free in `set`. -/
theorem exists_registerAll_iff (hset : set.Sound) (hfounded : ∀ call ∈ calls, call.Founded set) :
    (∃ later, registerAll calls set = .ok later) ↔
      (calls.map Registration.key).Nodup ∧
        ∀ key ∈ calls.map Registration.key, nameFlaw? key.2 = none ∧ key.2 ∉ set.names key.1 := by
  induction calls generalizing set with
  | nil => simp [registerAll]
  | cons call calls ih =>
    -- what the other calls are founded on is there after the first one, too
    have hrest : ∀ middle, set.register call = .ok middle →
        ((∃ later, registerAll calls middle = .ok later) ↔
          (calls.map Registration.key).Nodup ∧
            ∀ key ∈ calls.map Registration.key,
              nameFlaw? key.2 = none ∧ key.2 ∉ middle.names key.1) := fun middle hmiddle =>
      ih (hset.register hmiddle) fun other hother =>
        founded_register hmiddle (hfounded other (List.mem_cons_of_mem _ hother))
    rw [List.map_cons, List.nodup_cons, List.forall_mem_cons]
    constructor
    · rintro ⟨later, h⟩
      obtain ⟨middle, hmiddle, hlater⟩ := registerAll_cons_eq_ok_iff.1 h
      obtain ⟨hname, hfree, -⟩ := (exists_register_iff hset).1 ⟨middle, hmiddle⟩
      obtain ⟨hdistinct, hothers⟩ := (hrest middle hmiddle).1 ⟨later, hlater⟩
      simp only [mem_names_register hmiddle, not_or] at hothers
      exact ⟨⟨fun hmem => (hothers _ hmem).2.1 ⟨rfl, rfl⟩, hdistinct⟩, ⟨hname, hfree⟩,
        fun key hkey => ⟨(hothers key hkey).1, (hothers key hkey).2.2⟩⟩
    · rintro ⟨⟨hnew, hdistinct⟩, ⟨hname, hfree⟩, hothers⟩
      obtain ⟨middle, hmiddle⟩ := (exists_register_iff hset).2
        ⟨hname, hfree, hfounded call List.mem_cons_self⟩
      -- a name that is taken now was taken before, or is that of the first call
      have hlater : ∀ key ∈ calls.map Registration.key,
          nameFlaw? key.2 = none ∧ key.2 ∉ middle.names key.1 := by
        refine fun key hkey => ⟨(hothers key hkey).1, fun hmem => ?_⟩
        rcases (mem_names_register hmiddle).1 hmem with ⟨hkind, hname⟩ | hmem
        · have heq : key = call.key := Prod.ext hkind hname
          exact hnew (heq ▸ hkey)
        · exact (hothers key hkey).2 hmem
      obtain ⟨later, h⟩ := (hrest middle hmiddle).2 ⟨hdistinct, hlater⟩
      exact ⟨later, registerAll_cons_eq_ok_iff.2 ⟨middle, hmiddle, h⟩⟩

end Transforms

theorem Manifest.exists_resolveAll_iff {manifest : Manifest} {keywords : List String} :
    (∃ paths, manifest.resolveAll keywords = .ok paths) ↔
      ∀ keyword ∈ keywords, keyword ≠ "" ∧ keyword ∈ manifest.keywords := by
  induction keywords with
  | nil => simp [resolveAll]
  | cons keyword keywords ih =>
    rw [List.forall_mem_cons, ← ih, resolveAll]
    have hkeyword : (∃ path, manifest.resolve keyword = .ok path) ↔
        keyword ≠ "" ∧ keyword ∈ manifest.keywords := by
      simp only [resolve_eq_ok_iff, exists_and_left, exists_eq, and_true]
    rw [← hkeyword]
    cases manifest.resolve keyword with
    | error error => simp
    | ok path => cases manifest.resolveAll keywords <;> simp [Except.map]

theorem StrategySpec.isCorpus_eq_true_iff {spec : StrategySpec} :
    spec.isCorpus = true ↔ ∃ keywords, spec = .corpus keywords := by
  cases spec <;> simp [isCorpus]

/-- The names of `roster` are all different. -/
theorem Roster.nodup_names {α : Type} (roster : Roster α) : roster.names.Nodup := by
  refine List.Pairwise.map _ (fun first second h heq => ?_) roster.ascending
  exact String.lt_irrefl _ (heq ▸ h)

namespace Config

variable {config : Config} {files : Files} {base : Path} {manifest : Option Manifest}
  {name : String} {spec : StrategySpec} {set later : Transforms} {calls : List Registration}

/-! ### What an entry is registered by -/

/-- The call that registers the iterative transform of `entry` as it is declared. -/
def iterativeCall (base : Path) (manifest : Option Manifest) (entry : String × IterativeSpec) :
    Except ConfigError Registration :=
  (strategyOf base manifest entry.1 entry.2.strategy).map fun strategy =>
    .iterative entry.1 strategy (Format.step entry.2.format)

/-- The call that registers the persistent transform of `entry` as it is declared. -/
def persistentCall (entry : String × List TextOp) : Registration :=
  .persistent entry.1 (TextOp.edit entry.2)

/-- The call that registers the clone of `entry` as it is declared. -/
def cloneCall (entry : String × String) : Registration :=
  .clone entry.2 entry.1

/-- The calls that register the entries of a table of iterative transforms. -/
def Calls (base : Path) (manifest : Option Manifest) :
    List (String × IterativeSpec) → List Registration → Prop :=
  List.Forall₂ fun entry call => iterativeCall base manifest entry = .ok call

theorem addIterative_cons_eq_ok_iff {entry : String × IterativeSpec}
    {entries : List (String × IterativeSpec)} :
    addIterative base manifest (entry :: entries) set = .ok later ↔
      ∃ call middle, iterativeCall base manifest entry = .ok call ∧
        set.register call = .ok middle ∧ addIterative base manifest entries middle = .ok later := by
  rw [addIterative, iterativeCall]
  cases strategyOf base manifest entry.1 entry.2.strategy with
  | error error => simp [Except.map]
  | ok strategy =>
    simp only [Except.map, Except.ok.injEq, exists_and_left, exists_eq_left', Transforms.register]
    cases set.registerIterative entry.1 strategy (Format.step entry.2.format) <;> simp

/-- To register what `entries` declare is to find their strategies and to make the calls. -/
theorem addIterative_eq_ok_iff {entries : List (String × IterativeSpec)} :
    addIterative base manifest entries set = .ok later ↔
      ∃ calls, Calls base manifest entries calls ∧
        Transforms.registerAll calls set = .ok later := by
  induction entries generalizing set with
  | nil => simp [addIterative, Transforms.registerAll, Calls]
  | cons entry entries ih =>
    rw [addIterative_cons_eq_ok_iff]
    constructor
    · rintro ⟨call, middle, hcall, hmiddle, h⟩
      obtain ⟨calls, hcalls, hlater⟩ := ih.1 h
      exact ⟨call :: calls, .cons hcall hcalls,
        Transforms.registerAll_cons_eq_ok_iff.2 ⟨middle, hmiddle, hlater⟩⟩
    · rintro ⟨calls, hcalls, h⟩
      obtain ⟨call, rest, hcall, hrest, rfl⟩ := List.forall₂_cons_left_iff.1 hcalls
      obtain ⟨middle, hmiddle, hlater⟩ := Transforms.registerAll_cons_eq_ok_iff.1 h
      exact ⟨call, middle, hcall, hmiddle, ih.2 ⟨rest, hrest, hlater⟩⟩

theorem addPersistent_eq_ok_iff {entries : List (String × List TextOp)} :
    addPersistent entries set = .ok later ↔
      Transforms.registerAll (entries.map persistentCall) set = .ok later := by
  induction entries generalizing set with
  | nil => simp [addPersistent, Transforms.registerAll]
  | cons entry entries ih =>
    rw [addPersistent, List.map_cons, Transforms.registerAll_cons_eq_ok_iff, persistentCall,
      Transforms.register]
    cases set.registerPersistent entry.1 (TextOp.edit entry.2) <;> simp [ih]

theorem addClones_eq_ok_iff {entries : List (String × String)} :
    addClones entries set = .ok later ↔
      Transforms.registerAll (entries.map cloneCall) set = .ok later := by
  induction entries generalizing set with
  | nil => simp [addClones, Transforms.registerAll]
  | cons entry entries ih =>
    rw [addClones, List.map_cons, Transforms.registerAll_cons_eq_ok_iff, cloneCall,
      Transforms.register]
    cases set.clone entry.2 entry.1 <;> simp [ih]

/-! ### The calls of the iterative transforms -/

theorem exists_strategyOf_iff :
    (∃ strategy, strategyOf base manifest name spec = .ok strategy) ↔
      (∀ start stop, spec ≠ .range start stop 0) ∧
        ∀ keywords, spec = .corpus keywords → ∃ listed, manifest = some listed ∧
          ∀ keyword ∈ keywords, keyword ≠ "" ∧ keyword ∈ listed.keywords := by
  cases spec with
  | range start stop step =>
    have hmoves : (∃ strategy, Strategy.range? start stop step = .ok strategy) ↔
        ¬ (Strategy.range start stop step).isStuck = true := by
      rw [Strategy.range?]
      split <;> simp [*]
    rw [strategyOf, Except.exists_mapError_eq_ok_iff, hmoves, Bool.not_eq_true,
      Strategy.isStuck_eq_false_iff]
    simp
  | corpus keywords =>
    cases manifest with
    | none => simp [strategyOf]
    | some listed =>
      rw [strategyOf, Except.exists_mapError_eq_ok_iff, Strategy.corpora,
        Except.exists_map_eq_ok_iff, Manifest.exists_resolveAll_iff]
      simp
  | counted | list | files | observed => simp [strategyOf]

/-- No `strategy` that is found is a range that does not move. -/
theorem isStuck_of_strategyOf {strategy : Strategy}
    (h : strategyOf base manifest name spec = .ok strategy) : strategy.isStuck = false := by
  cases spec with
  | range start stop step =>
    rw [strategyOf, Strategy.range?] at h
    split at h
    · cases h
    · rename_i hmoves
      exact Except.ok.inj h ▸ Bool.eq_false_iff.2 hmoves
  | corpus keywords =>
    cases manifest with
    | none => cases h
    | some listed =>
      rw [strategyOf, Strategy.corpora] at h
      cases hpaths : listed.resolveAll keywords with
      | error error =>
        rw [hpaths] at h
        cases h
      | ok paths =>
        rw [hpaths] at h
        exact Except.ok.inj h ▸ rfl
  | counted | list | files | observed => exact Except.ok.inj h ▸ rfl

theorem exists_iterativeCall_iff {entry : String × IterativeSpec} :
    (∃ call, iterativeCall base manifest entry = .ok call) ↔
      ∃ strategy, strategyOf base manifest entry.1 entry.2.strategy = .ok strategy :=
  Except.exists_map_eq_ok_iff

theorem iterativeCall_eq_ok_iff {entry : String × IterativeSpec} {call : Registration} :
    iterativeCall base manifest entry = .ok call ↔
      ∃ strategy, strategyOf base manifest entry.1 entry.2.strategy = .ok strategy ∧
        call = .iterative entry.1 strategy (Format.step entry.2.format) := by
  rw [iterativeCall]
  cases strategyOf base manifest entry.1 entry.2.strategy <;> simp [Except.map, eq_comm]

theorem exists_calls_iff {entries : List (String × IterativeSpec)} :
    (∃ calls, Calls base manifest entries calls) ↔
      ∀ entry ∈ entries, ∃ strategy,
        strategyOf base manifest entry.1 entry.2.strategy = .ok strategy := by
  induction entries with
  | nil => simp [Calls]
  | cons entry entries ih =>
    rw [List.forall_mem_cons, ← ih, ← exists_iterativeCall_iff]
    simp only [Calls, List.forall₂_cons_left_iff]
    constructor
    · rintro ⟨-, call, calls, hcall, hcalls, rfl⟩
      exact ⟨⟨call, hcall⟩, calls, hcalls⟩
    · rintro ⟨⟨call, hcall⟩, calls, hcalls⟩
      exact ⟨call :: calls, call, calls, hcall, hcalls, rfl⟩

/-- The `calls` take up the names of `entries`, and each is given a strategy that moves. -/
theorem Calls.keys_and_founded {entries : List (String × IterativeSpec)}
    (h : Calls base manifest entries calls) (set : Transforms) :
    calls.map Registration.key = (entries.map (·.1)).map (Prod.mk .iterative) ∧
      ∀ call ∈ calls, call.Founded set := by
  induction h with
  | nil => simp
  | cons hcall _ ih =>
    obtain ⟨strategy, hstrategy, rfl⟩ := iterativeCall_eq_ok_iff.1 hcall
    rw [List.map_cons, List.map_cons, List.map_cons, ih.1, List.forall_mem_cons]
    exact ⟨rfl, isStuck_of_strategyOf hstrategy, ih.2⟩

/-! ### The first pass -/

theorem flawOf_eq_none_iff {entry : String × IterativeSpec} :
    config.flawOf entry.1 entry.2 = none ↔
      (∀ start stop, entry.2.strategy ≠ .range start stop 0) ∧
        (∀ keywords, entry.2.strategy = .corpus keywords → config.corpusDir ≠ none) ∧
        (entry.2.strategy = .observed → config.observedWords ≠ none) := by
  rw [flawOf]
  cases entry.2.strategy <;> simp [toInt_eq_zero_iff]

theorem flaw?_eq_none_iff :
    config.flaw? = none ↔
      (∀ entry ∈ config.iterative.entries, config.flawOf entry.1 entry.2 = none) ∧
        (∀ entry ∈ config.persistent.entries, entry.2 ≠ []) ∧
        ∀ entry ∈ config.clones.entries, entry.2 ∈ config.iterative.names := by
  simp [flaw?, List.findSome?_eq_none_iff, Roster.contains_eq_true_iff, and_assoc]

theorem usesCorpus_iff :
    config.usesCorpus = true ↔
      ∃ entry ∈ config.iterative.entries, ∃ keywords, entry.2.strategy = .corpus keywords := by
  rw [usesCorpus, List.any_eq_true]
  simp only [StrategySpec.isCorpus_eq_true_iff]

theorem manifest?_eq_ok_iff {directory : Path} (huses : config.usesCorpus = true)
    (hdirectory : config.corpusDir = some directory) :
    config.manifest? files base = .ok manifest ↔
      ∃ listed, Manifest.load files (base.join directory) = .ok listed ∧
        manifest = some listed := by
  rw [manifest?, corpusRoot?, if_pos huses, hdirectory, Option.map_some]
  dsimp only
  cases Manifest.load files (base.join directory) <;> simp [eq_comm]

theorem manifest?_of_not_usesCorpus (h : ¬ config.usesCorpus = true) :
    config.manifest? files base = .ok none := by
  rw [manifest?, corpusRoot?, if_neg h]

/-! ### Both passes -/

theorem build_eq_ok_iff_tables :
    config.build files base = .ok set ↔
      config.flaw? = none ∧ ∃ manifest first second, config.manifest? files base = .ok manifest ∧
        addIterative base manifest config.iterative.entries .empty = .ok first ∧
        addPersistent config.persistent.entries first = .ok second ∧
        addClones config.clones.entries second = .ok set := by
  rw [build, validate]
  cases config.flaw? with
  | some error => simp
  | none =>
    cases config.manifest? files base with
    | error error => simp
    | ok manifest =>
      simp only [true_and, Except.ok.injEq, exists_and_left, exists_eq_left']
      cases addIterative base manifest config.iterative.entries .empty with
      | error error => simp
      | ok first =>
        simp only [Except.ok.injEq, exists_eq_left']
        cases addPersistent config.persistent.entries first <;> simp

/-- To build `config` is to look it over and to make its calls. -/
theorem build_eq_ok_iff :
    config.build files base = .ok set ↔
      config.flaw? = none ∧ ∃ manifest calls middle, config.manifest? files base = .ok manifest ∧
        Calls base manifest config.iterative.entries calls ∧
        Transforms.registerAll (calls ++ config.persistent.entries.map persistentCall) .empty =
          .ok middle ∧
        Transforms.registerAll (config.clones.entries.map cloneCall) middle = .ok set := by
  simp only [build_eq_ok_iff_tables, addIterative_eq_ok_iff, addPersistent_eq_ok_iff,
    addClones_eq_ok_iff, Transforms.registerAll_append_eq_ok_iff]
  refine and_congr_right fun _ => exists_congr fun manifest => ?_
  constructor
  · rintro ⟨first, second, hmanifest, ⟨calls, hcalls, hfirst⟩, hsecond, hset⟩
    exact ⟨calls, second, hmanifest, hcalls, ⟨first, hfirst, hsecond⟩, hset⟩
  · rintro ⟨calls, second, hmanifest, hcalls, ⟨first, hfirst, hsecond⟩, hset⟩
    exact ⟨first, second, hmanifest, ⟨calls, hcalls, hfirst⟩, hsecond, hset⟩

/-- Each name of `roster` is taken up once. -/
theorem nodup_keys {α : Type} (roster : Roster α) (kind : TransformKind) :
    (roster.names.map (Prod.mk kind)).Nodup :=
  List.Nodup.map (Prod.mk_right_injective kind) roster.nodup_names

/-- The calls of the persistent transforms of `config` take up their names. -/
theorem keys_persistent (config : Config) :
    (config.persistent.entries.map persistentCall).map Registration.key =
      config.persistent.names.map (Prod.mk .persistent) := by
  rw [List.map_map, Roster.names, List.map_map]
  rfl

/-- The calls of the clones of `config` take up their names, among the iterative transforms. -/
theorem keys_clones (config : Config) :
    (config.clones.entries.map cloneCall).map Registration.key =
      config.clones.names.map (Prod.mk .iterative) := by
  rw [List.map_map, Roster.names, List.map_map]
  rfl

section Calls

variable {middle : Transforms} (hcalls : Calls base manifest config.iterative.entries calls)
include hcalls

/-- The `calls` of the iterative transforms and those of the persistent ones take up the names of
the two tables of `config`. -/
theorem keys_tables :
    (calls ++ config.persistent.entries.map persistentCall).map Registration.key =
      config.iterative.names.map (Prod.mk .iterative) ++
        config.persistent.names.map (Prod.mk .persistent) := by
  rw [List.map_append, (hcalls.keys_and_founded .empty).1, keys_persistent]
  rfl

/-- The names of `middle`, after the calls of the iterative and the persistent transforms. -/
theorem mem_names_middle
    (h : Transforms.registerAll (calls ++ config.persistent.entries.map persistentCall) .empty =
      .ok middle) (name : String) :
    (name ∈ middle.iterative.names ↔ name ∈ config.iterative.names) ∧
      (name ∈ middle.persistent.names ↔ name ∈ config.persistent.names) := by
  have hnames : ∀ kind, name ∈ middle.names kind ↔
      (kind, name) ∈ config.iterative.names.map (Prod.mk .iterative) ++
        config.persistent.names.map (Prod.mk .persistent) := by
    intro kind
    have hnone : name ∉ Transforms.empty.names kind := by
      cases kind <;> exact List.not_mem_nil
    rw [Transforms.mem_names_registerAll h, keys_tables hcalls, or_iff_left hnone]
  exact ⟨by simpa using hnames .iterative, by simpa using hnames .persistent⟩

/-- The calls of the iterative and the persistent transforms of `config` succeed exactly if their
names can be written. -/
theorem exists_middle_iff :
    (∃ middle, Transforms.registerAll (calls ++ config.persistent.entries.map persistentCall)
        .empty = .ok middle) ↔
      (∀ name ∈ config.iterative.names, Transforms.nameFlaw? name = none) ∧
        ∀ name ∈ config.persistent.names, Transforms.nameFlaw? name = none := by
  have hfounded : ∀ call ∈ calls ++ config.persistent.entries.map persistentCall,
      call.Founded .empty := by
    intro call hcall
    rcases List.mem_append.1 hcall with hcall | hcall
    · exact (hcalls.keys_and_founded .empty).2 call hcall
    · obtain ⟨entry, -, rfl⟩ := List.mem_map.1 hcall
      trivial
  -- the two tables may have names in common, but of different kinds
  have hdistinct : (config.iterative.names.map (Prod.mk TransformKind.iterative) ++
      config.persistent.names.map (Prod.mk TransformKind.persistent)).Nodup := by
    refine List.nodup_append.2 ⟨nodup_keys _ _, nodup_keys _ _, fun key hkey key' hkey' heq => ?_⟩
    obtain ⟨name, -, rfl⟩ := List.mem_map.1 hkey
    obtain ⟨name', -, rfl⟩ := List.mem_map.1 hkey'
    cases heq
  rw [Transforms.exists_registerAll_iff Transforms.sound_empty hfounded, keys_tables hcalls,
    List.forall_mem_append, List.forall_mem_map, List.forall_mem_map, and_iff_right hdistinct]
  have hnone : ∀ name kind, name ∉ Transforms.empty.names kind := by
    intro name kind
    cases kind <;> exact List.not_mem_nil
  simp only [hnone, not_false_eq_true, and_true]

/-- The calls of the clones of `config` succeed exactly if their names can be written and are free,
if each of them is one of an iterative transform of `config`. -/
theorem exists_clones_iff
    (h : Transforms.registerAll (calls ++ config.persistent.entries.map persistentCall) .empty =
      .ok middle)
    (hsources : ∀ entry ∈ config.clones.entries, entry.2 ∈ config.iterative.names) :
    (∃ set, Transforms.registerAll (config.clones.entries.map cloneCall) middle = .ok set) ↔
      ∀ name ∈ config.clones.names,
        Transforms.nameFlaw? name = none ∧ name ∉ config.iterative.names := by
  have hnames := fun name => (mem_names_middle hcalls h name).1
  -- the sources are registered before the copies
  have hfounded : ∀ call ∈ config.clones.entries.map cloneCall, call.Founded middle := by
    intro call hcall
    obtain ⟨entry, hentry, rfl⟩ := List.mem_map.1 hcall
    exact (hnames entry.2).2 (hsources entry hentry)
  have hsound : middle.Sound :=
    Transforms.registerEach_of_registerAll h ▸ Transforms.sound_registered _
  rw [Transforms.exists_registerAll_iff hsound hfounded, keys_clones, List.forall_mem_map,
    and_iff_right (nodup_keys _ _)]
  simp only [Transforms.names_iterative, hnames]

end Calls

/-! ### Which configurations can be built -/

/-- What is asked of a configuration. -/
structure Fits (config : Config) (files : Files) (base : Path) : Prop where
  /-- Every range moves. -/
  moves : ∀ entry ∈ config.iterative.entries, ∀ start stop, entry.2.strategy ≠ .range start stop 0
  /-- A transform that iterates over corpora has a directory with a manifest that can be read and
  lists its keywords, none of which is empty. -/
  corpora : ∀ entry ∈ config.iterative.entries, ∀ keywords, entry.2.strategy = .corpus keywords →
    ∃ directory manifest, config.corpusDir = some directory ∧
      Manifest.load files (base.join directory) = .ok manifest ∧
      ∀ keyword ∈ keywords, keyword ≠ "" ∧ keyword ∈ manifest.keywords
  /-- There is a wordlist if a transform iterates over observed words. -/
  observed : ∀ entry ∈ config.iterative.entries, entry.2.strategy = .observed →
    ∃ path, config.observedWords = some path
  /-- Every persistent transform has operations. -/
  operations : ∀ entry ∈ config.persistent.entries, entry.2 ≠ []
  /-- Every clone is one of an iterative transform of the configuration. -/
  sources : ∀ entry ∈ config.clones.entries, entry.2 ∈ config.iterative.names
  /-- All names can be registered. -/
  names : ∀ name ∈ config.iterative.names ++ config.persistent.names ++ config.clones.names,
    Transforms.nameFlaw? name = none
  /-- No clone has the name of an iterative transform of the configuration. -/
  apart : ∀ name ∈ config.clones.names, name ∉ config.iterative.names

/-- What is asked of the iterative transforms of `config`, in the two passes together. -/
theorem strategies_iff :
    ((∀ entry ∈ config.iterative.entries, config.flawOf entry.1 entry.2 = none) ∧
        ∃ manifest, config.manifest? files base = .ok manifest ∧
          ∀ entry ∈ config.iterative.entries, ∃ strategy,
            strategyOf base manifest entry.1 entry.2.strategy = .ok strategy) ↔
      (∀ entry ∈ config.iterative.entries, ∀ start stop,
          entry.2.strategy ≠ .range start stop 0) ∧
        (∀ entry ∈ config.iterative.entries, ∀ keywords, entry.2.strategy = .corpus keywords →
          ∃ directory manifest, config.corpusDir = some directory ∧
            Manifest.load files (base.join directory) = .ok manifest ∧
            ∀ keyword ∈ keywords, keyword ≠ "" ∧ keyword ∈ manifest.keywords) ∧
        ∀ entry ∈ config.iterative.entries, entry.2.strategy = .observed →
          ∃ path, config.observedWords = some path := by
  simp only [flawOf_eq_none_iff, exists_strategyOf_iff]
  constructor
  · rintro ⟨hflaws, manifest, hmanifest, hfound⟩
    refine ⟨fun entry hentry => (hflaws entry hentry).1, fun entry hentry keywords hcorpus => ?_,
      fun entry hentry hobserved =>
        Option.ne_none_iff_exists'.1 ((hflaws entry hentry).2.2 hobserved)⟩
    obtain ⟨directory, hdirectory⟩ :=
      Option.ne_none_iff_exists'.1 ((hflaws entry hentry).2.1 keywords hcorpus)
    have huses := usesCorpus_iff.2 ⟨entry, hentry, keywords, hcorpus⟩
    obtain ⟨listed, hlisted, rfl⟩ := (manifest?_eq_ok_iff huses hdirectory).1 hmanifest
    obtain ⟨_, heq, hkeywords⟩ := (hfound entry hentry).2 keywords hcorpus
    obtain rfl := Option.some.inj heq
    exact ⟨directory, listed, hdirectory, hlisted, hkeywords⟩
  · rintro ⟨hmoves, hcorpora, hobserved⟩
    refine ⟨fun entry hentry => ⟨hmoves entry hentry, fun keywords hcorpus => ?_, fun hwords =>
      Option.ne_none_iff_exists'.2 (hobserved entry hentry hwords)⟩, ?_⟩
    · obtain ⟨directory, -, hdirectory, -⟩ := hcorpora entry hentry keywords hcorpus
      exact Option.ne_none_iff_exists'.2 ⟨directory, hdirectory⟩
    · by_cases huses : config.usesCorpus = true
      · -- all corpora have the manifest of the one that asks for it first
        obtain ⟨first, hfirst, keywords, hcorpus⟩ := usesCorpus_iff.1 huses
        obtain ⟨directory, listed, hdirectory, hlisted, -⟩ :=
          hcorpora first hfirst keywords hcorpus
        refine ⟨some listed, (manifest?_eq_ok_iff huses hdirectory).2 ⟨listed, hlisted, rfl⟩,
          fun entry hentry => ⟨hmoves entry hentry, fun keywords hcorpus => ?_⟩⟩
        obtain ⟨_, _, hdirectory', hlisted', hkeywords⟩ := hcorpora entry hentry keywords hcorpus
        obtain rfl := Option.some.inj (hdirectory.symm.trans hdirectory')
        obtain rfl := Except.ok.inj (hlisted.symm.trans hlisted')
        exact ⟨listed, rfl, hkeywords⟩
      · exact ⟨none, manifest?_of_not_usesCorpus huses, fun entry hentry =>
          ⟨hmoves entry hentry, fun keywords hcorpus =>
            absurd (usesCorpus_iff.2 ⟨entry, hentry, keywords, hcorpus⟩) huses⟩⟩

/-- If `config` can be built, it fits together. -/
theorem fits_of_build (h : config.build files base = .ok set) : config.Fits files base := by
  obtain ⟨hflaw, manifest, calls, middle, hmanifest, hcalls, hmiddle, hset⟩ := build_eq_ok_iff.1 h
  obtain ⟨hflaws, hoperations, hsources⟩ := flaw?_eq_none_iff.1 hflaw
  obtain ⟨hmoves, hcorpora, hobserved⟩ :=
    strategies_iff.1 ⟨hflaws, manifest, hmanifest, exists_calls_iff.1 ⟨calls, hcalls⟩⟩
  obtain ⟨hiterative, hpersistent⟩ := (exists_middle_iff hcalls).1 ⟨middle, hmiddle⟩
  have hclones := (exists_clones_iff hcalls hmiddle hsources).1 ⟨set, hset⟩
  refine ⟨hmoves, hcorpora, hobserved, hoperations, hsources, ?_,
    fun name hname => (hclones name hname).2⟩
  rw [List.forall_mem_append, List.forall_mem_append]
  exact ⟨⟨hiterative, hpersistent⟩, fun name hname => (hclones name hname).1⟩

/-- If `config` fits together, it can be built. -/
theorem Fits.exists_build (h : config.Fits files base) :
    ∃ set, config.build files base = .ok set := by
  obtain ⟨hflaws, manifest, hmanifest, hfound⟩ :=
    strategies_iff.2 ⟨h.moves, h.corpora, h.observed⟩
  obtain ⟨calls, hcalls⟩ := exists_calls_iff.2 hfound
  obtain ⟨htables, hclones⟩ := List.forall_mem_append.1 h.names
  obtain ⟨middle, hmiddle⟩ := (exists_middle_iff hcalls).2 (List.forall_mem_append.1 htables)
  obtain ⟨set, hset⟩ := (exists_clones_iff hcalls hmiddle h.sources).2
    fun name hname => ⟨hclones name hname, h.apart name hname⟩
  exact ⟨set, build_eq_ok_iff.2 ⟨flaw?_eq_none_iff.2 ⟨hflaws, h.operations, h.sources⟩, manifest,
    calls, middle, hmanifest, hcalls, hmiddle, hset⟩⟩

/-- Transforms can be built from `config` exactly if it fits together (`Config.Fits`). Then the
names of `set.iterative` are those of `config.iterative` and of `config.clones`, the names of
`set.persistent` are those of `config.persistent`, and the transform of each entry of
`config.clones` shares its strategy and its step function with its source. -/
theorem build_ok_iff (config : Config) (files : Files) (base : Path) :
    ((∃ set, config.build files base = .ok set) ↔ config.Fits files base) ∧
      ∀ set, config.build files base = .ok set →
        (∀ name, name ∈ set.iterative.names ↔
            name ∈ config.iterative.names ∨ name ∈ config.clones.names) ∧
          (∀ name, name ∈ set.persistent.names ↔ name ∈ config.persistent.names) ∧
          ∀ entry ∈ config.clones.entries, set.Shares entry.1 entry.2 := by
  refine ⟨⟨fun ⟨_, h⟩ => fits_of_build h, Fits.exists_build⟩, fun set h => ?_⟩
  obtain ⟨-, manifest, calls, middle, -, hcalls, hmiddle, hset⟩ := build_eq_ok_iff.1 h
  -- the copies come behind all other transforms
  have hnames : ∀ kind name, name ∈ set.names kind ↔
      (kind, name) ∈ config.clones.names.map (Prod.mk .iterative) ∨ name ∈ middle.names kind := by
    intro kind name
    rw [Transforms.mem_names_registerAll hset, keys_clones]
  refine ⟨fun name => ?_, fun name => ?_, fun entry hentry => ?_⟩
  · have hiterative := hnames .iterative name
    rw [Transforms.names_iterative, Transforms.names_iterative,
      (mem_names_middle hcalls hmiddle name).1] at hiterative
    simpa [or_comm] using hiterative
  · have hpersistent := hnames .persistent name
    rw [Transforms.names_persistent, Transforms.names_persistent,
      (mem_names_middle hcalls hmiddle name).2] at hpersistent
    simpa using hpersistent
  · exact Transforms.shares_of_mem hset (List.mem_map_of_mem hentry)

/-- A configuration with corpora, a range, a persistent transform and a clone. -/
theorem build_ok_iff_corpus :
    let config : Config :=
      { corpusDir := some ⟨"words"⟩
        iterative := ⟨[("port", ⟨.range 80 83 1, "{element}"⟩), ("verb", ⟨.corpus ["verbs"], "-"⟩)],
          by decide⟩
        persistent := ⟨[("shout", [.trim, .upper])], by decide⟩
        clones := ⟨[("verb2", "verb")], by decide⟩ }
    let files : Files :=
      ⟨fun path => if path.text = "conf/words/manifest.txt" then .ok "verbs.pay\n"
        else .error .notFound⟩
    config.Fits files ⟨"conf"⟩ ∧
      ∃ set, config.build files ⟨"conf"⟩ = .ok set ∧
        (∀ name, name ∈ set.iterative.names ↔ name ∈ ["port", "verb"] ∨ name ∈ ["verb2"]) ∧
        set.Shares "verb2" "verb" := by
  intro config files
  have hlisted : Manifest.load files (Path.join ⟨"conf"⟩ ⟨"words"⟩) =
      .ok ⟨⟨"conf/words"⟩, ["verbs"]⟩ := by decide +kernel
  have hfits : config.Fits files ⟨"conf"⟩ := by
    refine ⟨?_, ?_, ?_, by decide +kernel, by decide +kernel, by decide +kernel,
      by decide +kernel⟩
    · -- the range moves
      intro entry hentry start stop hrange
      rcases List.mem_pair.1 hentry with rfl | rfl
      · exact absurd (StrategySpec.range.inj hrange).2.2 (by decide)
      · cases hrange
    · -- the keyword is listed in the manifest
      intro entry hentry keywords hcorpus
      rcases List.mem_pair.1 hentry with rfl | rfl
      · cases hcorpus
      · obtain rfl := StrategySpec.corpus.inj hcorpus
        exact ⟨_, _, rfl, hlisted, by decide⟩
    · -- nothing is observed
      intro entry hentry hobserved
      rcases List.mem_pair.1 hentry with rfl | rfl <;> cases hobserved
  obtain ⟨hexact, hbuilt⟩ := build_ok_iff config files ⟨"conf"⟩
  obtain ⟨set, hset⟩ := hexact.2 hfits
  obtain ⟨hiterative, -, hshares⟩ := hbuilt set hset
  exact ⟨hfits, set, hset, hiterative, hshares ("verb2", "verb") List.mem_cons_self⟩

end Config

end Stencil
