import Stencil.Proofs.Engine.Emissions

/-!
# How many payloads there are

A transform with a format reads out the elements of its strategy with the format filled in for each
of them, whatever is asked of other transforms in between. So the number of payloads of an engine
follows from the numbers of elements of its operations: it is their sum in single mode, the least of
them in lockstep mode, and their product in cross mode.

Main definitions:

* `Format.answer`: what a transform with a format answers.
* `Mode.total`: the number of payloads.

Main statements:

* `exists_owes_of_build`: as much is due from an engine that is built.
* `read_out`: the answers of a transform, and the payloads of an engine.
-/

namespace Stencil

/-- What a transform with a format answers when it is asked for the `k`-th time, from 0, since it
was started. -/
def Format.answer (format literal : String) (elements : List String) (k : Nat) : Advance :=
  match elements[k]? with
  | none => .exhausted
  | some element => .value (fill format element literal k)

/-- How many payloads come of operations with `sizes` as the numbers of their elements. -/
def Mode.total (mode : Mode) (sizes : List Nat) : Nat :=
  if sizes = [] then 0
  else match mode with
    | none => 0
    | single => sizes.sum
    | lockstep => sizes.min?.getD 0
    | cross => sizes.prod

theorem Advance.ofList_drop (texts : List String) (k : Nat) :
    ofList (texts.drop k) = (texts[k]?.map value).getD exhausted := by
  rw [← List.head?_drop]
  cases texts.drop k <;> rfl

/-- What is read out with a `format` are the `elements` with the format filled in. -/
theorem IterativeTransform.ofList_drop_valuesFrom {transform : IterativeTransform}
    {format : String} (hstep : transform.step = Format.step format) (literal : String)
    (elements : List String) (k : Nat) :
    Advance.ofList ((transform.valuesFrom literal 0 elements).drop k) =
      Format.answer format literal elements k := by
  rw [Advance.ofList_drop, valuesFrom, List.getElem?_mapIdx, hstep, (Format.steady_step format).2,
    Format.answer]
  cases elements[k]? with
  | none => rfl
  | some element => simp

namespace Dealing

theorem length_shows_turnsFrom (values : Operation → List String) (operations : List Operation) :
    (shows operations (turnsFrom 0 (operations.map values))).length =
      ((operations.map values).map List.length).sum := by
  rw [shows, List.length_map, ← List.length_map (f := (·.2)), map_snd_turnsFrom,
    List.length_flatten]

theorem length_combinations {σ : Type} {driver : Driver σ} {names : List String}
    (dealing : Dealing driver names) (operations : List Operation) :
    (dealing.combinations operations).length = (operations.map dealing.size).prod := by
  induction operations with
  | nil => rfl
  | cons op operations ih =>
    rw [combinations_cons, List.length_flatMap, List.map_cons, List.prod_cons, ← ih]
    simp [offers, size, Nat.mul_comm]

end Dealing

namespace Engine

variable {source : String} {set : Transforms} {supplies : Supplies} {shuffle : Bool}
  {generator : Generator} {engine : Engine}

/-- The numbers of elements that the operations of `engine` have. -/
def sizes (engine : Engine) (supplies : Supplies) : List Nat :=
  engine.template.operations.map fun op => (engine.transforms.elements supplies op).length

theorem sizes_eq_map_length (h : build source set shuffle generator = .ok engine)
    (supplies : Supplies) :
    engine.sizes supplies =
      (engine.template.operations.map (set.values supplies)).map List.length := by
  obtain ⟨-, -, -, -, htransforms, -⟩ := exists_parse_of_build h
  rw [sizes, htransforms, List.map_map]
  exact List.map_congr_left fun op _ => (set.length_values supplies op).symm

/-- In single mode there are as many payloads as values. -/
theorem total_single (h : build source set shuffle generator = .ok engine) (supplies : Supplies)
    (hmode : engine.template.mode = .single) :
    (Dealing.shows engine.template.operations
        (turnsFrom 0 (engine.template.operations.map (set.values supplies)))).length =
      engine.template.mode.total (engine.sizes supplies) := by
  rw [hmode, Dealing.length_shows_turnsFrom, ← sizes_eq_map_length h, Mode.total]
  split
  · rename_i hnil
    rw [hnil, List.sum_nil]
  · rfl

/-- In cross mode there are as many payloads as combinations of values. -/
theorem total_cross (h : build source set shuffle generator = .ok engine)
    (hmode : engine.template.mode = .cross) (hne : engine.template.operations ≠ [])
    (hregular : ∀ name ∈ engine.template.operations.map (·.transform),
      set.Regular supplies shuffle name) :
    ((Transforms.dealing hregular).combinations engine.template.operations).length =
      engine.template.mode.total (engine.sizes supplies) := by
  have hsizes : (engine.template.operations.map (set.values supplies)).map List.length ≠ [] := by
    simpa using hne
  rw [hmode, Dealing.length_combinations, sizes_eq_map_length h, Mode.total, if_neg hsizes,
    List.map_map]
  rfl

/-- From an `engine` that is built as much is `due` as its operations have elements for. -/
theorem exists_owes_of_build (h : build source set shuffle generator = .ok engine)
    (hset : set.Unfailing)
    (hregular : ∀ op ∈ engine.template.operations, set.Regular supplies shuffle op.transform) :
    ∃ (V : Type) (prospect : Prospect (set.driver supplies shuffle) V Workbench.Matches)
      (due : List V), Owes prospect due engine ∧
        due.length = engine.template.mode.total (engine.sizes supplies) := by
  have hnames : ∀ name ∈ engine.template.operations.map (·.transform),
      set.Regular supplies shuffle name := List.forall_mem_map.2 hregular
  by_cases hne : engine.template.operations = []
  · refine ⟨_, _, _, owes_nil h hset hne, ?_⟩
    rw [sizes, hne]
    rfl
  · cases hmode : engine.template.mode with
    | none =>
      -- a template without a mode has no operations
      obtain ⟨pool, pool', hparse, -⟩ := exists_parse_of_build h
      exact absurd (Template.operations_of_parse_none hparse hmode) hne
    | single =>
      exact ⟨_, _, _, owes_single h hset hnames hmode hne, hmode ▸ total_single h supplies hmode⟩
    | lockstep =>
      have hsizes :
          (engine.template.operations.map (set.values supplies)).map List.length ≠ [] := by
        simpa using hne
      obtain ⟨rounds, hrounds⟩ := Option.isSome_iff_exists.1 (List.isSome_min?_of_ne_nil hsizes)
      refine ⟨_, _, _, owes_lockstep h hset hnames hmode hne hrounds, ?_⟩
      rw [sizes_eq_map_length h, Mode.total, if_neg hsizes, hrounds, List.length_replicate]
      rfl
    | cross =>
      exact ⟨_, _, _, owes_cross h hset hnames hmode hne, hmode ▸ total_cross h hmode hne hnames⟩

/-- The engine counts the payloads that it gives of what is `due`. -/
theorem emitted_of_owes {V : Type}
    {prospect : Prospect (set.driver supplies shuffle) V Workbench.Matches} {due : List V}
    (h : Owes prospect due engine) (calls : Nat) :
    (engine.after supplies calls).emitted = engine.emitted + min calls due.length := by
  induction calls with
  | zero => simp [after, run]
  | succ calls ih =>
    have hanswer := answer_of_owes h calls
    rw [after_succ]
    split at hanswer
    · -- the next call gives a payload as long as the calls so far are fewer than the things due
      obtain ⟨payload, hpayload⟩ := hanswer
      obtain ⟨-, hemitted, -, -⟩ := advance_of_payload hpayload
      rw [hemitted, ih]
      omega
    · have hnone : ∀ payload,
          ((engine.after supplies calls).advance supplies).1 ≠ .ok (some payload) := by
        simp [hanswer]
      obtain ⟨-, hemitted, -⟩ := advance_of_no_payload hnone
      rw [hemitted, ih]
      omega

end Engine

/-- Transforms whose step is a `format`, and whose lists are not shuffled, read out their
strategies. After `.init op` the driver of `set` answers the `k`-th request for `op.transform` with
the format filled in for element `k` of the strategy, for `op.literal` and for the count `k`, and
with exhaustion from the end of the elements on (`Format.answer`), whatever `requests` asks of other
transforms in between. So an `engine` with operations of such transforms, none of whose persistent
transforms fails, gives `total` payloads, which is what `Mode.total` makes of the numbers of
elements of its operations, and then nothing. -/
theorem read_out (set : Transforms) (supplies : Supplies) :
    (∀ op transform format, set.iterative.find? op.transform = some transform →
      transform.step = Format.step format → transform.strategy.Ready supplies →
      ∀ bench requests,
        (∀ request ∈ requests, request.transform = op.transform →
          ∃ other, request = .advance other ∧ other.literal = op.literal) →
        let served := (set.driver supplies false).serveAll (.init op :: requests) bench
        let count := (requests.filter (·.transform = op.transform)).length
        served.1.filter (·.transform = op.transform) =
          .init op.transform (.ok ()) :: (List.range count).map fun k =>
            .advance op.transform (.ok (Format.answer format op.literal
              (transform.strategy.elements supplies op.literal) k))) ∧
      ∀ source generator engine, Engine.build source set false generator = .ok engine →
        (∀ op ∈ engine.template.operations, ∃ transform format,
          set.iterative.find? op.transform = some transform ∧
            transform.step = Format.step format ∧ transform.strategy.Ready supplies) →
        set.Unfailing →
        let total := engine.template.mode.total (engine.sizes supplies)
        ∀ calls, (engine.after supplies calls).emitted = min calls total ∧
          if calls < total then
            ∃ payload, ((engine.after supplies calls).advance supplies).1 = .ok (some payload)
          else ((engine.after supplies calls).advance supplies).1 = .ok none := by
  refine ⟨?_, ?_⟩
  · intro op transform format hfind hstep hready bench requests hreads served count
    have hsteady : transform.step.Steady := hstep ▸ (Format.steady_step format).1
    obtain ⟨shown, -, hsame, hcall, hdue, -⟩ :=
      Transforms.serve_init false hfind hsteady hready bench
    -- without shuffling the elements come in their own order
    obtain rfl := hsame (.inl rfl)
    obtain ⟨hcalls, -⟩ := Transforms.serveAll_of_due hfind hsteady hreads hdue
    have hown : (Driver.Request.init op).transform = op.transform := rfl
    simp only [served, count, Driver.serveAll, List.filter_cons, Driver.transform_serve, hown,
      decide_true, if_true]
    rw [hcalls, hcall]
    congr 1
    apply List.map_congr_left
    intro k _
    rw [IterativeTransform.ofList_drop_valuesFrom hstep]
  · intro source generator engine hbuild hformats hset total calls
    have hregular : ∀ op ∈ engine.template.operations, set.Regular supplies false op.transform := by
      intro op hop
      obtain ⟨transform, format, hfind, hstep, hready⟩ := hformats op hop
      exact ⟨transform, hfind, hstep ▸ (Format.steady_step format).1, hready,
        fun hshuffle => Bool.noConfusion hshuffle⟩
    obtain ⟨V, prospect, due, howes, hlength⟩ :=
      Engine.exists_owes_of_build hbuild hset hregular
    refine ⟨?_, ?_⟩
    · rw [Engine.emitted_of_owes howes, Engine.emitted_of_build hbuild, hlength, Nat.zero_add]
    · have hanswer := Engine.answer_of_owes howes calls
      rwa [hlength] at hanswer

/-- Transforms with formats: one counts to two, and one counts down from nine. -/
def Transforms.counters : Transforms where
  iterative := .ofList [("a", ⟨"a", .counted 2, Format.step "{element}{iteration}"⟩),
    ("b", ⟨"b", .range 9 0 (-4), Format.step Format.elementOnly⟩)]
  persistent := .empty

/-- The range gives three integers, although the other transform is started in between, and all
combinations with the two texts are six. -/
theorem read_out_counters :
    let a : Operation := ⟨"a", "A", "x", none⟩
    let b : Operation := ⟨"b", "B", "y", none⟩
    let requests : List Driver.Request :=
      [.init b, .advance b, .init a, .advance b, .advance a, .advance b, .advance b]
    (((Transforms.counters.driver .nothing false).serveAll requests
        (.new (.seeded 0))).1.filter (·.transform = "b")) =
      [.init "b" (.ok ()), .advance "b" (.ok (.value "9")), .advance "b" (.ok (.value "5")),
        .advance "b" (.ok (.value "1")), .advance "b" (.ok .exhausted)] ∧
      ∃ engine, Engine.build "[%a]x[%end][%b]y[%end]" Transforms.counters false
          Document.nestedPool.generator = .ok engine ∧
        (engine.after .nothing 9).emitted = 6 ∧
        ((engine.after .nothing 6).advance .nothing).1 = .ok none := by
  intro a b requests
  obtain ⟨hanswers, htotal⟩ := read_out Transforms.counters .nothing
  have hread : (Engine.build "[%a]x[%end][%b]y[%end]" Transforms.counters false
      Document.nestedPool.generator).toOption.map (fun engine =>
        decide (engine.template.operations.map (·.transform) = ["a", "b"] ∧
          engine.template.mode.total (engine.sizes .nothing) = 6)) = some true := by
    decide +kernel
  obtain ⟨engine, hbuild, hread⟩ := Except.exists_of_toOption_map hread
  obtain ⟨htransforms, hsix⟩ := of_decide_eq_true hread
  have hmoves : (-4 : Int64).toInt ≠ 0 := by decide
  refine ⟨?_, engine, hbuild, ?_⟩
  · -- the requests of `a` lie between those of `b` and do not count
    have hreads : ∀ request ∈ requests.tail, request.transform = "b" →
        ∃ other, request = .advance other ∧ other.literal = "y" := by
      simp [requests, a, b, Driver.Request.transform, Driver.Request.operation]
    exact hanswers b ⟨"b", .range 9 0 (-4), Format.step Format.elementOnly⟩ Format.elementOnly rfl
      rfl hmoves (.new (.seeded 0)) requests.tail hreads
  · have hformats : ∀ op ∈ engine.template.operations, ∃ transform format,
        Transforms.counters.iterative.find? op.transform = some transform ∧
          transform.step = Format.step format ∧ transform.strategy.Ready .nothing := by
      intro op hop
      have hmem : op.transform ∈ ["a", "b"] := htransforms ▸ List.mem_map_of_mem hop
      rcases List.mem_pair.1 hmem with ha | hb
      · rw [ha]
        exact ⟨⟨"a", .counted 2, _⟩, _, rfl, rfl, trivial⟩
      · rw [hb]
        exact ⟨⟨"b", .range 9 0 (-4), _⟩, _, rfl, rfl, hmoves⟩
    have hset : Transforms.counters.Unfailing := fun _ _ hfind => by cases hfind
    have hcalls := htotal _ _ engine hbuild hformats hset
    rw [hsix] at hcalls
    obtain ⟨hnine, -⟩ := hcalls 9
    obtain ⟨-, hend⟩ := hcalls 6
    exact ⟨hnine, hend⟩

end Stencil
