import Mathlib.Data.Prod.Basic
import Stencil.Proofs.CommandLine.Records
import Stencil.Proofs.Engine.Ending
import Stencil.Proofs.Markup.Parse

/-!
# Limits on the command line

A limit cuts short what is written, and it does nothing else. Payloads are made one by one and none
is made in advance: with a smaller limit the same payloads come first, and a failure that would come
behind them is not met. The exit code tells whether a failure was met and whether anything was
written. In both layouts the same payloads are written.

Main definitions:

* `Session.records`, `Session.failure?`: the payloads within a limit, and the failure that is met.
* `Outcome.Reports`: a command has written payloads and has met a failure or none.

Main statements:

* `take_eq`: what is taken from an engine is what a run of it gives.
* `take_of_le`: what a smaller limit leaves of a larger one.
* `prepare_eq_ok`, `prepare_eq_of_seed`: which session comes about, and that chance has no part in
  it where there is a seed.
* `generate_limit`: what is written with two limits, and in the two layouts.
-/

namespace Stencil

namespace Engine

/-- The error of a call, if it has failed. -/
def error? : Except RunError (Option Payload) → Option RunError
  | .error error => some error
  | .ok _ => none

/-- The error that a call in a run has met, if one has met one. -/
def failure? (engine : Engine) (supplies : List Supplies) : Option RunError :=
  (engine.answers supplies).findSome? error?

variable {engine : Engine}

/-- An engine that has ended gives nothing and meets no error, whatever comes `later`. -/
theorem answers_of_isFinished (h : engine.isFinished = true) (later : List Supplies) :
    ∀ answer ∈ engine.answers later, answer = .ok none := by
  induction later generalizing engine with
  | nil => exact nofun
  | cons next later ih =>
    have hnext := advance_eq_of_isFinished h next
    rw [answers, hnext]
    exact List.forall_mem_cons.2 ⟨rfl, ih h⟩

/-- If the first call, with `next`, gives no payload, no payload comes at all, and no other error is
met. -/
theorem payloads_cons_of_no_payload {next : Supplies}
    (h : ∀ payload, (engine.advance next).1 ≠ .ok (some payload)) (later : List Supplies) :
    engine.payloads (next :: later) = [] ∧
      engine.failure? (next :: later) = error? (engine.advance next).1 := by
  obtain ⟨hfinished, -, -⟩ := advance_of_no_payload h
  -- from here on every answer is the end
  have hnothing := answers_of_isFinished hfinished later
  rw [payloads, failure?, answers]
  constructor
  · rw [List.filterMap_eq_nil_iff]
    refine List.forall_mem_cons.2 ⟨payload?_eq_none_iff.2 h, fun answer hanswer => ?_⟩
    rw [hnothing answer hanswer]
    rfl
  · have hlater : ((engine.advance next).2.answers later).findSome? error? = none := by
      rw [List.findSome?_eq_none_iff]
      intro answer hanswer
      rw [hnothing answer hanswer]
      rfl
    rw [List.findSome?_cons, hlater]
    cases error? (engine.advance next).1 <;> rfl

/-- What `take` takes from `engine` is what a run of it gives. That no call is made behind the end
makes no difference. -/
theorem take_eq (engine : Engine) (supplies : Supplies) (limit : Nat) :
    engine.take supplies limit =
      (engine.payloads (List.replicate limit supplies),
        engine.failure? (List.replicate limit supplies)) := by
  induction limit generalizing engine with
  | zero => rfl
  | succ limit ih =>
    by_cases hgiven : ∃ payload, (engine.advance supplies).1 = .ok (some payload)
    · obtain ⟨payload, hpayload⟩ := hgiven
      have hadvance : engine.advance supplies =
          (.ok (some payload), (engine.advance supplies).2) := Prod.ext hpayload rfl
      rw [List.replicate_succ, take, hadvance]
      simp only [payloads, failure?, answers, hpayload, List.filterMap_cons, List.findSome?_cons,
        payload?, error?, ih]
    · -- nothing is taken behind the first answer without a payload
      obtain ⟨hnone, herror⟩ := payloads_cons_of_no_payload
        (fun payload hpayload => hgiven ⟨payload, hpayload⟩) (List.replicate limit supplies)
      rw [List.replicate_succ, hnone, herror, take]
      generalize engine.advance supplies = outcome at hgiven
      rcases outcome with ⟨error | _ | payload, next⟩
      · rfl
      · rfl
      · exact absurd ⟨payload, rfl⟩ hgiven

/-- With `shorter` as the limit the same payloads come first as with `longer`. The error of the
longer run is met if it comes before the limit is reached. -/
theorem take_of_le (engine : Engine) (supplies : Supplies) {shorter longer : Nat}
    (hle : shorter ≤ longer) :
    engine.take supplies shorter =
      ((engine.take supplies longer).1.take shorter,
        if (engine.take supplies longer).1.length < shorter then (engine.take supplies longer).2
        else none) := by
  induction shorter generalizing engine longer with
  | zero => simp [take]
  | succ shorter ih =>
    obtain ⟨longer, rfl⟩ : ∃ before, longer = before + 1 :=
      ⟨longer - 1, by omega⟩
    rw [take, take]
    rcases engine.advance supplies with ⟨error | _ | payload, next⟩
    · simp
    · simp
    · -- the limit counts the payloads
      simp only [ih next (Nat.le_of_succ_le_succ hle), List.take_succ_cons, List.length_cons,
        Nat.add_lt_add_iff_right]

end Engine

namespace Session

/-- The payloads of `session` that come within `limit`. -/
def records (session : Session) (limit : Nat) : List Payload :=
  session.engine.payloads (List.replicate limit session.supplies)

/-- The failure that is met within a limit, if one is. -/
def failure? (session : Session) (limit : Nat) : Option RunError :=
  session.engine.failure? (List.replicate limit session.supplies)

/-- What the limit `shorter` leaves of the payloads and the failure within `longer`. -/
theorem records_of_le (session : Session) {shorter longer : Nat} (hle : shorter ≤ longer) :
    session.records shorter = (session.records longer).take shorter ∧
      session.failure? shorter =
        if (session.records longer).length < shorter then session.failure? longer else none := by
  have htake := session.engine.take_of_le session.supplies hle
  rw [Engine.take_eq, Engine.take_eq] at htake
  exact Prod.mk.inj htake

/-- If `config` loads as `settings`, these build `transforms`, and the `contents` of `template`
build `engine` with them, then the session that `prepare` gives is that of `engine`. -/
theorem prepare_eq_ok {files : Files} {entropy : UInt64} {template config : Path} {randomize : Bool}
    {seed : Option UInt64} {settings : Config} {transforms : Transforms} {contents : String}
    {engine : Engine} (hload : Config.load files config = .ok settings)
    (hbuild : settings.build files (Config.directoryOf config) = .ok transforms)
    (hread : files.read template = .ok contents)
    (hengine : Engine.build (Template.ofFile contents) transforms
      (randomize || settings.randomizeLists)
      (Generator.seeded ((seed.or settings.seed).getD entropy)) = .ok engine) :
    prepare files entropy template config randomize seed =
      .ok ⟨engine, settings.supplies files (Config.directoryOf config)⟩ := by
  simp only [prepare, hload, hbuild, hread, hengine]

/-- With a seed at hand, `entropy` has no part in the session. -/
theorem prepare_eq_of_seed {files : Files} {config : Path} {seed : Option UInt64}
    (hseed : ∀ settings, Config.load files config = .ok settings →
      (seed.or settings.seed).isSome = true) (template : Path) (randomize : Bool)
    (entropy entropy' : UInt64) :
    prepare files entropy template config randomize seed =
      prepare files entropy' template config randomize seed := by
  unfold prepare
  cases hload : Config.load files config with
  | error error => rfl
  | ok settings =>
    obtain ⟨chosen, hchosen⟩ := Option.isSome_iff_exists.1 (hseed settings hload)
    simp only [hchosen, Option.getD_some]

end Session

/-- A command has written payloads and has then met a failure or none. What was written stays, and
the exit code tells both apart. -/
structure Outcome.Reports (outcome : Outcome) (json : Bool) (records : List Payload)
    (failure : Option RunError) : Prop where
  /-- The payloads are written, one a line, and nothing else is. -/
  output : outcome.output = String.join (records.map (Payload.line json))
  /-- The message is that of the failure. -/
  message : outcome.message = failure.map fun error => (CommandError.run error).message
  /-- The code is 1 exactly if there was a failure. -/
  invalid : outcome.code.number = 1 ↔ failure.isSome = true
  /-- Without a failure it is 2 exactly if nothing was written. -/
  empty : outcome.code.number = 2 ↔ failure = none ∧ outcome.output = ""
  /-- Otherwise it is 0. -/
  ok : outcome.code.number = 0 ↔ failure = none ∧ outcome.output ≠ ""

namespace Request

/-- Something is written as soon as `records` has a payload, for its line ends in a line break. -/
theorem join_line_eq_empty_iff (json : Bool) (records : List Payload) :
    String.join (records.map (Payload.line json)) = "" ↔ records = [] := by
  constructor
  · intro hempty
    cases records with
    | nil => rfl
    | cons payload records =>
      have hlist := congrArg String.toList hempty
      simp [Payload.line] at hlist
  · rintro rfl
    rfl

/-- The command reports the payloads of `session` within its `limit` and the failure that is met
there. -/
theorem reports_runGenerate (session : Session) (limit : Option Nat) (json : Bool) :
    (runGenerate session limit json).Reports json (session.records (limit.getD unlimited))
      (session.failure? (limit.getD unlimited)) := by
  have hwritten := join_line_eq_empty_iff json (session.records (limit.getD unlimited))
  unfold runGenerate
  rw [Engine.take_eq, ← Session.records, ← Session.failure?]
  generalize session.records (limit.getD unlimited) = records at hwritten ⊢
  cases session.failure? (limit.getD unlimited) with
  | some error => refine ⟨rfl, rfl, ?_, ?_, ?_⟩ <;> simp [ExitCode.number]
  | none =>
    by_cases hempty : records = []
    · subst hempty
      refine ⟨rfl, rfl, ?_, ?_, ?_⟩ <;> simp [ExitCode.number]
    · have hsome : String.join (records.map (Payload.line json)) ≠ "" := hempty ∘ hwritten.1
      refine ⟨rfl, rfl, ?_, ?_, ?_⟩ <;> simp [ExitCode.number, hempty, hsome]

/-- Let the configuration at `config` have a seed, or `seed` be one, so that no outcome depends on
`entropy`, and let `shorter` be at most `longer`, where `none` stands for `unlimited`. Either
`Session.prepare` fails, and then `generate` is that failure whatever the limit and the layout; or
it gives a `session`. Then `generate longer` reports the `records` of the session and the `failure`
behind them, if there is one, and `generate shorter` reports the first `most` of these records, and
the same failure only if there are fewer than `most` of them. What it means to report is said by
`Outcome.Reports`, with the exit codes. And whatever the limit is, the `payloads` can be read from
the output in JSON (`Payload.ofLines?`), and their bodies, one on each line, are the output without
it. -/
theorem generate_limit {files : Files} {config : Path} {seed : Option UInt64}
    {shorter longer : Option Nat}
    (hseed : ∀ settings, Config.load files config = .ok settings →
      (seed.or settings.seed).isSome = true)
    (hle : shorter.getD unlimited ≤ longer.getD unlimited) (template : Path) (randomize : Bool) :
    let generate := fun limit json entropy =>
      (Request.generate template config limit randomize seed json).run files entropy
    let most := shorter.getD unlimited
    ((∃ error,
        (∀ entropy, Session.prepare files entropy template config randomize seed = .error error) ∧
        ∀ limit json entropy, generate limit json entropy = .ofError error) ∨
      ∃ session : Session,
        (∀ entropy, Session.prepare files entropy template config randomize seed = .ok session) ∧
        let records := session.records (longer.getD unlimited)
        let failure := session.failure? (longer.getD unlimited)
        ∀ json entropy,
          (generate longer json entropy).Reports json records failure ∧
          (generate shorter json entropy).Reports json (records.take most)
            (if records.length < most then failure else none)) ∧
    ∀ limit entropy entropy', ∃ payloads,
      Payload.ofLines? (generate limit true entropy).output = some payloads ∧
      (generate limit false entropy').output =
        String.join (payloads.map fun payload => payload.body ++ "\n") := by
  intro generate most
  have hprepare := fun entropy => Session.prepare_eq_of_seed hseed template randomize entropy 0
  cases hsession : Session.prepare files 0 template config randomize seed with
  | error error =>
    -- without a session there is nothing for a limit to cut
    have hrun : ∀ limit json entropy, generate limit json entropy = .ofError error := by
      intro limit json entropy
      simp only [generate, run, hprepare entropy, hsession]
    have hnone := fun entropy => (hprepare entropy).trans hsession
    refine ⟨.inl ⟨error, hnone, hrun⟩, fun limit entropy entropy' => ⟨[], ?_, ?_⟩⟩
    · rw [hrun]
      rfl
    · rw [hrun]
      rfl
  | ok session =>
    have hreports : ∀ limit json entropy, (generate limit json entropy).Reports json
        (session.records (limit.getD unlimited)) (session.failure? (limit.getD unlimited)) := by
      intro limit json entropy
      simp only [generate, run, hprepare entropy, hsession]
      exact reports_runGenerate session limit json
    refine ⟨.inr ⟨session, fun entropy => (hprepare entropy).trans hsession, ?_⟩, ?_⟩
    · intro records failure json entropy
      obtain ⟨hrecords, hfailure⟩ := session.records_of_le hle
      refine ⟨hreports longer json entropy, ?_⟩
      rw [← hrecords, ← hfailure]
      exact hreports shorter json entropy
    · -- the lines in JSON are read back as the payloads
      intro limit entropy entropy'
      refine ⟨session.records (limit.getD unlimited), ?_, (hreports limit false entropy').output⟩
      rw [(hreports limit true entropy).output]
      exact Payload.ofLines?_join _

/-- A configuration with a seed whose second transform reads a file that is missing, and a template
in which both transforms bind one region. -/
def faultyFiles : Files where
  read path :=
    if path.text = "gen.toml" then
      .ok ("seed = 1\n[iterative.a]\nstrategy = \"list\"\nvalues = [\"1\", \"2\"]\n" ++
        "[iterative.b]\nstrategy = \"files\"\npaths = [\"gone.txt\"]\n")
    else if path.text = "ab.txt" then .ok "<[+a;b]x[+end]>\n"
    else .error .notFound

/-- The template as a tree. -/
def faultyDocument : Document Nat where
  blocks := [.inline (.text ['<']), .inline (.slot ⟨0, ["a", "b"], ['x']⟩), .inline (.text ['>'])]

theorem wellFormed_faultyDocument : faultyDocument.WellFormed .single ⟨["a", "b"], []⟩ where
  iterative := by decide
  valid := by decide
  parts := by
    rw [show faultyDocument.parts = [.text ['<'], .slot ⟨0, ["a", "b"], ['x']⟩, .text ['>']] from
      rfl]
    simp only [List.forall_mem_cons, Inline.Sound]
    refine ⟨?_, ⟨?_, ?_, ?_, ?_⟩, ?_, by simp⟩
    all_goals decide
  chains := by decide
  once := by decide
  keys := by decide

/-- The alias that the seed gives to the region. -/
def faultyAlias : String := "YwjnYuBukdWwkhUucFnXEgnGsymXncHx"

theorem drawLetters_faulty :
    (AliasPool.drawLetters AliasPool.aliasLength (Generator.seeded 1)).1 = faultyAlias.toList := by
  rw [Generator.seeded_eq_counting]
  decide +kernel

/-- The engine for the template, with the generator that is left after the alias was drawn. -/
def faultyEngine (transforms : Transforms) (generator : Generator) : Engine where
  template :=
    { mode := .single
      text := "<" ++ faultyAlias ++ ">"
      operations := [⟨"a", faultyAlias, "x", none⟩, ⟨"b", faultyAlias, "x", none⟩]
      persistent := [] }
  sequence := { mode := .single }
  transforms
  randomize := false
  bench := .new generator
  uses := .empty
  emitted := 0
  label := none

theorem build_faulty {transforms : Transforms}
    (hnames : transforms.templateNames = ⟨["a", "b"], []⟩) {generator left : Generator}
    (hdrawn : AliasPool.drawLetters AliasPool.aliasLength generator = (faultyAlias.toList, left)) :
    Engine.build "<[+a;b]x[+end]>" transforms false generator =
      .ok (faultyEngine transforms left) := by
  -- the markup is shorter than an alias
  have hfresh : ({ generator } : AliasPool).fresh? (faultyDocument.markup .single) =
      some (faultyAlias, { generator := left, issued := [faultyAlias] }) :=
    AliasPool.fresh?_of_length_lt rfl (Nat.succ_pos 65535) (by decide) hdrawn
  have hdraws : AliasPool.Draws (faultyDocument.markup .single) { generator }
      ((faultyDocument.keyOrder ⟨["a", "b"], []⟩).map fun _ => faultyAlias)
      { generator := left, issued := [faultyAlias] } := .cons hfresh (.nil _)
  have hparse := wellFormed_faultyDocument.parse_of_draws hdraws
  have hmarkup : String.ofList (faultyDocument.markup .single) = "<[+a;b]x[+end]>" := by decide
  have htext : String.ofList (faultyDocument.aliased fun _ => faultyAlias) =
      "<" ++ faultyAlias ++ ">" := by decide
  have hoperations : (faultyDocument.slotOrder ⟨["a", "b"], []⟩).flatMap
      (Slot.operations fun _ => faultyAlias) =
        [⟨"a", faultyAlias, "x", none⟩, ⟨"b", faultyAlias, "x", none⟩] := by decide
  rw [hmarkup, htext, hoperations] at hparse
  rw [Engine.build, hnames, hparse]
  rfl

/-- The configuration can be read, and the engine gives the two values of the first transform before
it fails at the second one. -/
theorem load_faulty : ∃ settings transforms engine,
    Config.load faultyFiles ⟨"gen.toml"⟩ = .ok settings ∧ settings.seed = some 1 ∧
      settings.randomizeLists = false ∧
      settings.build faultyFiles (Config.directoryOf ⟨"gen.toml"⟩) = .ok transforms ∧
      Engine.build "<[+a;b]x[+end]>" transforms false (Generator.seeded 1) = .ok engine ∧
      engine.take (settings.supplies faultyFiles (Config.directoryOf ⟨"gen.toml"⟩)) unlimited =
        ([⟨0, none, "<1>"⟩, ⟨1, none, "<2>"⟩],
          some (.unreadableWordlist "b" ⟨"./gone.txt"⟩ .notFound)) := by
  -- the engine is given, so that no template is read and no alias is drawn in this computation
  have hany : (Config.load faultyFiles ⟨"gen.toml"⟩).toOption.any (fun settings =>
      (settings.build faultyFiles (Config.directoryOf ⟨"gen.toml"⟩)).toOption.any fun transforms =>
        decide (settings.seed = some 1) && !settings.randomizeLists &&
          decide (transforms.iterative.names = ["a", "b"]) &&
          decide (transforms.persistent.names = []) &&
          decide ((faultyEngine transforms
            (AliasPool.drawLetters AliasPool.aliasLength (Generator.seeded 1)).2).take
              (settings.supplies faultyFiles (Config.directoryOf ⟨"gen.toml"⟩)) unlimited =
            ([⟨0, none, "<1>"⟩, ⟨1, none, "<2>"⟩],
              some (.unreadableWordlist "b" ⟨"./gone.txt"⟩ .notFound)))) = true := by
    decide +kernel
  obtain ⟨settings, hload, hany⟩ := (Option.any_eq_true _ _).1 hany
  obtain ⟨transforms, hbuild, hfacts⟩ := (Option.any_eq_true _ _).1 hany
  simp only [Bool.and_eq_true, decide_eq_true_eq, Bool.not_eq_true'] at hfacts
  obtain ⟨⟨⟨⟨hseed, hrandomize⟩, hiterative⟩, hpersistent⟩, htake⟩ := hfacts
  have hnames : transforms.templateNames = ⟨["a", "b"], []⟩ := by
    rw [Transforms.templateNames, hiterative, hpersistent]
  exact ⟨settings, transforms, _, Except.eq_ok_of_toOption hload, hseed, hrandomize,
    Except.eq_ok_of_toOption hbuild, build_faulty hnames (Prod.fst_eq_iff.1 drawLetters_faulty),
    htake⟩

theorem prepare_faulty : ∃ session : Session,
    Session.prepare faultyFiles 0 ⟨"ab.txt"⟩ ⟨"gen.toml"⟩ false none = .ok session ∧
      session.records unlimited = [⟨0, none, "<1>"⟩, ⟨1, none, "<2>"⟩] ∧
      session.failure? unlimited = some (.unreadableWordlist "b" ⟨"./gone.txt"⟩ .notFound) := by
  obtain ⟨settings, transforms, engine, hload, hseed, hrandomize, hbuild, hengine, htake⟩ :=
    load_faulty
  have hread : faultyFiles.read ⟨"ab.txt"⟩ = .ok "<[+a;b]x[+end]>\n" := by decide
  have hfile : Template.ofFile "<[+a;b]x[+end]>\n" = "<[+a;b]x[+end]>" := by decide
  rw [Engine.take_eq] at htake
  obtain ⟨hrecords, hfailure⟩ := Prod.mk.inj htake
  refine ⟨⟨engine, settings.supplies faultyFiles (Config.directoryOf ⟨"gen.toml"⟩)⟩,
    Session.prepare_eq_ok hload hbuild hread ?_, hrecords, hfailure⟩
  rw [hfile, hseed, hrandomize, Option.none_or, Option.getD_some, Bool.or_self, hengine]

/-- Without a limit the two payloads of `a` are written, and the failure of `b` is met behind them.
With a limit of 1 the first of them is written, and nothing fails. -/
theorem generate_limit_cut :
    let generate := fun limit json entropy =>
      (Request.generate ⟨"ab.txt"⟩ ⟨"gen.toml"⟩ limit false none json).run faultyFiles entropy
    (∀ settings, Config.load faultyFiles ⟨"gen.toml"⟩ = .ok settings →
      (Option.or none settings.seed).isSome = true) ∧
    (some 1).getD unlimited ≤ none.getD unlimited ∧
    ∀ entropy,
      (generate none false entropy).output = "<1>\n<2>\n" ∧
      (generate none false entropy).message = some
        ("transform 'b' could not read wordlist ./gone.txt: " ++
          "No such file or directory (os error 2)") ∧
      (generate none false entropy).code.number = 1 ∧
      (generate (some 1) false entropy).output = "<1>\n" ∧
      (generate (some 1) false entropy).message = none ∧
      (generate (some 1) false entropy).code.number = 0 ∧
      (generate (some 1) true entropy).output =
        "\x7b\"index\":0,\"label\":null,\"body\":\"<1>\"\x7d\n" := by
  intro generate
  have hseed : ∀ settings, Config.load faultyFiles ⟨"gen.toml"⟩ = .ok settings →
      (Option.or none settings.seed).isSome = true := by
    intro settings hsettings
    obtain ⟨loaded, -, -, hload, hone, -⟩ := load_faulty
    obtain rfl := Except.ok.inj (hload.symm.trans hsettings)
    rw [hone]
    rfl
  have hle : (some 1).getD unlimited ≤ none.getD unlimited := by decide
  refine ⟨hseed, hle, fun entropy => ?_⟩
  obtain ⟨prepared, hprepared, hrecords, hfailure⟩ := prepare_faulty
  obtain ⟨⟨error, herror, -⟩ | ⟨session, hsession, hreports⟩, -⟩ :=
    generate_limit hseed hle ⟨"ab.txt"⟩ false
  · -- the session does come about
    have hneither := (herror 0).symm.trans hprepared
    cases hneither
  · obtain rfl := Except.ok.inj ((hsession 0).symm.trans hprepared)
    obtain ⟨hlong, hshort⟩ := hreports false entropy
    obtain ⟨-, hjson⟩ := hreports true entropy
    rw [Option.getD_none, hrecords, hfailure] at hlong hshort hjson
    have hwritten : (generate (some 1) false entropy).output = "<1>\n" :=
      hshort.output.trans (by decide)
    refine ⟨hlong.output.trans (by decide), hlong.message.trans (by decide), hlong.invalid.2 rfl,
      hwritten, hshort.message, hshort.ok.2 ⟨rfl, ?_⟩, hjson.output.trans (by decide)⟩
    rw [hwritten]
    decide

end Request

end Stencil
