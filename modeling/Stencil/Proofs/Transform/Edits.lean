import Mathlib.Data.List.Forall2
import Stencil.Chain

/-!
# The runs of persistent transforms

To fill the persistent regions of a payload is to run transforms: region by region, each chain from
left to right, on the text of the region first and then on what the transform before has made. An
application that keeps a journal shows these runs. They do not depend on the payload, nor on the
aliases in it, and the first one that fails is the last one.

Main definitions:

* `Edit`, `Application.journaled`: a run of a transform, and an application with a journal.
* `Edit.Follow`: the runs of one chain.
* `Edit.Account`: the runs of the chains of several regions.

Main statements:

* `runChain_journaled`: the runs of a chain.
* `applyPersistent_journaled`: the runs for all regions.
* `applyPersistent_congr`: neither payload nor aliases have a part in them.
* `edits_applyPersistent`: all of this about filling the regions of a payload.
-/

namespace Stencil

/-- A run of a persistent transform. -/
structure Edit where
  /-- The name under which the transform was run. -/
  transform : String
  /-- The text that it was given. -/
  input : String
  /-- What it answered. -/
  answer : Except RunError String

variable {σ : Type}

/-- Runs transforms as `apply` does and keeps a journal of the runs. -/
def Application.journaled (apply : Application σ) : Application (σ × List Edit) :=
  fun name text s =>
    let done := apply name text s.1
    (done.1, done.2, s.2 ++ [⟨name, text, done.1⟩])

namespace PersistentOperation

/-- The text that the chain of `op` starts from. -/
def body (subs : List Substitution) (op : PersistentOperation) : String :=
  String.ofList (substitute subs op.literal.toList)

/-- What `op` asks for, its alias apart: a chain, and the text inside. -/
def task (op : PersistentOperation) : List String × String :=
  (op.chain, op.literal)

end PersistentOperation

namespace Edit

/-! ### The runs of a chain -/

/-- The texts that come about when the runs `edits` start from `text`; there may be errors among
them. -/
def texts (text : String) (edits : List Edit) : List (Except RunError String) :=
  .ok text :: edits.map (·.answer)

/-- How a chain is run on a text, and what comes of it. -/
structure Follow (chain : List String) (text : String) (edits : List Edit)
    (outcome : Except RunError String) : Prop where
  /-- The transforms are run in the order of the chain. -/
  order : edits.map (·.transform) <+: chain
  /-- The first one is given the text, and each other one what the one before it has made. -/
  inputs : edits.map (fun edit => .ok edit.input) = (texts text edits).dropLast
  /-- What the last one answers is the outcome. -/
  last : (texts text edits).getLast? = some outcome
  /-- None is left out unless the outcome is an error. -/
  whole : ∀ value, outcome = .ok value → edits.map (·.transform) = chain

namespace Follow

variable {name text made : String} {names : List String} {edits : List Edit}
  {outcome : Except RunError String}

theorem nil (text : String) : Follow [] text [] (.ok text) :=
  ⟨List.nil_prefix, rfl, rfl, fun _ _ => rfl⟩

/-- The transform `name` that fails ends the run of its chain. -/
theorem failed (name text : String) (names : List String) (error : RunError) :
    Follow (name :: names) text [⟨name, text, .error error⟩] (.error error) :=
  ⟨List.prefix_append [name] names, rfl, rfl, fun _ hvalue => by cases hvalue⟩

/-- What the transform `name` has `made` is given to the rest of its chain. -/
theorem cons (h : Follow names made edits outcome) (name text : String) :
    Follow (name :: names) text (⟨name, text, .ok made⟩ :: edits) outcome where
  order := List.cons_prefix_cons.2 ⟨rfl, h.order⟩
  inputs := by
    rw [List.map_cons, h.inputs]
    rfl
  last := by
    rw [← h.last]
    rfl
  whole value hvalue := congrArg (name :: ·) (h.whole value hvalue)

end Follow

end Edit

/-- A journal changes nothing about the run of the chain `names`, and it tells how the chain was
run. -/
theorem runChain_journaled (apply : Application σ) (names : List String) (text : String) (s : σ)
    (log : List Edit) :
    ∃ edits, runChain apply.journaled names text (s, log) =
        ((runChain apply names text s).1, (runChain apply names text s).2, log ++ edits) ∧
      Edit.Follow names text edits (runChain apply names text s).1 := by
  induction names generalizing text s log with
  | nil => exact ⟨[], by simp [runChain], .nil text⟩
  | cons name names ih =>
    rw [runChain, runChain, Application.journaled]
    rcases apply name text s with ⟨error | made, s'⟩
    · exact ⟨[⟨name, text, .error error⟩], rfl, .failed name text names error⟩
    · obtain ⟨edits, hrun, hfollow⟩ := ih made s' (log ++ [⟨name, text, .ok made⟩])
      refine ⟨⟨name, text, .ok made⟩ :: edits, ?_, hfollow.cons name text⟩
      simpa using hrun

/-! ### The runs for several regions -/

namespace Edit

/-- The runs of the chain of `op`, and what the chain has made of its text. -/
def Made (subs : List Substitution) (op : PersistentOperation) (run : List Edit × String) : Prop :=
  Follow op.chain (op.body subs) run.1 (.ok run.2)

/-- How the regions of `ops` are filled by running their chains, one after the other, and what comes
of `payload`. If no run fails, there is one run of each chain, and the aliases are replaced by what
the chains have made. Otherwise the chains of some regions have gone through, the run of the next
one has failed, and its error is what comes of it. -/
def Account (subs : List Substitution) (ops : List PersistentOperation) (payload : List Char)
    (edits : List Edit) : Except RunError (List Char) → Prop
  | .ok out => ∃ runs, List.Forall₂ (Made subs) ops runs ∧ edits = runs.flatMap Prod.fst ∧
      out = substitute (List.zipWith (fun op run => ⟨op.aliasName, run.2⟩) ops runs) payload
  | .error error => ∃ before op after runs last, ops = before ++ op :: after ∧
      List.Forall₂ (Made subs) before runs ∧
      Follow op.chain (op.body subs) last (.error error) ∧ edits = runs.flatMap Prod.fst ++ last

namespace Account

variable {subs : List Substitution} {op : PersistentOperation} {ops : List PersistentOperation}
  {payload : List Char} {edits more : List Edit} {outcome : Except RunError (List Char)}

theorem nil (subs : List Substitution) (payload : List Char) :
    Account subs [] payload [] (.ok payload) :=
  ⟨[], .nil, rfl, rfl⟩

/-- If the chain of `op` fails, it is the last one. -/
theorem failed {error : RunError} (h : Follow op.chain (op.body subs) edits (.error error)) :
    Account subs (op :: ops) payload edits (.error error) :=
  ⟨[], op, ops, [], edits, rfl, .nil, h, rfl⟩

/-- If the chain of `op` goes through, it fills its region, and those of `ops` come next. -/
theorem cons {value : String} (h : Follow op.chain (op.body subs) edits (.ok value))
    (hmore : Account subs ops (Substitution.apply ⟨op.aliasName, value⟩ payload) more outcome) :
    Account subs (op :: ops) payload (edits ++ more) outcome := by
  have hmade : Made subs op (edits, value) := h
  cases outcome with
  | error error =>
    obtain ⟨before, failing, after, runs, last, rfl, hruns, hlast, rfl⟩ := hmore
    exact ⟨op :: before, failing, after, (edits, value) :: runs, last, rfl, .cons hmade hruns,
      hlast, by simp⟩
  | ok out =>
    obtain ⟨runs, hruns, rfl, rfl⟩ := hmore
    exact ⟨(edits, value) :: runs, .cons hmade hruns, by simp, by simp⟩

end Account

end Edit

/-- A journal changes nothing about how the regions of `ops` are filled, and it tells how their
chains were run. -/
theorem applyPersistent_journaled (apply : Application σ) (subs : List Substitution)
    (ops : List PersistentOperation) (payload : List Char) (s : σ) (log : List Edit) :
    ∃ edits, applyPersistent apply.journaled subs ops payload (s, log) =
        ((applyPersistent apply subs ops payload s).1, (applyPersistent apply subs ops payload s).2,
          log ++ edits) ∧
      Edit.Account subs ops payload edits (applyPersistent apply subs ops payload s).1 := by
  induction ops generalizing payload s log with
  | nil => exact ⟨[], by simp [applyPersistent], .nil subs payload⟩
  | cons op ops ih =>
    obtain ⟨edits, hrun, hfollow⟩ := runChain_journaled apply op.chain (op.body subs) s log
    rw [PersistentOperation.body] at hrun hfollow
    rw [applyPersistent, applyPersistent, hrun]
    generalize runChain apply op.chain (String.ofList (substitute subs op.literal.toList)) s =
      outcome at hfollow
    rcases outcome with ⟨error | value, s'⟩
    · exact ⟨edits, rfl, .failed hfollow⟩
    · obtain ⟨more, hrest, haccount⟩ :=
        ih (Substitution.apply ⟨op.aliasName, value⟩ payload) s' (log ++ edits)
      refine ⟨edits ++ more, ?_, .cons hfollow haccount⟩
      simpa using hrest

/-- If `ops` and `ops'` ask for the same tasks, payloads and aliases have no part in what filling
the regions does, nor in whether it fails. -/
theorem applyPersistent_congr (apply : Application σ) (subs : List Substitution)
    {ops ops' : List PersistentOperation}
    (h : ops'.map PersistentOperation.task = ops.map PersistentOperation.task)
    (payload payload' : List Char) (s : σ) :
    (applyPersistent apply subs ops' payload' s).2 = (applyPersistent apply subs ops payload s).2 ∧
      (applyPersistent apply subs ops' payload' s).1.map (fun _ => ()) =
        (applyPersistent apply subs ops payload s).1.map (fun _ => ()) := by
  induction ops generalizing ops' payload payload' s with
  | nil =>
    rw [List.map_nil, List.map_eq_nil_iff] at h
    subst h
    exact ⟨rfl, rfl⟩
  | cons op ops ih =>
    obtain ⟨op', rest, rfl, htask, hrest⟩ := List.map_eq_cons_iff.1 h
    rw [PersistentOperation.task, PersistentOperation.task, Prod.mk.injEq] at htask
    rw [applyPersistent, applyPersistent, htask.1, htask.2]
    -- the chains are run in the same way, and what they make goes into the payloads only
    rcases runChain apply op.chain (String.ofList (substitute subs op.literal.toList)) s with
      ⟨error | value, s'⟩
    · exact ⟨rfl, rfl⟩
    · exact ih hrest _ _ _

/-- The regions of `ops` are filled by running their chains, region by region and each from left to
right. The `edits` are the journal of these runs: each chain starts from the text of its region
after `subs` and hands on what each transform makes of it, and the first run that fails is the last
one, whose error is what comes of it (`Edit.Account`). The same edits are made, and the same error
comes of them, for any operations `ops'` that ask for the same tasks in any `payload'`, whether or
not the aliases occur in it. -/
theorem edits_applyPersistent (apply : Application σ) (subs : List Substitution)
    (ops : List PersistentOperation) (payload : List Char) (s : σ) :
    ∃ edits,
      applyPersistent apply.journaled subs ops payload (s, []) =
          ((applyPersistent apply subs ops payload s).1,
            (applyPersistent apply subs ops payload s).2, edits) ∧
        Edit.Account subs ops payload edits (applyPersistent apply subs ops payload s).1 ∧
        ∀ (ops' : List PersistentOperation) (payload' : List Char),
          ops'.map PersistentOperation.task = ops.map PersistentOperation.task →
            (applyPersistent apply.journaled subs ops' payload' (s, [])).2.2 = edits ∧
              (applyPersistent apply subs ops' payload' s).1.map (fun _ => ()) =
                (applyPersistent apply subs ops payload s).1.map (fun _ => ()) := by
  obtain ⟨edits, hrun, haccount⟩ := applyPersistent_journaled apply subs ops payload s []
  refine ⟨edits, hrun, haccount, fun ops' payload' htasks => ⟨?_, ?_⟩⟩
  · rw [(applyPersistent_congr apply.journaled subs htasks payload payload' (s, [])).1, hrun]
    rfl
  · exact (applyPersistent_congr apply subs htasks payload payload' s).2

/-- Counts its runs and names them in the text; what is called `burst` fails. -/
def bracketing : Application Nat := fun name text runs =>
  if name = "burst" then (.error (.stepFailed name ⟨[text]⟩), runs + 1)
  else (.ok (name ++ "(" ++ text ++ ")"), runs + 1)

/-- A chain names a transform twice, its third run fails, and the region behind it is left alone.
The payload has none of the aliases, and the runs are those for a payload that has them. -/
theorem edits_applyPersistent_absent_aliases :
    ∃ edits,
      (applyPersistent bracketing.journaled [⟨"I", "v"⟩]
          [⟨"a|b", ["a", "b"], "P", "x-I"⟩, ⟨"a|a|burst|a", ["a", "a", "burst", "a"], "Q", "y"⟩,
            ⟨"b", ["b"], "R", "z"⟩] ['P', 'Q', 'Q', 'R'] (0, [])).2 = (5, edits) ∧
        (applyPersistent bracketing.journaled [⟨"I", "v"⟩]
          [⟨"", ["a", "b"], "K", "x-I"⟩, ⟨"", ["a", "a", "burst", "a"], "L", "y"⟩,
            ⟨"", ["b"], "M", "z"⟩] ['-'] (0, [])).2.2 = edits ∧
        edits.map (fun edit => (edit.transform, edit.input)) =
          [("a", "x-v"), ("b", "a(x-v)"), ("a", "y"), ("a", "a(y)"), ("burst", "a(a(y))")] := by
  obtain ⟨edits, hrun, -, hsame⟩ := edits_applyPersistent bracketing [⟨"I", "v"⟩]
    [⟨"a|b", ["a", "b"], "P", "x-I"⟩, ⟨"a|a|burst|a", ["a", "a", "burst", "a"], "Q", "y"⟩,
      ⟨"b", ["b"], "R", "z"⟩] ['P', 'Q', 'Q', 'R'] 0
  obtain ⟨hother, -⟩ := hsame [⟨"", ["a", "b"], "K", "x-I"⟩,
    ⟨"", ["a", "a", "burst", "a"], "L", "y"⟩, ⟨"", ["b"], "M", "z"⟩] ['-'] rfl
  refine ⟨edits, by rw [hrun]; rfl, hother, ?_⟩
  rw [← hother]
  rfl

end Stencil
