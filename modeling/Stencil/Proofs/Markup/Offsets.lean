import Stencil.Proofs.Markup.Splice
import Stencil.Proofs.Text.Bytes

/-!
# Scanning at byte offsets

A scan can also be told by byte offsets: a cursor moves through a working text, in which each
region is replaced at its place. Whatever the text and the name are, the cursor and the ends of all
regions are boundaries in their order, so the text can be cut wherever this is asked for. Each round
passes a bracket. So the brackets behind the cursor bound the rounds; the length of the text does
not, because an alias can be longer than its region.

Main definitions:

* `Loop`, `Loop.run`: loops whose rounds can fail, and what they come to.
* `Site.seek`: the search for an open tag, as a loop.
* `Span`, `Span.locate?`: a region by its offsets, and the next one.
* `Walk`, `Search.round`: a scan under way, and its loop.

Main statements:

* `Loop.run_of_settles`: a loop ends within its measure.
* `Span.locate?_of_eq_append`: a region by its offsets is the site that is found behind the cursor.
* `Search.round_settles`: the rounds of a walk are those of the scan.
* `Search.walk_within_bounds`: no round fails, and there are no more of them than brackets.
-/

namespace Stencil

/-! ### Loops -/

/-- What a round of a loop leads to. -/
inductive Turn (σ α : Type) where
  /-- The loop goes on from a state. -/
  | next (state : σ)
  /-- The loop ends with an outcome. -/
  | done (outcome : α)

/-- A loop, given by its rounds. A round can fail. -/
abbrev Loop (σ α : Type) : Type :=
  σ → Option (Turn σ α)

namespace Loop

variable {σ α : Type}

/-- The outcome of a loop, unless a round fails or more than `rounds` of them do not end it. -/
def run (loop : Loop σ α) : Nat → σ → Option α
  | rounds, state =>
    match loop state with
    | none => none
    | some (.done outcome) => some outcome
    | some (.next state) =>
      match rounds with
      | 0 => none
      | rounds + 1 => run loop rounds state

/-- A loop settles what `due` says: a round from a state to which an outcome is due ends with this
outcome, or it leads to a state of lower measure to which the same outcome is due. -/
def Settles (loop : Loop σ α) (due : σ → α → Prop) (measure : σ → Nat) : Prop :=
  ∀ state outcome, due state outcome →
    loop state = some (.done outcome) ∨
      ∃ next, loop state = some (.next next) ∧ due next outcome ∧ measure next < measure state

/-- If `loop` settles what is `due`, it ends within `measure state` rounds with the `outcome`
due. -/
theorem run_of_settles {loop : Loop σ α} {due : σ → α → Prop} {measure : σ → Nat}
    (h : loop.Settles due measure) {state : σ} {outcome : α} (hdue : due state outcome)
    {rounds : Nat} (hrounds : measure state ≤ rounds) : loop.run rounds state = some outcome := by
  -- each round uses up one of those allowed, and the measure has to be lowered by as much
  induction rounds generalizing state with
  | zero =>
    rcases h state outcome hdue with hdone | ⟨next, -, -, hless⟩
    · rw [run, hdone]
    · omega
  | succ rounds ih =>
    rcases h state outcome hdue with hdone | ⟨next, hnext, hdue', hless⟩
    · rw [run, hdone]
    · rw [run, hnext]
      exact ih hdue' (by omega)

/-- No round fails from a `state` to which an `outcome` is due, and a further one starts from a
`next` state to which it is due as well, with a lower `measure`. -/
theorem Settles.exists_turn {loop : Loop σ α} {due : σ → α → Prop} {measure : σ → Nat}
    (h : loop.Settles due measure) {state : σ} {outcome : α} (hdue : due state outcome) :
    ∃ turn, loop state = some turn ∧
      ∀ next, turn = .next next → due next outcome ∧ measure next < measure state := by
  rcases h state outcome hdue with hdone | ⟨next, hnext, hdue', hless⟩
  · exact ⟨.done outcome, hdone, by simp⟩
  · refine ⟨.next next, hnext, ?_⟩
    rintro _ ⟨rfl⟩
    exact ⟨hdue', hless⟩

end Loop

/-! ### The search for an open tag -/

/-- How many brackets `text` has at the offset `cursor` and behind it. -/
def brackets (text : List Char) (cursor : Nat) : Nat :=
  (Text.cut text cursor).2.count '['

theorem brackets_of_eq_append {text before after : List Char} {cursor : Nat}
    (htext : text = before ++ after) (hcursor : String.utf8Len before = cursor) :
    brackets text cursor = after.count '[' := by
  rw [brackets, Text.cut_of_eq_append htext hcursor]

namespace Site

/-- The search for the first `opening` tag in `text` at or behind an offset. Where a `close` tag
starts like an open tag, the search goes on behind its bracket. -/
def seek (opening close text : List Char) : Loop Nat (Option Nat) := fun cursor => do
  let rest ← Text.behind? text cursor
  match Text.find? opening rest with
  | none => return .done none
  | some distance =>
    let tail ← Text.behind? text (cursor + distance)
    if close.isPrefixOf tail then return .next (cursor + distance + 1)
    else return .done (some (cursor + distance))

/-- The `outcome` that is due to the search: the offset of what `Site.splitOpen` finds behind
`cursor`. -/
def SeekDue (opening close text : List Char) (cursor : Nat) (outcome : Option Nat) : Prop :=
  ∃ front rest, text = front ++ rest ∧ String.utf8Len front = cursor ∧
    outcome = (splitOpen opening close rest).map fun parts => cursor + String.utf8Len parts.1

/-- Where `opening` does not occur, no open tag is found. -/
theorem splitOpen_of_splitFirst_none {opening close text : List Char}
    (h : Text.splitFirst opening text = none) : splitOpen opening close text = none := by
  induction text with
  | nil => rfl
  | cons c text ih =>
    rw [Text.splitFirst] at h
    split at h
    · cases h
    · rename_i hprefix
      have hrest : splitOpen opening close text = none := ih (Option.map_eq_none_iff.1 h)
      simp [splitOpen, hprefix, hrest]

/-- What stands `before` the first place of `opening` is passed over. -/
theorem passed_of_splitFirst {opening close text before after : List Char}
    (h : Text.splitFirst opening text = some (before, after)) :
    Passed opening close before (opening ++ after) := by
  induction text generalizing before with
  | nil =>
    rw [Text.splitFirst] at h
    split at h
    · cases h
      exact passed_nil
    · cases h
  | cons c text ih =>
    have htext := Text.eq_append_of_splitFirst h
    rw [Text.splitFirst] at h
    split at h
    · cases h
      exact passed_nil
    · rename_i hprefix
      -- nothing opens at the first character, so it is passed
      obtain ⟨⟨front, back⟩, hsplit, heq⟩ := Option.map_eq_some_iff.1 h
      cases heq
      have hrest : c :: text = c :: (front ++ (opening ++ after)) := by simpa using htext
      rw [hrest, Bool.not_eq_true] at hprefix
      exact Passed.append (passed_singleton (.inl hprefix)) (ih hsplit)

/-- The first place of `'[' :: tag` is the open tag found, unless `close` stands there; then the
search goes on behind the bracket. -/
theorem splitOpen_of_splitFirst {tag close text before after : List Char}
    (h : Text.splitFirst ('[' :: tag) text = some (before, after)) :
    splitOpen ('[' :: tag) close text =
      if close.isPrefixOf ('[' :: (tag ++ after)) then
        (splitOpen ('[' :: tag) close (tag ++ after)).map fun parts =>
          (before ++ '[' :: parts.1, parts.2)
      else some (before, tag ++ after) := by
  have htext : text = before ++ ('[' :: (tag ++ after)) := by
    simpa using Text.eq_append_of_splitFirst h
  have hpassed : splitOpen ('[' :: tag) close (before ++ ('[' :: (tag ++ after))) =
      (splitOpen ('[' :: tag) close ('[' :: (tag ++ after))).map fun parts =>
        (before ++ parts.1, parts.2) := passed_of_splitFirst h
  have hopening : ('[' :: tag).isPrefixOf ('[' :: (tag ++ after)) = true :=
    List.isPrefixOf_iff_prefix.2 (List.prefix_append _ _)
  -- all depends on what stands at the place itself
  rw [htext, hpassed, splitOpen, hopening]
  by_cases hclose : close.isPrefixOf ('[' :: (tag ++ after)) = true
  · rw [if_pos hclose, if_neg (by rw [hclose]; decide), Option.map_map]
    rfl
  · have hopen : (true && !close.isPrefixOf ('[' :: (tag ++ after))) = true := by
      rw [Bool.not_eq_true] at hclose
      rw [hclose]
      rfl
    rw [if_neg hclose, if_pos hopen, Option.map_some, List.append_nil]

/-- The search settles what is due to it, because each round goes on behind a bracket. -/
theorem seek_settles (tag close text : List Char) :
    (seek ('[' :: tag) close text).Settles (SeekDue ('[' :: tag) close text) (brackets text) := by
  rintro cursor outcome ⟨front, rest, htext, hcursor, rfl⟩
  have hrest : Text.behind? text cursor = some rest := Text.behind?_of_eq_append htext hcursor
  cases hsplit : Text.splitFirst ('[' :: tag) rest with
  | none =>
    left
    simp [seek, hrest, Text.find?, hsplit, splitOpen_of_splitFirst_none hsplit]
  | some parts =>
    obtain ⟨before, after⟩ := parts
    have hplace : rest = before ++ '[' :: (tag ++ after) := by
      simpa using Text.eq_append_of_splitFirst hsplit
    have hfront : text = (front ++ before) ++ '[' :: (tag ++ after) := by
      rw [htext, hplace, List.append_assoc]
    have hstart : String.utf8Len (front ++ before) = cursor + String.utf8Len before := by
      rw [String.utf8Len_append, hcursor]
    have htail := Text.behind?_of_eq_append hfront hstart
    rw [splitOpen_of_splitFirst hsplit]
    by_cases hclose : close <+: '[' :: (tag ++ after)
    · -- a close tag stands there, whose bracket is passed
      right
      have hbehind : text = (front ++ before ++ ['[']) ++ (tag ++ after) := by
        rw [hfront, List.append_assoc (front ++ before), List.singleton_append]
      have hnext : String.utf8Len (front ++ before ++ ['[']) =
          cursor + String.utf8Len before + 1 := by
        rw [String.utf8Len_append, hstart]
        rfl
      refine ⟨cursor + String.utf8Len before + 1, ?_, ⟨_, _, hbehind, hnext, ?_⟩, ?_⟩
      · simp [seek, hrest, Text.find?, hsplit, htail, hclose]
      · rw [if_pos (List.isPrefixOf_iff_prefix.2 hclose), Option.map_map]
        congr 1
        funext parts
        have hbracket : ('[' : Char).utf8Size = 1 := rfl
        simp only [Function.comp_apply, String.utf8Len_append, String.utf8Len_cons, hbracket]
        omega
      · have hcount : rest.count '[' = before.count '[' + ((tag ++ after).count '[' + 1) := by
          rw [hplace, List.count_append, List.count_cons_self]
        rw [brackets_of_eq_append hbehind hnext, brackets_of_eq_append htext hcursor, hcount]
        omega
    · left
      simp [seek, hrest, Text.find?, hsplit, htail, hclose]

end Site

/-- Fewer brackets than in `text` are left behind the bracket of `site`, and behind its region. -/
theorem Site.count_lt_of_locate {family : Family} {name : String} {text : List Char} {site : Site}
    (h : locate family name text = .ok (some site)) :
    site.rest.count '[' < text.count '[' ∧ site.after.count '[' < text.count '[' := by
  obtain ⟨htext, -, -, htail, -, -⟩ := sound_of_locate h
  have hrest : text.count '[' = site.before.count '[' + (site.rest.count '[' + 1) := by
    rw [htext, List.count_append, List.count_cons_self]
  -- what is left behind the region stands behind the bracket too
  have hregion : site.rest = family.sigil :: site.heading ++ ']' :: site.literal ++
      family.closeTag ++ site.after := by
    simpa using htail
  have hafter : site.after.count '[' ≤ site.rest.count '[' := by
    rw [hregion]
    exact (List.sublist_append_right _ site.after).count_le '['
  omega

/-! ### Regions by their offsets -/

/-- A region of a text, by offsets. -/
structure Span where
  /-- The offset of its open tag. -/
  start : Nat
  /-- The offset of the `]` that ends its heading. -/
  bracket : Nat
  /-- The offset of its close tag. -/
  stop : Nat
deriving DecidableEq, Repr

namespace Span

/-- The next region for `name` at or behind an offset, if there is an open tag for it. -/
def locate? (family : Family) (name : String) (text : List Char) (cursor : Nat) :
    Option (Except SetupError (Option Span)) := do
  let opening := family.openPrefix name.toList
  let close := family.closeTag
  match ← (Site.seek opening close text).run (brackets text cursor) cursor with
  | none => return .ok none
  | some start =>
    let tail ← Text.behind? text start
    match Text.find? close tail with
    | none => return .error (.missingEndTag (String.ofList opening) (String.ofList close))
    | some length =>
      let inner ← Text.slice? text start (start + length)
      match Text.find? [']'] inner with
      | none => return .error (.missingStartTerminator (String.ofList opening))
      | some distance => return .ok (some ⟨start, start + distance, start + length⟩)

/-- The offsets of a site that is found behind `cursor`. -/
def ofSite (cursor : Nat) (site : Site) : Span :=
  let start := cursor + String.utf8Len site.before
  let bracket := start + 2 + String.utf8Len site.heading
  ⟨start, bracket, bracket + 1 + String.utf8Len site.literal⟩

/-- The open tag of a site up to its `]` is two bytes longer than the heading. -/
theorem utf8Len_tag {family : Family} {name : String} {text tag inner : List Char} {site : Site}
    (h : Site.locate family name text = .ok (some site))
    (hinner : '[' :: site.rest = inner ++ family.closeTag ++ site.after)
    (htag : inner = tag ++ [']'] ++ site.literal) :
    String.utf8Len tag = 2 + String.utf8Len site.heading := by
  obtain ⟨-, -, -, hrest, -, -⟩ := Site.sound_of_locate h
  -- the tag is its bracket, the sigil and the heading
  have hhead : tag = '[' :: family.sigil :: site.heading := by
    have hsame : tag ++ (']' :: site.literal ++ family.closeTag ++ site.after) =
        '[' :: family.sigil :: site.heading ++
          (']' :: site.literal ++ family.closeTag ++ site.after) := by
      rw [hinner, htag] at hrest
      simpa using hrest
    exact List.append_cancel_right hsame
  have hsigil : family.sigil.utf8Size = 1 := by cases family <;> rfl
  have hbracket : ('[' : Char).utf8Size = 1 := rfl
  rw [hhead, String.utf8Len_cons, String.utf8Len_cons, hsigil, hbracket]
  omega

/-- The region behind `cursor` is the site that `Site.locate` finds in `rest`, the text there. -/
theorem locate?_of_eq_append (family : Family) (name : String) {text front rest : List Char}
    {cursor : Nat} (htext : text = front ++ rest) (hcursor : String.utf8Len front = cursor) :
    locate? family name text cursor =
      some ((Site.locate family name rest).map (Option.map (ofSite cursor))) := by
  -- the open tag is found by its offset; from there on both sides search the same texts
  have hseek : (Site.seek (family.openPrefix name.toList) family.closeTag text).run
      (brackets text cursor) cursor =
        some ((Site.splitOpen (family.openPrefix name.toList) family.closeTag rest).map fun parts =>
          cursor + String.utf8Len parts.1) :=
    Loop.run_of_settles (Site.seek_settles (family.sigil :: name.toList) family.closeTag text)
      ⟨front, rest, htext, hcursor, rfl⟩ le_rfl
  simp only [locate?, hseek, Option.bind_eq_bind, Option.bind_some]
  cases hopen : Site.splitOpen (family.openPrefix name.toList) family.closeTag rest with
  | none => simp [Site.locate, hopen, Except.map]
  | some parts =>
    obtain ⟨before, tail⟩ := parts
    have hplace : text = (front ++ before) ++ '[' :: tail := by
      rw [htext, (Site.eq_of_splitOpen hopen).1, List.append_assoc]
    have hstart : String.utf8Len (front ++ before) = cursor + String.utf8Len before := by
      rw [String.utf8Len_append, hcursor]
    have htail := Text.behind?_of_eq_append hplace hstart
    cases hclose : Text.splitFirst family.closeTag ('[' :: tail) with
    | none => simp [Site.locate, hopen, htail, Text.find?, hclose, Except.map]
    | some parts =>
      obtain ⟨inner, after⟩ := parts
      have hend : '[' :: tail = inner ++ family.closeTag ++ after :=
        Text.eq_append_of_splitFirst hclose
      have hslice : Text.slice? text (cursor + String.utf8Len before)
          (cursor + String.utf8Len before + String.utf8Len inner) = some inner := by
        have hparts : text = (front ++ before) ++ inner ++ (family.closeTag ++ after) := by
          rw [hplace, hend]
          simp
        exact Text.slice?_of_eq_append hparts hstart rfl
      cases htag : Text.splitFirst [']'] inner with
      | none => simp [Site.locate, hopen, htail, Text.find?, hclose, hslice, htag, Except.map]
      | some parts =>
        obtain ⟨tag, literal⟩ := parts
        have hsite : Site.locate family name rest =
            .ok (some ⟨before, tail, tag.drop 2, literal, after⟩) := by
          simp [Site.locate, hopen, hclose, htag]
        have hinner : inner = tag ++ [']'] ++ literal := Text.eq_append_of_splitFirst htag
        have hlength : String.utf8Len tag = 2 + String.utf8Len (tag.drop 2) :=
          utf8Len_tag hsite hend hinner
        have hinnerLength : String.utf8Len inner =
            String.utf8Len tag + 1 + String.utf8Len literal := by
          rw [hinner, String.utf8Len_append, String.utf8Len_append]
          rfl
        have hspan : (⟨cursor + String.utf8Len before,
            cursor + String.utf8Len before + String.utf8Len tag,
            cursor + String.utf8Len before + String.utf8Len inner⟩ : Span) =
              ofSite cursor ⟨before, tail, tag.drop 2, literal, after⟩ := by
          simp only [ofSite, Span.mk.injEq, true_and]
          omega
        simp only [Option.map_some, htail, Text.find?, hclose, hslice, htag, Option.bind_some,
          hspan, hsite]
        rfl

/-- What is cut of `text` for the region of `site`: its heading, its inner text, and all of it, with
the tags, for which another text is put in. -/
theorem slices_of_locate {family : Family} {name : String} {text front rest : List Char}
    {cursor : Nat} {site : Site} (htext : text = front ++ rest)
    (hcursor : String.utf8Len front = cursor)
    (hsite : Site.locate family name rest = .ok (some site)) :
    Text.slice? text ((ofSite cursor site).start + 2) (ofSite cursor site).bracket =
        some site.heading ∧
      Text.slice? text ((ofSite cursor site).bracket + 1) (ofSite cursor site).stop =
        some site.literal ∧
      ∀ value, Text.replaceRange? text (ofSite cursor site).start
        ((ofSite cursor site).stop + String.utf8Len family.closeTag) value =
          some (front ++ site.before ++ value ++ site.after) := by
  obtain ⟨hrest, -, -, htail, -, -⟩ := Site.sound_of_locate hsite
  have hopen : String.utf8Len ['[', family.sigil] = 2 := by cases family <;> rfl
  have hbracket : String.utf8Len [']'] = 1 := rfl
  have hstart : String.utf8Len (front ++ site.before) = (ofSite cursor site).start := by
    rw [String.utf8Len_append, hcursor]
    rfl
  have hheading : String.utf8Len (front ++ site.before ++ ['[', family.sigil]) =
      (ofSite cursor site).start + 2 := by
    rw [String.utf8Len_append, hstart, hopen]
  have hliteral : String.utf8Len
      (front ++ site.before ++ ['[', family.sigil] ++ site.heading ++ [']']) =
        (ofSite cursor site).bracket + 1 := by
    rw [String.utf8Len_append, String.utf8Len_append, hheading, hbracket]
    rfl
  -- the text is put together in three ways, around each part that is cut out of it
  have haround : text = (front ++ site.before ++ ['[', family.sigil]) ++ site.heading ++
      (']' :: site.literal ++ family.closeTag ++ site.after) := by
    rw [htext, hrest, htail]
    simp
  have hinside : text = (front ++ site.before ++ ['[', family.sigil] ++ site.heading ++ [']']) ++
      site.literal ++ (family.closeTag ++ site.after) := by
    rw [haround]
    simp
  have hwhole : text = (front ++ site.before) ++
      (['[', family.sigil] ++ site.heading ++ [']'] ++ site.literal ++ family.closeTag) ++
        site.after := by
    rw [haround]
    simp
  refine ⟨Text.slice?_of_eq_append haround hheading rfl,
    Text.slice?_of_eq_append hinside hliteral rfl,
    Text.replaceRange?_of_eq_append hwhole hstart ?_⟩
  simp only [String.utf8Len_append, hopen, hbracket, ofSite]
  omega

/-- A region of a text that lies behind a cursor, with its tags, and can be cut out of the text. -/
structure Within (family : Family) (text : List Char) (cursor : Nat) (span : Span) : Prop where
  /-- The region does not start before the cursor. -/
  cursor_le : cursor ≤ span.start
  /-- The heading starts behind the bracket and the sigil of the open tag. -/
  start_le : span.start + 2 ≤ span.bracket
  /-- The heading ends before the close tag. -/
  bracket_lt : span.bracket < span.stop
  /-- The close tag ends in the text. -/
  stop_le : span.stop + String.utf8Len family.closeTag ≤ String.utf8Len text
  /-- No offset lies inside a character. -/
  boundaries : ∀ offset ∈ [span.start, span.start + 2, span.bracket, span.bracket + 1, span.stop,
    span.stop + String.utf8Len family.closeTag], Text.IsBoundary text offset

/-- The offsets of `site` are in their order, and `text` can be cut at them. -/
theorem within_of_locate {family : Family} {name : String} {text front rest : List Char}
    {cursor : Nat} {site : Site} (htext : text = front ++ rest)
    (hcursor : String.utf8Len front = cursor)
    (hsite : Site.locate family name rest = .ok (some site)) :
    (ofSite cursor site).Within family text cursor := by
  obtain ⟨hheading, hliteral, hregion⟩ := slices_of_locate htext hcursor hsite
  obtain ⟨hopen, hbracket⟩ := Text.boundaries_of_slice? hheading
  obtain ⟨hinner, hstop⟩ := Text.boundaries_of_slice? hliteral
  obtain ⟨hstart, hend⟩ := Text.boundaries_of_replaceRange? (hregion [])
  exact
    { cursor_le := by
        simp only [ofSite]
        omega
      start_le := by
        simp only [ofSite]
        omega
      bracket_lt := by
        simp only [ofSite]
        omega
      stop_le := hend.le
      boundaries := by
        simp only [List.forall_mem_cons]
        exact ⟨hstart, hopen, hbracket, hinner, hstop, hend, by simp⟩ }

end Span

/-! ### Scans under way -/

/-- A scan under way: what has been scanned, and a cursor in its text. -/
structure Walk extends Scanned where
  /-- The offset from which the scan goes on. -/
  cursor : Nat

namespace Search

/-- A round of a scan, from the cursor of `walk`. The next region is passed over, or an alias takes
its place in the text. -/
def round (search : Search) : Loop Walk (Except SetupError Scanned) := fun walk => do
  match ← Span.locate? search.family search.name walk.text walk.cursor with
  | .error error => return .done (.error error)
  | .ok none => return .done (.ok walk.toScanned)
  | .ok (some span) =>
    let heading ← Text.slice? walk.text (span.start + 2) span.bracket
    match search.boundNames heading with
    | .error error => return .done (.error error)
    | .ok none => return .next { walk with cursor := span.start + 1 }
    | .ok (some names) =>
      match search.clash? names walk.regions with
      | some name => return .done (.error (.duplicateBinding search.family name))
      | none =>
        let literal ← Text.slice? walk.text (span.bracket + 1) span.stop
        match walk.pool.fresh? search.avoid with
        | none => return .done (.error .noFreshAlias)
        | some (aliasName, pool) =>
          let text ← Text.replaceRange? walk.text span.start
            (span.stop + String.utf8Len search.family.closeTag) aliasName.toList
          let region : Region :=
            ⟨String.ofList heading, names, aliasName, String.ofList literal⟩
          return .next ⟨⟨text, walk.regions ++ [region], pool⟩,
            span.start + String.utf8Len aliasName.toList⟩

/-- The `outcome` that is due to `walk`: that of the scan of the text behind its cursor. -/
def Due (search : Search) (walk : Walk) (outcome : Except SetupError Scanned) : Prop :=
  ∃ front rest, walk.text = front ++ rest ∧ String.utf8Len front = walk.cursor ∧
    outcome = (search.scan walk.regions walk.pool rest).map (Scanned.following front walk.regions)

variable {search : Search} {walk : Walk} {front rest : List Char}

/-- A round that has `found` no region, or no whole one, ends the walk. -/
theorem round_of_locate {found : Except SetupError (Option Span)}
    (hlocate : Span.locate? search.family search.name walk.text walk.cursor = some found)
    (hnone : ∀ span, found ≠ .ok (some span)) :
    search.round walk = some (.done (found.map fun _ => walk.toScanned)) := by
  cases found with
  | error error => simp [round, hlocate, Except.map]
  | ok found =>
    cases found with
    | none => simp [round, hlocate, Except.map]
    | some span => exact absurd rfl (hnone span)

/-- A round that finds the region of `site` goes on as its heading asks for. -/
theorem round_of_site {site : Site} (htext : walk.text = front ++ rest)
    (hcursor : String.utf8Len front = walk.cursor)
    (hsite : Site.locate search.family search.name rest = .ok (some site)) :
    search.round walk =
      match search.boundNames site.heading with
      | .error error => some (.done (.error error))
      | .ok none =>
        some (.next { walk with cursor := walk.cursor + String.utf8Len site.before + 1 })
      | .ok (some names) =>
        match search.clash? names walk.regions with
        | some name => some (.done (.error (.duplicateBinding search.family name)))
        | none =>
          match walk.pool.fresh? search.avoid with
          | none => some (.done (.error .noFreshAlias))
          | some (aliasName, pool) =>
            let region : Region :=
              ⟨String.ofList site.heading, names, aliasName, String.ofList site.literal⟩
            some (.next ⟨⟨front ++ site.before ++ aliasName.toList ++ site.after,
              walk.regions ++ [region], pool⟩,
              walk.cursor + String.utf8Len site.before + String.utf8Len aliasName.toList⟩) := by
  have hlocate : Span.locate? search.family search.name walk.text walk.cursor =
      some (.ok (some (Span.ofSite walk.cursor site))) := by
    rw [Span.locate?_of_eq_append search.family search.name htext hcursor, hsite]
    rfl
  -- the slices at the offsets are the parts of the site
  obtain ⟨hheading, hliteral, hregion⟩ := Span.slices_of_locate htext hcursor hsite
  simp only [round, hlocate, Option.bind_eq_bind, Option.bind_some, hheading]
  cases search.boundNames site.heading with
  | error error => rfl
  | ok bound =>
    cases bound with
    | none => rfl
    | some names =>
      dsimp only
      cases search.clash? names walk.regions with
      | some name => rfl
      | none =>
        simp only [hliteral, Option.bind_some]
        cases walk.pool.fresh? search.avoid with
        | none => rfl
        | some drawn =>
          simp only [hregion, Option.bind_some]
          rfl

/-- Behind the bracket of an open tag, where `next` starts, the same outcome is due as to `walk`,
and fewer brackets are left. -/
theorem due_pass {site : Site} (htext : walk.text = front ++ rest)
    (hcursor : String.utf8Len front = walk.cursor)
    (hsite : Site.locate search.family search.name rest = .ok (some site)) :
    let next : Walk := { walk with cursor := walk.cursor + String.utf8Len site.before + 1 }
    search.Due next
        (((search.scan walk.regions walk.pool site.rest).map
          (·.behind (site.before ++ ['[']))).map (Scanned.following front walk.regions)) ∧
      brackets next.text next.cursor < brackets walk.text walk.cursor := by
  intro next
  -- the walk goes on behind the bracket
  have hplace : walk.text = (front ++ site.before ++ ['[']) ++ site.rest := by
    rw [htext, (Site.eq_of_locate hsite).1]
    simp
  have hnext : String.utf8Len (front ++ site.before ++ ['[']) = next.cursor := by
    rw [String.utf8Len_append, String.utf8Len_append, hcursor]
    rfl
  constructor
  · refine ⟨_, _, hplace, hnext, ?_⟩
    show _ = (search.scan walk.regions walk.pool site.rest).map _
    generalize search.scan walk.regions walk.pool site.rest = outcome
    cases outcome <;> simp [next, Except.map, Scanned.following, Scanned.behind]
  · rw [brackets_of_eq_append hplace hnext, brackets_of_eq_append htext hcursor]
    exact (Site.count_lt_of_locate hsite).1

/-- Behind the alias that takes the place of `region`, where `next` starts, the same outcome is due
as to `walk`, and fewer brackets are left, because the region takes its brackets with it. -/
theorem due_bind {site : Site} (htext : walk.text = front ++ rest)
    (hcursor : String.utf8Len front = walk.cursor)
    (hsite : Site.locate search.family search.name rest = .ok (some site))
    (region : Region) (pool : AliasPool) :
    let next : Walk :=
      ⟨⟨front ++ site.before ++ region.aliasName.toList ++ site.after,
        walk.regions ++ [region], pool⟩,
        walk.cursor + String.utf8Len site.before + String.utf8Len region.aliasName.toList⟩
    search.Due next
        (((search.scan (walk.regions ++ [region]) pool site.after).map
          (·.withRegion site.before region)).map (Scanned.following front walk.regions)) ∧
      brackets next.text next.cursor < brackets walk.text walk.cursor := by
  intro next
  -- the walk goes on behind the alias
  have hnext : String.utf8Len (front ++ site.before ++ region.aliasName.toList) =
      next.cursor := by
    rw [String.utf8Len_append, String.utf8Len_append, hcursor]
  constructor
  · refine ⟨_, site.after, rfl, hnext, ?_⟩
    show _ = (search.scan (walk.regions ++ [region]) pool site.after).map _
    generalize search.scan (walk.regions ++ [region]) pool site.after = outcome
    cases outcome <;> simp [next, Except.map, Scanned.following, Scanned.withRegion]
  · rw [brackets_of_eq_append rfl hnext, brackets_of_eq_append htext hcursor]
    exact (Site.count_lt_of_locate hsite).2

/-- The rounds of a walk settle what is due to it: they are those of the scan, and each of them
passes a bracket. -/
theorem round_settles (search : Search) :
    search.round.Settles search.Due fun walk => brackets walk.text walk.cursor := by
  rintro walk outcome ⟨front, rest, htext, hcursor, rfl⟩
  have hlocate := Span.locate?_of_eq_append search.family search.name htext hcursor
  cases hsite : Site.locate search.family search.name rest with
  | error error =>
    left
    rw [hsite] at hlocate
    rw [round_of_locate hlocate (by simp [Except.map]), scan_of_error search _ _ hsite]
    rfl
  | ok found =>
    cases found with
    | none =>
      -- no region is left, so the text stays as it is
      left
      rw [hsite] at hlocate
      rw [round_of_locate hlocate (by simp [Except.map]), scan_of_none search _ _ hsite]
      simp [Except.map, Scanned.following, ← htext]
    | some site =>
      -- both sides go by the heading
      rw [round_of_site htext hcursor hsite, scan_of_site search _ _ hsite]
      cases search.boundNames site.heading with
      | error error => exact .inl rfl
      | ok bound =>
        cases bound with
        | none => exact .inr ⟨_, rfl, due_pass htext hcursor hsite⟩
        | some names =>
          dsimp only
          cases search.clash? names walk.regions with
          | some name => exact .inl rfl
          | none =>
            dsimp only
            cases walk.pool.fresh? search.avoid with
            | none => exact .inl rfl
            | some drawn =>
              obtain ⟨aliasName, pool⟩ := drawn
              let region : Region :=
                ⟨String.ofList site.heading, names, aliasName, String.ofList site.literal⟩
              exact .inr ⟨_, rfl, due_bind htext hcursor hsite region pool⟩

theorem Due.isBoundary {walk : Walk} {outcome : Except SetupError Scanned}
    (h : search.Due walk outcome) : Text.IsBoundary walk.text walk.cursor := by
  obtain ⟨front, rest, htext, hlength, -⟩ := h
  exact Text.isBoundary_of_eq_append htext hlength

/-- Let `walk.cursor` be a boundary of `walk.text`. The search for an open tag (`Site.seek`) comes
to a `turn`, and goes on only to a boundary `next` behind which fewer brackets are left. A `span`
that `Span.locate?` finds lies behind the cursor, with its offsets in their order and all of them
boundaries (`Span.Within`). So `search.round` does not fail either: it comes to an end, or it goes
on to a walk `next` with a boundary behind which fewer brackets are left, also if its text has
become longer. Hence `brackets walk.text walk.cursor` rounds are enough, and what they come to is
the scan of `rest`, the characters behind the cursor, with those of `front` put back before it. -/
theorem walk_within_bounds (search : Search) (walk : Walk)
    (hcursor : Text.IsBoundary walk.text walk.cursor) :
    (∃ turn, Site.seek (search.family.openPrefix search.name.toList) search.family.closeTag
        walk.text walk.cursor = some turn ∧
      ∀ next, turn = .next next → Text.IsBoundary walk.text next ∧
        brackets walk.text next < brackets walk.text walk.cursor) ∧
    (∃ found, Span.locate? search.family search.name walk.text walk.cursor = some found ∧
      ∀ span, found = .ok (some span) → span.Within search.family walk.text walk.cursor ∧
        0 < brackets walk.text walk.cursor) ∧
    (∃ turn, search.round walk = some turn ∧
      ∀ next, turn = .next next → Text.IsBoundary next.text next.cursor ∧
        brackets next.text next.cursor < brackets walk.text walk.cursor) ∧
    ∃ front rest, walk.text = front ++ rest ∧ String.utf8Len front = walk.cursor ∧
      search.round.run (brackets walk.text walk.cursor) walk =
        some ((search.scan walk.regions walk.pool rest).map
          (Scanned.following front walk.regions)) := by
  obtain ⟨front, rest, htext, hlength⟩ := Text.isBoundary_iff.1 hcursor
  have hdue : search.Due walk ((search.scan walk.regions walk.pool rest).map
      (Scanned.following front walk.regions)) := ⟨front, rest, htext, hlength, rfl⟩
  refine ⟨?_, ?_, ?_, front, rest, htext, hlength,
    Loop.run_of_settles search.round_settles hdue le_rfl⟩
  · -- the search for an open tag
    have hseek := Site.seek_settles (search.family.sigil :: search.name.toList)
      search.family.closeTag walk.text
    obtain ⟨turn, hturn, hnext⟩ := hseek.exists_turn ⟨front, rest, htext, hlength, rfl⟩
    refine ⟨turn, hturn, fun next heq => ?_⟩
    obtain ⟨⟨before, after, hplace, hoffset, -⟩, hless⟩ := hnext next heq
    exact ⟨Text.isBoundary_of_eq_append hplace hoffset, hless⟩
  · -- a region that is found
    refine ⟨_, Span.locate?_of_eq_append search.family search.name htext hlength, ?_⟩
    intro span hspan
    cases hsite : Site.locate search.family search.name rest with
    | error error =>
      rw [hsite] at hspan
      cases hspan
    | ok found =>
      rw [hsite] at hspan
      obtain ⟨site, rfl, rfl⟩ := Option.map_eq_some_iff.1 (Except.ok.inj hspan)
      refine ⟨Span.within_of_locate htext hlength hsite, ?_⟩
      rw [brackets_of_eq_append htext hlength]
      have hfewer := (Site.count_lt_of_locate hsite).1
      omega
  · -- a round
    obtain ⟨turn, hturn, hnext⟩ := search.round_settles.exists_turn hdue
    refine ⟨turn, hturn, fun next heq => ?_⟩
    obtain ⟨hdue', hless⟩ := hnext next heq
    exact ⟨hdue'.isBoundary, hless⟩

/-- The text starts with a character of two bytes. For the name `e` a close tag is skipped first,
then the open tag of `e2` is passed over, and an alias that is longer than its region takes the
place of the region of `e`. -/
theorem walk_within_bounds_longer_alias :
    let text := "ß[+end][+e2][+e]é[+end]".toList
    let search : Search := ⟨.single, "e", ["e"], text⟩
    let walk : Walk := ⟨⟨text, [], Document.nestedPool⟩, 2⟩
    ¬ Text.IsBoundary text 1 ∧ Text.IsBoundary text 2 ∧ brackets text 2 = 4 ∧
      (⟨8, 12, 19⟩ : Span).Within .single text 2 ∧
      ∃ scanned, search.round.run 4 walk = some (.ok scanned) ∧
        scanned.text = "ß[+end][+e2]".toList ++ List.replicate 32 'a' ∧
        String.utf8Len text < String.utf8Len scanned.text := by
  intro text search walk
  have hcursor : Text.IsBoundary text 2 := by decide +kernel
  have hbrackets : brackets text 2 = 4 := by decide +kernel
  obtain ⟨-, ⟨found, hfound, hwithin⟩, -, front, rest, -, -, hrun⟩ :=
    walk_within_bounds search walk hcursor
  -- what the walk comes to is evaluated within the number of rounds that the theorem gives
  have hspan : (Span.locate? .single "e" text 2).map Except.toOption =
      some (some (some ⟨8, 12, 19⟩)) := by
    decide +kernel
  have hscanned : (search.round.run (brackets text 2) walk).map
      (fun outcome => outcome.toOption.map Scanned.text) =
        some (some ("ß[+end][+e2]".toList ++ List.replicate 32 'a')) := by
    decide +kernel
  rw [hfound, Option.map_some, Option.some.injEq] at hspan
  rw [hrun, Option.map_some, Option.some.injEq] at hscanned
  obtain ⟨scanned, hok, htext⟩ := Except.exists_of_toOption_map hscanned
  refine ⟨by decide +kernel, hcursor, hbrackets,
    (hwithin _ (Except.eq_ok_of_toOption hspan)).1, scanned, ?_, htext, ?_⟩
  · rw [← hok, ← hrun, ← hbrackets]
  · rw [htext]
    decide +kernel

end Search

end Stencil
