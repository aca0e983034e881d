/-!
# Rosters: entries by name

A roster holds at most one entry for each name and keeps its entries in the byte order of their
names. For texts in UTF-8 that is the order of code points, which is core's order on `String`.
Two rosters with the same entries are equal, in whatever order these were entered.

Main definitions:

* `Roster`: the type; its invariant is that the names ascend.
* `Roster.find?`, `Roster.insert`, `Roster.erase`, `Roster.names`: look up, enter, strike out, list.

Main statements:

* `find?_insert`, `find?_erase`, `find?_map`: what each change does to each look-up.
* `find?_eq_some_iff`: what is found is what is entered.
* `ext_find?`: a roster is determined by its look-ups.
-/

namespace Stencil

/-- Entries by name, in the byte order of their names. -/
structure Roster (α : Type) where
  /-- The names and what they stand for. -/
  entries : List (String × α)
  /-- The names ascend, so no name has two entries. -/
  ascending : entries.Pairwise fun a b => a.1 < b.1

namespace Roster

variable {α β : Type}

/-- The roster without entries. -/
def empty : Roster α :=
  ⟨[], .nil⟩

instance : Inhabited (Roster α) := ⟨empty⟩

/-- The first entry under `name` in a list of entries. -/
def lookup (name : String) : List (String × α) → Option α
  | [] => none
  | (key, value) :: rest => if key = name then some value else lookup name rest

/-- Puts an entry in its place, over an entry with the same name if there is one. -/
def place (name : String) (value : α) : List (String × α) → List (String × α)
  | [] => [(name, value)]
  | entry :: rest =>
    if name < entry.1 then (name, value) :: entry :: rest
    else if entry.1 = name then (name, value) :: rest
    else entry :: place name value rest

theorem mem_place {name : String} {value : α} {entry : String × α}
    {entries : List (String × α)} (h : entry ∈ place name value entries) :
    entry = (name, value) ∨ entry ∈ entries := by
  induction entries with
  | nil => simpa [place] using h
  | cons head rest ih =>
    simp only [place] at h
    split at h
    · simpa using h
    · split at h
      · rcases List.mem_cons.1 h with rfl | h
        · exact .inl rfl
        · exact .inr (List.mem_cons_of_mem _ h)
      · rcases List.mem_cons.1 h with rfl | h
        · exact .inr List.mem_cons_self
        · exact (ih h).imp_right (List.mem_cons_of_mem _)

/-- A name that neither precedes nor equals another comes after it. -/
theorem lt_of_not_lt_of_ne {a b : String} (h : ¬a < b) (hne : b ≠ a) : b < a := by
  refine String.not_le.1 fun hle => hne (String.le_antisymm ?_ hle)
  exact String.not_lt.1 h

theorem ascending_place {name : String} {value : α} {entries : List (String × α)}
    (h : entries.Pairwise fun a b => a.1 < b.1) :
    (place name value entries).Pairwise fun a b => a.1 < b.1 := by
  induction entries with
  | nil => simp [place]
  | cons head rest ih =>
    obtain ⟨hhead, hrest⟩ := List.pairwise_cons.1 h
    simp only [place]
    split
    · rename_i hlt
      refine List.pairwise_cons.2 ⟨fun entry hentry => ?_, h⟩
      rcases List.mem_cons.1 hentry with rfl | hentry
      · exact hlt
      · exact String.lt_trans hlt (hhead entry hentry)
    · split
      · rename_i heq
        exact List.pairwise_cons.2 ⟨fun entry hentry => heq ▸ hhead entry hentry, hrest⟩
      · rename_i hlt hne
        refine List.pairwise_cons.2 ⟨fun entry hentry => ?_, ih hrest⟩
        rcases mem_place hentry with rfl | hentry
        · exact lt_of_not_lt_of_ne hlt hne
        · exact hhead entry hentry

/-- What stands under `name`. -/
def find? (roster : Roster α) (name : String) : Option α :=
  lookup name roster.entries

/-- Whether anything stands under `name`. -/
def contains (roster : Roster α) (name : String) : Bool :=
  (roster.find? name).isSome

/-- Enters `value` under `name`, over what stood there. -/
def insert (roster : Roster α) (name : String) (value : α) : Roster α :=
  ⟨place name value roster.entries, ascending_place roster.ascending⟩

/-- Strikes out what stands under `name`. -/
def erase (roster : Roster α) (name : String) : Roster α :=
  ⟨roster.entries.filter (·.1 != name), roster.ascending.filter _⟩

/-- The names, in byte order. -/
def names (roster : Roster α) : List String :=
  roster.entries.map (·.1)

/-- Whether the roster has no entries. -/
def isEmpty (roster : Roster α) : Bool :=
  roster.entries.isEmpty

/-- Applies a function to every entry. -/
def map (f : α → β) (roster : Roster α) : Roster β :=
  ⟨roster.entries.map fun (name, value) => (name, f value), by
    simpa [List.pairwise_map] using roster.ascending⟩

/-- The roster of the given entries; the last of those with one name counts. -/
def ofList (entries : List (String × α)) : Roster α :=
  entries.foldl (fun roster entry => roster.insert entry.1 entry.2) empty

@[simp]
theorem find?_empty (name : String) : (empty : Roster α).find? name = none := rfl

theorem lookup_place (name key : String) (value : α) (entries : List (String × α)) :
    lookup key (place name value entries) =
      if name = key then some value else lookup key entries := by
  induction entries with
  | nil => simp [place, lookup]
  | cons head rest ih =>
    simp only [place]
    split
    · simp [lookup]
    · split
      · rename_i heq
        by_cases hk : name = key <;> simp_all [lookup]
      · rename_i hne
        by_cases hk : head.1 = key
        · simp [lookup, hk, show name ≠ key from fun h => hne (hk.trans h.symm)]
        · simp [lookup, hk, ih]

/-- Entering changes the look-up of the name entered, and of no other. -/
theorem find?_insert (roster : Roster α) (name key : String) (value : α) :
    (roster.insert name value).find? key = if name = key then some value else roster.find? key :=
  lookup_place name key value roster.entries

@[simp]
theorem find?_insert_self (roster : Roster α) (name : String) (value : α) :
    (roster.insert name value).find? name = some value := by
  simp [find?_insert]

theorem lookup_filter_ne (name key : String) (entries : List (String × α)) :
    lookup key (entries.filter (·.1 != name)) =
      if name = key then none else lookup key entries := by
  induction entries with
  | nil => simp [lookup]
  | cons head rest ih =>
    by_cases hn : head.1 = name
    · by_cases hk : name = key <;> simp_all [lookup]
    · by_cases hk : head.1 = key
      · subst hk
        simp [lookup, hn, Ne.symm hn]
      · simp [lookup, hn, hk, ih]

/-- Striking out changes the look-up of the name struck out, and of no other. -/
theorem find?_erase (roster : Roster α) (name key : String) :
    (roster.erase name).find? key = if name = key then none else roster.find? key :=
  lookup_filter_ne name key roster.entries

theorem lookup_map (f : α → β) (name : String) (entries : List (String × α)) :
    lookup name (entries.map fun entry => (entry.1, f entry.2)) = (lookup name entries).map f := by
  induction entries with
  | nil => rfl
  | cons entry entries ih =>
    rw [List.map_cons, lookup, lookup, ih]
    split <;> rfl

/-- What stands under a name when a function was applied to every entry. -/
theorem find?_map (f : α → β) (roster : Roster α) (name : String) :
    (roster.map f).find? name = (roster.find? name).map f :=
  lookup_map f name roster.entries

theorem isSome_lookup_iff {name : String} {entries : List (String × α)} :
    (lookup name entries).isSome = true ↔ name ∈ entries.map (·.1) := by
  induction entries with
  | nil => simp [lookup]
  | cons entry entries ih =>
    rw [lookup, List.map_cons, List.mem_cons, ← ih]
    split
    · rename_i heq
      exact ⟨fun _ => .inl heq.symm, fun _ => rfl⟩
    · rename_i hne
      exact ⟨.inr, fun h => h.resolve_left (Ne.symm hne)⟩

/-- Something stands under the names that are listed. -/
theorem exists_find?_of_mem_names {roster : Roster α} {name : String} (h : name ∈ roster.names) :
    ∃ value, roster.find? name = some value :=
  Option.isSome_iff_exists.1 (isSome_lookup_iff.2 h)

theorem lookup_eq_some_iff {name : String} {value : α} {entries : List (String × α)}
    (h : entries.Pairwise fun a b => a.1 < b.1) :
    lookup name entries = some value ↔ (name, value) ∈ entries := by
  induction entries with
  | nil => simp [lookup]
  | cons head rest ih =>
    obtain ⟨hhead, hrest⟩ := List.pairwise_cons.1 h
    rw [lookup, List.mem_cons, Prod.mk.injEq]
    split
    · rename_i heq
      -- the names behind this one come after it
      have hbehind : (name, value) ∉ rest := fun hmem =>
        String.lt_irrefl name (heq ▸ hhead (name, value) hmem)
      simp [heq, hbehind, eq_comm]
    · rename_i hne
      rw [ih hrest]
      simp [Ne.symm hne]

/-- What stands under a name is entered under it. -/
theorem find?_eq_some_iff {roster : Roster α} {name : String} {value : α} :
    roster.find? name = some value ↔ (name, value) ∈ roster.entries :=
  lookup_eq_some_iff roster.ascending

theorem lookup_eq_none_of_lt {name : String} {entries : List (String × α)}
    (h : ∀ entry ∈ entries, name < entry.1) : lookup name entries = none := by
  induction entries with
  | nil => rfl
  | cons head rest ih =>
    have hne : head.1 ≠ name := fun heq =>
      String.lt_irrefl name (heq ▸ h head List.mem_cons_self)
    simp [lookup, hne, ih fun entry hentry => h entry (List.mem_cons_of_mem _ hentry)]

theorem eq_of_lookup_eq {first second : List (String × α)}
    (hfirst : first.Pairwise fun a b => a.1 < b.1)
    (hsecond : second.Pairwise fun a b => a.1 < b.1)
    (h : ∀ name, lookup name first = lookup name second) : first = second := by
  induction first generalizing second with
  | nil =>
    cases second with
    | nil => rfl
    | cons head rest => simpa [lookup] using h head.1
  | cons head rest ih =>
    obtain ⟨name, value⟩ := head
    obtain ⟨hhead, hrest⟩ := List.pairwise_cons.1 hfirst
    cases second with
    | nil => simpa [lookup] using h name
    | cons other others =>
      obtain ⟨name', value'⟩ := other
      obtain ⟨hother, hothers⟩ := List.pairwise_cons.1 hsecond
      have hname : name = name' := by
        refine Classical.byContradiction fun hne => ?_
        by_cases hlt : name < name'
        · have hnone : lookup name ((name', value') :: others) = none :=
            lookup_eq_none_of_lt fun entry hentry => by
              rcases List.mem_cons.1 hentry with rfl | hentry
              · exact hlt
              · exact String.lt_trans hlt (hother entry hentry)
          have hsome := h name
          rw [hnone] at hsome
          simp [lookup] at hsome
        · have hgt : name' < name := lt_of_not_lt_of_ne hlt (Ne.symm hne)
          have hnone : lookup name' ((name, value) :: rest) = none :=
            lookup_eq_none_of_lt fun entry hentry => by
              rcases List.mem_cons.1 hentry with rfl | hentry
              · exact hgt
              · exact String.lt_trans hgt (hhead entry hentry)
          have hsome := h name'
          rw [hnone] at hsome
          simp [lookup] at hsome
      subst hname
      have hvalue : value = value' := by simpa [lookup] using h name
      subst hvalue
      refine congrArg _ (ih hrest hothers fun key => ?_)
      by_cases hkey : name = key
      · subst hkey
        rw [lookup_eq_none_of_lt hhead, lookup_eq_none_of_lt hother]
      · simpa [lookup, hkey] using h key

/-- A roster is determined by its look-ups. -/
theorem ext_find? {first second : Roster α} (h : ∀ name, first.find? name = second.find? name) :
    first = second := by
  obtain ⟨entries, ascending⟩ := first
  obtain ⟨entries', ascending'⟩ := second
  have : entries = entries' := eq_of_lookup_eq ascending ascending' h
  subst this
  rfl

end Roster

end Stencil
