import StrictSchema.Proofs.Settings.Keys
import StrictSchema.Proofs.Settings.Meaning

/-!
# Sources of settings

A source of settings is a document or the environment (`Source`). What it gives for a setting stands
in the table of the group under the name of the setting, or in the variable of both names
(`Source.given`); of all sources, the last value that is given decides (`Setting.IsDecided`). As a
layer, a source gives the last of the values that it gives (`Source.gives?_layer`), and the layer of
a valid source is valid (`Source.IsValid.layer`).
-/

namespace StrictSchema

open SettingTree

/-- A source of settings: the text of a document with its origin, or the environment. -/
inductive Source where
  | document (origin : Origin) (text : String)
  | environment (vs : List (String × String))
deriving DecidableEq

/-- A single value as it stands in a document. -/
def Scalar.toToml : Scalar → Toml
  | .bool b => .bool b
  | .integer n => .integer n
  | .real x => .real x
  | .text s => .text s

namespace Toml

/-- The entries of a table; anything else has none. -/
def entries : Toml → List (String × Toml)
  | .table entries => entries
  | _ => []

/-- The values of the entries of a table that have the name, in any case. -/
def named (name : String) (v : Toml) : List Toml :=
  v.entries.filterMap fun e => if Text.lowerCase e.1 = name then some e.2 else none

end Toml

/-! ## What a source gives -/

namespace Source

/-- All values that a source gives for a setting, by the names of its group and itself, in order:
those in the table of the group, those under both names with a dot between them, and those of the
variables for the setting. -/
def given (group name : String) : Source → List Toml
  | .document _ text => ((Toml.read? text).getD []).flatMap fun e =>
      if Text.lowerCase e.1 = group then e.2.named name
      else if KeyPath.IsPathTo group name e.1 then [e.2]
      else []
  | .environment vs => vs.filterMap fun v =>
      if IsVariableFor group name v.1 then some (Scalar.ofText v.2).toToml else none

end Source

namespace Setting

variable {α : Type}

/-- The last value that the sources give for the setting stands for this value; if they give none,
it is the default. -/
def IsDecided (x : Setting α) (sources : List Source) (value : α) : Prop :=
  match (sources.flatMap (Source.given x.group x.name)).getLast? with
  | some v => x.Means v value
  | none => value = x.default

instance [DecidableEq α] (x : Setting α) (sources : List Source) (value : α) :
    Decidable (x.IsDecided sources value) :=
  match h : (sources.flatMap (Source.given x.group x.name)).getLast? with
  | some v => decidable_of_iff (x.Means v value) (by rw [IsDecided, h])
  | none => decidable_of_iff (value = x.default) (by rw [IsDecided, h])

theorem IsDecided.means {x : Setting α} {sources : List Source} {value : α}
    (h : x.IsDecided sources value) {v : Toml}
    (last : (sources.flatMap (Source.given x.group x.name)).getLast? = some v) :
    x.Means v value := by
  rwa [IsDecided, last] at h

/-- What sources give for a setting decides its value. -/
theorem IsDecided.unique {x : Setting α} {sources sources' : List Source} {value value' : α}
    (h : x.IsDecided sources value) (h' : x.IsDecided sources' value')
    (same : sources.flatMap (Source.given x.group x.name) =
      sources'.flatMap (Source.given x.group x.name)) : value = value' := by
  cases last : (sources'.flatMap (Source.given x.group x.name)).getLast? with
  | some v => exact (h.means (same ▸ last)).unique (h'.means last)
  | none =>
    rw [IsDecided, same, last] at h
    rw [IsDecided, last] at h'
    exact h.trans h'.symm

end Setting

/-! ## Valid sources -/

namespace Source

/-- Where the settings of a source come from. -/
def origin : Source → Origin
  | .document origin _ => origin
  | .environment _ => .environment

/-- The values of a source with their places, if it is well formed. -/
def entries? : Source → Option (List (KeyPath × Toml))
  | .document _ text => (Toml.read? text).map (List.map fun e => (KeyPath.ofKey e.1, e.2))
  | .environment vs => some (vs.filterMap fun v =>
      (keyOfVariable? v.1).map fun place => (place, (Scalar.ofText v.2).toToml))

/-- A value for a group is a table, and no value stands within a setting or in a group by its
position. -/
def IsPlain (place : KeyPath) (v : Toml) : Prop :=
  match place with
  | [.name group] => group ∈ groupNames → v.isTable
  | .name group :: .name name :: rest => (group, name) ∈ Assignment.places → rest = []
  | .name group :: _ => group ∉ groupNames
  | _ => False

def isDocument : Source → Bool
  | .document _ _ => true
  | .environment _ => false

/-- The source is well formed with tables for the groups, every value that it gives for a setting
stands for one of the setting, and if it is a document, it gives each setting once at most: the
order of its entries is of no consequence. -/
structure IsValid (source : Source) : Prop where
  plain : ∃ entries ∈ source.entries?, ∀ e ∈ entries, IsPlain e.1 e.2
  admitted : ∀ {α : Type} (x : Setting α), ∀ v ∈ source.given x.group x.name, x.Admits v
  once : source.isDocument → ∀ {α : Type} (x : Setting α),
    (source.given x.group x.name).length ≤ 1

instance : ∀ place v, Decidable (IsPlain place v)
  | [], _ => inferInstanceAs (Decidable False)
  | .index _ :: _, _ => inferInstanceAs (Decidable False)
  | [.name _], _ => inferInstanceAs (Decidable (_ → _))
  | .name _ :: .name _ :: _, _ => inferInstanceAs (Decidable (_ → _))
  | .name _ :: .index _ :: _, _ => inferInstanceAs (Decidable (¬ _))

theorem isValid_iff (source : Source) :
    source.IsValid ↔
      (∃ entries ∈ source.entries?, ∀ e ∈ entries, IsPlain e.1 e.2) ∧
        ∀ {α : Type} (x : Setting α), (∀ v ∈ source.given x.group x.name, x.Admits v) ∧
          (source.isDocument → (source.given x.group x.name).length ≤ 1) :=
  ⟨fun h => ⟨h.plain, fun x => ⟨h.admitted x, fun document => h.once document x⟩⟩,
    fun h => ⟨h.1, fun x => (h.2 x).1, fun document _ x => (h.2 x).2 document⟩⟩

instance : DecidablePred IsValid := fun source =>
  decidable_of_iff _ ((and_congr_right' (Setting.forall_iff
    (P := fun x => (∀ v ∈ source.given x.group x.name, x.Admits v) ∧
      (source.isDocument → (source.given x.group x.name).length ≤ 1))).symm).trans
    source.isValid_iff.symm)

/-! ## The layer of a source -/

/-- The layer of a source, which is empty if the source is not well formed. -/
def layer (source : Source) : Layer :=
  (source.entries?.getD []).map fun e => ⟨e.1, ofToml source.origin e.2⟩

end Source

namespace SettingTree

theorem ofEntries_eq_map (origin : Origin) (entries : List (String × Toml)) :
    ofEntries origin entries = entries.map fun e => (e.1, ofToml origin e.2) := by
  induction entries with
  | nil => rfl
  | cons e entries ih => rw [ofEntries, ih, List.map_cons]

theorem entries_ofToml (origin : Origin) (v : Toml) :
    (ofToml origin v).entries = v.entries.map fun e => (e.1, ofToml origin e.2) := by
  cases v with
  | table entries => exact ofEntries_eq_map origin entries
  | text | integer | real | bool | moment | list => rfl

theorem lastGiven?_ofToml (name : String) (origin : Origin) (v : Toml) :
    lastGiven? name (ofToml origin v).entries = (v.named name).getLast?.map (ofToml origin) := by
  rw [lastGiven?, entries_ofToml, ← List.map_reverse, List.findSome?_map, Toml.named,
    List.getLast?_filterMap, List.map_findSome?]
  congr 1
  funext e
  dsimp only [Function.comp]
  split <;> rfl

theorem ofToml_toToml (value : Scalar) : ofToml .environment value.toToml =
    .scalar .environment value := by
  cases value <;> rfl

end SettingTree

namespace Source

section Gives

variable {α : Type} (x : Setting α)

/-- Only at the places of the group and of the setting, something is given for the setting. -/
theorem gives?_eq_none {group name : String} {a : Assignment} (h : a.place ≠ [.name group])
    (h' : a.place ≠ [.name group, .name name]) : a.gives? group name = none := by
  unfold Assignment.gives?
  split
  · next same => exact if_neg fun here => h (same.trans (by rw [here]))
  · next same => exact if_neg fun here => h' (same.trans (by rw [here.1, here.2]))
  · rfl

/-- A key gives what stands in the table of the group, or under both names. -/
theorem gives?_key (origin : Origin) (key : String) (v : Toml) :
    Assignment.gives? x.group x.name ⟨KeyPath.ofKey key, ofToml origin v⟩ =
      (if Text.lowerCase key = x.group then v.named x.name
        else if KeyPath.IsPathTo x.group x.name key then [v]
        else []).getLast?.map (ofToml origin) := by
  by_cases inGroup : Text.lowerCase key = x.group
  · rw [if_pos inGroup, x.ofKey_eq_group_iff.2 inGroup, ← lastGiven?_ofToml]
    exact if_pos rfl
  · rw [if_neg inGroup]
    by_cases path : KeyPath.IsPathTo x.group x.name key
    · rw [if_pos path, x.ofKey_eq_setting_iff.2 path]
      exact Assignment.gives?_names_self _ _ _
    · rw [if_neg path]
      exact gives?_eq_none (fun same => inGroup (x.ofKey_eq_group_iff.1 same))
        fun same => path (x.ofKey_eq_setting_iff.1 same)

/-- A variable gives its value if it is for the setting. -/
theorem gives?_variable (key : String) (value : Scalar) :
    ((keyOfVariable? key).bind fun place =>
        Assignment.gives? x.group x.name ⟨place, .scalar .environment value⟩) =
      if IsVariableFor x.group x.name key then some (.scalar .environment value) else none := by
  by_cases named : IsVariableFor x.group x.name key
  · rw [if_pos named, (keyOfVariable?_eq_setting_iff x).2 named]
    exact Assignment.gives?_names_self _ _ _
  · rw [if_neg named]
    refine Option.bind_eq_none_iff.2 fun place found => ?_
    by_cases inGroup : place = [.name x.group]
    · subst inGroup
      exact if_pos rfl
    · exact gives?_eq_none inGroup fun same =>
        named ((keyOfVariable?_eq_setting_iff x).1 (same ▸ found))

theorem layer_environment (vs : List (String × String)) :
    (environment vs).layer = vs.filterMap fun v =>
      (keyOfVariable? v.1).map fun key => ⟨key, .scalar .environment (.ofText v.2)⟩ := by
  rw [layer, entries?, Option.getD_some, List.map_filterMap]
  simp only [origin, Option.map_map, Function.comp_def, ofToml_toToml]

/-- As a layer, a source gives the last of the values that it gives. -/
theorem gives?_layer (source : Source) :
    source.layer.gives? x.group x.name =
      (source.given x.group x.name).getLast?.map (ofToml source.origin) := by
  cases source with
  | document origin text =>
    rw [layer, entries?, given]
    cases Toml.read? text with
    | none => rfl
    | some entries =>
      simp only [Option.map_some, Option.getD_some, List.map_map]
      rw [Layer.gives?, ← List.map_reverse, List.findSome?_map, List.getLast?_flatMap,
        List.map_findSome?]
      exact congrArg (List.findSome? · _) (funext fun e => gives?_key x origin e.1 e.2)
  | environment vs =>
    rw [layer_environment, given, Layer.gives?, ← List.getLast?_filterMap,
      List.filterMap_filterMap, ← List.getLast?_map, List.map_filterMap]
    refine congrArg (fun f => (vs.filterMap f).getLast?) (funext fun v => ?_)
    have value := ofToml_toToml (.ofText v.2)
    simp only [Option.bind_map, Function.comp_def, origin, gives?_variable]
    split
    · exact congrArg some value.symm
    · rfl

end Gives

/-! ## Layers of valid sources -/

section Valid

variable {α : Type} {x : Setting α} {source : Source} {entries : List (KeyPath × Toml)}
  {e : KeyPath × Toml}

/-- What stands in the table of the group under the name of the setting is given. -/
theorem mem_given_of_group (found : source.entries? = some entries) (mem : e ∈ entries)
    (inGroup : e.1 = [.name x.group]) {w : Toml} (named : w ∈ e.2.named x.name) :
    w ∈ source.given x.group x.name := by
  cases source with
  | document origin text =>
    obtain ⟨all, read, rfl⟩ := Option.map_eq_some_iff.1 found
    obtain ⟨⟨key, v⟩, here, rfl⟩ := List.mem_map.1 mem
    rw [given, read]
    refine List.mem_flatMap.2 ⟨(key, v), here, ?_⟩
    rw [if_pos (x.ofKey_eq_group_iff.1 inGroup)]
    exact named
  | environment vs =>
    cases found
    obtain ⟨v, -, given⟩ := List.mem_filterMap.1 mem
    obtain ⟨place, -, rfl⟩ := Option.map_eq_some_iff.1 given
    have none (value : Scalar) : value.toToml.named x.name = [] := by cases value <;> rfl
    rw [none] at named
    cases named

/-- What stands at the place of the setting is given. -/
theorem mem_given_of_setting (found : source.entries? = some entries) (mem : e ∈ entries)
    (here : e.1 = [.name x.group, .name x.name]) : e.2 ∈ source.given x.group x.name := by
  cases source with
  | document origin text =>
    obtain ⟨all, read, rfl⟩ := Option.map_eq_some_iff.1 found
    obtain ⟨⟨key, v⟩, inside, rfl⟩ := List.mem_map.1 mem
    have other : Text.lowerCase key ≠ x.group := fun same =>
      absurd ((x.ofKey_eq_group_iff.2 same).symm.trans here) (by simp)
    rw [given, read]
    refine List.mem_flatMap.2 ⟨(key, v), inside, ?_⟩
    rw [if_neg other, if_pos (x.ofKey_eq_setting_iff.1 here)]
    exact List.mem_singleton_self v
  | environment vs =>
    cases found
    obtain ⟨v, inside, given⟩ := List.mem_filterMap.1 mem
    obtain ⟨place, found, rfl⟩ := Option.map_eq_some_iff.1 given
    obtain rfl : place = _ := here
    refine List.mem_filterMap.2 ⟨v, inside, if_pos ?_⟩
    exact (keyOfVariable?_eq_setting_iff x).1 found

theorem IsValid.fits (valid : source.IsValid) {v : Toml} (mem : v ∈ source.given x.group x.name) :
    x.Fits (ofToml source.origin v) :=
  (Setting.fits_ofToml_iff _).2 (valid.admitted x v mem)

/-- The layer of a valid source is valid. -/
theorem IsValid.layer (valid : source.IsValid) : source.layer.IsValid := by
  obtain ⟨entries, found, plain⟩ := valid.plain
  intro a mem
  rw [Source.layer, found, Option.getD_some] at mem
  obtain ⟨⟨place, v⟩, inside, rfl⟩ := List.mem_map.1 mem
  have plain : IsPlain place v := plain _ inside
  rcases place with _ | ⟨group | _, rest⟩
  · exact plain
  rcases rest with _ | ⟨name | _, rest⟩
  · intro known
    refine ⟨isTable_ofToml_iff.2 (plain known), fun e he => ?_⟩
    rw [entries_ofToml] at he
    obtain ⟨⟨key, w⟩, listed, rfl⟩ := List.mem_map.1 he
    intro α x inGroup named
    subst inGroup
    refine valid.fits (mem_given_of_group found inside rfl ?_)
    exact List.mem_filterMap.2 ⟨(key, w), listed, if_pos named.symm⟩
  · intro known
    refine ⟨plain known, ?_⟩
    intro α x inGroup named
    subst inGroup named
    obtain rfl := plain known
    exact valid.fits (mem_given_of_setting found inside rfl)
  · exact plain
  · exact plain

end Valid

/-- An environment is valid if each of its variables is. -/
theorem isValid_environment_iff {vs : List (String × String)} :
    (environment vs).IsValid ↔ ∀ v ∈ vs,
      (∀ place ∈ keyOfVariable? v.1, IsPlain place (Scalar.ofText v.2).toToml) ∧
        ∀ {α : Type} (x : Setting α), IsVariableFor x.group x.name v.1 →
          x.Admits (Scalar.ofText v.2).toToml := by
  constructor
  · rintro ⟨⟨entries, found, plain⟩, admitted, -⟩ v mem
    cases found
    refine ⟨fun place key => ?_, fun x named => ?_⟩
    · refine plain (place, (Scalar.ofText v.2).toToml) (List.mem_filterMap.2 ⟨v, mem, ?_⟩)
      rw [key, Option.map_some]
    · exact admitted x _ (List.mem_filterMap.2 ⟨v, mem, if_pos named⟩)
  · refine fun each => ⟨⟨_, rfl, fun e mem => ?_⟩, fun x w mem => ?_, nofun⟩
    · obtain ⟨v, inside, given⟩ := List.mem_filterMap.1 mem
      obtain ⟨place, key, rfl⟩ := Option.map_eq_some_iff.1 given
      exact (each v inside).1 place key
    · obtain ⟨v, inside, given⟩ := List.mem_filterMap.1 mem
      obtain ⟨named, value⟩ := Option.ite_none_right_eq_some.1 given
      exact Option.some.inj value ▸ (each v inside).2 x named

end Source

end StrictSchema
