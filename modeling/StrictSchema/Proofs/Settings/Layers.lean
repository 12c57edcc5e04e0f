import StrictSchema.Proofs.Settings.Groups
import StrictSchema.Settings.Load

/-!
# The last layer wins

A layer of settings is a list of values with their places (`Layer`), which are put into the tree one
after the other. What a valid assignment gives for a setting, and nothing else, takes the place of
what was there (`Assignment.at?_apply`), so over all layers the last one that gives something for a
setting counts (`Layer.foldl_apply_shows`).
-/

namespace StrictSchema

/-! ## Folding -/

/-- If each step shows what it gives over what was there before, a run shows what the last step that
gives something gave. -/
theorem foldl_shows_last {σ ι β : Type} {step : σ → ι → σ} (Inv : σ → Prop)
    (shown : σ → Option β) {gives : ι → Option β} {steps : List ι}
    (hstep : ∀ s, Inv s → ∀ i ∈ steps, Inv (step s i) ∧ shown (step s i) = (gives i).or (shown s))
    {s : σ} (hs : Inv s) :
    Inv (steps.foldl step s) ∧
      shown (steps.foldl step s) = (steps.reverse.findSome? gives).or (shown s) := by
  induction steps generalizing s with
  | nil => exact ⟨hs, rfl⟩
  | cons i steps ih =>
    obtain ⟨inv, first⟩ := hstep s hs i List.mem_cons_self
    obtain ⟨inv, rest⟩ := ih (fun s hs j hj => hstep s hs j (List.mem_cons_of_mem _ hj)) inv
    refine ⟨inv, ?_⟩
    rw [List.foldl_cons, rest, first, List.reverse_cons, List.findSome?_append, Option.or_assoc,
      List.findSome?_singleton]

namespace SettingTree

variable {tree value : SettingTree} {group name key : String}

/-! ## Entries -/

theorem entries_putEntry (tree : SettingTree) (key : String) (value : SettingTree) :
    (tree.putEntry key value).entries = Members.insert key value tree.entries := by
  cases tree <;> rfl

theorem isTable_putEntry (tree : SettingTree) (key : String) (value : SettingTree) :
    (tree.putEntry key value).IsTable := by
  cases tree <;> exact ⟨_, _, rfl⟩

theorem find?_putEntry_self (tree : SettingTree) (key : String) (value : SettingTree) :
    Members.find? key (tree.putEntry key value).entries = some value := by
  rw [entries_putEntry, Members.find?_insert_self]

theorem find?_putEntry_of_ne (h : key ≠ name) (tree value : SettingTree) :
    Members.find? name (tree.putEntry key value).entries = Members.find? name tree.entries := by
  rw [entries_putEntry, Members.find?_insert_of_ne h]

/-- What the entries give for a name in lower case: the last of them counts. -/
def lastGiven? (name : String) (entries : List (String × SettingTree)) : Option SettingTree :=
  entries.reverse.findSome? fun e => if Text.lowerCase e.1 = name then some e.2 else none

theorem merge_of_not_isTable (h : ¬ value.IsTable) (current : Option SettingTree) :
    merge current value = value := by
  cases value with
  | table origin entries => exact absurd ⟨_, _, rfl⟩ h
  | absent | scalar | list => rfl

theorem mergeEntries_eq_foldl (target : SettingTree) (entries : List (String × SettingTree)) :
    mergeEntries target entries = entries.foldl (fun t e =>
      t.putEntry (Text.lowerCase e.1) (merge (Members.find? (Text.lowerCase e.1) t.entries) e.2))
      target := by
  induction entries generalizing target with
  | nil => rfl
  | cons e entries ih => exact ih _

theorem isTable_mergeEntries {target : SettingTree} (table : target.IsTable)
    (entries : List (String × SettingTree)) : (mergeEntries target entries).IsTable := by
  induction entries generalizing target with
  | nil => exact table
  | cons e entries ih => exact ih (isTable_putEntry _ _ _)

/-- Entries that are merged into a table count before what was there. -/
theorem find?_mergeEntries (target : SettingTree) {entries : List (String × SettingTree)}
    (single : ∀ e ∈ entries, Text.lowerCase e.1 = name → ¬ e.2.IsTable) :
    Members.find? name (mergeEntries target entries).entries =
      (lastGiven? name entries).or (Members.find? name target.entries) := by
  rw [mergeEntries_eq_foldl]
  refine (foldl_shows_last (fun _ => True)
    (fun t : SettingTree => Members.find? name t.entries) (fun t _ e he => ⟨trivial, ?_⟩) trivial).2
  by_cases same : Text.lowerCase e.1 = name
  · rw [if_pos same, ← same, find?_putEntry_self, merge_of_not_isTable (single e he same)]
    rfl
  · rw [if_neg same, find?_putEntry_of_ne same]
    rfl

/-! ## Places -/

theorem at?_putEntry_self (tree value : SettingTree) (group name : String) :
    (tree.putEntry group value).at? group name = Members.find? name value.entries := by
  rw [at?, find?_putEntry_self]
  rfl

theorem at?_putEntry_of_ne (h : key ≠ group) (tree value : SettingTree) (name : String) :
    (tree.putEntry key value).at? group name = tree.at? group name := by
  rw [at?, find?_putEntry_of_ne h]
  rfl

theorem at?_eq (tree : SettingTree) (group name : String) :
    tree.at? group name =
      Members.find? name ((Members.find? group tree.entries).getD .absent).entries := by
  unfold at?
  cases Members.find? group tree.entries <;> rfl

end SettingTree

/-! ## Assignments -/

/-- The tree is no table, and it can be read as a value of the setting. -/
def Setting.Fits {α : Type} (x : Setting α) (tree : SettingTree) : Prop :=
  ¬ tree.IsTable ∧ x.Reads tree

instance {α : Type} (x : Setting α) (tree : SettingTree) : Decidable (x.Fits tree) :=
  inferInstanceAs (Decidable (_ ∧ _))

/-- The tree fits the setting of the given name in a group, if there is one. -/
def SettingTree.FitsAt (group name : String) (tree : SettingTree) : Prop :=
  ∀ {α : Type} (x : Setting α), x.group = group → x.name = name → x.Fits tree

instance (group name : String) (tree : SettingTree) : Decidable (tree.FitsAt group name) :=
  decidable_of_iff _ (Setting.forall_iff
    (P := fun x => x.group = group → x.name = name → x.Fits tree)).symm

/-- A tree of settings for a place. -/
structure Assignment where
  place : KeyPath
  value : SettingTree

namespace Assignment

open SettingTree

/-- The tree with the assignment carried out. -/
def apply (tree : SettingTree) (a : Assignment) : SettingTree := a.value.assign a.place (some tree)

/-- What an assignment gives for a setting, by the names of its group and itself. -/
def gives? (group name : String) (a : Assignment) : Option SettingTree :=
  match a.place with
  | [.name g] => if g = group then lastGiven? name a.value.entries else none
  | [.name g, .name n] => if g = group ∧ n = name then some a.value else none
  | _ => none

/-- The places of all settings. -/
def places : List (String × String) :=
  [("generation", "model"), ("generation", "strict"), ("generation", "system_prompt"),
    ("output", "format"), ("check", "extensions"), ("check", "fail_fast")]

/-- If the assignment is for a group, it gives a table whose entries fit the settings of the group.
If it is for a setting, it gives a tree that fits. -/
def IsValid (a : Assignment) : Prop :=
  match a.place with
  | [.name group] => group ∈ groupNames →
    a.value.IsTable ∧ ∀ e ∈ a.value.entries, e.2.FitsAt group (Text.lowerCase e.1)
  | .name group :: .name name :: rest => (group, name) ∈ places →
    rest = [] ∧ a.value.FitsAt group name
  | .name group :: _ => group ∉ groupNames
  | _ => False

instance : DecidablePred IsValid := fun
  | ⟨[], _⟩ => inferInstanceAs (Decidable False)
  | ⟨.index _ :: _, _⟩ => inferInstanceAs (Decidable False)
  | ⟨[.name _], _⟩ => inferInstanceAs (Decidable (_ → _ ∧ _))
  | ⟨.name _ :: .name _ :: _, _⟩ => inferInstanceAs (Decidable (_ → _ ∧ _))
  | ⟨.name _ :: .index _ :: _, _⟩ => inferInstanceAs (Decidable (¬ _))

variable {α : Type} {a : Assignment} {tree : SettingTree}

theorem place_mem (x : Setting α) : (x.group, x.name) ∈ places := by
  cases x <;> decide

theorem group_mem (x : Setting α) : x.group ∈ groupNames := by
  cases x <;> decide

theorem gives?_of_ne {key group : String} (h : key ≠ group) (name : String) (rest : KeyPath)
    (value : SettingTree) : gives? group name ⟨.name key :: rest, value⟩ = none := by
  rcases rest with _ | ⟨_ | _, _ | _⟩
  · exact if_neg h
  · exact if_neg fun both => h both.1
  all_goals rfl

theorem gives?_names_self (group name : String) (value : SettingTree) :
    gives? group name ⟨[.name group, .name name], value⟩ = some value :=
  if_pos ⟨rfl, rfl⟩

theorem gives?_names_of_ne {key name : String} (h : key ≠ name) (group : String) (rest : KeyPath)
    (value : SettingTree) :
    gives? group name ⟨.name group :: .name key :: rest, value⟩ = none := by
  cases rest with
  | nil => exact if_neg fun both => h both.2
  | cons step rest => rfl

theorem apply_name (tree : SettingTree) (key : String) (rest : KeyPath) (value : SettingTree) :
    apply tree ⟨.name key :: rest, value⟩ =
      tree.putEntry key (assign value rest (Members.find? key tree.entries)) := rfl

theorem at?_apply_of_ne {key group : String} (h : key ≠ group) (tree : SettingTree) (rest : KeyPath)
    (value : SettingTree) (name : String) :
    (apply tree ⟨.name key :: rest, value⟩).at? group name = tree.at? group name := by
  rw [apply_name, at?_putEntry_of_ne h]

theorem at?_apply_group (tree : SettingTree) {group name : String} (origin : Option Origin)
    {entries : List (String × SettingTree)}
    (single : ∀ e ∈ entries, Text.lowerCase e.1 = name → ¬ e.2.IsTable) :
    (apply tree ⟨[.name group], .table origin entries⟩).at? group name =
      (lastGiven? name entries).or (tree.at? group name) := by
  rw [apply_name, at?_putEntry_self, at?_eq]
  show Members.find? name (mergeEntries _ entries).entries = _
  rw [find?_mergeEntries _ single]
  cases Members.find? group tree.entries <;> rfl

theorem at?_apply_names_self (tree : SettingTree) (group name : String) (rest : KeyPath)
    (value : SettingTree) :
    (apply tree ⟨.name group :: .name name :: rest, value⟩).at? group name =
      some (assign value rest (tree.at? group name)) := by
  rw [apply_name, at?_putEntry_self, at?_eq]
  exact find?_putEntry_self _ _ _

theorem at?_apply_names_of_ne {key name : String} (h : key ≠ name) (tree : SettingTree)
    (group : String) (rest : KeyPath) (value : SettingTree) :
    (apply tree ⟨.name group :: .name key :: rest, value⟩).at? group name =
      tree.at? group name := by
  rw [apply_name, at?_putEntry_self, at?_eq tree]
  exact find?_putEntry_of_ne h _ _

/-- Carrying out a valid assignment shows what it gives over what was there. -/
theorem at?_apply (valid : a.IsValid) (tree : SettingTree) (x : Setting α) :
    (apply tree a).at? x.group x.name = (a.gives? x.group x.name).or (tree.at? x.group x.name) := by
  obtain ⟨_ | ⟨key | _, rest⟩, value⟩ := a
  · cases valid
  · by_cases same : key = x.group
    · subst same
      rcases rest with _ | ⟨name | _, rest⟩
      · obtain ⟨⟨origin, entries, rfl⟩, fits⟩ := valid (group_mem x)
        have single : ∀ e ∈ entries, Text.lowerCase e.1 = x.name → ¬ e.2.IsTable :=
          fun e he named => (fits e he x rfl named.symm).1
        rw [at?_apply_group tree origin single]
        exact congrArg (Option.or · _) (if_pos rfl).symm
      · by_cases sameName : name = x.name
        · subst sameName
          obtain ⟨rfl, fits⟩ := valid (place_mem x)
          rw [at?_apply_names_self, gives?_names_self, Option.some_or]
          exact congrArg some (merge_of_not_isTable (fits x rfl rfl).1 _)
        · rw [at?_apply_names_of_ne sameName, gives?_names_of_ne sameName, Option.none_or]
      · exact absurd (group_mem x) valid
    · rw [gives?_of_ne same, at?_apply_of_ne same, Option.none_or]
  · cases valid

theorem fits_of_gives? (valid : a.IsValid) (x : Setting α) {t : SettingTree}
    (given : a.gives? x.group x.name = some t) : x.Fits t := by
  obtain ⟨_ | ⟨key | _, _ | ⟨name | _, _ | ⟨_, _⟩⟩⟩, value⟩ := a <;> try cases given
  · obtain ⟨same, last⟩ := Option.ite_none_right_eq_some.1 given
    obtain ⟨e, he, found⟩ := List.exists_of_findSome?_eq_some last
    obtain ⟨named, hvalue⟩ := Option.ite_none_right_eq_some.1 found
    have fits : e.2.FitsAt key (Text.lowerCase e.1) :=
      (valid (same ▸ group_mem x)).2 e (List.mem_reverse.1 he)
    exact Option.some.inj hvalue ▸ fits x same.symm named.symm
  · obtain ⟨⟨rfl, rfl⟩, hvalue⟩ := Option.ite_none_right_eq_some.1 given
    exact Option.some.inj hvalue ▸ (valid (place_mem x)).2 x rfl rfl

theorem isTable_of_find?_apply (readable : tree.IsReadable) {key : String} {rest : KeyPath}
    {value : SettingTree} {group : String} (mem : group ∈ groupNames) {t : SettingTree}
    (found : Members.find? group (apply tree ⟨.name key :: rest, value⟩).entries = some t)
    (table : key ∈ groupNames → (assign value rest (Members.find? key tree.entries)).IsTable) :
    t.IsTable := by
  rw [apply_name] at found
  by_cases same : key = group
  · subst same
    rw [find?_putEntry_self] at found
    exact Option.some.inj found ▸ table mem
  · rw [find?_putEntry_of_ne same] at found
    exact readable.groups group mem t found

/-- Carrying out a valid assignment leaves a tree readable. -/
theorem isReadable_apply (valid : a.IsValid) (readable : tree.IsReadable) :
    (apply tree a).IsReadable := by
  have settings {β : Type} (x : Setting β) (t : SettingTree)
      (found : (apply tree a).at? x.group x.name = some t) : x.Reads t := by
    rw [at?_apply valid] at found
    rcases Option.or_eq_some_iff.1 found with given | ⟨-, old⟩
    · exact (fits_of_gives? valid x given).2
    · exact readable.settings x t old
  obtain ⟨_ | ⟨key | _, rest⟩, value⟩ := a
  · cases valid
  · refine ⟨isTable_putEntry _ _ _, fun group mem t found =>
      isTable_of_find?_apply readable mem found fun known => ?_, settings⟩
    rcases rest with _ | ⟨name | _, rest⟩
    · obtain ⟨⟨origin, entries, rfl⟩, -⟩ := valid known
      refine isTable_mergeEntries ?_ entries
      cases found : Members.find? key tree.entries with
      | none => exact ⟨_, _, rfl⟩
      | some t => exact readable.groups key known t found
    · exact isTable_putEntry _ _ _
    · exact absurd known valid
  · cases valid

end Assignment

/-! ## Layers -/

/-- Trees of settings for places, in order. -/
abbrev Layer := List Assignment

namespace Layer

open Assignment

/-- All assignments of the layer are valid. -/
def IsValid (layer : Layer) : Prop := ∀ a ∈ layer, a.IsValid

instance : DecidablePred IsValid := fun layer =>
  inferInstanceAs (Decidable (∀ a ∈ layer, a.IsValid))

/-- The tree with the layer put over it. -/
def apply (tree : SettingTree) (layer : Layer) : SettingTree := layer.foldl Assignment.apply tree

/-- What a layer gives for a setting: the last assignment counts. -/
def gives? (group name : String) (layer : Layer) : Option SettingTree :=
  layer.reverse.findSome? (Assignment.gives? group name)

variable {α : Type} {layer : Layer} {layers : List Layer} {tree : SettingTree}

theorem apply_shows (valid : layer.IsValid) (readable : tree.IsReadable) (x : Setting α) :
    (apply tree layer).IsReadable ∧
      (apply tree layer).at? x.group x.name =
        (layer.gives? x.group x.name).or (tree.at? x.group x.name) :=
  foldl_shows_last SettingTree.IsReadable (·.at? x.group x.name)
    (fun _ readable a ha => ⟨isReadable_apply (valid a ha) readable, at?_apply (valid a ha) _ x⟩)
    readable

/-- Over all layers, the last one that gives something for a setting counts. -/
theorem foldl_apply_shows (valid : ∀ layer ∈ layers, layer.IsValid) (readable : tree.IsReadable)
    (x : Setting α) :
    (layers.foldl apply tree).IsReadable ∧
      (layers.foldl apply tree).at? x.group x.name =
        (layers.reverse.findSome? (gives? x.group x.name)).or (tree.at? x.group x.name) :=
  foldl_shows_last SettingTree.IsReadable (·.at? x.group x.name)
    (fun _ readable layer hl => apply_shows (valid layer hl) readable x) readable

end Layer

end StrictSchema
