import StrictSchema.Proofs.Members
import StrictSchema.Proofs.Results
import StrictSchema.Settings.Convert

/-!
# Single settings

There are six settings (`Setting`), each with a place in a tree of settings and a reader of its own.
A tree in which every group is a table and every setting can be read (`SettingTree.IsReadable`) is
read one setting at a time: each gets the value at its place, or its default where nothing is there
(`SettingTree.exists_toSettings`).
-/

namespace StrictSchema

/-- A single setting with a value of the given type. -/
inductive Setting : Type → Type where
  | model : Setting String
  | strict : Setting Bool
  | systemPrompt : Setting (Option String)
  | format : Setting Json.Format
  | extensions : Setting (List String)
  | failFast : Setting Bool

namespace Setting

variable {α : Type}

/-- The name of the group of a setting. -/
def group : Setting α → String
  | model => "generation"
  | strict => "generation"
  | systemPrompt => "generation"
  | format => "output"
  | extensions => "check"
  | failFast => "check"

/-- The name of a setting in its group. -/
def name : Setting α → String
  | model => "model"
  | strict => "strict"
  | systemPrompt => "system_prompt"
  | format => "format"
  | extensions => "extensions"
  | failFast => "fail_fast"

/-- The value of a setting. -/
def get : Setting α → Settings → α
  | model, s => s.generation.model
  | strict, s => s.generation.strict
  | systemPrompt, s => s.generation.systemPrompt
  | format, s => s.output.format
  | extensions, s => s.check.extensions
  | failFast, s => s.check.failFast

/-- Reads the value of a setting. -/
def read : Setting α → SettingTree → SettingTree.Converted α
  | model => SettingTree.toText
  | strict => SettingTree.toBool
  | systemPrompt => SettingTree.optional SettingTree.toText
  | format => SettingTree.toChoice "OutputFormat" Json.Format.choices
  | extensions => SettingTree.toTexts
  | failFast => SettingTree.toBool

/-- The value of a setting that nothing gives. -/
def default : Setting α → α
  | model => "gpt-4o-mini"
  | strict => true
  | systemPrompt => none
  | format => .pretty
  | extensions => ["json"]
  | failFast => false

theorem get_default (x : Setting α) : x.get {} = x.default := by
  cases x <;> rfl

/-- The tree can be read as a value of the setting. -/
def Reads (x : Setting α) (tree : SettingTree) : Prop := ∃ value, x.read tree = .ok value

instance (x : Setting α) (tree : SettingTree) : Decidable (x.Reads tree) :=
  match h : x.read tree with
  | .ok value => .isTrue ⟨value, h⟩
  | .error _ => .isFalse fun ⟨_, hvalue⟩ => nomatch h.symm.trans hvalue

/-- The value that a tree stands for, where nothing stands for the default. -/
def value (x : Setting α) (tree : Option SettingTree) : α :=
  (tree.bind fun t => (x.read t).toOption).getD x.default

theorem forall_iff {P : {α : Type} → Setting α → Prop} :
    (∀ {α : Type} (x : Setting α), P x) ↔
      P model ∧ P strict ∧ P systemPrompt ∧ P format ∧ P extensions ∧ P failFast := by
  constructor
  · exact fun h => ⟨h _, h _, h _, h _, h _, h _⟩
  · rintro ⟨h₁, h₂, h₃, h₄, h₅, h₆⟩ α x
    cases x <;> assumption

end Setting

namespace SettingTree

/-- The names of the groups. -/
def groupNames : List String := ["generation", "output", "check"]

/-- The tree at the place of a setting. -/
def at? (tree : SettingTree) (group name : String) : Option SettingTree :=
  (Members.find? group tree.entries).bind fun g => Members.find? name g.entries

/-- A table. -/
def IsTable (tree : SettingTree) : Prop := ∃ origin entries, tree = .table origin entries

instance : DecidablePred IsTable := fun
  | .table origin entries => .isTrue ⟨origin, entries, rfl⟩
  | .absent => .isFalse nofun
  | .scalar _ _ => .isFalse nofun
  | .list _ _ => .isFalse nofun

/-- A tree of settings whose groups are tables and whose settings can be read. -/
structure IsReadable (tree : SettingTree) : Prop where
  table : tree.IsTable
  groups : ∀ group ∈ groupNames, ∀ t, Members.find? group tree.entries = some t → t.IsTable
  settings : ∀ {α : Type} (x : Setting α) t, tree.at? x.group x.name = some t → x.Reads t

/-! ## Fields -/

variable {α : Type}

theorem find?_fields (name : String) (names : List String)
    (entries : List (String × SettingTree)) :
    Members.find? name (names.filterMap fun n =>
      (Members.find? n entries).map fun t => (n, KeyStep.name n, t)) =
      if name ∈ names then (Members.find? name entries).map (KeyStep.name name, ·) else none := by
  induction names with
  | nil => rfl
  | cons n names ih =>
    rw [List.filterMap_cons]
    by_cases same : n = name
    · subst same
      rw [if_pos List.mem_cons_self]
      cases found : Members.find? n entries with
      | none =>
        rw [found] at ih
        exact ih.trans (ite_self none)
      | some t => exact if_pos rfl
    · have mem : name ∈ n :: names ↔ name ∈ names := by simp [Ne.symm same]
      simp only [mem]
      cases Members.find? n entries with
      | none => exact ih
      | some t => exact (if_neg same).trans ih

/-- A field of a table is read if it can be, and has its default if it is not there. -/
theorem field_fields {name : String} {names : List String} (mem : name ∈ names)
    {entries : List (String × SettingTree)} (default : α) {read : SettingTree → Converted α}
    (reads : ∀ t, Members.find? name entries = some t → ∃ x, read t = .ok x) :
    field (names.filterMap fun n => (Members.find? n entries).map (n, .name n, ·)) name default
        read =
      .ok (((Members.find? name entries).bind fun t => (read t).toOption).getD default) := by
  unfold field
  rw [find?_fields, if_pos mem]
  cases found : Members.find? name entries with
  | none => rfl
  | some t =>
    obtain ⟨x, hx⟩ := reads t found
    simp [hx, Except.mapError, Except.toOption]

/-! ## Groups -/

/-- The settings of a group can be read from the entries of its table. -/
def ReadsGroup (group : String) (entries : List (String × SettingTree)) : Prop :=
  ∀ {α : Type} (x : Setting α), x.group = group → ∀ t, Members.find? x.name entries = some t →
    x.Reads t

section Group

variable {origin : Option Origin} {entries : List (String × SettingTree)}

theorem field_setting (x : Setting α) {names : List String} (mem : x.name ∈ names)
    (reads : ReadsGroup x.group entries) :
    field (names.filterMap fun n => (Members.find? n entries).map (n, .name n, ·)) x.name x.default
      x.read = .ok (x.value (Members.find? x.name entries)) :=
  field_fields mem x.default (reads x rfl)

theorem toGeneration_table (reads : ReadsGroup "generation" entries) :
    toGeneration (.table origin entries) = .ok {
      model := Setting.model.value (Members.find? "model" entries)
      strict := Setting.strict.value (Members.find? "strict" entries)
      systemPrompt := Setting.systemPrompt.value (Members.find? "system_prompt" entries) } :=
  bind_eq_ok_of rfl <|
    bind_eq_ok_of (field_setting .model (by decide) reads) <|
    bind_eq_ok_of (field_setting .strict (by decide) reads) <|
    bind_eq_ok_of (field_setting .systemPrompt (by decide) reads) rfl

theorem toOutput_table (reads : ReadsGroup "output" entries) :
    toOutput (.table origin entries) =
      .ok { format := Setting.format.value (Members.find? "format" entries) } :=
  bind_eq_ok_of rfl <| bind_eq_ok_of (field_setting .format (by decide) reads) rfl

theorem toCheck_table (reads : ReadsGroup "check" entries) :
    toCheck (.table origin entries) = .ok {
      extensions := Setting.extensions.value (Members.find? "extensions" entries)
      failFast := Setting.failFast.value (Members.find? "fail_fast" entries) } :=
  bind_eq_ok_of rfl <|
    bind_eq_ok_of (field_setting .extensions (by decide) reads) <|
    bind_eq_ok_of (field_setting .failFast (by decide) reads) rfl

end Group

/-- What a group that may be absent gives for a setting. -/
theorem get_group (x : Setting α) {γ : Type} (get : γ → α) {default : γ}
    (unset : get default = x.default) {read : SettingTree → Converted γ}
    {group : Option SettingTree}
    (reads : ∀ t, group = some t →
      ∃ g, read t = .ok g ∧ get g = x.value (Members.find? x.name t.entries)) :
    get ((group.bind fun t => (read t).toOption).getD default) =
      x.value (group.bind fun t => Members.find? x.name t.entries) := by
  cases group with
  | none => exact unset
  | some t =>
    obtain ⟨g, hg, value⟩ := reads t rfl
    simp only [Option.bind_some, hg]
    exact value

section Readable

variable {origin : Option Origin} {entries : List (String × SettingTree)} {group : String}
  {t : SettingTree}

theorem IsReadable.readsGroup (h : IsReadable (.table origin entries)) (mem : group ∈ groupNames)
    (found : Members.find? group entries = some t) :
    ∃ origin inner, t = .table origin inner ∧ ReadsGroup group inner := by
  obtain ⟨origin, inner, rfl⟩ := h.groups group mem t found
  refine ⟨origin, inner, rfl, fun x here t inside => h.settings x t ?_⟩
  simp only [at?, SettingTree.entries, here, found, Option.bind_some, inside]

theorem IsReadable.exists_toGeneration (h : IsReadable (.table origin entries))
    (found : Members.find? "generation" entries = some t) :
    ∃ g, toGeneration t = .ok g ∧ ∀ {α : Type} (x : Setting α), x.group = "generation" →
      x.get { generation := g } = x.value (Members.find? x.name t.entries) := by
  obtain ⟨origin, inner, rfl, reads⟩ := h.readsGroup (by decide) found
  refine ⟨_, toGeneration_table reads, fun x here => ?_⟩
  cases x <;> first | rfl | exact absurd here (by decide)

theorem IsReadable.exists_toOutput (h : IsReadable (.table origin entries))
    (found : Members.find? "output" entries = some t) :
    ∃ g, toOutput t = .ok g ∧ ∀ {α : Type} (x : Setting α), x.group = "output" →
      x.get { output := g } = x.value (Members.find? x.name t.entries) := by
  obtain ⟨origin, inner, rfl, reads⟩ := h.readsGroup (by decide) found
  refine ⟨_, toOutput_table reads, fun x here => ?_⟩
  cases x <;> first | rfl | exact absurd here (by decide)

theorem IsReadable.exists_toCheck (h : IsReadable (.table origin entries))
    (found : Members.find? "check" entries = some t) :
    ∃ g, toCheck t = .ok g ∧ ∀ {α : Type} (x : Setting α), x.group = "check" →
      x.get { check := g } = x.value (Members.find? x.name t.entries) := by
  obtain ⟨origin, inner, rfl, reads⟩ := h.readsGroup (by decide) found
  refine ⟨_, toCheck_table reads, fun x here => ?_⟩
  cases x <;> first | rfl | exact absurd here (by decide)

end Readable

/-- A readable tree is read one setting at a time. -/
theorem IsReadable.exists_toSettings {tree : SettingTree} (h : tree.IsReadable) :
    ∃ s, tree.toSettings = .ok s ∧
      ∀ {α : Type} (x : Setting α), x.get s = x.value (tree.at? x.group x.name) := by
  obtain ⟨origin, entries, rfl⟩ := h.table
  have generation t (found : Members.find? "generation" entries = some t) :=
    h.exists_toGeneration found
  have output t (found : Members.find? "output" entries = some t) := h.exists_toOutput found
  have check t (found : Members.find? "check" entries = some t) := h.exists_toCheck found
  refine ⟨_, bind_eq_ok_of rfl <|
    bind_eq_ok_of (field_fields (by decide) {} fun t found =>
      (generation t found).imp fun _ => And.left) <|
    bind_eq_ok_of (field_fields (by decide) {} fun t found =>
      (output t found).imp fun _ => And.left) <|
    bind_eq_ok_of (field_fields (by decide) {} fun t found =>
      (check t found).imp fun _ => And.left) rfl,
    fun x => ?_⟩
  have inGeneration (here : x.group = "generation") :=
    get_group x (fun g => x.get { generation := g }) x.get_default fun t found =>
      (generation t found).imp fun _ h => ⟨h.1, h.2 x here⟩
  have inOutput (here : x.group = "output") :=
    get_group x (fun g => x.get { output := g }) x.get_default fun t found =>
      (output t found).imp fun _ h => ⟨h.1, h.2 x here⟩
  have inCheck (here : x.group = "check") :=
    get_group x (fun g => x.get { check := g }) x.get_default fun t found =>
      (check t found).imp fun _ h => ⟨h.1, h.2 x here⟩
  cases x with
  | model | strict | systemPrompt => exact inGeneration rfl
  | format => exact inOutput rfl
  | extensions | failFast => exact inCheck rfl

end SettingTree

end StrictSchema
