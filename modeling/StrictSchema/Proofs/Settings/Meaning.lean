import Mathlib.Data.List.Forall2
import StrictSchema.Proofs.Settings.Layers

/-!
# What values stand for

A text, a date or a time is a written value; other single values stand for a text, too, and some for
a truth value (`Toml.IsText`, `Toml.IsTruth`). So a value of a document or of a variable stands for
the value of a setting or for none (`Setting.Means`), which is what reading it as the setting gives
(`Setting.read_ofToml_iff`).
-/

namespace StrictSchema

/-! ## Values -/

namespace Toml

def isTable : Toml → Bool
  | .table _ => true
  | _ => false

/-- What is written as a text: a text itself, and a date or time with its own text. -/
inductive IsWritten : Toml → String → Prop where
  | text (s : String) : IsWritten (.text s) s
  | moment (m : Moment) : IsWritten (.moment m) m.text

/-- The text that a single value stands for: what is written, the word of a truth value, or the
digits of a number. -/
inductive IsText : Toml → String → Prop where
  | written {v : Toml} {s : String} (h : v.IsWritten s) : IsText v s
  | yes : IsText (.bool true) "true"
  | no : IsText (.bool false) "false"
  | integer (n : Int) : IsText (.integer n) (toString n)
  | real (x : Real64) : IsText (.real x) (String.ofList (x.text SettingTree.textLayout))

/-- The truth value that a single value stands for: a truth value itself, for a number whether it is
other than zero, and for some words, in any case, what they say. -/
inductive IsTruth : Toml → Bool → Prop where
  | bool (b : Bool) : IsTruth (.bool b) b
  | integer (n : Int) : IsTruth (.integer n) (n != 0)
  | real (x : Real64) : IsTruth (.real x) (!x.isZero)
  | yes {v : Toml} {word : String} (h : v.IsWritten word)
      (mem : Text.lowerCase word ∈ ["1", "true", "on", "yes"]) : IsTruth v true
  | no {v : Toml} {word : String} (h : v.IsWritten word)
      (mem : Text.lowerCase word ∈ ["0", "false", "off", "no"]) : IsTruth v false

/-- The format that is named, in any case. -/
inductive IsFormat : Toml → Json.Format → Prop where
  | pretty {v : Toml} {name : String} (h : v.IsWritten name)
      (named : Text.lowerCase name = "pretty") : IsFormat v .pretty
  | compact {v : Toml} {name : String} (h : v.IsWritten name)
      (named : Text.lowerCase name = "compact") : IsFormat v .compact

/-- A list of values that stand for these texts. -/
inductive IsTexts : Toml → List String → Prop where
  | list {elements : List Toml} {texts : List String} (h : List.Forall₂ IsText elements texts) :
    IsTexts (.list elements) texts

end Toml

namespace Setting

variable {α : Type}

/-- The value stands for this value of the setting. -/
def Means : Setting α → Toml → α → Prop
  | model, v, text => v.IsText text
  | strict, v, b => v.IsTruth b
  | systemPrompt, v, prompt => ∃ text, v.IsText text ∧ prompt = some text
  | format, v, f => v.IsFormat f
  | extensions, v, texts => v.IsTexts texts
  | failFast, v, b => v.IsTruth b

/-- The value stands for some value of the setting. -/
def Admits (x : Setting α) (v : Toml) : Prop := ∃ value, x.Means v value

end Setting

/-! ## Reading -/

namespace SettingTree

variable {origin : Origin} {v : Toml}

theorem ofToml_eq_of_isWritten {s : String} (h : v.IsWritten s) :
    ofToml origin v = .scalar origin (.text s) := by
  cases h <;> rfl

theorem isTable_ofToml_iff : (ofToml origin v).IsTable ↔ v.isTable := by
  cases v with
  | table entries => exact iff_of_true ⟨_, _, rfl⟩ rfl
  | text | integer | real | bool | moment | list =>
    exact iff_of_false (fun ⟨_, _, same⟩ => nomatch same) nofun

theorem scalarText_integer_eq (n : Int) : scalarText (.integer n) = toString n := by
  cases n with
  | ofNat n => rfl
  | negSucc n => exact if_pos (Int.negSucc_lt_zero n)

theorem toText_ofToml_iff (origin : Origin) {s : String} :
    toText (ofToml origin v) = .ok s ↔ v.IsText s := by
  constructor
  · intro h
    cases v with
    | text | moment => cases h; exact .written (by constructor)
    | integer n =>
      cases h
      exact scalarText_integer_eq n ▸ .integer n
    | real x => cases h; exact .real x
    | bool b =>
      cases h
      cases b with
      | true => exact .yes
      | false => exact .no
    | list | table => cases h
  · intro h
    cases h with
    | written h => rw [ofToml_eq_of_isWritten h]; rfl
    | yes | no | real => rfl
    | integer n => exact congrArg Except.ok (scalarText_integer_eq n)

theorem toBool_text_eq_ok_iff {word : String} {b : Bool} :
    toBool (.scalar origin (.text word)) = .ok b ↔
      (b = true ∧ Text.lowerCase word ∈ ["1", "true", "on", "yes"]) ∨
        (b = false ∧ Text.lowerCase word ∈ ["0", "false", "off", "no"]) := by
  rw [toBool]
  generalize Text.lowerCase word = word
  have disjoint : ∀ word ∈ ["0", "false", "off", "no"], word ∉ ["1", "true", "on", "yes"] := by
    decide
  simp only [wordBool?, List.contains_iff_mem]
  by_cases yes : word ∈ ["1", "true", "on", "yes"]
  · have no : word ∉ ["0", "false", "off", "no"] := fun no => disjoint word no yes
    simp only [if_pos yes]
    simp [yes, no, eq_comm]
  · by_cases no : word ∈ ["0", "false", "off", "no"]
    · simp only [if_neg yes, if_pos no]
      simp [yes, no, eq_comm]
    · simp only [if_neg yes, if_neg no]
      simp [yes, no]

theorem toBool_ofToml_iff {b : Bool} : toBool (ofToml origin v) = .ok b ↔ v.IsTruth b := by
  constructor
  · intro h
    have word {s : String} (written : v.IsWritten s) : v.IsTruth b := by
      rw [ofToml_eq_of_isWritten written] at h
      rcases toBool_text_eq_ok_iff.1 h with ⟨rfl, yes⟩ | ⟨rfl, no⟩
      · exact .yes written yes
      · exact .no written no
    cases v with
    | text s => exact word (.text s)
    | moment m => exact word (.moment m)
    | bool | integer | real => cases h; constructor
    | list | table => cases h
  · intro h
    cases h with
    | bool | integer | real => rfl
    | yes h mem =>
      rw [ofToml_eq_of_isWritten h]
      exact toBool_text_eq_ok_iff.2 (.inl ⟨rfl, mem⟩)
    | no h mem =>
      rw [ofToml_eq_of_isWritten h]
      exact toBool_text_eq_ok_iff.2 (.inr ⟨rfl, mem⟩)

theorem find?_choices_eq_some_iff {word : String} {f : Json.Format} :
    Members.find? word Json.Format.choices = some f ↔
      (f = .pretty ∧ word = "pretty") ∨ (f = .compact ∧ word = "compact") := by
  simp only [Json.Format.choices, Members.find?]
  split_ifs with pretty compact
  · subst pretty; simp [eq_comm]
  · subst compact; simp [eq_comm]
  · simp [Ne.symm pretty, Ne.symm compact]

theorem toChoice_text_eq_ok_iff {name : String} {f : Json.Format} :
    toChoice "OutputFormat" Json.Format.choices (.scalar origin (.text name)) = .ok f ↔
      Members.find? (Text.lowerCase name) Json.Format.choices = some f := by
  simp only [toChoice]
  cases Members.find? (Text.lowerCase name) Json.Format.choices <;> simp

theorem toChoice_ofToml_iff {f : Json.Format} (single : ¬ (ofToml origin v).IsTable) :
    toChoice "OutputFormat" Json.Format.choices (ofToml origin v) = .ok f ↔ v.IsFormat f := by
  constructor
  · intro h
    have name {s : String} (written : v.IsWritten s) : v.IsFormat f := by
      rw [ofToml_eq_of_isWritten written, toChoice_text_eq_ok_iff,
        find?_choices_eq_some_iff] at h
      rcases h with ⟨rfl, named⟩ | ⟨rfl, named⟩
      · exact .pretty written named
      · exact .compact written named
    cases v with
    | text s => exact name (.text s)
    | moment m => exact name (.moment m)
    | bool | integer | real | list => cases h
    | table => exact absurd ⟨_, _, rfl⟩ single
  · intro h
    cases h with
    | pretty h named =>
      rw [ofToml_eq_of_isWritten h, toChoice_text_eq_ok_iff, named]
      rfl
    | compact h named =>
      rw [ofToml_eq_of_isWritten h, toChoice_text_eq_ok_iff, named]
      rfl

theorem eachElement_ofElements_iff {elements : List Toml} {texts : List String} (index : Nat) :
    eachElement toText index (ofElements origin elements) = .ok texts ↔
      List.Forall₂ Toml.IsText elements texts := by
  induction elements generalizing index texts with
  | nil =>
    rw [List.forall₂_nil_left_iff]
    exact ⟨fun h => (Except.ok.inj h).symm, fun h => congrArg Except.ok h.symm⟩
  | cons v elements ih =>
    rw [List.forall₂_cons_left_iff]
    constructor
    · intro h
      obtain ⟨s, first, h⟩ := bind_eq_ok h
      obtain ⟨rest, others, h⟩ := bind_eq_ok h
      cases h
      cases read : toText (ofToml origin v) with
      | error e => rw [read] at first; cases first
      | ok t =>
        rw [read] at first
        cases first
        exact ⟨s, rest, (toText_ofToml_iff origin).1 read, (ih (index + 1)).1 others, rfl⟩
    · rintro ⟨s, rest, first, others, rfl⟩
      refine bind_eq_ok_of ?_ (bind_eq_ok_of ((ih (index + 1)).2 others) rfl)
      rw [(toText_ofToml_iff origin).2 first]
      rfl

theorem toTexts_ofToml_iff {texts : List String} :
    toTexts (ofToml origin v) = .ok texts ↔ v.IsTexts texts := by
  constructor
  · intro h
    cases v with
    | list elements => exact .list ((eachElement_ofElements_iff 0).1 h)
    | text | integer | real | bool | moment | table => cases h
  · rintro ⟨h⟩
    exact (eachElement_ofElements_iff 0).2 h

theorem optional_ofToml (read : SettingTree → Converted String) :
    optional read (ofToml origin v) = (read (ofToml origin v)).map some := by
  cases v <;> rfl

end SettingTree

namespace Setting

variable {α : Type} {x : Setting α} {origin : Origin} {v : Toml}

/-- No table stands for the value of a setting. -/
theorem Means.isTable_eq_false {value : α} (h : x.Means v value) : v.isTable = false := by
  have written {s : String} (h : v.IsWritten s) : v.isTable = false := by cases h <;> rfl
  have text {s : String} (h : v.IsText s) : v.isTable = false := by
    cases h with
    | written h => exact written h
    | yes | no | integer | real => rfl
  have truth {b : Bool} (h : v.IsTruth b) : v.isTable = false := by
    cases h with
    | yes h | no h => exact written h
    | bool | integer | real => rfl
  cases x with
  | model => exact text h
  | strict | failFast => exact truth h
  | systemPrompt =>
    obtain ⟨s, h, -⟩ := h
    exact text h
  | format => cases h with | pretty h | compact h => exact written h
  | extensions => cases h; rfl

/-- What is no table is read as the value that it stands for. -/
theorem read_ofToml_iff (single : ¬ (SettingTree.ofToml origin v).IsTable) {value : α} :
    x.read (SettingTree.ofToml origin v) = .ok value ↔ x.Means v value := by
  cases x with
  | model => exact SettingTree.toText_ofToml_iff origin
  | strict | failFast => exact SettingTree.toBool_ofToml_iff
  | systemPrompt =>
    show SettingTree.optional _ _ = _ ↔ _
    rw [SettingTree.optional_ofToml, Means]
    simp only [← SettingTree.toText_ofToml_iff origin]
    cases SettingTree.toText (SettingTree.ofToml origin v) <;> simp [Except.map, eq_comm]
  | format => exact SettingTree.toChoice_ofToml_iff single
  | extensions => exact SettingTree.toTexts_ofToml_iff

theorem Means.read_eq_ok {value : α} (h : x.Means v value) (origin : Origin) :
    x.read (SettingTree.ofToml origin v) = .ok value :=
  (read_ofToml_iff (by simp [SettingTree.isTable_ofToml_iff, h.isTable_eq_false])).2 h

/-- A value stands for one value of a setting at most. -/
theorem Means.unique {value value' : α} (h : x.Means v value) (h' : x.Means v value') :
    value = value' :=
  Except.ok.inj ((h.read_eq_ok .environment).symm.trans (h'.read_eq_ok .environment))

/-- The trees of the values that the setting admits fit it. -/
theorem fits_ofToml_iff (origin : Origin) : x.Fits (SettingTree.ofToml origin v) ↔ x.Admits v := by
  constructor
  · rintro ⟨single, value, read⟩
    exact ⟨value, (read_ofToml_iff single).1 read⟩
  · rintro ⟨value, means⟩
    exact ⟨by simp [SettingTree.isTable_ofToml_iff, means.isTable_eq_false], value,
      means.read_eq_ok origin⟩

/-- What stands for a value of a setting can be computed. -/
theorem means_iff {value : α} :
    x.Means v value ↔
      v.isTable = false ∧ x.read (SettingTree.ofToml .environment v) = .ok value :=
  ⟨fun h => ⟨h.isTable_eq_false, h.read_eq_ok .environment⟩, fun h =>
    (read_ofToml_iff (by simp [SettingTree.isTable_ofToml_iff, h.1])).1 h.2⟩

instance [DecidableEq α] (x : Setting α) (v : Toml) (value : α) : Decidable (x.Means v value) :=
  decidable_of_iff _ means_iff.symm

instance (x : Setting α) : DecidablePred x.Admits := fun _ =>
  decidable_of_iff _ (fits_ofToml_iff .environment)

end Setting

end StrictSchema
