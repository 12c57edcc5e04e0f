import Mathlib.Tactic.SplitIfs
import StrictSchema.Compilation.Compile

/-!
# The types of a strict node

A node of the strict dialect names its types in one of two ways (`TypeTags.IsStrict`): one supported
name alone, or a list of two names or more, all supported. `TypeTags.resolve` gives names of this
form and leaves those that have it alone, and `TypeTags.withNull` keeps the form while it adds the
name of the null type and no other.
-/

namespace StrictSchema

namespace TypeTags

/-- One supported name alone, or at least two in a list; repeats count. -/
inductive IsStrict : TypeTags → Prop where
  | single {name : String} (h : name ∈ supportedTypes) : IsStrict (.single name)
  | many {names : List String} (hlen : 2 ≤ names.length)
      (h : ∀ name ∈ names, name ∈ supportedTypes) : IsStrict (.many names)

theorem null_mem_supportedTypes : "null" ∈ supportedTypes := by decide

@[simp] theorem names_single (name : String) : (single name).names = [name] := rfl

@[simp] theorem names_many (names : List String) : (many names).names = names :=
  List.append_nil names

theorem contains_iff {t : TypeTags} {name : String} : t.contains name = true ↔ name ∈ t.names :=
  List.contains_iff_mem

theorem IsStrict.mem_supported {t : TypeTags} (h : t.IsStrict) {name : String}
    (hname : name ∈ t.names) : name ∈ supportedTypes := by
  cases h with
  | single h =>
    rw [names_single, List.mem_singleton] at hname
    exact hname ▸ h
  | many _ h =>
    rw [names_many] at hname
    exact h name hname

theorem IsStrict.names_ne_nil {t : TypeTags} (h : t.IsStrict) : t.names ≠ [] := by
  cases h with
  | single h => exact List.cons_ne_nil _ _
  | many hlen h =>
    rw [names_many]
    rintro rfl
    exact absurd hlen (by decide)

/-! ## Resolving -/

theorem filter_supported {names : List String} (h : ∀ name ∈ names, name ∈ supportedTypes) :
    names.filter supportedTypes.contains = names :=
  List.filter_eq_self.2 fun name hname => List.contains_iff_mem.2 (h name hname)

theorem IsStrict.resolve_eq {t : TypeTags} (h : t.IsStrict) : t.resolve = some t := by
  have hnames : t.names.filter supportedTypes.contains = t.names :=
    filter_supported fun _ hname => h.mem_supported hname
  unfold resolve
  rw [hnames]
  cases h with
  | single h => rfl
  | @many names hlen h =>
    rw [names_many]
    match names, hlen with
    | _ :: _ :: _, _ => rfl

/-- Resolved names are the supported ones, in order, in one of the two strict forms. -/
theorem resolve_eq_some {t u : TypeTags} (h : t.resolve = some u) :
    u.IsStrict ∧ u.names = t.names.filter supportedTypes.contains := by
  have hsupported : ∀ name ∈ t.names.filter supportedTypes.contains, name ∈ supportedTypes :=
    fun name hname => List.contains_iff_mem.1 (List.mem_filter.1 hname).2
  unfold resolve at h
  generalize t.names.filter supportedTypes.contains = names at h hsupported
  match names with
  | [] => cases h
  | [name] =>
    obtain rfl := Option.some.inj h
    exact ⟨.single (hsupported name List.mem_cons_self), rfl⟩
  | first :: second :: rest =>
    obtain rfl := Option.some.inj h
    exact ⟨.many (by simp) hsupported, names_many _⟩

theorem mem_names_of_resolve {t u : TypeTags} (h : t.resolve = some u) {name : String} :
    name ∈ u.names ↔ name ∈ t.names ∧ name ∈ supportedTypes := by
  rw [(resolve_eq_some h).2, List.mem_filter, List.contains_iff_mem]

theorem contains_of_resolve {t u : TypeTags} (h : t.resolve = some u) {name : String}
    (hname : name ∈ supportedTypes) : u.contains name = t.contains name := by
  rw [Bool.eq_iff_iff, contains_iff, contains_iff, mem_names_of_resolve h]
  exact and_iff_left hname

/-! ## Admitting null -/

theorem withNull_single (name : String) :
    (single name).withNull = if name = "null" then single name else many [name, "null"] := rfl

theorem withNull_many (names : List String) :
    (many names).withNull = if "null" ∈ names then many names else many (names ++ ["null"]) := by
  show (if (many names).contains "null" = true then many names else many (names ++ ["null"])) = _
  simp only [contains_iff, names_many]

theorem IsStrict.withNull {t : TypeTags} (h : t.IsStrict) : t.withNull.IsStrict := by
  cases h with
  | @single name h =>
    rw [withNull_single]
    split_ifs
    · exact .single h
    · exact .many (Nat.le_refl 2) (by simp [h, null_mem_supportedTypes])
  | @many names hlen h =>
    rw [withNull_many]
    split_ifs
    · exact .many hlen h
    · refine .many (by rw [List.length_append]; omega) fun name hname => ?_
      rcases List.mem_append.1 hname with hname | hname
      · exact h name hname
      · rw [List.mem_singleton] at hname
        exact hname ▸ null_mem_supportedTypes

theorem IsStrict.mem_names_withNull {t : TypeTags} (h : t.IsStrict) {name : String} :
    name ∈ t.withNull.names ↔ name ∈ t.names ∨ name = "null" := by
  cases h with
  | @single a h =>
    rw [withNull_single]
    split_ifs with ha
    · simp [ha]
    · simp
  | @many names hlen h =>
    rw [withNull_many]
    split_ifs with hnull
    · rw [names_many]
      constructor
      · exact Or.inl
      · rintro (hname | rfl)
        · exact hname
        · exact hnull
    · simp

theorem IsStrict.contains_withNull {t : TypeTags} (h : t.IsStrict) {name : String}
    (hname : name ≠ "null") : t.withNull.contains name = t.contains name := by
  rw [Bool.eq_iff_iff, contains_iff, contains_iff, h.mem_names_withNull]
  exact or_iff_left hname

end TypeTags

end StrictSchema
