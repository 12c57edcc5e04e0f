import StrictSchema.Proofs.Compilation.Types
import StrictSchema.Proofs.Schema.RoundTrip

/-!
# No type name is lost

A document has one place for the two forms of type names, so writing and reading the `type` keyword
merges them. Merged types name what was named before, in the same order; only a single name that the
list has is not repeated (`TypeTags.names_merged`). They are written as the types were before they
were merged (`TypeTags.encode_merged`).
-/

namespace StrictSchema.TypeTags

theorem names_merged (t : TypeTags) :
    t.merged.names = t.list ++ t.scalar.toList.filter (· ∉ t.list) := by
  rcases t with ⟨_ | name, _ | ⟨first, rest⟩⟩
  · rfl
  · exact (List.append_nil _).trans (List.append_nil _).symm
  · rfl
  · by_cases listed : name ∈ first :: rest
    · have added : [name].filter (· ∉ first :: rest) = [] :=
        List.filter_eq_nil_iff.2 fun n mem => by simp [List.mem_singleton.1 mem, listed]
      simp only [merged, names, many, Option.toList_some, Option.toList_none, if_pos listed, added]
    · have added : [name].filter (· ∉ first :: rest) = [name] :=
        List.filter_eq_self.2 fun n mem => by simp [List.mem_singleton.1 mem, listed]
      simp only [merged, names, many, Option.toList_some, Option.toList_none, if_neg listed, added,
        List.append_nil]

theorem mem_names_merged {t : TypeTags} {name : String} :
    name ∈ t.merged.names ↔ name ∈ t.names := by
  rw [names_merged, names, List.mem_append, List.mem_append, List.mem_filter, decide_eq_true_iff]
  by_cases listed : name ∈ t.list <;> simp [listed]

theorem contains_merged (t : TypeTags) (name : String) :
    t.merged.contains name = t.contains name := by
  rw [Bool.eq_iff_iff, contains_iff, contains_iff, mem_names_merged]

theorem isEmpty_merged (t : TypeTags) : t.merged.isEmpty = t.isEmpty := by
  rcases t with ⟨_ | name, _ | ⟨first, rest⟩⟩
  · rfl
  · rfl
  · rfl
  · simp only [merged]
    split <;> rfl

theorem isNullOnly_merged (t : TypeTags) : t.merged.isNullOnly = t.isNullOnly := by
  have all : t.merged.names.all (· == "null") = t.names.all (· == "null") := by
    rw [Bool.eq_iff_iff, List.all_eq_true, List.all_eq_true]
    exact forall_congr' fun name => imp_congr_left mem_names_merged
  rw [isNullOnly, isNullOnly, isEmpty_merged, all]

/-- Types are written the same before and after they are merged. -/
theorem encode_merged (t : TypeTags) : t.merged.encode = t.encode := by
  rcases t with ⟨_ | name, _ | ⟨first, rest⟩⟩
  · rfl
  · rfl
  · rfl
  · by_cases listed : name ∈ first :: rest
    · simp only [merged, if_pos listed, encode, many, List.contains_iff_mem]
    · simp only [merged, if_neg listed, encode, many, List.contains_iff_mem, List.cons_append]

/-- Types that name anything are read back with the same names, in their order and without the
single name if the list has it. They are the types that were written exactly if those have only one
of the two forms, and they are written in the same way. -/
theorem decode_encode_types {t : TypeTags} (named : t.isEmpty = false) :
    ∃ u, decode t.encode = .ok u ∧
      (∀ name, u.contains name = t.contains name) ∧
      u.isNullOnly = t.isNullOnly ∧
      u.names = t.list ++ t.scalar.toList.filter (· ∉ t.list) ∧
      (u = t ↔ ¬ (t.scalar ≠ none ∧ t.list ≠ [])) ∧
      u.encode = t.encode :=
  ⟨t.merged, decode_encode named, contains_merged t, isNullOnly_merged t, names_merged t,
    merged_eq_self_iff, encode_merged t⟩

/-- Types in both forms, with a repeated name and a single name that the list has, too. -/
def repeatedTypes : TypeTags := { scalar := some "null", list := ["string", "null", "string"] }

theorem decode_encode_repeatedTypes :
    ∃ u, decode repeatedTypes.encode = .ok u ∧ u.names = ["string", "null", "string"] ∧
      u ≠ repeatedTypes ∧ u.encode = repeatedTypes.encode := by
  obtain ⟨u, read, -, -, names, same, written⟩ := decode_encode_types (t := repeatedTypes) rfl
  have mixed : ¬ u = repeatedTypes := fun equal => same.1 equal (by decide)
  exact ⟨u, read, names, mixed, written⟩

end StrictSchema.TypeTags
