import StrictSchema.Proofs.Compilation.Artefact
import StrictSchema.Proofs.Compilation.Sources
import StrictSchema.Proofs.Compilation.UnseenChanges
import StrictSchema.Proofs.Schema.MemberOrder

/-!
# Compiling members in another order

Equal schemas may list their properties in different orders. Their forms are then equal except for
the required names, which are listed in the order of the properties, so the forms are equal once
these lists are sorted (`Schema.SameSorted`, `rel_compile`). All else that compilation looks at does
not depend on the order of members.
-/

namespace StrictSchema

/-! ## Related parts -/

section Related

variable {α β : Type}

theorem isEmpty_eq_of_forall₂ {R : α → β → Prop} {xs : List α} {ys : List β}
    (aligned : List.Forall₂ R xs ys) : xs.isEmpty = ys.isEmpty := by
  cases aligned <;> rfl

theorem any_congr {R : α → α → Prop} {f : α → Bool} {xs ys : List α}
    (aligned : List.Forall₂ R xs ys) (same : ∀ x y, R x y → f x = f y) : xs.any f = ys.any f := by
  induction aligned with
  | nil => rfl
  | cons first _ ih => rw [List.any_cons, List.any_cons, same _ _ first, ih]

theorem option_rel_map {R : α → α → Prop} {S : β → β → Prop} {x y : Option α}
    (rel : Option.Rel R x y) {f g : α → β} (step : ∀ a b, R a b → S (f a) (g b)) :
    Option.Rel S (x.map f) (y.map g) := by
  cases rel with
  | none => exact .none
  | some related => exact .some (step _ _ related)

theorem isSome_eq_of_rel {R : α → α → Prop} {x y : Option α}
    (rel : Option.Rel R x y) : x.isSome = y.isSome := by
  cases rel <;> rfl

/-- Values that are found under the same condition are both found or both missing. -/
theorem option_rel_of_iff {ι : Type} {R : α → α → Prop} {P : ι → Prop} {f g : ι → α}
    {x y : Option α} (left : ∀ a, x = some a ↔ ∃ i, P i ∧ a = f i)
    (right : ∀ b, y = some b ↔ ∃ i, P i ∧ b = g i) (rel : ∀ i, P i → R (f i) (g i)) :
    Option.Rel R x y := by
  cases x with
  | none =>
    cases y with
    | none => exact .none
    | some b =>
      obtain ⟨i, hi, -⟩ := (right b).1 rfl
      cases (left (f i)).2 ⟨i, hi, rfl⟩
  | some a =>
    obtain ⟨i, hi, rfl⟩ := (left a).1 rfl
    rw [(right (g i)).2 ⟨i, hi, rfl⟩]
    exact .some (rel i hi)

end Related

namespace Schema

/-! ## Sorting the required names -/

mutual

/-- The schema with the required names of each of its nodes sorted. -/
def sortRequired : Schema → Schema
  | s@{ anyOf, items, properties, required, .. } =>
    { s with
      anyOf := sortRequiredEach anyOf
      items := sortRequiredItems items
      properties := sortRequiredNamed properties
      required := required.mergeSort }
termination_by structural s => s

def sortRequiredEach : List Schema → List Schema
  | [] => []
  | s :: ss => sortRequired s :: sortRequiredEach ss
termination_by structural ss => ss

def sortRequiredNamed : List (String × Schema) → List (String × Schema)
  | [] => []
  | (name, s) :: ss => (name, sortRequired s) :: sortRequiredNamed ss
termination_by structural ss => ss

def sortRequiredItems : Option (Items Schema) → Option (Items Schema)
  | none => none
  | some (.single s) => some (.single (sortRequired s))
  | some (.tuple ss) => some (.tuple (sortRequiredEach ss))
termination_by structural items => items

end

theorem sortRequiredEach_eq (ss : List Schema) : sortRequiredEach ss = ss.map sortRequired := by
  induction ss with
  | nil => rfl
  | cons s ss ih => rw [sortRequiredEach, List.map_cons, ih]

theorem sortRequiredNamed_eq (ps : List (String × Schema)) :
    sortRequiredNamed ps = ps.map (Prod.map id sortRequired) := by
  induction ps with
  | nil => rfl
  | cons p ps ih =>
    rw [sortRequiredNamed, List.map_cons, ih]
    rfl

theorem sortRequiredItems_eq (items : Option (Items Schema)) :
    sortRequiredItems items = items.map (Items.map sortRequired) := by
  rcases items with _ | s | ss
  · rfl
  · rfl
  · exact congrArg (some ∘ Items.tuple) (sortRequiredEach_eq ss)

theorem sortRequired_eq (s : Schema) :
    s.sortRequired = { s with
      anyOf := s.anyOf.map sortRequired
      items := s.items.map (Items.map sortRequired)
      properties := s.properties.map (Prod.map id sortRequired)
      required := s.required.mergeSort } := by
  cases s
  rw [sortRequired, sortRequiredEach_eq, sortRequiredNamed_eq, sortRequiredItems_eq]

theorem mergeSort_eq_of_perm {xs ys : List String} (perm : xs.Perm ys) :
    xs.mergeSort = ys.mergeSort := by
  have sorted (zs : List String) : zs.mergeSort.Pairwise fun a b => decide (a ≤ b) = true := by
    refine List.pairwise_mergeSort (fun a b c ab bc => ?_) (fun a b => ?_) zs
    · exact decide_eq_true (String.le_trans (of_decide_eq_true ab) (of_decide_eq_true bc))
    · simpa using String.le_total a b
  refine List.Perm.eq_of_pairwise (fun a b _ _ ab ba => ?_) (sorted xs) (sorted ys)
    ((List.mergeSort_perm xs _).trans (perm.trans (List.mergeSort_perm ys _).symm))
  exact String.le_antisymm (of_decide_eq_true ab) (of_decide_eq_true ba)

/-- Two schemas that are equal once the required names of their nodes are sorted. -/
def SameSorted (r q : Schema) : Prop := r.sortRequired.equiv q.sortRequired

theorem sameSorted_iff {r q : Schema} : SameSorted r q ↔
    (∀ k, SameAt r.sortRequired q.sortRequired k) ∧
      Members.Rel (fun v w => v.equiv w) r.extra q.extra := by
  have extra (s : Schema) : s.sortRequired.extra = s.extra := by rw [sortRequired_eq]
  rw [SameSorted, equiv_iff, extra, extra]

/-! ## Admitting null -/

theorem sortRequired_withNull (s : Schema) : s.withNull.sortRequired = s.sortRequired.withNull := by
  have types (s : Schema) : s.sortRequired.types = s.types := by rw [sortRequired_eq]
  have anyOf (s : Schema) : s.sortRequired.anyOf = s.anyOf.map sortRequired := by
    rw [sortRequired_eq]
  by_cases choice : s.anyOf = []
  · rw [withNull_node choice, withNull_node (by rw [anyOf, choice, List.map_nil])]
    simp only [sortRequired_eq]
  · rw [withNull_choice choice, withNull_choice (by rwa [anyOf, ne_eq, List.map_eq_nil_iff]), anyOf,
      List.any_map, Function.comp_def]
    simp only [types]
    split_ifs
    · rfl
    · simp [sortRequired_eq, ofType]

theorem equiv_withNull {s t : Schema} (same : s.equiv t) : s.withNull.equiv t.withNull := by
  obtain ⟨fields, extra⟩ := equiv_iff.1 same
  have anyOf : List.Forall₂ (fun s t => s.equiv t) s.anyOf t.anyOf := fields .anyOf
  have empty : s.anyOf = [] ↔ t.anyOf = [] := by
    rw [← List.isEmpty_iff, isEmpty_eq_of_forall₂ anyOf, List.isEmpty_iff]
  by_cases choice : s.anyOf = []
  · rw [withNull_node choice, withNull_node (empty.1 choice)]
    refine equiv_iff.2 ⟨fun k => ?_, extra⟩
    have field := fields k
    cases k with
    | type => exact congrArg TypeTags.withNull field
    | _ => exact field
  · have null (c d : Schema) (eq : c.equiv d) : c.types.isNullOnly = d.types.isNullOnly :=
      congrArg TypeTags.isNullOnly ((equiv_iff.1 eq).1 .type)
    rw [withNull_choice choice, withNull_choice (mt empty.2 choice), any_congr anyOf null]
    split_ifs
    · exact same
    · refine equiv_iff.2 ⟨fun k => ?_, extra⟩
      have field := fields k
      cases k with
      | anyOf => exact List.rel_append anyOf (.cons rfl .nil)
      | _ => exact field

theorem SameSorted.withNull {r q : Schema} (same : SameSorted r q) :
    SameSorted r.withNull q.withNull := by
  rw [SameSorted, sortRequired_withNull, sortRequired_withNull]
  exact equiv_withNull same

/-! ## Forms -/

theorem sameSorted_ofAlternatives {cs ds : List Schema} (each : List.Forall₂ SameSorted cs ds) :
    SameSorted (ofAlternatives cs) (ofAlternatives ds) := by
  refine sameSorted_iff.2 ⟨fun k => ?_, rfl, nofun⟩
  have empty := sameAt_empty k
  rw [sortRequired_eq, sortRequired_eq]
  cases k with
  | anyOf =>
    show List.Forall₂ _ (cs.map sortRequired) (ds.map sortRequired)
    rwa [List.forall₂_map_left_iff, List.forall₂_map_right_iff]
  | required => rfl
  | _ => exact empty

theorem rel_sortRequired_properties {ps qs : List (String × Schema)}
    (same : Members.Rel SameSorted ps qs) :
    Members.Rel (fun s t => s.equiv t) (ps.map (Prod.map id sortRequired))
      (qs.map (Prod.map id sortRequired)) := by
  refine ⟨by rw [List.length_map, List.length_map, same.length], fun m hm => ?_⟩
  obtain ⟨p, hp, rfl⟩ := List.mem_map.1 hm
  obtain ⟨c, found, eq⟩ := same.found p hp
  exact ⟨c.sortRequired, by rw [Members.find?_map]; exact congrArg (Option.map _) found, eq⟩

theorem rel_sortRequired_items {items others : Option (Items Schema)}
    (same : Option.Rel (Items.Rel SameSorted) items others) :
    Option.Rel (Items.Rel fun s t => s.equiv t) (items.map (Items.map sortRequired))
      (others.map (Items.map sortRequired)) := by
  cases same with
  | none => exact .none
  | some rel =>
    cases rel with
    | single eq => exact .some (.single eq)
    | tuple each =>
      refine .some (.tuple ?_)
      rwa [List.forall₂_map_left_iff, List.forall₂_map_right_iff]

theorem sameSorted_rebuild {s t : Schema} (same : s.equiv t) (types : TypeTags)
    {ps qs : List (String × Schema)} {items others : Option (Items Schema)}
    (once : (Members.names ps).Nodup) (properties : Members.Rel SameSorted ps qs)
    (elements : Option.Rel (Items.Rel SameSorted) items others) :
    SameSorted (s.rebuild types ps items) (t.rebuild types qs others) := by
  have fields := (equiv_iff.1 same).1
  refine sameSorted_iff.2 ⟨fun k => ?_, rfl, nofun⟩
  have field := fields k
  have empty := sameAt_empty k
  rw [sortRequired_eq, sortRequired_eq]
  cases k with
  | type => rfl
  | minLength | maxLength | pattern | multipleOf | maximum | exclusiveMaximum | minimum
  | exclusiveMinimum | minItems | maxItems | examples => exact field
  | format => exact congrArg (Option.filter _) field
  | items => exact rel_sortRequired_items elements
  | properties => exact rel_sortRequired_properties properties
  | required => exact mergeSort_eq_of_perm (properties.names_perm once)
  | additionalProperties =>
    show Option.Rel _ (if _ then _ else _) (if _ then _ else _)
    split_ifs
    · exact .some (.schema rfl)
    · exact .none
  | _ => exact empty

end Schema

open Schema

/-! ## Compiling -/

section Node

variable {s t : Schema} (once : s.NamesOnce) (same : s.equiv t)
  (children : ∀ c, s.IsChild c → ∀ d, c.equiv d → Option.Rel SameSorted (compile c) (compile d))

include children in
theorem forall₂_form_children {cs ds : List Schema} (each : ∀ c ∈ cs, s.IsChild c)
    (aligned : List.Forall₂ (fun c d => c.equiv d) cs ds) :
    List.Forall₂ SameSorted (cs.filterMap compile) (ds.filterMap compile) := by
  have both := (List.forall₂_and_left cs ds).2 ⟨fun c hc => children c (each c hc), aligned⟩
  exact List.rel_filterMap (fun c d h => h.1 d h.2) both

include same in
theorem strictTypes_eq_of_equiv : t.strictTypes = s.strictTypes := by
  have fields := (equiv_iff.1 same).1
  refine strictTypes_congr (congrArg TypeTags.resolve (fields .type).symm) ?_ (fields .format).symm
  have uniqueItems : s.uniqueItems = t.uniqueItems := fields .uniqueItems
  have deprecated : s.deprecated = t.deprecated := fields .deprecated
  have readOnly : s.readOnly = t.readOnly := fields .readOnly
  simp only [forbiddenKeywords, isSome_eq_of_rel (fields .const),
    isSome_eq_of_rel (fields .contains), uniqueItems, deprecated, readOnly,
    isSome_eq_of_rel (fields .patternProperties), isSome_eq_of_rel (fields .additionalItems),
    isSome_eq_of_rel (fields .allOf), isSome_eq_of_rel (fields .oneOf),
    isSome_eq_of_rel (fields .prefixItems)]

include once same children in
theorem rel_formProperties (types : TypeTags) :
    Members.Rel SameSorted (s.formProperties types) (t.formProperties types) := by
  have fields := (equiv_iff.1 same).1
  have required : s.required = t.required := fields .required
  have distinct : (Members.names (s.formProperties types)).Nodup := nodup_formProperties once.names
  unfold formProperties at distinct ⊢
  split_ifs at distinct ⊢
  · obtain ⟨zs, aligned, perm⟩ := (Members.rel_iff once.names).1 (fields .properties)
    refine (Members.rel_iff distinct).2 ⟨zs.filterMap (propertyForm t.required), ?_,
      perm.filterMap _⟩
    have child : ∀ p ∈ s.properties, s.IsChild p.2 := fun p hp => .property hp
    have both := (List.forall₂_and_left _ _).2 ⟨child, aligned⟩
    refine List.rel_filterMap (fun p z h => ?_) both
    obtain ⟨hp, name, eq⟩ := h
    unfold propertyForm
    rw [required, name]
    refine option_rel_map (children p.2 hp z.2 eq) fun c d form => ⟨rfl, ?_⟩
    dsimp only
    split_ifs
    · exact form
    · exact form.withNull
  · exact ⟨rfl, nofun⟩

include same children in
theorem rel_formItems (types : TypeTags) :
    Option.Rel (Items.Rel SameSorted) (s.formItems types) (t.formItems types) := by
  unfold formItems
  split_ifs
  · have rel : Option.Rel (Items.Rel fun c d => c.equiv d) s.items t.items :=
      (equiv_iff.1 same).1 .items
    have single : ∀ c, s.items = some (.single c) → s.IsChild c := fun c => .item
    have element : ∀ cs, s.items = some (.tuple cs) → ∀ c ∈ cs, s.IsChild c :=
      fun cs hcs c => .element hcs
    generalize s.items = items at rel single element ⊢
    generalize t.items = others at rel ⊢
    cases rel with
    | none => exact .none
    | some form =>
      cases form with
      | single eq => exact option_rel_map (children _ (single _ rfl) _ eq) fun _ _ => .single
      | tuple each =>
        have kept := forall₂_form_children children (element _ rfl) each
        unfold itemsForm
        dsimp only
        rw [isEmpty_eq_of_forall₂ kept]
        split_ifs
        · exact .none
        · exact .some (.tuple kept)
  · exact .none

end Node

/-- Equal schemas have forms that are equal once the required names are sorted, or neither has one.
-/
theorem rel_compile {s t : Schema} (once : s.NamesOnce) (same : s.equiv t) :
    Option.Rel SameSorted (compile s) (compile t) := by
  induction s using childInduction generalizing t with
  | _ s ih =>
    have children : ∀ c, s.IsChild c → ∀ d, c.equiv d →
        Option.Rel SameSorted (compile c) (compile d) :=
      fun c hc d eq => ih c hc (once.child hc) eq
    have anyOf : List.Forall₂ (fun c d => c.equiv d) s.anyOf t.anyOf := (equiv_iff.1 same).1 .anyOf
    have empty : s.anyOf = [] ↔ t.anyOf = [] := by
      rw [← List.isEmpty_iff, isEmpty_eq_of_forall₂ anyOf, List.isEmpty_iff]
    by_cases choice : s.anyOf = []
    · have properties := rel_formProperties once same children
      have items := rel_formItems same children
      have left (r : Schema) := compile_node_eq_some_iff (r := r) choice
      have right (q : Schema) := compile_node_eq_some_iff (r := q) (empty.1 choice)
      simp only [← and_assoc] at left right
      refine option_rel_of_iff left (fun q => (right q).trans (exists_congr fun types => ?_))
        fun types _ => sameSorted_rebuild same types (nodup_formProperties once.names)
          (properties types) (items types)
      have object : t.formProperties types = [] ↔ s.formProperties types = [] := by
        rw [← List.length_eq_zero_iff, ← (properties types).length, List.length_eq_zero_iff]
      have array := isSome_eq_of_rel (items types)
      simp only [strictTypes_eq_of_equiv same, ne_eq, object, ← Option.isSome_iff_ne_none, array]
    · have kept := forall₂_form_children children (fun c hc => .alternative hc) anyOf
      have none := isEmpty_eq_of_forall₂ kept
      rw [compile_choice choice, compile_choice (mt empty.2 choice)]
      simp only [← List.isEmpty_iff, none]
      split_ifs
      · exact .none
      · exact .some (sameSorted_ofAlternatives kept)

/-- A form keeps its properties in the order of its source, and requires them in this order. -/
theorem names_of_comesFrom {s r d c : Schema} (h : compile s = some r) (hc : ComesFrom s r d c) :
    (Members.names c.properties).Sublist (Members.names d.properties) ∧
      c.required = Members.names c.properties := by
  have form := hc.formOf h
  refine ⟨?_, form.required⟩
  rw [form.properties]
  split_ifs
  · exact names_propertyForm_sublist d.required d.properties
  · exact List.nil_sublist _

/-- The order of members does not matter. Documents that differ in it are read as equal schemas, or
neither is read; equal schemas have forms that are equal up to the order of the required names, or
neither has a form. In each form the properties are in the order of its own source, and the required
names in the order of the properties. -/
theorem member_order_irrelevant :
    (∀ v w : Json, v.DistinctNames → v.equiv w →
      ((∃ e, decode v = .error e) ∧ ∃ e, decode w = .error e) ∨
        ∃ s t, decode v = .ok s ∧ decode w = .ok t ∧ s.equiv t) ∧
    (∀ s t : Schema, s.NamesOnce → s.equiv t →
      (compile s = none ∧ compile t = none) ∨
        ∃ r q, compile s = some r ∧ compile t = some q ∧
          r.sortRequired.equiv q.sortRequired) ∧
    ∀ s r, compile s = some r →
      (∀ c, r.IsNode c → c = ofType "null" ∨ ∃ d, ComesFrom s r d c) ∧
        ∀ d c, ComesFrom s r d c →
          (Members.names c.properties).Sublist (Members.names d.properties) ∧
            c.required = Members.names c.properties := by
  refine ⟨fun v w distinct same => ?_, fun s t once same => ?_, fun s r h => ?_⟩
  · have agree := (readSame distinct same).node
    generalize decode v = x at agree ⊢
    generalize decode w = y at agree ⊢
    cases agree with
    | error => exact .inl ⟨⟨_, rfl⟩, _, rfl⟩
    | ok eq => exact .inr ⟨_, _, rfl, rfl, eq⟩
  · have rel := rel_compile once same
    generalize compile s = x at rel ⊢
    generalize compile t = y at rel ⊢
    cases rel with
    | none => exact .inl ⟨rfl, rfl⟩
    | some form => exact .inr ⟨_, _, rfl, rfl, form⟩
  · exact ⟨fun _ => eq_null_or_comesFrom h, fun _ _ => names_of_comesFrom h⟩

/-- An object with two members that are not required. -/
def pairDocument : Json :=
  .object [("type", .string "object"),
    ("properties", .object [("a", .object [("type", .string "string")]),
      ("b", .object [("type", .string "number")])])]

/-- `pairDocument` with all members in reverse order. -/
def reversedDocument : Json :=
  .object [("properties", .object [("b", .object [("type", .string "number")]),
      ("a", .object [("type", .string "string")])]),
    ("type", .string "object")]

theorem distinctNames_pairDocument : pairDocument.DistinctNames :=
  ⟨by decide, trivial, ⟨by decide, ⟨by decide, trivial, trivial⟩, ⟨by decide, trivial, trivial⟩,
    trivial⟩, trivial⟩

theorem member_order_irrelevant_pairDocument :
    pairDocument.equiv reversedDocument ∧ ∃ s t r q, decode pairDocument = .ok s ∧
      decode reversedDocument = .ok t ∧ s.equiv t ∧ compile s = some r ∧ compile t = some q ∧
      r.required = ["a", "b"] ∧ q.required = ["b", "a"] ∧
      r.sortRequired.equiv q.sortRequired ∧
      (Members.names q.properties).Sublist (Members.names t.properties) := by
  obtain ⟨documents, schemas, sources⟩ := member_order_irrelevant
  have same : pairDocument.equiv reversedDocument := by decide
  refine ⟨same, ?_⟩
  rcases documents _ _ distinctNames_pairDocument same with ⟨⟨e, fails⟩, -⟩ | ⟨s, t, hs, ht, eq⟩
  · cases fails
  · have once := namesOnce_of_decode distinctNames_pairDocument hs
    rcases schemas s t once eq with ⟨fails, -⟩ | ⟨r, q, hr, hq, sorted⟩
    · cases hs
      cases fails
    · have order := ((sources t q hq).2 t q .refl).1
      cases hs
      cases ht
      cases hr
      cases hq
      exact ⟨_, _, _, _, rfl, rfl, eq, rfl, rfl, rfl, rfl, sorted, order⟩

end StrictSchema
