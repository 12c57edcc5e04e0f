import Mathlib.Data.List.Flatten
import Mathlib.Data.List.Sigma
import StrictSchema.Proofs.Compilation.Diagnostics
import StrictSchema.Proofs.Compilation.PathTexts

/-!
# Where the prunings stand

A node may occur several times in a schema, and `Schema.positions` lists its occurrences with their
paths: the nodes that compilation looks at are some of them, in the same order
(`Schema.visitsAt_sublist`). The text of a path is read from the root step by step
(`Schema.LeadsTo`), so that the text of a pruning leads to a node without a form. Where properties
have names of their own without slashes, different positions have different texts, and so have
different prunings (`prunings_located`).
-/

namespace StrictSchema

open Schema

/-! ## Reading the text of a path -/

/-- A step as a text. -/
def Step.text : Step → String
  | .alternative i => "/anyOf/" ++ toString i
  | .property name => "/properties/" ++ name
  | .item => "/items"
  | .element i => "/items/" ++ toString i

theorem Step.toList_text (step : Step) : step.text.toList = step.chars := by
  cases step <;> simp [text, chars, Decimal.digitsOf]

/-- The keyword that holds the child at the end of a step. -/
def Step.keyword : Step → Keyword
  | .alternative _ => .anyOf
  | .property _ => .properties
  | .item => .items
  | .element _ => .items

theorem Path.text_snoc (path : Path) (step : Step) :
    (path ++ [step]).text = path.text ++ step.text := by
  refine String.toList_inj.1 ?_
  rw [String.toList_append, text, text, String.toList_ofList, String.toList_ofList,
    List.flatMap_append, List.flatMap_singleton, step.toList_text, List.cons_append]

namespace Schema

variable {s c n : Schema} {path here : Path}

/-- `c` is the child of `s` at the end of a step. -/
inductive ChildAt (s : Schema) : Step → Schema → Prop where
  | alternative {i : Nat} {c : Schema} (hc : s.anyOf[i]? = some c) : ChildAt s (.alternative i) c
  | property {name : String} {c : Schema} (hc : (name, c) ∈ s.properties) :
      ChildAt s (.property name) c
  | item {c : Schema} (hc : s.items = some (.single c)) : ChildAt s .item c
  | element {i : Nat} {cs : List Schema} {c : Schema} (hcs : s.items = some (.tuple cs))
      (hc : cs[i]? = some c) : ChildAt s (.element i) c

/-- `c` is the node that a text leads to from the root of `s`. -/
inductive LeadsTo (s : Schema) : String → Schema → Prop where
  | root : LeadsTo s "#" s
  | step {text : String} {n c : Schema} {step : Step} (hn : LeadsTo s text n)
      (hc : ChildAt n step c) : LeadsTo s (text ++ step.text) c

theorem ChildAt.isChild {step : Step} (h : ChildAt s step c) : IsChild s c := by
  cases h with
  | alternative hc => exact .alternative (List.mem_of_getElem? hc)
  | property hc => exact .property hc
  | item hc => exact .item hc
  | element hcs hc => exact .element hcs (List.mem_of_getElem? hc)

theorem exists_childAt (h : IsChild s c) : ∃ step, ChildAt s step c := by
  cases h with
  | alternative hc =>
    obtain ⟨i, hi⟩ := List.mem_iff_getElem?.1 hc
    exact ⟨_, .alternative hi⟩
  | property hc => exact ⟨_, .property hc⟩
  | item hc => exact ⟨_, .item hc⟩
  | element hcs hc =>
    obtain ⟨i, hi⟩ := List.mem_iff_getElem?.1 hc
    exact ⟨_, .element hcs hi⟩

/-! ## The children of a node -/

/-- All children of a node with the steps to them. -/
def childSteps (s : Schema) : List (Step × Schema) :=
  (s.anyOf.zipIdx.map fun x => (.alternative x.2, x.1)) ++
    ((s.properties.map fun p => (.property p.1, p.2)) ++ s.itemSteps)

theorem mem_indexed_iff {cs : List Schema} {toStep : Nat → Step} {step : Step} :
    (step, c) ∈ cs.zipIdx.map (fun x => (toStep x.2, x.1)) ↔
      ∃ i, cs[i]? = some c ∧ step = toStep i := by
  rw [List.mem_map]
  constructor
  · rintro ⟨⟨d, i⟩, hd, hx⟩
    obtain ⟨rfl, rfl⟩ := Prod.mk.inj hx
    exact ⟨i, List.mem_zipIdx_iff_getElem?.1 hd, rfl⟩
  · rintro ⟨i, hi, rfl⟩
    exact ⟨(c, i), List.mem_zipIdx_iff_getElem?.2 hi, rfl⟩

theorem mem_childSteps_iff {step : Step} : (step, c) ∈ s.childSteps ↔ ChildAt s step c := by
  rw [childSteps, List.mem_append, List.mem_append, itemSteps]
  constructor
  · rintro (h | h | h)
    · obtain ⟨i, hi, rfl⟩ := mem_indexed_iff.1 h
      exact .alternative hi
    · obtain ⟨⟨name, d⟩, hd, hx⟩ := List.mem_map.1 h
      obtain ⟨rfl, rfl⟩ := Prod.mk.inj hx
      exact .property hd
    · split at h
      · cases h
      · next hitems =>
        obtain ⟨rfl, rfl⟩ := Prod.mk.inj (List.mem_singleton.1 h)
        exact .item hitems
      · next hitems =>
        obtain ⟨i, hi, rfl⟩ := mem_indexed_iff.1 h
        exact .element hitems hi
  · intro h
    cases h with
    | alternative hc => exact .inl (mem_indexed_iff.2 ⟨_, hc, rfl⟩)
    | property hc => exact .inr (.inl (List.mem_map_of_mem hc))
    | item hc =>
      rw [hc]
      exact .inr (.inr (List.mem_singleton_self _))
    | element hcs hc =>
      rw [hcs]
      exact .inr (.inr (mem_indexed_iff.2 ⟨_, hc, rfl⟩))

theorem IsChild.of_mem_childSteps {x : Step × Schema} (h : x ∈ s.childSteps) : IsChild s x.2 :=
  (mem_childSteps_iff.1 h).isChild

theorem lookedAt_sublist (s : Schema) : s.lookedAt.Sublist s.childSteps := by
  have ite_sublist {p : Prop} [Decidable p] (xs : List (Step × Schema)) :
      (if p then xs else []).Sublist xs := by
    split_ifs
    · exact List.Sublist.refl _
    · exact List.nil_sublist _
  by_cases hs : s.anyOf = []
  · by_cases hexpressible : s.IsExpressible
    · rw [lookedAt_node hs hexpressible, childSteps]
      exact ((ite_sublist _).append (ite_sublist _)).trans (List.sublist_append_right _ _)
    · rw [lookedAt_eq_nil hs hexpressible]
      exact List.nil_sublist _
  · rw [lookedAt_choice hs]
    exact List.sublist_append_left _ _

theorem nodup_indexed (cs : List Schema) {toStep : Nat → Step} (h : Function.Injective toStep) :
    ((cs.zipIdx.map fun x => (toStep x.2, x.1)).map Prod.fst).Nodup := by
  have indices := (List.nodup_zipIdx_map_snd cs).map h
  rw [List.map_map] at indices ⊢
  exact indices

theorem keyword_of_mem_map {α : Type} (xs : List α) (toStep : α → Step) (toSchema : α → Schema)
    {k : Keyword} (h : ∀ x, (toStep x).keyword = k) :
    ∀ step ∈ (xs.map fun x => (toStep x, toSchema x)).map Prod.fst, step.keyword = k := by
  intro step hstep
  obtain ⟨_, hx, rfl⟩ := List.mem_map.1 hstep
  obtain ⟨x, -, rfl⟩ := List.mem_map.1 hx
  exact h x

theorem keyword_of_mem_itemSteps :
    ∀ step ∈ s.itemSteps.map Prod.fst, step.keyword = .items := by
  unfold itemSteps
  split
  · exact List.forall_mem_nil _
  · exact List.forall_mem_singleton.2 rfl
  · exact keyword_of_mem_map _ _ _ fun _ => rfl

theorem nodup_append_of_keyword {xs ys : List Step} {k : Keyword} (nodupLeft : xs.Nodup)
    (nodupRight : ys.Nodup) (left : ∀ step ∈ xs, step.keyword = k)
    (right : ∀ step ∈ ys, step.keyword ≠ k) : (xs ++ ys).Nodup := by
  refine List.nodup_append.2 ⟨nodupLeft, nodupRight, ?_⟩
  rintro step hleft _ hright rfl
  exact right step hright (left step hleft)

theorem nodup_itemSteps (s : Schema) : (s.itemSteps.map Prod.fst).Nodup := by
  unfold itemSteps
  split
  · exact List.nodup_nil
  · exact List.nodup_singleton _
  · exact nodup_indexed _ fun _ _ => Step.element.inj

/-- The steps to the children of a node are different if its properties have names of their own. -/
theorem nodup_childSteps (h : (Members.names s.properties).Nodup) :
    (s.childSteps.map Prod.fst).Nodup := by
  have properties :
      ((s.properties.map fun p => (Step.property p.1, p.2)).map Prod.fst).Nodup := by
    have names := h.map (f := Step.property) fun _ _ => Step.property.inj
    rw [Members.names, List.map_map] at names
    rw [List.map_map]
    exact names
  have propertyKeyword :=
    keyword_of_mem_map s.properties (fun p => .property p.1) Prod.snd fun _ => rfl
  rw [childSteps, List.map_append, List.map_append]
  refine nodup_append_of_keyword (nodup_indexed _ fun _ _ => Step.alternative.inj)
    (nodup_append_of_keyword properties (nodup_itemSteps s) propertyKeyword ?_)
    (keyword_of_mem_map _ _ _ fun _ => rfl) ?_
  · intro step hstep
    rw [keyword_of_mem_itemSteps step hstep]
    decide
  · intro step hstep
    rcases List.mem_append.1 hstep with hstep | hstep
    · rw [propertyKeyword step hstep]
      decide
    · rw [keyword_of_mem_itemSteps step hstep]
      decide

/-! ## All nodes -/

/-- The nodes of a schema that stands at `path`, each as often as it occurs, children before their
node. -/
def positionsAt (path : Path) (s : Schema) : List (Path × Schema) :=
  (s.childSteps.attach.flatMap fun x => positionsAt (path ++ [x.1.1]) x.1.2) ++ [(path, s)]
termination_by sizeOf s
decreasing_by exact IsChild.sizeOf_lt (.of_mem_childSteps x.2)

/-- The nodes of a whole schema. -/
def positions (s : Schema) : List (Path × Schema) := s.positionsAt []

theorem positionsAt_eq (path : Path) (s : Schema) :
    s.positionsAt path =
      (s.childSteps.flatMap fun x => x.2.positionsAt (path ++ [x.1])) ++ [(path, s)] := by
  rw [positionsAt, List.flatMap_subtype, List.unattach_attach]
  exact fun x hx => rfl

theorem mem_positionsAt_iff {x : Path × Schema} : x ∈ s.positionsAt path ↔
    (∃ y ∈ s.childSteps, x ∈ y.2.positionsAt (path ++ [y.1])) ∨ x = (path, s) := by
  rw [positionsAt_eq, List.mem_append, List.mem_flatMap, List.mem_singleton]

theorem mem_positionsAt_self (path : Path) (s : Schema) : (path, s) ∈ s.positionsAt path :=
  mem_positionsAt_iff.2 (.inr rfl)

theorem mem_positionsAt_child {step : Step} (hn : (here, n) ∈ s.positionsAt path)
    (hc : (step, c) ∈ n.childSteps) : (here ++ [step], c) ∈ s.positionsAt path := by
  induction s using childInduction generalizing path with
  | _ s ih =>
    rcases mem_positionsAt_iff.1 hn with ⟨y, hy, hn⟩ | hroot
    · exact mem_positionsAt_iff.2 (.inl ⟨y, hy, ih y.2 (.of_mem_childSteps hy) hn⟩)
    · obtain ⟨rfl, rfl⟩ := Prod.mk.inj hroot
      exact mem_positionsAt_iff.2 (.inl ⟨(step, c), hc, mem_positionsAt_self _ c⟩)

/-- The nodes that compilation looks at are among all nodes, in the same order. -/
theorem visitsAt_sublist (path : Path) (s : Schema) :
    (s.visitsAt path).Sublist (s.positionsAt path) := by
  induction s using childInduction generalizing path with
  | _ s ih =>
    rw [visitsAt_eq, positionsAt_eq]
    refine List.Sublist.append ?_ (List.Sublist.refl _)
    refine (List.Sublist.flatMap_right _ fun x hx => ?_).trans ((lookedAt_sublist s).flatMap _)
    exact ih x.2 (.of_mem_lookedAt hx) _

/-! ## Reading texts -/

theorem leadsTo_of_mem_positionsAt {root : Schema} (hs : root.LeadsTo path.text s)
    (h : (here, n) ∈ s.positionsAt path) : root.LeadsTo here.text n := by
  induction s using childInduction generalizing path with
  | _ s ih =>
    rcases mem_positionsAt_iff.1 h with ⟨⟨step, c⟩, hc, hn⟩ | hself
    · have below : root.LeadsTo (path ++ [step]).text c := by
        rw [Path.text_snoc]
        exact hs.step (mem_childSteps_iff.1 hc)
      exact ih c (.of_mem_childSteps hc) below hn
    · obtain ⟨rfl, rfl⟩ := Prod.mk.inj hself
      exact hs

/-- A text leads to the nodes whose path it is the text of. -/
theorem leadsTo_iff {text : String} :
    s.LeadsTo text c ↔ ∃ path, (path, c) ∈ s.positions ∧ path.text = text := by
  constructor
  · intro h
    induction h with
    | root => exact ⟨[], mem_positionsAt_self [] s, rfl⟩
    | @step _ _ _ step _ hc ih =>
      obtain ⟨path, hn, rfl⟩ := ih
      exact ⟨path ++ [step], mem_positionsAt_child hn (mem_childSteps_iff.2 hc),
        path.text_snoc step⟩
  · rintro ⟨path, h, rfl⟩
    exact leadsTo_of_mem_positionsAt .root h

/-! ## Different positions -/

theorem prefix_of_mem_positionsAt (h : (here, c) ∈ s.positionsAt path) : path <+: here := by
  induction s using childInduction generalizing path with
  | _ s ih =>
    rcases mem_positionsAt_iff.1 h with ⟨y, hy, hc⟩ | hself
    · exact (List.prefix_append _ _).trans (ih y.2 (.of_mem_childSteps hy) hc)
    · obtain ⟨rfl, -⟩ := Prod.mk.inj hself
      exact List.prefix_refl here

theorem forall_isNode_iff {P : Schema → Prop} : (∀ n, s.IsNode n → P n) ↔
    P s ∧ ∀ x ∈ s.childSteps, ∀ n, x.2.IsNode n → P n := by
  constructor
  · intro h
    exact ⟨h s (.refl s), fun x hx n hn => h n (.of_child (.of_mem_childSteps hx) hn)⟩
  · rintro ⟨hs, hbelow⟩ n hn
    rcases (isNode_iff s n).1 hn with rfl | ⟨c, hc, hn⟩
    · exact hs
    · obtain ⟨step, hstep⟩ := exists_childAt hc
      exact hbelow (step, c) (mem_childSteps_iff.2 hstep) n hn

/-- Below different steps there are different paths. -/
theorem disjoint_positionsAt {a b : Step × Schema} (h : a.1 ≠ b.1) :
    List.Disjoint ((a.2.positionsAt (path ++ [a.1])).map Prod.fst)
      ((b.2.positionsAt (path ++ [b.1])).map Prod.fst) := by
  intro here ha hb
  obtain ⟨⟨_, c⟩, hc, rfl⟩ := List.mem_map.1 ha
  obtain ⟨⟨_, d⟩, hd, rfl⟩ := List.mem_map.1 hb
  have sameLength : (path ++ [a.1]).length = (path ++ [b.1]).length := by simp
  have same : path ++ [a.1] = path ++ [b.1] :=
    (List.prefix_of_prefix_length_le (prefix_of_mem_positionsAt hc) (prefix_of_mem_positionsAt hd)
      (le_of_eq sameLength)).eq_of_length sameLength
  exact h (List.singleton_inj.1 (List.append_cancel_left same))

/-- Different positions have different paths if all properties have names of their own. -/
theorem nodup_positionsAt (names : ∀ n, s.IsNode n → (Members.names n.properties).Nodup)
    (path : Path) : ((s.positionsAt path).map Prod.fst).Nodup := by
  induction s using childInduction generalizing path with
  | _ s ih =>
    obtain ⟨here, below⟩ := forall_isNode_iff.1 names
    rw [positionsAt_eq, List.map_append, List.map_flatMap]
    refine List.nodup_append.2 ⟨List.nodup_flatMap.2 ⟨?_, ?_⟩, List.nodup_singleton _, ?_⟩
    · intro x hx
      exact ih x.2 (.of_mem_childSteps hx) (below x hx) _
    · have steps := nodup_childSteps here
      exact (List.pairwise_map.1 steps).imp disjoint_positionsAt
    · -- the paths below a node are longer than its own
      intro below hbelow own hown same
      obtain rfl := List.mem_singleton.1 hown
      obtain ⟨x, -, hx⟩ := List.mem_flatMap.1 hbelow
      obtain ⟨⟨here, c⟩, hc, rfl⟩ := List.mem_map.1 hx
      obtain rfl : here = own := same
      have longer := (prefix_of_mem_positionsAt hc).length_le
      rw [List.length_append, List.length_singleton] at longer
      omega

theorem isPlain_of_mem_positionsAt
    (plain : ∀ n, s.IsNode n → ∀ name ∈ Members.names n.properties, '/' ∉ name.toList)
    (hpath : ∀ step ∈ path, step.IsPlain) (h : (here, c) ∈ s.positionsAt path) :
    ∀ step ∈ here, step.IsPlain := by
  induction s using childInduction generalizing path with
  | _ s ih =>
    rcases mem_positionsAt_iff.1 h with ⟨⟨step, d⟩, hd, hc⟩ | hself
    · obtain ⟨here, below⟩ := forall_isNode_iff.1 plain
      refine ih d (.of_mem_childSteps hd) (below _ hd) ?_ hc
      refine List.forall_mem_append.2 ⟨hpath, List.forall_mem_singleton.2 ?_⟩
      cases mem_childSteps_iff.1 hd with
      | property hd => exact here _ (List.mem_map_of_mem hd)
      | _ => trivial
    · obtain ⟨rfl, rfl⟩ := Prod.mk.inj hself
      exact hpath

end Schema

/-! ## Prunings -/

section Prunings

variable {s : Schema}

theorem prunings_eq_visits (s : Schema) :
    prunings s = s.visits.filterMap fun v => v.2.pruning? v.1 := compileAt_prunings_eq_visits [] s

/-- Each pruning is recorded at a position of a node without a form. -/
theorem exists_position_of_mem_prunings {p : Pruning} (h : p ∈ prunings s) :
    ∃ c, (p.path, c) ∈ s.positions ∧ compile c = none := by
  rw [prunings_eq_visits] at h
  obtain ⟨⟨path, c⟩, hc, hp⟩ := List.mem_filterMap.1 h
  obtain ⟨reason, hreason, rfl⟩ := Option.map_eq_some_iff.1 hp
  refine ⟨c, (visitsAt_sublist [] s).subset hc, Option.not_isSome_iff_eq_none.1 fun hform => ?_⟩
  rw [reason?_eq_none_iff.2 hform] at hreason
  cases hreason

theorem map_filterMap_sublist {α β γ : Type} {f : α → Option β} {g : β → γ} {h : α → γ}
    (hf : ∀ x y, f x = some y → g y = h x) (xs : List α) :
    ((xs.filterMap f).map g).Sublist (xs.map h) := by
  induction xs with
  | nil => exact List.Sublist.slnil
  | cons x xs ih =>
    rw [List.filterMap_cons, List.map_cons]
    split
    · exact ih.cons _
    · next y hy =>
      rw [List.map_cons, hf x y hy]
      exact ih.cons_cons _

/-- The paths of the prunings are paths of positions, in the same order and not more often. -/
theorem paths_prunings_sublist (s : Schema) :
    ((prunings s).map Pruning.path).Sublist (s.positions.map Prod.fst) := by
  rw [prunings_eq_visits]
  refine (map_filterMap_sublist ?_ _).trans ((visitsAt_sublist [] s).map Prod.fst)
  intro v p hp
  obtain ⟨reason, -, rfl⟩ := Option.map_eq_some_iff.1 hp
  rfl

/-- The text of a pruning, read from the root step by step, leads to a node without a form. The
properties of a node are a map, in which no name stands twice; if, in addition, no name has a slash,
then no two positions of the schema, and no two prunings, have the same text. -/
theorem prunings_located (s : Schema) :
    (∀ p ∈ prunings s, ∃ c, s.LeadsTo p.path.text c ∧ compile c = none) ∧
    (∀ text c, s.LeadsTo text c ↔ ∃ path, (path, c) ∈ s.positions ∧ path.text = text) ∧
    ((∀ n, s.IsNode n → (Members.names n.properties).Nodup) →
      (∀ n, s.IsNode n → ∀ name ∈ Members.names n.properties, '/' ∉ name.toList) →
        (s.positions.map fun x => x.1.text).Nodup ∧
          ((prunings s).map fun p => p.path.text).Nodup) := by
  refine ⟨fun p hp => ?_, fun _ _ => leadsTo_iff, fun names plain => ?_⟩
  · obtain ⟨c, hc, hform⟩ := exists_position_of_mem_prunings hp
    exact ⟨c, leadsTo_iff.2 ⟨p.path, hc, rfl⟩, hform⟩
  · have paths : ((s.positions.map Prod.fst).map Path.text).Nodup := by
      refine (nodup_positionsAt names []).map_on ?_
      intro p hp q hq same
      obtain ⟨⟨_, c⟩, hc, rfl⟩ := List.mem_map.1 hp
      obtain ⟨⟨_, d⟩, hd, rfl⟩ := List.mem_map.1 hq
      exact Path.text_inj (isPlain_of_mem_positionsAt plain (List.forall_mem_nil _) hc)
        (isPlain_of_mem_positionsAt plain (List.forall_mem_nil _) hd) same
    have recorded := ((paths_prunings_sublist s).map Path.text).nodup paths
    rw [List.map_map] at paths recorded
    exact ⟨paths, recorded⟩

end Prunings

/-- An object whose names look like indices, keywords and nothing at all. -/
def lookalikeNames : Schema :=
  .object [("", {}), ("0", {}), ("anyOf", .ofAlternatives [{}, .ofType "null"]),
    ("items", .tupleOf [.ofType "string", {}]), ("properties", .object [("properties", {})])]

theorem plain_lookalikeNames : ∀ n, lookalikeNames.IsNode n → (Members.names n.properties).Nodup ∧
    ∀ name ∈ Members.names n.properties, '/' ∉ name.toList := by
  have leaf {s : Schema} (children : s.childSteps = []) (properties : s.properties = []) :
      ∀ n, s.IsNode n → (Members.names n.properties).Nodup ∧
        ∀ name ∈ Members.names n.properties, '/' ∉ name.toList := by
    refine forall_isNode_iff.2 ⟨?_, ?_⟩
    · rw [properties]
      exact ⟨List.nodup_nil, List.forall_mem_nil _⟩
    · rw [children]
      exact List.forall_mem_nil _
  have children : lookalikeNames.childSteps = [(.property "", {}), (.property "0", {}),
    (.property "anyOf", .ofAlternatives [{}, .ofType "null"]),
    (.property "items", .tupleOf [.ofType "string", {}]),
    (.property "properties", .object [("properties", {})])] := rfl
  refine forall_isNode_iff.2 ⟨by decide, ?_⟩
  rw [children]
  simp only [List.forall_mem_cons]
  refine ⟨leaf rfl rfl, leaf rfl rfl, ?choice, ?tuple, ?object, List.forall_mem_nil _⟩
  case choice =>
    refine forall_isNode_iff.2 ⟨by decide, List.forall_mem_cons.2 ⟨leaf rfl rfl, ?_⟩⟩
    exact List.forall_mem_singleton.2 (leaf rfl rfl)
  case tuple =>
    refine forall_isNode_iff.2 ⟨by decide, List.forall_mem_cons.2 ⟨leaf rfl rfl, ?_⟩⟩
    exact List.forall_mem_singleton.2 (leaf rfl rfl)
  case object =>
    exact forall_isNode_iff.2 ⟨by decide, List.forall_mem_singleton.2 (leaf rfl rfl)⟩

/-- The six nodes without a form are told apart by their texts, as all positions are. -/
theorem prunings_located_lookalikeNames :
    (∀ n, lookalikeNames.IsNode n → (Members.names n.properties).Nodup) ∧
    (∀ n, lookalikeNames.IsNode n → ∀ name ∈ Members.names n.properties, '/' ∉ name.toList) ∧
    (lookalikeNames.positions.map fun x => x.1.text).Nodup ∧
    ((prunings lookalikeNames).map fun p => p.path.text) =
      ["#/properties/", "#/properties/0", "#/properties/anyOf/anyOf/0",
        "#/properties/items/items/1", "#/properties/properties/properties/properties",
        "#/properties/properties"] ∧
    ((prunings lookalikeNames).map fun p => p.path.text).Nodup ∧
    ∃ c, lookalikeNames.LeadsTo "#/properties/items/items/1" c ∧ compile c = none := by
  have names := fun n hn => (plain_lookalikeNames n hn).1
  have slashes := fun n hn => (plain_lookalikeNames n hn).2
  have element : ⟨[.property "items", .element 1], .noType⟩ ∈ prunings lookalikeNames := by decide
  obtain ⟨located, -, apart⟩ := prunings_located lookalikeNames
  obtain ⟨positions, recorded⟩ := apart names slashes
  exact ⟨names, slashes, positions, by decide, recorded, located _ element⟩

end StrictSchema
