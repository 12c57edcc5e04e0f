import StrictSchema.Proofs.Schema.Nodes

/-!
# Places in a schema

A `Frame` is a node with one of its children taken out, and a `Context` is a whole schema with one
node taken out, as the frames on the way from that node to the root. Filling the open place with `c`
gives a schema in which `c` is a node, and all nodes of all schemas arise in this way
(`isNode_iff_exists_fill`). A frame whose child may go altogether can also be closed
(`Frame.close?`).
-/

namespace StrictSchema

/-- A node with one child taken out of its alternatives, properties or items; `s` says all the
rest. -/
inductive Frame where
  | alternative (s : Schema) (before after : List Schema)
  | property (s : Schema) (before : List (String × Schema)) (name : String)
      (after : List (String × Schema))
  | item (s : Schema)
  | element (s : Schema) (before after : List Schema)

namespace Frame

/-- The node with `c` for the missing child. -/
def fill : Frame → Schema → Schema
  | alternative s before after, c => { s with anyOf := before ++ c :: after }
  | property s before name after, c => { s with properties := before ++ (name, c) :: after }
  | item s, c => { s with items := some (.single c) }
  | element s before after, c => { s with items := some (.tuple (before ++ c :: after)) }

/-- The node without the missing child. The schema of all elements cannot be left out, and the only
alternative cannot either: a node without alternatives is not a choice any more. -/
def close? : Frame → Option Schema
  | alternative s before after =>
    if before ++ after = [] then none else some { s with anyOf := before ++ after }
  | property s before _ after => some { s with properties := before ++ after }
  | item _ => none
  | element s before after => some { s with items := some (.tuple (before ++ after)) }

end Frame

/-- The frames around a node, the innermost first. -/
abbrev Context := List Frame

/-- The schema with `c` for the missing node. -/
def Context.fill : Context → Schema → Schema
  | [], c => c
  | F :: K, c => Context.fill K (F.fill c)

namespace Schema

theorem isChild_iff_exists_fill {s c : Schema} : IsChild s c ↔ ∃ F : Frame, F.fill c = s := by
  constructor
  · intro h
    cases h with
    | alternative hc =>
      obtain ⟨before, after, h⟩ := List.append_of_mem hc
      refine ⟨.alternative s before after, ?_⟩
      rw [Frame.fill, ← h]
      cases s
      rfl
    | @property name _ hc =>
      obtain ⟨before, after, h⟩ := List.append_of_mem hc
      refine ⟨.property s before name after, ?_⟩
      rw [Frame.fill, ← h]
      cases s
      rfl
    | item hc =>
      refine ⟨.item s, ?_⟩
      rw [Frame.fill, ← hc]
      cases s
      rfl
    | element hcs hc =>
      obtain ⟨before, after, rfl⟩ := List.append_of_mem hc
      refine ⟨.element s before after, ?_⟩
      rw [Frame.fill, ← hcs]
      cases s
      rfl
  · rintro ⟨F, rfl⟩
    cases F with
    | alternative s before after => exact .alternative (List.mem_append_right _ List.mem_cons_self)
    | property s before name after => exact .property (List.mem_append_right _ List.mem_cons_self)
    | item s => exact .item rfl
    | element s before after => exact .element rfl (List.mem_append_right _ List.mem_cons_self)

/-- The nodes of a schema are what stands at the open places of its contexts. -/
theorem isNode_iff_exists_fill {s c : Schema} : IsNode s c ↔ ∃ K : Context, K.fill c = s := by
  constructor
  · intro h
    induction h with
    | refl => exact ⟨[], rfl⟩
    | tail _ hc ih =>
      obtain ⟨K, rfl⟩ := ih
      obtain ⟨F, rfl⟩ := isChild_iff_exists_fill.1 hc
      exact ⟨F :: K, rfl⟩
  · rintro ⟨K, rfl⟩
    induction K generalizing c with
    | nil => exact .refl c
    | cons F K ih => exact (ih (c := F.fill c)).tail (isChild_iff_exists_fill.2 ⟨F, rfl⟩)

end Schema

end StrictSchema
