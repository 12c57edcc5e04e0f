import StrictSchema.Compilation.Pruning

/-!
# Compilation into the strict dialect

The strict dialect is what structured output accepts: every property of an object is required, one
that was optional admits null instead; objects reject all other names; only the supported types and
formats stand; and `anyOf` is the only way to combine schemas. `compile s` is the form of `s` in
this dialect, or none. A child without such a form is dropped and its siblings stay; `prunings s`
lists the nodes that are dropped, children before their parent. Both are read off one pass over the
nodes (`compileAt`), which settles the types, the forbidden keywords and the format of a node
(`Schema.strictTypes`) before it looks at its children.
-/

namespace StrictSchema

/-! ## Single nodes -/

/-- The names that structured output knows: one stands alone, several make a list. -/
def TypeTags.resolve (t : TypeTags) : Option TypeTags :=
  match t.names.filter supportedTypes.contains with
  | [] => none
  | [name] => some (.single name)
  | names => some (.many names)

/-- The type names with null among them. -/
def TypeTags.withNull (t : TypeTags) : TypeTags :=
  match t.scalar with
  | some name => if name = "null" then t else .many [name, "null"]
  | none => if t.contains "null" then t else { t with list := t.list ++ ["null"] }

namespace Schema

/-- The keywords that no node of the dialect has, each with whether this node has it. -/
def forbiddenKeywords (s : Schema) : List (Keyword × Bool) :=
  [(.const, s.const.isSome), (.contains, s.contains.isSome), (.uniqueItems, s.uniqueItems),
    (.deprecated, s.deprecated), (.readOnly, s.readOnly),
    (.patternProperties, s.patternProperties.isSome),
    (.additionalItems, s.additionalItems.isSome), (.allOf, s.allOf.isSome),
    (.oneOf, s.oneOf.isSome), (.prefixItems, s.prefixItems.isSome)]

/-- The first forbidden keyword of a node. -/
def forbidden? (s : Schema) : Option Keyword :=
  (s.forbiddenKeywords.find? Prod.snd).map Prod.fst

/-- The format of a node; the empty one is none. -/
def usedFormat (s : Schema) : Option String := s.format.filter fun f => !f.isEmpty

/-- The types that a node has in the dialect, if neither they, nor a forbidden keyword, nor its
format rule it out. -/
def strictTypes (s : Schema) : Except Reason TypeTags :=
  match s.types.resolve with
  | none => .error .noType
  | some types =>
    match s.forbidden? with
    | some keyword => .error (.forbidden keyword)
    | none =>
      match s.usedFormat with
      | none => .ok types
      | some format =>
        if supportedFormats.contains format then .ok types else .error (.unknownFormat format)

/-- The node with null among its values: as a further alternative, or as a further type. -/
def withNull (s : Schema) : Schema :=
  if s.isChoice then
    if s.anyOf.any fun alternative => alternative.types.isNullOnly then s
    else { s with anyOf := s.anyOf ++ [.ofType "null"] }
  else { s with types := s.types.withNull }

/-- The node of the dialect with the given types and children; bounds, format and examples are those
of `s`. -/
def rebuild (s : Schema) (types : TypeTags) (properties : List (String × Schema))
    (items : Option (Items Schema)) : Schema where
  types := types
  limits := s.limits
  format := s.usedFormat
  items := items
  properties := properties
  required := Members.names properties
  additionalProperties := if types.contains "object" then some .nothing else none
  examples := s.examples

end Schema

/-! ## Trees -/

/-- A result with the prunings that led to it. -/
structure Traced (α : Type) where
  value : α
  prunings : List Pruning := []

namespace Traced

variable {α β : Type}

/-- The dropping of the node at `path`, after what was pruned below it. -/
def drop (t : Traced α) (path : Path) (reason : Reason) : Traced (Option Schema) :=
  ⟨none, t.prunings ++ [⟨path, reason⟩]⟩

/-- The value of `u` after that of `t`, with the prunings of both. -/
def followedBy (t : Traced α) (u : Traced β) : Traced β := ⟨u.value, t.prunings ++ u.prunings⟩

end Traced

/-- The node at `path` with the given items, if there are any; the rest of the work on it. -/
def withItems (path : Path) (s : Schema) (types : TypeTags)
    (kept : Traced (List (String × Schema))) (items : Traced (Except Reason (Items Schema))) :
    Traced (Option Schema) :=
  let both := kept.followedBy items
  match both.value with
  | .error reason => both.drop path reason
  | .ok items => ⟨some (s.rebuild types kept.value (some items)), both.prunings⟩

/-- The node at `path` without alternatives, given what becomes of its properties and items. These
count only if its types ask for them. -/
def assembleNode (path : Path) (s : Schema) (properties : Traced (List (String × Schema)))
    (items : Traced (Except Reason (Items Schema))) : Traced (Option Schema) :=
  match s.strictTypes with
  | .error reason => ⟨none, [⟨path, reason⟩]⟩
  | .ok types =>
    let kept := if types.contains "object" then properties else ⟨[], []⟩
    if types.contains "object" && kept.value.isEmpty then kept.drop path .noProperty
    else if types.contains "array" then withItems path s types kept items
    else ⟨some (s.rebuild types kept.value none), kept.prunings⟩

/-- The node at `path` that stands for the alternatives that are left. -/
def assembleChoice (path : Path) (kept : Traced (List Schema)) : Traced (Option Schema) :=
  if kept.value.isEmpty then kept.drop path .noAlternative
  else ⟨some (.ofAlternatives kept.value), kept.prunings⟩

/-- The one schema of all elements, if it has a form. -/
def assembleItem (item : Traced (Option Schema)) : Traced (Except Reason (Items Schema)) :=
  match item.value with
  | none => ⟨.error .badItem, item.prunings⟩
  | some s => ⟨.ok (.single s), item.prunings⟩

/-- The tuple of the elements that are left. -/
def assembleTuple (kept : Traced (List Schema)) : Traced (Except Reason (Items Schema)) :=
  if kept.value.isEmpty then ⟨.error .noElement, kept.prunings⟩
  else ⟨.ok (.tuple kept.value), kept.prunings⟩

/-- The list with a child in front, if it has a form. -/
def Traced.consSome {α : Type} (child : Traced (Option α)) (others : Traced (List α)) :
    Traced (List α) :=
  ⟨child.value.toList ++ others.value, child.prunings ++ others.prunings⟩

/-- The property of a child that has a form; one that is not required admits null. -/
def Traced.asProperty (name : String) (isRequired : Bool) (child : Traced (Option Schema)) :
    Traced (Option (String × Schema)) :=
  ⟨child.value.map fun s => (name, if isRequired then s else s.withNull), child.prunings⟩

mutual

/-- The form in the dialect of the node at `path`. -/
def compileAt (path : Path) : Schema → Traced (Option Schema)
  | s@{ anyOf, items, properties, required, .. } =>
    if anyOf.isEmpty then
      assembleNode path s (compileProperties path required properties) (compileItems path items)
    else assembleChoice path (compileAlternatives path 0 anyOf)
termination_by structural s => s

/-- The forms of the alternatives from `index` on that have one. -/
def compileAlternatives (path : Path) (index : Nat) : List Schema → Traced (List Schema)
  | [] => ⟨[], []⟩
  | s :: rest =>
    (compileAt (path ++ [.alternative index]) s).consSome
      (compileAlternatives path (index + 1) rest)
termination_by structural ss => ss

/-- The form of the items, or why there is none. -/
def compileItems (path : Path) : Option (Items Schema) → Traced (Except Reason (Items Schema))
  | none => ⟨.error .noItems, []⟩
  | some (.single s) => assembleItem (compileAt (path ++ [.item]) s)
  | some (.tuple ss) => assembleTuple (compileElements path 0 ss)
termination_by structural items => items

/-- The forms of the elements of a tuple from `index` on that have one. -/
def compileElements (path : Path) (index : Nat) : List Schema → Traced (List Schema)
  | [] => ⟨[], []⟩
  | s :: rest =>
    (compileAt (path ++ [.element index]) s).consSome (compileElements path (index + 1) rest)
termination_by structural ss => ss

/-- The properties that have a form; those that are not required admit null. -/
def compileProperties (path : Path) (required : List String) :
    List (String × Schema) → Traced (List (String × Schema))
  | [] => ⟨[], []⟩
  | (name, s) :: rest =>
    ((compileAt (path ++ [.property name]) s).asProperty name (required.contains name)).consSome
      (compileProperties path required rest)
termination_by structural ss => ss

end

/-- The form of a schema in the strict dialect. -/
def compile (s : Schema) : Option Schema := (compileAt [] s).value

/-- The nodes that compilation drops, in the order in which it drops them. -/
def prunings (s : Schema) : List Pruning := (compileAt [] s).prunings

/-- The form of a schema that may be absent. -/
def compileOptional (s : Option Schema) : Option Schema := s.bind compile

end StrictSchema
