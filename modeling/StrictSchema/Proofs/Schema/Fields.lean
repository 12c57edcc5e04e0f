import StrictSchema.Proofs.Members
import StrictSchema.Proofs.Schema.Rewriting

/-!
# Where the fields of a node are read from

`Schema.just k s` is the node `s` with the keyword `k` and nothing else. What a node that was read
has under a keyword was read from the value of a member of that name, and a keyword that no member
names has what it had before (`Schema.just_of_decodeMembers`). The order of the members does not
come into it.
-/

namespace StrictSchema

open Json

namespace Schema

/-- The node with one of its keywords only. -/
def just (k : Keyword) (s : Schema) : Schema := s.only fun j => j == k

theorem just_without (s : Schema) {j k : Keyword} (h : k ≠ j) :
    (s.without j).just k = s.just k := by
  have hk : (k != j) = true := bne_iff_ne.2 h
  unfold just without only
  cases k <;> simp [hk]

section Read

variable {u s : Schema} {members : List (String × Json)}

/-- A member counts for the keyword that it names. -/
theorem just_of_readMember {u' : Schema} {name : String} {v : Json}
    (h : readMember u name v (readings v) = .ok u') (k : Keyword) :
    name ≠ k.name ∧ u'.just k = u.just k ∨
      name = k.name ∧ readKeyword u v (readings v) k = .ok u' := by
  unfold readMember at h
  split at h
  · next j hj =>
    have hname : j.name = name := Keyword.name_of_ofName? hj
    by_cases same : k = j
    · exact .inr ⟨same ▸ hname.symm, same ▸ h⟩
    · have differs : name ≠ k.name := fun eq => same (Keyword.name_inj (hname.trans eq)).symm
      refine .inl ⟨differs, ?_⟩
      rw [← just_without u' same, (without_readKeyword h).1, just_without u same]
  · next unknown =>
    obtain rfl := Except.ok.inj h
    refine .inl ⟨?_, rfl⟩
    rintro rfl
    rw [Keyword.ofName?_name] at unknown
    cases unknown

/-- A keyword is read from a member of its name, or not at all. -/
theorem just_of_decodeMembers (h : decodeMembers u members = .ok s) (k : Keyword) :
    k.name ∉ Members.names members ∧ s.just k = u.just k ∨
      ∃ v, (k.name, v) ∈ members ∧ ∃ a b, readKeyword a v (readings v) k = .ok b ∧
        s.just k = b.just k := by
  induction members generalizing u with
  | nil =>
    obtain rfl := Except.ok.inj h
    exact .inl ⟨List.not_mem_nil, rfl⟩
  | cons m rest ih =>
    obtain ⟨u', hread, hdecode⟩ := bind_eq_ok h
    rcases ih hdecode with ⟨absent, same⟩ | ⟨v, mem, a, b, read, same⟩
    · rcases just_of_readMember hread k with ⟨differs, before⟩ | ⟨named, read⟩
      · refine .inl ⟨?_, same.trans before⟩
        exact List.not_mem_cons_of_ne_of_not_mem (Ne.symm differs) absent
      · exact .inr ⟨m.2, named ▸ List.mem_cons_self, u, u', read, same⟩
    · exact .inr ⟨v, List.mem_cons_of_mem _ mem, a, b, read, same⟩

/-- Unknown members are kept in order. -/
theorem extra_of_decodeMembers (h : decodeMembers u members = .ok s) :
    s.extra = u.extra ++ unknownMembers members :=
  (written_decodeMembers (fun m _ => isNormal m.2) h).2

end Read

/-! ## Lists and maps of nodes -/

theorem decodeEachNode_eq_ok_iff {vs : List Json} {cs : List Schema} :
    decodeEachNode vs = .ok cs ↔ List.Forall₂ (fun v c => decode v = .ok c) vs cs := by
  induction vs generalizing cs with
  | nil => simp [decodeEachNode, eq_comm]
  | cons v vs ih =>
    constructor
    · intro h
      obtain ⟨c, hc, htail⟩ := bind_eq_ok h
      obtain ⟨ds, hds, rfl⟩ := map_eq_ok htail
      exact .cons hc (ih.1 hds)
    · rintro (_ | ⟨hc, hds⟩)
      rw [decodeEachNode, hc, ih.2 hds]
      rfl

theorem decodeNamedNodes_eq_ok_iff {members : List (String × Json)}
    {ps : List (String × Schema)} : decodeNamedNodes members = .ok ps ↔
      List.Forall₂ (fun m p => m.1 = p.1 ∧ decode m.2 = .ok p.2) members ps := by
  induction members generalizing ps with
  | nil => simp [decodeNamedNodes, eq_comm]
  | cons m members ih =>
    constructor
    · intro h
      obtain ⟨c, hc, htail⟩ := bind_eq_ok h
      obtain ⟨qs, hqs, rfl⟩ := map_eq_ok htail
      exact .cons ⟨rfl, hc⟩ (ih.1 hqs)
    · rintro (_ | ⟨⟨name, hc⟩, hqs⟩)
      rw [decodeNamedNodes, hc, ih.2 hqs, name]
      rfl

theorem decodeNodes_eq_ok_iff {v : Json} {cs : List Schema} : decodeNodes v = .ok cs ↔
    ∃ vs, v = .array vs ∧ List.Forall₂ (fun v c => decode v = .ok c) vs cs := by
  cases v with
  | array vs => simp [decodeNodes, decodeEachNode_eq_ok_iff]
  | _ =>
    constructor
    · intro read
      cases read
    · rintro ⟨_, ⟨⟩, -⟩

theorem decodeNodeMap_eq_ok_iff {v : Json} {ps : List (String × Schema)} :
    decodeNodeMap v = .ok ps ↔ ∃ members, v = .object members ∧
      List.Forall₂ (fun m p => m.1 = p.1 ∧ decode m.2 = .ok p.2) members ps := by
  cases v with
  | object members => simp [decodeNodeMap, decodeNamedNodes_eq_ok_iff]
  | _ =>
    constructor
    · intro read
      cases read
    · rintro ⟨_, ⟨⟩, -⟩

/-! ## The fields that hold children and examples -/

section Fields

variable {s : Schema} {members : List (String × Json)} (h : decode (.object members) = .ok s)
include h

theorem anyOf_of_decode :
    s.anyOf = [] ∨ ∃ v, ("anyOf", v) ∈ members ∧ decodeNodes v = .ok s.anyOf := by
  rcases just_of_decodeMembers h .anyOf with ⟨-, same⟩ | ⟨v, mem, a, b, read, same⟩
  · exact .inl (congrArg anyOf same)
  · obtain ⟨cs, hcs, rfl⟩ := map_eq_ok read
    have field : s.anyOf = cs := congrArg anyOf same
    exact .inr ⟨v, mem, field ▸ hcs⟩

theorem properties_of_decode :
    s.properties = [] ∨ ∃ v, ("properties", v) ∈ members ∧ decodeNodeMap v = .ok s.properties := by
  rcases just_of_decodeMembers h .properties with ⟨-, same⟩ | ⟨v, mem, a, b, read, same⟩
  · exact .inl (congrArg properties same)
  · obtain ⟨ps, hps, rfl⟩ := map_eq_ok read
    have field : s.properties = ps := congrArg properties same
    exact .inr ⟨v, mem, field ▸ hps⟩

theorem items_of_decode {items : Items Schema} (hitems : s.items = some items) :
    ∃ v, ("items", v) ∈ members ∧ readItems v (readings v) = .ok items := by
  rcases just_of_decodeMembers h .items with ⟨-, same⟩ | ⟨v, mem, a, b, read, same⟩
  · have field : s.items = none := congrArg Schema.items same
    rw [field] at hitems
    cases hitems
  · obtain ⟨found, hread, rfl⟩ := map_eq_ok read
    have field : s.items = found := congrArg Schema.items same
    rw [← field, hitems] at hread
    rcases unlessNull_eq_ok hread with ⟨-, none⟩ | ⟨-, i, hi, eq⟩
    · cases none
    · cases eq
      exact ⟨v, mem, hi⟩

theorem examples_of_decode :
    s.examples = [] ∨ ("examples", .array s.examples) ∈ members := by
  rcases just_of_decodeMembers h .examples with ⟨-, same⟩ | ⟨v, mem, a, b, read, same⟩
  · exact .inl (congrArg examples same)
  · obtain ⟨vs, hvs, rfl⟩ := map_eq_ok read
    have field : s.examples = vs := congrArg examples same
    rw [eq_array_of_decodeList hvs, ← field] at mem
    exact .inr mem

end Fields

end Schema

end StrictSchema
