import Mathlib.Data.List.TakeWhile
import StrictSchema.Proofs.Settings.Groups
import StrictSchema.Proofs.Text.LowerCase
import StrictSchema.Proofs.Text.Split
import StrictSchema.Settings.Environment

/-!
# Keys of settings

A key of a document leads to a group if it is the name of the group in any case, and to a setting if
it is the names of its group and itself with a dot between them (`KeyPath.ofKey_eq_group_iff`,
`KeyPath.ofKey_eq_setting_iff`). The variables for a setting have both names after the mark of the
program, with two underscores or a dot between them (`keyOfVariable?_eq_setting_iff`).
-/

namespace StrictSchema

/-! ## Characters of paths -/

theorem toNat_lt_of_isPathChar {c : Char} (h : isPathChar c) : c.toNat < 128 := by
  have below {last : Char} (h : c.val ≤ last.val) : c.toNat ≤ last.toNat :=
    UInt32.le_iff_toNat_le.1 h
  rw [isPathChar, Bool.or_eq_true, Bool.or_eq_true, Bool.or_eq_true, decide_eq_true_eq,
    decide_eq_true_eq, decide_eq_true_eq] at h
  rcases h with ((h | rfl) | rfl) | rfl
  · rcases Bool.or_eq_true_iff.1 h with letter | digit
    · rcases Bool.or_eq_true_iff.1 letter with upper | lower
      · exact (below (of_decide_eq_true upper).2).trans_lt (by decide)
      · exact (below (of_decide_eq_true (Bool.and_eq_true_iff.1 lower).2)).trans_lt (by decide)
    · exact (below (of_decide_eq_true (Bool.and_eq_true_iff.1 digit).2)).trans_lt (by decide)
  all_goals decide

namespace KeyPath

variable {key group name : String} {count : Nat} {cs : List Char} {steps : KeyPath}

/-! ## Keys of documents -/

/-- A step with its name in lower case. -/
def lowered : KeyStep → KeyStep
  | .name s => .name (Text.lowerCase s)
  | .index n => .index n

/-- Steps after a name start with a dot and a name, or with an index in brackets. -/
theorem moreSteps?_cases (h : moreSteps? count cs = some steps) :
    (cs = [] ∧ steps = []) ∨
      (∃ count rest more, cs = '.' :: rest ∧
        moreSteps? count (rest.dropWhile isPathChar) = some more ∧
        steps = .name (String.ofList (rest.takeWhile isPathChar)) :: more) ∨
      ∃ rest n more, cs = '[' :: rest ∧ steps = .index n :: more := by
  rcases cs with _ | ⟨c, rest⟩
  · cases count <;> exact .inl ⟨rfl, (Option.some.inj h).symm⟩
  rcases count with _ | count
  · cases h
  by_cases dot : c = '.'
  · subst dot
    obtain ⟨-, h⟩ := Option.ite_none_left_eq_some.1 h
    obtain ⟨more, found, rfl⟩ := Option.map_eq_some_iff.1 h
    exact .inr (.inl ⟨count, rest, more, rfl, found, rfl⟩)
  by_cases bracket : c = '['
  · subst bracket
    rw [moreSteps?] at h
    cases inside : Text.cut ']' rest with
    | none => simp [inside] at h
    | some parts =>
      rw [inside] at h
      obtain ⟨n, -, h⟩ := Option.bind_eq_some_iff.1 h
      obtain ⟨more, -, rfl⟩ := Option.map_eq_some_iff.1 h
      exact .inr (.inr ⟨rest, n, more, rfl, rfl⟩)
  · rw [moreSteps?] at h
    · cases h
    · exact dot
    · exact bracket

theorem eq_nil_of_moreSteps? (h : moreSteps? count cs = some []) : cs = [] := by
  rcases moreSteps?_cases h with ⟨rfl, -⟩ | ⟨_, _, _, -, -, same⟩ | ⟨_, _, _, -, same⟩
  · rfl
  · cases same
  · cases same

/-- A single name follows a dot. -/
theorem eq_cons_of_moreSteps? {s : String} (h : moreSteps? count cs = some [.name s]) :
    ∃ n, cs = '.' :: n ∧ (∀ c ∈ n, isPathChar c) ∧ s = String.ofList n := by
  rcases moreSteps?_cases h with ⟨-, same⟩ | ⟨_, rest, more, rfl, found, same⟩ | ⟨_, _, _, -, same⟩
  · cases same
  · cases same
    have plain := List.dropWhile_eq_nil_iff.1 (eq_nil_of_moreSteps? found)
    exact ⟨rest, rfl, plain, congrArg String.ofList (List.takeWhile_eq_self_iff.2 plain)⟩
  · cases same

theorem ofKey_eq (key : String) :
    ofKey key = ((if (key.toList.takeWhile isPathChar).isEmpty then none
      else (moreSteps? key.toList.length (key.toList.dropWhile isPathChar)).map
        (KeyStep.name (String.ofList (key.toList.takeWhile isPathChar)) :: ·)).getD
          [.name key]).map lowered := by
  rw [ofKey]
  refine congrArg (fun f => List.map f _) (funext fun step => ?_)
  cases step <;> rfl

/-- A key is a path that starts with a plain name, or it is a single name. -/
theorem ofKey_eq_or (key : String) :
    (∃ steps, moreSteps? key.toList.length (key.toList.dropWhile isPathChar) = some steps ∧
        ofKey key = .name (Text.lowerCase (String.ofList (key.toList.takeWhile isPathChar))) ::
          steps.map lowered) ∨
      ofKey key = [.name (Text.lowerCase key)] := by
  rw [ofKey_eq]
  split
  · exact .inr rfl
  · cases found : moreSteps? key.toList.length (key.toList.dropWhile isPathChar) with
    | none => exact .inr rfl
    | some steps => exact .inl ⟨steps, rfl, rfl⟩

/-- A key leads to a group if it is the name of the group in any case. -/
theorem ofKey_eq_group_iff (plain : '.' ∉ group.toList ∧ '[' ∉ group.toList) :
    ofKey key = [.name group] ↔ Text.lowerCase key = group := by
  constructor
  · intro h
    rcases ofKey_eq_or key with ⟨steps, found, path⟩ | single
    · obtain ⟨same, nil⟩ := List.cons.inj (path.symm.trans h)
      obtain rfl := List.map_eq_nil_iff.1 nil
      have all := List.takeWhile_eq_self_iff.2
        (List.dropWhile_eq_nil_iff.1 (eq_nil_of_moreSteps? found))
      rw [all, String.ofList_toList] at same
      exact KeyStep.name.inj same
    · exact KeyStep.name.inj (List.cons.inj (single.symm.trans h)).1
  · rintro rfl
    rcases ofKey_eq_or key with ⟨steps, found, path⟩ | single
    · have kept {c : Char} {rest : List Char} (split : key.toList.dropWhile isPathChar = c :: rest)
          (basic : c.toNat < 128) (small : ¬ Text.IsCapital c) :
          c ∈ (Text.lowerCase key).toList :=
        Text.mem_lowerCase (List.dropWhile_subset isPathChar (split ▸ List.mem_cons_self)) basic
          small
      rcases moreSteps?_cases found with ⟨nil, rfl⟩ | ⟨_, _, _, dot, -⟩ | ⟨_, _, _, bracket, -⟩
      · rw [List.takeWhile_eq_self_iff.2 (List.dropWhile_eq_nil_iff.1 nil),
          String.ofList_toList] at path
        exact path
      · exact absurd (kept dot (by decide) (by decide)) plain.1
      · exact absurd (kept bracket (by decide) (by decide)) plain.2
    · exact single

/-- Whether a key is the names of a group and of a setting in it, in any case, with a dot between
them. -/
def IsPathTo (group name key : String) : Prop :=
  ∃ parts ∈ Text.cut '.' key.toList, (parts.1 ++ parts.2).all isPathChar ∧
    Text.lowerCase (String.ofList parts.1) = group ∧ Text.lowerCase (String.ofList parts.2) = name

instance (group name : String) : DecidablePred (IsPathTo group name) := fun key =>
  inferInstanceAs (Decidable (∃ parts ∈ Text.cut '.' key.toList, _))

theorem ofKey_eq_setting_iff (named : group ≠ "" ∧ name ≠ "") :
    ofKey key = [.name group, .name name] ↔ IsPathTo group name key := by
  constructor
  · intro h
    rcases ofKey_eq_or key with ⟨steps, found, path⟩ | single
    · obtain ⟨same, rest⟩ := List.cons.inj (path.symm.trans h)
      obtain ⟨step, rfl, lower⟩ := List.map_eq_singleton_iff.1 rest
      cases step with
      | index n => cases lower
      | name s =>
        obtain ⟨n, split, plain, rfl⟩ := eq_cons_of_moreSteps? found
        have parts : key.toList.takeWhile isPathChar ++ '.' :: n = key.toList :=
          split ▸ List.takeWhile_append_dropWhile
        have first : ∀ c ∈ key.toList.takeWhile isPathChar, isPathChar c :=
          fun c mem => List.mem_takeWhile_imp mem
        have cut : Text.cut '.' (key.toList.takeWhile isPathChar ++ '.' :: n) = some (_, n) :=
          Text.cut_append fun mem => absurd (first '.' mem) (by decide)
        rw [parts] at cut
        exact ⟨_, cut, List.all_eq_true.2 (List.forall_mem_append.2 ⟨first, plain⟩),
          KeyStep.name.inj same, KeyStep.name.inj lower⟩
    · exact absurd (single.symm.trans h) (by simp)
  · rintro ⟨⟨g, n⟩, cut, plain, rfl, rfl⟩
    obtain ⟨first, second⟩ := List.forall_mem_append.1 (List.all_eq_true.1 plain)
    have parts : key.toList = g ++ '.' :: n := Text.eq_of_cut cut
    have filled {cs : List Char} (h : Text.lowerCase (String.ofList cs) ≠ "") :
        cs.isEmpty = false := by
      cases cs with
      | nil => exact absurd rfl h
      | cons => rfl
    have more (count : Nat) :
        moreSteps? (count + 1) ('.' :: n) = some [.name (String.ofList n)] := by
      simp only [moreSteps?, List.takeWhile_eq_self_iff.2 second,
        List.dropWhile_eq_nil_iff.2 second, filled named.2]
      cases count <;> rfl
    have steps : moreSteps? key.toList.length ('.' :: n) = some [.name (String.ofList n)] := by
      rw [parts, List.length_append, List.length_cons, ← Nat.add_assoc]
      exact more _
    have before : key.toList.takeWhile isPathChar = g := by
      rw [parts, List.takeWhile_append_of_pos first]
      exact List.append_nil g
    have after : key.toList.dropWhile isPathChar = '.' :: n := by
      rw [parts, List.dropWhile_append_of_pos first]
      rfl
    rw [ofKey_eq, before, after, steps, filled named.1]
    rfl

end KeyPath

/-! ## Names of variables -/

/-- Whether the name of a variable starts, in any case, with the mark of the program. -/
def IsMarked (key : String) : Prop := "narrative_schemas__".toList <+: (Text.lowerCase key).toList

instance : DecidablePred IsMarked := fun _ => inferInstanceAs (Decidable (_ <+: _))

theorem keyOfVariable?_eq_none {key : String} (other : ¬ IsMarked key) :
    keyOfVariable? key = none :=
  if_neg fun marked => other (List.isPrefixOf_iff_prefix.1 marked)

/-- Whether a variable is for a setting: its name is, in any case, the mark of the program and the
names of the group and of the setting, with two underscores or a dot between these two. -/
def IsVariableFor (group name key : String) : Prop :=
  Text.lowerCase key = "narrative_schemas__" ++ group ++ "__" ++ name ∨
    Text.lowerCase key = "narrative_schemas__" ++ group ++ "." ++ name

instance (group name : String) : DecidablePred (IsVariableFor group name) := fun _ =>
  inferInstanceAs (Decidable (_ ∨ _))

theorem mem_of_mem_dotted {c : Char} {cs : List Char} (mem : c ∈ dotted cs) : c ∈ cs ∨ c = '.' := by
  fun_induction dotted cs with
  | case1 cs ih =>
    rcases List.mem_cons.1 mem with rfl | mem
    · exact .inr rfl
    · exact (ih mem).imp_left fun mem => List.mem_cons_of_mem _ (List.mem_cons_of_mem _ mem)
  | case2 d cs _ ih =>
    rcases List.mem_cons.1 mem with rfl | mem
    · exact .inl List.mem_cons_self
    · exact (ih mem).imp_left (List.mem_cons_of_mem _)
  | case3 => cases mem

/-- Without a dot, nothing was exchanged for one. -/
theorem eq_of_dotted {cs : List Char} (h : '.' ∉ dotted cs) : dotted cs = cs := by
  fun_induction dotted cs with
  | case1 cs ih => exact absurd List.mem_cons_self h
  | case2 d cs _ ih => rw [ih fun mem => h (List.mem_cons_of_mem _ mem)]
  | case3 => rfl

/-- A single dot was one before, or it was two underscores. -/
theorem eq_of_dotted_eq {cs before after : List Char} (h : dotted cs = before ++ '.' :: after)
    (first : '.' ∉ before) (second : '.' ∉ after) :
    cs = before ++ '_' :: '_' :: after ∨ cs = before ++ '.' :: after := by
  fun_induction dotted cs generalizing before with
  | case1 cs ih =>
    cases before with
    | nil =>
      obtain ⟨-, rest⟩ := List.cons.inj h
      have plain : '.' ∉ dotted cs := rest ▸ second
      exact .inl (congrArg ('_' :: '_' :: ·) ((eq_of_dotted plain).symm.trans rest))
    | cons c before =>
      obtain ⟨rfl, -⟩ := List.cons.inj h
      exact absurd List.mem_cons_self first
  | case2 d cs _ ih =>
    cases before with
    | nil =>
      obtain ⟨rfl, rest⟩ := List.cons.inj h
      have plain : '.' ∉ dotted cs := rest ▸ second
      exact .inr (congrArg ('.' :: ·) ((eq_of_dotted plain).symm.trans rest))
    | cons c before =>
      obtain ⟨rfl, rest⟩ := List.cons.inj h
      exact (ih rest fun mem => first (List.mem_cons_of_mem _ mem)).imp (congrArg (d :: ·))
        (congrArg (d :: ·))
  | case3 => exact absurd h (by simp)

section Names

variable {α : Type} (x : Setting α)

theorem lowerCase_of_isPathChar {s : String} (plain : s.toList.all isPathChar)
    (small : s.toList.all fun c => !Text.IsCapital c) : Text.lowerCase s = s := by
  have same := Text.lowerCase_eq_self
    (fun c mem => toNat_lt_of_isPathChar (List.all_eq_true.1 plain c mem))
    fun c mem => by simpa using List.all_eq_true.1 small c mem
  rwa [String.ofList_toList] at same

theorem Setting.lowerCase_group : Text.lowerCase x.group = x.group :=
  lowerCase_of_isPathChar (by cases x <;> decide) (by cases x <;> decide)

theorem Setting.lowerCase_name : Text.lowerCase x.name = x.name :=
  lowerCase_of_isPathChar (by cases x <;> decide) (by cases x <;> decide)

theorem Setting.ofKey_eq_group_iff {key : String} :
    KeyPath.ofKey key = [.name x.group] ↔ Text.lowerCase key = x.group :=
  KeyPath.ofKey_eq_group_iff (by cases x <;> decide)

theorem Setting.ofKey_eq_setting_iff {key : String} :
    KeyPath.ofKey key = [.name x.group, .name x.name] ↔ KeyPath.IsPathTo x.group x.name key :=
  KeyPath.ofKey_eq_setting_iff (by cases x <;> decide)

theorem isPathTo_names : KeyPath.IsPathTo x.group x.name (x.group ++ "." ++ x.name) := by
  refine ⟨(x.group.toList, x.name.toList), ?_, ?_, ?_, ?_⟩
  · cases x <;> decide
  · cases x <;> decide
  · rw [String.ofList_toList, x.lowerCase_group]
  · rw [String.ofList_toList, x.lowerCase_name]

theorem dotted_names :
    dotted (x.group ++ "__" ++ x.name).toList = (x.group ++ "." ++ x.name).toList ∧
      dotted (x.group ++ "." ++ x.name).toList = (x.group ++ "." ++ x.name).toList := by
  cases x <;> decide

theorem keyOfVariable?_of_lowerCase {key rest : String}
    (h : Text.lowerCase key = variableMark ++ rest) :
    keyOfVariable? key = some (KeyPath.ofKey (String.ofList (dotted rest.toList))) := by
  have marked : variableMark.toList.isPrefixOf (variableMark ++ rest).toList := by
    rw [String.toList_append]
    exact List.isPrefixOf_iff_prefix.2 (List.prefix_append _ _)
  rw [keyOfVariable?, h]
  refine (if_pos marked).trans ?_
  rw [String.toList_append, List.drop_left]

/-- The variables for a setting have its place. -/
theorem keyOfVariable?_eq_setting_iff {key : String} :
    keyOfVariable? key = some [.name x.group, .name x.name] ↔ IsVariableFor x.group x.name key := by
  constructor
  · intro h
    obtain ⟨marked, path⟩ := Option.ite_none_right_eq_some.1 h
    obtain ⟨rest, split⟩ := List.isPrefixOf_iff_prefix.1 marked
    rw [← split, List.drop_left] at path
    obtain ⟨⟨g, n⟩, cut, plain, group, name⟩ :=
      x.ofKey_eq_setting_iff.1 (Option.some.inj path)
    rw [String.toList_ofList] at cut
    have parts := Text.eq_of_cut cut
    -- What is left of a name in lower case has no capital letters to put in lower case again.
    have same {cs : List Char} (part : ∀ c ∈ cs, c ∈ dotted rest ∧ isPathChar c) :
        Text.lowerCase (String.ofList cs) = String.ofList cs := by
      refine Text.lowerCase_eq_self (fun c mem => toNat_lt_of_isPathChar (part c mem).2) ?_
      intro c mem
      rcases mem_of_mem_dotted (part c mem).1 with inside | rfl
      · exact Text.not_isCapital_of_mem_lowerCase (split ▸ List.mem_append_right _ inside)
      · decide
    obtain ⟨first, second⟩ := List.forall_mem_append.1 (List.all_eq_true.1 plain)
    have hg : g = x.group.toList := by
      rw [← group, same fun c mem => ⟨parts ▸ List.mem_append_left _ mem, first c mem⟩,
        String.toList_ofList]
    have hn : n = x.name.toList := by
      rw [← name, same fun c mem =>
        ⟨parts ▸ List.mem_append_right _ (List.mem_cons_of_mem _ mem), second c mem⟩,
        String.toList_ofList]
    have noDot {cs : List Char} (plain : ∀ c ∈ cs, isPathChar c) : '.' ∉ cs := fun mem =>
      absurd (plain '.' mem) (by decide)
    have marks := eq_of_dotted_eq parts (noDot first) (noDot second)
    subst hg hn
    refine marks.imp (fun here => ?_) (fun here => ?_)
    all_goals
      rw [← String.toList_inj, ← split, here]
      simp [variableMark]
  · intro h
    have path := x.ofKey_eq_setting_iff.2 (isPathTo_names x)
    have marked (separator : String) :
        "narrative_schemas__" ++ x.group ++ separator ++ x.name =
          variableMark ++ (x.group ++ separator ++ x.name) := by
      simp only [String.append_assoc, variableMark]
    rcases h with h | h
    · rw [keyOfVariable?_of_lowerCase (h.trans (marked "__")), (dotted_names x).1,
        String.ofList_toList, path]
    · rw [keyOfVariable?_of_lowerCase (h.trans (marked ".")), (dotted_names x).2,
        String.ofList_toList, path]

end Names

end StrictSchema
