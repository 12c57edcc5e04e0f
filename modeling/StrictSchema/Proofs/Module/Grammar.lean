import Mathlib.Computability.Language
import Mathlib.Data.List.Chain
import StrictSchema.Module.Reference
import StrictSchema.Proofs.Text.Split

/-!
# The grammar of module references

The texts of references are a regular language (`ModuleGrammar.reference`), and so are the texts of
their parts. The tests of the parts recognize these languages (`ModuleGrammar.isName_iff` and so
on). Names are the texts in which single hyphens stand between other characters
(`ModuleGrammar.isHyphenated_iff`).
-/

namespace StrictSchema

open scoped Computability

namespace ModuleGrammar

/-! ## The language -/

/-- One or more characters of a class. -/
def oneOrMore (p : Char → Prop) : Language Char := {cs | cs ≠ [] ∧ ∀ c ∈ cs, p c}

def IsDigit (c : Char) : Prop := '0' ≤ c ∧ c ≤ '9'

instance (c : Char) : Decidable (IsDigit c) := inferInstanceAs (Decidable (_ ∧ _))

def IsLowerOrDigit (c : Char) : Prop := 'a' ≤ c ∧ c ≤ 'z' ∨ IsDigit c

instance (c : Char) : Decidable (IsLowerOrDigit c) := inferInstanceAs (Decidable (_ ∨ _))

def number : Language Char := oneOrMore IsDigit

def segment : Language Char := oneOrMore IsLowerOrDigit

/-- Segments with single hyphens between them. -/
def name : Language Char := segment * ({['-']} * segment)∗

/-- Three numbers with dots between them. -/
def version : Language Char := number * {['.']} * number * {['.']} * number

/-- Any number of segments, each after a hyphen. -/
def preversion : Language Char := ({['-']} * segment)∗

/-- The text of a reference: `namespace:name@vX.Y.Z-segment-segment`. -/
def reference : Language Char :=
  name * {[':']} * name * {['@']} * {['v']} * version * preversion

/-! ## Membership -/

variable {cs : List Char}

theorem mem_singleton_mul {c : Char} {l : Language Char} :
    cs ∈ ({[c]} : Language Char) * l ↔ ∃ ds ∈ l, c :: ds = cs := by
  rw [Language.mem_mul]
  constructor
  · rintro ⟨_, rfl, ds, hds, rfl⟩
    exact ⟨ds, hds, rfl⟩
  · rintro ⟨ds, hds, rfl⟩
    exact ⟨[c], rfl, ds, hds, rfl⟩

/-- A separator between two parts. -/
theorem mem_mul_singleton_mul {c : Char} {k l : Language Char} :
    cs ∈ k * ({[c]} * l) ↔ ∃ before ∈ k, ∃ after ∈ l, before ++ c :: after = cs := by
  rw [Language.mem_mul]
  constructor
  · rintro ⟨before, hbefore, _, hrest, rfl⟩
    obtain ⟨after, hafter, rfl⟩ := mem_singleton_mul.1 hrest
    exact ⟨before, hbefore, after, hafter, rfl⟩
  · rintro ⟨before, hbefore, after, hafter, rfl⟩
    exact ⟨before, hbefore, c :: after, mem_singleton_mul.2 ⟨after, hafter, rfl⟩, rfl⟩

theorem mem_version_iff : cs ∈ version ↔ ∃ major ∈ number, ∃ minor ∈ number, ∃ patch ∈ number,
    major ++ '.' :: (minor ++ '.' :: patch) = cs := by
  rw [version, mul_assoc, mul_assoc, mul_assoc, mem_mul_singleton_mul]
  refine exists_congr fun major => and_congr_right fun _ => ?_
  constructor
  · rintro ⟨rest, hrest, rfl⟩
    obtain ⟨minor, hminor, patch, hpatch, rfl⟩ := mem_mul_singleton_mul.1 hrest
    exact ⟨minor, hminor, patch, hpatch, rfl⟩
  · rintro ⟨minor, hminor, patch, hpatch, rfl⟩
    exact ⟨_, mem_mul_singleton_mul.2 ⟨minor, hminor, patch, hpatch, rfl⟩, rfl⟩

theorem mem_preversion_iff : cs ∈ preversion ↔ cs = [] ∨ ∃ rest ∈ name, '-' :: rest = cs := by
  rw [preversion, ← Language.one_add_self_mul_kstar_eq_kstar, mul_assoc, Language.mem_add,
    Language.mem_one, mem_singleton_mul]
  rfl

theorem mem_name_iff :
    cs ∈ name ↔ cs ∈ segment ∨ ∃ first ∈ segment, ∃ rest ∈ name, first ++ '-' :: rest = cs := by
  show cs ∈ segment * preversion ↔ _
  rw [Language.mem_mul]
  constructor
  · rintro ⟨first, hfirst, _, hparts, rfl⟩
    rcases mem_preversion_iff.1 hparts with rfl | ⟨rest, hrest, rfl⟩
    · left
      rwa [List.append_nil]
    · exact .inr ⟨first, hfirst, rest, hrest, rfl⟩
  · rintro (hcs | ⟨first, hfirst, rest, hrest, rfl⟩)
    · exact ⟨cs, hcs, [], mem_preversion_iff.2 (.inl rfl), List.append_nil cs⟩
    · exact ⟨first, hfirst, '-' :: rest, mem_preversion_iff.2 (.inr ⟨rest, hrest, rfl⟩), rfl⟩

theorem mem_reference_iff : cs ∈ reference ↔ ∃ space ∈ name, ∃ label ∈ name, ∃ number ∈ version,
    ∃ suffix ∈ preversion, space ++ ':' :: (label ++ '@' :: 'v' :: (number ++ suffix)) = cs := by
  simp only [reference, mul_assoc]
  rw [mem_mul_singleton_mul]
  constructor
  · rintro ⟨space, hspace, _, hrest, rfl⟩
    obtain ⟨label, hlabel, _, htail, rfl⟩ := mem_mul_singleton_mul.1 hrest
    obtain ⟨_, hversion, rfl⟩ := mem_singleton_mul.1 htail
    obtain ⟨number, hnumber, suffix, hsuffix, rfl⟩ := Language.mem_mul.1 hversion
    exact ⟨space, hspace, label, hlabel, number, hnumber, suffix, hsuffix, rfl⟩
  · rintro ⟨space, hspace, label, hlabel, number, hnumber, suffix, hsuffix, rfl⟩
    have htail : 'v' :: (number ++ suffix) ∈ ({['v']} : Language Char) * (version * preversion) :=
      mem_singleton_mul.2 ⟨_, Language.append_mem_mul hnumber hsuffix, rfl⟩
    exact ⟨space, hspace, _, mem_mul_singleton_mul.2 ⟨label, hlabel, _, htail, rfl⟩, rfl⟩

/-- Induction on the segments of a name. -/
theorem name_induction {P : List Char → Prop} (single : ∀ cs ∈ segment, P cs)
    (append : ∀ first ∈ segment, ∀ rest, P rest → P (first ++ '-' :: rest)) :
    ∀ cs ∈ name, P cs := by
  intro cs hcs
  obtain ⟨first, hfirst, _, ⟨parts, rfl, hparts⟩, rfl⟩ := Language.mem_mul.1 hcs
  clear hcs
  induction parts generalizing first with
  | nil =>
    rw [List.flatten_nil, List.append_nil]
    exact single first hfirst
  | cons part parts ih =>
    obtain ⟨hpart, others⟩ := List.forall_mem_cons.1 hparts
    obtain ⟨second, hsecond, rfl⟩ := mem_singleton_mul.1 hpart
    rw [List.flatten_cons, List.cons_append]
    exact append first hfirst _ (ih second hsecond others)

/-! ## Characters -/

theorem isDigit_iff {c : Char} : c.isDigit ↔ IsDigit c := by
  simp [Char.isDigit, IsDigit, Char.le_def]

theorem isLower_iff {c : Char} : c.isLower ↔ 'a' ≤ c ∧ c ≤ 'z' := by
  show (decide ('a'.val ≤ c.val) && decide (c.val ≤ 'z'.val)) = true ↔ _
  rw [Bool.and_eq_true, decide_eq_true_iff, decide_eq_true_iff, Char.le_def, Char.le_def]

theorem isNameChar_iff {c : Char} : isNameChar c ↔ IsLowerOrDigit c := by
  rw [isNameChar, Bool.or_eq_true, isLower_iff, isDigit_iff, IsLowerOrDigit]

theorem notMem_of_mem_oneOrMore {p : Char → Prop} {c : Char} (h : cs ∈ oneOrMore p) (hc : ¬ p c) :
    c ∉ cs := fun mem => hc (h.2 c mem)

theorem hyphen_notMem_segment (h : cs ∈ segment) : '-' ∉ cs :=
  notMem_of_mem_oneOrMore h (by decide)

theorem dot_notMem_number (h : cs ∈ number) : '.' ∉ cs :=
  notMem_of_mem_oneOrMore h (by decide)

/-- A name has hyphens besides the characters of its segments. -/
theorem notMem_name {c : Char} (hc : ¬ IsLowerOrDigit c) (hyphen : c ≠ '-') :
    ∀ cs ∈ name, c ∉ cs := by
  refine name_induction (fun _ hcs => notMem_of_mem_oneOrMore hcs hc) ?_
  intro first hfirst rest ih
  have hfirst := notMem_of_mem_oneOrMore hfirst hc
  simp [hfirst, hyphen, ih]

theorem notMem_preversion {c : Char} (hc : ¬ IsLowerOrDigit c) (hyphen : c ≠ '-')
    (h : cs ∈ preversion) : c ∉ cs := by
  rcases mem_preversion_iff.1 h with rfl | ⟨rest, hrest, rfl⟩
  · exact List.not_mem_nil
  · have hrest := notMem_name hc hyphen rest hrest
    simp [hyphen, hrest]

theorem forall_mem_version (h : cs ∈ version) : ∀ c ∈ cs, IsDigit c ∨ c = '.' := by
  obtain ⟨major, hmajor, minor, hminor, patch, hpatch, rfl⟩ := mem_version_iff.1 h
  intro c hc
  simp only [List.mem_append, List.mem_cons] at hc
  rcases hc with hc | rfl | hc | rfl | hc
  · exact .inl (hmajor.2 c hc)
  · exact .inr rfl
  · exact .inl (hminor.2 c hc)
  · exact .inr rfl
  · exact .inl (hpatch.2 c hc)

/-- The version of a reference ends where its pre-version starts. -/
theorem span_version {ds : List Char} (h : cs ∈ version) (hds : ds ∈ preversion) :
    (cs ++ ds).takeWhile (fun c => c.isDigit || c = '.') = cs ∧
      (cs ++ ds).dropWhile (fun c => c.isDigit || c = '.') = ds := by
  have versionChars : ∀ c ∈ cs, (c.isDigit || c = '.') = true := by
    intro c hc
    rw [Bool.or_eq_true, decide_eq_true_iff, isDigit_iff]
    exact forall_mem_version h c hc
  rw [List.takeWhile_append_of_pos versionChars, List.dropWhile_append_of_pos versionChars]
  rcases mem_preversion_iff.1 hds with rfl | ⟨rest, -, rfl⟩
  · exact ⟨List.append_nil cs, rfl⟩
  · exact ⟨List.append_nil cs, rfl⟩

theorem notMem_version {c : Char} (hc : ¬ IsDigit c) (dot : c ≠ '.') (h : cs ∈ version) :
    c ∉ cs := fun mem => (forall_mem_version h c mem).elim hc dot

theorem ne_nil_of_mem_version (h : cs ∈ version) : cs ≠ [] := by
  obtain ⟨major, -, minor, -, patch, -, rfl⟩ := mem_version_iff.1 h
  simp

/-! ## Recognition -/

theorem all_iff_mem_oneOrMore {test : Char → Bool} {p : Char → Prop} (h : ∀ {c}, test c ↔ p c) :
    (!cs.isEmpty && cs.all test) ↔ cs ∈ oneOrMore p := by
  rw [Bool.and_eq_true, List.all_eq_true]
  refine and_congr (by simp) (forall₂_congr fun c _ => h)

theorem isNameSegment_iff : isNameSegment cs ↔ cs ∈ segment := all_iff_mem_oneOrMore isNameChar_iff

theorem isName_of_mem_segment (h : cs ∈ segment) : isName cs := by
  rw [isName, Text.split_of_notMem (hyphen_notMem_segment h), List.all_cons, List.all_nil,
    Bool.and_true]
  exact isNameSegment_iff.2 h

theorem isName_append {first rest : List Char} (h : first ∈ segment) (hrest : isName rest) :
    isName (first ++ '-' :: rest) := by
  rw [isName, Text.split_append (hyphen_notMem_segment h), List.all_cons, Bool.and_eq_true]
  exact ⟨isNameSegment_iff.2 h, hrest⟩

/-- The test of names recognizes their language. -/
theorem isName_iff : isName cs ↔ cs ∈ name := by
  constructor
  · unfold isName
    generalize hsplit : Text.split '-' cs = pieces
    induction pieces generalizing cs with
    | nil => exact absurd hsplit (Text.split_ne_nil '-' cs)
    | cons piece pieces ih =>
      rw [List.all_cons, Bool.and_eq_true, isNameSegment_iff]
      rintro ⟨hpiece, hpieces⟩
      rcases Text.eq_of_split hsplit with ⟨rfl, -⟩ | ⟨rest, rfl, hrest⟩
      · exact mem_name_iff.2 (.inl hpiece)
      · exact mem_name_iff.2 (.inr ⟨piece, hpiece, rest, ih hrest hpieces, rfl⟩)
  · exact name_induction (fun _ => isName_of_mem_segment) (fun _ h _ => isName_append h) cs

theorem isPreversion_iff : isPreversion cs ↔ cs ∈ preversion := by
  rw [mem_preversion_iff]
  cases cs with
  | nil => exact iff_of_true rfl (.inl rfl)
  | cons c cs =>
    rw [isPreversion, Bool.and_eq_true, decide_eq_true_iff, isName_iff]
    constructor
    · rintro ⟨rfl, hcs⟩
      exact .inr ⟨cs, hcs, rfl⟩
    · rintro (hnil | ⟨rest, hrest, hcons⟩)
      · cases hnil
      · obtain ⟨rfl, rfl⟩ := List.cons.inj hcons
        exact ⟨rfl, hrest⟩

theorem isVersionNumber_iff : isVersionNumber cs ↔ cs ∈ version := by
  have digits {pieces : List (List Char)} :
      (pieces.all fun ds => !ds.isEmpty && ds.all Char.isDigit) ↔ ∀ ds ∈ pieces, ds ∈ number := by
    rw [List.all_eq_true]
    exact forall₂_congr fun _ _ => all_iff_mem_oneOrMore isDigit_iff
  rw [mem_version_iff]
  constructor
  · intro h
    unfold isVersionNumber at h
    split at h
    · next major minor patch hsplit =>
      have numbers := digits.1 h
      simp only [List.forall_mem_cons] at numbers
      obtain ⟨hmajor, hminor, hpatch, -⟩ := numbers
      obtain ⟨-, ⟨⟩⟩ | ⟨rest, rfl, hrest⟩ := Text.eq_of_split hsplit
      obtain ⟨-, ⟨⟩⟩ | ⟨tail, rfl, htail⟩ := Text.eq_of_split hrest
      obtain ⟨rfl, -⟩ | ⟨more, rfl, hmore⟩ := Text.eq_of_split htail
      · exact ⟨major, hmajor, minor, hminor, tail, hpatch, rfl⟩
      · exact absurd hmore (Text.split_ne_nil '.' more)
    · cases h
  · rintro ⟨major, hmajor, minor, hminor, patch, hpatch, rfl⟩
    rw [isVersionNumber, Text.split_append (dot_notMem_number hmajor),
      Text.split_append (dot_notMem_number hminor), Text.split_of_notMem (dot_notMem_number hpatch)]
    refine digits.2 ?_
    simp only [List.forall_mem_cons]
    exact ⟨hmajor, hminor, hpatch, nofun⟩

/-! ## Hyphens -/

/-- Lower-case letters and digits, with single hyphens between them. -/
structure IsHyphenated (cs : List Char) : Prop where
  nonempty : cs ≠ []
  chars : ∀ c ∈ cs, IsLowerOrDigit c ∨ c = '-'
  head : cs.head? ≠ some '-'
  last : cs.getLast? ≠ some '-'
  apart : cs.IsChain fun c d => c ≠ '-' ∨ d ≠ '-'

theorem isHyphenated_of_mem_segment (h : cs ∈ segment) : IsHyphenated cs where
  nonempty := h.1
  chars c hc := .inl (h.2 c hc)
  head hyphen := hyphen_notMem_segment h (List.mem_of_mem_head? hyphen)
  last hyphen := hyphen_notMem_segment h (List.mem_of_getLast? hyphen)
  apart := by
    refine (List.pairwise_of_forall_mem_list fun c hc d _ => .inl ?_).isChain
    rintro rfl
    exact hyphen_notMem_segment h hc

theorem IsHyphenated.mem_segment (h : IsHyphenated cs) (hyphen : '-' ∉ cs) : cs ∈ segment := by
  refine ⟨h.nonempty, fun c hc => (h.chars c hc).resolve_right ?_⟩
  rintro rfl
  exact hyphen hc

section FirstHyphen

variable {first rest : List Char}

theorem isHyphenated_append (hfirst : first ∈ segment) (hrest : IsHyphenated rest) :
    IsHyphenated (first ++ '-' :: rest) := by
  have single := isHyphenated_of_mem_segment hfirst
  refine ⟨by simp, ?_, ?_, ?_, ?_⟩
  · intro c hc
    simp only [List.mem_append, List.mem_cons] at hc
    rcases hc with hc | hc | hc
    · exact single.chars c hc
    · exact .inr hc
    · exact hrest.chars c hc
  · rw [List.head?_append_of_ne_nil _ single.nonempty]
    exact single.head
  · rw [List.getLast?_append_cons, List.getLast?_cons_of_ne_nil hrest.nonempty]
    exact hrest.last
  · have after : ('-' :: rest).IsChain fun c d => c ≠ '-' ∨ d ≠ '-' := by
      refine List.isChain_cons.2 ⟨fun d hd => .inr ?_, hrest.apart⟩
      rintro rfl
      exact hrest.head hd
    refine List.isChain_append.2 ⟨single.apart, after, fun c hc _ _ => .inl ?_⟩
    rintro rfl
    exact single.last hc

theorem isHyphenated_of_append (hyphen : '-' ∉ first) (h : IsHyphenated (first ++ '-' :: rest)) :
    first ∈ segment ∧ IsHyphenated rest := by
  have nonempty : first ≠ [] := by
    rintro rfl
    exact h.head rfl
  have restNonempty : rest ≠ [] := by
    rintro rfl
    exact h.last (List.getLast?_append_cons first '-' [])
  have after : ('-' :: rest).IsChain fun c d => c ≠ '-' ∨ d ≠ '-' :=
    (List.isChain_append.1 h.apart).2.1
  refine ⟨⟨nonempty, fun c hc => ?_⟩, restNonempty, fun c hc => ?_, fun head => ?_, ?_, ?_⟩
  · refine (h.chars c (List.mem_append_left _ hc)).resolve_right ?_
    rintro rfl
    exact hyphen hc
  · exact h.chars c (List.mem_append_right _ (List.mem_cons_of_mem _ hc))
  · rcases (List.isChain_cons.1 after).1 '-' head with other | other <;> exact other rfl
  · have last := h.last
    rwa [List.getLast?_append_cons, List.getLast?_cons_of_ne_nil restNonempty] at last
  · exact (List.isChain_cons.1 after).2

end FirstHyphen

theorem isHyphenated_iff : IsHyphenated cs ↔ cs ∈ name := by
  constructor
  · intro h
    induction hlength : cs.length using Nat.strong_induction_on generalizing cs with
    | _ n ih =>
      -- up to the first hyphen there is one segment, and what follows is shorter
      by_cases hyphen : '-' ∈ cs
      · obtain ⟨first, rest, rfl, hfirst⟩ := List.eq_append_cons_of_mem hyphen
        obtain ⟨mem, hrest⟩ := isHyphenated_of_append hfirst h
        have shorter : rest.length < n := by
          rw [← hlength, List.length_append, List.length_cons]
          omega
        exact mem_name_iff.2 (.inr ⟨first, mem, rest, ih _ shorter hrest rfl, rfl⟩)
      · exact mem_name_iff.2 (.inl (h.mem_segment hyphen))
  · exact name_induction (fun _ => isHyphenated_of_mem_segment)
      (fun _ h _ => isHyphenated_append h) cs

end ModuleGrammar

end StrictSchema
