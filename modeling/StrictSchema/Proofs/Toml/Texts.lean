import Mathlib.Tactic.SplitIfs
import StrictSchema.Toml.Printer
import StrictSchema.Toml.Scalar

/-!
# TOML texts read back

Each of the four quoted forms is read back as what was written (`Toml.quoted?_textChars`). Between
single double quotes this goes character by character. A text over several lines first has to be
read up to its end, so its inside must not hold three quotes in a row (`Toml.Inside`).
-/

namespace StrictSchema.Toml

/-! ## Single characters -/

theorem ofCodePoint?_digits : ∀ n < 128,
    ofCodePoint? ['0', '0', (Nat.digitChar (n / 16)).toUpper, (Nat.digitChar (n % 16)).toUpper] =
      some (Char.ofNat n) := by
  decide +kernel

theorem toNat_of_isControl {c : Char} (h : isControl c) : c.toNat < 128 := by
  simp only [isControl, Bool.or_eq_true, Bool.and_eq_true, decide_eq_true_eq] at h
  rcases h with ⟨⟨small, -⟩, -⟩ | rfl
  · have : c.toNat < 32 := small
    omega
  · decide

theorem ofCodePoint?_control {c : Char} (h : isControl c) :
    ofCodePoint? ['0', '0', (Nat.digitChar (c.toNat / 16)).toUpper,
      (Nat.digitChar (c.toNat % 16)).toUpper] = some c := by
  rw [ofCodePoint?_digits _ (toNat_of_isControl h), Char.ofNat_toNat]

/-- Any character but the line feed and those that have to be escaped may stand as it is. -/
theorem not_isForbidden {c : Char} (lineFeed : c ≠ '\n') (control : isControl c = false) :
    isForbidden c = false := by
  simp only [isControl, Bool.or_eq_false_iff, Bool.and_eq_false_iff, decide_eq_false_iff_not,
    Decidable.not_not] at control
  simp only [isForbidden, Bool.or_eq_false_iff, Bool.and_eq_false_iff, decide_eq_false_iff_not,
    Decidable.not_not]
  exact ⟨control.1.resolve_right lineFeed, control.2⟩

/-! ## Between double quotes -/

theorem basic?_plain {c : Char} (more : List Char) (quote : c ≠ '"') (backslash : c ≠ '\\')
    (allowed : isForbidden c = false) :
    basic? (c :: more) = (basic? more).map fun (cs, rest) => (c :: cs, rest) := by
  rw [basic?]
  · rw [allowed]
    rfl
  all_goals intros; contradiction

/-- Reading a character as it is written gives the character. -/
theorem basic?_escape (c : Char) (more : List Char) :
    basic? (escape ['\\', '"'] ['\\', 'n'] c ++ more) =
      (basic? more).map fun (cs, rest) => (c :: cs, rest) := by
  unfold escape
  split_ifs with quote lineFeed backslash backspace tab feed carriage control
  case pos | pos | pos | pos | pos | pos | pos =>
    subst c
    rfl
  · simp only [List.cons_append, List.nil_append]
    rw [basic?, ofCodePoint?_control control]
    rfl
  · exact basic?_plain more quote backslash (not_isForbidden lineFeed (Bool.eq_false_iff.2 control))

theorem basic?_escapes (cs rest : List Char) :
    basic? (cs.flatMap (escape ['\\', '"'] ['\\', 'n']) ++ '"' :: rest) = some (cs, rest) := by
  induction cs with
  | nil => rfl
  | cons c cs ih =>
    rw [List.flatMap_cons, List.append_assoc, basic?_escape, ih]
    rfl

/-! ## Between single quotes -/

theorem literal?_plain {cs : List Char} (plain : ∀ c ∈ cs, c ≠ '\'' ∧ isForbidden c = false)
    (rest : List Char) : literal? (cs ++ '\'' :: rest) = some (cs, rest) := by
  induction cs with
  | nil => rfl
  | cons c cs ih =>
    obtain ⟨⟨quote, allowed⟩, others⟩ := List.forall_mem_cons.1 plain
    rw [List.cons_append, literal?, allowed, ih others]
    · rfl
    · exact quote

/-! ## Over several lines -/

/-- Characters that may stand in a text over several lines. -/
def MayStand (c : Char) : Prop := c = '\n' ∨ isForbidden c = false

/-- The inside of a text over several lines that may come after all but `count` of two quotes. With
escapes, it may be anything after a backslash. -/
inductive Inside (quote : Char) (escapes : Bool) : Nat → List Char → Prop where
  | nil {count : Nat} : Inside quote escapes count []
  | quote {count : Nat} {raw : List Char} :
    Inside quote escapes count raw → Inside quote escapes (count + 1) (quote :: raw)
  | plain {count : Nat} {c : Char} {raw : List Char} : c ≠ quote → (escapes = true → c ≠ '\\') →
    MayStand c → Inside quote escapes 2 raw → Inside quote escapes count (c :: raw)
  | escaped {count : Nat} {c : Char} {raw : List Char} : escapes = true → MayStand c →
    Inside quote escapes 2 raw → Inside quote escapes count ('\\' :: c :: raw)

section Inside

variable {quote : Char} {escapes : Bool} {count : Nat} {raw rest : List Char}

theorem takeWhile_quotes (after : rest.head? ≠ some quote) (count : Nat) :
    ((List.replicate count quote ++ rest).takeWhile (· = quote)).length = count := by
  induction count with
  | zero =>
    cases rest with
    | nil => rfl
    | cons c rest =>
      have differs : c ≠ quote := fun same => after (congrArg some same)
      simp [differs]
  | succ count ih => simpa [List.replicate_succ] using ih

/-- At a run of quotes, the last three of which may close the text. -/
theorem closing?_quotes (after : rest.head? ≠ some quote) (few : count ≤ 5) :
    closing? quote (List.replicate count quote ++ rest) =
      if count < 3 then none else some (List.replicate (count - 3) quote, rest) := by
  rw [closing?, takeWhile_quotes after, Nat.min_eq_right few]
  simp

theorem inside?_of_closing {found : List Char × List Char} {c : Char} {more : List Char}
    (closed : closing? quote (c :: more) = some found) :
    inside? quote escapes (c :: more) = some found := by
  rw [inside?.eq_def]
  dsimp only
  rw [closed]

theorem inside?_cons {c : Char} (more : List Char) (opened : closing? quote (c :: more) = none)
    (plain : escapes = true → c ≠ '\\') :
    inside? quote escapes (c :: more) =
      (inside? quote escapes more).map fun (cs, r) => (c :: cs, r) := by
  have single : (escapes && decide (c = '\\')) = false := by
    cases escapes <;> simp_all
  rw [inside?.eq_def quote escapes (c :: more)]
  dsimp only
  rw [opened]
  cases more with
  | nil => rfl
  | cons d more => simp only [single, Bool.false_eq_true, if_false]

theorem inside?_escape (h : quote ≠ '\\') (c : Char) (more : List Char) :
    inside? quote true ('\\' :: c :: more) =
      (inside? quote true more).map fun (cs, r) => ('\\' :: c :: cs, r) := by
  have opened : closing? quote (List.replicate 0 quote ++ '\\' :: c :: more) = none :=
    closing?_quotes (by simp [Ne.symm h]) (by omega)
  rw [inside?.eq_def quote true ('\\' :: c :: more)]
  dsimp only
  rw [show closing? quote ('\\' :: c :: more) = none from opened]
  rfl

/-- The inside of a text is all quotes, or these are followed by something else. -/
theorem Inside.quotes (h : Inside quote escapes count raw) (mark : quote ≠ '\\') :
    ∃ n ≤ count, ∃ more, more.head? ≠ some quote ∧ raw = List.replicate n quote ++ more := by
  induction h with
  | nil => exact ⟨0, Nat.zero_le _, [], nofun, rfl⟩
  | quote _ ih =>
    obtain ⟨n, few, more, after, rfl⟩ := ih
    exact ⟨n + 1, Nat.succ_le_succ few, more, after, rfl⟩
  | plain differs => exact ⟨0, Nat.zero_le _, _, by simpa using differs, rfl⟩
  | escaped => exact ⟨0, Nat.zero_le _, _, by simpa using Ne.symm mark, rfl⟩

/-- The text is read up to the first three quotes after its inside. -/
theorem inside?_of_inside (h : Inside quote escapes count raw) (few : count ≤ 2)
    (mark : quote ≠ '\\') (after : rest.head? ≠ some quote) :
    inside? quote escapes (raw ++ List.replicate 3 quote ++ rest) = some (raw, rest) := by
  induction h with
  | nil => exact inside?_of_closing (closing?_quotes after (by omega : 3 ≤ 5))
  | @quote count raw inside ih =>
    obtain ⟨n, fewer, more, other, rfl⟩ := inside.quotes mark
    cases more with
    | nil =>
      -- only quotes are left, so the text is closed here
      have closed := closing?_quotes after (by omega : n + 1 + 3 ≤ 5)
      rw [if_neg (by omega), ← List.replicate_append_replicate, Nat.add_sub_cancel] at closed
      rw [List.append_nil]
      exact inside?_of_closing closed
    | cons c more =>
      -- something else comes after the quotes, so they close nothing
      have differs : (c :: more ++ (List.replicate 3 quote ++ rest)).head? ≠ some quote := other
      have opened := closing?_quotes differs (by omega : n + 1 ≤ 5)
      rw [if_pos (by omega), List.replicate_succ, List.cons_append, ← List.append_assoc,
        ← List.append_assoc] at opened
      rw [List.cons_append, List.cons_append, inside?_cons _ opened fun _ => mark, ih (by omega)]
      rfl
  | plain differs single allowed inside ih =>
    rw [List.cons_append, List.cons_append, inside?_cons _ _ single, ih (Nat.le_refl 2)]
    · rfl
    · exact closing?_quotes (by simpa using differs) (Nat.zero_le 5)
  | escaped escapes allowed inside ih =>
    subst escapes
    rw [List.cons_append, List.cons_append, List.cons_append, List.cons_append,
      inside?_escape mark, ih (Nat.le_refl 2)]
    rfl

end Inside

theorem lineFeeds?_eq_self {raw : List Char} (allowed : ∀ c ∈ raw, MayStand c) :
    lineFeeds? raw = some raw := by
  induction raw with
  | nil => rfl
  | cons c raw ih =>
    obtain ⟨first, rest⟩ := List.forall_mem_cons.1 allowed
    rcases first with rfl | first
    · rw [lineFeeds?, ih rest]
      rfl
    · have carriage : c ≠ '\r' := fun same => by cases same ▸ first
      by_cases lineFeed : c = '\n'
      · subst lineFeed
        rw [lineFeeds?, ih rest]
        rfl
      · rw [lineFeeds?, first, ih rest]
        · rfl
        all_goals intros; contradiction

theorem Inside.mayStand {quote : Char} {escapes : Bool} {count : Nat} {raw : List Char}
    (h : Inside quote escapes count raw) (mark : MayStand quote) : ∀ c ∈ raw, MayStand c := by
  induction h with
  | nil => exact nofun
  | quote _ ih => exact List.forall_mem_cons.2 ⟨mark, ih⟩
  | plain _ _ allowed _ ih => exact List.forall_mem_cons.2 ⟨allowed, ih⟩
  | escaped _ allowed _ ih =>
    exact List.forall_mem_cons.2 ⟨.inr rfl, List.forall_mem_cons.2 ⟨allowed, ih⟩⟩

/-! ### Without escapes -/

theorem hasRun_of_append {c : Char} {count : Nat} (before : List Char) {cs : List Char}
    (h : hasRun c count (before ++ cs) = false) : hasRun c count cs = false := by
  induction before with
  | nil => exact h
  | cons d before ih => exact ih (Bool.or_eq_false_iff.1 h).2

theorem inside_of_hasRun {quote : Char} {cs : List Char} (allowed : ∀ c ∈ cs, MayStand c)
    {count : Nat} (few : count ≤ 2)
    (short : hasRun quote 3 (List.replicate (2 - count) quote ++ cs) = false) :
    Inside quote false count cs := by
  -- the quotes that `count` leaves of two are those that were just passed
  induction cs generalizing count with
  | nil => exact .nil
  | cons c cs ih =>
    obtain ⟨first, rest⟩ := List.forall_mem_cons.1 allowed
    by_cases same : c = quote
    · subst same
      cases count with
      | zero => simp [hasRun] at short
      | succ count =>
        refine .quote (ih rest (by omega) ?_)
        have more : 2 - count = 2 - (count + 1) + 1 := by omega
        rwa [more, List.replicate_succ', List.append_assoc]
    · refine .plain same nofun first (ih rest (Nat.le_refl 2) ?_)
      exact hasRun_of_append [c] (hasRun_of_append _ short)

/-! ### With escapes -/

theorem unescape?_plain {c : Char} (more : List Char) (backslash : c ≠ '\\') :
    unescape? false (c :: more) = (unescape? false more).map (c :: ·) := by
  rw [unescape?]
  · rfl
  all_goals intros; contradiction

theorem unescape?_escape (c : Char) (more : List Char) :
    unescape? false (escape ['"'] ['\n'] c ++ more) = (unescape? false more).map (c :: ·) := by
  unfold escape
  split_ifs with quote lineFeed backslash backspace tab feed carriage control
  case pos | pos | pos | pos | pos | pos | pos =>
    subst c
    rfl
  · simp only [List.cons_append, List.nil_append]
    rw [unescape?, ofCodePoint?_control control]
    rfl
  · exact unescape?_plain more backslash

/-- Reading the inside without its escapes gives the text. -/
theorem unescape?_escapeLines (quotes : Nat) (cs : List Char) :
    unescape? false (escapeLines quotes cs) = some cs := by
  induction cs generalizing quotes with
  | nil => rfl
  | cons c cs ih =>
    rw [escapeLines]
    split_ifs with quote third
    · subst quote
      exact congrArg (Option.map _) (ih 0)
    · subst quote
      rw [unescape?_plain _ (by decide), ih]
      rfl
    · rw [unescape?_escape, ih]
      rfl

theorem hexDigit_inside : ∀ n < 16, (Nat.digitChar n).toUpper ≠ '"' ∧
    (Nat.digitChar n).toUpper ≠ '\\' ∧ isForbidden (Nat.digitChar n).toUpper = false := by
  decide

theorem inside_escape {c : Char} (quote : c ≠ '"') {raw : List Char} {count : Nat}
    (h : Inside '"' true 2 raw) :
    Inside '"' true count (escape ['"'] ['\n'] c ++ raw) := by
  have digit {n : Nat} (small : n < 16) {raw : List Char} (h : Inside '"' true 2 raw) :
      Inside '"' true 2 ((Nat.digitChar n).toUpper :: raw) := by
    obtain ⟨quote, backslash, allowed⟩ := hexDigit_inside n small
    exact .plain quote (fun _ => backslash) (.inr allowed) h
  unfold escape
  rw [if_neg quote]
  split_ifs with lineFeed backslash backspace tab feed carriage control
  · exact .plain (by decide) (by decide) (.inl rfl) h
  case pos | pos | pos | pos | pos => exact .escaped rfl (.inr rfl) h
  · have small := toNat_of_isControl control
    exact .escaped rfl (.inr rfl) <| digit (by decide : 0 < 16) <| digit (by decide : 0 < 16) <|
      digit (by omega : c.toNat / 16 < 16) <| digit (by omega : c.toNat % 16 < 16) h
  · exact .plain quote (fun _ => backslash)
      (.inr (not_isForbidden lineFeed (Bool.eq_false_iff.2 control))) h

theorem inside_escapeLines {quotes : Nat} (few : quotes ≤ 2) (cs : List Char) :
    Inside '"' true (2 - quotes) (escapeLines quotes cs) := by
  induction cs generalizing quotes with
  | nil => exact .nil
  | cons c cs ih =>
    rw [escapeLines]
    split_ifs with quote third
    · exact .escaped rfl (.inr rfl) (ih (Nat.zero_le 2))
    · have more : 2 - quotes = 2 - (quotes + 1) + 1 := by omega
      rw [more]
      exact .quote (ih (by omega))
    · exact inside_escape quote (ih (Nat.zero_le 2))

/-! ## All forms -/

/-- A character that is no line end opens no line. -/
theorem afterLineEnd_cons {c : Char} (lineFeed : c ≠ '\n') (carriage : c ≠ '\r') (cs : List Char) :
    afterLineEnd (c :: cs) = c :: cs := by
  rw [afterLineEnd, lineEnd?]
  · rfl
  · exact fun _ same => lineFeed (List.cons.inj same).1
  · exact fun _ same => carriage (List.cons.inj same).1

/-- The line feed that opens a text with line feeds is no part of it, and other texts need none. -/
theorem afterLineEnd_opening {quote : Char} (mark : isForbidden quote = false)
    {cs raw rest : List Char}
    (first : '\n' ∉ cs → ∀ c, raw.head? = some c → c ≠ '\n' ∧ c ≠ '\r') :
    afterLineEnd ((if cs.contains '\n' then ['\n'] else []) ++ (raw ++ quote :: rest)) =
      raw ++ quote :: rest := by
  split_ifs with holds
  · rfl
  · cases raw with
    | nil =>
      refine afterLineEnd_cons (fun same => ?_) (fun same => ?_) rest <;>
        cases (same ▸ mark : _ = false)
    | cons c raw =>
      obtain ⟨lineFeed, carriage⟩ := first (by simpa using holds) c rfl
      exact afterLineEnd_cons lineFeed carriage _

theorem lines?_of_inside {quote : Char} {escapes : Bool} {raw text rest : List Char}
    (h : Inside quote escapes 2 raw) (mark : isForbidden quote = false) (other : quote ≠ '\\')
    (after : rest.head? ≠ some quote)
    (read : (if escapes then unescape? false raw else some raw) = some text) :
    lines? quote escapes (raw ++ List.replicate 3 quote ++ rest) = some (text, rest) := by
  rw [lines?, inside?_of_inside h (Nat.le_refl 2) other after]
  simp only [Option.bind_eq_bind, Option.bind_some, lineFeeds?_eq_self (h.mayStand (.inr mark))]
  cases escapes with
  | false =>
    obtain rfl : raw = text := Option.some.inj read
    rfl
  | true =>
    rw [if_pos rfl] at read ⊢
    rw [read]
    rfl

theorem isControl_eq_false {cs : List Char} (h : cs.any isControl = false) {c : Char}
    (mem : c ∈ cs) : isControl c = false :=
  Bool.eq_false_iff.2 (List.any_eq_false.1 h c mem)

theorem of_eq_literal {cs : List Char} (h : TextForm.of cs = .literal) :
    ∀ c ∈ cs, c ≠ '\'' ∧ isForbidden c = false := by
  unfold TextForm.of at h
  dsimp only at h
  split_ifs at h with basic literal
  simp only [Bool.and_eq_true, Bool.not_eq_true', List.contains_eq_mem,
    decide_eq_false_iff_not] at literal
  obtain ⟨⟨control, quote⟩, lineFeed⟩ := literal
  exact fun c mem => ⟨fun same => quote (same ▸ mem),
    not_isForbidden (fun same => lineFeed (same ▸ mem)) (isControl_eq_false control mem)⟩

theorem of_eq_literalLines {cs : List Char} (h : TextForm.of cs = .literalLines) :
    cs.any isControl = false ∧ hasRun '\'' 3 cs = false := by
  unfold TextForm.of at h
  dsimp only at h
  split_ifs at h with basic literal basicLines literalLines
  simpa using literalLines

/-- What follows a text starts with no quote. -/
def EndsText (rest : List Char) : Prop := rest.head? ≠ some '"' ∧ rest.head? ≠ some '\''

/-- Except for quotes and line feeds, a character is written as it is or after a backslash. -/
theorem escape_cases {quote lineFeed : List Char} {c : Char} (noQuote : c ≠ '"')
    (noLineFeed : c ≠ '\n') :
    (∃ more, escape quote lineFeed c = '\\' :: more) ∨
      escape quote lineFeed c = [c] ∧ c ≠ '\r' := by
  unfold escape
  rw [if_neg noQuote, if_neg noLineFeed]
  split_ifs with backslash backspace tab feed carriage control
  case neg => exact .inr ⟨rfl, carriage⟩
  all_goals exact .inl ⟨_, rfl⟩

theorem head_escapes (cs : List Char) :
    (cs.flatMap (escape ['\\', '"'] ['\\', 'n'])).head? ≠ some '"' := by
  cases cs with
  | nil => nofun
  | cons c cs =>
    rw [List.flatMap_cons]
    by_cases quote : c = '"'
    · subst quote
      nofun
    by_cases lineFeed : c = '\n'
    · subst lineFeed
      nofun
    rcases escape_cases quote lineFeed with ⟨more, written⟩ | ⟨written, -⟩
    · rw [written]
      nofun
    · rw [written]
      exact fun same => quote (Option.some.inj same)

theorem head_escapeLines {cs : List Char} (single : '\n' ∉ cs) (c : Char)
    (first : (escapeLines 0 cs).head? = some c) : c ≠ '\n' ∧ c ≠ '\r' := by
  cases cs with
  | nil => cases first
  | cons d cs =>
    rw [escapeLines] at first
    by_cases quote : d = '"'
    · rw [if_pos quote] at first
      obtain rfl := Option.some.inj first
      decide
    · rw [if_neg quote] at first
      have lineFeed : d ≠ '\n' := fun same => single (same ▸ List.mem_cons_self)
      rcases escape_cases quote lineFeed with ⟨more, written⟩ | ⟨written, carriage⟩
      · rw [written] at first
        obtain rfl := Option.some.inj first
        decide
      · rw [written] at first
        obtain rfl := Option.some.inj first
        exact ⟨lineFeed, carriage⟩

/-- A single quote that opens a text is not followed by two more. -/
theorem ne_quotes {quote : Char} {body rest : List Char} (first : body.head? ≠ some quote)
    (after : rest.head? ≠ some quote) (more : List Char) :
    body ++ quote :: rest ≠ quote :: quote :: more := by
  intro same
  cases body with
  | nil => exact after (congrArg List.head? (List.cons.inj same).2)
  | cons c body => exact first (congrArg some (List.cons.inj same).1)

/-- A text is read back as it was written. -/
theorem quoted?_textChars (cs : List Char) {rest : List Char} (after : EndsText rest) :
    quoted? (textChars cs ++ rest) = some (cs, rest) := by
  unfold textChars
  cases form : TextForm.of cs with
  | basic =>
    simp only [List.cons_append, List.append_assoc, List.nil_append]
    rw [quoted?, basic?_escapes]
    exact fun more => ne_quotes (head_escapes cs) after.1 more
  | literal =>
    have plain := of_eq_literal form
    have first : cs.head? ≠ some '\'' := fun head => (plain _ (List.mem_of_head? head)).1 rfl
    simp only [List.cons_append, List.append_assoc, List.nil_append]
    rw [quoted?, literal?_plain plain]
    exact fun more => ne_quotes first after.2 more
  | basicLines =>
    have read := lines?_of_inside (inside_escapeLines (Nat.zero_le 2) cs) rfl (by decide) after.1
      (unescape?_escapeLines 0 cs)
    rw [List.append_assoc] at read
    simp only [List.cons_append, List.append_assoc, List.nil_append]
    rw [quoted?, afterLineEnd_opening (by decide) head_escapeLines]
    exact read
  | literalLines =>
    obtain ⟨control, short⟩ := of_eq_literalLines form
    have allowed (c : Char) (mem : c ∈ cs) : MayStand c :=
      Decidable.or_iff_not_imp_left.2 fun lineFeed =>
        not_isForbidden lineFeed (isControl_eq_false control mem)
    have inside := inside_of_hasRun allowed (Nat.le_refl 2) short
    have read := lines?_of_inside inside rfl (by decide) after.2 rfl
    rw [List.append_assoc] at read
    simp only [List.cons_append, List.append_assoc, List.nil_append]
    rw [quoted?, afterLineEnd_opening (by decide)]
    · exact read
    · intro single c first
      have mem := List.mem_of_head? first
      exact ⟨fun same => single (same ▸ mem),
        fun same => nomatch (same ▸ isControl_eq_false control mem : isControl '\r' = false)⟩

end StrictSchema.Toml
