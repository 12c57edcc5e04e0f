import StrictSchema.Files.Tree
import StrictSchema.Proofs.Members
import StrictSchema.Proofs.Text.Split

/-!
# Written files

Putting a file in its place takes away no directory and no name in one (`Entry.find_directory_put`),
so a path leads where it led before (`FileTree.follow_put`). What a text was written to is
therefore found under the same path, and holds the text (`FileTree.find_writeText`).
-/

namespace StrictSchema

namespace Entry

variable {new root root' : Entry} {name : String} {names path : List String}
  {entries : List (String × Entry)}

theorem find_cons_some {inner : Entry} (found : Members.find? name entries = some inner)
    (names : List String) : find (.directory entries) (name :: names) = find inner names := by
  rw [find, found]

theorem find_append {entry inner : Entry} (found : entry.find path = .ok inner)
    (names : List String) : entry.find (path ++ names) = inner.find names := by
  induction path generalizing entry with
  | nil => exact Except.ok.inj found ▸ rfl
  | cons step path ih =>
    obtain _ | entries := entry
    · cases found
    cases here : Members.find? step entries with
    | none => rw [find, here] at found; cases found
    | some next =>
      rw [find_cons_some here] at found
      rw [List.cons_append, find_cons_some here, ih found]

/-- Putting something under a name is putting it into what has the name. -/
theorem exists_of_put_cons (h : put new (name :: names) root = .ok root') :
    ∃ entries inner inner', root = .directory entries ∧ put new names inner = .ok inner' ∧
      root' = .directory (Members.insert name inner' entries) ∧
      ∀ i, Members.find? name entries = some i → i = inner := by
  obtain _ | entries := root
  · cases names <;> cases h
  cases names with
  | nil =>
    refine ⟨entries, (Members.find? name entries).getD new, new, rfl, by rw [put], ?_, ?_⟩
    · exact (Except.ok.inj h).symm
    · exact fun i found => by rw [found]; rfl
  | cons next names =>
    rw [put] at h
    · cases found : Members.find? name entries with
      | none => rw [found] at h; cases h
      | some inner =>
        rw [found] at h
        cases inside : put new (next :: names) inner with
        | error e => simp [inside, Except.map] at h
        | ok inner' =>
          simp only [inside, Except.map, Except.ok.injEq] at h
          exact ⟨entries, inner, inner', rfl, inside, h.symm,
            fun i hi => Option.some.inj (hi.symm.trans found)⟩
    · exact List.cons_ne_nil _ _

/-- What is put somewhere is found there. -/
theorem find_put (h : put new names root = .ok root') : root'.find names = .ok new := by
  induction names generalizing root root' with
  | nil => rw [put] at h; rw [find, h]
  | cons name names ih =>
    obtain ⟨entries, inner, inner', rfl, put, rfl, -⟩ := exists_of_put_cons h
    rw [find_cons_some (Members.find?_insert_self _ _ _), ih put]

/-- Putting something in the place of what is no directory leaves every directory, with all its
names. -/
theorem find_directory_put (h : put new names root = .ok root')
    (file : ∀ es, root.find names ≠ .ok (.directory es))
    (found : root.find path = .ok (.directory entries)) :
    ∃ entries', root'.find path = .ok (.directory entries') ∧
      ∀ name, (Members.find? name entries).isSome → (Members.find? name entries').isSome := by
  -- along the names, until the path ends or takes another name
  induction names generalizing root root' path with
  | nil =>
    obtain _ | es := root
    · cases path <;> cases found
    · exact absurd rfl (file es)
  | cons name names ih =>
    obtain ⟨es, inner, inner', rfl, put, rfl, only⟩ := exists_of_put_cons h
    cases path with
    | nil =>
      cases found
      exact ⟨_, rfl, fun n there => Members.isSome_find?_insert there _ _⟩
    | cons step path =>
      cases here : Members.find? step es with
      | none => rw [find, here] at found; cases found
      | some entry =>
        rw [find_cons_some here] at found
        by_cases same : name = step
        · subst same
          rw [find_cons_some (Members.find?_insert_self _ _ _)]
          obtain rfl := only entry here
          exact ih put (fun es => find_cons_some here names ▸ file es) found
        · exact ⟨_, by rw [find_cons_some (by rw [Members.find?_insert_of_ne same, here]), found],
            fun _ there => there⟩

end Entry

namespace FileTree

variable {tree : FileTree} {root : Entry} {new : Entry} {names : List String}

theorem follow_append (names : List String) (before after : List FilePath.Part) :
    tree.follow names (before ++ after) =
      tree.follow names before >>= fun reached => tree.follow reached after := by
  induction before generalizing names with
  | nil => rfl
  | cons part before ih =>
    rw [List.cons_append, follow, follow]
    cases tree.root.find names with
    | error e => rfl
    | ok entry =>
      cases entry with
      | file => rfl
      | directory entries =>
        cases part with
        | root | here | up => exact ih _
        | name text =>
          simp only [bind, Except.bind]
          split_ifs
          · rfl
          · exact ih _
          · rfl

/-- A path leads where it led before something was put in the place of what is no directory. -/
theorem follow_put (h : Entry.put new names tree.root = .ok root)
    (file : ∀ es, tree.root.find names ≠ .ok (.directory es)) {start reached : List String}
    {parts : List FilePath.Part} (led : tree.follow start parts = .ok reached) :
    { tree with root }.follow start parts = .ok reached := by
  induction parts generalizing start with
  | nil => exact led
  | cons part parts ih =>
    rw [follow] at led ⊢
    cases found : tree.root.find start with
    | error e => rw [found] at led; cases led
    | ok entry =>
      rw [found] at led
      cases entry with
      | file => cases led
      | directory entries =>
        obtain ⟨entries', found', kept⟩ := Entry.find_directory_put h file found
        rw [found']
        cases part with
        | root | here | up => exact ih led
        | name text =>
          simp only [bind, Except.bind] at led ⊢
          split_ifs at led with long there
          rw [if_neg long, if_pos (kept text there)]
          exact ih led

/-- A path that ends neither in a slash nor in a dot asks for no directory. -/
theorem partsAsked_eq {path : String} (noSlash : path.endsWith "/" = false)
    (noDot : endsInDot path = false) : partsAsked path = FilePath.parts path := by
  have noSlashDot : path.endsWith "/." = false := by
    refine String.Slice.endsWith_string_eq_false_iff.2 fun ends => ?_
    obtain ⟨before, hpath⟩ : ['/', '.'] <:+ path.toList := by simpa using ends
    rw [endsInDot, ← hpath, Text.split_append_sep, List.filter_append] at noDot
    simp [Text.split] at noDot
  rw [partsAsked, noSlash, noSlashDot]
  exact List.append_nil _

/-- Writing puts a file in the place that the path leads to, which is no directory. -/
theorem exists_of_writeText {tree' : FileTree} {path text : String}
    (written : tree.writeText path text = .ok tree') :
    ∃ names root, tree.resolveNew path = .ok names ∧ path.endsWith "/" = false ∧
      (∀ es, tree.root.find names ≠ .ok (.directory es)) ∧
      Entry.put (.file (.text text)) names tree.root = .ok root ∧ tree' = { tree with root } := by
  rw [writeText] at written
  cases led : tree.resolveNew path with
  | error e => rw [led] at written; cases written
  | ok names =>
    simp only [led, bind, Except.bind] at written
    split_ifs at written with slash
    split at written
    · cases written
    · rename_i file
      cases put : Entry.put (.file (.text text)) names tree.root with
      | error e => rw [put] at written; cases written
      | ok root =>
        rw [put] at written
        exact ⟨names, root, rfl, Bool.eq_false_iff.2 slash, file, put,
          (Except.ok.inj written).symm⟩

theorem resolve_put (h : Entry.put new names tree.root = .ok root)
    (file : ∀ es, tree.root.find names ≠ .ok (.directory es)) {path : String}
    {reached : List String} (led : tree.resolve path = .ok reached) :
    { tree with root }.resolve path = .ok reached := by
  rw [resolve] at led ⊢
  cases ok : checkPath path with
  | error e => rw [ok] at led; cases led
  | ok =>
    rw [ok] at led
    exact follow_put h file led

/-- What was put into a directory is reached by its name. -/
theorem follow_name_put {directory : List String} {text : String}
    {entries : List (String × Entry)} (h : Entry.put new (directory ++ [text]) tree.root = .ok root)
    (file : ∀ es, tree.root.find (directory ++ [text]) ≠ .ok (.directory es))
    (found : tree.root.find directory = .ok (.directory entries))
    (short : ¬ nameLimit < text.utf8ByteSize) :
    { tree with root }.follow directory [.name text] = .ok (directory ++ [text]) := by
  obtain ⟨entries', found', -⟩ := Entry.find_directory_put h file found
  have there := (Entry.find_append found' [text]).symm.trans (Entry.find_put h)
  rw [follow, found']
  cases here : Members.find? text entries' with
  | none => rw [Entry.find, here] at there; cases there
  | some entry =>
    simp only [bind, Except.bind, if_neg short, here, Option.isSome_some, if_true]
    rfl

/-- A path leads to what it stands for, or to a name in a directory. -/
theorem resolveNew_cases {path : String} (led : tree.resolveNew path = .ok names) :
    tree.resolve path = .ok names ∨
    ∃ above text directory entries, FilePath.parts path = above ++ [.name text] ∧
      checkPath path = .ok () ∧ endsInDot path = false ∧
      tree.follow tree.working above = .ok directory ∧
      tree.root.find directory = .ok (.directory entries) ∧
      ¬ nameLimit < text.utf8ByteSize ∧ names = directory ++ [text] := by
  rw [resolveNew] at led
  cases ok : checkPath path with
  | error e => rw [ok] at led; cases led
  | ok =>
    simp only [ok, bind, Except.bind] at led
    split at led
    · rename_i text above parts
      by_cases dot : endsInDot path
      · exact .inl ((if_pos dot).symm.trans led)
      rw [if_neg dot] at led
      cases reached : tree.follow tree.working above.reverse with
      | error e => rw [reached] at led; cases led
      | ok directory =>
        simp only [reached] at led
        cases found : tree.root.find directory with
        | error e => rw [found] at led; cases led
        | ok entry =>
          simp only [found] at led
          cases entry with
          | file => cases led
          | directory entries =>
            by_cases long : nameLimit < text.utf8ByteSize
            · cases (if_pos long).symm.trans led
            · have named := Except.ok.inj ((if_neg long).symm.trans led)
              have whole := List.reverse_eq_iff.1 parts
              rw [List.reverse_cons] at whole
              exact .inr ⟨_, text, directory, entries, whole, rfl, Bool.eq_false_iff.2 dot,
                reached, found, long, named.symm⟩
    · exact .inl led

/-- The place that something is put in is the one that its path leads to afterwards. -/
theorem resolve_of_resolveNew (h : Entry.put new names tree.root = .ok root)
    (file : ∀ es, tree.root.find names ≠ .ok (.directory es)) {path : String}
    (noSlash : path.endsWith "/" = false) (led : tree.resolveNew path = .ok names) :
    { tree with root }.resolve path = .ok names := by
  rcases resolveNew_cases led with
    led | ⟨above, text, directory, entries, parts, ok, noDot, reached, found, short, rfl⟩
  · exact resolve_put h file led
  · rw [resolve, ok, partsAsked_eq noSlash noDot, parts]
    simp only [bind, Except.bind]
    rw [follow_append, follow_put h file reached]
    exact follow_name_put h file found short

/-- What a text was written to is found under the same path. -/
theorem find_writeText {tree' : FileTree} {path text : String}
    (written : tree.writeText path text = .ok tree') :
    tree'.find path = .ok (.file (.text text)) := by
  obtain ⟨names, root, led, noSlash, file, put, rfl⟩ := exists_of_writeText written
  rw [find, resolve_of_resolveNew put file noSlash led]
  exact Entry.find_put put

theorem readText_writeText {tree' : FileTree} {path text : String}
    (written : tree.writeText path text = .ok tree') : tree'.readText path = .ok text := by
  rw [readText, find_writeText written]
  rfl

theorem isFile_writeText {tree' : FileTree} {path text : String}
    (written : tree.writeText path text = .ok tree') : tree'.isFile path := by
  rw [isFile, find_writeText written]

end FileTree

end StrictSchema
