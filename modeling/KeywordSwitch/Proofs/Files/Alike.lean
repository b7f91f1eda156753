import KeywordSwitch.Proofs.Files.Writing

/-!
# Trees that differ in one file

Trees that are the same but for the contents of one file resolve all paths alike, and
making a file or adding to one ends alike in both of them. So a procedure that only
writes ends with the same value on both, reports the same events and leaves trees that
are the same but for that file again.

## Implementation notes

The file in which the trees differ may be written to as well: emptied, it is no difference
any more, and added to, it stays a file on both sides.
-/

namespace KeywordSwitch

namespace FileTree

variable {t u : FileTree} {p q here : Place} {names : List Text} {path : Text}

/-- The trees are the same but for the contents of the file at the place `p`. -/
structure AlikeBut (p : Place) (t u : FileTree) : Prop where
  others : ∀ q, q ≠ p → u.get? q = t.get? q
  file : ∃ bytes, t.get? p = some (.file bytes)
  file' : ∃ bytes, u.get? p = some (.file bytes)
  cwd : u.cwd = t.cwd
  refusal : u.refusal = t.refusal

namespace AlikeBut

/-- At each place both trees have the same entry, or a file each. -/
theorem get?_eq_or (alike : AlikeBut p t u) (q : Place) :
    u.get? q = t.get? q ∨
      ∃ old new, t.get? q = some (.file old) ∧ u.get? q = some (.file new) := by
  by_cases here : q = p
  · obtain ⟨old, held⟩ := alike.file
    obtain ⟨new, held'⟩ := alike.file'
    exact Or.inr ⟨old, new, here ▸ held, here ▸ held'⟩
  · exact Or.inl (alike.others q here)

theorem walk_eq (alike : AlikeBut p t u) : u.walk here names = t.walk here names := by
  induction names generalizing here with
  | nil => rfl
  | cons name names ih =>
      rw [walk, walk]
      rcases alike.get?_eq_or here with same | ⟨old, new, file, file'⟩
      · simp only [same, ih]
      · rw [file, file']

theorem resolve_eq (alike : AlikeBut p t u) : u.resolve path = t.resolve path := by
  rw [resolve, resolve, alike.cwd, alike.walk_eq]

theorem obstacle?_eq (alike : AlikeBut p t u) : u.obstacle? q = t.obstacle? q := by
  rw [obstacle?, obstacle?, alike.refusal]
  rcases alike.get?_eq_or q with same | ⟨old, new, file, file'⟩
  · rw [same]
  · simp [file, file']

/-- Files at one place keep the trees alike, with the same contents unless it is the place `p`. -/
theorem put (alike : AlikeBut p t u) (inside : q ≠ []) {old new : List UInt8}
    (same : q ≠ p → new = old) : AlikeBut p (t.put q (.file old)) (u.put q (.file new)) where
  others r other := by
    by_cases here : r = q
    · subst here
      rw [get?_put_self inside, get?_put_self inside, same other]
    · rw [get?_put_of_ne here, get?_put_of_ne here, alike.others r other]
  file := by
    by_cases here : p = q
    · rw [here, get?_put_self inside]
      exact ⟨old, rfl⟩
    · rw [get?_put_of_ne here]
      exact alike.file
  file' := by
    by_cases here : p = q
    · rw [here, get?_put_self inside]
      exact ⟨new, rfl⟩
    · rw [get?_put_of_ne here]
      exact alike.file'
  cwd := alike.cwd
  refusal := alike.refusal

end AlikeBut

/-- Both actions fail for one reason, or both succeed and leave trees that are alike. -/
inductive AlikeAnswers (p : Place) :
    Except FileError FileTree → Except FileError FileTree → Prop where
  /-- Neither action has an effect. -/
  | refused (e : FileError) : AlikeAnswers p (.error e) (.error e)
  /-- Both actions have an effect, at most at one place. -/
  | done {t u : FileTree} (alike : AlikeBut p t u) : AlikeAnswers p (.ok t) (.ok u)

theorem AlikeBut.create (alike : AlikeBut p t u) (path : Text) :
    AlikeAnswers p (t.create path) (u.create path) := by
  have places : u.resolve path = t.resolve path := alike.resolve_eq
  cases place : t.resolve path with
  | error e =>
      simp only [FileTree.create, places, place, bind, Except.bind]
      exact .refused e
  | ok q =>
      rw [place] at places
      have obstacles : u.obstacle? q = t.obstacle? q := alike.obstacle?_eq
      cases blocked : t.obstacle? q with
      | some e =>
          rw [create_of_obstacle place blocked,
            create_of_obstacle places (obstacles.trans blocked)]
          exact .refused e
      | none =>
          have takes : t.Takes path q := ⟨place, blocked⟩
          have takes' : u.Takes path q := ⟨places, obstacles.trans blocked⟩
          rw [takes.create, takes'.create]
          exact .done (alike.put (ne_root takes.not_dir) fun _ => rfl)

theorem AlikeBut.append (alike : AlikeBut p t u) (path : Text) (bytes : List UInt8) :
    AlikeAnswers p (t.append path bytes) (u.append path bytes) := by
  have places : u.resolve path = t.resolve path := alike.resolve_eq
  cases place : t.resolve path with
  | error e =>
      simp only [FileTree.append, places, place, bind, Except.bind]
      exact .refused e
  | ok q =>
      simp only [FileTree.append, places, place, bind, Except.bind]
      rcases alike.get?_eq_or q with same | ⟨old, new, file, file'⟩
      · rw [same]
        cases found : t.get? q with
        | none => exact .refused .notFound
        | some entry =>
            cases entry with
            | dir => exact .refused .isDirectory
            | file old =>
                have inside : q ≠ [] := ne_root (t := t) (by simp [found])
                exact .done (alike.put inside fun _ => rfl)
      · rw [file, file']
        have inside : q ≠ [] := ne_root (t := t) (by simp [file])
        refine .done (alike.put inside fun other => ?_)
        have same : u.get? q = t.get? q := alike.others q other
        rw [file, file', Option.some.injEq, Entry.file.injEq] at same
        rw [same]

/-- An update stands where its path has led before. -/
theorem Updates.get?_eq {new : List UInt8} (updates : t.Updates u [(path, new)])
    (place : t.resolve path = .ok p) : u.get? p = some (.file new) := by
  obtain ⟨q, place', held⟩ := updates.holds (path, new) List.mem_cons_self
  obtain rfl : q = p :=
    Except.ok.inj ((updates.directories.resolve_eq_ok_iff.mp place').symm.trans place)
  exact held

/-- What a file is overwritten with makes no difference elsewhere. -/
theorem Updates.alikeBut {old new : List UInt8} (updates : t.Updates u [(path, new)])
    (place : t.resolve path = .ok p) (file : t.get? p = some (.file old)) : AlikeBut p t u where
  others q other := by
    refine updates.others q fun f mem here => other ?_
    obtain rfl := List.mem_singleton.mp mem
    exact Except.ok.inj (here.symm.trans place)
  file := ⟨old, file⟩
  file' := ⟨new, updates.get?_eq place⟩
  cwd := updates.directories.cwd
  refusal := updates.refusal

end FileTree

/-- The reports are the same but for the file at the place `p` in the trees. -/
structure Report.AlikeBut {α : Type} (p : Place) (first second : Report α) : Prop where
  value : second.value = first.value
  events : second.events = first.events
  printed : second.printed = first.printed
  tree : FileTree.AlikeBut p first.tree second.tree

/-- A procedure that only writes does the same on trees that are the same but for one file. -/
theorem Procedure.OnlyWrites.run_alikeBut {α : Type} {c : Procedure α} (writes : c.OnlyWrites)
    {p : Place} {t u : FileTree} (alike : FileTree.AlikeBut p t u) :
    Report.AlikeBut p (c.run t) (c.run u) := by
  induction writes generalizing t u with
  | done value => exact ⟨rfl, rfl, rfl, alike⟩
  | note event _ ih =>
      have rest := ih alike
      exact ⟨rest.value, congrArg (event :: ·) rest.events, rest.printed, rest.tree⟩
  | create path _ ih =>
      have answers := alike.create path
      rw [run, run]
      generalize t.create path = first, u.create path = second at answers ⊢
      cases answers with
      | refused e => exact ih (.error e) alike
      | done alike => exact ih (.ok ()) alike
  | append path bytes _ ih =>
      have answers := alike.append path bytes
      rw [run, run]
      generalize t.append path bytes = first, u.append path bytes = second at answers ⊢
      cases answers with
      | refused e => exact ih (.error e) alike
      | done alike => exact ih (.ok ()) alike

end KeywordSwitch
