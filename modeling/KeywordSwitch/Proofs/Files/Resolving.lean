import KeywordSwitch.Files.Tree

/-!
# Resolving paths

A walk asks only which places are directories, so trees with the same directories
resolve the same paths to the same places. Two paths that differ in their endings alone
lead to two places side by side in one directory, or fail for the same reason.
-/

namespace KeywordSwitch

/-- The ending of a file name: four bytes, none of which can lead out of a directory. -/
structure Path.IsEnding (ending : Text) : Prop where
  size : (Text.utf8 ending).length = 4
  noSlash : '/' ∉ ending
  noNul : '\x00' ∉ ending

namespace Path

/-- An ending becomes part of the last component, whatever the ending is. -/
theorem exists_components_append (stem : Text) :
    ∃ folders last, ∀ ending : Text, '/' ∉ ending →
      components (stem ++ ending) = folders ++ [last ++ ending] := by
  induction stem with
  | nil =>
      refine ⟨[], [], fun ending noSlash => ?_⟩
      have whole : ∀ c ∈ ending, (c == '/') = false := by
        intro c mem
        have other : c ≠ '/' := ne_of_mem_of_not_mem mem noSlash
        simp [other]
      exact List.splitOnP_eq_singleton whole
  | cons c stem ih =>
      obtain ⟨folders, last, same⟩ := ih
      have head (ending : Text) : components (c :: stem ++ ending) =
          if c = '/' then [] :: components (stem ++ ending)
          else (components (stem ++ ending)).modifyHead (c :: ·) := by
        simp [components, List.splitOn, List.splitOnP_cons_eq_if_modifyHead]
      by_cases slash : c = '/'
      · refine ⟨[] :: folders, last, fun ending noSlash => ?_⟩
        rw [head, if_pos slash, same ending noSlash, List.cons_append]
      · cases folders with
        | nil =>
            refine ⟨[], c :: last, fun ending noSlash => ?_⟩
            rw [head, if_neg slash, same ending noSlash]
            rfl
        | cons first folders =>
            refine ⟨(c :: first) :: folders, last, fun ending noSlash => ?_⟩
            rw [head, if_neg slash, same ending noSlash]
            rfl

theorem IsEnding.length_append {ending : Text} (h : IsEnding ending) (stem : Text) :
    (Text.utf8 (stem ++ ending)).length = (Text.utf8 stem).length + 4 := by
  rw [Text.utf8_append, List.length_append, h.size]

theorem IsEnding.ne_nil {ending : Text} (h : IsEnding ending) : ending ≠ [] := by
  rintro rfl
  exact absurd h.size (by decide)

/-- Whether a path starts at the root does not depend on its ending. -/
theorem IsEnding.isAbsolute_append {ending : Text} (h : IsEnding ending) (stem : Text) :
    isAbsolute (stem ++ ending) = isAbsolute stem := by
  cases stem with
  | cons c stem => rfl
  | nil =>
      cases ending with
      | nil => rfl
      | cons c ending =>
          have other : c ≠ '/' := (List.ne_of_not_mem_cons h.noSlash).symm
          simp [isAbsolute, other]

/-- An ending of the name is one of the joined path. -/
theorem IsEnding.join_append {ending : Text} (h : IsEnding ending) (dir name : Text) :
    join dir (name ++ ending) = join dir name ++ ending := by
  rw [join, join, h.isAbsolute_append]
  split
  · rfl
  · split
    · rw [List.append_assoc]
    · rw [List.append_assoc, List.cons_append]

end Path

namespace FileTree

variable {t u : FileTree} {here p : Place} {names : List Text} {path : Text}

theorem walk_cons_eq_ok_iff {name : Text} :
    t.walk here (name :: names) = .ok p ↔
      t.get? here = some .dir ∧ (Text.utf8 name).length ≤ maxName ∧
        t.walk (enter here name) names = .ok p := by
  rw [walk]
  cases t.get? here with
  | none => simp
  | some entry =>
      cases entry with
      | file bytes => simp
      | dir =>
          by_cases long : maxName < (Text.utf8 name).length
          · simp [long, Nat.not_le_of_lt long]
          · simp [long, Nat.le_of_not_lt long]

/-- A walk along two lists of components goes on where the first one has led. -/
theorem walk_append (first second : List Text) :
    t.walk here (first ++ second) = (t.walk here first).bind fun p => t.walk p second := by
  induction first generalizing here with
  | nil => rfl
  | cons name first ih =>
      rw [List.cons_append, walk, walk]
      cases t.get? here with
      | none => rfl
      | some entry =>
          cases entry with
          | file bytes => rfl
          | dir =>
              by_cases long : maxName < (Text.utf8 name).length
              · simp only [if_pos long]
                rfl
              · simp only [if_neg long]
                exact ih

/-- The trees have directories at the same places, and relative paths start at the same one. -/
structure SameDirectories (t u : FileTree) : Prop where
  dir (p : Place) : u.get? p = some .dir ↔ t.get? p = some .dir
  cwd : u.cwd = t.cwd

theorem SameDirectories.walk_eq_ok_iff (same : SameDirectories t u) :
    u.walk here names = .ok p ↔ t.walk here names = .ok p := by
  induction names generalizing here with
  | nil => rfl
  | cons name names ih => rw [walk_cons_eq_ok_iff, walk_cons_eq_ok_iff, same.dir, ih]

/-- A path is resolved by a walk if it is no unusable path from the start. -/
theorem resolve_eq_ok_iff :
    t.resolve path = .ok p ↔
      '\x00' ∉ path ∧ path ≠ [] ∧ (Text.utf8 path).length < maxPath ∧
        t.walk (if Path.isAbsolute path then [] else t.cwd) (Path.components path) = .ok p := by
  rw [resolve]
  by_cases nul : '\x00' ∈ path
  · simp [nul]
  by_cases empty : path = []
  · simp [empty]
  by_cases long : maxPath ≤ (Text.utf8 path).length
  · simp [nul, empty, long, Nat.not_lt_of_le long]
  · simp [nul, empty, long, Nat.lt_of_not_le long]

/-- Trees with the same directories resolve the same paths to the same places. -/
theorem SameDirectories.resolve_eq_ok_iff (same : SameDirectories t u) :
    u.resolve path = .ok p ↔ t.resolve path = .ok p := by
  rw [FileTree.resolve_eq_ok_iff, FileTree.resolve_eq_ok_iff, same.cwd, same.walk_eq_ok_iff]

/-- A component with more bytes than two dots is a name in the directory. -/
theorem enter_of_length {name : Text} (long : 2 < (Text.utf8 name).length) :
    enter here name = here ++ [name] := by
  have filled : ¬(name = [] ∨ name = ['.']) := by
    rintro (rfl | rfl) <;> exact absurd long (by decide)
  have noParent : name ≠ ['.', '.'] := by
    rintro rfl
    exact absurd long (by decide)
  rw [enter, if_neg filled, if_neg noParent]

/-- The place of a file in a directory, given by the directory and the name without its ending. -/
def placeIn (ending : Text) (site : Place × Text) : Place :=
  site.1 ++ [site.2 ++ ending]

/-- The last step to a file whose name has an ending. -/
theorem exists_walk_ending (t : FileTree) (here : Place) (last : Text) :
    ∃ site : Except FileError (Place × Text), ∀ ending, Path.IsEnding ending →
      t.walk here [last ++ ending] = site.map (placeIn ending) := by
  cases reached : t.get? here with
  | none => exact ⟨.error .notFound, fun ending h => by rw [walk, reached]; rfl⟩
  | some entry =>
      cases entry with
      | file bytes => exact ⟨.error .notDirectory, fun ending h => by rw [walk, reached]; rfl⟩
      | dir =>
          by_cases long : maxName < (Text.utf8 last).length + 4
          · refine ⟨.error .nameTooLong, fun ending h => ?_⟩
            simp only [walk, reached, h.length_append, if_pos long]
            rfl
          · refine ⟨.ok (here, last), fun ending h => ?_⟩
            have entered : enter here (last ++ ending) = here ++ [last ++ ending] :=
              enter_of_length (by rw [h.length_append]; omega)
            simp only [walk, reached, h.length_append, if_neg long, entered]
            rfl

/-- Paths that differ in their endings alone lead to places side by side, or fail alike. -/
theorem exists_resolve_ending (t : FileTree) (stem : Text) :
    ∃ site : Except FileError (Place × Text), ∀ ending, Path.IsEnding ending →
      t.resolve (stem ++ ending) = site.map (placeIn ending) := by
  obtain ⟨folders, last, split⟩ := Path.exists_components_append stem
  have unfolded {ending : Text} (h : Path.IsEnding ending) :
      t.resolve (stem ++ ending) =
        if '\x00' ∈ stem then .error .nulInPath
        else if maxPath ≤ (Text.utf8 stem).length + 4 then .error .nameTooLong
        else (t.walk (if Path.isAbsolute stem then [] else t.cwd) folders).bind
          fun here => t.walk here [last ++ ending] := by
    have nul : '\x00' ∈ stem ++ ending ↔ '\x00' ∈ stem := by simp [h.noNul]
    have filled : stem ++ ending ≠ [] := List.append_ne_nil_of_right_ne_nil stem h.ne_nil
    simp only [resolve, nul, if_neg filled, h.length_append, h.isAbsolute_append, split ending h.noSlash,
      walk_append]
  by_cases nul : '\x00' ∈ stem
  · exact ⟨.error .nulInPath, fun ending h => by rw [unfolded h, if_pos nul]; rfl⟩
  by_cases long : maxPath ≤ (Text.utf8 stem).length + 4
  · exact ⟨.error .nameTooLong, fun ending h => by
      rw [unfolded h, if_neg nul, if_pos long]; rfl⟩
  cases reached : t.walk (if Path.isAbsolute stem then [] else t.cwd) folders with
  | error e =>
      exact ⟨.error e, fun ending h => by rw [unfolded h, if_neg nul, if_neg long, reached]; rfl⟩
  | ok here =>
      obtain ⟨site, step⟩ := exists_walk_ending t here last
      refine ⟨site, fun ending h => ?_⟩
      rw [unfolded h, if_neg nul, if_neg long, reached]
      exact step ending h

end FileTree

end KeywordSwitch
