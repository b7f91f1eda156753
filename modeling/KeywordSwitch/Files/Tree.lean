import KeywordSwitch.Files.Path

/-!
# File trees

A file tree assigns a directory or the contents of a file to each place in use,
and has a working directory from which relative paths start. A path is looked up
component by component, and each component has to be looked up in a directory; so
a slash or a dot after the name of a file is a failure, and so is a missing
directory even if two dots lead out of it again. The system may also refuse to open
a file for a reason that is none of the tree, such as a lack of rights.
-/

namespace KeywordSwitch

/-- Why a file cannot be read or written. -/
inductive FileError where
  /-- There is nothing at the path. -/
  | notFound
  /-- A component is looked up in a file. -/
  | notDirectory
  /-- There is a directory at the path. -/
  | isDirectory
  /-- The path, or one of its components, has too many bytes. -/
  | nameTooLong
  /-- The path holds a NUL character. -/
  | nulInPath
  /-- The contents are not well-formed UTF-8. -/
  | notUtf8
  /-- Any other failure of the system, in its own words. -/
  | other (wording : Text)
deriving DecidableEq, Repr

/-- The wording of a failure. -/
def FileError.message : FileError → Text
  | .notFound => "No such file or directory (os error 2)".toList
  | .notDirectory => "Not a directory (os error 20)".toList
  | .isDirectory => "Is a directory (os error 21)".toList
  | .nameTooLong => "File name too long (os error 36)".toList
  | .nulInPath => "file name contained an unexpected NUL byte".toList
  | .notUtf8 => "stream did not contain valid UTF-8".toList
  | .other wording => wording

/-- A place in a file tree: the names on the way from the root. -/
abbrev Place := List Text

/-- What can stand at a place. -/
inductive Entry where
  /-- A directory. -/
  | dir
  /-- A file with its contents. -/
  | file (bytes : List UInt8)
deriving DecidableEq, Repr

/-- What a file is opened for. -/
inductive Access where
  /-- Its contents are read. -/
  | reading
  /-- Its contents are replaced. -/
  | writing
deriving DecidableEq, Repr

/-- The places in use with what stands there. -/
structure FileTree where
  /-- All entries but the root; the first entry of a place counts. -/
  entries : List (Place × Entry) := []
  /-- The place where relative paths start. -/
  cwd : Place := []
  /-- Why the system refuses to open the file at a place, or to make one there, if it does. -/
  refusal : Access → Place → Option FileError := fun _ _ => none

namespace FileTree

/-- The number of bytes that a component may have. -/
def maxName : Nat := 255

/-- The number of bytes that a path has to stay below. -/
def maxPath : Nat := 4096

/-- What stands at a place; the root is always a directory. -/
def get? (t : FileTree) (p : Place) : Option Entry :=
  if p = [] then some .dir else t.entries.lookup p

/-- The tree with an entry at a place, in the stead of what stood there. -/
def put (t : FileTree) (p : Place) (e : Entry) : FileTree :=
  { t with entries := (p, e) :: t.entries.filter (·.1 ≠ p) }

/-- The place that a component leads to from a directory. -/
def enter (here : Place) (name : Text) : Place :=
  if name = [] ∨ name = ['.'] then here
  else if name = ['.', '.'] then here.dropLast
  else here ++ [name]

/-- The place at the end of a walk; there need not be anything at the last step. -/
def walk (t : FileTree) (here : Place) : List Text → Except FileError Place
  | [] => .ok here
  | name :: names =>
      match t.get? here with
      | none => .error .notFound
      | some (.file _) => .error .notDirectory
      | some .dir =>
          if maxName < (Text.utf8 name).length then .error .nameTooLong
          else t.walk (enter here name) names

/-- The place that a path stands for. -/
def resolve (t : FileTree) (path : Text) : Except FileError Place :=
  if '\x00' ∈ path then .error .nulInPath
  else if path = [] then .error .notFound
  else if maxPath ≤ (Text.utf8 path).length then .error .nameTooLong
  else t.walk (if Path.isAbsolute path then [] else t.cwd) (Path.components path)

/-- The contents of the file at a path. -/
def read (t : FileTree) (path : Text) : Except FileError (List UInt8) := do
  let p ← t.resolve path
  match t.get? p, t.refusal .reading p with
  | none, _ => .error .notFound
  | some .dir, _ => .error .isDirectory
  | some (.file _), some e => .error e
  | some (.file bytes), none => .ok bytes

/-- Why there can be no empty file at a place, if there cannot. -/
def obstacle? (t : FileTree) (p : Place) : Option FileError :=
  if t.get? p = some .dir then some .isDirectory else t.refusal .writing p

/-- The tree with an empty file at a path, new or in the stead of the file there. -/
def create (t : FileTree) (path : Text) : Except FileError FileTree := do
  let p ← t.resolve path
  match t.obstacle? p with
  | some e => .error e
  | none => .ok (t.put p (.file []))

/-- The tree with bytes added at the end of the file at a path, which is open already. -/
def append (t : FileTree) (path : Text) (bytes : List UInt8) : Except FileError FileTree := do
  let p ← t.resolve path
  match t.get? p with
  | none => .error .notFound
  | some .dir => .error .isDirectory
  | some (.file old) => .ok (t.put p (.file (old ++ bytes)))

@[simp] theorem get?_root (t : FileTree) : t.get? [] = some .dir := rfl

theorem get?_put_self {t : FileTree} {p : Place} {e : Entry} (h : p ≠ []) :
    (t.put p e).get? p = some e := by
  simp [get?, put, h]

/-- Putting an entry leaves all other places as they are. -/
theorem get?_put_of_ne {t : FileTree} {p q : Place} {e : Entry} (h : q ≠ p) :
    (t.put p e).get? q = t.get? q := by
  have skip (l : List (Place × Entry)) : (l.filter (·.1 ≠ p)).lookup q = l.lookup q := by
    induction l with
    | nil => rfl
    | cons x l ih =>
        obtain ⟨r, f⟩ := x
        by_cases hr : r = p
        · have skipped : (q == r) = false := by simp [hr, h]
          rw [List.filter_cons_of_neg (by simp [hr]), List.lookup_cons, skipped, ih]
        · rw [List.filter_cons_of_pos (by simp [hr]), List.lookup_cons, List.lookup_cons, ih]
  have first : (q == p) = false := by simp [h]
  simp only [get?, put, List.lookup_cons, first, skip]

end FileTree

end KeywordSwitch
