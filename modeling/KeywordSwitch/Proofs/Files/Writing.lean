import KeywordSwitch.Procedure
import KeywordSwitch.Proofs.Files.Resolving

/-!
# Writing files

Creating a file either leaves the tree as it is or puts an empty file at one place, and
adding to the file changes that place alone. No directory comes or goes, so all paths
keep their places while a file is written.

## Implementation notes

`Procedure.Leads` tells where a procedure ends. It composes along the actions of a
procedure, so what a procedure does is proved action by action.
-/

namespace KeywordSwitch

namespace FileTree

variable {t u : FileTree} {p q : Place} {path : Text}

/-- Of two entries put at one place the later one counts. -/
theorem put_put (first second : Entry) : (t.put p first).put p second = t.put p second := by
  simp [put]

/-- The root is a directory. -/
theorem ne_root (other : t.get? p ≠ some .dir) : p ≠ [] := by
  rintro rfl
  exact other rfl

/-- The path stands for a place at which an empty file can be made. -/
structure Takes (t : FileTree) (path : Text) (p : Place) : Prop where
  place : t.resolve path = .ok p
  free : t.obstacle? p = none

theorem Takes.not_dir (takes : t.Takes path p) : t.get? p ≠ some .dir := by
  intro dir
  have free := takes.free
  rw [obstacle?, if_pos dir] at free
  cases free

theorem Takes.create (takes : t.Takes path p) : t.create path = .ok (t.put p (.file [])) := by
  simp [FileTree.create, takes.place, takes.free, bind, Except.bind]

theorem create_of_obstacle {e : FileError} (place : t.resolve path = .ok p)
    (blocked : t.obstacle? p = some e) : t.create path = .error e := by
  simp [FileTree.create, place, blocked, bind, Except.bind]

/-- A file that can be made has a place, and is all that making it adds to the tree. -/
theorem takes_of_create (made : t.create path = .ok u) :
    ∃ p, t.Takes path p ∧ u = t.put p (.file []) := by
  cases place : t.resolve path with
  | error e => simp [FileTree.create, place, bind, Except.bind] at made
  | ok p =>
      cases free : t.obstacle? p with
      | some e => simp [FileTree.create, place, free, bind, Except.bind] at made
      | none =>
          have takes : t.Takes path p := ⟨place, free⟩
          exact ⟨p, takes, Except.ok.inj (made.symm.trans takes.create)⟩

/-- A file in the stead of a file, or of nothing, leaves the directories where they are. -/
theorem sameDirectories_put (other : t.get? p ≠ some .dir) (bytes : List UInt8) :
    SameDirectories t (t.put p (.file bytes)) where
  dir q := by
    by_cases same : q = p
    · rw [same, get?_put_self (ne_root other)]
      simp [other]
    · rw [get?_put_of_ne same]
  cwd := rfl

/-- What stands in the way of a file at one place does not depend on the other places. -/
theorem obstacle?_put_of_ne (other : q ≠ p) (e : Entry) :
    (t.put p e).obstacle? q = t.obstacle? q := by
  rw [obstacle?, obstacle?, get?_put_of_ne other]
  rfl

theorem SameDirectories.trans {v : FileTree} (first : SameDirectories t u)
    (second : SameDirectories u v) : SameDirectories t v where
  dir p := (second.dir p).trans (first.dir p)
  cwd := second.cwd.trans first.cwd

/-- Adding to a file that has been made. -/
theorem Takes.append_put (takes : t.Takes path p) (old bytes : List UInt8) :
    (t.put p (.file old)).append path bytes = .ok (t.put p (.file (old ++ bytes))) := by
  have place : (t.put p (.file old)).resolve path = .ok p :=
    (sameDirectories_put takes.not_dir old).resolve_eq_ok_iff.mpr takes.place
  simp [append, place, get?_put_self (ne_root takes.not_dir), put_put, bind, Except.bind]

/-- The file at a path has these contents. -/
def Holds (t : FileTree) (path : Text) (bytes : List UInt8) : Prop :=
  ∃ p, t.resolve path = .ok p ∧ t.get? p = some (.file bytes)

/-- The tree `u` has files with these contents at these paths, and all else as in the tree `t`. -/
structure Updates (t u : FileTree) (files : List (Text × List UInt8)) : Prop where
  holds : ∀ f ∈ files, u.Holds f.1 f.2
  others : ∀ p, (∀ f ∈ files, t.resolve f.1 ≠ .ok p) → u.get? p = t.get? p
  directories : SameDirectories t u
  refusal : u.refusal = t.refusal

theorem Updates.none (t : FileTree) : t.Updates t [] where
  holds f mem := by cases mem
  others p _ := rfl
  directories := ⟨fun p => Iff.rfl, rfl⟩
  refusal := rfl

/-- One more file, at a place of its own. -/
theorem Updates.put {files : List (Text × List UInt8)} (updates : t.Updates u files)
    (takes : u.Takes path q) (apart : ∀ f ∈ files, u.resolve f.1 ≠ .ok q) (bytes : List UInt8) :
    t.Updates (u.put q (.file bytes)) (files ++ [(path, bytes)]) := by
  have kept := sameDirectories_put takes.not_dir bytes
  constructor
  case holds =>
    intro f mem
    rcases List.mem_append.mp mem with before | added
    · obtain ⟨p, place, held⟩ := updates.holds f before
      have other : p ≠ q := by
        rintro rfl
        exact apart f before place
      exact ⟨p, kept.resolve_eq_ok_iff.mpr place, (get?_put_of_ne other).trans held⟩
    · obtain rfl := List.mem_singleton.mp added
      exact ⟨q, kept.resolve_eq_ok_iff.mpr takes.place, get?_put_self (ne_root takes.not_dir)⟩
  case others =>
    intro p elsewhere
    have other : p ≠ q := by
      rintro rfl
      exact elsewhere (path, bytes) (List.mem_append_right files List.mem_cons_self)
        (updates.directories.resolve_eq_ok_iff.mp takes.place)
    rw [get?_put_of_ne other]
    exact updates.others p fun f mem => elsewhere f (List.mem_append_left _ mem)
  case directories => exact updates.directories.trans kept
  case refusal => exact updates.refusal

end FileTree

/-- The bytes of a file with these lines, a line feed after each of them. -/
def fileBytes (lines : List Text) : List UInt8 :=
  Text.utf8 (Text.unlines lines)

theorem fileBytes_cons (line : Text) (lines : List Text) :
    fileBytes (line :: lines) = Text.utf8 (line ++ ['\n']) ++ fileBytes lines := by
  simp [fileBytes]

namespace Procedure

variable {α β : Type} {t u v : FileTree} {p : Place} {path : Text} {value : α}

theorem run_bind_eq (c : Procedure α) (f : α → Procedure β) (t : FileTree) :
    (c >>= f).run t =
      { value := ((f (c.run t).value).run (c.run t).tree).value
        events := (c.run t).events ++ ((f (c.run t).value).run (c.run t).tree).events
        printed := (c.run t).printed ++ ((f (c.run t).value).run (c.run t).tree).printed
        tree := ((f (c.run t).value).run (c.run t).tree).tree } :=
  run_bind c f t

/-- Reporting events first changes the events alone. -/
theorem run_notes (events : List Event) (c : Procedure α) (t : FileTree) :
    (notes events c).run t = { c.run t with events := events ++ (c.run t).events } := by
  induction events with
  | nil => rfl
  | cons event events ih =>
      have first : (notes (event :: events) c).run t =
          { (notes events c).run t with events := event :: ((notes events c).run t).events } := rfl
      rw [first, ih]
      rfl

/-- The procedure neither reads nor prints: it reports events and writes files. -/
inductive OnlyWrites : Procedure α → Prop where
  /-- Nothing is left to do. -/
  | done (value : α) : OnlyWrites (.done value)
  /-- An event is reported first. -/
  | note (event : Event) {next : Procedure α} (rest : OnlyWrites next) :
      OnlyWrites (.note event next)
  /-- A file is made first, or cannot be made. -/
  | create (path : Text) {next : Except FileError Unit → Procedure α}
      (rest : ∀ answer, OnlyWrites (next answer)) : OnlyWrites (.create path next)
  /-- A file is added to first, or cannot be added to. -/
  | append (path : Text) (bytes : List UInt8) {next : Except FileError Unit → Procedure α}
      (rest : ∀ answer, OnlyWrites (next answer)) : OnlyWrites (.append path bytes next)

theorem OnlyWrites.bind {c : Procedure α} {f : α → Procedure β} (first : c.OnlyWrites)
    (second : ∀ value, (f value).OnlyWrites) : (c >>= f).OnlyWrites := by
  induction first with
  | done value => exact second value
  | note event _ ih => exact .note event ih
  | create path _ ih => exact .create path ih
  | append path bytes _ ih => exact .append path bytes ih

theorem OnlyWrites.notes {c : Procedure α} (rest : c.OnlyWrites) (events : List Event) :
    (Procedure.notes events c).OnlyWrites := by
  induction events with
  | nil => exact rest
  | cons event events ih => exact .note event ih

theorem onlyWrites_appendLines (path : Text) (lines : List Text) :
    (appendLines path lines).OnlyWrites := by
  induction lines with
  | nil => exact .done _
  | cons line lines ih =>
      refine .append path _ fun answer => ?_
      cases answer with
      | error e => exact .done _
      | ok _ => exact ih

/-- Run on the tree `t`, the procedure ends with `value` and leaves the tree `u`. -/
structure Leads (c : Procedure α) (t : FileTree) (value : α) (u : FileTree) : Prop where
  value : (c.run t).value = value
  tree : (c.run t).tree = u

theorem Leads.done (value : α) (t : FileTree) : (Procedure.done value).Leads t value t :=
  ⟨rfl, rfl⟩

/-- The second of two procedures goes on where the first one has led. -/
theorem Leads.bind {c : Procedure α} {f : α → Procedure β} {result : β}
    (first : c.Leads t value u) (second : (f value).Leads u result v) :
    (c >>= f).Leads t result v := by
  constructor
  · rw [run_bind_eq, first.value, first.tree]
    exact second.value
  · rw [run_bind_eq, first.value, first.tree]
    exact second.tree

/-- Reported events change neither the end nor the tree. -/
theorem Leads.notes {c : Procedure α} (events : List Event) (rest : c.Leads t value u) :
    (Procedure.notes events c).Leads t value u := by
  constructor
  · rw [run_notes]
    exact rest.value
  · rw [run_notes]
    exact rest.tree

/-- A procedure that runs like another one ends where that one ends. -/
theorem Leads.of_run_eq {c d : Procedure α} (rest : d.Leads u value v) (same : c.run t = d.run u) :
    c.Leads t value v where
  value := by rw [same, rest.value]
  tree := by rw [same, rest.tree]

theorem Leads.create {next : Except FileError Unit → Procedure α} (made : t.create path = .ok u)
    (rest : (next (.ok ())).Leads u value v) : (Procedure.create path next).Leads t value v :=
  rest.of_run_eq (by rw [run, made])

theorem Leads.create_error {next : Except FileError Unit → Procedure α} {e : FileError}
    (refused : t.create path = .error e) (rest : (next (.error e)).Leads t value u) :
    (Procedure.create path next).Leads t value u :=
  rest.of_run_eq (by rw [run, refused])

theorem Leads.append {next : Except FileError Unit → Procedure α} {bytes : List UInt8}
    (added : t.append path bytes = .ok u) (rest : (next (.ok ())).Leads u value v) :
    (Procedure.append path bytes next).Leads t value v :=
  rest.of_run_eq (by rw [run, added])

/-- The lines end up after what the file has held since it was made. -/
theorem leads_appendLines (takes : t.Takes path p) (old : List UInt8) (lines : List Text) :
    (appendLines path lines).Leads (t.put p (.file old)) (Except.ok ())
      (t.put p (.file (old ++ fileBytes lines))) := by
  induction lines generalizing old with
  | nil =>
      have same : old ++ fileBytes [] = old := List.append_nil old
      rw [same]
      exact .done (Except.ok ()) _
  | cons line lines ih =>
      rw [fileBytes_cons, ← List.append_assoc]
      exact .append (takes.append_put old _) (ih _)

end Procedure

end KeywordSwitch
