import KeywordSwitch.Proofs.Files.Alike
import KeywordSwitch.Proofs.Files.Outputs
import KeywordSwitch.Proofs.KeywordSet.Layout

/-!
# Generation from lists in different layouts

A keyword list whose layout has been edited stands for the same set or has the same fault.
So what is generated from it is the same to the byte; and if the list is edited in its
place, generation ends as before and leaves all other files as before.
-/

namespace KeywordSwitch

variable {t u : FileTree} {path : Text} {text edited : Text} {g : Target} {outline : Bool}
  {s : Style}

namespace FileTree

/-- A list that has been overwritten is read as its new text. -/
theorem Updates.readText (updates : t.Updates u [(path, Text.utf8 edited)])
    (read : t.readText path = .ok text) : u.readText path = .ok edited := by
  obtain ⟨p, bytes, place, -, allowed, -⟩ := readText_eq_ok_iff.mp read
  have place' : u.resolve path = .ok p := updates.directories.resolve_eq_ok_iff.mpr place
  rw [← updates.refusal] at allowed
  exact readText_eq_ok_iff.mpr
    ⟨p, _, place', updates.get?_eq place, allowed, Text.ofUtf8?_utf8 edited⟩

end FileTree

namespace Procedure

/-- What generation does once the list has been read. -/
def generateFrom (text path : Text) (g : Target) (outline : Bool) (s : Style) :
    Procedure (Except Failure Unit) :=
  match KeywordSet.parse text with
  | .error e => pure (.error (.invalidList path e))
  | .ok k => writeOutputs k g outline s

theorem run_generateWith (read : t.readText path = .ok text) :
    (generateWith path g outline s).run t = (generateFrom text path g outline s).run t := by
  rw [generateWith, run_bind_eq, run_readText, read]
  rfl

theorem onlyWrites_generateFrom (text path : Text) (g : Target) (outline : Bool) (s : Style) :
    (generateFrom text path g outline s).OnlyWrites := by
  rw [generateFrom]
  cases KeywordSet.parse text with
  | error e => exact .done _
  | ok k => exact onlyWrites_writeOutputs k g outline s

/-- A list that is overwritten by one with the same meaning makes no difference but its own. -/
theorem alikeBut_generateWith {p : Place} (same : KeywordSet.parse text = KeywordSet.parse edited)
    (read : t.readText path = .ok text) (place : t.resolve path = .ok p)
    (updates : t.Updates u [(path, Text.utf8 edited)]) :
    Report.AlikeBut p ((generateWith path g outline s).run t)
      ((generateWith path g outline s).run u) := by
  obtain ⟨q, bytes, place', file, -, -⟩ := FileTree.readText_eq_ok_iff.mp read
  obtain rfl : q = p := Except.ok.inj (place'.symm.trans place)
  have alike : FileTree.AlikeBut q t u := updates.alikeBut place file
  have rest : generateFrom edited path g outline s = generateFrom text path g outline s := by
    rw [generateFrom, generateFrom, same]
  rw [run_generateWith read, run_generateWith (updates.readText read), rest]
  exact (onlyWrites_generateFrom text path g outline s).run_alikeBut alike

end Procedure

/-- A list whose layout has been edited is read as the same set, or has the same fault. Any two
generations from the list and from the edited one write the same files to the byte. If the edited
list takes the place of the list, generation from it ends as before, with the same failure if it
fails, and leaves all other places as before. -/
theorem generateWith_of_relaid (edits : Relation.EqvGen KeywordSet.Relaid text edited) :
    KeywordSet.parse edited = KeywordSet.parse text ∧
    (∀ (t u : FileTree) (path path' : Text) (g g' : Target) (outline outline' : Bool) (s : Style),
      let after := (generateWith path g outline s).run t
      let after' := (generateWith path' g' outline' s).run u
      t.readText path = .ok text → u.readText path' = .ok edited →
      after.value = .ok () → after'.value = .ok () →
      ∃ declarations matcher,
        after.tree.Holds g.declarationPath declarations ∧
        after.tree.Holds g.matcherPath matcher ∧
        after'.tree.Holds g'.declarationPath declarations ∧
        after'.tree.Holds g'.matcherPath matcher) ∧
    ∀ (t u : FileTree) (path : Text) (g : Target) (outline : Bool) (s : Style),
      let after := (generateWith path g outline s).run t
      let after' := (generateWith path g outline s).run u
      t.readText path = .ok text → t.Updates u [(path, Text.utf8 edited)] →
      u.readText path = .ok edited ∧ after'.value = after.value ∧
        ∀ p, t.resolve path ≠ .ok p → after'.tree.get? p = after.tree.get? p := by
  have same : KeywordSet.parse text = KeywordSet.parse edited := KeywordSet.parse_eq_of_relaid edits
  refine ⟨same.symm, ?_, ?_⟩
  · intro t u path path' g g' outline outline' s after after' read read' done done'
    obtain ⟨found, k, first, parsed, declarations, matcher⟩ := Procedure.exists_holds_of_value done
    obtain ⟨found', k', second, parsed', declarations', matcher'⟩ :=
      Procedure.exists_holds_of_value done'
    obtain rfl : found = text := Except.ok.inj (first.symm.trans read)
    obtain rfl : found' = edited := Except.ok.inj (second.symm.trans read')
    obtain rfl : k = k' := Except.ok.inj (parsed.symm.trans (same.trans parsed'))
    exact ⟨_, _, declarations, matcher, declarations', matcher'⟩
  · intro t u path g outline s after after' read updates
    obtain ⟨p, bytes, place, -⟩ := FileTree.readText_eq_ok_iff.mp read
    have alike : Report.AlikeBut p after after' :=
      Procedure.alikeBut_generateWith same read place updates
    refine ⟨updates.readText read, alike.value, fun q elsewhere => alike.tree.others q ?_⟩
    rintro rfl
    exact elsewhere place

/-- The entries of a line are put on lines of their own, in another order. -/
theorem generateWith_of_relaid_two_entries :
    let text : Text := "b,a".toList
    let edited : Text := "a\nb".toList
    let t : FileTree := { entries := [(["k".toList], .file (Text.utf8 text))] }
    let u : FileTree := t.put ["k".toList] (.file (Text.utf8 edited))
    let g : Target := ⟨[], "m".toList⟩
    let after := (generateWith "k".toList g false {}).run t
    let after' := (generateWith "k".toList g false {}).run u
    Relation.EqvGen KeywordSet.Relaid text edited ∧ t.readText "k".toList = .ok text ∧
      t.Updates u [("k".toList, Text.utf8 edited)] ∧
      KeywordSet.parse edited = KeywordSet.parse text ∧
      after.value = .ok () ∧ after'.value = .ok () ∧
      ∃ declarations matcher,
        after.tree.Holds g.declarationPath declarations ∧
        after.tree.Holds g.matcherPath matcher ∧
        after'.tree.Holds g.declarationPath declarations ∧
        after'.tree.Holds g.matcherPath matcher := by
  intro text edited t u g after after'
  have plain : ¬ "--".toList <:+: ['b'] ++ ',' :: ['a'] := by decide
  have broken : KeywordSet.Relaid text "b\na".toList := .breakAtComma [] [] plain
  have reordered : KeywordSet.Relaid "b\na".toList edited :=
    .reorder (List.Perm.swap ['a'] ['b'] [])
  have edits : Relation.EqvGen KeywordSet.Relaid text edited :=
    .trans _ _ _ (.rel _ _ broken) (.rel _ _ reordered)
  have takes : t.Takes "k".toList ["k".toList] := ⟨rfl, rfl⟩
  have updates : t.Updates u [("k".toList, Text.utf8 edited)] :=
    (FileTree.Updates.none t).put takes (by simp) _
  have read : t.readText "k".toList = .ok text :=
    FileTree.readText_eq_ok_iff.mpr ⟨["k".toList], _, rfl, rfl, rfl, Text.ofUtf8?_utf8 text⟩
  have keywords : ∀ w ∈ KeywordSet.entries text, IsKeyword w := by decide +kernel
  have done : after.value = .ok () := Procedure.value_eq_ok read keywords ⟨_, rfl⟩ ⟨_, rfl⟩
  obtain ⟨same, bytes, inPlace⟩ := generateWith_of_relaid edits
  obtain ⟨read', value, -⟩ := inPlace t u "k".toList g false {} read updates
  have done' : after'.value = .ok () := value.trans done
  exact ⟨edits, read, updates, same, done, done',
    bytes t u _ _ g g false false {} read read' done done'⟩

end KeywordSwitch
