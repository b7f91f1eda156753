import KeywordSwitch.Generate
import KeywordSwitch.Proofs.Files.Writing
import KeywordSwitch.Proofs.KeywordSet.Faults

/-!
# What generation leaves in a file tree

Generation fails before the first file is made, between the two files, or not at all. In
each case the tree afterwards is given by the tree before, the text of the keyword list
and the style: the files hold what is rendered from the list as it was read, even if one
of them takes the place of the list.

## Implementation notes

Both paths of a target have one stem, so their places are next to each other in one
directory. Hence the declaration file never stands in the way of the matcher, and what
refuses the matcher after the declaration file has been written has refused it before.
-/

namespace KeywordSwitch

variable {t u : FileTree} {p q : Place} {path text : Text} {g : Target} {outline : Bool} {s : Style}
  {k : KeywordSet}

namespace Target

theorem isEnding_declaration : Path.IsEnding ".hxx".toList :=
  ⟨by decide, by decide, by decide⟩

theorem isEnding_matcher : Path.IsEnding ".inl".toList :=
  ⟨by decide, by decide, by decide⟩

/-- Where there is a place for the declaration file, there is another one for the matcher. -/
theorem exists_matcher_place (place : t.resolve g.declarationPath = .ok p) :
    ∃ q, q ≠ p ∧ t.resolve g.matcherPath = .ok q := by
  obtain ⟨site, beside⟩ := t.exists_resolve_ending (Path.join g.dir g.name)
  have first : t.resolve g.declarationPath = site.map (FileTree.placeIn ".hxx".toList) := by
    rw [declarationPath, isEnding_declaration.join_append]
    exact beside _ isEnding_declaration
  have second : t.resolve g.matcherPath = site.map (FileTree.placeIn ".inl".toList) := by
    rw [matcherPath, isEnding_matcher.join_append]
    exact beside _ isEnding_matcher
  cases site with
  | error e =>
      rw [first] at place
      cases place
  | ok site =>
      rw [first] at place
      refine ⟨FileTree.placeIn ".inl".toList site, ?_, second⟩
      rw [← Except.ok.inj place]
      simp [FileTree.placeIn]

end Target

/-- The text of the file at a path. -/
def FileTree.readText (t : FileTree) (path : Text) : Except FileError Text :=
  match t.read path with
  | .error e => .error e
  | .ok bytes =>
      match Text.ofUtf8? bytes with
      | some text => .ok text
      | none => .error .notUtf8

/-- A text comes from a file that holds its bytes and that the system lets be read. -/
theorem FileTree.readText_eq_ok_iff :
    t.readText path = .ok text ↔
      ∃ p bytes, t.resolve path = .ok p ∧ t.get? p = some (.file bytes) ∧
        t.refusal .reading p = none ∧ Text.ofUtf8? bytes = some text := by
  rw [readText, read]
  cases place : t.resolve path with
  | error e => simp [bind, Except.bind]
  | ok p =>
      cases found : t.get? p with
      | none => simp [bind, Except.bind, found]
      | some entry =>
          cases entry with
          | dir => simp [bind, Except.bind, found]
          | file bytes =>
              cases refused : t.refusal .reading p with
              | some e => simp [bind, Except.bind, found, refused]
              | none =>
                  cases decoded : Text.ofUtf8? bytes <;>
                    simp [bind, Except.bind, found, refused, decoded]

/-- What writing the files of the set `k` to the tree `t` ends with and leaves. -/
inductive Writes (t : FileTree) (k : KeywordSet) (g : Target) (s : Style) :
    Except Failure Unit → FileTree → Prop where
  /-- The declaration file cannot be made, and nothing changes. -/
  | noDeclarations {e : FileError} (refused : t.create g.declarationPath = .error e) :
      Writes t k g s (.error (.uncreatable g.declarationPath e)) t
  /-- The matcher cannot be made, and the complete declaration file is all that changes. -/
  | noMatcher {e : FileError} {v u : FileTree} (made : t.create g.declarationPath = .ok v)
      (refused : t.create g.matcherPath = .error e)
      (updates : t.Updates u [(g.declarationPath, fileBytes (s.declarationFile k))]) :
      Writes t k g s (.error (.uncreatable g.matcherPath e)) u
  /-- Both files are complete, and nothing else changes. -/
  | complete {v w u : FileTree} (made : t.create g.declarationPath = .ok v)
      (madeToo : t.create g.matcherPath = .ok w)
      (updates : t.Updates u
        [(g.declarationPath, fileBytes (s.declarationFile k)),
          (g.matcherPath, fileBytes (s.matcher k.trie))]) :
      Writes t k g s (.ok ()) u

namespace Writes

/-- Where both files can be made, nothing else fails. -/
theorem eq_ok {result : Except Failure Unit} (writes : Writes t k g s result u)
    (declarations : ∃ v, t.create g.declarationPath = .ok v)
    (matcher : ∃ v, t.create g.matcherPath = .ok v) : result = .ok () := by
  obtain ⟨v, made⟩ := declarations
  obtain ⟨w, madeToo⟩ := matcher
  cases writes with
  | noDeclarations refused =>
      rw [made] at refused
      cases refused
  | noMatcher _ refused =>
      rw [madeToo] at refused
      cases refused
  | complete _ _ _ => rfl

/-- Where nothing fails, the files hold what is rendered from the set. -/
theorem holds (writes : Writes t k g s (.ok ()) u) :
    u.Holds g.declarationPath (fileBytes (s.declarationFile k)) ∧
      u.Holds g.matcherPath (fileBytes (s.matcher k.trie)) := by
  cases writes with
  | complete _ _ updates =>
      have holds := updates.holds
      simp only [List.forall_mem_cons] at holds
      exact ⟨holds.1, holds.2.1⟩

end Writes

/-- What generation from the list at `path` ends with and leaves in the tree `t`. -/
inductive Generates (t : FileTree) (path : Text) (g : Target) (s : Style) :
    Except Failure Unit → FileTree → Prop where
  /-- The list cannot be read as a text, and nothing changes. -/
  | unreadable {e : FileError} (failed : t.readText path = .error e) :
      Generates t path g s (.error (.unreadable path e)) t
  /-- The list holds a word that is no keyword, and nothing changes. -/
  | invalidList {text : Text} {e : KeywordError} (read : t.readText path = .ok text)
      (faulty : KeywordSet.parse text = .error e) :
      Generates t path g s (.error (.invalidList path e)) t
  /-- The files of the set that the list stands for are written. -/
  | outputs {text : Text} {k : KeywordSet} {result : Except Failure Unit} {u : FileTree}
      (read : t.readText path = .ok text) (parsed : KeywordSet.parse text = .ok k)
      (writes : Writes t k g s result u) : Generates t path g s result u

/-- Where both files are complete, they hold what is rendered from the list that was read. -/
theorem Generates.exists_holds {t u : FileTree} (generates : Generates t path g s (.ok ()) u) :
    ∃ text k, t.readText path = .ok text ∧ KeywordSet.parse text = .ok k ∧
      u.Holds g.declarationPath (fileBytes (s.declarationFile k)) ∧
      u.Holds g.matcherPath (fileBytes (s.matcher k.trie)) := by
  cases generates with
  | outputs read parsed writes => exact ⟨_, _, read, parsed, writes.holds⟩

namespace Procedure

theorem run_readText (path : Text) (t : FileTree) :
    (readText path).run t = ⟨t.readText path, [], [], t⟩ := by
  rw [readText, run, FileTree.readText]
  cases t.read path with
  | error e => rfl
  | ok bytes =>
      dsimp only
      cases Text.ofUtf8? bytes <;> rfl

theorem leads_readText (path : Text) (t : FileTree) :
    (readText path).Leads t (t.readText path) t := by
  constructor
  · rw [run_readText]
  · rw [run_readText]

theorem onlyWrites_writeFile (path : Text) (events : List Event) (lines : List Text) :
    (writeFile path events lines).OnlyWrites := by
  refine .create path fun answer => ?_
  cases answer with
  | error e => exact .done _
  | ok _ =>
      refine .notes (.bind (onlyWrites_appendLines path lines) fun result => ?_) events
      cases result with
      | error e => exact .done _
      | ok _ => exact .note _ (.done _)

theorem onlyWrites_writeOutputs (k : KeywordSet) (g : Target) (outline : Bool) (s : Style) :
    (writeOutputs k g outline s).OnlyWrites := by
  refine .notes (.bind (onlyWrites_writeFile _ _ _) fun result => ?_) _
  cases result with
  | error e => exact .done _
  | ok _ => exact onlyWrites_writeFile _ _ _

theorem leads_writeFile (takes : t.Takes path p) (events : List Event) (lines : List Text) :
    (writeFile path events lines).Leads t (.ok ()) (t.put p (.file (fileBytes lines))) := by
  have ended : (Procedure.notes [.wrote path] (.done (Except.ok ()))).Leads
      (t.put p (.file (fileBytes lines))) (Except.ok () : Except Failure Unit) _ :=
    .notes _ (.done _ _)
  exact .create takes.create (.notes events (.bind (leads_appendLines takes [] lines) ended))

theorem leads_writeFile_of_error {e : FileError} (refused : t.create path = .error e)
    (events : List Event) (lines : List Text) :
    (writeFile path events lines).Leads t (.error (.uncreatable path e)) t :=
  .create_error refused (.done _ t)

/-- Writing both files goes one of three ways, which only the tree before decides. -/
theorem leads_writeOutputs (t : FileTree) (k : KeywordSet) (g : Target) (outline : Bool)
    (s : Style) :
    ∃ result u, (writeOutputs k g outline s).Leads t result u ∧ Writes t k g s result u := by
  cases made : t.create g.declarationPath with
  | error e =>
      have stopped := leads_writeFile_of_error made [] (s.declarationFile k)
      exact ⟨_, t, .notes _ (.bind stopped (.done _ t)), .noDeclarations made⟩
  | ok v =>
      obtain ⟨p, takes, -⟩ := FileTree.takes_of_create made
      obtain ⟨q, other, place⟩ := Target.exists_matcher_place takes.place
      let u := t.put p (.file (fileBytes (s.declarationFile k)))
      have first := leads_writeFile takes [] (s.declarationFile k)
      have updates : t.Updates u [(g.declarationPath, fileBytes (s.declarationFile k))] :=
        (FileTree.Updates.none t).put takes (by simp) _
      -- What the matcher meets is what it would have met before the declarations.
      have placeThen : u.resolve g.matcherPath = .ok q :=
        updates.directories.resolve_eq_ok_iff.mpr place
      have obstacleThen : u.obstacle? q = t.obstacle? q := FileTree.obstacle?_put_of_ne other _
      cases blocked : t.obstacle? q with
      | some e =>
          have refusedThen := FileTree.create_of_obstacle placeThen (obstacleThen.trans blocked)
          have stopped := leads_writeFile_of_error refusedThen k.trie.matcherEvents
            (s.matcher k.trie)
          exact ⟨_, u, .notes _ (.bind first stopped),
            .noMatcher made (FileTree.create_of_obstacle place blocked) updates⟩
      | none =>
          have takesThen : u.Takes g.matcherPath q := ⟨placeThen, obstacleThen.trans blocked⟩
          have second := leads_writeFile takesThen k.trie.matcherEvents (s.matcher k.trie)
          have apart : u.resolve g.declarationPath ≠ .ok q := by
            rw [updates.directories.resolve_eq_ok_iff.mpr takes.place]
            exact fun same => other (Except.ok.inj same).symm
          exact ⟨_, _, .notes _ (.bind first second),
            .complete made (FileTree.Takes.create ⟨place, blocked⟩)
              (updates.put takesThen (by simpa using apart) _)⟩

/-- Generation goes the way that the tree before, the keyword list and the style decide. -/
theorem leads_generateWith (t : FileTree) (path : Text) (g : Target) (outline : Bool)
    (s : Style) :
    ∃ result u, (generateWith path g outline s).Leads t result u ∧
      Generates t path g s result u := by
  have start := leads_readText path t
  cases read : t.readText path with
  | error e =>
      rw [read] at start
      exact ⟨_, t, .bind start (.done _ t), .unreadable read⟩
  | ok text =>
      rw [read] at start
      cases parsed : KeywordSet.parse text with
      | error e =>
          refine ⟨_, t, .bind start ?_, .invalidList read parsed⟩
          simp only [parsed]
          exact .done _ t
      | ok k =>
          obtain ⟨result, u, leads, writes⟩ := leads_writeOutputs t k g outline s
          refine ⟨result, u, .bind start ?_, .outputs read parsed writes⟩
          simp only [parsed]
          exact leads

theorem generates_generateWith (t : FileTree) (path : Text) (g : Target) (outline : Bool)
    (s : Style) :
    Generates t path g s ((generateWith path g outline s).run t).value
      ((generateWith path g outline s).run t).tree := by
  obtain ⟨result, u, leads, generates⟩ := leads_generateWith t path g outline s
  rw [leads.value, leads.tree]
  exact generates

/-- Where generation succeeds, both files hold what is rendered from the list that was read. -/
theorem exists_holds_of_value (done : ((generateWith path g outline s).run t).value = .ok ()) :
    ∃ text k, t.readText path = .ok text ∧ KeywordSet.parse text = .ok k ∧
      ((generateWith path g outline s).run t).tree.Holds g.declarationPath
        (fileBytes (s.declarationFile k)) ∧
      ((generateWith path g outline s).run t).tree.Holds g.matcherPath
        (fileBytes (s.matcher k.trie)) := by
  have generates := generates_generateWith t path g outline s
  rw [done] at generates
  exact generates.exists_holds

/-- Generation succeeds if the list is read and holds keywords alone, and both files can be made. -/
theorem value_eq_ok (read : t.readText path = .ok text)
    (keywords : ∀ w ∈ KeywordSet.entries text, IsKeyword w)
    (declarations : ∃ v, t.create g.declarationPath = .ok v)
    (matcher : ∃ v, t.create g.matcherPath = .ok v) :
    ((generateWith path g outline s).run t).value = .ok () := by
  obtain ⟨result, u, leads, generates⟩ := leads_generateWith t path g outline s
  rw [leads.value]
  cases generates with
  | unreadable failed =>
      rw [read] at failed
      cases failed
  | invalidList read' fault =>
      obtain rfl := Except.ok.inj (read'.symm.trans read)
      have sorted : ∀ w ∈ (KeywordSet.entries _).mergeSort Text.le, IsKeyword w := fun w mem =>
        keywords w (List.mem_mergeSort.mp mem)
      obtain ⟨k, parsed, -⟩ := KeywordSet.ofList_of_forall_isKeyword sorted
      rw [← KeywordSet.parse, fault] at parsed
      cases parsed
  | outputs read' parsed writes => exact writes.eq_ok declarations matcher

end Procedure

/-- Generation ends with an error and leaves the tree as it was, ends with an error and leaves
the complete declaration file alone, or leaves both files complete. What complete files hold
depends on the text of the list and on the style alone: two generations from equal texts write
the same, whatever the trees, the places of the lists and of the files, and the reports. -/
theorem generateWith_effect (s : Style) :
    (∀ (t : FileTree) (path : Text) (g : Target) (outline : Bool),
      Generates t path g s ((generateWith path g outline s).run t).value
        ((generateWith path g outline s).run t).tree) ∧
    ∀ (t t' : FileTree) (path path' : Text) (g g' : Target) (outline outline' : Bool),
      let after := (generateWith path g outline s).run t
      let after' := (generateWith path' g' outline' s).run t'
      t.readText path = t'.readText path' → after.value = .ok () → after'.value = .ok () →
      ∃ declarations matcher,
        after.tree.Holds g.declarationPath declarations ∧
        after.tree.Holds g.matcherPath matcher ∧
        after'.tree.Holds g'.declarationPath declarations ∧
        after'.tree.Holds g'.matcherPath matcher := by
  constructor
  · exact fun t path g outline => Procedure.generates_generateWith t path g outline s
  · intro t t' path path' g g' outline outline' after after' sameText done done'
    obtain ⟨text, k, read, parsed, declarations, matcher⟩ := Procedure.exists_holds_of_value done
    obtain ⟨text', k', read', parsed', declarations', matcher'⟩ :=
      Procedure.exists_holds_of_value done'
    obtain rfl : text = text' := Except.ok.inj (read.symm.trans (sameText.trans read'))
    obtain rfl : k = k' := Except.ok.inj (parsed.symm.trans parsed')
    exact ⟨_, _, declarations, matcher, declarations', matcher'⟩

/-- A list stands where its matcher goes, and another file with the same text does not. -/
theorem generateWith_effect_of_list_as_matcher :
    let text : Text := "b,a".toList
    let g : Target := ⟨[], "m".toList⟩
    let t : FileTree := { entries := [(["m.inl".toList], .file (Text.utf8 text))] }
    let t' : FileTree :=
      { entries := [(["k".toList], .file (Text.utf8 text)),
          (["m.hxx".toList], .file (Text.utf8 "an old file".toList))] }
    let after := (generateWith g.matcherPath g true {}).run t
    let after' := (generateWith "k".toList g false {}).run t'
    t.readText g.matcherPath = t'.readText "k".toList ∧ after.value = .ok () ∧
      after'.value = .ok () ∧
      ∃ declarations matcher,
        after.tree.Holds g.declarationPath declarations ∧
        after.tree.Holds g.matcherPath matcher ∧
        after'.tree.Holds g.declarationPath declarations ∧
        after'.tree.Holds g.matcherPath matcher := by
  intro text g t t' after after'
  have read : t.readText g.matcherPath = .ok text :=
    FileTree.readText_eq_ok_iff.mpr ⟨["m.inl".toList], _, rfl, rfl, rfl, Text.ofUtf8?_utf8 text⟩
  have read' : t'.readText "k".toList = .ok text :=
    FileTree.readText_eq_ok_iff.mpr ⟨["k".toList], _, rfl, rfl, rfl, Text.ofUtf8?_utf8 text⟩
  have keywords : ∀ w ∈ KeywordSet.entries text, IsKeyword w := by decide +kernel
  have done : after.value = .ok () := Procedure.value_eq_ok read keywords ⟨_, rfl⟩ ⟨_, rfl⟩
  have done' : after'.value = .ok () := Procedure.value_eq_ok read' keywords ⟨_, rfl⟩ ⟨_, rfl⟩
  have sameText : t.readText g.matcherPath = t'.readText "k".toList := read.trans read'.symm
  exact ⟨sameText, done, done',
    (generateWith_effect {}).2 t t' _ _ g g true false sameText done done'⟩

end KeywordSwitch
