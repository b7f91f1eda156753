import KeywordSwitch.Proofs.Files.Outputs
import KeywordSwitch.Proofs.Matcher.CaseBlocks
import KeywordSwitch.Proofs.Matcher.Labels
import KeywordSwitch.Proofs.Text.WordBytes
import KeywordSwitch.Proofs.Trie.Counting
import Mathlib.Algebra.GroupWithZero.Nat

/-!
# The numbers in the log

A keyword set is counted when its files are written, its trie is counted as a whole, and each
case is counted when its block is rendered. The counts agree: what the log says of the single
cases adds up to what it says first. The texts of its records show these very numbers.
-/

namespace KeywordSwitch

/-- What the log says of one case. -/
structure CaseRecord where
  /-- The character of the case. -/
  label : Char
  /-- The number of nodes. -/
  nodes : Nat
  /-- The number of words. -/
  words : Nat
deriving DecidableEq, Repr

namespace CaseRecord

/-- The event that a case record comes from. -/
def event (r : CaseRecord) : Event :=
  .rendered r.label r.nodes r.words

/-- The text of the record, where `label` is how its character is shown. -/
def text (r : CaseRecord) (label : Text) : Text :=
  "case ".toList ++ label ++ ": ".toList ++ Text.decimal r.nodes ++ " nodes, ".toList ++
    Text.decimal r.words ++ " keywords".toList

theorem text_event (r : CaseRecord) : r.event.text = r.text (Text.quotedChar r.label) := rfl

/-- The record that an event leaves, if it is that of a case. -/
def ofEvent? : Event → Option CaseRecord
  | .rendered label nodes words => some ⟨label, nodes, words⟩
  | _ => none

end CaseRecord

/-- The case records among the events that a log at trace level keeps. -/
def caseRecords (events : List Event) : List CaseRecord :=
  (events.filter (Event.isKept .trace)).filterMap CaseRecord.ofEvent?

/-- A log at trace level keeps everything. -/
theorem filter_isKept_trace (events : List Event) :
    events.filter (Event.isKept .trace) = events :=
  List.filter_eq_self.mpr fun _ _ => rfl

/-- Case records are the details of the log. -/
theorem filter_level_eq_map_event (events : List Event) :
    (events.filter fun e => e.level = .trace) = (caseRecords events).map CaseRecord.event := by
  rw [caseRecords, filter_isKept_trace]
  induction events with
  | nil => rfl
  | cons e events ih =>
      cases e with
      | rendered label nodes words => exact congrArg (Event.rendered label nodes words :: ·) ih
      | built | outlined | wrote => exact ih

theorem caseRecords_append (first second : List Event) :
    caseRecords (first ++ second) = caseRecords first ++ caseRecords second := by
  rw [caseRecords, List.filter_append, List.filterMap_append, caseRecords, caseRecords]

/-- The total over the entries of a level as a sum over their list. -/
theorem Branches.total_eq_sum (f : Trie → Nat) (b : Branches) :
    b.total f = (b.toList.map fun p => f p.2).sum := by
  induction b with
  | nil => rfl
  | cons c terminal below rest _ ih => rw [total, toList, List.map_cons, List.sum_cons, ih]

namespace Trie

theorem caseRecords_matcherEvents (t : Trie) :
    caseRecords t.matcherEvents =
      t.children.map fun p => ⟨p.1, p.2.nodeCount, p.2.wordCount⟩ := by
  have record (p : Char × Trie) :
      CaseRecord.ofEvent? (.rendered p.1 p.2.nodeCount p.2.wordCount) =
        some ⟨p.1, p.2.nodeCount, p.2.wordCount⟩ := rfl
  rw [caseRecords, filter_isKept_trace, matcherEvents, List.filterMap_map, Function.comp_def]
  simp only [record, List.filterMap_eq_map']

/-- Case records are all that rendering logs. -/
theorem matcherEvents_eq_map_event (t : Trie) :
    t.matcherEvents = (caseRecords t.matcherEvents).map CaseRecord.event := by
  rw [caseRecords_matcherEvents, List.map_map]
  rfl

/-- A matcher is the blocks of its case records. -/
theorem matcher_eq_recordedBlocks {t : Trie} (canonical : t.Canonical) (s : Style) :
    s.matcher t = s.banner ++ [] :: generatedWarning ++
      (caseRecords t.matcherEvents).flatMap fun r => s.caseBlock t r.label := by
  rw [matcher_eq_caseBlocks canonical, caseRecords_matcherEvents, List.flatMap_map,
    List.flatMap_map]

theorem isSome_child?_label {t : Trie} {r : CaseRecord} (logged : r ∈ caseRecords t.matcherEvents) :
    (t.branches.child? r.label).isSome = true := by
  rw [caseRecords_matcherEvents] at logged
  obtain ⟨p, entry, rfl⟩ := List.mem_map.mp logged
  exact Branches.mem_chars_iff.mp (List.mem_map_of_mem entry)

/-- Each node below the top one is counted at the one case that it belongs to. -/
theorem sum_nodes_matcherEvents (t : Trie) :
    ((caseRecords t.matcherEvents).map (·.nodes)).sum = t.size := by
  rw [caseRecords_matcherEvents, List.map_map, size, Branches.size_eq_total,
    Branches.total_eq_sum, children]
  rfl

/-- Each mark below the top node is counted at the one case that it belongs to. -/
theorem sum_words_matcherEvents (t : Trie) :
    ((caseRecords t.matcherEvents).map (·.words)).sum = t.branches.wordCount := by
  rw [caseRecords_matcherEvents, List.map_map, Branches.wordCount_eq_total,
    Branches.total_eq_sum, children]
  rfl

/-- The marks below the top node are the distinct words with characters. -/
theorem wordCount_branches_ofList (ws : List Text) :
    (ofList ws).branches.wordCount = (ws.toFinset.erase []).card := by
  have marks := wordCount_ofList ws
  have top : (ofList ws).terminal = true ↔ [] ∈ ws.toFinset := by
    rw [← contains_nil, contains_ofList, List.mem_toFinset]
  rw [wordCount] at marks
  by_cases empty : [] ∈ ws.toFinset
  · rw [top.mpr empty, Bool.toNat_true] at marks
    rw [Finset.card_erase_of_mem empty]
    omega
  · rw [Bool.eq_false_iff.mpr (mt top.mp empty), Bool.toNat_false, Nat.zero_add] at marks
    rw [Finset.erase_eq_of_notMem empty, marks]

end Trie

namespace KeywordSet

/-- The marks below the top node of the trie of a keyword set are its keywords. -/
theorem wordCount_branches_trie (K : KeywordSet) : K.trie.branches.wordCount = K.size := by
  have marks := Trie.wordCount_ofList K.words
  rw [List.toFinset_card_of_nodup K.nodup] at marks
  rw [← KeywordSet.trie, Trie.wordCount, K.terminal_trie, Bool.toNat_false, Nat.zero_add] at marks
  exact marks

/-- The characters that keywords begin with are word characters. -/
theorem isWordChar_label {K : KeywordSet} {r : CaseRecord}
    (logged : r ∈ caseRecords K.trie.matcherEvents) : isWordChar r.label = true := by
  obtain ⟨n, child⟩ := Option.isSome_iff_exists.mp (Trie.isSome_child?_label logged)
  have path : K.trie.descend? [r.label] = some n := by rw [Trie.descend?_singleton, child]
  have node : ([r.label], n) ∈ K.trie.nodes :=
    (Trie.mem_nodes_iff (Trie.canonical_ofList K.words)).mpr ⟨List.cons_ne_nil r.label [], path⟩
  exact isWordChar_of_mem_nodes node r.label (List.mem_singleton_self r.label)

theorem ne_newline_of_mem_nodes (K : KeywordSet) :
    ∀ q ∈ K.trie.nodes, ∀ c ∈ q.1, c ≠ '\n' := by
  rintro q mem c inside rfl
  exact absurd (isWordChar_of_mem_nodes mem '\n' inside) (by decide)

end KeywordSet

namespace Procedure

variable {path : Text} {events : List Event} {lines : List Text} {t : FileTree} {g : Target}
  {K : KeywordSet} {outline : Bool} {s : Style}

/-- Adding lines to a file is not reported. -/
theorem events_appendLines (path : Text) (lines : List Text) (t : FileTree) :
    ((appendLines path lines).run t).events = [] := by
  induction lines generalizing t with
  | nil => rfl
  | cons line lines ih =>
      rw [appendLines, run]
      cases t.append path (Text.utf8 (line ++ ['\n'])) with
      | error e => rfl
      | ok u => exact ih u

/-- A file that has been written is reported after its lines. -/
theorem events_writeFile (done : ((writeFile path events lines).run t).value = .ok ()) :
    ((writeFile path events lines).run t).events = events ++ [.wrote path] := by
  rw [writeFile, run] at done ⊢
  cases made : t.create path with
  | error e =>
      rw [made] at done
      cases done
  | ok u =>
      simp only [made, run_notes, run_bind_eq, events_appendLines, List.nil_append] at done ⊢
      cases result : ((appendLines path lines).run u).value with
      | error e =>
          rw [result] at done
          cases done
      | ok _ => rfl

/-- The log of a generation that succeeds: the counts of the whole, the outline if it is asked for,
the first file, the cases, and the second file. -/
theorem events_writeOutputs (done : ((writeOutputs K g outline s).run t).value = .ok ()) :
    ((writeOutputs K g outline s).run t).events =
      .built K.size K.trie.size K.trie.children.length ::
        ((if outline then [.outlined K.trie.outline] else []) ++
          ([.wrote g.declarationPath] ++ (K.trie.matcherEvents ++ [.wrote g.matcherPath]))) := by
  rw [writeOutputs, run_notes, run_bind_eq] at done ⊢
  cases first : ((writeFile g.declarationPath [] (s.declarationFile K)).run t).value with
  | error e =>
      rw [first] at done
      cases done
  | ok _ =>
      simp only [first] at done ⊢
      rw [events_writeFile first, events_writeFile done]
      rfl

/-- Where both files can be made, generation succeeds and leaves the matcher in its file. -/
theorem writeOutputs_succeeds (declarations : ∃ v, t.create g.declarationPath = .ok v)
    (matcher : ∃ v, t.create g.matcherPath = .ok v) :
    ((writeOutputs K g outline s).run t).value = .ok () ∧
      ((writeOutputs K g outline s).run t).tree.Holds g.matcherPath
        (fileBytes (s.matcher K.trie)) := by
  obtain ⟨result, u, leads, writes⟩ := leads_writeOutputs t K g outline s
  rw [leads.value, leads.tree]
  obtain rfl := writes.eq_ok declarations matcher
  exact ⟨rfl, writes.holds.2⟩

end Procedure

/-- The cases alone leave case records in the log of a generation. -/
theorem caseRecords_log (K : KeywordSet) (g : Target) (outline : Bool) :
    caseRecords ((if outline then [.outlined K.trie.outline] else []) ++
      ([.wrote g.declarationPath] ++ (K.trie.matcherEvents ++ [.wrote g.matcherPath]))) =
        caseRecords K.trie.matcherEvents := by
  have report : caseRecords (if outline then [.outlined K.trie.outline] else []) = [] := by
    cases outline <;> rfl
  have wrote (path : Text) : caseRecords [.wrote path] = [] := rfl
  rw [caseRecords_append, caseRecords_append, caseRecords_append, report, wrote, wrote,
    List.nil_append, List.nil_append, List.append_nil]

/-- Rendering a matcher logs one record for each of its blocks, in their order, and the text of the
record shows its numbers. The node numbers add up to the size of the trie, and the word numbers to
the number of distinct words with characters. Where both files of a keyword set can be made, the log
begins with a text that shows the sums of these numbers and the number of records, which is the
number of labels in the matcher's file. -/
theorem logged_numbers_add_up :
    (∀ (s : Style) (ws : List Text),
      let t := Trie.ofList ws
      let records := caseRecords t.matcherEvents
      t.matcherEvents.filter (Event.isKept .trace) = records.map CaseRecord.event ∧
      (t.matcherEvents.filter (Event.isKept .trace)).map Event.text =
        records.map (fun r => r.text (Text.quotedChar r.label)) ∧
      s.matcher t = s.banner ++ [] :: generatedWarning ++
        records.flatMap (fun r => s.caseBlock t r.label) ∧
      (∀ r ∈ records, ∃ body, s.caseBlock t r.label =
        ("case '".toList ++ r.label :: "':".toList) :: body ++ ["\tbreak;".toList, []]) ∧
      (records.map (·.nodes)).sum = t.size ∧
      (records.map (·.words)).sum = (ws.toFinset.erase []).card) ∧
    ∀ (s : Style) (K : KeywordSet) (g : Target) (outline : Bool) (t : FileTree),
      let after := (writeOutputs K g outline s).run t
      (∃ v, t.create g.declarationPath = .ok v) → (∃ v, t.create g.matcherPath = .ok v) →
      after.value = .ok () ∧ ∃ keywords nodes firsts rest,
        after.events = .built keywords nodes firsts :: rest ∧
        (Event.built keywords nodes firsts).level = .debug ∧
        (Event.built keywords nodes firsts).text =
          Text.decimal keywords ++ " keywords, ".toList ++ Text.decimal nodes ++
            " trie nodes, ".toList ++ Text.decimal firsts ++ " first characters".toList ∧
        (rest.filter fun e => e.level = .trace).map Event.text =
          (caseRecords rest).map (fun r => r.text ['\'', r.label, '\'']) ∧
        keywords = ((caseRecords rest).map (·.words)).sum ∧
        nodes = ((caseRecords rest).map (·.nodes)).sum ∧
        firsts = (caseRecords rest).length ∧
        after.tree.Holds g.matcherPath (fileBytes (s.matcher K.trie)) ∧
        (s.matcher K.trie).countP isCaseLabel = s.banner.countP isCaseLabel + firsts ∧
        (s.IsLinewise →
          ((Text.unlines (s.matcher K.trie)).splitOn '\n').countP isCaseLabel = firsts) := by
  constructor
  · intro s ws t records
    have log : t.matcherEvents.filter (Event.isKept .trace) = records.map CaseRecord.event := by
      rw [filter_isKept_trace]
      exact t.matcherEvents_eq_map_event
    refine ⟨log, ?_, Trie.matcher_eq_recordedBlocks (Trie.canonical_ofList ws) s, ?_,
      t.sum_nodes_matcherEvents, ?_⟩
    · rw [log, List.map_map]
      exact List.map_congr_left fun r _ => r.text_event
    · intro r logged
      exact exists_caseBlock_eq s (Trie.isSome_child?_label logged)
    · rw [t.sum_words_matcherEvents, Trie.wordCount_branches_ofList]
  · intro s K g outline t after declarations matcher
    obtain ⟨done, holds⟩ : after.value = .ok () ∧ _ :=
      Procedure.writeOutputs_succeeds declarations matcher
    refine ⟨done, _, _, _, _, Procedure.events_writeOutputs done, rfl, rfl, ?_, ?_, ?_, ?_, holds,
      s.countP_isCaseLabel_matcher K.trie,
      fun linewise => linewise.countP_isCaseLabel_splitOn K.ne_newline_of_mem_nodes⟩
    · rw [filter_level_eq_map_event, caseRecords_log, List.map_map]
      apply List.map_congr_left
      intro r logged
      rw [Function.comp_apply, r.text_event,
        Text.quotedChar_of_isWordChar (KeywordSet.isWordChar_label logged)]
    · rw [caseRecords_log, Trie.sum_words_matcherEvents, K.wordCount_branches_trie]
    · rw [caseRecords_log, Trie.sum_nodes_matcherEvents]
    · rw [caseRecords_log, Trie.caseRecords_matcherEvents, List.length_map]

/-- Two keywords that share their beginning, and one that begins with another character. -/
def ifIfdefOn : KeywordSet where
  words := ["if".toList, "ifdef".toList, "on".toList]
  nodup := by decide
  isKeyword := by decide

/-- The log of three keywords whose files are put into an empty directory. -/
theorem logged_numbers_of_ifIfdefOn :
    let t : FileTree := { entries := [] }
    let g : Target := ⟨[], "m".toList⟩
    let matcher := ({} : Style).matcher ifIfdefOn.trie
    let after := (writeOutputs ifIfdefOn g false {}).run t
    (∃ v, t.create g.declarationPath = .ok v) ∧ (∃ v, t.create g.matcherPath = .ok v) ∧
      ({} : Style).IsLinewise ∧ after.value = .ok () ∧
      after.events.map Event.text =
        ["3 keywords, 7 trie nodes, 2 first characters".toList, "wrote m.hxx".toList,
          "case 'i': 5 nodes, 2 keywords".toList, "case 'o': 2 nodes, 1 keywords".toList,
          "wrote m.inl".toList] ∧
      ∃ keywords nodes firsts rest,
        after.events = .built keywords nodes firsts :: rest ∧
        (rest.filter fun e => e.level = .trace).map Event.text =
          (caseRecords rest).map (fun r => r.text ['\'', r.label, '\'']) ∧
        keywords = ((caseRecords rest).map (·.words)).sum ∧
        nodes = ((caseRecords rest).map (·.nodes)).sum ∧
        firsts = (caseRecords rest).length ∧
        after.tree.Holds g.matcherPath (fileBytes matcher) ∧
        ((Text.unlines matcher).splitOn '\n').countP isCaseLabel = firsts := by
  intro t g matcher after
  have declarations : ∃ v, t.create g.declarationPath = .ok v := ⟨_, rfl⟩
  have matcherToo : ∃ v, t.create g.matcherPath = .ok v := ⟨_, rfl⟩
  obtain ⟨done, keywords, nodes, firsts, rest, log, -, -, texts, sumWords, sumNodes, number, holds,
    -, labels⟩ := logged_numbers_add_up.2 {} ifIfdefOn g false t declarations matcherToo
  refine ⟨declarations, matcherToo, Style.isLinewise_default, done, ?_, keywords, nodes, firsts,
    rest, log, texts, sumWords, sumNodes, number, holds, labels Style.isLinewise_default⟩
  rw [Procedure.events_writeOutputs done]
  decide +kernel

end KeywordSwitch
