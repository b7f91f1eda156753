import KeywordSwitch.Declaration
import Mathlib.Data.List.DropRight
import Mathlib.Data.List.Forall2

/-!
# Reading declarations

A declaration is read by taking away the macro and the brackets and splitting the rest at
its commas. No keyword holds a comma, so this gives the keyword and then its characters,
whatever the macro is called. Hence the declarations of a set tell the set and its order,
and a declaration file tells the declarations.
-/

namespace KeywordSwitch

namespace Text

/-- The parts of a text between the occurrences of a comma and a space after it. -/
def splitAtCommas : Text → List Text
  | [] => [[]]
  | ',' :: ' ' :: t => [] :: splitAtCommas t
  | c :: t => (splitAtCommas t).modifyHead (c :: ·)

variable {c : Char} {part : Text} {parts : List Text}

theorem splitAtCommas_cons_of_ne (other : c ≠ ',') (t : Text) :
    splitAtCommas (c :: t) = (splitAtCommas t).modifyHead (c :: ·) := by
  rw [splitAtCommas]
  rintro _ rfl
  exact absurd rfl other

theorem splitAtCommas_of_not_mem (single : ',' ∉ part) : splitAtCommas part = [part] := by
  induction part with
  | nil => rfl
  | cons c part ih =>
      obtain ⟨other, single⟩ := List.ne_and_not_mem_of_not_mem_cons single
      rw [splitAtCommas_cons_of_ne (Ne.symm other), ih single]
      rfl

/-- A part without a comma ends at the first comma after it. -/
theorem splitAtCommas_append (single : ',' ∉ part) (rest : Text) :
    splitAtCommas (part ++ (", ".toList ++ rest)) = part :: splitAtCommas rest := by
  induction part with
  | nil => rfl
  | cons c part ih =>
      obtain ⟨other, single⟩ := List.ne_and_not_mem_of_not_mem_cons single
      rw [List.cons_append, splitAtCommas_cons_of_ne (Ne.symm other), ih single]
      rfl

/-- Parts without commas are got back from the text that they are joined to. -/
theorem splitAtCommas_intercalate (filled : parts ≠ []) (single : ∀ part ∈ parts, ',' ∉ part) :
    splitAtCommas (", ".toList.intercalate parts) = parts := by
  induction parts with
  | nil => exact absurd rfl filled
  | cons part parts ih =>
      obtain ⟨here, later⟩ := List.forall_mem_cons.mp single
      cases parts with
      | nil =>
          rw [List.intercalate_singleton]
          exact splitAtCommas_of_not_mem here
      | cons next parts =>
          rw [List.intercalate_cons_cons, List.append_assoc, splitAtCommas_append here,
            ih (List.cons_ne_nil next parts) later]

end Text

namespace Style

/-- What stands between the brackets after the macro, split at the commas. -/
def arguments? (s : Style) (line : Text) : Option (List Text) := do
  let rest ← (s.macroName ++ " (".toList).isPrefixOf? line
  let inner ← [')'].isSuffixOf? rest
  return Text.splitAtCommas inner

/-- The keyword that a declaration names, and then its characters. -/
def spelling (w : Text) : List Text :=
  w :: w.map fun c => [c]

theorem spelling_injective : Function.Injective spelling :=
  fun _ _ same => (List.cons.inj same).1

/-- Neither a keyword nor a character of it is split. -/
theorem comma_not_mem_of_mem_spelling {w part : Text} (hw : IsKeyword w)
    (mem : part ∈ spelling w) : ',' ∉ part := by
  have notWord : isWordChar ',' = false := by decide
  intro comma
  rcases List.mem_cons.mp mem with rfl | char
  · rw [hw.2 ',' comma] at notWord
    cases notWord
  · obtain ⟨c, inside, rfl⟩ := List.mem_map.mp char
    rw [List.mem_singleton.mp comma, hw.2 c inside] at notWord
    cases notWord

theorem declaration_eq (s : Style) {w : Text} (filled : w ≠ []) :
    s.declaration w =
      s.macroName ++ " (".toList ++ (", ".toList.intercalate (spelling w) ++ [')']) := by
  obtain ⟨c, w, rfl⟩ := List.exists_cons_of_ne_nil filled
  simp only [declaration, spelling, List.map_cons, List.intercalate_cons_cons, List.append_assoc]

theorem arguments?_declaration (s : Style) {w : Text} (hw : IsKeyword w) :
    s.arguments? (s.declaration w) = some (spelling w) := by
  have begins : (s.macroName ++ " (".toList).isPrefixOf? (s.declaration w) =
      some (", ".toList.intercalate (spelling w) ++ [')']) := by
    rw [List.isPrefixOf?_eq_some_iff_append_eq, declaration_eq s hw.1]
  have ends : [')'].isSuffixOf? (", ".toList.intercalate (spelling w) ++ [')']) =
      some (", ".toList.intercalate (spelling w)) :=
    List.isSuffixOf?_eq_some_iff_append_eq.mpr rfl
  have parts := Text.splitAtCommas_intercalate (List.cons_ne_nil _ _)
    fun _ => comma_not_mem_of_mem_spelling hw
  rw [arguments?, begins, Option.bind_eq_bind, Option.bind_some, ends, Option.bind_some]
  exact congrArg some parts

theorem map_arguments?_declarations (s : Style) {ws : List Text} (hws : ∀ w ∈ ws, IsKeyword w) :
    (s.declarations ws).map s.arguments? = ws.map fun w => some (spelling w) := by
  rw [declarations, List.map_map]
  exact List.map_congr_left fun w mem => s.arguments?_declaration (hws w mem)

theorem declarations_inj (s : Style) {j k : KeywordSet} :
    s.declarations j.words = s.declarations k.words ↔ j = k := by
  constructor
  · intro same
    have read := congrArg (List.map s.arguments?) same
    rw [map_arguments?_declarations s j.isKeyword, map_arguments?_declarations s k.isKeyword]
      at read
    have injective : Function.Injective fun w => some (spelling w) :=
      fun _ _ same => spelling_injective (Option.some.inj same)
    exact KeywordSet.ext (List.map_injective_iff.mpr injective read)
  · rintro rfl
    rfl

/-- The declarations of a declaration file are what is left without the lines around them. -/
theorem rdrop_drop_declarationFile (s : Style) (k : KeywordSet) :
    ((s.declarationFile k).drop (s.banner.length + 5)).rdrop 2 = s.declarations k.words := by
  have header : s.declarationHeader.length = s.banner.length + 5 := List.length_append
  have trailer : s.declarationTrailer.length = 2 := rfl
  rw [declarationFile, List.append_assoc, ← header, List.drop_left, ← trailer,
    List.rdrop_append_length]

end Style

/-- Each declaration is read as its keyword followed by the characters of the keyword in order, so
that the declarations tell a keyword set with its order, and the declarations are what is left of
a declaration file without its header and its trailer. -/
theorem declarations_decode (s : Style) :
    (∀ k : KeywordSet, List.Forall₂
      (fun line w => ∃ parts, s.arguments? line = some parts ∧ parts.length = 1 + w.length ∧
        parts = w :: w.map fun c => [c]) (s.declarations k.words) k.words) ∧
    (∀ j k : KeywordSet, s.declarations j.words = s.declarations k.words ↔ j = k) ∧
    ∀ k : KeywordSet,
      ((s.declarationFile k).drop (s.banner.length + 5)).rdrop 2 = s.declarations k.words := by
  refine ⟨fun k => ?_, fun j k => s.declarations_inj, s.rdrop_drop_declarationFile⟩
  rw [Style.declarations, List.forall₂_map_left_iff, List.forall₂_same]
  intro w mem
  refine ⟨Style.spelling w, s.arguments?_declaration (k.isKeyword w mem), ?_, rfl⟩
  rw [Style.spelling, List.length_cons, List.length_map, Nat.add_comm]

end KeywordSwitch
