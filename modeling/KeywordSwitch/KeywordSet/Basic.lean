import KeywordSwitch.Text.Basic
import KeywordSwitch.Text.Quoted

/-!
# Keyword sets

A keyword set is an ordered list of distinct keywords. A keyword is a non-empty
word of ASCII letters, digits and underscores, so that it can end an identifier
and each of its characters can stand between apostrophes.

## Implementation notes

Both properties are fields of the structure. `KeywordSet.ofList` is the only way
in for words from outside: it goes through them once, stops at the first faulty one
and otherwise drops every repetition.
-/

namespace KeywordSwitch

/-- Whether a character may occur in a keyword. -/
def isWordChar (c : Char) : Bool :=
  c.isAlphanum || c = '_'

/-- A keyword has at least one character, and only ASCII letters, digits and underscores. -/
def IsKeyword (w : Text) : Prop :=
  w ≠ [] ∧ ∀ c ∈ w, isWordChar c = true

instance (w : Text) : Decidable (IsKeyword w) :=
  decidable_of_iff (w ≠ [] ∧ w.all isWordChar = true) (by simp [IsKeyword])

/-- Why a list of words does not make a keyword set. -/
inductive KeywordError where
  /-- The word at this position, counted from zero, has no characters. -/
  | empty (index : Nat)
  /-- The word holds a character that no keyword may hold. -/
  | invalid (keyword : Text) (offending : Char)
deriving DecidableEq, Repr

/-- The wording of a fault. -/
def KeywordError.message : KeywordError → Text
  | .empty index => "empty keyword at position ".toList ++ Text.decimal index
  | .invalid keyword offending =>
      "keyword ".toList ++ Text.quoted keyword ++ " contains invalid character ".toList ++
        Text.quotedChar offending

/-- The character that is reported of a word with characters which is no keyword. -/
def offending (w : Text) : Char :=
  (w.find? fun c => !isWordChar c).getD '\x00'

/-- The fault of the word at position `index`, or `none` if the word is a keyword. -/
def fault? (index : Nat) (w : Text) : Option KeywordError :=
  if w = [] then some (.empty index)
  else if IsKeyword w then none
  else some (.invalid w (offending w))

/-- Keywords are the words without a fault. -/
theorem fault?_eq_none_iff {index : Nat} {w : Text} : fault? index w = none ↔ IsKeyword w := by
  by_cases h : w = []
  · simp [fault?, IsKeyword, h]
  · simp [fault?, h]

/-- A list of distinct keywords, in the order of their declaration. -/
structure KeywordSet where
  /-- The keywords, each once. -/
  words : List Text
  /-- No keyword is listed twice. -/
  nodup : words.Nodup
  /-- Every word of the list is a keyword. -/
  isKeyword : ∀ w ∈ words, IsKeyword w
deriving DecidableEq

namespace KeywordSet

/-- The keyword set with no keyword. -/
def empty : KeywordSet where
  words := []
  nodup := by simp
  isKeyword := by simp

instance : EmptyCollection KeywordSet := ⟨empty⟩

instance : Inhabited KeywordSet := ⟨empty⟩

instance : Membership Text KeywordSet where
  mem s w := w ∈ s.words

instance (w : Text) (s : KeywordSet) : Decidable (w ∈ s) :=
  inferInstanceAs (Decidable (w ∈ s.words))

/-- The number of keywords. -/
def size (s : KeywordSet) : Nat :=
  s.words.length

/-- Whether there is no keyword. -/
def isEmpty (s : KeywordSet) : Bool :=
  s.words.isEmpty

/-- The set with a keyword at its end, or the set itself if it has the keyword already. -/
def push (s : KeywordSet) (w : Text) (keyword : IsKeyword w) : KeywordSet :=
  if known : w ∈ s then s
  else
    { words := s.words ++ [w]
      nodup := by
        rw [List.nodup_append]
        refine ⟨s.nodup, by simp, ?_⟩
        rintro v mem _ last rfl
        exact known (List.mem_singleton.mp last ▸ mem)
      isKeyword := by
        intro v mem
        rcases List.mem_append.mp mem with mem | last
        · exact s.isKeyword v mem
        · exact List.mem_singleton.mp last ▸ keyword }

/-- Adds words in turn, of which the first stands at position `index`, up to the first faulty one. -/
def pushAll (s : KeywordSet) (index : Nat) : List Text → Except KeywordError KeywordSet
  | [] => .ok s
  | w :: ws =>
      match fault : fault? index w with
      | some e => .error e
      | none => (s.push w (fault?_eq_none_iff.mp fault)).pushAll (index + 1) ws

/-- The first occurrences of the words, or the fault of the first faulty word. -/
def ofList (ws : List Text) : Except KeywordError KeywordSet :=
  (∅ : KeywordSet).pushAll 0 ws

@[simp] theorem mem_words {w : Text} {s : KeywordSet} : w ∈ s.words ↔ w ∈ s := Iff.rfl

theorem push_of_mem {s : KeywordSet} {w : Text} (known : w ∈ s) (keyword : IsKeyword w) :
    s.push w keyword = s :=
  dif_pos known

theorem words_push_of_not_mem {s : KeywordSet} {w : Text} (new : w ∉ s) (keyword : IsKeyword w) :
    (s.push w keyword).words = s.words ++ [w] := by
  rw [push, dif_neg new]

@[ext] theorem ext {s t : KeywordSet} (h : s.words = t.words) : s = t := by
  cases s; cases t; cases h; rfl

end KeywordSet

end KeywordSwitch
