import KeywordSwitch.Output

/-!
# Filling a sink

A sink that is given bytes in several parts ends as if it were given all of them at once,
also where it is full within a part or between two. So lines, and then more lines, leave in
it the first bytes of their text, as many as it takes, and nothing after the first failure.

## Implementation notes

Each law is an equation between what two ways of writing end with, the sink together with
the result. In which part the sink is full is a matter of `Sink.write_append` alone.
-/

namespace KeywordSwitch

namespace Sink

theorem write_none (written bytes : List UInt8) :
    (⟨none, written⟩ : Sink).write bytes = (⟨none, written ++ bytes⟩, .ok ()) := by
  simp [write, taken]

theorem write_some (n : Nat) (written bytes : List UInt8) :
    (⟨some n, written⟩ : Sink).write bytes =
      (⟨some n, written ++ bytes.take (n - written.length)⟩,
        if bytes.length ≤ n - written.length then .ok () else .error .full) := by
  have whole : (bytes.take (n - written.length)).length = bytes.length ↔
      bytes.length ≤ n - written.length := by
    rw [List.length_take]
    omega
  simp only [write, taken, whole]

theorem write_nil (k : Sink) : k.write [] = (k, .ok ()) := by
  obtain ⟨capacity, written⟩ := k
  cases capacity with
  | none => rw [write_none, List.append_nil]
  | some n => simp [write_some]

theorem write_of_taken_eq_self {k : Sink} {bytes : List UInt8} (whole : k.taken bytes = bytes) :
    k.write bytes = ({ k with written := k.written ++ bytes }, .ok ()) := by
  rw [write, whole, if_pos rfl]

theorem write_of_taken_eq_nil {k : Sink} {bytes : List UInt8} (full : k.taken bytes = [])
    (left : bytes ≠ []) : k.write bytes = (k, .error .full) := by
  have short : ¬ ([] : List UInt8).length = bytes.length :=
    fun same => left (List.length_eq_zero_iff.mp same.symm)
  rw [write, full, if_neg short, List.append_nil]

/-- Bytes in two parts end as in one, unless the first part already fails. -/
theorem write_append (k : Sink) (first second : List UInt8) :
    k.write (first ++ second) =
      match k.write first with
      | (k, .error e) => (k, .error e)
      | (k, .ok ()) => k.write second := by
  obtain ⟨capacity, written⟩ := k
  cases capacity with
  | none =>
      rw [write_none, write_none, ← List.append_assoc]
      exact (write_none (written ++ first) second).symm
  | some n =>
      rw [write_some, write_some]
      by_cases fits : first.length ≤ n - written.length
      · have room : n - (written ++ first).length = n - written.length - first.length := by
          rw [List.length_append, Nat.sub_add_eq]
        have both : (first ++ second).length ≤ n - written.length ↔
            second.length ≤ n - written.length - first.length := by
          rw [List.length_append]
          omega
        rw [if_pos fits]
        dsimp only
        rw [write_some, List.take_of_length_le fits, List.take_append, List.take_of_length_le fits,
          room, List.append_assoc]
        simp only [both]
      · have cut : ¬ (first ++ second).length ≤ n - written.length := by
          rw [List.length_append]
          omega
        rw [if_neg fits, if_neg cut, List.take_append_of_le_length (Nat.le_of_not_le fits)]

/-- What writing all of the bytes can do where the sink decides how much of an offer it takes: of
what is left some bytes at a time, until nothing is left or nothing is taken. -/
inductive WritesAll : Sink → List UInt8 → Sink × Except SinkError Unit → Prop
  | done (k : Sink) : WritesAll k [] (k, .ok ())
  | part {k : Sink} {part rest : List UInt8} {after : Sink × Except SinkError Unit}
      (filled : part ≠ []) (room : k.taken part = part)
      (more : WritesAll { k with written := k.written ++ part } rest after) :
      WritesAll k (part ++ rest) after
  | refused {k : Sink} {bytes : List UInt8} (left : bytes ≠ []) (full : k.taken bytes = []) :
      WritesAll k bytes (k, .error .full)

variable {k : Sink} {bytes rest : List UInt8} {after : Sink × Except SinkError Unit}

/-- A part for which there is room may be empty. -/
theorem WritesAll.append (room : k.taken bytes = bytes)
    (more : WritesAll { k with written := k.written ++ bytes } rest after) :
    WritesAll k (bytes ++ rest) after := by
  by_cases empty : bytes = []
  · subst empty
    rw [List.append_nil] at more
    exact more
  · exact .part empty room more

theorem WritesAll.of_taken_eq_self (room : k.taken bytes = bytes) :
    WritesAll k bytes ({ k with written := k.written ++ bytes }, .ok ()) := by
  have parts := WritesAll.append room (.done _)
  rwa [List.append_nil] at parts

/-- Of the bytes those that fit may be taken first, and then nothing. -/
theorem writesAll_write (k : Sink) (bytes : List UInt8) : WritesAll k bytes (k.write bytes) := by
  obtain ⟨capacity, written⟩ := k
  cases capacity with
  | none =>
      rw [write_none]
      exact .of_taken_eq_self rfl
  | some n =>
      rw [write_some]
      by_cases fits : bytes.length ≤ n - written.length
      · rw [if_pos fits, List.take_of_length_le fits]
        exact .of_taken_eq_self (List.take_of_length_le fits)
      · have left : bytes.drop (n - written.length) ≠ [] := by
          rw [Ne, List.drop_eq_nil_iff]
          exact fits
        have room : (⟨some n, written⟩ : Sink).taken (bytes.take (n - written.length)) =
            bytes.take (n - written.length) :=
          List.take_of_length_le (List.length_take_le _ _)
        have full : (⟨some n, written ++ bytes.take (n - written.length)⟩ : Sink).taken
            (bytes.drop (n - written.length)) = [] := by
          rw [taken, List.take_eq_nil_iff, List.length_append, List.length_take]
          omega
        have parts := WritesAll.append room (.refused left full)
        rw [List.take_append_drop] at parts
        rw [if_neg fits]
        exact parts

/-- However the bytes are taken, they end as in one write. -/
theorem writesAll_iff : WritesAll k bytes after ↔ after = k.write bytes := by
  constructor
  · intro writes
    induction writes with
    | done k => exact (write_nil k).symm
    | part _ room _ ih => rw [write_append, write_of_taken_eq_self room, ih]
    | refused left full => exact (write_of_taken_eq_nil full left).symm
  · rintro rfl
    exact writesAll_write k bytes

/-- Lines end as their bytes do, with a line feed after each line. -/
theorem writeLines_eq_write (k : Sink) (lines : List Text) :
    k.writeLines lines = k.write (Text.utf8 (Text.unlines lines)) := by
  induction lines generalizing k with
  | nil => exact (write_nil k).symm
  | cons line lines ih =>
      have parts : Text.utf8 (Text.unlines (line :: lines)) =
          Text.utf8 line ++ (Text.utf8 ['\n'] ++ Text.utf8 (Text.unlines lines)) := by
        rw [Text.unlines_cons, ← Text.utf8_append, ← Text.utf8_append]
        rfl
      rw [parts, write_append]
      simp only [write_append _ (Text.utf8 ['\n']), ← ih]
      rfl

/-- The declarations and the matcher of a set end as the bytes of both. -/
theorem deliver_eq_write (k : Sink) (s : Style) (words : KeywordSet) :
    ((s.deliver words k).sink, (s.deliver words k).result) =
      k.write (Text.utf8 (Text.unlines (s.declarations words.words ++ s.matcher words.trie))) := by
  rw [Text.unlines_append, Text.utf8_append, write_append, ← writeLines_eq_write, Style.deliver]
  rcases k.writeLines (s.declarations words.words) with ⟨full, e | ⟨⟨⟩⟩⟩
  · rfl
  · exact writeLines_eq_write _ _

/-- What is left by writing bytes to a sink for `n` bytes: the first ones of them, up to the
`n`-th, and a failure if any are left over. -/
def filled (n : Nat) (bytes : List UInt8) : Sink × Except SinkError Unit :=
  (⟨some n, bytes.take (min n bytes.length)⟩, if bytes.length ≤ n then .ok () else .error .full)

theorem write_eq_filled (n : Nat) (bytes : List UInt8) :
    (⟨some n, []⟩ : Sink).write bytes = filled n bytes := by
  have whole : bytes.take (min n bytes.length) = bytes.take n := by
    rw [← List.take_take, List.take_length]
  rw [write_some, filled, whole]
  rfl

end Sink

/-- A sink for `n` bytes ends with the first `n` of the bytes that are written to it, in whatever
parts it takes them, and writing succeeds exactly if there are no more. Lines are written as their
bytes with a line feed after each line, and a keyword set as the lines of its declarations and
then of its matcher. -/
theorem sink_receives_first_bytes (n : Nat) :
    (∀ (bytes : List UInt8) (after : Sink × Except SinkError Unit),
      Sink.WritesAll ⟨some n, []⟩ bytes after ↔ after = Sink.filled n bytes) ∧
    (∀ lines : List Text,
      (⟨some n, []⟩ : Sink).writeLines lines =
        Sink.filled n (Text.utf8 (Text.unlines lines))) ∧
    ∀ (s : Style) (k : KeywordSet),
      ((s.deliver k ⟨some n, []⟩).sink, (s.deliver k ⟨some n, []⟩).result) =
        Sink.filled n
          (Text.utf8 (Text.unlines (s.declarations k.words ++ s.matcher k.trie))) := by
  refine ⟨fun bytes after => ?_, fun lines => ?_, fun s k => ?_⟩
  · rw [Sink.writesAll_iff, Sink.write_eq_filled]
  · rw [Sink.writeLines_eq_write, Sink.write_eq_filled]
  · rw [Sink.deliver_eq_write, Sink.write_eq_filled]

-- The sink is full between the two bytes of the second character, and the line feed is lost.
example : (⟨some 2, []⟩ : Sink).writeLines ["aé".toList, []] =
    (⟨some 2, [97, 195]⟩, .error .full) := by
  rfl

end KeywordSwitch
