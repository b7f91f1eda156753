import KeywordSwitch.Declaration
import KeywordSwitch.Matcher

/-!
# Output to a sink

A sink takes bytes, all of them or up to a capacity. A line that does not fit is
cut off where the sink is full, in the middle of a character if need be, and
nothing is written after it.
-/

namespace KeywordSwitch

/-- A place to write bytes to. -/
structure Sink where
  /-- The number of bytes that it takes, or `none` if it takes any number. -/
  capacity : Option Nat
  /-- The bytes written so far. -/
  written : List UInt8 := []
deriving DecidableEq

/-- Why writing has stopped. -/
inductive SinkError where
  /-- The sink is full before the last byte is written. -/
  | full
deriving DecidableEq, Repr

/-- The wording of a failure to write. -/
def SinkError.message : SinkError → Text
  | .full => "failed to write whole buffer".toList

namespace Sink

/-- The bytes that a sink still takes from a list. -/
def taken (k : Sink) (bytes : List UInt8) : List UInt8 :=
  match k.capacity with
  | none => bytes
  | some n => bytes.take (n - k.written.length)

/-- Writes the bytes that the sink takes; fails if some are left over. -/
def write (k : Sink) (bytes : List UInt8) : Sink × Except SinkError Unit :=
  ({ k with written := k.written ++ k.taken bytes },
    if (k.taken bytes).length = bytes.length then .ok () else .error .full)

/-- Writes each line and a line feed after it, up to the first failure. -/
def writeLines (k : Sink) : List Text → Sink × Except SinkError Unit
  | [] => (k, .ok ())
  | line :: lines =>
      match k.write (Text.utf8 line) with
      | (k, .error e) => (k, .error e)
      | (k, .ok ()) =>
          match k.write (Text.utf8 ['\n']) with
          | (k, .error e) => (k, .error e)
          | (k, .ok ()) => k.writeLines lines

end Sink

/-- What writing a set to a sink has done. -/
structure Delivery where
  /-- The sink afterwards. -/
  sink : Sink
  /-- The events, in order. -/
  events : List Event
  /-- Whether everything has been written. -/
  result : Except SinkError Unit

/-- Writes the declarations of a keyword set and then its matcher to one sink. The matcher is
rendered only after all declarations have been written. -/
def Style.deliver (s : Style) (k : KeywordSet) (sink : Sink) : Delivery :=
  match sink.writeLines (s.declarations k.words) with
  | (sink, .error e) => ⟨sink, [], .error e⟩
  | (sink, .ok ()) =>
      let rest := sink.writeLines (s.matcher k.trie)
      ⟨rest.1, k.trie.matcherEvents, rest.2⟩

end KeywordSwitch
