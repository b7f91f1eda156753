import KeywordSwitch.Command.Options
import KeywordSwitch.Command.Run
import KeywordSwitch.Declaration
import KeywordSwitch.Files.Path
import KeywordSwitch.Files.Tree
import KeywordSwitch.Generate
import KeywordSwitch.KeywordSet.Basic
import KeywordSwitch.KeywordSet.Builtin
import KeywordSwitch.KeywordSet.Listing
import KeywordSwitch.Log
import KeywordSwitch.Main
import KeywordSwitch.Matcher
import KeywordSwitch.Output
import KeywordSwitch.Procedure
import KeywordSwitch.Proofs.Command.Agreement
import KeywordSwitch.Proofs.Declaration.Decoding
import KeywordSwitch.Proofs.Files.Alike
import KeywordSwitch.Proofs.Files.LoggedNumbers
import KeywordSwitch.Proofs.Files.Outputs
import KeywordSwitch.Proofs.Files.RelaidList
import KeywordSwitch.Proofs.Files.Resolving
import KeywordSwitch.Proofs.Files.Writing
import KeywordSwitch.Proofs.KeywordSet.Faults
import KeywordSwitch.Proofs.KeywordSet.FirstOccurrences
import KeywordSwitch.Proofs.KeywordSet.Layout
import KeywordSwitch.Proofs.KeywordSet.Lines
import KeywordSwitch.Proofs.KeywordSet.Pieces
import KeywordSwitch.Proofs.KeywordSet.Reading
import KeywordSwitch.Proofs.KeywordSet.WrittenOut
import KeywordSwitch.Proofs.Matcher.Assignments
import KeywordSwitch.Proofs.Matcher.CaseBlocks
import KeywordSwitch.Proofs.Matcher.Keywords
import KeywordSwitch.Proofs.Matcher.Labels
import KeywordSwitch.Proofs.Matcher.LongestMatch
import KeywordSwitch.Proofs.Matcher.Meaning
import KeywordSwitch.Proofs.Matcher.Members
import KeywordSwitch.Proofs.Matcher.ReadBack
import KeywordSwitch.Proofs.Matcher.Size
import KeywordSwitch.Proofs.Matcher.WordBoundary
import KeywordSwitch.Proofs.Output.Filling
import KeywordSwitch.Proofs.Switch.Arms
import KeywordSwitch.Proofs.Switch.Grammar
import KeywordSwitch.Proofs.Switch.KeptLines
import KeywordSwitch.Proofs.Switch.Layout
import KeywordSwitch.Proofs.Switch.Moves
import KeywordSwitch.Proofs.Switch.Nesting
import KeywordSwitch.Proofs.Switch.Offsets
import KeywordSwitch.Proofs.Switch.Peeking
import KeywordSwitch.Proofs.Switch.ReadableStyle
import KeywordSwitch.Proofs.Switch.Reads
import KeywordSwitch.Proofs.Switch.Recognition
import KeywordSwitch.Proofs.Switch.Rejections
import KeywordSwitch.Proofs.Switch.RoundTrip
import KeywordSwitch.Proofs.Switch.Running
import KeywordSwitch.Proofs.Switch.Tokens
import KeywordSwitch.Proofs.Switch.Viable
import KeywordSwitch.Proofs.Text.Ascending
import KeywordSwitch.Proofs.Text.Trimming
import KeywordSwitch.Proofs.Text.WordBytes
import KeywordSwitch.Proofs.Trie.Canonical
import KeywordSwitch.Proofs.Trie.Counting
import KeywordSwitch.Proofs.Trie.Equality
import KeywordSwitch.Proofs.Trie.LongerFirst
import KeywordSwitch.Proofs.Trie.Nodes
import KeywordSwitch.Proofs.Trie.Outline
import KeywordSwitch.Proofs.Trie.Stops
import KeywordSwitch.Proofs.Trie.Walks
import KeywordSwitch.Proofs.Trie.Words
import KeywordSwitch.Style
import KeywordSwitch.Switch.Code
import KeywordSwitch.Switch.OfTrie
import KeywordSwitch.Switch.Parser
import KeywordSwitch.Switch.Printer
import KeywordSwitch.Switch.Run
import KeywordSwitch.Text.Basic
import KeywordSwitch.Text.Blank
import KeywordSwitch.Text.Order
import KeywordSwitch.Text.Quoted
import KeywordSwitch.Text.Ranges
import KeywordSwitch.Text.Unprintable
import KeywordSwitch.Trie.Basic
