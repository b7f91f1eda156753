import KeywordSwitch.KeywordSet.Basic
import KeywordSwitch.Text.Order

/-!
# The built-in keywords

Without a keyword list the keywords are the directives and the predefined names of a
macro processor. The table has them by kind; the set has each of them once, in
ascending order.
-/

namespace KeywordSwitch.KeywordSet

/-- Directives, then the words that stand within directives, then predefined names. -/
def builtinNames : List Text :=
  ["define", "elif", "else", "endif", "error", "if", "ifdef", "ifndef", "include", "line",
    "pragma", "undef", "defined", "message", "pack_matrix", "warning", "once", "default",
    "disable", "__LINE__", "__FILE__", "__DATE__", "__TIME__", "__FUNCTION__", "__VA_ARGS__",
    "__FUNC__"].map String.toList

/-- No name is repeated in the table, so all of them remain. -/
theorem sorted_builtinNames :
    (builtinNames.mergeSort Text.le).eraseReps =
      ["__DATE__", "__FILE__", "__FUNCTION__", "__FUNC__", "__LINE__", "__TIME__",
        "__VA_ARGS__", "default", "define", "defined", "disable", "elif", "else", "endif",
        "error", "if", "ifdef", "ifndef", "include", "line", "message", "once", "pack_matrix",
        "pragma", "undef", "warning"].map String.toList := by
  apply Text.eraseReps_mergeSort_eq
  · exact List.isPerm_iff.mp (by decide +kernel)
  · decide +kernel
  · decide +kernel

/-- The names in the table as a set, in ascending order. -/
def builtin : KeywordSet where
  words := (builtinNames.mergeSort Text.le).eraseReps
  nodup := by
    rw [sorted_builtinNames]
    decide +kernel
  isKeyword := by
    rw [sorted_builtinNames]
    decide +kernel

end KeywordSwitch.KeywordSet
