import KeywordSwitch.Switch.Run

/-!
# Renaming the tokens of a switch

A switch may assign other tokens without a change to what it tests and consumes.
-/

namespace KeywordSwitch

namespace Code

/-- The code with every token replaced by its image. -/
def mapTokens (f : Text → Text) : Code → Code
  | done => done
  | advance next => advance (next.mapTokens f)
  | assign token next => assign (f token) (next.mapTokens f)
  | block body next => block (body.mapTokens f) (next.mapTokens f)
  | branch conds matched otherwise next =>
      branch conds (matched.mapTokens f) (otherwise.mapTokens f) (next.mapTokens f)

/-- The renamed code assigns the renamed tokens and moves the cursor as before. -/
theorem exec_mapTokens (f : Text → Text) (code : Code) (k : Cursor) :
    (code.mapTokens f).exec k = ((code.exec k).1.map f, (code.exec k).2) := by
  induction code generalizing k with
  | done => rfl
  | advance next ih => exact ih k.advance
  | assign token next ih => simp [mapTokens, exec, ih]
  | block body next ihBody ihNext => simp [mapTokens, exec, ihBody, ihNext]
  | branch conds matched otherwise next ihMatched ihOtherwise ihNext =>
      simp only [mapTokens, exec]
      split <;> simp [ihMatched, ihOtherwise, ihNext]

end Code

namespace Switch

/-- The switch with every token replaced by its image. -/
def mapTokens (f : Text → Text) (w : Switch) : Switch :=
  w.map fun k => { k with code := k.code.mapTokens f }

theorem exec_mapTokens (f : Text → Text) (w : Switch) (k : Cursor) :
    (mapTokens f w).exec k = ((w.exec k).1.map f, (w.exec k).2) := by
  simp only [exec, mapTokens, List.find?_map, Function.comp_def]
  cases w.find? fun c => c.label = k.charAt k.pos with
  | none => rfl
  | some c => exact Code.exec_mapTokens f c.code k

theorem run_mapTokens (f : Text → Text) (w : Switch) (input : Text) :
    (mapTokens f w).run input = ⟨(w.run input).tokens.map f, (w.run input).consumed⟩ := by
  simp only [run, exec_mapTokens]

end Switch

end KeywordSwitch
