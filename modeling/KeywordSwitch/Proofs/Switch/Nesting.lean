import KeywordSwitch.Proofs.Switch.Layout
import KeywordSwitch.Proofs.Switch.RoundTrip

/-!
# The nesting of written code

The blocks of written code are nested, and a line is indented by the number of blocks
around it. A condition ends directly before its block, and what an `else` continues ends
directly before the `else`.

## Implementation notes

Whether a line stands in its place depends on all lines before it and on those after it.
So lines are placed one by one between what comes before and what comes after, and the
places of two lists in turn are the places of the joint list.
-/

namespace KeywordSwitch

/-- The number of opening braces. -/
def opened (lines : List Line) : Nat :=
  lines.countP (·.kind = .opening)

/-- The number of closing braces. -/
def closed (lines : List Line) : Nat :=
  lines.countP (·.kind = .closing)

/-- No closing brace comes without its opening brace, and no block is left open. -/
structure Balanced (lines : List Line) : Prop where
  closed_le : ∀ k, closed (lines.take k) ≤ opened (lines.take k)
  closed_eq : closed lines = opened lines

/-- The lines of one condition at indentation `n`: its head and further tests, of which the last
one alone ends with a closing bracket. -/
structure IsCondition (n : Nat) (lines : List Line) : Prop where
  begins : ∃ first more, lines = first :: more ∧ first.kind.isHead = true ∧ first.indent = n ∧
    ∀ line ∈ more, line.kind = .further
  ends : ∃ front last, lines = front ++ [last] ∧ last.closes = true ∧
    ∀ line ∈ front, line.closes = false

/-- The lines end with the closing brace of an `if` at indentation `n`. -/
def EndsIf (n : Nat) (lines : List Line) : Prop :=
  ∃ before condition inner, lines = before ++ (condition ++ bracedLayout n inner) ∧
    IsCondition n condition ∧ Balanced inner

/-- The number of blocks around a line that stands after `before`. A brace stands outside its own
block. -/
def depthOf (before : List Line) (line : Line) : Nat :=
  opened before - closed (before ++ [line])

/-- A line stands in its place between others. It has one tab more than there are blocks around it,
and another one if it continues a condition. If it continues an `if`, the block of an `if` at the
same indentation ends directly before it. If it begins a condition, the condition ends directly
before an opening brace. -/
structure Fits (before : List Line) (line : Line) (after : List Line) : Prop where
  indented : line.indent = 1 + depthOf before line + if line.kind = .further then 1 else 0
  continues : line.kind = .otherwise ∨ line.kind = .head true → EndsIf line.indent before
  opens : line.kind.isHead = true → ∃ more rest,
    after = more ++ ⟨line.indent, .opening, false⟩ :: rest ∧
      IsCondition line.indent (line :: more)

/-- The blocks of the lines are nested, and every line stands in its place. -/
structure WellNested (lines : List Line) : Prop where
  balanced : Balanced lines
  fits : ∀ before line after, lines = before ++ line :: after → Fits before line after

/-- All lines of the second list stand in their places between the first list and the third. -/
def Placed (before : List Line) : List Line → List Line → Prop
  | [], _ => True
  | line :: lines, after =>
      Fits before line (lines ++ after) ∧ Placed (before ++ [line]) lines after

section Balance

variable {a b : List Line}

theorem opened_append (a b : List Line) : opened (a ++ b) = opened a + opened b :=
  List.countP_append

theorem closed_append (a b : List Line) : closed (a ++ b) = closed a + closed b :=
  List.countP_append

theorem balanced_nil : Balanced [] where
  closed_le k := by rw [List.take_nil]; exact Nat.le_refl 0
  closed_eq := rfl

theorem Balanced.append (ha : Balanced a) (hb : Balanced b) : Balanced (a ++ b) where
  closed_le k := by
    rw [List.take_append, closed_append, opened_append]
    exact Nat.add_le_add (ha.closed_le k) (hb.closed_le (k - a.length))
  closed_eq := by rw [closed_append, opened_append, ha.closed_eq, hb.closed_eq]

/-- Lines without braces are balanced. -/
theorem balanced_of_forall (noBrace : ∀ line ∈ a, line.kind ≠ .opening ∧ line.kind ≠ .closing) :
    Balanced a := by
  have none : ∀ lines : List Line, (∀ line ∈ lines, line ∈ a) →
      closed lines = 0 ∧ opened lines = 0 := by
    intro lines sub
    constructor
    · apply List.countP_eq_zero.mpr
      intro line mem
      simpa using (noBrace line (sub line mem)).2
    · apply List.countP_eq_zero.mpr
      intro line mem
      simpa using (noBrace line (sub line mem)).1
  constructor
  · intro k
    rw [(none (a.take k) fun line => List.mem_of_mem_take).1]
    exact Nat.zero_le _
  · rw [(none a fun line mem => mem).1, (none a fun line mem => mem).2]

theorem balanced_singleton (line : Line) (noBrace : line.kind ≠ .opening ∧ line.kind ≠ .closing) :
    Balanced [line] :=
  balanced_of_forall (List.forall_mem_singleton.mpr noBrace)

theorem bracedLayout_eq (d : Nat) (body : List Line) :
    bracedLayout d body = [⟨d, .opening, false⟩] ++ (body ++ [⟨d, .closing, false⟩]) := rfl

theorem braces_of_braced (d : Nat) :
    closed [⟨d, .opening, false⟩] = 0 ∧ opened [⟨d, .opening, false⟩] = 1 ∧
      closed [⟨d, .closing, false⟩] = 1 ∧ opened [⟨d, .closing, false⟩] = 0 :=
  ⟨rfl, rfl, rfl, rfl⟩

theorem Balanced.braced (ha : Balanced a) (d : Nat) : Balanced (bracedLayout d a) where
  closed_le k := by
    cases k with
    | zero => exact Nat.le_refl 0
    | succ k =>
        have split : (bracedLayout d a).take (k + 1) = [⟨d, .opening, false⟩] ++
            (a.take k ++ List.take (k - a.length) [⟨d, .closing, false⟩]) := by
          rw [bracedLayout_eq, List.singleton_append, List.take_succ_cons, List.take_append]
          rfl
        -- The opening brace makes up for the closing one.
        have last : closed (List.take (k - a.length) [⟨d, .closing, false⟩]) ≤ 1 := by
          apply Nat.le_trans List.countP_le_length
          exact List.length_take_le' _ _
        have inner := ha.closed_le k
        simp only [split, closed_append, opened_append, braces_of_braced]
        omega
  closed_eq := by
    have same := ha.closed_eq
    simp only [bracedLayout_eq, closed_append, opened_append, braces_of_braced]
    omega

theorem kind_furtherLayout (d : Nat) (conds : List Cond) :
    ∀ line ∈ furtherLayout d conds, line.kind = .further := by
  induction conds with
  | nil => simp [furtherLayout]
  | cons cond conds ih => exact List.forall_mem_cons.mpr ⟨rfl, ih⟩

theorem balanced_conditionLayout (d : Nat) (chained : Bool) (conds : List Cond) :
    Balanced (conditionLayout d chained conds) := by
  cases conds with
  | nil => exact balanced_nil
  | cons cond conds =>
      apply balanced_of_forall
      refine List.forall_mem_cons.mpr ⟨by simp, fun line mem => ?_⟩
      simp [kind_furtherLayout d conds line mem]

/-- What follows a branch is balanced if the layout of its code is, at any depth. -/
theorem balanced_otherwise {otherwise : Code}
    (hLayout : ∀ d chained, Balanced (otherwise.layout d chained)) (d : Nat) :
    Balanced (if otherwise.isDone then []
      else if otherwise.isBranch then otherwise.layout d true
      else ⟨d, .otherwise, false⟩ :: bracedLayout d (otherwise.layout (d + 1) false)) := by
  split
  · exact balanced_nil
  · split
    · exact hLayout d true
    · exact (balanced_singleton ⟨d, .otherwise, false⟩ (by simp)).append
        ((hLayout (d + 1) false).braced d)

/-- The layout of any code is balanced. -/
theorem balanced_layout (code : Code) (d : Nat) (chained : Bool) :
    Balanced (code.layout d chained) := by
  induction code generalizing d chained with
  | done => exact balanced_nil
  | advance next ih =>
      exact (balanced_singleton ⟨d, .plain, false⟩ (by simp)).append (ih d false)
  | assign token next ih =>
      exact (balanced_singleton ⟨d, .plain, false⟩ (by simp)).append (ih d false)
  | block body next ihBody ihNext =>
      exact ((ihBody (d + 1) false).braced d).append (ihNext d false)
  | branch conds matched otherwise next ihMatched ihOtherwise ihNext =>
      rw [Code.layout]
      apply Balanced.append _ (ihNext d false)
      apply Balanced.append _ (balanced_otherwise ihOtherwise d)
      exact (balanced_conditionLayout d chained conds).append ((ihMatched (d + 1) false).braced d)

end Balance

section Places

variable {before after : List Line} {n : Nat}

theorem placed_append (before a b after : List Line) :
    Placed before (a ++ b) after ↔ Placed before a (b ++ after) ∧ Placed (before ++ a) b after := by
  induction a generalizing before with
  | nil => simp [Placed]
  | cons line a ih =>
      simp only [List.cons_append, Placed, ih, List.append_assoc, List.nil_append, and_assoc]

/-- Balanced lines that are placed between no others are well nested. -/
theorem Placed.wellNested {lines : List Line} (placed : Placed [] lines [])
    (balanced : Balanced lines) : WellNested lines where
  balanced := balanced
  fits := by
    rintro left line right rfl
    have here := ((placed_append [] left (line :: right) []).mp placed).2.1
    rwa [List.nil_append, List.append_nil] at here

/-- Of the blocks opened in the lines, `n` are still open after them. -/
def LeavesOpen (n : Nat) (lines : List Line) : Prop :=
  opened lines = closed lines + n

theorem LeavesOpen.append {lines : List Line} (hOpen : LeavesOpen n before)
    (balanced : Balanced lines) : LeavesOpen n (before ++ lines) := by
  have same := balanced.closed_eq
  unfold LeavesOpen at hOpen ⊢
  rw [opened_append, closed_append]
  omega

theorem LeavesOpen.opening (hOpen : LeavesOpen n before) (d : Nat) :
    LeavesOpen (n + 1) (before ++ [⟨d, .opening, false⟩]) := by
  unfold LeavesOpen at hOpen ⊢
  simp only [opened_append, closed_append, braces_of_braced]
  omega

/-- A line that closes no block stands in as many blocks as are open before it. -/
theorem LeavesOpen.depthOf_eq (hOpen : LeavesOpen n before) {line : Line}
    (noClosing : line.kind ≠ .closing) : depthOf before line = n := by
  have none : closed [line] = 0 := by simp [closed, noClosing]
  unfold LeavesOpen at hOpen
  rw [depthOf, closed_append]
  omega

/-- A closing brace stands in one block less than are open before it. -/
theorem LeavesOpen.depthOf_closing (hOpen : LeavesOpen (n + 1) before) (d : Nat) :
    depthOf before ⟨d, .closing, false⟩ = n := by
  unfold LeavesOpen at hOpen
  simp only [depthOf, closed_append, braces_of_braced]
  omega

theorem fits_of_not_head {line : Line}
    (indented : line.indent = 1 + depthOf before line + if line.kind = .further then 1 else 0)
    (noHead : line.kind.isHead = false) (noElse : line.kind ≠ .otherwise) :
    Fits before line after where
  indented := indented
  continues := by
    rintro (isElse | isHead)
    · exact absurd isElse noElse
    · rw [isHead] at noHead
      cases noHead
  opens isHead := by
    rw [noHead] at isHead
    cases isHead

theorem LeavesOpen.fits_plain (hOpen : LeavesOpen n before) :
    Fits before ⟨n + 1, .plain, false⟩ after := by
  apply fits_of_not_head _ rfl (by simp)
  rw [hOpen.depthOf_eq (by simp)]
  simp [Nat.add_comm]

theorem LeavesOpen.fits_opening (hOpen : LeavesOpen n before) :
    Fits before ⟨n + 1, .opening, false⟩ after := by
  apply fits_of_not_head _ rfl (by simp)
  rw [hOpen.depthOf_eq (by simp)]
  simp [Nat.add_comm]

theorem LeavesOpen.fits_closing (hOpen : LeavesOpen (n + 1) before) :
    Fits before ⟨n + 1, .closing, false⟩ after := by
  apply fits_of_not_head _ rfl (by simp)
  rw [hOpen.depthOf_closing]
  simp [Nat.add_comm]

theorem LeavesOpen.placed_furtherLayout (hOpen : LeavesOpen n before) (conds : List Cond) :
    Placed before (furtherLayout (n + 1) conds) after := by
  induction conds generalizing before with
  | nil => trivial
  | cons cond conds ih =>
      refine ⟨?_, ih (hOpen.append (balanced_singleton _ (by simp)))⟩
      apply fits_of_not_head _ rfl (by simp)
      rw [hOpen.depthOf_eq (by simp)]
      simp only [if_true]
      omega

/-- The last of the further tests closes the condition, or the line before them if there is none. -/
theorem exists_last_furtherLayout (d : Nat) (conds : List Cond) {first : Line}
    (hFirst : first.closes = conds.isEmpty) :
    ∃ front last, first :: furtherLayout d conds = front ++ [last] ∧ last.closes = true ∧
      ∀ line ∈ front, line.closes = false := by
  induction conds generalizing first with
  | nil => exact ⟨[], first, rfl, hFirst, by simp⟩
  | cons cond conds ih =>
      obtain ⟨front, last, more, closes, opens⟩ :=
        @ih ⟨d + 1, .further, conds.isEmpty⟩ rfl
      refine ⟨first :: front, last, ?_, closes, List.forall_mem_cons.mpr ⟨hFirst, opens⟩⟩
      rw [furtherLayout, more, List.cons_append]

/-- The lines of some tests are one condition. -/
theorem isCondition_conditionLayout (n : Nat) (chained : Bool) (cond : Cond) (conds : List Cond) :
    IsCondition n (conditionLayout n chained (cond :: conds)) where
  begins := ⟨_, _, rfl, rfl, rfl, kind_furtherLayout n conds⟩
  ends := exists_last_furtherLayout n conds rfl

/-- A condition is placed directly before the block that it opens. -/
theorem LeavesOpen.placed_conditionLayout (hOpen : LeavesOpen n before) {chained : Bool}
    (hChain : chained = true → EndsIf (n + 1) before) (cond : Cond) (conds : List Cond) :
    Placed before (conditionLayout (n + 1) chained (cond :: conds))
      (⟨n + 1, .opening, false⟩ :: after) := by
  refine ⟨⟨?_, ?_, ?_⟩, ?_⟩
  · rw [hOpen.depthOf_eq (by simp)]
    simp [Nat.add_comm]
  · rintro (isElse | isHead)
    · cases isElse
    · exact hChain (by simpa using isHead)
  · intro _
    exact ⟨_, after, rfl, isCondition_conditionLayout (n + 1) chained cond conds⟩
  · exact (hOpen.append (balanced_singleton _ (by simp))).placed_furtherLayout conds

/-- A block is placed if its lines are placed one level further in. -/
theorem LeavesOpen.placed_bracedLayout (hOpen : LeavesOpen n before) {inner : List Line}
    (balanced : Balanced inner)
    (placed : Placed (before ++ [⟨n + 1, .opening, false⟩]) inner
      (⟨n + 1, .closing, false⟩ :: after)) :
    Placed before (bracedLayout (n + 1) inner) after := by
  rw [bracedLayout_eq, placed_append, placed_append]
  refine ⟨⟨hOpen.fits_opening, trivial⟩, placed, ?_, trivial⟩
  exact ((hOpen.opening (n + 1)).append balanced).fits_closing

/-- What follows a branch is placed if the lines of its code are, after `else` too. -/
theorem LeavesOpen.placed_otherwise (hOpen : LeavesOpen n before) (hEnds : EndsIf (n + 1) before)
    {otherwise : Code}
    (hLayout : ∀ {m chained left}, LeavesOpen m left → (chained = true → EndsIf (m + 1) left) →
      ∀ right, Placed left (otherwise.layout (m + 1) chained) right) :
    Placed before (if otherwise.isDone then []
      else if otherwise.isBranch then otherwise.layout (n + 1) true
      else ⟨n + 1, .otherwise, false⟩ :: bracedLayout (n + 1) (otherwise.layout (n + 1 + 1) false))
      after := by
  split
  · trivial
  · split
    · exact hLayout hOpen (fun _ => hEnds) after
    · have elsePlaced : LeavesOpen n (before ++ [⟨n + 1, .otherwise, false⟩]) :=
        hOpen.append (balanced_singleton _ (by simp))
      refine ⟨⟨?_, fun _ => hEnds, by simp [LineKind.isHead]⟩, ?_⟩
      · rw [hOpen.depthOf_eq (by simp)]
        simp [Nat.add_comm]
      · apply elsePlaced.placed_bracedLayout (balanced_layout otherwise (n + 1 + 1) false)
        exact hLayout (elsePlaced.opening (n + 1)) (by simp) _

end Places

/-- The lines of code are placed at the depth at which they are written. -/
theorem placed_layout {code : Code} (hCode : code.AsksForPaths) {n : Nat} {chained : Bool}
    {before : List Line} (hOpen : LeavesOpen n before)
    (hChain : chained = true → EndsIf (n + 1) before) (after : List Line) :
    Placed before (code.layout (n + 1) chained) after := by
  induction code generalizing n chained before after with
  | done => trivial
  | advance next ih =>
      refine ⟨hOpen.fits_plain, ?_⟩
      exact ih hCode (hOpen.append (balanced_singleton _ (by simp))) (by simp) after
  | assign token next ih =>
      refine ⟨hOpen.fits_plain, ?_⟩
      exact ih hCode (hOpen.append (balanced_singleton _ (by simp))) (by simp) after
  | block body next ihBody ihNext =>
      obtain ⟨hBody, hNext⟩ := hCode
      have balanced := balanced_layout body (n + 1 + 1) false
      rw [Code.layout, placed_append]
      constructor
      · apply hOpen.placed_bracedLayout balanced
        exact ihBody hBody (hOpen.opening (n + 1)) (by simp) _
      · exact ihNext hNext (hOpen.append (balanced.braced (n + 1))) (by simp) after
  | branch conds matched otherwise next ihMatched ihOtherwise ihNext =>
      obtain ⟨⟨c, path, rfl⟩, hMatched, hOtherwise, hNext⟩ := hCode
      have inner := balanced_layout matched (n + 1 + 1) false
      have tests := balanced_conditionLayout (n + 1) chained (Cond.ofPath (c :: path))
      have afterTests := hOpen.append tests
      have afterIf := hOpen.append (tests.append (inner.braced (n + 1)))
      have ends : EndsIf (n + 1) (before ++ (conditionLayout (n + 1) chained
          (Cond.ofPath (c :: path)) ++ bracedLayout (n + 1) (matched.layout (n + 1 + 1) false))) :=
        ⟨before, _, _, rfl, isCondition_conditionLayout (n + 1) chained _ _, inner⟩
      have others := balanced_otherwise (balanced_layout otherwise) (n + 1)
      rw [Code.layout, placed_append, placed_append, placed_append]
      refine ⟨⟨⟨?_, ?_⟩, ?_⟩, ?_⟩
      case refine_1 => exact hOpen.placed_conditionLayout hChain _ _
      case refine_2 =>
        apply afterTests.placed_bracedLayout inner
        exact ihMatched hMatched (afterTests.opening (n + 1)) (by simp) _
      case refine_3 => exact afterIf.placed_otherwise ends (ihOtherwise hOtherwise)
      case refine_4 =>
        apply ihNext hNext _ (by simp) after
        rw [← List.append_assoc]
        exact afterIf.append others

/-- The lines of a case between its label and the empty line are well nested. -/
theorem wellNested_caseBody {code : Code} (hCode : code.AsksForPaths) :
    WellNested ((({} : Style).lines 1 [] code ++ ["\tbreak;".toList]).map Line.ofText) := by
  have last : ["\tbreak;".toList].map Line.ofText = [⟨1, .plain, false⟩] := by decide
  have layout : (({} : Style).lines 1 [] code).map Line.ofText = code.layout 1 false :=
    Style.map_ofText_lines 1 false code
  have start : LeavesOpen 0 [] := rfl
  have body := balanced_layout code 1 false
  rw [List.map_append, layout, last]
  apply Placed.wellNested _ (body.append (balanced_singleton _ (by simp)))
  rw [placed_append]
  refine ⟨placed_layout hCode start (by simp) _, ?_, trivial⟩
  exact (start.append body).fits_plain

end KeywordSwitch
