import Orca.Data.Text
import Orca.Library.EditScript

/-!
# The difference between two crontabs

`line_diff` shows what an edit changes: it fills a table with the lengths of the longest common
subsequences of all suffixes of the two lists of lines, and then goes over both lists with it.

Every access to the table or to a list is one that could be out of range.  `lineDiff_eq` says that
none is, and that the walk is the shortest edit script (`EditScript.script`); `lineDiff_minimal`
says what that means for the lines that are shown.
-/

namespace Orca.Cron

open EditScript

/-! ## The table -/

/-- A table with a length for each two suffixes. -/
abbrev LcsTable := List (List Nat)

/-- A cell is read, if it is in the table. -/
def readCell (t : LcsTable) (i j : Nat) : Option Nat :=
  match t[i]? with
  | some row => row[j]?
  | none => none

/-- A cell is written, if it is in the table. -/
def writeCell (t : LcsTable) (i j v : Nat) : Option LcsTable :=
  match t[i]? with
  | some row => if j < row.length then some (t.set i (row.set j v)) else none
  | none => none

/-- The table before the loops. -/
def zeroTable (a b : List String) : LcsTable :=
  List.replicate (a.length + 1) (List.replicate (b.length + 1) 0)

/-- What is written into a cell. -/
def cellValue (a b : List String) (t : LcsTable) (i j : Nat) : Option Nat := do
  let x ← a[i]?
  let y ← b[j]?
  if x = y then
    let below ← readCell t (i + 1) (j + 1)
    return below + 1
  else
    let down ← readCell t (i + 1) j
    let right ← readCell t i (j + 1)
    return max down right

/-- The inner loop, over the columns before the `n`-th, the last one first. -/
def fillRow (a b : List String) (i : Nat) : Nat → LcsTable → Option LcsTable
  | 0, t => some t
  | j + 1, t => do
    let v ← cellValue a b t i j
    let t ← writeCell t i j v
    fillRow a b i j t

/-- The outer loop, over the rows before the `n`-th, the last one first. -/
def fillRows (a b : List String) : Nat → LcsTable → Option LcsTable
  | 0, t => some t
  | i + 1, t => do
    let t ← fillRow a b i b.length t
    fillRows a b i t

/-! ## The walk -/

/-- The next lines of both lists are there and the same. -/
def sameNext (a b : List String) (i j : Nat) : Option Bool :=
  if i < a.length ∧ j < b.length then do
    let x ← a[i]?
    let y ← b[j]?
    return x = y
  else some false

/-- The next line of the first list is there and shown as removed. -/
def removesNext (a b : List String) (t : LcsTable) (i j : Nat) : Option Bool :=
  if i < a.length then
    if j = b.length then some true
    else do
      let down ← readCell t (i + 1) j
      let right ← readCell t i (j + 1)
      return right ≤ down
  else some false

/-- One round of the loop: the line that is shown, if any, and the places to go on from.  There is
none when both lists are at their ends. -/
def walkStep (a b : List String) (t : LcsTable) (i j : Nat) :
    Option (Option (Option String × Nat × Nat)) :=
  if i < a.length ∨ j < b.length then do
    if ← sameNext a b i j then return some (none, i + 1, j + 1)
    else if ← removesNext a b t i j then
      let x ← a[i]?
      return some (some ("-" ++ x), i + 1, j)
    else
      let y ← b[j]?
      return some (some ("+" ++ y), i, j + 1)
  else some none

/-- The loop, which may go round so many times. -/
def walk (a b : List String) (t : LcsTable) : Nat → Nat → Nat → Option (List String)
  | 0, _, _ => none
  | rounds + 1, i, j => do
    match ← walkStep a b t i j with
    | none => return []
    | some (line, i, j) =>
      let rest ← walk a b t rounds i j
      return line.toList ++ rest

/-- `line_diff`. -/
def lineDiff (before after : String) : Option (List String) := do
  let a := lines before
  let b := lines after
  let t ← fillRows a b a.length (zeroTable a b)
  walk a b t (a.length + b.length + 1) 0 0

/-! ## The table is right -/

section Table

variable {a b : List String} {t t' : LcsTable} {i j : Nat}

/-- The cells that are in some part of the table are right. -/
def RightOn (a b : List String) (t : LcsTable) (part : Nat → Nat → Prop) : Prop :=
  ∀ i ≤ a.length, ∀ j ≤ b.length, part i j → readCell t i j = some (lcs (a.drop i) (b.drop j))

/-- The cells that are right when the inner loop is before the column. -/
def Filled (b : List String) (i j : Nat) (i' j' : Nat) : Prop :=
  i < i' ∨ i' = i ∧ j ≤ j' ∨ j' = b.length

/-- A table has a row for each suffix of the one list, and a cell in it for each of the other. -/
def HasShape (a b : List String) (t : LcsTable) : Prop :=
  t.length = a.length + 1 ∧ ∀ row ∈ t, row.length = b.length + 1

lemma hasShape_zeroTable (a b : List String) : HasShape a b (zeroTable a b) := by
  refine ⟨List.length_replicate, fun row hrow => ?_⟩
  rw [List.eq_of_mem_replicate hrow, List.length_replicate]

/-- The cells of the last row and of the last column are right before the loops. -/
lemma rightOn_zeroTable (a b : List String) :
    RightOn a b (zeroTable a b) fun i j => i = a.length ∨ j = b.length := by
  intro i hi j hj hlast
  have hzero : lcs (a.drop i) (b.drop j) = 0 := by
    rcases hlast with rfl | rfl
    · rw [List.drop_length, lcs_nil_left]
    · rw [List.drop_length, lcs_nil_right]
  rw [readCell, zeroTable, List.getElem?_replicate_of_lt (Nat.lt_succ_of_le hi), hzero]
  exact List.getElem?_replicate_of_lt (Nat.lt_succ_of_le hj)

/-- A cell of a table of that shape can be written, and no other cell changes. -/
lemma writeCell_spec (h : HasShape a b t) (hi : i ≤ a.length) (hj : j ≤ b.length) (v : Nat) :
    ∃ t', writeCell t i j v = some t' ∧ HasShape a b t' ∧ readCell t' i j = some v ∧
      ∀ i' j', ¬(i' = i ∧ j' = j) → readCell t' i' j' = readCell t i' j' := by
  have hrow : i < t.length := h.1 ▸ Nat.lt_succ_of_le hi
  have hlength : t[i].length = b.length + 1 := h.2 _ (List.getElem_mem hrow)
  have hcol : j < t[i].length := hlength ▸ Nat.lt_succ_of_le hj
  refine ⟨t.set i (t[i].set j v), ?_, ⟨?_, ?_⟩, ?_, ?_⟩
  · rw [writeCell, List.getElem?_eq_getElem hrow]
    exact if_pos hcol
  · rw [List.length_set, h.1]
  · intro row hmem
    rcases List.mem_or_eq_of_mem_set hmem with hmem | rfl
    · exact h.2 row hmem
    · rw [List.length_set, hlength]
  · rw [readCell, List.getElem?_set_self hrow]
    exact List.getElem?_set_self hcol
  · intro i' j' hother
    rw [readCell, readCell]
    by_cases hsame : i' = i
    · subst hsame
      have hne : j ≠ j' := fun heq => hother ⟨rfl, heq.symm⟩
      rw [List.getElem?_set_self hrow, List.getElem?_eq_getElem hrow]
      exact List.getElem?_set_ne hne
    · rw [List.getElem?_set_ne fun heq => hsame heq.symm]

/-- The value of a cell is right if those after it are. -/
lemma cellValue_spec (hi : i < a.length) (hj : j < b.length)
    (hright : RightOn a b t (Filled b i (j + 1))) :
    cellValue a b t i j = some (lcs (a.drop i) (b.drop j)) := by
  have hdown := hright (i + 1) hi j hj.le (Or.inl (Nat.lt_succ_self i))
  have hacross := hright i hi.le (j + 1) hj (Or.inr (Or.inl ⟨rfl, le_refl _⟩))
  have hdiagonal := hright (i + 1) hi (j + 1) hj (Or.inl (Nat.lt_succ_self i))
  rw [cellValue, List.getElem?_eq_getElem hi, List.getElem?_eq_getElem hj,
    List.drop_eq_getElem_cons hi, List.drop_eq_getElem_cons hj]
  simp only [Option.bind_eq_bind, Option.bind_some]
  by_cases hsame : a[i] = b[j]
  · rw [if_pos hsame, hdiagonal, hsame, lcs_cons_self]
    rfl
  · rw [if_neg hsame, hdown, hacross, lcs_cons_of_ne hsame,
      ← List.drop_eq_getElem_cons hi, ← List.drop_eq_getElem_cons hj]
    rfl

/-- The inner loop fills the row. -/
lemma fillRow_spec (hi : i < a.length) (hj : j ≤ b.length) (hshape : HasShape a b t)
    (hright : RightOn a b t (Filled b i j)) :
    ∃ t', fillRow a b i j t = some t' ∧ HasShape a b t' ∧ RightOn a b t' (Filled b i 0) := by
  induction j generalizing t with
  | zero => exact ⟨t, rfl, hshape, hright⟩
  | succ j ih =>
    obtain ⟨t', hwrite, hshape', hcell, hothers⟩ :=
      writeCell_spec hshape hi.le (Nat.le_of_succ_le hj) (lcs (a.drop i) (b.drop j))
    have hright' : RightOn a b t' (Filled b i j) := by
      intro i' hi' j' hj' hpart
      by_cases hsame : i' = i ∧ j' = j
      · obtain ⟨rfl, rfl⟩ := hsame
        exact hcell
      · rw [hothers i' j' hsame]
        refine hright i' hi' j' hj' ?_
        unfold Filled at *
        omega
    rw [fillRow, cellValue_spec hi hj hright]
    simp only [Option.bind_eq_bind, Option.bind_some]
    rw [hwrite]
    exact ih (Nat.le_of_succ_le hj) hshape' hright'

/-- The outer loop fills the table. -/
lemma fillRows_spec (hi : i ≤ a.length) (hshape : HasShape a b t)
    (hright : RightOn a b t fun i' j' => i ≤ i' ∨ j' = b.length) :
    ∃ t', fillRows a b i t = some t' ∧ RightOn a b t' fun _ _ => True := by
  induction i generalizing t with
  | zero => exact ⟨t, rfl, fun i' hi' j' hj' _ => hright i' hi' j' hj' (Or.inl (Nat.zero_le i'))⟩
  | succ i ih =>
    obtain ⟨t', hfill, hshape', hright'⟩ := fillRow_spec (j := b.length) hi (le_refl _) hshape
      (fun i' hi' j' hj' hpart => hright i' hi' j' hj' (by
        unfold Filled at hpart
        omega))
    rw [fillRows, hfill]
    simp only [Option.bind_eq_bind, Option.bind_some]
    refine ih (Nat.le_of_succ_le hi) hshape' fun i' hi' j' hj' hpart => ?_
    refine hright' i' hi' j' hj' ?_
    unfold Filled
    omega

lemma fillRows_zeroTable (a b : List String) :
    ∃ t, fillRows a b a.length (zeroTable a b) = some t ∧ RightOn a b t fun _ _ => True := by
  refine fillRows_spec (le_refl _) (hasShape_zeroTable a b) fun i hi j hj hpart => ?_
  exact rightOn_zeroTable a b i hi j hj (hpart.imp_left fun h => le_antisymm hi h)

end Table

/-! ## The walk is the shortest script -/

/-- A step of the script, as it is shown. -/
def showEdit : Edit String → String
  | .remove line => "-" ++ line
  | .add line => "+" ++ line

/-- A round of the loop with a table that is right. -/
lemma walkStep_eq {a b : List String} {t : LcsTable} (hright : RightOn a b t fun _ _ => True)
    {i j : Nat} (hi : i ≤ a.length) (hj : j ≤ b.length) :
    walkStep a b t i j =
      match a.drop i, b.drop j with
      | [], [] => some none
      | x :: _, [] => some (some (some ("-" ++ x), i + 1, j))
      | [], y :: _ => some (some (some ("+" ++ y), i, j + 1))
      | x :: xs, y :: ys =>
        if x = y then some (some (none, i + 1, j + 1))
        else if lcs (x :: xs) ys ≤ lcs xs (y :: ys) then
          some (some (some ("-" ++ x), i + 1, j))
        else some (some (some ("+" ++ y), i, j + 1)) := by
  rcases Nat.lt_or_eq_of_le hi with hlti | rfl
  · rcases Nat.lt_or_eq_of_le hj with hltj | rfl
    · have hdown := hright (i + 1) hlti j hj trivial
      have hacross := hright i hi (j + 1) hltj trivial
      have hloop : i < a.length ∨ j < b.length := Or.inl hlti
      have hsame : sameNext a b i j = some (decide (a[i] = b[j])) := by
        rw [sameNext, if_pos ⟨hlti, hltj⟩, List.getElem?_eq_getElem hlti,
          List.getElem?_eq_getElem hltj]
        rfl
      have hremoves : removesNext a b t i j =
          some (decide (lcs (a.drop i) (b.drop (j + 1)) ≤ lcs (a.drop (i + 1)) (b.drop j))) := by
        rw [removesNext, if_pos hlti, if_neg hltj.ne, hdown, hacross]
        rfl
      rw [walkStep, if_pos hloop, hsame, hremoves, List.getElem?_eq_getElem hlti,
        List.getElem?_eq_getElem hltj, List.drop_eq_getElem_cons hlti,
        List.drop_eq_getElem_cons hltj]
      simp only [Option.bind_eq_bind, Option.bind_some, decide_eq_true_eq]
      split
      · rfl
      · split
        · rfl
        · rfl
    · have hend : b.drop b.length = [] := List.drop_length
      have hloop : i < a.length ∨ b.length < b.length := Or.inl hlti
      have hsame : sameNext a b i b.length = some false :=
        if_neg fun h => lt_irrefl _ h.2
      have hremoves : removesNext a b t i b.length = some true := by
        rw [removesNext, if_pos hlti, if_pos rfl]
      rw [walkStep, if_pos hloop, hsame, hremoves, List.getElem?_eq_getElem hlti, hend,
        List.drop_eq_getElem_cons hlti]
      rfl
  · have hend : a.drop a.length = [] := List.drop_length
    rcases Nat.lt_or_eq_of_le hj with hltj | rfl
    · have hloop : a.length < a.length ∨ j < b.length := Or.inr hltj
      have hsame : sameNext a b a.length j = some false :=
        if_neg fun h => lt_irrefl _ h.1
      have hremoves : removesNext a b t a.length j = some false := if_neg (lt_irrefl _)
      rw [walkStep, if_pos hloop, hsame, hremoves, List.getElem?_eq_getElem hltj, hend,
        List.drop_eq_getElem_cons hltj]
      rfl
    · have hloop : ¬(a.length < a.length ∨ b.length < b.length) := by omega
      rw [walkStep, if_neg hloop, hend, List.drop_length]

/-- The loop after a round that goes on. -/
lemma walk_of_walkStep {a b : List String} {t : LcsTable} {rounds i j i' j' : Nat}
    {line : Option String} {rest : List String}
    (hstep : walkStep a b t i j = some (some (line, i', j')))
    (hrest : walk a b t rounds i' j' = some rest) :
    walk a b t (rounds + 1) i j = some (line.toList ++ rest) := by
  rw [walk, hstep]
  simp only [Option.bind_eq_bind, Option.bind_some]
  rw [hrest]
  rfl

lemma drop_succ_of_drop {l : List String} {k : Nat} {x : String} {xs : List String}
    (hdrop : l.drop k = x :: xs) : k < l.length ∧ l.drop (k + 1) = xs := by
  have hlt : k < l.length := by
    by_contra hge
    rw [List.drop_eq_nil_of_le (Nat.not_lt.mp hge)] at hdrop
    exact nomatch hdrop
  rw [List.drop_eq_getElem_cons hlt] at hdrop
  exact ⟨hlt, (List.cons.inj hdrop).2⟩

/-- With a table that is right the loop ends in time, never leaves the lists, and shows the shortest
script. -/
lemma walk_eq {a b : List String} {t : LcsTable} (hright : RightOn a b t fun _ _ => True)
    {rounds i j : Nat} (hi : i ≤ a.length) (hj : j ≤ b.length)
    (hrounds : (a.length - i) + (b.length - j) < rounds) :
    walk a b t rounds i j = some ((script (a.drop i) (b.drop j)).map showEdit) := by
  induction rounds generalizing i j with
  | zero => exact absurd hrounds (Nat.not_lt_zero _)
  | succ rounds ih =>
    have hstep := walkStep_eq hright hi hj
    cases ha : a.drop i with
    | nil =>
      cases hb : b.drop j with
      | nil =>
        rw [ha, hb] at hstep
        rw [walk, hstep, script]
        rfl
      | cons y ys =>
        obtain ⟨hlt, hys⟩ := drop_succ_of_drop hb
        have hrest := ih hi hlt (by omega)
        rw [ha, hb] at hstep
        rw [walk_of_walkStep hstep hrest, ha, hys, script]
        rfl
    | cons x xs =>
      obtain ⟨hlti, hxs⟩ := drop_succ_of_drop ha
      cases hb : b.drop j with
      | nil =>
        have hrest := ih hlti hj (by omega)
        rw [ha, hb] at hstep
        rw [walk_of_walkStep hstep hrest, hxs, hb, script]
        rfl
      | cons y ys =>
        obtain ⟨hltj, hys⟩ := drop_succ_of_drop hb
        rw [ha, hb] at hstep
        dsimp only at hstep
        rw [script]
        split at hstep
        · have hrest := ih hlti hltj (by omega)
          rw [walk_of_walkStep hstep hrest, if_pos ‹x = y›, hxs, hys]
          rfl
        · rw [if_neg ‹¬x = y›]
          split at hstep
          · have hrest := ih hlti hj (by omega)
            rw [walk_of_walkStep hstep hrest, if_pos ‹_ ≤ _›, hxs, hb]
            rfl
          · have hrest := ih hi hltj (by omega)
            rw [walk_of_walkStep hstep hrest, if_neg ‹¬_ ≤ _›, ha, hys]
            rfl

/-- No access is out of range, and the lines shown are the shortest script. -/
theorem lineDiff_eq (before after : String) :
    lineDiff before after = some ((script (lines before) (lines after)).map showEdit) := by
  obtain ⟨t, hfill, hright⟩ := fillRows_zeroTable (lines before) (lines after)
  have hrounds : ((lines before).length - 0) + ((lines after).length - 0) <
      (lines before).length + (lines after).length + 1 := by omega
  have hwalk := walk_eq hright (Nat.zero_le _) (Nat.zero_le _) hrounds
  rw [List.drop_zero, List.drop_zero] at hwalk
  rw [lineDiff]
  simp only [Option.bind_eq_bind]
  rw [hfill, Option.bind_some, hwalk]

/-! ## The lines that are shown -/

/-- A line that is shown with the given sign, without the sign. -/
def signedLine (sign : Char) (line : String) : Option String :=
  match line.toList with
  | c :: rest => if c = sign then some (String.ofList rest) else none
  | [] => none

/-- The lines that are shown as removed. -/
def removedLines (out : List String) : List String := out.filterMap (signedLine '-')

/-- The lines that are shown as added. -/
def addedLines (out : List String) : List String := out.filterMap (signedLine '+')

lemma removedLines_showEdit (edits : List (Edit String)) :
    removedLines (edits.map showEdit) = edits.filterMap Edit.removed := by
  rw [removedLines, List.filterMap_map]
  refine List.filterMap_congr fun edit _ => ?_
  cases edit <;> simp [signedLine, showEdit, Edit.removed]

lemma addedLines_showEdit (edits : List (Edit String)) :
    addedLines (edits.map showEdit) = edits.filterMap Edit.added := by
  rw [addedLines, List.filterMap_map]
  refine List.filterMap_congr fun edit _ => ?_
  cases edit <;> simp [signedLine, showEdit, Edit.added]

/-- `line_diff` never leaves its table.  Without the lines shown as removed the first text has the
lines that the second one has without the lines shown as added; the lines shown are as many as there
are lines that are not in a longest common subsequence; and none is shown if and only if the lines
of the two texts are the same. -/
theorem lineDiff_minimal (before after : String) :
    ∃ out, lineDiff before after = some out ∧
      out.length = (removedLines out).length + (addedLines out).length ∧
      (∃ kept, Interleaves (removedLines out) kept (lines before) ∧
        Interleaves (addedLines out) kept (lines after)) ∧
      (∃ longest, IsGreatest
          {n | ∃ l : List String, l.Sublist (lines before) ∧ l.Sublist (lines after) ∧
            l.length = n} longest ∧
        out.length + 2 * longest = (lines before).length + (lines after).length) ∧
      (out = [] ↔ lines before = lines after) := by
  refine ⟨_, lineDiff_eq before after, ?_, ?_, ⟨lcs (lines before) (lines after),
    isGreatest_lcs _ _, ?_⟩, ?_⟩
  · rw [removedLines_showEdit, addedLines_showEdit, List.length_map]
    exact length_eq_removed_add_added _
  · rw [removedLines_showEdit, addedLines_showEdit]
    exact exists_kept _ _
  · rw [List.length_map]
    exact length_script _ _
  · rw [List.map_eq_nil_iff]
    exact script_eq_nil_iff

end Orca.Cron
