import CryptoAggHarmonic.FtStrategy.Site
import CryptoAggHarmonic.FtStrategy.Lemmas.EventLog
import Mathlib.Data.List.TakeWhile

/-!
# The rows of a log, read back

What the two passes of newline translation and the splitting into lines and cells make of the rows that were appended.
-/

namespace CryptoAggHarmonic.FtStrategy

variable {c : Char} {s x y : List Char} {repr : PyFloat → String} {r : LogRow} {rows : List LogRow}

/-! ## Universal newlines -/

def newlineFor (c : Char) : Char := if c = '\r' then '\n' else c

theorem universalNewlines_append (h : x.getLast? ≠ some '\r') :
    universalNewlines (x ++ y) = universalNewlines x ++ universalNewlines y := by
  fun_induction universalNewlines x with
  | case1 cs ih =>
      rw [List.cons_append, List.cons_append, universalNewlines, ih, List.cons_append]
      intro hlast
      refine h ?_
      cases cs with
      | nil => cases hlast
      | cons d cs => simpa [List.getLast?_cons_cons] using hlast
  | case2 cs hnot ih =>
      cases cs with
      | nil => exact absurd rfl h
      | cons d cs =>
          have hd : d ≠ '\n' := fun heq => hnot cs (by rw [heq])
          have hlast : (d :: cs).getLast? ≠ some '\r' := by simpa [List.getLast?_cons_cons] using h
          rw [List.cons_append, List.cons_append, universalNewlines, ← List.cons_append, ih hlast, List.cons_append]
          intro more heq
          exact hd (List.cons.inj heq).1
  | case3 d cs hcrlf hcr ih =>
      have hd : d ≠ '\r' := by
        rintro rfl
        exact hcr rfl
      rw [List.cons_append, universalNewlines, ih, List.cons_append]
      · intro hlast
        refine h ?_
        cases cs with
        | nil => cases hlast
        | cons e cs => simpa [List.getLast?_cons_cons] using hlast
      · intro more heq
        exact absurd heq hd
      · exact hd
  | case4 => rfl

theorem universalNewlines_of_no_newline (h : '\n' ∉ x) : universalNewlines x = x.map newlineFor := by
  fun_induction universalNewlines x with
  | case1 cs => simp at h
  | case2 cs hnot ih => simp_all [newlineFor]
  | case3 d cs hcrlf hcr ih =>
      have hd : d ≠ '\r' := by
        rintro rfl
        exact hcr rfl
      simp_all [newlineFor]
  | case4 => rfl

theorem return_notMem_universalNewlines : '\r' ∉ universalNewlines x := by
  fun_induction universalNewlines x with
  | case1 cs ih => simp [ih]
  | case2 cs hnot ih => simp [ih]
  | case3 d cs hcrlf hcr ih =>
      have hd : d ≠ '\r' := by
        rintro rfl
        exact hcr rfl
      simp [ih, hd.symm]
  | case4 => simp

theorem newlineFor_of_not_blank (h : pyIsSpace c = false) : newlineFor c = c := by
  unfold newlineFor
  rw [if_neg]
  rintro rfl
  revert h
  decide

/-! ## Lines that are not blank -/

/-- The lines that `read_tsv_events` looks at. -/
def fullLines (s : List Char) : List (List Char) := (s.splitOn '\n').filter fun l => pyStrip l ≠ []

theorem fullLines_append : fullLines (x ++ '\n' :: y) = fullLines x ++ fullLines y := by
  rw [fullLines, List.splitOn_append_cons_self, List.filter_append]
  rfl

theorem fullLines_nil : fullLines [] = [] := by decide

theorem fullLines_single (h : '\n' ∉ x) (hfull : pyStrip x ≠ []) : fullLines x = [x] := by
  rw [fullLines, List.splitOn_eq_singleton h]
  simp [hfull]

theorem fullLines_ne_nil (hc : c ∈ x) (hblank : pyIsSpace c = false) : fullLines x ≠ [] := by
  have hjoin : ['\n'].intercalate (x.splitOn '\n') = x := List.intercalate_splitOn '\n'
  rw [← hjoin] at hc
  obtain hsep | ⟨piece, hpiece, hc⟩ := mem_intercalate hc
  · rw [List.mem_singleton.mp hsep] at hblank
    exact absurd hblank (by decide)
  · exact List.ne_nil_of_mem (List.mem_filter.mpr ⟨hpiece, by simpa using pyStrip_ne_nil hc hblank⟩)

/-! ## The cells of a row -/

/-- What `_format_row` joins after the commit. -/
def LogRow.cells (repr : PyFloat → String) (r : LogRow) : List (List Char) :=
  [clean r.entry.event.toList, clean r.entry.strategyName.toList,
    clean ((r.entry.sharpe.map fun x => (repr x).toList).getD []),
    clean ((r.entry.maxDd.map fun x => (repr x).toList).getD []), clean r.entry.note.toList]

def LogRow.text (repr : PyFloat → String) (r : LogRow) : List Char := formatRow repr r.args

theorem text_eq : r.text repr = ['\t'].intercalate (r.commit.text :: r.cells repr) := rfl

theorem splitOn_text : (r.text repr).splitOn '\t' = r.commit.text :: r.cells repr := splitOn_formatRow

theorem newline_notMem_text : '\n' ∉ r.text repr := newline_notMem_formatRow

/-- A cell lies in the row behind its first field. -/
theorem intercalate_split (first : List Char) {cell : List Char} {cells : List (List Char)} (h : cell ∈ cells) :
    ∃ front back, ['\t'].intercalate (first :: cells) = first ++ (front ++ cell ++ back) := by
  induction cells generalizing first with
  | nil => cases h
  | cons next cells ih =>
      rw [List.intercalate_cons_cons]
      rcases List.mem_cons.mp h with rfl | h
      · cases cells with
        | nil => exact ⟨['\t'], [], by simp [List.intercalate_singleton]⟩
        | cons after cells =>
            refine ⟨['\t'], '\t' :: ['\t'].intercalate (after :: cells), ?_⟩
            rw [List.intercalate_cons_cons]
            simp
      · obtain ⟨front, back, heq⟩ := ih next h
        exact ⟨'\t' :: next ++ front, back, by rw [heq]; simp⟩

theorem not_blank_of_alphanum (h : c.isAlphanum = true) : pyIsSpace c = false := by
  have hA : 'A'.val.toNat = 65 := rfl
  have hZ : 'Z'.val.toNat = 90 := rfl
  have ha : 'a'.val.toNat = 97 := rfl
  have hz : 'z'.val.toNat = 122 := rfl
  have h0 : '0'.val.toNat = 48 := rfl
  have h9 : '9'.val.toNat = 57 := rfl
  have hval : c.val.toNat = c.toNat := rfl
  have hletter : ((c.val ≥ 'A'.val ∧ c.val ≤ 'Z'.val) || (c.val ≥ 'a'.val && c.val ≤ 'z'.val) ||
      (c.val ≥ '0'.val && c.val ≤ '9'.val)) = true := h
  simp only [ge_iff_le, UInt32.le_iff_toNat_le, Bool.or_eq_true, decide_eq_true_eq, Bool.and_eq_true, hval, hA, hZ, ha,
    hz, h0, h9] at hletter
  simp only [pyIsSpace, Bool.or_eq_false_iff, Bool.and_eq_false_iff, decide_eq_false_iff_not]
  omega

theorem ShortCommit.exists_letter (commit : ShortCommit) : ∃ c ∈ commit.text, pyIsSpace c = false := by
  obtain ⟨c, rest, hcons⟩ := List.exists_cons_of_ne_nil commit.nonempty
  have hc : c ∈ commit.text := by
    rw [hcons]
    exact List.mem_cons_self
  refine ⟨c, hc, ?_⟩
  rcases commit.plain c hc with halnum | rfl
  · exact not_blank_of_alphanum halnum
  · decide

theorem getLast_tab (h : y.getLast? ≠ some '\r') : (x ++ ['\t'] ++ y).getLast? ≠ some '\r' := by
  cases y with
  | nil => simp
  | cons d y => rwa [List.getLast?_append_of_ne_nil _ (List.cons_ne_nil d y)]

theorem clean_last : (clean s).getLast? ≠ some '\r' := by
  intro h
  have hspace := pyStrip_getLast (Option.mem_def.mpr h)
  exact absurd hspace (by decide)

/-- A row does not end with a return: the last cell is stripped. -/
theorem text_last : (r.text repr).getLast? ≠ some '\r' := by
  have hcells : ∀ (cells : List (List Char)) (first : List Char),
      (['\t'].intercalate (first :: (cells ++ [clean r.entry.note.toList]))).getLast? ≠ some '\r' := by
    intro cells
    induction cells with
    | nil =>
        intro first
        rw [List.nil_append, List.intercalate_cons_cons, List.intercalate_singleton]
        exact getLast_tab clean_last
    | cons next cells ih =>
        intro first
        rw [List.cons_append, List.intercalate_cons_cons]
        exact getLast_tab (ih next)
  exact hcells [clean r.entry.event.toList, clean r.entry.strategyName.toList,
    clean ((r.entry.sharpe.map fun x => (repr x).toList).getD []),
    clean ((r.entry.maxDd.map fun x => (repr x).toList).getD [])] r.commit.text

/-! ## The lines of a row -/

/-- What a row has become once it was read. -/
def LogRow.readText (repr : PyFloat → String) (r : LogRow) : List Char := (r.text repr).map newlineFor

theorem universalNewlines_line : universalNewlines (line (r.text repr)) = r.readText repr ++ ['\n'] := by
  rw [line, universalNewlines_append text_last, universalNewlines_of_no_newline newline_notMem_text]
  rfl

/-- No return is left inside a cell. -/
def LogRow.Whole (repr : PyFloat → String) (r : LogRow) : Prop := ∀ cell ∈ r.cells repr, '\r' ∉ cell

theorem mem_readText (hc : c ∈ r.text repr) (hblank : pyIsSpace c = false) : c ∈ r.readText repr :=
  List.mem_map.mpr ⟨c, hc, newlineFor_of_not_blank hblank⟩

theorem commit_subset_text : r.commit.text ⊆ r.text repr := by
  rw [text_eq, LogRow.cells, List.intercalate_cons_cons]
  exact fun _ hc => List.mem_append_left _ (List.mem_append_left _ hc)

theorem return_notMem_text (h : r.Whole repr) : '\r' ∉ r.text repr := by
  rw [text_eq]
  intro hmem
  obtain hsep | ⟨field, hfield, hc⟩ := mem_intercalate hmem
  · exact absurd (List.mem_singleton.mp hsep) (by decide)
  · rcases List.mem_cons.mp hfield with rfl | hcell
    · have hplain := r.commit.plain _ hc
      revert hplain
      decide
    · exact h field hcell hc

/-- A whole row is one line. -/
theorem fullLines_whole (h : r.Whole repr) : fullLines (r.readText repr) = [r.text repr] := by
  have hread : r.readText repr = r.text repr := by
    rw [LogRow.readText]
    refine (List.map_congr_left fun c hc => ?_).trans (List.map_id _)
    rw [newlineFor, if_neg, id]
    rintro rfl
    exact return_notMem_text h hc
  obtain ⟨c, hc, hblank⟩ := r.commit.exists_letter
  rw [hread, fullLines_single newline_notMem_text (pyStrip_ne_nil (commit_subset_text hc) hblank)]

theorem fullLines_row_ne_nil : fullLines (r.readText repr) ≠ [] := by
  obtain ⟨c, hc, hblank⟩ := r.commit.exists_letter
  exact fullLines_ne_nil (mem_readText (commit_subset_text hc) hblank) hblank

/-- A return inside a cell makes two lines of the row: the cell does not end with it. -/
theorem two_le_fullLines (h : ¬ r.Whole repr) : 2 ≤ (fullLines (r.readText repr)).length := by
  simp only [LogRow.Whole, not_forall, not_not] at h
  obtain ⟨cell, hcell, hreturn⟩ := h
  obtain ⟨before, after, hsplit⟩ := List.append_of_mem hreturn
  obtain ⟨front, back, htext⟩ := intercalate_split r.commit.text hcell
  have hread : r.readText repr = (r.commit.text ++ front ++ before).map newlineFor ++
      '\n' :: (after ++ back).map newlineFor := by
    rw [LogRow.readText, text_eq, htext, hsplit]
    simp [newlineFor]
  have hfirst : fullLines ((r.commit.text ++ front ++ before).map newlineFor) ≠ [] := by
    obtain ⟨c, hc, hblank⟩ := r.commit.exists_letter
    refine fullLines_ne_nil (List.mem_map.mpr ⟨c, ?_, newlineFor_of_not_blank hblank⟩) hblank
    simp [hc]
  have hsecond : fullLines ((after ++ back).map newlineFor) ≠ [] := by
    have hclean : ∃ s, cell = clean s := by
      simp only [LogRow.cells, List.mem_cons, List.not_mem_nil, or_false] at hcell
      rcases hcell with h | h | h | h | h <;> exact ⟨_, h⟩
    obtain ⟨s, hs⟩ := hclean
    cases hlast : after.getLast? with
    | none =>
        have hnil := List.getLast?_eq_none_iff.mp hlast
        have hend : (clean s).getLast? = some '\r' := by
          rw [← hs, hsplit, hnil]
          simp
        exact absurd hend clean_last
    | some d =>
        have hend : d ∈ (clean s).getLast? := by
          have hne : after ≠ [] := by
            rintro rfl
            cases hlast
          rw [← hs, hsplit, List.getLast?_append_of_ne_nil _ (List.cons_ne_nil _ _),
            List.getLast?_cons_of_ne_nil hne, hlast]
          rfl
        have hblank := pyStrip_getLast hend
        refine fullLines_ne_nil (List.mem_map.mpr ⟨d, ?_, newlineFor_of_not_blank hblank⟩) hblank
        exact List.mem_append_left _ (List.mem_of_getLast? hlast)
  have := List.length_pos_iff.mpr hfirst
  have := List.length_pos_iff.mpr hsecond
  rw [hread, fullLines_append, List.length_append]
  omega

/-! ## The log -/

/-- The file as it is read after the rows. -/
def rowsText (repr : PyFloat → String) (rows : List LogRow) : List Char :=
  line header ++ rows.flatMap fun r => r.readText repr ++ ['\n']

theorem rowsText_append : rowsText repr (rows ++ [r]) = rowsText repr rows ++ (r.readText repr ++ ['\n']) := by
  simp [rowsText]

theorem rowsText_last : (rowsText repr rows).getLast? = some '\n' := by
  induction rows using List.reverseRecOn with
  | nil =>
      show (line header).getLast? = some '\n'
      decide
  | append_singleton rows r ih =>
      rw [rowsText_append]
      simp

theorem fullLines_rowsText :
    fullLines (rowsText repr rows) = header :: rows.flatMap fun r => fullLines (r.readText repr) := by
  have hrows : ∀ rows : List LogRow, fullLines (rows.flatMap fun r => r.readText repr ++ ['\n']) =
      rows.flatMap fun r => fullLines (r.readText repr) := by
    intro rows
    induction rows with
    | nil => exact fullLines_nil
    | cons r rows ih =>
        rw [List.flatMap_cons, List.flatMap_cons, List.append_assoc, List.singleton_append, fullLines_append, ih]
  have hheader : fullLines header = [header] := fullLines_single (by decide) (by decide)
  rw [rowsText, line, List.append_assoc, List.singleton_append, fullLines_append, hrows, hheader]
  rfl

/-- **What the rows come to in the file**, each append reading and writing all of it. -/
theorem withHeader_appendRows (rows : List LogRow) :
    universalNewlines (appendRows repr none rows).withHeader = rowsText repr rows := by
  induction rows using List.reverseRecOn with
  | nil =>
      have hheader : '\r' ∉ line header := by decide
      exact universalNewlines_of_no_return hheader
  | append_singleton rows r ih =>
      have hstep : appendRows repr none (rows ++ [r]) =
          (appendCrashSafe (appendRows repr none rows) (formatRow repr r.args) none).2 := by
        simp [appendRows]
      have hlast : (rowsText repr rows).getLast? = some '\n' := rowsText_last
      have hreturns : appendCrashSafe (appendRows repr none rows) (formatRow repr r.args) none =
          (false, some (withRow (universalNewlines (appendRows repr none rows).withHeader) (formatRow repr r.args))) :=
        appendCrashSafe_returns _ fun h => h
      have hfile : appendRows repr none (rows ++ [r]) = some (rowsText repr rows ++ line (r.text repr)) := by
        rw [hstep, hreturns, ih]
        simp [withRow, hlast, LogRow.text]
      have hfixed : universalNewlines (rowsText repr rows) = rowsText repr rows := by
        rw [← ih]
        exact universalNewlines_of_no_return return_notMem_universalNewlines
      have hheader : (appendRows repr none (rows ++ [r])).withHeader = rowsText repr rows ++ line (r.text repr) := by
        rw [hfile, File.withHeader, if_neg (by simp [File.isEmpty, line])]
        rfl
      rw [hheader, universalNewlines_append (by rw [hlast]; decide), hfixed, universalNewlines_line, rowsText_append]

/-- The dict of a row: its fields under the names of the header. -/
def LogRow.dict (repr : PyFloat → String) (r : LogRow) : List (List Char × List Char) :=
  (["commit", "event", "strategy_name", "sharpe", "max_dd", "note"].map String.toList).zip
    (r.commit.text :: r.cells repr)

/-- The dict of a line. -/
def lineDict (l : List Char) : List (List Char × List Char) :=
  let columns := header.splitOn '\t'
  let cells := l.splitOn '\t'
  columns.zip (cells ++ List.replicate (columns.length - cells.length) [])

theorem splitOn_header : header.splitOn '\t' =
    ["commit", "event", "strategy_name", "sharpe", "max_dd", "note"].map String.toList := by decide

theorem lineDict_text : lineDict (r.text repr) = r.dict repr := by
  simp only [lineDict, splitOn_text, splitOn_header, LogRow.dict]
  simp [LogRow.cells]

theorem readTsvEvents_of_lines {file : File} {lines : List (List Char)}
    (h : fullLines (universalNewlines (file.getD [])) = header :: lines) : readTsvEvents file = lines.map lineDict := by
  unfold fullLines at h
  simp only [readTsvEvents, h]
  rfl

theorem readTsvEvents_appendRows (rows : List LogRow) : readTsvEvents (appendRows repr none rows) =
    (rows.flatMap fun r => fullLines (r.readText repr)).map lineDict := by
  have hlog : universalNewlines (appendRows repr none rows).withHeader = rowsText repr rows :=
    withHeader_appendRows rows
  cases rows with
  | nil =>
      show readTsvEvents none = []
      decide
  | cons r rows =>
      cases hempty : (appendRows repr none (r :: rows)).isEmpty with
      | true =>
          have hheader : universalNewlines (line header) = line header := by decide
          rw [File.withHeader, if_pos hempty, hheader] at hlog
          have := congrArg List.length hlog
          simp [rowsText] at this
      | false =>
          rw [File.withHeader, if_neg (by simp [hempty])] at hlog
          refine readTsvEvents_of_lines ?_
          rw [hlog, fullLines_rowsText]

/-- A list of pieces, none empty, is as long as the list of what they are pieces of only when each is a single one. -/
theorem length_flatMap_eq {α β : Type} {f : α → List β} {xs : List α} (hne : ∀ x ∈ xs, f x ≠ [])
    (h : (xs.flatMap f).length ≤ xs.length) : ∀ x ∈ xs, (f x).length = 1 := by
  induction xs with
  | nil => exact fun x hx => absurd hx List.not_mem_nil
  | cons y ys ih =>
      have hle : ys.length ≤ (ys.flatMap f).length := by
        clear ih h
        induction ys with
        | nil => exact Nat.zero_le _
        | cons z zs ih =>
            have hz := List.length_pos_iff.mpr (hne z (by simp))
            have hzs := ih fun x hx => hne x (by rcases List.mem_cons.mp hx with rfl | hx <;> simp [*])
            rw [List.flatMap_cons, List.length_append, List.length_cons]
            omega
      have hy := List.length_pos_iff.mpr (hne y List.mem_cons_self)
      rw [List.flatMap_cons, List.length_append, List.length_cons] at h
      intro x hx
      rcases List.mem_cons.mp hx with rfl | hx
      · omega
      · exact ih (fun x hx => hne x (List.mem_cons_of_mem _ hx)) (by omega) x hx

end CryptoAggHarmonic.FtStrategy
