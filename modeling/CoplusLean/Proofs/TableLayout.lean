import CoplusLean.Proofs.TableRoundTrip
import Mathlib.Data.List.GetD

/-!
# The layout of a printed list

`format_message` takes for each column the longest cell and gives it one space on either side.
All lines of a table then have their bars at the same places, whatever string it was cut from.
-/

namespace CoplusLean.Protocol

open Lib StringUtil

variable {columns i start : Nat} {entries content content' : List Bytes}
  {minLayout widths js : List Nat}

/-! ## The widths -/

lemma widen_eq_some {j : Nat} (h : widen content start minLayout j = some widths) :
    widths = minLayout.set j (max (minLayout.getD j 0) (content.getD (start + j) []).length) ∧
      j < minLayout.length := by
  obtain ⟨width, hwidth, h⟩ := Option.bind_eq_some_iff.mp h
  obtain ⟨cell, hcell, h⟩ := Option.bind_eq_some_iff.mp h
  obtain rfl := Option.some.inj h
  simp only [List.getD, hwidth, hcell, Option.getD_some, true_and]
  exact (List.getElem?_eq_some_iff.mp hwidth).1

lemma foldlM_widen_eq (hnodup : js.Nodup)
    (h : js.foldlM (widen content start) minLayout = some widths) :
    widths.length = minLayout.length ∧ ∀ j, widths.getD j 0 =
      if j ∈ js then max (minLayout.getD j 0) (content.getD (start + j) []).length
      else minLayout.getD j 0 := by
  induction js generalizing minLayout with
  | nil =>
    obtain rfl := Option.some.inj h
    simp
  | cons k js ih =>
    rw [List.nodup_cons] at hnodup
    rw [List.foldlM_cons] at h
    obtain ⟨layout, hwiden, hrest⟩ := Option.bind_eq_some_iff.mp h
    obtain ⟨rfl, hk⟩ := widen_eq_some hwiden
    obtain ⟨hlength, hwidths⟩ := ih hnodup.2 hrest
    rw [List.length_set] at hlength
    refine ⟨hlength, fun j => ?_⟩
    rw [hwidths]
    by_cases hj : j = k
    · subst hj
      simp [hnodup.1, List.getD, hk]
    · simp [hj, List.getD, List.getElem?_set_ne (Ne.symm hj)]

/-- The length of the longest cell in column `j`, or `n` when that is more. -/
def columnWidth (j n : Nat) (rows : List (List Bytes)) : Nat :=
  (rows.map fun row => (row.getD j []).length).foldl max n

lemma columnWidth_max (j n : Nat) (rows : List (List Bytes)) :
    (n ≤ columnWidth j n rows ∧ ∀ row ∈ rows, (row.getD j []).length ≤ columnWidth j n rows) ∧
      (columnWidth j n rows = n ∨ ∃ row ∈ rows, (row.getD j []).length = columnWidth j n rows) := by
  have hmax : (n :: rows.map fun row => (row.getD j []).length).max? = some (columnWidth j n rows) :=
    List.max?_cons'
  obtain ⟨hmem, hle⟩ := List.max?_eq_some_iff.mp hmax
  rw [List.forall_mem_cons] at hle
  refine ⟨⟨hle.1, fun row hrow => hle.2 _ (List.mem_map_of_mem hrow)⟩, ?_⟩
  rcases List.mem_cons.mp hmem with heq | hmem
  · exact .inl heq
  · obtain ⟨row, hrow, heq⟩ := List.mem_map.mp hmem
    exact .inr ⟨row, hrow, heq⟩

lemma getD_cells {row : Bytes} {n j : Nat} (hcontent : content.length = n) :
    (content ++ cells row).getD (n + j) [] = (cells row).getD j [] := by
  subst hcontent
  rw [List.getD, List.getD, List.getElem?_append_right (Nat.le_add_right _ _),
    Nat.add_sub_cancel_left]

/-- When the loop over the entries gets to its end, every entry has its cells, and every
column the width of its longest cell. -/
lemma formatEntries_widths (hentries : ∀ row ∈ entries, row.length < 2147483648) (hi : 0 < i)
    (hcontent : content.length = columns * (i - 1))
    (h : formatEntries columns entries i content minLayout = some (some (content', widths))) :
    content' = content ++ (entries.map cells).flatten ∧
      (∀ row ∈ entries, (cells row).length = columns) ∧ widths.length = minLayout.length ∧
      ∀ j < columns, widths.getD j 0 = columnWidth j (minLayout.getD j 0) (entries.map cells) := by
  induction entries generalizing i content minLayout with
  | nil =>
    obtain ⟨rfl, rfl⟩ := Prod.mk.inj (Option.some.inj (Option.some.inj h))
    simp [columnWidth]
  | cons row entries ih =>
    have hrow := hentries row List.mem_cons_self
    rw [formatEntries, split_row hrow] at h
    simp only [Option.bind_eq_bind, Option.bind_some, sizeT_length_cells hrow] at h
    split at h
    · cases h
    · rename_i hcells
      rw [not_not] at hcells
      obtain ⟨layout, hfold, hrest⟩ := Option.bind_eq_some_iff.mp h
      obtain ⟨hlength, hlayout⟩ := foldlM_widen_eq List.nodup_range hfold
      have hnext : (content ++ cells row).length = columns * (i + 1 - 1) := by
        obtain ⟨k, rfl⟩ : ∃ k, i = k + 1 := ⟨i - 1, by omega⟩
        rw [List.length_append, hcontent, hcells, Nat.add_sub_cancel, Nat.add_sub_cancel,
          Nat.mul_succ]
      obtain ⟨hall, hcolumns, hlengths, hwidths⟩ :=
        ih (fun r hr => hentries r (List.mem_cons_of_mem row hr)) (Nat.succ_pos i) hnext hrest
      refine ⟨?_, ?_, hlengths.trans hlength, fun j hj => ?_⟩
      · rw [hall, List.map_cons, List.flatten_cons, List.append_assoc]
      · exact List.forall_mem_cons.mpr ⟨hcells, hcolumns⟩
      · rw [hwidths j hj, hlayout, if_pos (List.mem_range.mpr hj), getD_cells hcontent]
        rfl

/-! ## The rows -/

/-- The rows are printed one by one. -/
lemma formatRows_flatten {rows : List (List Bytes)} (hcolumns : 0 < columns)
    (hrows : ∀ row ∈ rows, row.length = columns) {fuel : Nat} (hfuel : rows.length ≤ fuel) :
    formatRows columns widths fuel rows.flatten = rows.map fun row => .row (row.zip widths) := by
  induction rows generalizing fuel with
  | nil =>
    cases fuel with
    | zero => rfl
    | succ fuel => rw [formatRows, if_neg (by simpa using hcolumns.ne')]; rfl
  | cons row rows ih =>
    obtain ⟨fuel, rfl⟩ : ∃ k, fuel = k + 1 := ⟨fuel - 1, by simp at hfuel; omega⟩
    obtain ⟨hrow, hrest⟩ := List.forall_mem_cons.mp hrows
    subst hrow
    rw [List.flatten_cons, formatRows, if_pos (by simp), List.take_left, List.drop_left,
      ih hrest (by simpa using hfuel)]
    rfl

/-- A table as it is printed: its rows, all as long as the first one, and a width for each
column. No cell is longer than `size`. -/
structure Laid (os : List Printed) (table : List (List Bytes)) (widths : List Nat) (size : Nat) :
    Prop where
  rows : ∀ row, .row row ∈ os ↔ ∃ cells ∈ table, row = cells.zip widths
  lengths : ∀ cells ∈ table, cells.length = widths.length
  widths : ∀ j < widths.length, widths.getD j 0 = columnWidth j 0 table + 2
  short : ∀ cells ∈ table, ∀ cell ∈ cells, cell.length ≤ size

lemma columnWidth_cons (j : Nat) (row : List Bytes) (rows : List (List Bytes)) :
    columnWidth j 0 (row :: rows) = columnWidth j (row.getD j []).length rows := by
  rw [columnWidth, List.map_cons, List.foldl_cons, Nat.zero_max]
  rfl

lemma length_le_flatten {rows : List (List Bytes)} (hrows : ∀ row ∈ rows, row ≠ []) :
    rows.length ≤ rows.flatten.length := by
  induction rows with
  | nil => rfl
  | cons row rows ih =>
    obtain ⟨hrow, hrest⟩ := List.forall_mem_cons.mp hrows
    have hpos := List.length_pos_iff.mpr hrow
    have hle := ih hrest
    rw [List.flatten_cons, List.length_append, List.length_cons]
    omega

/-- The branch for lists prints no table, or one that is laid out. -/
lemma formatList_laid {text : Bytes} (hsize : text.length < 2147483648) {os : List Printed}
    {stop : Bool} (h : formatList text = some (os, stop)) :
    (∀ row, .row row ∉ os) ∨ ∃ table widths, Laid os table widths text.length := by
  obtain ⟨⟨rows, cnt⟩, hsplit, h⟩ := Option.bind_eq_some_iff.mp h
  obtain ⟨first, hfirst, h⟩ := Option.bind_eq_some_iff.mp h
  obtain ⟨head, rest, rfl⟩ := List.exists_cons_of_ne_nil (l := rows) (by rintro rfl; cases hfirst)
  obtain rfl : head = first := Option.some.inj hfirst
  have hdrop : (text.drop (minimumLen + 1)).length < 2147483648 := by
    rw [List.length_drop]
    omega
  rw [split_eq (counted_of_lt hdrop), List.nil_append] at hsplit
  have hrows : ∀ row ∈ head :: rest, row.length ≤ text.length := by
    rw [← (Prod.mk.inj (Option.some.inj hsplit)).1]
    intro row hrow
    exact (length_le_of_mem_pieces hrow).trans (by rw [List.length_drop]; omega)
  obtain ⟨hfirstShort, hrest⟩ := List.forall_mem_cons.mp hrows
  rw [split_row (by omega)] at h
  simp only [Option.bind_eq_bind, Option.bind_some, List.nil_append, List.drop_succ_cons,
    List.drop_zero] at h
  split at h
  · obtain ⟨rfl, -⟩ := Prod.mk.inj (Option.some.inj h)
    exact .inl (by simp)
  · rename_i hheader
    obtain ⟨formatted, hformat, h⟩ := Option.bind_eq_some_iff.mp h
    cases formatted with
    | none =>
      obtain ⟨rfl, -⟩ := Prod.mk.inj (Option.some.inj h)
      exact .inl (by simp)
    | some formatted =>
      obtain ⟨content, widths⟩ := formatted
      obtain ⟨rfl, -⟩ := Prod.mk.inj (Option.some.inj h)
      obtain ⟨rfl, hcells, hlength, hwidths⟩ :=
        formatEntries_widths (fun row hrow => (hrest row hrow).trans_lt hsize) Nat.one_pos (by simp)
          hformat
      rw [List.length_map] at hlength
      have hfuel : (rest.map cells).length ≤ (rest.map cells).flatten.length := by
        have hrows : ∀ row ∈ rest.map cells, row ≠ [] := by
          intro row hrow hnil
          obtain ⟨text, htext, rfl⟩ := List.mem_map.mp hrow
          have htextLength := hcells text htext
          rw [hnil] at htextLength
          exact hheader htextLength.symm
        exact length_le_flatten hrows
      refine .inr ⟨cells head :: rest.map cells, widths.map (· + 2), ?_, ?_, ?_, ?_⟩
      · intro row
        rw [List.nil_append, formatRows_flatten (Nat.pos_of_ne_zero hheader) (by simpa using hcells)
          hfuel]
        simp [eq_comm]
      · rw [List.length_map, hlength]
        simpa using hcells
      · intro j hj
        rw [List.length_map, hlength] at hj
        have hmap : (List.map List.length (cells head)).getD j 0 = ((cells head).getD j []).length :=
          List.getD_map (cells head) [] List.length
        rw [columnWidth_cons, ← hmap, ← hwidths j hj]
        have hlt : j < widths.length := hlength ▸ hj
        simp [List.getD, hlt]
      · rw [List.forall_mem_cons, List.forall_mem_map]
        exact ⟨fun cell hcell => (length_le_of_mem_pieces hcell).trans hfirstShort,
          fun row hrow cell hcell => (length_le_of_mem_pieces hcell).trans (hrest row hrow)⟩

/-! ## The lines -/

variable {os : List Printed} {table : List (List Bytes)} {size : Nat} {row : List (Bytes × Nat)}
  {cell : Bytes} {width : Nat}

lemma padding_eq (hle : cell.length ≤ width) (hwidth : width < 2147483648) :
    padding cell width = width - cell.length := by
  rw [padding, int32_of_lt (by omega) (by omega), sizeT_of_nonneg (by omega) (by omega)]
  omega

lemma length_cellText (hle : cell.length ≤ width) (hwidth : width < 2147483648) :
    (cellText (cell, width)).length = width + 1 := by
  simp only [cellText, padding_eq hle hwidth, List.length_cons, List.length_append,
    List.length_replicate]
  omega

lemma length_flatMap_cellText (hrow : ∀ c ∈ row, c.1.length ≤ c.2 ∧ c.2 < 2147483648) :
    (row.flatMap cellText).length = (row.map Prod.snd).sum + row.length := by
  induction row with
  | nil => rfl
  | cons c row ih =>
    obtain ⟨⟨hle, hwidth⟩, hrest⟩ := List.forall_mem_cons.mp hrow
    rw [List.flatMap_cons, List.length_append, length_cellText hle hwidth, ih hrest, List.map_cons,
      List.sum_cons, List.length_cons]
    omega

/-- A cell of a table has room for two spaces. -/
lemma Laid.fits (h : Laid os table widths size) (hrow : .row row ∈ os) :
    ∀ c ∈ row, c.1.length + 2 ≤ c.2 ∧ c.2 ≤ size + 2 := by
  obtain ⟨cells, hcells, rfl⟩ := (h.rows row).mp hrow
  intro c hc
  obtain ⟨j, hj, rfl⟩ := List.getElem_of_mem hc
  rw [List.length_zip, h.lengths cells hcells, min_self] at hj
  have hjc : j < cells.length := by rwa [h.lengths cells hcells]
  have hwidth := h.widths j hj
  obtain ⟨⟨-, hmax⟩, hreached⟩ := columnWidth_max j 0 table
  have hcell := hmax cells hcells
  have hsize : columnWidth j 0 table ≤ size := by
    rcases hreached with hzero | ⟨row, hrow, heq⟩
    · omega
    · have hjr : j < row.length := by rwa [h.lengths row hrow]
      rw [← heq, List.getD_eq_getElem _ _ hjr]
      exact h.short row hrow _ (List.getElem_mem hjr)
  rw [List.getD_eq_getElem _ _ hj] at hwidth
  rw [List.getD_eq_getElem _ _ hjc] at hcell
  rw [List.getElem_zip]
  simp only
  omega

/-- Where the `j`-th bar of a line stands. -/
def barAt (row : List (Bytes × Nat)) (j : Nat) : Nat := ((row.take j).flatMap cellText).length

/-- The lines of a table: equally many cells, the bars below each other, every cell in the
middle, with the odd space behind it, and in every column a cell with a single space on
either side. -/
structure Aligned (os : List Printed) : Prop where
  bars : ∀ row row', .row row ∈ os → .row row' ∈ os →
    row.length = row'.length ∧ ∀ j, barAt row j = barAt row' j
  centred : ∀ row, .row row ∈ os → ∀ c ∈ row, ∃ n, 1 ≤ n ∧
    (cellText c = 124 :: (List.replicate n 32 ++ c.1 ++ List.replicate n 32) ∨
      cellText c = 124 :: (List.replicate n 32 ++ c.1 ++ List.replicate (n + 1) 32))
  tight : ∀ row, .row row ∈ os → ∀ j < row.length, ∃ row', .row row' ∈ os ∧
    ∃ c, row'[j]? = some c ∧ cellText c = 124 :: ([32] ++ c.1 ++ [32])

lemma Laid.aligned (h : Laid os table widths size) (hsize : size + 2 < 2147483648) : Aligned os := by
  have hfits : ∀ row, .row row ∈ os → ∀ c ∈ row, c.1.length ≤ c.2 ∧ c.2 < 2147483648 := by
    intro row hrow c hc
    have hfit := h.fits hrow c hc
    omega
  have hzip : ∀ row, .row row ∈ os → row.length = widths.length ∧ row.map Prod.snd = widths := by
    intro row hrow
    obtain ⟨cells, hcells, rfl⟩ := (h.rows row).mp hrow
    have hlength := h.lengths cells hcells
    exact ⟨by rw [List.length_zip, hlength, min_self], List.map_snd_zip hlength.ge⟩
  have hbars : ∀ row, .row row ∈ os → ∀ j,
      barAt row j = (widths.take j).sum + min j widths.length := by
    intro row hrow j
    obtain ⟨hlength, hsnd⟩ := hzip row hrow
    rw [barAt, length_flatMap_cellText fun c hc => hfits row hrow c (List.mem_of_mem_take hc),
      List.map_take, hsnd, List.length_take, hlength]
  refine ⟨fun row row' hrow hrow' => ?_, fun row hrow c hc => ?_, fun row hrow j hj => ?_⟩
  · exact ⟨(hzip row hrow).1.trans (hzip row' hrow').1.symm, fun j =>
      (hbars row hrow j).trans (hbars row' hrow' j).symm⟩
  · have hfit := h.fits hrow c hc
    have hpad := padding_eq (hfits row hrow c hc).1 (hfits row hrow c hc).2
    refine ⟨(c.2 - c.1.length) / 2, by omega, ?_⟩
    rw [cellText, hpad]
    obtain heven | hodd := Nat.mod_two_eq_zero_or_one (c.2 - c.1.length)
    · left
      rw [show (c.2 - c.1.length + 1) / 2 = (c.2 - c.1.length) / 2 by omega]
    · right
      rw [show (c.2 - c.1.length + 1) / 2 = (c.2 - c.1.length) / 2 + 1 by omega]
  · obtain ⟨hlength, -⟩ := hzip row hrow
    rw [hlength] at hj
    obtain ⟨cells, hcells, -⟩ := (h.rows row).mp hrow
    have hwidth := h.widths j hj
    obtain ⟨cells', hcells', hlongest⟩ : ∃ cells' ∈ table,
        (cells'.getD j []).length = columnWidth j 0 table := by
      obtain ⟨⟨-, hmax⟩, hzero | hreached⟩ := columnWidth_max j 0 table
      · exact ⟨cells, hcells, by have hle := hmax cells hcells; omega⟩
      · exact hreached
    have hrow' : .row (cells'.zip widths) ∈ os := (h.rows _).mpr ⟨cells', hcells', rfl⟩
    have hjc : j < cells'.length := by rwa [h.lengths cells' hcells']
    have hjz : j < (cells'.zip widths).length := by rwa [(hzip _ hrow').1]
    have hfit := hfits _ hrow' _ (List.getElem_mem hjz)
    refine ⟨_, hrow', _, List.getElem?_eq_getElem hjz, ?_⟩
    rw [List.getElem_zip] at hfit ⊢
    rw [List.getD_eq_getElem _ _ hjc] at hlongest
    rw [List.getD_eq_getElem _ _ hj] at hwidth
    have htwo : widths[j] - cells'[j].length = 2 := by omega
    rw [cellText, padding_eq hfit.1 hfit.2]
    simp only [htwo]
    rfl

lemma Aligned.of_rows {os' : List Printed} (h : Aligned os')
    (hrows : ∀ row, .row row ∈ os ↔ .row row ∈ os') : Aligned os := by
  refine ⟨fun row row' hrow hrow' => ?_, fun row hrow => ?_, fun row hrow j hj => ?_⟩
  · exact h.bars row row' ((hrows row).mp hrow) ((hrows row').mp hrow')
  · exact h.centred row ((hrows row).mp hrow)
  · obtain ⟨row', hrow', hcell⟩ := h.tight row ((hrows row).mp hrow) j hj
    exact ⟨row', (hrows row').mpr hrow', hcell⟩

lemma aligned_of_no_row (h : ∀ row, .row row ∉ os) : Aligned os :=
  ⟨fun row _ hrow => absurd hrow (h row), fun row hrow => absurd hrow (h row),
    fun row hrow => absurd hrow (h row)⟩

lemma formatContent_aligned {completeStr : Bytes} (hlen : completeStr.length < 2147483646)
    {stop : Bool} (h : formatContent completeStr = some (os, stop)) : Aligned os := by
  unfold formatContent at h
  split at h
  · obtain ⟨rfl, -⟩ := Prod.mk.inj (Option.some.inj h)
    exact aligned_of_no_row (by simp)
  obtain ⟨rawType, -, h⟩ := Option.bind_eq_some_iff.mp h
  split at h
  · rcases formatList_laid (by omega) h with hnone | ⟨table, widths, hlaid⟩
    · exact aligned_of_no_row hnone
    · exact hlaid.aligned (by omega)
  split at h
  · obtain ⟨direct, hdirect, h⟩ := Option.bind_eq_some_iff.mp h
    obtain ⟨rfl, -⟩ := Prod.mk.inj (Option.some.inj h)
    obtain ⟨text, -, hdirect⟩ := Option.bind_eq_some_iff.mp hdirect
    obtain rfl := Option.some.inj hdirect
    apply aligned_of_no_row
    intro row hrow
    split at hrow <;> simp at hrow
  · obtain ⟨text, -, h⟩ := Option.bind_eq_some_iff.mp h
    obtain ⟨rfl, -⟩ := Prod.mk.inj (Option.some.inj h)
    exact aligned_of_no_row (by simp)

/-- Type and length are no rows. -/
lemma formatMessage_rows {completeStr ret : Bytes} {get : Nat}
    (h : formatMessage completeStr get = some (os, ret)) :
    ∃ content stop, formatContent completeStr = some (content, stop) ∧
      ∀ row, .row row ∈ os ↔ .row row ∈ content := by
  obtain ⟨type, -, h⟩ := Option.bind_eq_some_iff.mp h
  obtain ⟨length, -, h⟩ := Option.bind_eq_some_iff.mp h
  obtain ⟨⟨content, stop⟩, hcontent, h⟩ := Option.bind_eq_some_iff.mp h
  refine ⟨content, stop, hcontent, fun row => ?_⟩
  have hos : os =
      (if completeStr.length < minimumLen then [Printed.brokenPackage completeStr] else []) ++
      .type (typeName type) :: .length length :: content := by
    dsimp only at h
    split at h <;> exact (Prod.mk.inj (Option.some.inj h)).1.symm
  rw [hos]
  split <;> simp

/-- Whatever `format_message` is given, a list that it prints is aligned. -/
theorem tables_aligned (completeStr : Bytes) (hlen : completeStr.length < 2147483646) (get : Nat)
    (os : List Printed) (ret : Bytes) (h : formatMessage completeStr get = some (os, ret)) :
    Aligned os := by
  obtain ⟨content, stop, hcontent, hrows⟩ := formatMessage_rows h
  exact (formatContent_aligned hlen hcontent).of_rows hrows

/-- A table of a header and one row. -/
theorem tables_aligned_one_row :
    ∃ os ret, formatMessage (listMessage .kResponse [[105, 100], [110]] [[48], [97, 98, 99]]).body 0 =
      some (os, ret) ∧ Aligned os := by
  have hformat : formatMessage (listMessage .kResponse [[105, 100], [110]] [[48], [97, 98, 99]]).body 0 =
      some ([.type (some "response"), .length 17, .list, .row [([105, 100], 4), ([110], 5)],
        .row [([48], 4), ([97, 98, 99], 5)]], []) := by decide
  exact ⟨_, _, hformat, tables_aligned _ (by decide) 0 _ _ hformat⟩

end CoplusLean.Protocol
