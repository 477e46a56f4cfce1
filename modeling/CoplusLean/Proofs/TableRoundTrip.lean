import CoplusLean.Proofs.FormatSafety
import CoplusLean.Proofs.SplitWrapping
import Mathlib.Algebra.BigOperators.Ring.List

/-!
# A table through `format_message`

`pickle_message` writes the cells of a list with `','` between them and `';'` behind every
row, and `format_message` splits them again, skipping empty pieces. The table comes back when
no cell is empty and an `int` can go through the text.
-/

namespace CoplusLean.Protocol

open Lib StringUtil

/-! ## The text of a table -/

/-- A row and its separator. -/
def rowText (row : List Bytes) : Bytes := join 44 row ++ [59]

lemma pickleRows_eq {columns fuel : Nat} {entries : List Bytes} (hcolumns : 0 < columns)
    (hdvd : columns ∣ entries.length) (hfuel : entries.length ≤ fuel) :
    ∃ rows : List (List Bytes), rows.flatten = entries ∧ (∀ row ∈ rows, row.length = columns) ∧
      pickleRows columns fuel entries = rows.flatMap rowText := by
  induction fuel generalizing entries with
  | zero =>
    obtain rfl := List.length_eq_zero_iff.1 (Nat.le_zero.1 hfuel)
    exact ⟨[], rfl, by simp, rfl⟩
  | succ fuel ih =>
    rw [pickleRows]
    by_cases hle : columns ≤ entries.length
    · have hrest : columns ∣ (entries.drop columns).length := by
        rw [List.length_drop]
        exact Nat.dvd_sub hdvd (Nat.dvd_refl columns)
      obtain ⟨rows, hrows, hlength, hpickle⟩ := ih hrest (by rw [List.length_drop]; omega)
      refine ⟨entries.take columns :: rows, ?_, ?_, ?_⟩
      · rw [List.flatten_cons, hrows, List.take_append_drop]
      · rw [List.forall_mem_cons]
        exact ⟨List.length_take_of_le hle, hlength⟩
      · rw [if_pos hle, hpickle, List.flatMap_cons, rowText, List.append_assoc]
        rfl
    · have hzero : entries.length = 0 := Nat.eq_zero_of_dvd_of_lt hdvd (by omega)
      obtain rfl := List.length_eq_zero_iff.1 hzero
      rw [if_neg hle]
      exact ⟨[], rfl, by simp, rfl⟩

lemma length_rowText {row : List Bytes} (hrow : row ≠ []) :
    (rowText row).length = row.flatten.length + row.length := by
  rw [rowText, List.length_append, List.length_singleton, length_join hrow]

lemma length_flatMap_rowText {rows : List (List Bytes)} (hrows : ∀ row ∈ rows, row ≠ []) :
    (rows.flatMap rowText).length = rows.flatten.flatten.length + rows.flatten.length := by
  induction rows with
  | nil => rfl
  | cons row rows ih =>
    have hrest := ih fun r hr => hrows r (List.mem_cons_of_mem row hr)
    rw [List.flatMap_cons, List.length_append, length_rowText (hrows row List.mem_cons_self), hrest]
    simp only [List.flatten_cons, List.flatten_append, List.length_append]
    omega

/-! ## Text that no `int` can go through -/

variable {str token pre x s : Bytes} {fuel n e : Nat} {ret rows : List Bytes}

/-- A vector that fills the text up to here. -/
def weight (rows : List Bytes) : Nat := (rows.map fun row => row.length + 1).sum

lemma weight_append_singleton (rows : List Bytes) (row : Bytes) :
    weight (rows ++ [row]) = weight rows + (row.length + 1) := by
  rw [weight, List.map_append, List.sum_append]
  rfl

/-- What the loop appends stands before the last `int`. -/
lemma weight_splitLoop_le {xs : List Bytes} {a : UInt8} (ha : isSep token a = true)
    (hxs : ∀ x ∈ xs, x ≠ [] ∧ ∀ b ∈ x, isSep token b = false)
    (hstr : str = pre ++ xs.flatMap (· ++ [a])) (hlen : str.length < 9223372036854775808)
    (hpre : pre.length ≤ 2147483648) (hret : weight ret ≤ pre.length)
    (hsplit : splitLoop str token fuel (int32 pre.length) ret = some rows) :
    weight rows ≤ 2147483648 := by
  induction xs generalizing pre ret fuel with
  | nil =>
    cases fuel with
    | zero => cases hsplit
    | succ fuel =>
      rw [splitLoop_none (nextPiece_none hpre hlen fun _ => by simp [hstr])] at hsplit
      obtain rfl := Option.some.inj hsplit
      exact hret.trans hpre
  | cons x xs ih =>
    obtain ⟨hx, hnone⟩ := hxs x List.mem_cons_self
    have hpos := List.length_pos_iff.2 hx
    cases fuel with
    | zero => cases hsplit
    | succ fuel =>
    by_cases hmax : pre.length = 2147483648
    · rw [splitLoop_none (nextPiece_none hpre hlen fun h => absurd hmax h.ne)] at hsplit
      obtain rfl := Option.some.inj hsplit
      exact hret.trans hpre
    have hlt : pre.length < 2147483648 := by omega
    have hstr' : str = pre ++ ([] ++ (x ++ a :: xs.flatMap (· ++ [a]))) := by rw [hstr]; simp
    have hhead : ∀ b ∈ (a :: xs.flatMap (· ++ [a])).head?, isSep token b = true := by
      simpa using ha
    have hnext : nextPiece str token pre.length =
        some ((pre.length : Int), wrapped str (pre.length + x.length)) := by
      have hpiece := nextPiece_eq (y := []) (by simp) hx hnone hhead hstr' (by simpa using hlt)
      rwa [List.length_nil, Nat.add_zero] at hpiece
    rw [int32_natCast hlt] at hsplit
    replace hsplit := splitLoop_next hnext hsplit
    by_cases hend : pre.length + x.length < 2147483648
    · -- the row fits
      have hturn : _ = ret ++ [x] := substr_piece hx hstr' (by simpa using hend)
      rw [List.length_nil, Nat.add_zero] at hturn
      have hbehind : (pre ++ (x ++ [a])).length = pre.length + x.length + 1 := by
        simp only [List.length_append, List.length_singleton]
        omega
      rw [wrapped, int32_natCast hend, if_neg (by omega), hturn, ← Nat.cast_add_one, ← hbehind] at hsplit
      apply ih (fun r hr => hxs r (List.mem_cons_of_mem x hr)) _ (by omega) _ hsplit
      · rw [hstr]
        simp
      · rw [weight_append_singleton, hbehind]
        omega
    · -- the row ends behind the last `int`
      have hends : EndsAt str token (pre.length + x.length) :=
        endsAt_of_append hstr' hnone hhead hlt (by omega)
      have hbounds := wrapped_bounds str (pre.length + x.length)
      rw [eq_of_splitLoop_wrapped hends hlen hsplit]
      split
      · have hle := length_substr_le str pre.length
          (n := wrapped str (pre.length + x.length) - pre.length) (by omega) (by omega)
        rw [weight_append_singleton]
        omega
      · omega

/-! ## The printed rows -/

/-- The rows that are printed, with their cells. -/
def rowsOf (os : List Printed) : List (List Bytes) :=
  os.filterMap fun
    | .row row => some (row.map Prod.fst)
    | _ => none

/-- The table comes back: its header is the first row, its entries are the others, and
neither the header nor an entry is reported. -/
structure Recovered (header entries : List Bytes) (os : List Printed) : Prop where
  rows : ∃ rows, rowsOf os = header :: rows ∧ rows.flatten = entries
  header : .nullHeader ∉ os
  entries : .brokenEntry ∉ os

def Recovers (m : Message) (header entries : List Bytes) (get : Nat) : Prop :=
  ∃ os ret, formatMessage m.body get = some (os, ret) ∧ Recovered header entries os

lemma rowsOf_cons_row (row : List (Bytes × Nat)) (os : List Printed) :
    rowsOf (.row row :: os) = row.map Prod.fst :: rowsOf os := rfl

/-- The rows hold the content in order. -/
lemma rowsOf_formatRows {columns : Nat} {widths : List Nat} {content : List Bytes}
    (hcolumns : 0 < columns) (hwidths : widths.length = columns)
    (hdvd : columns ∣ content.length) (hfuel : content.length ≤ fuel) :
    (rowsOf (formatRows columns widths fuel content)).flatten = content ∧
      .nullHeader ∉ formatRows columns widths fuel content ∧
      .brokenEntry ∉ formatRows columns widths fuel content := by
  induction fuel generalizing content with
  | zero =>
    obtain rfl := List.length_eq_zero_iff.1 (Nat.le_zero.1 hfuel)
    simp [formatRows, rowsOf]
  | succ fuel ih =>
    rw [formatRows]
    by_cases hle : columns ≤ content.length
    · have hrest : columns ∣ (content.drop columns).length := by
        rw [List.length_drop]
        exact Nat.dvd_sub hdvd (Nat.dvd_refl columns)
      obtain ⟨hrows, hheader, hentries⟩ := ih hrest (by rw [List.length_drop]; omega)
      have hzip : ((content.take columns).zip widths).map Prod.fst = content.take columns :=
        List.map_fst_zip (by rw [List.length_take, hwidths]; omega)
      rw [if_pos hle]
      refine ⟨?_, by simpa using hheader, by simpa using hentries⟩
      rw [rowsOf_cons_row, hzip, List.flatten_cons, hrows, List.take_append_drop]
    · have hzero : content.length = 0 := Nat.eq_zero_of_dvd_of_lt hdvd (by omega)
      obtain rfl := List.length_eq_zero_iff.1 hzero
      rw [if_neg hle]
      simp [rowsOf]

variable {m : Message} {header entries rest : List Bytes} {first text : Bytes} {cnt : Int}

/-- What `format_message` recovers from the rows of a list. -/
lemma formatList_recovered (hsplit : split (text.drop (minimumLen + 1)) [59] [] =
    some (first :: rest, cnt)) (hshort : ∀ row ∈ first :: rest, row.length < 2147483648) :
    ∃ os stop, formatList text = some (os, stop) ∧ ∀ header entries,
      Recovered header entries os ↔ cells first = header ∧ header ≠ [] ∧
        (∀ row ∈ rest, (cells row).length = header.length) ∧ rest.flatMap cells = entries := by
  have hfirst := hshort first List.mem_cons_self
  have hrest : ∀ row ∈ rest, row.length < 2147483648 :=
    fun row hrow => hshort row (List.mem_cons_of_mem first hrow)
  rw [formatList, hsplit]
  simp only [Option.bind_eq_bind, Option.bind_some, List.getElem?_cons_zero, split_row hfirst,
    List.nil_append, List.drop_succ_cons, List.drop_zero]
  by_cases hheader : (cells first).length = 0
  · rw [if_pos hheader]
    refine ⟨_, _, rfl, fun header entries => iff_of_false ?_ ?_⟩
    · intro hrec
      exact hrec.header (by simp)
    · rintro ⟨rfl, hne, -⟩
      exact hne (List.length_eq_zero_iff.1 hheader)
  rw [if_neg hheader]
  by_cases hcells : ∀ row ∈ rest, (cells row).length = (cells first).length
  · have hzero : ([] : List Bytes).length = (cells first).length * (1 - 1) := rfl
    obtain ⟨widths, hformat, hwidths⟩ := formatEntries_eq_some
      (fun row hrow => ⟨hrest row hrow, hcells row hrow⟩) (List.length_map List.length)
      Nat.one_pos hzero
    have hlayout : (widths.map (· + 2)).length = (cells first).length := by
      rw [List.length_map, hwidths]
    have hdvd : (cells first).length ∣ (rest.flatMap cells).length := by
      rw [List.length_flatMap]
      apply List.dvd_sum
      intro k hk
      obtain ⟨row, hrow, rfl⟩ := List.mem_map.1 hk
      rw [hcells row hrow]
    obtain ⟨hrows, hnull, hbroken⟩ :=
      rowsOf_formatRows (Nat.pos_of_ne_zero hheader) hlayout hdvd le_rfl
    rw [hformat]
    refine ⟨_, _, rfl, fun header entries => ?_⟩
    have hheaderRow : ((cells first).zip (widths.map (· + 2))).map Prod.fst = cells first :=
      List.map_fst_zip hlayout.ge
    have hall : rowsOf (.list :: .row ((cells first).zip (widths.map (· + 2))) ::
        formatRows (cells first).length (widths.map (· + 2)) (rest.flatMap cells).length
          (rest.flatMap cells)) =
        cells first :: rowsOf (formatRows (cells first).length (widths.map (· + 2))
          (rest.flatMap cells).length (rest.flatMap cells)) :=
      congrArg (· :: _) hheaderRow
    constructor
    · rintro ⟨⟨rows, hos, rfl⟩, -, -⟩
      obtain ⟨rfl, rfl⟩ := List.cons.inj (hall.symm.trans hos)
      refine ⟨rfl, ?_, hcells, hrows.symm⟩
      rintro hnil
      rw [hnil] at hheader
      exact hheader rfl
    · rintro ⟨rfl, -, -, rfl⟩
      refine ⟨⟨_, hall, hrows⟩, ?_, ?_⟩
      · simpa using hnull
      · simpa using hbroken
  · simp only [not_forall] at hcells
    obtain ⟨row, hrow, hne⟩ := hcells
    rw [formatEntries_eq_none hrest ⟨row, hrow, hne⟩ (List.length_map List.length)
      Nat.one_pos rfl]
    refine ⟨_, _, rfl, fun header entries => iff_of_false ?_ ?_⟩
    · intro hrec
      exact hrec.entries (by simp)
    · rintro ⟨rfl, -, hall, -⟩
      exact hne (hall row hrow)

/-- Type and length are printed before the list. -/
lemma formatMessage_list (hraw : m.rawType = 108) {get : Nat} {os : List Printed} {stop : Bool}
    (hlist : formatList m.body = some (os, stop)) :
    Recovers m header entries get ↔ Recovered header entries os := by
  have hlen : minimumLen < m.body.length := by
    rw [length_body, minimumLen]
    omega
  have hchar : charAt m.body minimumLen = some m.rawType := rfl
  have hcontent : formatContent m.body = some (os, stop) := by
    rw [formatContent, if_neg hlen.ne', hchar]
    simp only [Option.bind_eq_bind, Option.bind_some]
    rw [if_pos hraw, hlist]
  have hprinted : ∀ type length, Recovered header entries (.type type :: .length length :: os) ↔
      Recovered header entries os := by
    intro type length
    constructor
    · rintro ⟨hrows, hnull, hbroken⟩
      exact ⟨hrows, by simpa using hnull, by simpa using hbroken⟩
    · rintro ⟨hrows, hnull, hbroken⟩
      exact ⟨hrows, by simpa using hnull, by simpa using hbroken⟩
  obtain ⟨out, hout⟩ : ∃ out, formatMessage m.body get = some out ∧
      ∃ type length, out.1 = .type type :: .length length :: os := by
    unfold minimumLen at hlen
    rw [formatMessage, charAt_of_lt (by omega), intAt, charAt_of_lt (by omega),
      charAt_of_lt (by omega), charAt_of_lt (by omega), charAt_of_lt (by omega), hcontent]
    have hlong : ¬m.body.length < minimumLen := by
      unfold minimumLen
      omega
    simp only [Option.bind_eq_bind, Option.bind_some, Option.pure_def, if_neg hlong]
    split <;> exact ⟨_, rfl, _, _, rfl⟩
  obtain ⟨hout, type, length, hos⟩ := hout
  constructor
  · rintro ⟨os', ret, hformat, hrec⟩
    obtain rfl := Option.some.inj (hout.symm.trans hformat)
    exact (hprinted type length).1 (hos ▸ hrec)
  · intro hrec
    exact ⟨out.1, out.2, hout, hos ▸ (hprinted type length).2 hrec⟩

/-! ## The round trip -/

variable {table : List (List Bytes)}

lemma flatMap_rowText : table.flatMap rowText = (table.map (join 44)).flatMap (· ++ [59]) := by
  rw [List.flatMap_map]
  rfl

/-- The rows of a table without empty cells are no separators. -/
lemma rows_free (hrows : ∀ row ∈ table, row ≠ [])
    (hcells : ∀ cell ∈ table.flatten, cell ≠ [] ∧ 44 ∉ cell ∧ 59 ∉ cell) :
    ∀ row ∈ table.map (join 44), row ≠ [] ∧ ∀ b ∈ row, isSep [59] b = false := by
  intro text htext
  obtain ⟨row, hrow, rfl⟩ := List.mem_map.1 htext
  have hmem : ∀ cell ∈ row, cell ∈ table.flatten := fun cell hcell =>
    List.mem_flatten.2 ⟨row, hrow, hcell⟩
  constructor
  · obtain ⟨cell, row, rfl⟩ := List.exists_cons_of_ne_nil (hrows row hrow)
    have hcell := (hcells cell (hmem cell List.mem_cons_self)).1
    simp [join, hcell]
  · intro b hb
    rcases mem_join hb with rfl | ⟨cell, hcell, hb⟩
    · decide
    · have hfree := (hcells cell (hmem cell hcell)).2.2
      have hne : b ≠ 59 := fun heq => hfree (heq ▸ hb)
      simpa [isSep] using hne

lemma split_table (hrows : ∀ row ∈ table, row ≠ [])
    (hcells : ∀ cell ∈ table.flatten, cell ≠ [] ∧ 44 ∉ cell ∧ 59 ∉ cell)
    (hlen : (table.flatMap rowText).length ≤ 2147483648) :
    ∃ cnt, split (table.flatMap rowText) [59] [] = some (table.map (join 44), cnt) := by
  have hcounted : Counted (table.flatMap rowText) [59] := by
    refine ⟨hlen, fun b hb => ?_⟩
    rcases List.eq_nil_or_concat table with rfl | ⟨init, row, rfl⟩
    · cases hb
    · have htext : (init.concat row).flatMap rowText =
          (init.flatMap rowText ++ join 44 row) ++ [59] := by
        simp [rowText]
      rw [htext] at hlen hb
      rw [List.length_append, List.length_singleton] at hlen
      rw [List.getElem?_append_right (by omega)] at hb
      have hmem := List.mem_of_getElem? hb
      rw [List.mem_singleton.1 hmem]
      decide
  rw [split_eq hcounted, List.nil_append, flatMap_rowText,
    pieces_flatMap (by decide) (rows_free hrows hcells)]
  exact ⟨_, rfl⟩

/-- The cells of the rows and their separators fit into the vector. -/
lemma length_flatMap_cells_le (rows : List Bytes) :
    (rows.flatMap cells).flatten.length + (rows.flatMap cells).length ≤ weight rows := by
  induction rows with
  | nil => exact Nat.zero_le _
  | cons row rows ih =>
    have hrow : (cells row).flatten.length + (cells row).length ≤ row.length + 1 :=
      length_pieces_le _ row
    have hweight : weight (row :: rows) = row.length + 1 + weight rows := rfl
    simp only [List.flatMap_cons, List.flatten_append, List.length_append]
    omega

/-- A result needs a row. -/
lemma exists_rows (hraw : m.rawType = 108) {get : Nat} {out : List Printed × Bytes}
    (hformat : formatMessage m.body get = some out) :
    ∃ first rest cnt, split m.request [59] [] = some (first :: rest, cnt) := by
  have hlen : minimumLen < m.body.length := by
    rw [length_body, minimumLen]
    omega
  have hchar : charAt m.body minimumLen = some m.rawType := rfl
  have hdrop : m.body.drop (minimumLen + 1) = m.request := rfl
  have hlist : formatList m.body ≠ none := by
    intro hnone
    have hcontent : formatContent m.body = none := by
      rw [formatContent, if_neg hlen.ne', hchar]
      simp only [Option.bind_eq_bind, Option.bind_some]
      rw [if_pos hraw, hnone]
    unfold minimumLen at hlen
    rw [formatMessage, charAt_of_lt (by omega), intAt, charAt_of_lt (by omega),
      charAt_of_lt (by omega), charAt_of_lt (by omega), charAt_of_lt (by omega), hcontent] at hformat
    cases hformat
  rw [formatList, hdrop] at hlist
  cases hsplit : split m.request [59] [] with
  | none =>
    rw [hsplit] at hlist
    exact absurd rfl hlist
  | some parts =>
    obtain ⟨rows, cnt⟩ := parts
    cases rows with
    | nil =>
      rw [hsplit] at hlist
      exact absurd rfl hlist
    | cons first rest => exact ⟨first, rest, cnt, rfl⟩

/-- Rows as long as the header have cells. -/
lemma rows_ne_nil (hheader : header ≠ []) (hrows : ∀ row ∈ table, row.length = header.length) :
    ∀ row ∈ header :: table, row ≠ [] := by
  rw [List.forall_mem_cons]
  refine ⟨hheader, fun row hrow hnil => hheader ?_⟩
  have hlength := hrows row hrow
  rw [hnil] at hlength
  exact List.length_eq_zero_iff.1 hlength.symm

/-- Non-empty cells come back from text that an `int` can go through. -/
lemma recovers_of_ne_nil {get : Nat} (hraw : m.rawType = 108)
    (htext : m.request = (header :: table).flatMap rowText) (hheader : header ≠ [])
    (hrows : ∀ row ∈ table, row.length = header.length)
    (hcells : ∀ cell ∈ (header :: table).flatten, cell ≠ [] ∧ 44 ∉ cell ∧ 59 ∉ cell)
    (hlen : m.request.length ≤ 2147483648) : Recovers m header table.flatten get := by
  have hne := rows_ne_nil hheader hrows
  have hjoin : ∀ row ∈ header :: table, cells (join 44 row) = row := by
    intro row hrow
    have hmem : ∀ cell ∈ row, cell ∈ (header :: table).flatten := fun cell hcell =>
      List.mem_flatten.2 ⟨row, hrow, hcell⟩
    apply pieces_join (by decide) fun cell hcell => (hcells cell (hmem cell hcell)).1
    intro cell hcell b hb
    have hne : b ≠ 44 := fun heq => (hcells cell (hmem cell hcell)).2.1 (heq ▸ hb)
    simpa [isSep] using hne
  rw [htext] at hlen
  obtain ⟨cnt, hsplit⟩ := split_table hne hcells hlen
  have hshort := splitLoop_short (by omega) (by simp) (exists_splitLoop_of_split hsplit)
  have hdrop : m.body.drop (minimumLen + 1) = m.request := rfl
  rw [← htext, ← hdrop, List.map_cons] at hsplit
  obtain ⟨os, stop, hformat, hrec⟩ := formatList_recovered hsplit hshort
  rw [formatMessage_list hraw hformat, hrec]
  refine ⟨hjoin header List.mem_cons_self, hheader, ?_, ?_⟩
  · intro text htext
    obtain ⟨row, hrow, rfl⟩ := List.mem_map.1 htext
    rw [hjoin row (List.mem_cons_of_mem header hrow)]
    exact hrows row hrow
  · rw [List.flatMap_map, List.flatten_eq_flatMap]
    apply List.flatMap_congr
    intro row hrow
    exact hjoin row (List.mem_cons_of_mem header hrow)

/-- What came back was split from text that an `int` can go through. -/
lemma ne_nil_of_recovers {get : Nat} (hraw : m.rawType = 108)
    (htext : m.request = (header :: table).flatMap rowText)
    (hrows : ∀ row ∈ header :: table, row ≠ [])
    (hfree : ∀ cell ∈ (header :: table).flatten, 44 ∉ cell ∧ 59 ∉ cell)
    (hsize : m.request.length < 9223372036854775808) (hrec : Recovers m header table.flatten get) :
    (∀ cell ∈ (header :: table).flatten, cell ≠ []) ∧ m.request.length ≤ 2147483648 := by
  obtain ⟨os, ret, hformat, -⟩ := id hrec
  obtain ⟨first, rest, cnt, hsplit⟩ := exists_rows hraw hformat
  have hloop := exists_splitLoop_of_split hsplit
  have hdrop : m.body.drop (minimumLen + 1) = m.request := rfl
  rw [← hdrop] at hsplit
  obtain ⟨os', stop, hlist, hrecovered⟩ :=
    formatList_recovered hsplit (splitLoop_short hsize (by simp) hloop)
  rw [formatMessage_list hraw hlist, hrecovered] at hrec
  obtain ⟨hfirst, -, -, hrest⟩ := hrec
  have hflat : (first :: rest).flatMap cells = (header :: table).flatten := by
    rw [List.flatMap_cons, hfirst, hrest, List.flatten_cons]
  have hcells : ∀ cell ∈ (header :: table).flatten, cell ≠ [] := by
    intro cell hcell
    rw [← hflat] at hcell
    obtain ⟨row, -, hcell⟩ := List.mem_flatMap.1 hcell
    exact ne_nil_of_mem_pieces hcell
  refine ⟨hcells, ?_⟩
  have hweight : weight (first :: rest) ≤ 2147483648 := by
    have hsep : isSep [59] 59 = true := by decide
    have hstr : m.request = [] ++ ((header :: table).map (join 44)).flatMap (· ++ [59]) := by
      rw [List.nil_append, htext, flatMap_rowText]
    have hzero : int32 ([] : Bytes).length = 0 := int32_zero
    rw [← hzero] at hloop
    exact weight_splitLoop_le hsep (rows_free hrows fun cell hcell =>
      ⟨hcells cell hcell, hfree cell hcell⟩) hstr hsize (Nat.zero_le _) le_rfl hloop
  have hle := length_flatMap_cells_le (first :: rest)
  rw [hflat] at hle
  rw [htext, length_flatMap_rowText hrows]
  exact hle.trans hweight

/-- The table comes back exactly when no cell is empty and its text ends where an `int` can
say so. A `std::string` has less than `2 ^ 63` bytes. -/
theorem recovers_iff (type : MessageType) {header entries : List Bytes} (get : Nat)
    (hheader : header ≠ []) (hdvd : header.length ∣ entries.length)
    (hfree : ∀ cell ∈ header ++ entries, 44 ∉ cell ∧ 59 ∉ cell)
    (hsize : (pickleTable header entries).length < 9223372036854775808) :
    Recovers (listMessage type header entries) header entries get ↔
      (∀ cell ∈ header ++ entries, cell ≠ []) ∧
        (pickleTable header entries).length ≤ 2147483648 := by
  obtain ⟨table, rfl, hrows, hpickle⟩ :=
    pickleRows_eq (List.length_pos_iff.2 hheader) hdvd le_rfl
  have htext : pickleTable header table.flatten = (header :: table).flatMap rowText := by
    rw [pickleTable, hpickle, List.flatMap_cons, rowText, List.append_assoc]
    rfl
  have hne := rows_ne_nil hheader hrows
  constructor
  · exact ne_nil_of_recovers rfl htext hne hfree hsize
  · rintro ⟨hcells, hlen⟩
    exact recovers_of_ne_nil rfl htext hheader hrows
      (fun cell hcell => ⟨hcells cell hcell, hfree cell hcell⟩) hlen

theorem recovers_iff_two_rows :
    Recovers (listMessage .kResponse [[110], [105, 112]] [[97], [120], [98], [121]])
        [[110], [105, 112]] [[97], [120], [98], [121]] 2 ↔
      (∀ cell ∈ ([[110], [105, 112]] ++ [[97], [120], [98], [121]] : List Bytes), cell ≠ []) ∧
        (pickleTable [[110], [105, 112]] [[97], [120], [98], [121]]).length ≤ 2147483648 :=
  recovers_iff .kResponse 2 (by decide) (by decide) (by decide) (by decide)

/-- An empty address: its row has one cell too few. -/
theorem not_recovers_empty_cell :
    ¬∀ (type : MessageType) (header entries : List Bytes) (get : Nat), header ≠ [] →
      header.length ∣ entries.length → (∀ cell ∈ header ++ entries, 44 ∉ cell ∧ 59 ∉ cell) →
      Recovers (listMessage type header entries) header entries get := by
  intro hall
  have hrec := hall .kResponse [[110], [105, 112]] [[97], []] 2 (by decide) (by decide) (by decide)
  have htable : (listMessage .kResponse [[110], [105, 112]] [[97], []]).request =
      [[[110], [105, 112]], [[97], []]].flatMap rowText := by decide
  have hcells := (ne_nil_of_recovers rfl htable (by decide) (by decide) (by decide) hrec).1
  exact hcells [] (by decide) rfl

end CoplusLean.Protocol
