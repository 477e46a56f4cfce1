import CoplusLean.Proofs.MessageRoundTrip
import CoplusLean.Proofs.Splitting

/-!
# Where `format_message` leaves the string

A string shorter than type and length is reported as broken and then read all the same. A
list needs a row, and the `int` positions of `split` must not pass over the end of their
range; the sender of a direct message must end where an `int` can say so.
-/

namespace CoplusLean.Protocol

open Lib StringUtil

/-- The cells of a row. -/
abbrev cells (row : Bytes) : List Bytes := Lib.pieces (isSep [44]) row

variable {s row : Bytes} {columns i size start : Nat} {entries content : List Bytes}
  {minLayout : List Nat}

/-! ## The entries of a list -/

lemma length_cells_le (row : Bytes) : (cells row).length ≤ row.length :=
  length_pieces_le_length row

lemma split_row (hrow : row.length < 2147483648) :
    split row [44] content = some (content ++ cells row, ((cells row).length : Int)) := by
  have hle := length_cells_le row
  rw [split_eq (counted_of_lt hrow), int32_natCast (hle.trans_lt hrow)]

lemma sizeT_length_cells (hrow : row.length < 2147483648) :
    sizeT ((cells row).length : Int) = (cells row).length := by
  have hle := length_cells_le row
  exact sizeT_natCast (hle.trans_lt hrow)

lemma foldlM_widen {js : List Nat} (hjs : ∀ j ∈ js, j < minLayout.length ∧
    start + j < content.length) :
    ∃ widths, js.foldlM (widen content start) minLayout = some widths ∧
      widths.length = minLayout.length := by
  induction js generalizing minLayout with
  | nil => exact ⟨minLayout, rfl, rfl⟩
  | cons j js ih =>
    obtain ⟨hj, hcell⟩ := hjs j List.mem_cons_self
    have hwiden : widen content start minLayout j =
        some (minLayout.set j (max minLayout[j] content[start + j].length)) := by
      rw [widen, List.getElem?_eq_getElem hj, List.getElem?_eq_getElem hcell]
      rfl
    have hrest : ∀ k ∈ js,
        k < (minLayout.set j (max minLayout[j] content[start + j].length)).length ∧
          start + k < content.length := by
      intro k hk
      simpa using hjs k (List.mem_cons_of_mem j hk)
    obtain ⟨widths, hfold, hlength⟩ := ih hrest
    rw [List.length_set] at hlength
    refine ⟨widths, ?_, hlength⟩
    rw [List.foldlM_cons, hwiden]
    exact hfold

/-- The widths of the columns after an entry. -/
lemma foldlM_widen_row (hlayout : minLayout.length = columns)
    (hcontent : content.length = columns * (i - 1)) (hcells : (cells row).length = columns) :
    ∃ widths, (List.range columns).foldlM (widen (content ++ cells row) (columns * (i - 1)))
      minLayout = some widths ∧ widths.length = columns := by
  rw [← hlayout]
  apply foldlM_widen
  intro j hj
  rw [List.mem_range] at hj
  rw [List.length_append, hcells, hcontent, hlayout]
  omega

lemma formatEntries_cons_of_ne (hrow : row.length < 2147483648)
    (hcells : (cells row).length ≠ columns) :
    formatEntries columns (row :: entries) i content minLayout = some none := by
  rw [formatEntries, split_row hrow]
  simp only [Option.bind_eq_bind, Option.bind_some, sizeT_length_cells hrow]
  rw [if_pos hcells, Option.pure_def]

/-- An entry with as many cells as the header. -/
lemma formatEntries_cons (entries : List Bytes) (hrow : row.length < 2147483648) (hcells : (cells row).length = columns)
    (hlayout : minLayout.length = columns) (hi : 0 < i)
    (hcontent : content.length = columns * (i - 1)) :
    (content ++ cells row).length = columns * (i + 1 - 1) ∧ ∃ widths, widths.length = columns ∧
      formatEntries columns (row :: entries) i content minLayout =
        formatEntries columns entries (i + 1) (content ++ cells row) widths := by
  constructor
  · obtain ⟨i, rfl⟩ : ∃ n, i = n + 1 := ⟨i - 1, by omega⟩
    rw [List.length_append, hcontent, hcells, Nat.add_sub_cancel, Nat.add_sub_cancel, Nat.mul_succ]
  · obtain ⟨widths, hfold, hlength⟩ := foldlM_widen_row hlayout hcontent hcells
    refine ⟨widths, hlength, ?_⟩
    rw [formatEntries, split_row hrow]
    simp only [Option.bind_eq_bind, Option.bind_some, sizeT_length_cells hrow]
    rw [if_neg (not_not.2 hcells), hfold, Option.bind_some]

/-- When all entries have as many cells as the header, the vector gains them all. -/
lemma formatEntries_eq_some (hentries : ∀ row ∈ entries, row.length < 2147483648 ∧
    (cells row).length = columns) (hlayout : minLayout.length = columns) (hi : 0 < i)
    (hcontent : content.length = columns * (i - 1)) :
    ∃ widths, formatEntries columns entries i content minLayout =
      some (some (content ++ entries.flatMap cells, widths)) ∧ widths.length = columns := by
  induction entries generalizing i content minLayout with
  | nil => exact ⟨minLayout, by rw [formatEntries, List.flatMap_nil, List.append_nil], hlayout⟩
  | cons row entries ih =>
    obtain ⟨hrow, hcells⟩ := hentries row List.mem_cons_self
    obtain ⟨hnext, layout, hlength, hturn⟩ :=
      formatEntries_cons entries hrow hcells hlayout hi hcontent
    obtain ⟨widths, hrest, hwidths⟩ :=
      ih (fun r hr => hentries r (List.mem_cons_of_mem row hr)) hlength (Nat.succ_pos i) hnext
    refine ⟨widths, ?_, hwidths⟩
    rw [hturn, hrest, List.append_assoc, List.flatMap_cons]

/-- Otherwise the first one that differs ends the loop. -/
lemma formatEntries_eq_none (hentries : ∀ row ∈ entries, row.length < 2147483648)
    (hbroken : ∃ row ∈ entries, (cells row).length ≠ columns)
    (hlayout : minLayout.length = columns) (hi : 0 < i)
    (hcontent : content.length = columns * (i - 1)) :
    formatEntries columns entries i content minLayout = some none := by
  induction entries generalizing i content minLayout with
  | nil =>
    obtain ⟨row, hrow, -⟩ := hbroken
    cases hrow
  | cons row entries ih =>
    have hrow := hentries row List.mem_cons_self
    by_cases hcells : (cells row).length = columns
    · obtain ⟨hnext, layout, hlength, hturn⟩ :=
        formatEntries_cons entries hrow hcells hlayout hi hcontent
      rw [hturn]
      apply ih (fun r hr => hentries r (List.mem_cons_of_mem row hr)) _ hlength (Nat.succ_pos i) hnext
      obtain ⟨r, hr, hne⟩ := hbroken
      rcases List.mem_cons.1 hr with rfl | hr
      · exact absurd hcells hne
      · exact ⟨r, hr, hne⟩
    · exact formatEntries_cons_of_ne hrow hcells

/-! ## The accesses of a list -/

/-- The loop over the entries stays inside its vectors. -/
lemma entriesAccesses_inRange (hentries : ∀ row ∈ entries, row.length < 2147483648)
    (hsize : i + entries.length ≤ size) (hi : 0 < i)
    (hcontent : content.length = columns * (i - 1)) :
    ∀ a ∈ entriesAccesses columns columns size entries i content, a.InRange := by
  induction entries generalizing i content with
  | nil =>
    intro a ha
    rw [entriesAccesses] at ha
    cases ha
  | cons row entries ih =>
    have hrow := hentries row List.mem_cons_self
    rw [List.length_cons] at hsize
    rw [entriesAccesses, split_row hrow, List.forall_mem_cons, List.forall_mem_append]
    refine ⟨by simp only [Access.InRange]; omega, splitAccesses_inRange hrow, ?_⟩
    dsimp only
    rw [sizeT_length_cells hrow]
    by_cases hcells : (cells row).length = columns
    · obtain ⟨hnext, -⟩ := formatEntries_cons entries hrow hcells
        (List.length_replicate (a := 0)) hi hcontent
      rw [if_neg (not_not.2 hcells), List.forall_mem_append]
      constructor
      · intro a ha
        obtain ⟨j, hj, ha⟩ := List.mem_flatMap.1 ha
        rw [List.mem_range] at hj
        rw [List.mem_cons, List.mem_singleton] at ha
        obtain ⟨i, rfl⟩ : ∃ n, i = n + 1 := ⟨i - 1, by omega⟩
        rw [Nat.add_sub_cancel, Nat.mul_succ] at hnext
        rcases ha with rfl | rfl
        · exact hj
        · simp only [Access.InRange, hnext, Nat.add_sub_cancel]
          omega
      · exact ih (fun r hr => hentries r (List.mem_cons_of_mem row hr)) (by omega)
          (Nat.succ_pos i) hnext
    · rw [if_pos hcells]
      simp

/-- The loops that print stay inside as well. -/
lemma printAccesses_inRange {header : List Bytes} (content : List Bytes) :
    ∀ a ∈ printAccesses header content header.length, a.InRange := by
  rw [printAccesses, List.forall_mem_append, List.forall_mem_append]
  refine ⟨⟨?_, ?_⟩, ?_⟩
  · intro a ha
    obtain ⟨j, hj, rfl⟩ := List.mem_map.1 ha
    exact List.mem_range.1 hj
  · intro a ha
    obtain ⟨j, hj, ha⟩ := List.mem_flatMap.1 ha
    rw [List.mem_cons, List.mem_singleton] at ha
    rcases ha with rfl | rfl <;> exact List.mem_range.1 hj
  · intro a ha
    obtain ⟨j, hj, ha⟩ := List.mem_flatMap.1 ha
    rw [List.mem_range] at hj
    have hle := Nat.mul_div_le content.length header.length
    have hpos : 0 < header.length := by
      by_contra hzero
      rw [show header.length = 0 by omega, Nat.zero_mul] at hj
      exact Nat.not_lt_zero j hj
    rw [List.mem_cons, List.mem_singleton] at ha
    rcases ha with rfl | rfl
    · exact Nat.mod_lt j hpos
    · exact hj.trans_le hle

lemma headerAccesses_inRange (hentries : ∀ row ∈ entries, row.length < 2147483648)
    (hne : entries ≠ []) (header : List Bytes) :
    ∀ a ∈ headerAccesses entries header, a.InRange := by
  have hrest : ∀ row ∈ entries.drop 1, row.length < 2147483648 :=
    fun row hrow => hentries row (List.drop_subset 1 entries hrow)
  have hpos := List.length_pos_iff.2 hne
  rw [headerAccesses, List.forall_mem_append, List.forall_mem_append]
  refine ⟨⟨?_, ?_⟩, ?_⟩
  · intro a ha
    obtain ⟨j, hj, rfl⟩ := List.mem_map.1 ha
    exact List.mem_range.1 hj
  · apply entriesAccesses_inRange hrest _ Nat.one_pos rfl
    rw [List.length_drop]
    omega
  · by_cases hcells : ∀ row ∈ entries.drop 1, (cells row).length = header.length
    · have hzero : ([] : List Bytes).length = header.length * (1 - 1) := rfl
      obtain ⟨widths, hformat, hwidths⟩ := formatEntries_eq_some
        (fun row hrow => ⟨hrest row hrow, hcells row hrow⟩) (List.length_map List.length)
        Nat.one_pos hzero
      rw [hformat]
      dsimp only
      rw [hwidths]
      exact printAccesses_inRange _
    · simp only [not_forall] at hcells
      obtain ⟨row, hrow, hne⟩ := hcells
      rw [formatEntries_eq_none hrest ⟨row, hrow, hne⟩ (List.length_map List.length) Nat.one_pos rfl]
      simp

/-- The rows of a list whose text an `int` can go through. -/
structure SafeList (text : Bytes) : Prop where
  size : text.length < 4294967295
  row : HasPiece text [59]
  range : ¬Overrun text [59]

lemma listAccesses_inRange_iff (hlen : minimumLen < s.length)
    (hsize : (s.drop (minimumLen + 1)).length < 4294967295) :
    (∀ a ∈ listAccesses s, a.InRange) ↔ SafeList (s.drop (minimumLen + 1)) := by
  have hstart : (Access.substr (minimumLen + 1) s.length).InRange := hlen
  rw [listAccesses, List.forall_mem_cons, and_iff_right hstart, List.forall_mem_append,
    splitAccesses_inRange_iff hsize]
  constructor
  · rintro ⟨hover, hall⟩
    obtain ⟨rows, cnt, hsplit, hrow, -⟩ := split_of_lt hsize hover
    refine ⟨hsize, hrow.1 ?_, hover⟩
    rintro rfl
    rw [hsplit] at hall
    have hfirst := hall (.element 0 0) List.mem_cons_self
    exact Nat.lt_irrefl 0 hfirst
  · intro hsafe
    obtain ⟨rows, cnt, hsplit, hrow, hshort⟩ := split_of_lt hsize hsafe.range
    refine ⟨hsafe.range, ?_⟩
    rw [hsplit]
    cases rows with
    | nil => exact absurd rfl (hrow.2 hsafe.row)
    | cons first rest =>
      have hfirst := hshort first List.mem_cons_self
      rw [List.forall_mem_cons, List.forall_mem_append]
      refine ⟨Nat.succ_pos _, splitAccesses_inRange hfirst, ?_⟩
      rw [split_row hfirst]
      dsimp only
      split
      · simp
      · exact headerAccesses_inRange hshort (List.cons_ne_nil _ _) _

/-! ## All accesses -/

/-- The condition on the messages. -/
structure Safe (completeStr : Bytes) : Prop where
  long : minimumLen ≤ completeStr.length
  list : completeStr[minimumLen]? = some 108 → SafeList (completeStr.drop (minimumLen + 1))
  direct : completeStr[minimumLen]? = some 100 →
    ∀ k, find [58, 58] (completeStr.drop (minimumLen + 3)) = some k →
      -2 ≤ int32 (minimumLen + 3 + k)

lemma directAccesses_inRange_iff (hlen : minimumLen < s.length) :
    (∀ a ∈ directAccesses s, a.InRange) ↔
      ∀ k, find [58, 58] (s.drop (minimumLen + 3)) = some k → -2 ≤ int32 (minimumLen + 3 + k) := by
  rw [directAccesses, List.forall_mem_append, List.forall_mem_singleton]
  unfold minimumLen at hlen
  cases hfind : find [58, 58] (s.drop (minimumLen + 3)) with
  | none =>
    have haddr : addrEnd s = -1 := by rw [addrEnd, hfind]
    rw [haddr]
    apply iff_of_true
    · refine ⟨by simp, ?_, ?_⟩ <;> omega
    · intro k hk
      cases hk
  | some k =>
    have haddr : addrEnd s = int32 (minimumLen + 3 + k) := by rw [addrEnd, hfind]
    have hle := Receiver.find_lt hfind
    simp only [minimumLen, List.length_drop, List.length_cons, List.length_nil] at hle
    have hint : int32 (minimumLen + 3 + k) ≤ minimumLen + 3 + k := by
      unfold int32 minimumLen
      omega
    rw [haddr]
    constructor
    · rintro ⟨-, hmin, -⟩ j hj
      obtain rfl := Option.some.inj hj
      omega
    · intro hall
      have hmin := hall k rfl
      refine ⟨?_, by omega, ?_⟩
      · intro a ha
        split at ha
        · cases ha
        · rw [List.mem_singleton] at ha
          rw [ha]
          simp only [Access.InRange, minimumLen]
          omega
      · unfold minimumLen at hint ⊢
        omega

lemma charAt_of_lt {s : Bytes} {i : Nat} (hi : i < s.length) : charAt s i = some s[i] := by
  rw [charAt, List.getElem?_append_left hi, List.getElem?_eq_getElem hi]

lemma contentAccesses_inRange_iff (hlen : minimumLen ≤ s.length)
    (hsize : s[minimumLen]? = some 108 → (s.drop (minimumLen + 1)).length < 4294967295) :
    (∀ a ∈ contentAccesses s, a.InRange) ↔ Safe s := by
  rw [contentAccesses]
  by_cases heq : s.length = minimumLen
  · have hnone : s[minimumLen]? = none := List.getElem?_eq_none heq.le
    rw [if_pos heq]
    apply iff_of_true (by simp)
    refine ⟨hlen, fun hraw => ?_, fun hraw => ?_⟩ <;> rw [hnone] at hraw <;> cases hraw
  · have hlt : minimumLen < s.length := by omega
    have hraw : s[minimumLen]? = some s[minimumLen] := List.getElem?_eq_getElem hlt
    have hchar : (Access.char minimumLen s.length).InRange := by
      simp only [Access.InRange]
      omega
    rw [if_neg heq, List.forall_mem_cons, and_iff_right hchar, charAt_of_lt hlt]
    dsimp only
    by_cases hlist : s[minimumLen] = 108
    · rw [if_pos hlist, listAccesses_inRange_iff hlt (hsize (hlist ▸ hraw))]
      constructor
      · intro hsafe
        refine ⟨hlen, fun _ => hsafe, fun hdirect => ?_⟩
        rw [hraw, hlist] at hdirect
        cases hdirect
      · intro hsafe
        exact hsafe.list (hlist ▸ hraw)
    · rw [if_neg hlist]
      have hlist' : s[minimumLen]? ≠ some 108 := by rw [hraw]; simpa using hlist
      by_cases hdirect : s[minimumLen] = 100
      · rw [if_pos hdirect, directAccesses_inRange_iff hlt]
        constructor
        · intro hall
          exact ⟨hlen, fun h => absurd h hlist', fun _ => hall⟩
        · intro hsafe
          exact hsafe.direct (hdirect ▸ hraw)
      · have hdirect' : s[minimumLen]? ≠ some 100 := by rw [hraw]; simpa using hdirect
        rw [if_neg hdirect]
        apply iff_of_true
        · rw [List.forall_mem_singleton]
          simp only [Access.InRange]
          omega
        · exact ⟨hlen, fun h => absurd h hlist', fun h => absurd h hdirect'⟩

/-! ## The result -/

lemma formatList_isSome (hsafe : SafeList (s.drop (minimumLen + 1))) :
    ∃ out, formatList s = some out := by
  obtain ⟨rows, cnt, hsplit, hrow, hshort⟩ := split_of_lt hsafe.size hsafe.range
  cases rows with
  | nil => exact absurd rfl (hrow.2 hsafe.row)
  | cons first rest =>
    have hfirst := hshort first List.mem_cons_self
    have hrest : ∀ row ∈ rest, row.length < 2147483648 :=
      fun row hrow => hshort row (List.mem_cons_of_mem first hrow)
    rw [formatList, hsplit]
    simp only [Option.bind_eq_bind, Option.bind_some, List.getElem?_cons_zero, split_row hfirst,
      List.nil_append, List.drop_succ_cons, List.drop_zero]
    split
    · exact ⟨_, rfl⟩
    · by_cases hcells : ∀ row ∈ rest, (cells row).length = (cells first).length
      · have hzero : ([] : List Bytes).length = (cells first).length * (1 - 1) := rfl
        obtain ⟨widths, hformat, -⟩ := formatEntries_eq_some
          (fun row hrow => ⟨hrest row hrow, hcells row hrow⟩) (List.length_map List.length)
          Nat.one_pos hzero
        rw [hformat]
        exact ⟨_, rfl⟩
      · simp only [not_forall] at hcells
        obtain ⟨row, hrow, hne⟩ := hcells
        rw [formatEntries_eq_none hrest ⟨row, hrow, hne⟩ (List.length_map List.length)
          Nat.one_pos rfl]
        exact ⟨_, rfl⟩

lemma formatContent_isSome_of_safe (hsafe : Safe s) : ∃ out, formatContent s = some out := by
  have hlen := hsafe.long
  rw [formatContent]
  by_cases heq : s.length = minimumLen
  · rw [if_pos heq]
    exact ⟨_, rfl⟩
  · have hlt : minimumLen < s.length := by omega
    have hraw : s[minimumLen]? = some s[minimumLen] := List.getElem?_eq_getElem hlt
    rw [if_neg heq, charAt_of_lt hlt]
    simp only [Option.bind_eq_bind, Option.bind_some]
    by_cases hlist : s[minimumLen] = 108
    · rw [if_pos hlist]
      exact formatList_isSome (hsafe.list (hlist ▸ hraw))
    · rw [if_neg hlist]
      by_cases hdirect : s[minimumLen] = 100
      · have hin := (directAccesses_inRange_iff hlt).2 (hsafe.direct (hdirect ▸ hraw))
        have hchar := hin _ (List.mem_append_right _ (List.mem_singleton_self _))
        obtain ⟨text, htext⟩ := textAt_isSome hchar.1 hchar.2
        rw [if_pos hdirect, formatDirect, htext]
        exact ⟨_, rfl⟩
      · obtain ⟨text, htext⟩ := textAt_isSome (s := s) (i := (minimumLen : Int) + 1)
          (by omega) (by omega)
        rw [if_neg hdirect, htext]
        exact ⟨_, rfl⟩

/-- When the condition holds, `format_message` returns. -/
theorem formatMessage_isSome (hsafe : Safe s) (get : Nat) :
    ∃ out, formatMessage s get = some out := by
  have hlen := hsafe.long
  unfold minimumLen at hlen
  obtain ⟨⟨content, stop⟩, hcontent⟩ := formatContent_isSome_of_safe hsafe
  rw [formatMessage, charAt_of_lt (by omega), intAt, charAt_of_lt (by omega),
    charAt_of_lt (by omega), charAt_of_lt (by omega), charAt_of_lt (by omega), hcontent]
  simp only [Option.bind_eq_bind, Option.bind_some, Option.pure_def]
  split <;> exact ⟨_, rfl⟩

/-! ## The accesses of `format_message` -/

/-- A message shorter than type and length, or a list without a row, is read behind its end.
Behind 4 GiB the loop of `split` over a list need not end. -/
theorem formatAccesses_inRange (completeStr : Bytes) (get : Nat) :
    (Safe completeStr → ∀ a ∈ formatAccesses completeStr get, a.InRange) ∧
      ((∀ a ∈ formatAccesses completeStr get, a.InRange) → Safe completeStr ∨
        completeStr[minimumLen]? = some 108 ∧
          4294967295 ≤ (completeStr.drop (minimumLen + 1)).length) := by
  constructor
  · intro hsafe
    have hlen := hsafe.long
    rw [formatAccesses, List.forall_mem_append, List.forall_mem_append,
      contentAccesses_inRange_iff hlen fun hraw => (hsafe.list hraw).size]
    refine ⟨⟨?_, hsafe⟩, ?_⟩
    · intro a ha
      obtain ⟨i, hi, rfl⟩ := List.mem_map.1 ha
      rw [List.mem_range] at hi
      simp only [Access.InRange, minimumLen] at hlen ⊢
      omega
    · intro a ha
      split at ha
      · split at ha
        · rename_i hget
          rw [List.mem_singleton] at ha
          rw [ha]
          exact hget.2
        · cases ha
      · cases ha
  · intro hall
    rw [formatAccesses, List.forall_mem_append, List.forall_mem_append] at hall
    have hcontent := hall.1.2
    have hlen : minimumLen ≤ completeStr.length := by
      by_contra hshort
      have hraw := hcontent (.char minimumLen completeStr.length)
        (by rw [contentAccesses, if_neg (by omega)]; exact List.mem_cons_self)
      simp only [Access.InRange] at hraw
      omega
    by_cases hsize : completeStr[minimumLen]? = some 108 →
        (completeStr.drop (minimumLen + 1)).length < 4294967295
    · exact Or.inl ((contentAccesses_inRange_iff hlen hsize).1 hcontent)
    · rw [Classical.not_imp, Nat.not_lt] at hsize
      exact Or.inr hsize

/-- The empty string: even the type is followed by bytes behind the terminating null. -/
theorem formatAccesses_not_inRange :
    ¬∀ (completeStr : Bytes) (get : Nat), ∀ a ∈ formatAccesses completeStr get, a.InRange := by
  intro hall
  have hread := hall [] 0 (.char 1 0) (by decide)
  exact absurd hread (by decide)

end CoplusLean.Protocol
