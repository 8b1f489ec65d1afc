import MiniLang.Source.LineIndex

/-!
# Line lookup counts line feeds

The line index of a text holds 0 and, in ascending order, the offset right after each line feed.
Bisection finds how many of these lie at or before an offset, so the line of an offset is one more
than the number of line feeds before it.
-/

namespace MiniLang
namespace Source

theorem foldl_utf8Size
    (characters : List Char)
    (start : Nat) :
    characters.foldl (fun total character => total + character.utf8Size) start =
      start + byteLength characters := by
  induction characters generalizing start with
  | nil => rfl
  | cons character rest inductionHypothesis =>
    rw [byteLength, List.foldl_cons, List.foldl_cons, inductionHypothesis, inductionHypothesis,
      Nat.zero_add, Nat.add_assoc]

@[simp] theorem byteLength_nil : byteLength [] = 0 :=
  rfl

@[simp] theorem byteLength_cons
    (character : Char)
    (rest : List Char) :
    byteLength (character :: rest) = character.utf8Size + byteLength rest := by
  rw [byteLength, List.foldl_cons, foldl_utf8Size, Nat.zero_add]

@[simp] theorem byteLength_append
    (before after : List Char) :
    byteLength (before ++ after) = byteLength before + byteLength after := by
  rw [byteLength, List.foldl_append, foldl_utf8Size, foldl_utf8Size, Nat.zero_add]

/-- The offsets right after the line feeds of a text that begins at a byte offset. -/
def lineEnds : Nat -> List Char -> List Nat
  | _, [] => []
  | offset, character :: rest =>
    let next := offset + character.utf8Size
    if character = '\n' then next :: lineEnds next rest else lineEnds next rest

theorem lineEnds_append
    (before after : List Char)
    (offset : Nat) :
    lineEnds offset (before ++ after) =
      lineEnds offset before ++ lineEnds (offset + byteLength before) after := by
  induction before generalizing offset with
  | nil => rfl
  | cons character rest inductionHypothesis =>
    simp only [List.cons_append, lineEnds, inductionHypothesis, byteLength_cons, Nat.add_assoc]
    split <;> rfl

theorem length_lineEnds
    (characters : List Char)
    (offset : Nat) :
    (lineEnds offset characters).length = characters.count '\n' := by
  induction characters generalizing offset with
  | nil => rfl
  | cons character rest inductionHypothesis =>
    by_cases feed : character = '\n' <;> simp [lineEnds, feed, inductionHypothesis]

theorem mem_lineEnds
    {characters : List Char}
    {offset place : Nat}
    (member : place ∈ lineEnds offset characters) :
    offset < place ∧ place ≤ offset + byteLength characters := by
  induction characters generalizing offset with
  | nil => simp [lineEnds] at member
  | cons character rest inductionHypothesis =>
    have size := character.utf8Size_pos
    have later (inRest : place ∈ lineEnds (offset + character.utf8Size) rest) :
        offset < place ∧ place ≤ offset + byteLength (character :: rest) := by
      have bounds := inductionHypothesis inRest
      simp only [byteLength_cons]
      omega
    by_cases feed : character = '\n'
    · rw [lineEnds, if_pos feed] at member
      rcases List.mem_cons.mp member with rfl | inRest
      · simp only [byteLength_cons]
        omega
      · exact later inRest
    · rw [lineEnds, if_neg feed] at member
      exact later member

theorem lineEnds_ascending
    (characters : List Char)
    (offset : Nat) :
    (lineEnds offset characters).Pairwise (· < ·) := by
  induction characters generalizing offset with
  | nil => exact .nil
  | cons character rest inductionHypothesis =>
    by_cases feed : character = '\n'
    · rw [lineEnds, if_pos feed]
      exact .cons (fun _ member => (mem_lineEnds member).1) (inductionHypothesis _)
    · rw [lineEnds, if_neg feed]
      exact inductionHypothesis _

namespace LineIndex

theorem scan_eq
    (characters : List Char)
    (offset : Nat)
    (starts : Array Nat) :
    scan characters offset starts = starts ++ (lineEnds offset characters).toArray := by
  induction characters generalizing offset starts with
  | nil => simp [scan, lineEnds]
  | cons character rest inductionHypothesis =>
    by_cases feed : character = '\n' <;> simp [scan, lineEnds, feed, inductionHypothesis]

theorem starts_ofChars
    (characters : List Char) :
    (ofChars characters).starts = (0 :: lineEnds 0 characters).toArray := by
  simp [ofChars, scan_eq]

/-- The number of entries at or before a value that stands at a place. -/
def Place.rank : Place -> Nat
  | .found index => index + 1
  | .absent index => index

/-- The first `rank` entries are exactly those at or before a value. -/
structure Splits (starts : Array Nat) (value rank : Nat) : Prop where
  rank_le : rank ≤ starts.size
  below : ∀ index, index < rank -> starts.getD index 0 ≤ value
  above : ∀ index, rank ≤ index -> index < starts.size -> value < starts.getD index 0

/-- Bisection keeps its invariant: what lies left of the interval is below the value, and what lies
right of it is above. -/
theorem splits_bisect
    {starts : Array Nat}
    {value low high : Nat}
    (ascending : ∀ first second, first < second -> second < starts.size ->
      starts.getD first 0 < starts.getD second 0)
    (low_le : low ≤ high)
    (high_le : high ≤ starts.size)
    (below : ∀ index, index < low -> starts.getD index 0 < value)
    (above : ∀ index, high ≤ index -> index < starts.size -> value < starts.getD index 0) :
    Splits starts value (bisect starts value low high).rank := by
  fun_induction bisect starts value low high with
  | case1 low high interval middle entry hit =>
    refine ⟨by simp only [Place.rank]; omega, fun index before => ?_, fun index after inside => ?_⟩
    · rcases Nat.lt_or_eq_of_le (Nat.le_of_lt_succ before) with earlier | rfl
      · exact hit ▸ Nat.le_of_lt (ascending index middle earlier (by omega))
      · exact Nat.le_of_eq hit
    · exact hit ▸ ascending middle index after inside
  | case2 low high interval middle entry miss smaller inductionHypothesis =>
    refine inductionHypothesis (by omega) high_le (fun index before => ?_) above
    rcases Nat.lt_or_eq_of_le (Nat.le_of_lt_succ before) with earlier | rfl
    · exact Nat.lt_trans (ascending index middle earlier (by omega)) smaller
    · exact smaller
  | case3 low high interval middle entry miss larger inductionHypothesis =>
    have greater : value < entry := by omega
    refine inductionHypothesis (by omega) (by omega) below fun index after inside => ?_
    rcases Nat.lt_or_eq_of_le after with later | rfl
    · exact Nat.lt_trans greater (ascending middle index later inside)
    · exact greater
  | case4 low high empty =>
    exact ⟨by simp only [Place.rank]; omega, fun index before => Nat.le_of_lt (below index before),
      fun index after inside => above index (by simp only [Place.rank] at after; omega) inside⟩

theorem getElem_eq_getD
    {starts : Array Nat}
    {index : Nat}
    (inside : index < starts.toList.length) :
    starts.toList[index] = starts.getD index 0 := by
  rw [Array.length_toList] at inside
  simp [inside]

theorem Splits.rank_eq
    {starts : Array Nat}
    {value rank : Nat}
    (splits : Splits starts value rank) :
    rank = starts.toList.countP (· ≤ value) := by
  have taken : (starts.toList.take rank).countP (· ≤ value) = rank := by
    rw [List.countP_eq_length.mpr, List.length_take, Array.length_toList,
      Nat.min_eq_left splits.rank_le]
    intro start member
    obtain ⟨index, inside, rfl⟩ := List.mem_iff_getElem.mp member
    rw [List.length_take] at inside
    rw [List.getElem_take, getElem_eq_getD]
    exact decide_eq_true (splits.below index (by omega))
  have dropped : (starts.toList.drop rank).countP (· ≤ value) = 0 := by
    rw [List.countP_eq_zero]
    intro start member
    obtain ⟨index, inside, rfl⟩ := List.mem_iff_getElem.mp member
    rw [List.length_drop, Array.length_toList] at inside
    rw [List.getElem_drop, getElem_eq_getD]
    have greater := splits.above (rank + index) (by omega) (by omega)
    simp only [decide_eq_true_eq]
    omega
  rw [← List.take_append_drop rank starts.toList, List.countP_append, taken, dropped, Nat.add_zero]

theorem lineOf_eq
    (lines : LineIndex)
    (offset : Nat) :
    lines.lineOf offset = Line.ofIndex ((lines.place offset).rank - 1) := by
  rw [lineOf]
  cases lines.place offset <;> rfl

/-- Bisection passes the start of the first line and the line feeds that end at or before an
offset. -/
theorem rank_place
    (characters : List Char)
    (offset : Nat) :
    ((ofChars characters).place offset).rank =
      (lineEnds 0 characters).countP (· ≤ offset) + 1 := by
  have sorted : (ofChars characters).starts.toList.Pairwise (· < ·) := by
    rw [starts_ofChars]
    exact .cons (fun _ member => (mem_lineEnds member).1) (lineEnds_ascending characters 0)
  have splits : Splits (ofChars characters).starts offset
      ((ofChars characters).place offset).rank := by
    refine splits_bisect (fun first second less inside => ?_) (Nat.zero_le _) (Nat.le_refl _)
      (fun index before => absurd before (Nat.not_lt_zero index))
      (fun index after inside => absurd inside (Nat.not_lt_of_le after))
    have ordered := List.pairwise_iff_getElem.mp sorted first second
      (Nat.lt_trans less inside) inside less
    rwa [getElem_eq_getD, getElem_eq_getD] at ordered
  rw [splits.rank_eq, starts_ofChars, List.countP_cons_of_pos (by simp)]

/-- Line lookup counts the line feeds that end at or before an offset. -/
theorem lineOf_ofChars
    (characters : List Char)
    (offset : Nat) :
    (ofChars characters).lineOf offset =
      Line.ofIndex ((lineEnds 0 characters).countP (· ≤ offset)) := by
  rw [lineOf_eq, rank_place, Nat.add_sub_cancel]

/-- The line right after a part of the text is found by counting the line feeds of that part. -/
theorem lineOf_byteLength
    (before after : List Char) :
    (ofChars (before ++ after)).lineOf (byteLength before) =
      Line.ofIndex (before.count '\n') := by
  have passed : (lineEnds 0 before).countP (· ≤ byteLength before) = before.count '\n' := by
    rw [List.countP_eq_length.mpr, length_lineEnds]
    intro place member
    have bound := (mem_lineEnds member).2
    simpa using bound
  have ahead : (lineEnds (0 + byteLength before) after).countP (· ≤ byteLength before) = 0 := by
    rw [List.countP_eq_zero]
    intro place member
    have bound := (mem_lineEnds member).1
    simpa using bound
  rw [lineOf_ofChars, lineEnds_append, List.countP_append, passed, ahead, Nat.add_zero]

end LineIndex

end Source
end MiniLang
