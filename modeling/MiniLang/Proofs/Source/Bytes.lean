import MiniLang.Proofs.Source.Lines

/-!
# Line lookup on bytes

Offsets count bytes, and in the bytes of a text the byte of a line feed stands for nothing but a
line feed: the other characters take either one byte of their own or several bytes above all of
ASCII.  So the line of an offset is found by counting that byte before the offset.  The offset may
lie inside a character or past the end of the text.
-/

namespace MiniLang
namespace Source

/-- The bytes of a text are those of its characters. -/
theorem utf8_eq
    (text : String) :
    text.toUTF8.data.toList = text.toList.flatMap String.utf8EncodeChar := by
  have spelled : text.toUTF8 = (String.ofList text.toList).toUTF8 := by
    rw [String.ofList_toList]
  rw [spelled, String.toUTF8, String.toByteArray_ofList, List.utf8Encode,
    List.toList_data_toByteArray]

/-- The byte of a line feed. -/
def feedByte : UInt8 := 10

/-- A byte of a character is the number of that character or lies above all of ASCII. -/
theorem toNat_of_mem_utf8EncodeChar
    {character : Char}
    {byte : UInt8}
    (member : byte ∈ String.utf8EncodeChar character) :
    byte.toNat = character.toNat ∨ 128 ≤ byte.toNat := by
  -- The cases are the four lengths of a character.
  have value_eq : character.toNat = character.val.toNat := rfl
  unfold String.utf8EncodeChar at member
  simp only at member
  split at member
  · simp only [List.mem_singleton] at member
    subst member
    simp only [UInt8.toNat_ofNat']
    omega
  · right
    split at member
    · simp only [List.mem_cons, List.not_mem_nil, or_false] at member
      rcases member with rfl | rfl <;> simp only [UInt8.toNat_ofNat'] <;> omega
    · split at member
      · simp only [List.mem_cons, List.not_mem_nil, or_false] at member
        rcases member with rfl | rfl | rfl <;> simp only [UInt8.toNat_ofNat'] <;> omega
      · simp only [List.mem_cons, List.not_mem_nil, or_false] at member
        rcases member with rfl | rfl | rfl | rfl <;> simp only [UInt8.toNat_ofNat'] <;> omega

/-- Only a line feed has its byte. -/
theorem feedByte_not_mem
    {character : Char}
    (other : character ≠ '\n') :
    feedByte ∉ String.utf8EncodeChar character := by
  intro member
  rcases toNat_of_mem_utf8EncodeChar member with same | large
  · exact other (Char.toNat_inj.mp same.symm)
  · exact absurd large (by decide)

/-- Counting its byte in the first bytes of a text counts the line feeds that end there. -/
theorem count_feedByte_take
    (characters : List Char)
    (start offset : Nat) :
    ((characters.flatMap String.utf8EncodeChar).take offset).count feedByte =
      (lineEnds start characters).countP (· ≤ start + offset) := by
  induction characters generalizing start offset with
  | nil => simp [lineEnds]
  | cons character rest inductionHypothesis =>
    rw [List.flatMap_cons, List.take_append, List.count_append, String.length_utf8EncodeChar]
    have size := character.utf8Size_pos
    -- Offsets count from the start of the text, and what is left of it starts one character later.
    have later : ((rest.flatMap String.utf8EncodeChar).take (offset - character.utf8Size)).count
          feedByte =
        (lineEnds (start + character.utf8Size) rest).countP (· ≤ start + offset) := by
      by_cases inside : offset < character.utf8Size
      · rw [Nat.sub_eq_zero_of_le (Nat.le_of_lt inside), List.take_zero, List.count_nil, eq_comm,
          List.countP_eq_zero]
        intro place member
        have bound := (mem_lineEnds member).1
        simp only [decide_eq_true_eq]
        omega
      · rw [inductionHypothesis (start + character.utf8Size),
          show start + character.utf8Size + (offset - character.utf8Size) = start + offset by omega]
    rw [later]
    by_cases feed : character = '\n'
    · subst feed
      have bytes : String.utf8EncodeChar '\n' = [feedByte] := by decide
      have one : ('\n' : Char).utf8Size = 1 := by decide
      rw [lineEnds, if_pos rfl, List.countP_cons, bytes, one]
      cases offset with
      | zero => simp
      | succ offset => simp [Nat.add_comm]
    · have none_there : ((String.utf8EncodeChar character).take offset).count feedByte = 0 :=
        List.count_eq_zero.mpr fun member => feedByte_not_mem feed (List.mem_of_mem_take member)
      rw [lineEnds, if_neg feed, none_there, Nat.zero_add]

namespace LineIndex

/-- Line lookup at byte offsets: the line of an offset is one more than the bytes of line feeds
strictly before it, as far as lines are told apart; an offset that is no line start lies behind one,
so that there is a line to step back to; and later offsets are on later lines or the same. -/
theorem line_counts_feed_bytes
    (source : String) :
    (∀ offset, (ofChars source.toList).lineOf offset =
        min (1 + (source.toUTF8.data.toList.take offset).count 10) 4294967295) ∧
      (∀ offset index, (ofChars source.toList).place offset = .absent index -> 1 ≤ index) ∧
      (∀ first second, first ≤ second ->
        (ofChars source.toList).lineOf first ≤ (ofChars source.toList).lineOf second) := by
  have counted (offset : Nat) : (ofChars source.toList).lineOf offset =
      min (1 + (source.toUTF8.data.toList.take offset).count 10) 4294967295 := by
    have feeds := count_feedByte_take source.toList 0 offset
    rw [Nat.zero_add] at feeds
    rw [lineOf_ofChars, ← feeds, utf8_eq, Nat.add_comm]
    rfl
  refine ⟨counted, fun offset index missed => ?_, fun first second less => ?_⟩
  · have passed := rank_place source.toList offset
    rw [missed, Place.rank] at passed
    omega
  · have fewer : (source.toUTF8.data.toList.take first).count 10 ≤
        (source.toUTF8.data.toList.take second).count 10 :=
      (List.take_prefix_take_left less).sublist.count_le 10
    rw [counted, counted]
    exact Nat.le_min.mpr
      ⟨Nat.le_trans (Nat.min_le_left _ _) (Nat.add_le_add_left fewer 1), Nat.min_le_right _ _⟩

/-- A letter of two bytes, two line feeds and a last line: the second byte is still on the first
line, the offset after a line feed on the next one, and an offset past the end on the last. -/
theorem lines_of_two_feeds :
    (ofChars "é\n\nb".toList).lineOf 1 = 1 ∧ (ofChars "é\n\nb".toList).lineOf 3 = 2 ∧
      (∃ index, (ofChars "é\n\nb".toList).place 9 = .absent index ∧ 1 ≤ index) ∧
      (ofChars "é\n\nb".toList).lineOf 9 = 3 ∧
      (ofChars "é\n\nb".toList).lineOf 3 ≤ (ofChars "é\n\nb".toList).lineOf 9 := by
  obtain ⟨counted, behind, ordered⟩ := line_counts_feed_bytes "é\n\nb"
  have missed : (ofChars "é\n\nb".toList).place 9 = .absent 3 := by decide +kernel
  exact ⟨(counted 1).trans (by decide +kernel), (counted 3).trans (by decide +kernel),
    ⟨3, missed, behind 9 3 missed⟩, (counted 9).trans (by decide +kernel),
    ordered 3 9 (by decide)⟩

end LineIndex

end Source
end MiniLang
