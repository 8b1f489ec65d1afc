import MiniLang.Command.FileSystem
import MiniLang.Proofs.Failure

/-!
# What writing a file changes

Writing a file changes what stands at one place, the one that the path leads to, and leaves every
other place as it was.  No directory is lost by it, so every walk that led somewhere still leads
there; in particular the path that was written to leads to the new file and gives back its text.
-/

namespace MiniLang
namespace Command

/-- The bytes of a byte array are read off from the front. -/
theorem toList_loop_eq
    (bytes : ByteArray)
    (start : Nat)
    (before : List UInt8) :
    ByteArray.toList.loop bytes start before = before.reverse ++ bytes.data.toList.drop start := by
  fun_induction ByteArray.toList.loop bytes start before with
  | case1 start before inside inductionHypothesis =>
      have inside_list : start < bytes.data.toList.length := by simpa using inside
      rw [inductionHypothesis, List.drop_eq_getElem_cons inside_list]
      simp [ByteArray.get!, inside]
  | case2 start before outside =>
      have past : bytes.data.toList.length <= start := by simpa using outside
      rw [List.drop_eq_nil_of_le past, List.append_nil]

/-- Reading the bytes of a text gives back the text. -/
theorem fromUTF8?_toUTF8 (text : String) :
    String.fromUTF8? (ByteArray.mk text.toUTF8.toList.toArray) = some text := by
  have bytes_eq : ByteArray.mk text.toUTF8.toList.toArray = text.toUTF8 := by
    unfold ByteArray.toList
    rw [toList_loop_eq]
    simp
  rw [bytes_eq]
  exact dif_pos text.isValidUTF8

namespace FileSystem

variable {files : FileSystem} {place here last : Location} {content : List UInt8} {path : String}

/-- Taking out the entries of one place does not change what is found at another. -/
theorem lookup_filter_ne
    (entries : List (Location × Node))
    {other : Location}
    (different : other ≠ place) :
    (entries.filter fun entry => entry.1 != place).lookup other = entries.lookup other := by
  induction entries with
  | nil => rfl
  | cons entry rest inductionHypothesis =>
      obtain ⟨key, node⟩ := entry
      by_cases removed : key = place
      · subst removed
        have other_key : (other == key) = false := beq_false_of_ne different
        simp [inductionHypothesis, List.lookup_cons, other_key]
      · simp [inductionHypothesis, List.lookup_cons, removed]

/-- Putting something at a place other than the root changes that place only. -/
theorem node?_put
    (files : FileSystem)
    (below_root : place ≠ [])
    (node : Node)
    (other : Location) :
    (files.put place node).node? other =
      if other = place then some node else files.node? other := by
  unfold node? put
  by_cases same : other = place
  · subst same
    simp [below_root]
  · have other_place : (other == place) = false := beq_false_of_ne same
    simp [same, List.lookup_cons, lookup_filter_ne, other_place]

/-- Going by one name from a directory to a place. -/
inductive Enters (files : FileSystem) (here : Location) : String -> Location -> Prop where
  | stay : Enters files here "." here
  | up : Enters files here ".." here.dropLast
  | down {name : String}
      (proper : name ≠ "." ∧ name ≠ "..")
      (short : name.utf8ByteSize <= longestName)
      (known : (files.node? (here ++ [name])).isSome) :
      Enters files here name (here ++ [name])

/-- A walk goes by its first name from a directory, and on from there. -/
theorem walk_cons_eq_ok_iff
    {name : String}
    {rest : List String} :
    files.walk here (name :: rest) = .ok last ↔
      files.node? here = some .directory ∧
        ∃ next, files.Enters here name next ∧ files.walk next rest = .ok last := by
  constructor
  · intro leads
    unfold walk at leads
    split at leads
    · cases leads
    · cases leads
    · next at_directory =>
      refine ⟨at_directory, ?_⟩
      split at leads
      · next dot => exact ⟨here, dot ▸ .stay, leads⟩
      · next not_dot =>
        split at leads
        · next up => exact ⟨here.dropLast, up ▸ .up, leads⟩
        · next not_up =>
          split at leads
          · cases leads
          · next short =>
            split at leads
            · next known => exact ⟨_, .down ⟨not_dot, not_up⟩ (Nat.le_of_not_lt short) known, leads⟩
            · cases leads
  · rintro ⟨at_directory, next, enters, leads⟩
    unfold walk
    rw [at_directory]
    cases enters with
    | stay => exact leads
    | up => exact leads
    | down proper short known => simp [proper, Nat.not_lt.2 short, known, leads]

/-- A file that replaces no directory closes no way. -/
theorem walk_put_file
    (below_root : place ≠ [])
    (no_directory : files.node? place ≠ some .directory)
    {names : List String}
    (leads : files.walk here names = .ok last) :
    (files.put place (.file content)).walk here names = .ok last := by
  induction names generalizing here with
  | nil => exact leads
  | cons name rest inductionHypothesis =>
      obtain ⟨at_directory, next, enters, leads⟩ := walk_cons_eq_ok_iff.1 leads
      refine walk_cons_eq_ok_iff.2 ⟨?_, next, ?_, inductionHypothesis leads⟩
      · -- A step is taken only in a directory, so it is not taken at the place that changes.
        rw [node?_put files below_root, if_neg]
        · exact at_directory
        · rintro rfl
          exact no_directory at_directory
      · cases enters with
        | stay => exact .stay
        | up => exact .up
        | down proper short known =>
            refine .down proper short ?_
            rw [node?_put files below_root]
            split
            · rfl
            · exact known

/-- A walk to a directory goes on by a name to what stands there. -/
theorem walk_append_name
    {names : List String}
    {name : String}
    {next : Location}
    (leads : files.walk here names = .ok last)
    (directory : files.node? last = some .directory)
    (enters : files.Enters last name next) :
    files.walk here (names ++ [name]) = .ok next := by
  induction names generalizing here with
  | nil =>
      cases leads
      exact walk_cons_eq_ok_iff.2 ⟨directory, next, enters, rfl⟩
  | cons first rest inductionHypothesis =>
      obtain ⟨at_directory, between, first_enters, leads⟩ := walk_cons_eq_ok_iff.1 leads
      exact walk_cons_eq_ok_iff.2 ⟨at_directory, between, first_enters, inductionHypothesis leads⟩

/-- A place that can hold a file for a path: the names before the last one lead to a directory, and
the last one is a proper name in it that does not stand for a directory. -/
structure CanHold (files : FileSystem) (path : String) (place : Location) : Prop where
  followable : checkPath path = .ok ()
  no_slash : endsInSlash path = false
  under : ∃ front last parent, names path = front ++ [last] ∧ place = parent ++ [last] ∧
    files.walk (files.startOf path) front = .ok parent ∧ files.node? parent = some .directory ∧
    (last ≠ "." ∧ last ≠ "..") ∧ last.utf8ByteSize <= longestName
  no_directory : files.node? place ≠ some .directory

/-- A place is found for a path only if it can hold a file. -/
theorem canHold_of_writePlace
    (found : files.writePlace path = .ok place) :
    files.CanHold path place := by
  unfold writePlace at found
  obtain ⟨⟨⟩, followable, found⟩ := exists_of_bind found
  split at found
  · cases found
  · next last last_eq =>
    obtain ⟨parent, leads, found⟩ := exists_of_bind found
    split at found
    · cases found
    · cases found
    · next directory =>
      split at found
      · cases found
      · next proper =>
        split at found
        · cases found
        · next short =>
          simp only [not_or] at proper
          obtain ⟨not_dot, not_up, no_slash⟩ := proper
          obtain ⟨front, names_eq⟩ := List.getLast?_eq_some_iff.1 last_eq
          rw [names_eq, List.dropLast_concat] at leads
          split at found
          · cases found
          · next no_directory =>
            cases found
            exact ⟨followable, Bool.eq_false_iff.2 no_slash,
              ⟨front, last, parent, names_eq, rfl, leads, directory, ⟨not_dot, not_up⟩,
                Nat.le_of_not_lt short⟩, no_directory⟩

namespace CanHold

/-- The place for a file is not the root. -/
theorem below_root
    (canHold : files.CanHold path place) :
    place ≠ [] := by
  obtain ⟨front, last, parent, -, rfl, -⟩ := canHold.under
  simp

/-- After writing, the path leads to the place. -/
theorem walk_put
    (canHold : files.CanHold path place) :
    (files.put place (.file content)).walk (files.startOf path) (names path) = .ok place := by
  have below_root := canHold.below_root
  obtain ⟨front, last, parent, names_eq, rfl, leads, directory, proper, short⟩ := canHold.under
  rw [names_eq]
  refine walk_append_name (walk_put_file below_root canHold.no_directory leads) ?_ ?_
  · rw [node?_put files below_root, if_neg]
    · exact directory
    · simp
  · refine .down proper short ?_
    rw [node?_put files below_root, if_pos rfl]
    rfl

/-- After writing, reading the path gives back what was written. -/
theorem read_put
    (canHold : files.CanHold path place) :
    (files.put place (.file content)).read path = .ok content := by
  have start_eq : (files.put place (.file content)).startOf path = files.startOf path := rfl
  have at_place : (files.put place (.file content)).node? place = some (.file content) := by
    rw [node?_put files canHold.below_root, if_pos rfl]
  unfold read
  rw [canHold.followable, start_eq]
  simp only [bind, Except.bind, canHold.walk_put, at_place, canHold.no_slash]
  rfl

end CanHold

/-- From one file system to another only the file at a path changes, and it holds a text. -/
structure OnlyWritten (before : FileSystem) (path text : String) (after : FileSystem) : Prop where
  /-- The path leads to a place where no directory was, and no other place changes. -/
  place : ∃ place, after.walk (after.startOf path) (names path) = .ok place ∧
    before.node? place ≠ some .directory ∧
    after.node? place = some (.file text.toUTF8.toList) ∧
    ∀ other, other ≠ place -> after.node? other = before.node? other
  workingDirectory_eq : after.workingDirectory = before.workingDirectory
  readText_eq : after.readText path = .ok text

/-- Writing a text changes only the file at the path. -/
theorem onlyWritten_of_write
    {text : String}
    {after : FileSystem}
    (written : files.write path text.toUTF8.toList = .ok after) :
    files.OnlyWritten path text after := by
  obtain ⟨place, found, written⟩ := exists_of_bind written
  cases written
  have canHold := canHold_of_writePlace found
  refine ⟨⟨place, canHold.walk_put, canHold.no_directory, ?_, ?_⟩, rfl, ?_⟩
  · rw [node?_put files canHold.below_root, if_pos rfl]
  · intro other different
    rw [node?_put files canHold.below_root, if_neg different]
  · unfold readText
    rw [canHold.read_put, ok_bind, fromUTF8?_toUTF8]
    rfl

end FileSystem
end Command
end MiniLang
