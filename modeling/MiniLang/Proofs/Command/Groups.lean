import MiniLang.Command.Options
import MiniLang.Proofs.Token.Meaning

/-!
# Groups of arguments

Arguments have exactly one cut into groups, and complete neighbours in it can change places.  A
group is valid if it asks for something the options can hold.  Whether it is bad also depends on the
groups before it, as only one of them can be the input.
-/

namespace MiniLang
namespace Command

open Diagnostic (ColorMode)

namespace Group

/-- What a group is about. -/
inductive Kind where
  | output
  | color
  | limit
  /-- An argument that looks like an option and is none of the options. -/
  | option
  | input
  deriving DecidableEq, Repr

def kind : Group -> Kind
  | .output _ => .output
  | .outputAlone => .output
  | .color _ => .color
  | .limit _ => .limit
  | .option _ => .option
  | .input _ => .input

/-- The arguments that make up a group. -/
def arguments : Group -> List String
  | .output path => ["-o", path]
  | .outputAlone => ["-o"]
  | .color mode => ["--color=" ++ mode]
  | .limit text => ["--error-limit=" ++ text]
  | .option argument => [argument]
  | .input path => [path]

/-- Only the output option can lack something. -/
def Complete (group : Group) : Prop :=
  group ≠ .outputAlone

/-- An argument that is a group of its own is an input unless it begins with a dash, and it is an
unknown option only if it is none of the known ones. -/
def Genuine : Group -> Prop
  | .option argument =>
      argument.toList.head? = some '-' ∧ argument ≠ "-o" ∧
        (∀ mode, argument ≠ "--color=" ++ mode) ∧ ∀ text, argument ≠ "--error-limit=" ++ text
  | .input path => path.toList.head? ≠ some '-'
  | _ => True

end Group

/-- Arguments are cut into groups: these spell the arguments from left to right, an output option
takes the argument after it, whatever that is, and lacks it only at the end. -/
structure Cut (arguments : List String) (groups : List Group) : Prop where
  spelled : groups.flatMap Group.arguments = arguments
  genuine : ∀ group ∈ groups, group.Genuine
  complete : ∀ group ∈ groups.dropLast, group.Complete

/-! ## Cutting -/

theorem afterStart?_eq_some
    {start characters rest : List Char} :
    afterStart? start characters = some rest ↔ characters = start ++ rest := by
  fun_induction afterStart? start characters with
  | case1 => simp [eq_comm]
  | case2 => simp
  | case3 start character characters inductionHypothesis => simp [inductionHypothesis]
  | case4 expected start character characters different => simp [Ne.symm different]

/-- What is left of an argument after the beginning of an option. -/
theorem afterStart?_toList
    {start argument : String}
    {rest : List Char} :
    afterStart? start.toList argument.toList = some rest ↔
      argument = start ++ String.ofList rest := by
  rw [afterStart?_eq_some, ← String.toList_inj, String.toList_append, String.toList_ofList]

theorem afterStart?_eq_none
    (start : String)
    {argument : String} :
    afterStart? start.toList argument.toList = none ↔ ∀ rest, argument ≠ start ++ rest := by
  rw [Option.eq_none_iff_forall_ne_some]
  constructor
  · intro none_left rest same
    exact none_left rest.toList (afterStart?_toList.mpr (by rw [String.ofList_toList, same]))
  · intro different rest left
    exact different (String.ofList rest) (afterStart?_toList.mp left)

namespace Group

/-- A single argument makes a genuine and complete group that it spells. -/
theorem ofArgument_spells
    {argument : String}
    (other : argument ≠ "-o") :
    (ofArgument argument).arguments = [argument] ∧ (ofArgument argument).Genuine ∧
      (ofArgument argument).Complete := by
  unfold ofArgument Complete
  simp only
  split
  next mode after =>
    exact ⟨congrArg ([·]) (afterStart?_toList.mp after).symm, trivial, by simp⟩
  next no_color =>
    split
    next text after =>
      exact ⟨congrArg ([·]) (afterStart?_toList.mp after).symm, trivial, by simp⟩
    next no_limit =>
      split
      next dash =>
        exact ⟨rfl, ⟨dash, other, (afterStart?_eq_none "--color=").mp no_color,
          (afterStart?_eq_none "--error-limit=").mp no_limit⟩,
          by simp⟩
      next no_dash => exact ⟨rfl, no_dash, by simp⟩

theorem ofArgument_color (mode : String) : ofArgument ("--color=" ++ mode) = .color mode := by
  have after : afterStart? colorOption ("--color=" ++ mode).toList = some mode.toList :=
    afterStart?_toList.mpr (by rw [String.ofList_toList])
  simp only [ofArgument, after, String.ofList_toList]

theorem ofArgument_limit (text : String) : ofArgument ("--error-limit=" ++ text) = .limit text := by
  have no_color : afterStart? colorOption ("--error-limit=" ++ text).toList = none := by
    rw [String.toList_append]
    rfl
  have after : afterStart? limitOption ("--error-limit=" ++ text).toList = some text.toList :=
    afterStart?_toList.mpr (by rw [String.ofList_toList])
  simp only [ofArgument, no_color, after, String.ofList_toList]

theorem ofArgument_option
    {argument : String}
    (genuine : (Group.option argument).Genuine) :
    ofArgument argument = .option argument := by
  have no_color : afterStart? colorOption argument.toList = none :=
    (afterStart?_eq_none "--color=").mpr genuine.2.2.1
  have no_limit : afterStart? limitOption argument.toList = none :=
    (afterStart?_eq_none "--error-limit=").mpr genuine.2.2.2
  simp only [ofArgument, no_color, no_limit, genuine.1, if_true]

theorem ofArgument_input
    {path : String}
    (genuine : (Group.input path).Genuine) :
    ofArgument path = .input path := by
  have no_option
      (start : String)
      (dash : start.toList.head? = some '-') :
      afterStart? start.toList path.toList = none := by
    refine (afterStart?_eq_none start).mpr fun rest same => genuine ?_
    rw [same, String.toList_append, List.head?_append, dash]
    rfl
  have no_color : afterStart? colorOption path.toList = none := no_option "--color=" rfl
  have no_limit : afterStart? limitOption path.toList = none := no_option "--error-limit=" rfl
  have no_dash : ¬path.toList.head? = some '-' := genuine
  simp only [ofArgument, no_color, no_limit, if_neg no_dash]

/-- An argument that is not the output option is cut off alone. -/
theorem cut_cons
    {argument : String}
    (other : argument ≠ outputOption)
    (rest : List String) :
    cut (argument :: rest) = ofArgument argument :: cut rest := by
  cases rest with
  | nil => simp only [cut, if_neg other]
  | cons next rest => rw [cut, if_neg other]

end Group

/-- One more group in front of a cut. -/
theorem Cut.cons
    {arguments : List String}
    {groups : List Group}
    (cut : Cut arguments groups)
    (group : Group)
    (genuine : group.Genuine)
    (complete : group.Complete) :
    Cut (group.arguments ++ arguments) (group :: groups) where
  spelled := by rw [List.flatMap_cons, cut.spelled]
  genuine := List.forall_mem_cons.mpr ⟨genuine, cut.genuine⟩
  complete := by
    cases groups with
    | nil => simp
    | cons next rest => exact List.forall_mem_cons.mpr ⟨complete, cut.complete⟩

/-- Cutting gives a cut of the arguments. -/
theorem cut_cut (arguments : List String) : Cut arguments (Group.cut arguments) := by
  have none_left : Cut [] [] := ⟨rfl, by simp, by simp⟩
  fun_induction Group.cut arguments with
  | case1 => exact none_left
  | case2 => exact ⟨rfl, by simp [Group.Genuine], by simp⟩
  | case3 argument other =>
    obtain ⟨spelled, genuine, complete⟩ := Group.ofArgument_spells other
    have cut := none_left.cons _ genuine complete
    rwa [spelled] at cut
  | case4 next rest inductionHypothesis =>
    exact inductionHypothesis.cons (.output next) trivial (by simp [Group.Complete])
  | case5 argument next rest other inductionHypothesis =>
    obtain ⟨spelled, genuine, complete⟩ := Group.ofArgument_spells other
    have cut := inductionHypothesis.cons _ genuine complete
    rwa [spelled] at cut

/-- An argument that begins with a longer text is not the output option. -/
theorem append_ne_outputOption
    (start : String)
    (long : 2 < start.length)
    (text : String) :
    start ++ text ≠ outputOption := by
  intro same
  have lengths := congrArg String.length same
  have two : outputOption.length = 2 := rfl
  rw [String.length_append] at lengths
  omega

/-- There is only one cut. -/
theorem Cut.cut_eq
    {arguments : List String}
    {groups : List Group}
    (cut : Cut arguments groups) :
    Group.cut arguments = groups := by
  obtain ⟨rfl, genuine, complete⟩ := cut
  -- From the left: which group is cut off is told by the first argument alone.
  induction groups with
  | nil => rfl
  | cons group rest inductionHypothesis =>
    have rest_eq : Group.cut (rest.flatMap Group.arguments) = rest := by
      refine inductionHypothesis
        (fun other member => genuine other (List.mem_cons_of_mem group member)) ?_
      cases rest with
      | nil => simp
      | cons next rest =>
        exact fun other member => complete other (List.mem_cons_of_mem group member)
    have first_genuine := genuine group List.mem_cons_self
    rw [List.flatMap_cons]
    cases group with
    | output path =>
      rw [← congrArg (Group.output path :: ·) rest_eq]
      rfl
    | outputAlone =>
      cases rest with
      | nil => rfl
      | cons next rest => exact absurd rfl (complete .outputAlone List.mem_cons_self)
    | color mode =>
      have different := append_ne_outputOption "--color=" (by decide) mode
      rw [Group.arguments, List.singleton_append, Group.cut_cons different, rest_eq,
        Group.ofArgument_color]
    | limit text =>
      have different := append_ne_outputOption "--error-limit=" (by decide) text
      rw [Group.arguments, List.singleton_append, Group.cut_cons different, rest_eq,
        Group.ofArgument_limit]
    | option argument =>
      rw [Group.arguments, List.singleton_append, Group.cut_cons first_genuine.2.1, rest_eq,
        Group.ofArgument_option first_genuine]
    | input path =>
      have different : path ≠ outputOption := by
        rintro rfl
        exact first_genuine rfl
      rw [Group.arguments, List.singleton_append, Group.cut_cons different, rest_eq,
        Group.ofArgument_input first_genuine]

/-- Changing the places of complete neighbours of a cut gives a cut. -/
theorem Cut.swap
    {arguments : List String}
    {earlier later : List Group}
    {first second : Group}
    (cut : Cut arguments (earlier ++ first :: second :: later))
    (first_complete : first.Complete)
    (second_complete : second.Complete) :
    Cut ((earlier ++ second :: first :: later).flatMap Group.arguments)
      (earlier ++ second :: first :: later) where
  spelled := rfl
  genuine group member := by
    have permuted :
        (earlier ++ second :: first :: later).Perm (earlier ++ first :: second :: later) :=
      (List.Perm.swap first second later).append_left earlier
    exact cut.genuine group (permuted.mem_iff.mp member)
  complete group member := by
    have complete := cut.complete
    rw [List.dropLast_append_of_ne_nil (by simp)] at complete member
    rcases List.mem_append.mp member with before | after
    · exact complete group (List.mem_append_left _ before)
    · cases later with
      | nil =>
        rw [List.mem_singleton.mp after]
        exact second_complete
      | cons next rest =>
        rcases List.mem_cons.mp after with rfl | after
        · exact second_complete
        · rcases List.mem_cons.mp after with rfl | after
          · exact first_complete
          · refine complete group (List.mem_append_right _ ?_)
            exact List.mem_cons_of_mem _ (List.mem_cons_of_mem _ after)

/-! ## Valid groups -/

/-- The name of a colour mode. -/
def modeName : ColorMode -> String
  | .auto => "auto"
  | .always => "always"
  | .never => "never"

/-- A text writes a limit with decimal digits, perhaps after one plus sign. -/
inductive WritesLimit : String -> Nat -> Prop
  | plain {digits : List Char}
      (nonempty : digits ≠ [])
      (run : ∀ digit ∈ digits, Lexeme.isDigit digit = true)
      (small : Lexeme.numeral 10 digits < 2 ^ 64) :
      WritesLimit (String.ofList digits) (Lexeme.numeral 10 digits)
  | signed {digits : List Char}
      (nonempty : digits ≠ [])
      (run : ∀ digit ∈ digits, Lexeme.isDigit digit = true)
      (small : Lexeme.numeral 10 digits < 2 ^ 64) :
      WritesLimit (String.ofList ('+' :: digits)) (Lexeme.numeral 10 digits)

theorem colorMode?_eq_some
    {mode : String}
    {color : ColorMode} :
    colorMode? mode = some color ↔ mode = modeName color := by
  constructor
  · intro named
    unfold colorMode? at named
    split at named <;> cases named <;> rfl
  · rintro rfl
    cases color <;> rfl

/-- Reading digits from the left, each after ten times what came before, gives a value exactly if
all of them are digits. -/
theorem foldlM_digits
    {characters : List Char}
    {start value : Nat} :
    characters.foldlM
        (fun value digit =>
          if '0' <= digit ∧ digit <= '9' then some (10 * value + (digit.toNat - '0'.toNat))
          else none)
        start = some value ↔
      (∀ digit ∈ characters, Lexeme.isDigit digit = true) ∧
        value =
          characters.foldl (fun total digit => 10 * total + Lexeme.digitValue digit) start := by
  induction characters generalizing start with
  | nil =>
    constructor
    · rintro ⟨⟩
      exact ⟨by simp, rfl⟩
    · rintro ⟨-, rfl⟩
      rfl
  | cons digit rest inductionHypothesis =>
    have isDigit_iff : Lexeme.isDigit digit = true ↔ '0' <= digit ∧ digit <= '9' := by
      simp [Lexeme.isDigit]
    rw [List.foldlM_cons, List.foldl_cons, List.forall_mem_cons, isDigit_iff]
    by_cases decimal : '0' <= digit ∧ digit <= '9'
    · have value_eq : Lexeme.digitValue digit = digit.toNat - '0'.toNat := by
        rw [Lexeme.digitValue, if_pos (isDigit_iff.mpr decimal)]
      rw [if_pos decimal, Option.bind_eq_bind, Option.bind_some, inductionHypothesis, value_eq]
      simp only [decimal, true_and]
    · rw [if_neg decimal]
      simp [decimal]

theorem digits?_eq_some
    {characters : List Char}
    {value : Nat} :
    digits? characters = some value ↔
      characters ≠ [] ∧ (∀ digit ∈ characters, Lexeme.isDigit digit = true) ∧
        value = Lexeme.numeral 10 characters := by
  rw [← Lexeme.valueOf_eq_numeral, Lexeme.valueOf, ← foldlM_digits, digits?]
  cases characters with
  | nil => simp
  | cons digit rest => simp

/-- The limit that digits write, if it is not too great. -/
theorem filter_digits?
    {characters : List Char}
    {count : Nat} :
    (digits? characters).filter (fun value => value <= greatestLimit) = some count ↔
      characters ≠ [] ∧ (∀ digit ∈ characters, Lexeme.isDigit digit = true) ∧
        count = Lexeme.numeral 10 characters ∧ count < 2 ^ 64 := by
  have small_iff : count <= greatestLimit ↔ count < 2 ^ 64 := Nat.lt_succ_iff.symm
  rw [Option.filter_eq_some_iff, digits?_eq_some, decide_eq_true_iff, small_iff]
  simp only [and_assoc]

theorem limit?_eq_some
    {text : String}
    {count : Nat} :
    limit? text = some count ↔ WritesLimit text count := by
  constructor
  · obtain ⟨characters, rfl⟩ : ∃ characters, text = String.ofList characters :=
      ⟨text.toList, String.ofList_toList.symm⟩
    intro limit_eq
    unfold limit? at limit_eq
    rw [String.toList_ofList] at limit_eq
    split at limit_eq
    next digits =>
      obtain ⟨nonempty, run, rfl, small⟩ := filter_digits?.mp limit_eq
      exact .signed nonempty run small
    next =>
      obtain ⟨nonempty, run, rfl, small⟩ := filter_digits?.mp limit_eq
      exact .plain nonempty run small
  · intro writes
    unfold limit?
    cases writes with
    | plain nonempty run small =>
      rw [String.toList_ofList]
      split
      next rest =>
        -- A plus sign is no digit.
        exact absurd (run '+' List.mem_cons_self) (by decide)
      next => exact filter_digits?.mpr ⟨nonempty, run, rfl, small⟩
    | signed nonempty run small =>
      rw [String.toList_ofList]
      exact filter_digits?.mpr ⟨nonempty, run, rfl, small⟩

/-- A group that asks for something the options can hold. -/
inductive Group.Valid : Group -> Prop
  | output (path : String) : Valid (.output path)
  | color (color : ColorMode) : Valid (.color (modeName color))
  | limit {text : String} {count : Nat}
      (writes : WritesLimit text count) :
      Valid (.limit text)
  | input (path : String) : Valid (.input path)

/-- The groups of a kind, in their order. -/
def ofKind (kind : Group.Kind) (groups : List Group) : List Group :=
  groups.filter fun group => group.kind = kind

/-- What is wrong with a group that stands after others.  An input is wrong only after another
one. -/
inductive Group.Faulty (earlier : List Group) : Group -> ArgumentError -> Prop
  | outputAlone : Faulty earlier .outputAlone .noOutputPath
  | color {mode : String}
      (unknown : ∀ color, mode ≠ modeName color) :
      Faulty earlier (.color mode) (.unknownColor mode)
  | limit {text : String}
      (bad : ∀ count, ¬WritesLimit text count) :
      Faulty earlier (.limit text) (.badLimit text)
  | option (argument : String) : Faulty earlier (.option argument) (.unknownOption argument)
  | input {path : String}
      (again : ofKind .input earlier ≠ []) :
      Faulty earlier (.input path) (.secondInput path)

/-- No group is bad where it stands. -/
def Faultless (groups : List Group) : Prop :=
  ∀ earlier group later, groups = earlier ++ group :: later -> ∀ error, ¬group.Faulty earlier error

/-- The first group from the left that is bad where it stands is bad for this reason. -/
def FirstFault (groups : List Group) (error : ArgumentError) : Prop :=
  ∃ earlier bad later, groups = earlier ++ bad :: later ∧ Faultless earlier ∧
    bad.Faulty earlier error

theorem Group.Faulty.unique
    {earlier : List Group}
    {group : Group}
    {first second : ArgumentError}
    (one : group.Faulty earlier first)
    (other : group.Faulty earlier second) :
    first = second := by
  cases one <;> cases other <;> rfl

/-- A valid group is bad only as a second input. -/
theorem Group.Valid.not_faulty
    {earlier : List Group}
    {group : Group}
    (valid : group.Valid)
    (room : group.kind = .input -> ofKind .input earlier = [])
    (error : ArgumentError) :
    ¬group.Faulty earlier error := by
  intro faulty
  cases faulty with
  | outputAlone => cases valid
  | color unknown =>
    cases valid with
    | color color => exact unknown color rfl
  | limit bad =>
    cases valid with
    | limit writes => exact bad _ writes
  | option argument => cases valid
  | input again => exact again (room rfl)

/-- Valid groups of which at most one is an input are all good where they stand. -/
theorem faultless_of_valid
    {groups : List Group}
    (valid : ∀ group ∈ groups, group.Valid)
    (single : (ofKind .input groups).length ≤ 1) :
    Faultless groups := by
  rintro earlier group later rfl error
  refine (valid group (by simp)).not_faulty (fun isInput => ?_) error
  rw [ofKind, List.filter_append, List.filter_cons_of_pos (by simpa using isInput),
    List.length_append, List.length_cons] at single
  exact List.eq_nil_of_length_eq_zero (by rw [ofKind]; omega)

theorem FirstFault.not_faultless
    {groups : List Group}
    {error : ArgumentError}
    (fault : FirstFault groups error) :
    ¬Faultless groups := by
  obtain ⟨earlier, bad, later, split, -, faulty⟩ := fault
  exact fun faultless => faultless earlier bad later split error faulty

end Command
end MiniLang
