import MiniLang.Proofs.Command.Groups

/-!
# The order of arguments

Groups are taken in from left to right, and what has been taken in is always told by the groups of
each kind: the only input, and for every other setting the last group of its kind.  So an invocation
succeeds exactly if every group is valid and one of them is an input, groups of different kinds can
change places, and a failure is that of the first group that is bad where it stands.
-/

namespace MiniLang
namespace Command

open Diagnostic (ColorMode)

/-! ## Taking groups in -/

section Settled

variable {α : Type} {sets : Group -> α -> Prop} {kind : Group.Kind} {default : α}
  {groups : List Group} {group : Group} {value : α}

/-- A setting has the value of the last group of its kind, or its default if there is none. -/
def Settled (sets : Group -> α -> Prop) (kind : Group.Kind) (default : α) (groups : List Group)
    (value : α) : Prop :=
  match (ofKind kind groups).getLast? with
  | some group => sets group value
  | none => value = default

theorem ofKind_concat_of_eq (same : group.kind = kind) :
    ofKind kind (groups ++ [group]) = ofKind kind groups ++ [group] := by
  rw [ofKind, List.filter_append, List.filter_cons_of_pos (by simpa using same)]
  rfl

theorem ofKind_concat_of_ne (different : group.kind ≠ kind) :
    ofKind kind (groups ++ [group]) = ofKind kind groups := by
  rw [ofKind, List.filter_append, List.filter_cons_of_neg (by simpa using different)]
  exact List.append_nil _

theorem settled_nil : Settled sets kind default [] default :=
  rfl

/-- A group of the kind settles the value, whatever it was before. -/
theorem settled_concat
    (same : group.kind = kind)
    (given : sets group value) :
    Settled sets kind default (groups ++ [group]) value := by
  rw [Settled, ofKind_concat_of_eq same, List.getLast?_concat]
  exact given

/-- A group of another kind leaves the value alone. -/
theorem Settled.concat
    (settled : Settled sets kind default groups value)
    (different : group.kind ≠ kind) :
    Settled sets kind default (groups ++ [group]) value := by
  rw [Settled, ofKind_concat_of_ne different]
  exact settled

theorem Settled.unique
    (functional : ∀ group first second, sets group first -> sets group second -> first = second)
    {other : α}
    (first : Settled sets kind default groups value)
    (second : Settled sets kind default groups other) :
    value = other := by
  unfold Settled at first second
  cases last : (ofKind kind groups).getLast? with
  | none =>
    rw [last] at first second
    exact first.trans second.symm
  | some group =>
    rw [last] at first second
    exact functional group value other first second

end Settled

/-- A group names the output by its path. -/
def Group.SetsOutput (group : Group) (output? : Option String) : Prop :=
  ∃ path, group = .output path ∧ output? = some path

/-- A group names a colour mode. -/
def Group.SetsColor (group : Group) (color : ColorMode) : Prop :=
  group = .color (modeName color)

/-- A group writes a limit. -/
def Group.SetsLimit (group : Group) (limit : Nat) : Prop :=
  ∃ text, group = .limit text ∧ WritesLimit text limit

/-- The settings after groups: all of them were valid and at most one is an input. -/
structure Reflects (groups : List Group) (settings : Settings) : Prop where
  valid : ∀ group ∈ groups, group.Valid
  input : ofKind .input groups = settings.input?.toList.map .input
  output : Settled Group.SetsOutput .output none groups settings.output?
  color : Settled Group.SetsColor .color .auto groups settings.color
  limit : Settled Group.SetsLimit .limit 0 groups settings.limit

namespace Reflects

variable {groups : List Group} {settings : Settings}

theorem start : Reflects [] {} :=
  ⟨by simp, rfl, settled_nil, settled_nil, settled_nil⟩

theorem faultless (reflects : Reflects groups settings) : Faultless groups := by
  refine faultless_of_valid reflects.valid ?_
  rw [reflects.input, List.length_map]
  cases settings.input? <;> simp

/-- A valid group is one more of the valid ones. -/
theorem valid_concat
    (reflects : Reflects groups settings)
    {group : Group}
    (valid : group.Valid) :
    ∀ other ∈ groups ++ [group], other.Valid := by
  intro other member
  rcases List.mem_append.mp member with earlier | last
  · exact reflects.valid other earlier
  · rw [List.mem_singleton.mp last]
    exact valid

/-- One group is either taken in or bad where it stands. -/
theorem step
    (reflects : Reflects groups settings)
    (group : Group) :
    (∃ next, settings.add group = .ok next ∧ Reflects (groups ++ [group]) next) ∨
      ∃ error, settings.add group = .error error ∧ group.Faulty groups error := by
  cases group with
  | output path =>
    exact .inl ⟨_, rfl,
      { valid := reflects.valid_concat (.output path)
        input := (ofKind_concat_of_ne (by simp [Group.kind])).trans reflects.input
        output := settled_concat rfl ⟨path, rfl, rfl⟩
        color := reflects.color.concat (by simp [Group.kind])
        limit := reflects.limit.concat (by simp [Group.kind]) }⟩
  | outputAlone => exact .inr ⟨_, rfl, .outputAlone⟩
  | color mode =>
    cases named : colorMode? mode with
    | none =>
      refine .inr ⟨_, by rw [Settings.add, named], .color fun color same => ?_⟩
      rw [colorMode?_eq_some.mpr same] at named
      cases named
    | some color =>
      have mode_eq := colorMode?_eq_some.mp named
      exact .inl ⟨{ settings with color := color }, by rw [Settings.add, named],
        { valid := reflects.valid_concat (mode_eq ▸ .color color)
          input := (ofKind_concat_of_ne (by simp [Group.kind])).trans reflects.input
          output := reflects.output.concat (by simp [Group.kind])
          color := settled_concat rfl (congrArg Group.color mode_eq)
          limit := reflects.limit.concat (by simp [Group.kind]) }⟩
  | limit text =>
    cases read : limit? text with
    | none =>
      refine .inr ⟨_, by rw [Settings.add, read], .limit fun count writes => ?_⟩
      rw [limit?_eq_some.mpr writes] at read
      cases read
    | some count =>
      have writes := limit?_eq_some.mp read
      exact .inl ⟨{ settings with limit := count }, by rw [Settings.add, read],
        { valid := reflects.valid_concat (.limit writes)
          input := (ofKind_concat_of_ne (by simp [Group.kind])).trans reflects.input
          output := reflects.output.concat (by simp [Group.kind])
          color := reflects.color.concat (by simp [Group.kind])
          limit := settled_concat rfl ⟨text, rfl, writes⟩ }⟩
  | option argument => exact .inr ⟨_, rfl, .option argument⟩
  | input path =>
    cases held : settings.input? with
    | none =>
      have none_before : ofKind .input groups = [] := by
        rw [reflects.input, held]
        rfl
      have isInput : (Group.input path).kind = .input := rfl
      have only_input : ofKind .input (groups ++ [.input path]) = [.input path] := by
        rw [ofKind_concat_of_eq isInput, none_before, List.nil_append]
      exact .inl ⟨{ settings with input? := some path }, by rw [Settings.add, held],
        { valid := reflects.valid_concat (.input path)
          input := only_input
          output := reflects.output.concat (by simp [Group.kind])
          color := reflects.color.concat (by simp [Group.kind])
          limit := reflects.limit.concat (by simp [Group.kind]) }⟩
    | some first =>
      refine .inr ⟨_, by rw [Settings.add, held], .input ?_⟩
      rw [reflects.input, held]
      simp

/-- Groups are all taken in, or the first bad one of them ends it. -/
theorem run
    (reflects : Reflects groups settings)
    (more : List Group) :
    (∃ last, more.foldlM Settings.add settings = .ok last ∧ Reflects (groups ++ more) last) ∨
      ∃ error, more.foldlM Settings.add settings = .error error ∧
        FirstFault (groups ++ more) error := by
  -- The groups that were taken in are those before which the next one stands.
  induction more generalizing groups settings with
  | nil =>
    refine .inl ⟨settings, rfl, ?_⟩
    rw [List.append_nil]
    exact reflects
  | cons group rest inductionHypothesis =>
    rw [List.foldlM_cons]
    rcases reflects.step group with ⟨next, added, nextReflects⟩ | ⟨error, fails, faulty⟩
    · rw [added, List.append_cons]
      exact inductionHypothesis nextReflects
    · rw [fails]
      exact .inr ⟨error, rfl, groups, group, rest, rfl, reflects.faultless, faulty⟩

end Reflects

/-- Groups are all taken in from the start, or the first bad one of them ends it. -/
theorem taken_or_firstFault (groups : List Group) :
    (∃ settings, groups.foldlM Settings.add {} = .ok settings ∧ Reflects groups settings) ∨
      ∃ error, groups.foldlM Settings.add {} = .error error ∧ FirstFault groups error :=
  Reflects.start.run groups

/-- The first fault ends taking in the groups, whatever comes after it. -/
theorem FirstFault.foldlM_eq
    {groups : List Group}
    {error : ArgumentError}
    (fault : FirstFault groups error) :
    groups.foldlM Settings.add {} = .error error := by
  obtain ⟨earlier, bad, later, rfl, faultless, faulty⟩ := fault
  -- What stands before the bad group is taken in, as no group there ends it sooner.
  rcases taken_or_firstFault earlier with ⟨settings, taken, reflects⟩ | ⟨other, -, sooner⟩
  · rcases reflects.step bad with ⟨next, -, nextReflects⟩ | ⟨other, fails, also⟩
    · exact absurd faulty (nextReflects.faultless earlier bad [] rfl error)
    · rw [List.foldlM_append, taken, faulty.unique also]
      change settings.add bad >>= _ = _
      rw [fails]
      rfl
  · exact absurd faultless sooner.not_faultless

/-! ## Options -/

/-- The options that groups ask for: every group is valid, one of them is the input, and the other
settings have the values of the last groups of their kinds or their defaults. -/
structure Meets (groups : List Group) (options : Options) : Prop where
  valid : ∀ group ∈ groups, group.Valid
  input : ofKind .input groups = [.input options.input]
  output : Settled Group.SetsOutput .output none groups options.output?
  color : Settled Group.SetsColor .color .auto groups options.color
  limit : Settled Group.SetsLimit .limit 0 groups options.limit

namespace Meets

variable {groups : List Group} {options : Options}

theorem unique
    (meets : Meets groups options)
    {other : Options}
    (also : Meets groups other) :
    options = other := by
  have input_eq : options.input = other.input := by
    have same := meets.input.symm.trans also.input
    simpa using same
  have output_eq : options.output? = other.output? := by
    refine meets.output.unique ?_ also.output
    rintro _ _ _ ⟨first, rfl, rfl⟩ ⟨second, same, rfl⟩
    rw [Group.output.inj same]
  have color_eq : options.color = other.color := by
    refine meets.color.unique ?_ also.color
    rintro _ first second rfl same
    exact Option.some.inj ((colorMode?_eq_some.mpr rfl).symm.trans
      (colorMode?_eq_some.mpr (Group.color.inj same)))
  have limit_eq : options.limit = other.limit := by
    refine meets.limit.unique ?_ also.limit
    rintro _ first second ⟨text, rfl, one⟩ ⟨_, same, two⟩
    rw [← Group.limit.inj same] at two
    exact Option.some.inj ((limit?_eq_some.mpr one).symm.trans (limit?_eq_some.mpr two))
  cases options
  cases other
  simp only [Options.mk.injEq]
  exact ⟨input_eq, output_eq, color_eq, limit_eq⟩

/-- Only the groups of each kind and their order count. -/
theorem of_sameKinds
    (meets : Meets groups options)
    {others : List Group}
    (same : ∀ kind, ofKind kind others = ofKind kind groups) :
    Meets others options where
  valid group member := by
    have among : group ∈ ofKind group.kind others := List.mem_filter.mpr ⟨member, by simp⟩
    rw [same] at among
    exact meets.valid group (List.mem_filter.mp among).1
  input := (same .input).trans meets.input
  output := by rw [Settled, same]; exact meets.output
  color := by rw [Settled, same]; exact meets.color
  limit := by rw [Settled, same]; exact meets.limit

end Meets

/-- Neighbours of different kinds can change places among the groups of each kind. -/
theorem ofKind_swap
    {first second : Group}
    (different : first.kind ≠ second.kind)
    (earlier later : List Group)
    (kind : Group.Kind) :
    ofKind kind (earlier ++ second :: first :: later) =
      ofKind kind (earlier ++ first :: second :: later) := by
  simp only [ofKind, List.filter_append, List.filter_cons, decide_eq_true_eq]
  by_cases isFirst : first.kind = kind
  · have notSecond : second.kind ≠ kind := fun isSecond => different (isFirst.trans isSecond.symm)
    rw [if_pos isFirst, if_neg notSecond, if_neg notSecond, if_pos isFirst]
  · rw [if_neg isFirst, if_neg isFirst]

namespace Options

/-- Taking in the arguments ends with the first fault, with no input, or with the options that the
groups ask for. -/
theorem ofArguments_cases (arguments : List String) :
    (∃ error, ofArguments arguments = .error error ∧ FirstFault (Group.cut arguments) error) ∨
      (ofArguments arguments = .error .noInput ∧ Faultless (Group.cut arguments) ∧
        ofKind .input (Group.cut arguments) = []) ∨
      ∃ options, ofArguments arguments = .ok options ∧ Meets (Group.cut arguments) options := by
  unfold ofArguments
  rcases taken_or_firstFault (Group.cut arguments) with
    ⟨settings, taken, reflects⟩ | ⟨error, fails, fault⟩
  · rw [taken]
    have input_eq := reflects.input
    cases held : settings.input? with
    | none =>
      rw [held] at input_eq
      refine .inr (.inl ⟨?_, reflects.faultless, input_eq⟩)
      simp [bind, Except.bind, held, throw, throwThe, MonadExceptOf.throw]
    | some input =>
      rw [held] at input_eq
      refine .inr (.inr ⟨⟨input, settings.output?, settings.color, settings.limit⟩, ?_,
        reflects.valid, input_eq, reflects.output, reflects.color, reflects.limit⟩)
      simp [bind, Except.bind, held, pure, Except.pure]
  · rw [fails]
    exact .inl ⟨error, rfl, fault⟩

theorem ofArguments_eq_ok_iff
    {arguments : List String}
    {options : Options} :
    ofArguments arguments = .ok options ↔ Meets (Group.cut arguments) options := by
  constructor
  · intro succeeds
    rcases ofArguments_cases arguments with ⟨_, fails, -⟩ | ⟨fails, -⟩ | ⟨_, also, meets⟩
    · rw [succeeds] at fails
      cases fails
    · rw [succeeds] at fails
      cases fails
    · rw [succeeds] at also
      cases also
      exact meets
  · intro meets
    rcases ofArguments_cases arguments with ⟨_, -, fault⟩ | ⟨-, -, no_input⟩ | ⟨_, succeeds, also⟩
    · refine absurd (faultless_of_valid meets.valid ?_) fault.not_faultless
      rw [meets.input]
      exact Nat.le_refl 1
    · rw [meets.input] at no_input
      cases no_input
    · rw [meets.unique also]
      exact succeeds

/-- Arguments give options exactly if all groups are valid and one of them is an input. -/
theorem exists_ofArguments_iff
    {arguments : List String} :
    (∃ options, ofArguments arguments = .ok options) ↔
      (∀ group ∈ Group.cut arguments, group.Valid) ∧
        (ofKind .input (Group.cut arguments)).length = 1 := by
  constructor
  · rintro ⟨options, succeeds⟩
    have meets := ofArguments_eq_ok_iff.mp succeeds
    exact ⟨meets.valid, by rw [meets.input]; rfl⟩
  · rintro ⟨valid, single⟩
    rcases ofArguments_cases arguments with ⟨_, -, fault⟩ | ⟨-, -, no_input⟩ |
      ⟨options, succeeds, -⟩
    · exact absurd (faultless_of_valid valid (Nat.le_of_eq single)) fault.not_faultless
    · rw [no_input] at single
      cases single
    · exact ⟨options, succeeds⟩

/-- What is wrong with arguments is what is wrong with the first bad group, or if there is none that
no group is an input. -/
theorem ofArguments_eq_error_iff
    {arguments : List String}
    {error : ArgumentError} :
    ofArguments arguments = .error error ↔
      FirstFault (Group.cut arguments) error ∨
        Faultless (Group.cut arguments) ∧ ofKind .input (Group.cut arguments) = [] ∧
          error = .noInput := by
  constructor
  · intro fails
    rcases ofArguments_cases arguments with ⟨_, also, fault⟩ | ⟨also, faultless, no_input⟩ |
      ⟨_, succeeds, -⟩
    · rw [fails] at also
      cases also
      exact .inl fault
    · rw [fails] at also
      cases also
      exact .inr ⟨faultless, no_input, rfl⟩
    · rw [fails] at succeeds
      cases succeeds
  · rintro (fault | ⟨faultless, no_input, rfl⟩)
    · unfold ofArguments
      rw [fault.foldlM_eq]
      rfl
    · rcases ofArguments_cases arguments with ⟨_, -, fault⟩ | ⟨fails, -⟩ | ⟨_, -, meets⟩
      · exact absurd faultless fault.not_faultless
      · exact fails
      · rw [meets.input] at no_input
        cases no_input

end Options

/-- A missing input is no fault of a group. -/
theorem not_firstFault_noInput (groups : List Group) : ¬FirstFault groups .noInput := by
  rintro ⟨earlier, bad, later, -, -, faulty⟩
  cases faulty

/-- Arguments have one cut into groups.  They give options exactly if every group is valid and one
of them is an input; the options then hold this input and, for every other setting, the value of the
last group of its kind or the default.  The error is otherwise that of the first group from the left
that is bad where it stands, and the input is said to be missing only if there is no such group.
Neighbouring complete groups of different kinds can change places: the arguments give the same
options as before, or none as before. -/
theorem options_follow_groups
    (arguments : List String) :
    ∃ groups,
      (Cut arguments groups ∧ ∀ others, Cut arguments others -> others = groups) ∧
      ((∃ options, Options.ofArguments arguments = .ok options) ↔
        (∀ group ∈ groups, group.Valid) ∧ (ofKind .input groups).length = 1) ∧
      (∀ options, Options.ofArguments arguments = .ok options ↔ Meets groups options) ∧
      (∀ error, Options.ofArguments arguments = .error error ↔
        FirstFault groups error ∨
          Faultless groups ∧ ofKind .input groups = [] ∧ error = .noInput) ∧
      (Options.ofArguments arguments = .error .noInput -> Faultless groups) ∧
      (∀ earlier first second later,
        groups = earlier ++ first :: second :: later ->
        first.Complete -> second.Complete -> first.kind ≠ second.kind ->
        Cut ((earlier ++ second :: first :: later).flatMap Group.arguments)
            (earlier ++ second :: first :: later) ∧
          ∀ options,
            Options.ofArguments ((earlier ++ second :: first :: later).flatMap Group.arguments) =
                .ok options ↔
              Options.ofArguments arguments = .ok options) := by
  refine ⟨Group.cut arguments, ⟨cut_cut arguments, fun others cut => cut.cut_eq.symm⟩,
    Options.exists_ofArguments_iff, fun options => Options.ofArguments_eq_ok_iff,
    fun error => Options.ofArguments_eq_error_iff, fun missing => ?_, ?_⟩
  · rcases Options.ofArguments_eq_error_iff.mp missing with fault | ⟨faultless, -⟩
    · exact absurd fault (not_firstFault_noInput _)
    · exact faultless
  · intro earlier first second later cut_eq first_complete second_complete different
    have swapped := (cut_eq ▸ cut_cut arguments).swap first_complete second_complete
    refine ⟨swapped, fun options => ?_⟩
    rw [Options.ofArguments_eq_ok_iff, Options.ofArguments_eq_ok_iff, swapped.cut_eq, cut_eq]
    have same := ofKind_swap different earlier later
    exact ⟨fun meets => meets.of_sameKinds fun kind => (same kind).symm,
      fun meets => meets.of_sameKinds same⟩

/-- The output option takes what looks like another option, the limit may have a sign, and the last
colour counts.  Putting the limit first changes nothing. -/
theorem limit_before_output :
    Cut ["-o", "--color=never", "--error-limit=+07", "--color=auto", "a", "--color=always"]
        [.output "--color=never", .limit "+07", .color "auto", .input "a", .color "always"] ∧
      Options.ofArguments
          ["--error-limit=+07", "-o", "--color=never", "--color=auto", "a", "--color=always"] =
        .ok ⟨"a", some "--color=never", .always, 7⟩ := by
  have cut : Cut ["-o", "--color=never", "--error-limit=+07", "--color=auto", "a", "--color=always"]
      [.output "--color=never", .limit "+07", .color "auto", .input "a", .color "always"] :=
    ⟨rfl, by simp [Group.Genuine], by simp [Group.Complete]⟩
  obtain ⟨groups, ⟨-, unique⟩, -, -, -, -, swap⟩ := options_follow_groups
    ["-o", "--color=never", "--error-limit=+07", "--color=auto", "a", "--color=always"]
  have swapped := swap [] _ _ _ (unique _ cut).symm (by simp [Group.Complete])
    (by simp [Group.Complete]) (by simp [Group.kind])
  exact ⟨cut, (swapped.2 _).mpr (by decide +kernel)⟩

end Command
end MiniLang
