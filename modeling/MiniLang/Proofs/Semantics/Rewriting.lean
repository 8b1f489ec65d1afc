import Mathlib.Order.Monotone.Basic
import MiniLang.Proofs.Semantics.Ordering
import MiniLang.Proofs.Semantics.Preservation

/-!
# Replacing tests for inequality

In the place of a test for inequality there may be a test for equality and the complement of its
result.  This takes one more register, so that all registers given from there on are shifted.

Two routines that differ only so run side by side: where one machine is about to test for inequality
the other takes two steps, and else each takes one.  In between the world is the same, and so is
everything that is read and written, unless a real that is not a number is tested.
-/

namespace MiniLang

/-! ## Shifted registers -/

/-- Where a register comes to be if one more is given before each marked one.  The marks are those of
the registers from the first on. -/
def shifted (marks : List Bool) (register : Nat) : Nat :=
  register + (marks.take register).count true

theorem shifted_strictMono
    (marks : List Bool) :
    StrictMono (shifted marks) := by
  intro register other less
  have counted : (marks.take register).count true ≤ (marks.take other).count true :=
    (List.take_sublist_take_left (Nat.le_of_lt less)).count_le true
  exact Nat.add_lt_add_of_lt_of_le less counted

/-- The registers up to the last that is marked. -/
theorem shifted_length
    (before after : List Bool) :
    shifted (before ++ after) before.length = before.length + before.count true := by
  rw [shifted, List.take_left]

theorem shifted_length_succ
    (before after : List Bool)
    (mark : Bool) :
    shifted (before ++ mark :: after) (before.length + 1) =
      before.length + before.count true + mark.toNat + 1 := by
  have front : before ++ mark :: after = (before ++ [mark]) ++ after := by simp
  have known := shifted_length (before ++ [mark]) after
  rw [List.length_append, List.count_append] at known
  rw [front]
  refine known.trans ?_
  cases mark <;> simp <;> omega

/-- The register before a marked one is no shifted register. -/
theorem shifted_ne
    (before after : List Bool)
    (register : Nat) :
    shifted (before ++ true :: after) register ≠ before.length + before.count true + 1 := by
  have strict := shifted_strictMono (before ++ true :: after)
  have lower := shifted_length before (true :: after)
  have upper := shifted_length_succ before after true
  rw [Bool.toNat_true] at upper
  rcases Nat.lt_or_ge before.length register with later | earlier
  · have bounded := strict.monotone (Nat.succ_le_of_lt later)
    rw [Nat.succ_eq_add_one, upper] at bounded
    omega
  · have bounded := strict.monotone earlier
    rw [lower] at bounded
    omega

/-- An operand with other registers. -/
def Operand.shift (place : Register -> Register) : Operand -> Operand
  | .register number => .register (place number)
  | other => other

/-- An instruction with other registers. -/
def Instr.shift (place : Register -> Register) : Instr -> Instr
  | .load target type name => .load (place target) type name
  | .store type value name => .store type (value.shift place) name
  | .operate target operation left right =>
      .operate (place target) operation (left.shift place) (right.shift place)
  | .fneg target value => .fneg (place target) (value.shift place)
  | .convert target conversion value => .convert (place target) conversion (value.shift place)
  | .phi target first firstFrom second secondFrom =>
      .phi (place target) (first.shift place) firstFrom (second.shift place) secondFrom
  | .select target condition yes no => .select (place target) (condition.shift place) yes no
  | .print template type value => .print template type (value.shift place)
  | .printSelected format => .printSelected (place format)
  | .fork condition yes no => .fork (condition.shift place) yes no
  | other => other

/-- A line with other registers. -/
def Item.shift (place : Register -> Register) : Item -> Item
  | .label opened => .label opened
  | .instr instruction => .instr (instruction.shift place)

/-- Whether a register is marked. -/
def Marked (marks : List Bool) (register : Register) : Prop :=
  marks[register - 1]? = some true

/-- Lines in which tests for inequality that define marked registers are replaced, and all registers
are shifted. -/
inductive Rewrites (marks : List Bool) : List Item -> List Item -> Prop where
  | nil : Rewrites marks [] []
  | kept (item : Item) {rest rest' : List Item}
      (others : Rewrites marks rest rest') :
      Rewrites marks (item :: rest) (item.shift (shifted marks) :: rest')
  | replaced {target fresh : Register} {operation : Operation} (left right : Operand)
      {rest rest' : List Item}
      (inequality : operation.isInequality = true)
      (marked : Marked marks target)
      (new : ∀ register, shifted marks register ≠ fresh)
      (others : Rewrites marks rest rest') :
      Rewrites marks (.instr (.operate target operation left right) :: rest)
        (.instr (.operate fresh operation.equality (left.shift (shifted marks))
            (right.shift (shifted marks))) ::
          .instr (.operate (shifted marks target) (.calculate .xor .bool) (.register fresh)
            (.bool true)) :: rest')

theorem after?_instr
    (target : Label)
    (instr : Instr)
    (rest : List Item) :
    Item.after? target (.instr instr :: rest) = Item.after? target rest := by
  rw [Item.after?, if_neg (by simp)]

namespace Rewrites

variable {marks : List Bool} {items items' : List Item}

theorem append
    {more more' : List Item}
    (first : Rewrites marks items items')
    (second : Rewrites marks more more') :
    Rewrites marks (items ++ more) (items' ++ more') := by
  induction first with
  | nil => exact second
  | kept item others inductionHypothesis => exact .kept item inductionHypothesis
  | replaced left right inequality marked new others inductionHypothesis =>
      exact .replaced left right inequality marked new inductionHypothesis

/-- Lines of which none is replaced. -/
theorem of_map
    (marks : List Bool)
    (items : List Item) :
    Rewrites marks items (items.map (Item.shift (shifted marks))) := by
  induction items with
  | nil => exact .nil
  | cons item items inductionHypothesis => exact .kept item inductionHypothesis

/-- The lines after a label correspond. -/
theorem after?
    (rewrites : Rewrites marks items items')
    (target : Label) :
    Option.Rel (Rewrites marks) (Item.after? target items) (Item.after? target items') := by
  induction rewrites with
  | nil => exact .none
  | kept item others inductionHypothesis =>
      cases item with
      | label opened =>
          rw [Item.shift, Item.after?, Item.after?]
          split
          · exact .some others
          · exact inductionHypothesis
      | instr instruction =>
          rw [Item.shift, after?_instr, after?_instr]
          exact inductionHypothesis
  | replaced _ _ _ _ _ _ inductionHypothesis =>
      rw [after?_instr, after?_instr, after?_instr]
      exact inductionHypothesis

end Rewrites

section Relations

variable {α β γ : Type} {related : β -> γ -> Prop}

theorem rel_bind
    (option : Option α)
    {next : α -> Option β}
    {next' : α -> Option γ}
    (each : ∀ result, Option.Rel related (next result) (next' result)) :
    Option.Rel related (option >>= next) (option >>= next') := by
  cases option with
  | none => exact .none
  | some result => exact each result

theorem rel_ite
    (condition : Prop)
    [Decidable condition]
    {yes : Option β}
    {yes' : Option γ}
    (holds : Option.Rel related yes yes') :
    Option.Rel related (if condition then yes else none) (if condition then yes' else none) := by
  split
  · exact holds
  · exact .none

end Relations

namespace Machine

variable {env : Environment} {code code' : CodeModule} {marks : List Bool}

/-- A machine has the same world as another and the registers of the other shifted, and is about to
run the other's lines with tests replaced. -/
structure Mirrors (marks : List Bool) (machine mirror : Machine) : Prop where
  block_eq : mirror.block = machine.block
  origin_eq : mirror.origin = machine.origin
  world_eq : mirror.world = machine.world
  registers_eq : ∀ register, mirror.registers (shifted marks register) = machine.registers register
  rest : Rewrites marks machine.rest mirror.rest

namespace Mirrors

variable {machine mirror : Machine}

theorem value?_eq
    (mirrors : Mirrors marks machine mirror)
    (operand : Operand) :
    (operand.shift (shifted marks)).value? mirror.registers = operand.value? machine.registers := by
  cases operand with
  | register number =>
      rw [Operand.shift, Operand.value?, Operand.value?, mirrors.registers_eq]
  | _ => rfl

theorem define
    (mirrors : Mirrors marks machine mirror)
    (target : Register)
    (cell : Cell) :
    Mirrors marks (machine.define target cell) (mirror.define (shifted marks target) cell) where
  block_eq := mirrors.block_eq
  origin_eq := mirrors.origin_eq
  world_eq := mirrors.world_eq
  registers_eq := by
    intro register
    simp only [Machine.define, (shifted_strictMono marks).injective.eq_iff, mirrors.registers_eq]
  rest := mirrors.rest

/-- A register that is no shifted one may hold anything. -/
theorem define_new
    (mirrors : Mirrors marks machine mirror)
    {fresh : Register}
    (new : ∀ register, shifted marks register ≠ fresh)
    (cell : Cell) :
    Mirrors marks machine (mirror.define fresh cell) where
  block_eq := mirrors.block_eq
  origin_eq := mirrors.origin_eq
  world_eq := mirrors.world_eq
  registers_eq := by
    intro register
    simp only [Machine.define, if_neg (new register), mirrors.registers_eq]
  rest := mirrors.rest

theorem hold
    (mirrors : Mirrors marks machine mirror)
    (name : String)
    (value : Value) :
    Mirrors marks (machine.hold name value) (mirror.hold name value) where
  block_eq := mirrors.block_eq
  origin_eq := mirrors.origin_eq
  world_eq := by rw [Machine.hold, Machine.hold, mirrors.world_eq]
  registers_eq := mirrors.registers_eq
  rest := mirrors.rest

theorem note
    (mirrors : Mirrors marks machine mirror)
    (event : Event) :
    Mirrors marks (machine.note event) (mirror.note event) where
  block_eq := mirrors.block_eq
  origin_eq := mirrors.origin_eq
  world_eq := by rw [Machine.note, Machine.note, mirrors.world_eq]
  registers_eq := mirrors.registers_eq
  rest := mirrors.rest

/-- The blocks of the two routines correspond. -/
theorem goto?
    (mirrors : Mirrors marks machine mirror)
    (items : Rewrites marks code.items code'.items)
    (target : Label) :
    Option.Rel (Mirrors marks) (machine.goto? code target) (mirror.goto? code' target) := by
  rw [Machine.goto?, Machine.goto?]
  have found := items.after? target
  generalize Item.after? target code.items = rest at found
  generalize Item.after? target code'.items = rest' at found
  cases found with
  | none => exact .none
  | some rewrites =>
      exact .some ⟨rfl, by rw [mirrors.block_eq], mirrors.world_eq, mirrors.registers_eq, rewrites⟩

/-- An instruction with shifted registers does the same, or neither of the two can be done. -/
theorem exec
    (mirrors : Mirrors marks machine mirror)
    (items : Rewrites marks code.items code'.items)
    (texts_eq : code'.texts = code.texts)
    (instr : Instr) :
    Option.Rel (Mirrors marks) (machine.exec env code instr)
      (mirror.exec env code' (instr.shift (shifted marks))) := by
  cases instr with
  | alloca name type =>
      simp only [Machine.exec, Instr.shift, mirrors.world_eq]
      cases machine.world.store name with
      | none => exact .some (mirrors.hold _ _)
      | some held => exact .none
  | load target type name =>
      simp only [Machine.exec, Instr.shift, mirrors.world_eq]
      exact rel_bind _ fun held => rel_ite _ (.some (mirrors.define _ _))
  | store type value name =>
      simp only [Machine.exec, Instr.shift, mirrors.world_eq, mirrors.value?_eq]
      exact rel_bind _ fun given => rel_bind _ fun held => rel_ite _ (.some (mirrors.hold _ _))
  | operate target operation left right =>
      simp only [Machine.exec, Instr.shift, mirrors.value?_eq]
      exact rel_bind _ fun first => rel_bind _ fun second => rel_bind _ fun result =>
        .some (mirrors.define _ _)
  | fneg target value =>
      simp only [Machine.exec, Instr.shift, mirrors.value?_eq]
      split
      · exact .some (mirrors.define _ _)
      · exact .none
  | convert target conversion value =>
      simp only [Machine.exec, Instr.shift, mirrors.value?_eq]
      exact rel_bind _ fun given => rel_bind _ fun result => .some (mirrors.define _ _)
  | phi target first firstFrom second secondFrom =>
      simp only [Machine.exec, Instr.shift, mirrors.origin_eq]
      refine rel_bind _ fun origin => ?_
      have given (operand : Operand) : Option.Rel (Mirrors marks)
          ((operand.value? machine.registers).bind fun given =>
            if given.type = .bool then some (machine.define target (.value given)) else none)
          (((operand.shift (shifted marks)).value? mirror.registers).bind fun given =>
            if given.type = .bool then some (mirror.define (shifted marks target) (.value given))
            else none) := by
        rw [mirrors.value?_eq]
        exact rel_bind _ fun given => rel_ite _ (.some (mirrors.define _ _))
      split
      · exact given first
      · split
        · exact given second
        · exact .none
  | select target condition yes no =>
      simp only [Machine.exec, Instr.shift, mirrors.value?_eq]
      split
      · exact .some (mirrors.define _ _)
      · exact .none
  | print template type value =>
      simp only [Machine.exec, Instr.shift, mirrors.value?_eq]
      exact rel_bind _ fun given => rel_bind _ fun event => rel_ite _ (.some (mirrors.note _))
  | printSelected format =>
      simp only [Machine.exec, Instr.shift, mirrors.registers_eq]
      split
      · next template _ =>
          cases Event.printed? template.text none with
          | none => exact .none
          | some event => exact .some (mirrors.note event)
      · exact .none
  | printText size number =>
      simp only [Machine.exec, Instr.shift, texts_eq]
      exact rel_bind _ fun constant => rel_ite _ (.some (mirrors.note _))
  | scan template name =>
      simp only [Machine.exec, Instr.shift, mirrors.world_eq]
      exact rel_bind _ fun held => rel_bind _ fun scanned =>
        rel_ite _ (.some ((mirrors.hold _ _).note _))
  | jump target => exact mirrors.goto? items target
  | fork condition yes no =>
      simp only [Machine.exec, Instr.shift, mirrors.value?_eq]
      split
      · exact mirrors.goto? items _
      · exact .none
  | ret => exact .none

end Mirrors

/-- The machine is not about to test whether a real that is not a number differs from another, as far
as tests that define marked registers go. -/
def Comparable (marks : List Bool) (machine : Machine) : Prop :=
  ∀ (target : Register) (left right : Operand) (rest : List Item) (first second : Value),
    machine.rest = .instr (.operate target (.compareReal .ne) left right) :: rest ->
    Marked marks target ->
    left.value? machine.registers = some first -> right.value? machine.registers = some second ->
    first.isNaN = false ∧ second.isNaN = false

/-- What a machine and its mirror do next: neither goes on, or each takes a step, or the mirror takes
two and keeps the world in between. -/
inductive Proceeds (env : Environment) (code code' : CodeModule) (marks : List Bool)
    (machine mirror : Machine) : Prop where
  | neither
      (ended : machine.step env code = none)
      (ended' : mirror.step env code' = none)
  | once {next next' : Machine}
      (stepped : machine.step env code = some next)
      (stepped' : mirror.step env code' = some next')
      (mirrors : Mirrors marks next next')
  | twice {next middle next' : Machine}
      (stepped : machine.step env code = some next)
      (stepped' : mirror.step env code' = some middle)
      (world_eq : middle.world = machine.world)
      (stepped'' : middle.step env code' = some next')
      (mirrors : Mirrors marks next next')

theorem step_eq
    {machine : Machine}
    {instr : Instr}
    {rest : List Item}
    (rest_eq : machine.rest = .instr instr :: rest) :
    machine.step env code = exec env code { machine with rest } instr := by
  rw [step, rest_eq]

section Operate

variable {machine : Machine} {target : Register} {operation : Operation} {left right : Operand}
  {rest : List Item}
  (rest_eq : machine.rest = .instr (.operate target operation left right) :: rest)
include rest_eq

/-- An operation defines its result, if there is one. -/
theorem step_operate
    {first second : Value}
    (firstGiven : left.value? machine.registers = some first)
    (secondGiven : right.value? machine.registers = some second) :
    machine.step env code = (operation.apply env first second).map fun result =>
      { machine with rest }.define target (.value result) := by
  rw [step_eq rest_eq]
  simp only [exec, firstGiven, secondGiven]
  change (operation.apply env first second).bind _ = _
  cases operation.apply env first second <;> rfl

/-- An operation needs both of its operands. -/
theorem step_operate_none
    (missing : left.value? machine.registers = none ∨ right.value? machine.registers = none) :
    machine.step env code = none := by
  rw [step_eq rest_eq]
  rcases missing with missing | missing
  · simp only [exec, missing]
    rfl
  · simp only [exec, missing]
    cases left.value? machine.registers <;> rfl

end Operate

namespace Mirrors

variable {machine mirror : Machine}

/-- In the place of a test for inequality the mirror tests for equality, and then takes the
complement. -/
theorem proceeds_replaced
    (mirrors : Mirrors marks machine mirror)
    {target fresh : Register}
    {operation : Operation}
    {left right : Operand}
    {rest rest' : List Item}
    (rest_eq : machine.rest = .instr (.operate target operation left right) :: rest)
    (rest_eq' : mirror.rest = .instr (.operate fresh operation.equality (left.shift (shifted marks))
      (right.shift (shifted marks))) :: .instr (.operate (shifted marks target)
        (.calculate .xor .bool) (.register fresh) (.bool true)) :: rest')
    (new : ∀ register, shifted marks register ≠ fresh)
    (others : Rewrites marks rest rest')
    (opposes : ∀ first second, left.value? machine.registers = some first ->
      right.value? machine.registers = some second ->
      operation.Opposes env operation.equality first second) :
    Proceeds env code code' marks machine mirror := by
  have missing (none_given : left.value? machine.registers = none ∨
      right.value? machine.registers = none) : Proceeds env code code' marks machine mirror :=
    .neither (step_operate_none rest_eq none_given)
      (step_operate_none rest_eq' (by simpa only [mirrors.value?_eq] using none_given))
  cases firstGiven : left.value? machine.registers with
  | none => exact missing (.inl firstGiven)
  | some first =>
      cases secondGiven : right.value? machine.registers with
      | none => exact missing (.inr secondGiven)
      | some second =>
          have stepped : machine.step env code = _ := step_operate rest_eq firstGiven secondGiven
          have stepped' : mirror.step env code' = _ := step_operate rest_eq'
            ((mirrors.value?_eq left).trans firstGiven)
            ((mirrors.value?_eq right).trans secondGiven)
          rcases opposes first second firstGiven secondGiven with
            ⟨truth, other_eq, own_eq⟩ | ⟨other_eq, own_eq⟩
          · rw [own_eq, Option.map_some] at stepped
            rw [other_eq, Option.map_some] at stepped'
            have moved : Mirrors marks { machine with rest } { mirror with rest := rest' } :=
              ⟨mirrors.block_eq, mirrors.origin_eq, mirrors.world_eq, mirrors.registers_eq, others⟩
            have next := (moved.define_new new (.value (.bool truth))).define target
              (.value (.bool !truth))
            have tested : (Operand.register fresh).value? (fun register =>
                if register = fresh then some (.value (.bool truth)) else mirror.registers register) =
                some (.bool truth) := by
              rw [Operand.value?, if_pos rfl]
            refine .twice stepped stepped' mirrors.world_eq ?_ next
            refine (step_operate rfl tested rfl).trans ?_
            cases truth <;> rfl
          · rw [own_eq, Option.map_none] at stepped
            rw [other_eq, Option.map_none] at stepped'
            exact .neither stepped stepped'

/-- A machine and its mirror proceed together. -/
theorem proceeds
    (mirrors : Mirrors marks machine mirror)
    (ordered : env.Ordered)
    (comparable : machine.Comparable marks)
    (items : Rewrites marks code.items code'.items)
    (texts_eq : code'.texts = code.texts) :
    Proceeds env code code' marks machine mirror := by
  have rest := mirrors.rest
  generalize rest_eq : machine.rest = lines at rest
  generalize rest_eq' : mirror.rest = lines' at rest
  cases rest with
  | nil => exact .neither (by rw [step, rest_eq]) (by rw [step, rest_eq'])
  | @kept item rest rest' others =>
      cases item with
      | label opened => exact .neither (by rw [step, rest_eq]) (by rw [step, rest_eq', Item.shift])
      | instr instruction =>
          have moved : Mirrors marks { machine with rest } { mirror with rest := rest' } :=
            ⟨mirrors.block_eq, mirrors.origin_eq, mirrors.world_eq, mirrors.registers_eq, others⟩
          have does : Option.Rel (Mirrors marks) (Machine.exec env code _ instruction) _ :=
            moved.exec items texts_eq instruction
          rw [← step_eq rest_eq, ← step_eq rest_eq'] at does
          generalize stepped : machine.step env code = result at does
          generalize stepped' : mirror.step env code' = result' at does
          cases does with
          | none => exact .neither stepped stepped'
          | some next => exact .once stepped stepped' next
  | @replaced target fresh operation left right rest rest' inequality marked new others =>
      refine mirrors.proceeds_replaced rest_eq rest_eq' new others ?_
      intro first second firstGiven secondGiven
      refine Operation.opposes_equality ordered inequality ?_
      rintro rfl
      exact comparable target left right rest first second rest_eq marked firstGiven secondGiven

/-- A machine and its mirror leave the routine together. -/
theorem halted_iff
    (mirrors : Mirrors marks machine mirror) :
    machine.Halted ↔ mirror.Halted := by
  have rest := mirrors.rest
  rw [Halted, Halted]
  generalize machine.rest = lines at rest
  generalize mirror.rest = lines' at rest
  cases rest with
  | nil => rfl
  | kept item others =>
      cases item with
      | label => rfl
      | instr instruction => cases instruction <;> simp [Item.shift, Instr.shift]
  | replaced => simp

section Runs

variable
  (ordered : env.Ordered)
  (items : Rewrites marks code.items code'.items)
  (texts_eq : code'.texts = code.texts)
include ordered items texts_eq

/-- As far as a machine runs, its mirror runs at least as many steps. -/
theorem run
    {after : Machine}
    {count : Nat}
    (mirrors : Mirrors marks machine mirror)
    (comparable : ∀ reached, machine.Reaches env code reached -> reached.Comparable marks)
    (ran : machine.run env code count = some after) :
    ∃ more after', count ≤ more ∧ mirror.run env code' more = some after' ∧
      Mirrors marks after after' := by
  -- The induction is on the steps of the machine; for one of them the mirror may take two.
  induction count generalizing machine mirror with
  | zero =>
      cases ran
      exact ⟨0, mirror, Nat.le_refl 0, rfl, mirrors⟩
  | succ count inductionHypothesis =>
      rw [Machine.run] at ran
      cases mirrors.proceeds ordered (comparable machine (.refl machine)) items texts_eq with
      | neither ended _ =>
          rw [ended] at ran
          cases ran
      | once stepped stepped' next =>
          rw [stepped] at ran
          obtain ⟨more, after', enough, ran', mirrored⟩ := inductionHypothesis next
            (fun reached reaches => comparable reached ((Reaches.of_step stepped).trans reaches)) ran
          refine ⟨more + 1, after', Nat.succ_le_succ enough, ?_, mirrored⟩
          rw [Machine.run, stepped', Option.bind_some, ran']
      | twice stepped stepped' _ stepped'' next =>
          rw [stepped] at ran
          obtain ⟨more, after', enough, ran', mirrored⟩ := inductionHypothesis next
            (fun reached reaches => comparable reached ((Reaches.of_step stepped).trans reaches)) ran
          refine ⟨more + 1 + 1, after', Nat.le_succ_of_le (Nat.succ_le_succ enough), ?_, mirrored⟩
          rw [Machine.run, stepped', Option.bind_some, Machine.run, stepped'', Option.bind_some, ran']

/-- However far the mirror runs, the machine comes by the world that it reaches. -/
theorem exists_reaches
    {after' : Machine}
    {count : Nat}
    (mirrors : Mirrors marks machine mirror)
    (comparable : ∀ reached, machine.Reaches env code reached -> reached.Comparable marks)
    (ran : mirror.run env code' count = some after') :
    ∃ after, machine.Reaches env code after ∧ after.world = after'.world := by
  -- Between the two steps of a replaced test the mirror has the world of the machine, so a run that
  -- stops there is accounted for as well.
  induction count using Nat.strongRecOn generalizing machine mirror with
  | ind count inductionHypothesis =>
    cases count with
    | zero =>
        cases ran
        exact ⟨machine, .refl machine, mirrors.world_eq.symm⟩
    | succ count =>
        rw [Machine.run] at ran
        cases mirrors.proceeds ordered (comparable machine (.refl machine)) items texts_eq with
        | neither _ ended =>
            rw [ended] at ran
            cases ran
        | once stepped stepped' next =>
            rw [stepped'] at ran
            obtain ⟨after, reaches, world_eq⟩ := inductionHypothesis count (Nat.lt_succ_self count)
              next (fun reached reaches =>
                comparable reached ((Reaches.of_step stepped).trans reaches)) ran
            exact ⟨after, (Reaches.of_step stepped).trans reaches, world_eq⟩
        | twice stepped stepped' world_eq stepped'' next =>
            rw [stepped', Option.bind_some] at ran
            cases count with
            | zero =>
                cases ran
                exact ⟨machine, .refl machine, world_eq.symm⟩
            | succ count =>
                rw [Machine.run, stepped''] at ran
                obtain ⟨after, reaches, world_eq⟩ := inductionHypothesis count (by omega) next
                  (fun reached reaches =>
                    comparable reached ((Reaches.of_step stepped).trans reaches)) ran
                exact ⟨after, (Reaches.of_step stepped).trans reaches, world_eq⟩

end Runs

end Mirrors

end Machine

/-! ## Whole routines -/

namespace CodeModule

open Machine

variable {env : Environment} {code code' : CodeModule} {marks : List Bool}

/-- At some time this has been read and written. -/
def Shows (env : Environment) (code : CodeModule) (trace : List Event) : Prop :=
  ∃ machine, code.start.Reaches env code machine ∧ machine.world.trace = trace

/-- Two routines do the same: they read and write the same at all times, and both end in the same
world, or both get stuck, or both run forever. -/
structure Agrees (env : Environment) (code code' : CodeModule) : Prop where
  shows : ∀ trace, code.Shows env trace ↔ code'.Shows env trace
  ends : ∀ world, code.Ends env world ↔ code'.Ends env world
  sticks : code.Sticks env ↔ code'.Sticks env
  diverges : code.Diverges env ↔ code'.Diverges env

/-- No test for inequality that defines a marked register ever meets a real that is not a number. -/
def Comparable (env : Environment) (code : CodeModule) (marks : List Bool) : Prop :=
  ∀ machine, code.start.Reaches env code machine -> machine.Comparable marks

/-- Code ends, gets stuck or runs forever. -/
theorem ends_or_sticks_or_diverges
    (env : Environment)
    (code : CodeModule) :
    (∃ world, code.Ends env world) ∨ code.Sticks env ∨ code.Diverges env := by
  by_cases diverges : code.Diverges env
  · exact .inr (.inr diverges)
  · obtain ⟨count, ended⟩ := not_forall.mp diverges
    have last : ∃ last, code.start.Reaches env code last ∧ last.step env code = none := by
      induction count with
      | zero => exact absurd rfl ended
      | succ count inductionHypothesis =>
          cases ran : code.start.run env code count with
          | none => exact inductionHypothesis (by simp [ran])
          | some reached =>
              refine ⟨reached, ⟨count, ran⟩, ?_⟩
              rw [run_add, ran, Option.bind_some] at ended
              simpa [run] using ended
    obtain ⟨last, reaches, stays⟩ := last
    by_cases halted : last.Halted
    · exact .inl ⟨last.world, last, reaches, halted, rfl⟩
    · exact .inr (.inl ⟨last, reaches, halted, stays⟩)

/-- The two routines start side by side. -/
theorem mirrors_start
    (items : Rewrites marks code.items code'.items) :
    Mirrors marks code.start code'.start where
  block_eq := rfl
  origin_eq := rfl
  world_eq := rfl
  registers_eq _ := rfl
  rest := by
    have found := items.after? .entry
    rw [start, start]
    generalize Item.after? .entry code.items = rest at found ⊢
    generalize Item.after? .entry code'.items = rest' at found ⊢
    cases found with
    | none => exact .nil
    | some rewrites => exact rewrites

section Agreement

variable
  (ordered : env.Ordered)
  (items : Rewrites marks code.items code'.items)
  (texts_eq : code'.texts = code.texts)
  (comparable : code.Comparable env marks)
include ordered items texts_eq comparable

theorem Ends.mirrored
    {world : World}
    (ends : code.Ends env world) :
    code'.Ends env world := by
  obtain ⟨last, ⟨count, ran⟩, halted, rfl⟩ := ends
  obtain ⟨more, last', -, ran', mirrored⟩ :=
    (mirrors_start items).run ordered items texts_eq comparable ran
  exact ⟨last', ⟨more, ran'⟩, mirrored.halted_iff.1 halted, mirrored.world_eq⟩

theorem Sticks.mirrored (sticks : code.Sticks env) : code'.Sticks env := by
  obtain ⟨last, ⟨count, ran⟩, unhalted, stays⟩ := sticks
  obtain ⟨more, last', -, ran', mirrored⟩ :=
    (mirrors_start items).run ordered items texts_eq comparable ran
  refine ⟨last', ⟨more, ran'⟩, mirrored.halted_iff.not.1 unhalted, ?_⟩
  cases mirrored.proceeds ordered (comparable last ⟨count, ran⟩) items texts_eq with
  | neither _ ended => exact ended
  | once stepped _ _ => exact absurd (stays.symm.trans stepped) (by simp)
  | twice stepped _ _ _ _ => exact absurd (stays.symm.trans stepped) (by simp)

theorem Diverges.mirrored (diverges : code.Diverges env) : code'.Diverges env := by
  intro count
  obtain ⟨after, ran⟩ := Option.isSome_iff_exists.1 (diverges count)
  obtain ⟨more, after', enough, ran', -⟩ :=
    (mirrors_start items).run ordered items texts_eq comparable ran
  exact isSome_run_of_le ran' enough

/-- A routine does the same as one with tests replaced, if no real that is not a number is tested. -/
theorem agrees_of_rewrites : code.Agrees env code' where
  shows := by
    intro trace
    constructor
    · rintro ⟨machine, ⟨count, ran⟩, rfl⟩
      obtain ⟨more, mirror, -, ran', mirrored⟩ :=
        (mirrors_start items).run ordered items texts_eq comparable ran
      exact ⟨mirror, ⟨more, ran'⟩, by rw [mirrored.world_eq]⟩
    · rintro ⟨mirror, ⟨count, ran⟩, rfl⟩
      obtain ⟨machine, reaches, world_eq⟩ :=
        (mirrors_start items).exists_reaches ordered items texts_eq comparable ran
      exact ⟨machine, reaches, by rw [world_eq]⟩
  ends := by
    intro world
    refine ⟨.mirrored ordered items texts_eq comparable, fun ends' => ?_⟩
    rcases code.ends_or_sticks_or_diverges env with ⟨reached, ends⟩ | sticks | diverges
    · rw [ends'.unique (ends.mirrored ordered items texts_eq comparable)]
      exact ends
    · exact absurd (sticks.mirrored ordered items texts_eq comparable) ends'.not_sticks
    · exact absurd (diverges.mirrored ordered items texts_eq comparable) ends'.not_diverges
  sticks := by
    refine ⟨.mirrored ordered items texts_eq comparable, fun sticks' => ?_⟩
    rcases code.ends_or_sticks_or_diverges env with ⟨reached, ends⟩ | sticks | diverges
    · exact absurd sticks' (ends.mirrored ordered items texts_eq comparable).not_sticks
    · exact sticks
    · exact absurd (diverges.mirrored ordered items texts_eq comparable) sticks'.not_diverges
  diverges := by
    refine ⟨.mirrored ordered items texts_eq comparable, fun diverges' => ?_⟩
    rcases code.ends_or_sticks_or_diverges env with ⟨reached, ends⟩ | sticks | diverges
    · exact absurd diverges' (ends.mirrored ordered items texts_eq comparable).not_diverges
    · exact absurd diverges' (sticks.mirrored ordered items texts_eq comparable).not_diverges
    · exact diverges

end Agreement

end CodeModule

end MiniLang
