import MiniLang.Proofs.Code.Blocks
import MiniLang.Proofs.Semantics.Machine

/-!
# Stretches of a run

A run is put together from stretches.  A stretch of code either has a result, and then the machine
gets to its end, or it has none, and then the machine is blocked somewhere in it.  A stretch of
statements may also leave the routine, and one that is unfinished under a limit keeps the machine
busy for at least as many steps as the limit says.

The machine is deterministic, so it ends in one state only, and not if it runs forever.
-/

namespace MiniLang

namespace Machine

variable {env : Environment} {code : CodeModule} {machine middle after : Machine}

theorem run_add
    (count more : Nat)
    (machine : Machine) :
    machine.run env code (count + more) =
      (machine.run env code count).bind (run env code more) := by
  induction count generalizing machine with
  | zero => simp [run]
  | succ count inductionHypothesis =>
      rw [Nat.succ_add, run, run, Option.bind_assoc]
      congr 1
      funext next
      exact inductionHypothesis next

/-- A machine that leaves the routine does not go on. -/
theorem Halted.step_eq_none (halted : machine.Halted) : machine.step env code = none := by
  unfold Halted at halted
  obtain ⟨rest, rest_eq⟩ := List.head?_eq_some_iff.mp halted
  simp [step, rest_eq, exec]

section Determinism

variable {count other : Nat}

/-- No run is longer than one that cannot go on. -/
theorem run_eq_none_of_lt
    (ran : machine.run env code count = some after)
    (last : after.step env code = none)
    (longer : count < other) :
    machine.run env code other = none := by
  obtain ⟨more, rfl⟩ : ∃ more, other = count + (more + 1) := ⟨other - count - 1, by omega⟩
  rw [run_add, ran, Option.bind_some, run, last, Option.bind_none]

/-- Two runs that cannot go on end in the same state. -/
theorem Reaches.unique
    {last last' : Machine}
    (reaches : machine.Reaches env code last)
    (reaches' : machine.Reaches env code last')
    (ended : last.step env code = none)
    (ended' : last'.step env code = none) :
    last = last' := by
  obtain ⟨count, ran⟩ := reaches
  obtain ⟨count', ran'⟩ := reaches'
  have same : count = count' := by
    rcases Nat.lt_trichotomy count count' with shorter | same | longer
    · rw [run_eq_none_of_lt ran ended shorter] at ran'
      cases ran'
    · exact same
    · rw [run_eq_none_of_lt ran' ended' longer] at ran
      cases ran
  subst same
  exact Option.some.inj (ran.symm.trans ran')

/-- A run of some length has every shorter length as well. -/
theorem isSome_run_of_le
    (ran : machine.run env code other = some after)
    (shorter : count ≤ other) :
    (machine.run env code count).isSome := by
  obtain ⟨more, rfl⟩ : ∃ more, other = count + more := ⟨other - count, by omega⟩
  rw [run_add] at ran
  obtain ⟨reached, reached_eq, -⟩ := Option.bind_eq_some_iff.mp ran
  simp [reached_eq]

end Determinism

namespace Reaches

theorem refl (machine : Machine) : machine.Reaches env code machine :=
  ⟨0, rfl⟩

theorem trans
    (first : machine.Reaches env code middle)
    (second : middle.Reaches env code after) :
    machine.Reaches env code after := by
  obtain ⟨count, ran⟩ := first
  obtain ⟨more, ranOn⟩ := second
  refine ⟨count + more, ?_⟩
  rw [run_add, ran, Option.bind_some, ranOn]

theorem of_step (stepped : machine.step env code = some after) :
    machine.Reaches env code after := by
  refine ⟨1, ?_⟩
  simp [run, stepped]

end Reaches

/-- The machine follows a computation: to where it has its result, or to where it is blocked if
there is none. -/
def Follows (env : Environment) (code : CodeModule) (machine : Machine) {α : Type}
    (result : Option α) (arrived : α -> Machine -> Prop) : Prop :=
  match result with
  | some value => ∃ after, machine.Reaches env code after ∧ arrived value after
  | none => ∃ after, machine.Reaches env code after ∧ after.Blocked env code

namespace Follows

variable {α β : Type} {result : Option α} {arrived : α -> Machine -> Prop}

theorem of_reaches
    (reaches : machine.Reaches env code middle)
    (follows : middle.Follows env code result arrived) :
    machine.Follows env code result arrived := by
  cases result with
  | some value =>
      obtain ⟨after, reachesOn, there⟩ := follows
      exact ⟨after, reaches.trans reachesOn, there⟩
  | none =>
      obtain ⟨after, reachesOn, blocked⟩ := follows
      exact ⟨after, reaches.trans reachesOn, blocked⟩

theorem imp
    {arrived' : α -> Machine -> Prop}
    (follows : machine.Follows env code result arrived)
    (weaker : ∀ value after, arrived value after -> arrived' value after) :
    machine.Follows env code result arrived' := by
  cases result with
  | some value =>
      obtain ⟨after, reaches, there⟩ := follows
      exact ⟨after, reaches, weaker value after there⟩
  | none => exact follows

/-- Follow a computation, and from where it has its result follow the rest. -/
theorem andThen
    {final : Option β}
    {arrived' : β -> Machine -> Prop}
    (follows : machine.Follows env code result arrived)
    (failed : result = none -> final = none)
    (next : ∀ value after, result = some value -> arrived value after ->
      after.Follows env code final arrived') :
    machine.Follows env code final arrived' := by
  cases result with
  | some value =>
      obtain ⟨after, reaches, there⟩ := follows
      exact of_reaches reaches (next value after rfl there)
  | none =>
      rw [failed rfl]
      exact follows

/-- Follow a computation that is one instruction. -/
theorem instr
    {instr : Instr}
    {post : List Item}
    (changed : α -> Machine)
    (rest_eq : machine.rest = .instr instr :: post)
    (stays : instr ≠ .ret)
    (exec_eq : exec env code { machine with rest := post } instr = result.map changed)
    (there : ∀ value, result = some value -> arrived value (changed value)) :
    machine.Follows env code result arrived := by
  have step_eq : machine.step env code = result.map changed := by
    rw [← exec_eq]
    simp [step, rest_eq]
  cases result with
  | some value => exact ⟨changed value, .of_step step_eq, there value rfl⟩
  | none =>
      refine ⟨machine, .refl machine, ?_, step_eq⟩
      simp [Halted, rest_eq, stays]

end Follows

/-- The machine goes through statements as far as they get: to the lines after them, out of the
routine, to where it is blocked, or on for as many steps as the limit says. -/
def Advances (env : Environment) (code : CodeModule) (limit : Nat) (machine : Machine)
    (post : List Item) : Progress -> Prop
  | .done world =>
      ∃ after, machine.Reaches env code after ∧ after.rest = post ∧ after.world = world
  | .left world => ∃ after, machine.Reaches env code after ∧ after.Halted ∧ after.world = world
  | .stuck => ∃ after, machine.Reaches env code after ∧ after.Blocked env code
  | .unfinished => ∃ count after, limit ≤ count ∧ machine.run env code count = some after

namespace Advances

variable {limit : Nat} {post : List Item} {progress : Progress}

theorem of_reaches
    (reaches : machine.Reaches env code middle)
    (advances : middle.Advances env code limit post progress) :
    machine.Advances env code limit post progress := by
  cases progress with
  | done world =>
      obtain ⟨after, reachesOn, there⟩ := advances
      exact ⟨after, reaches.trans reachesOn, there⟩
  | left world =>
      obtain ⟨after, reachesOn, there⟩ := advances
      exact ⟨after, reaches.trans reachesOn, there⟩
  | stuck =>
      obtain ⟨after, reachesOn, there⟩ := advances
      exact ⟨after, reaches.trans reachesOn, there⟩
  | unfinished =>
      obtain ⟨count, ran⟩ := reaches
      obtain ⟨more, after, enough, ranOn⟩ := advances
      refine ⟨count + more, after, by omega, ?_⟩
      rw [run_add, ran, Option.bind_some, ranOn]

/-- A step counts. -/
theorem of_step
    (stepped : machine.step env code = some middle)
    (advances : middle.Advances env code limit post progress) :
    machine.Advances env code (limit + 1) post progress := by
  cases progress with
  | unfinished =>
      obtain ⟨count, after, enough, ran⟩ := advances
      refine ⟨count + 1, after, by omega, ?_⟩
      rw [run, stepped, Option.bind_some, ran]
  | _ => exact of_reaches (.of_step stepped) advances

theorem mono
    {smaller : Nat}
    (smaller_le : smaller ≤ limit)
    (advances : machine.Advances env code limit post progress) :
    machine.Advances env code smaller post progress := by
  cases progress with
  | unfinished =>
      obtain ⟨count, after, enough, ran⟩ := advances
      exact ⟨count, after, Nat.le_trans smaller_le enough, ran⟩
  | _ => exact advances

/-- Follow a computation, and from where it has its result go through statements. -/
theorem of_follows
    {α : Type}
    {result : Option α}
    {arrived : α -> Machine -> Prop}
    (follows : machine.Follows env code result arrived)
    (failed : result = none -> progress = .stuck)
    (next : ∀ value after, result = some value -> arrived value after ->
      after.Advances env code limit post progress) :
    machine.Advances env code limit post progress := by
  cases result with
  | some value =>
      obtain ⟨after, reaches, there⟩ := follows
      exact of_reaches reaches (next value after rfl there)
  | none =>
      rw [failed rfl]
      exact follows

/-- Go through statements one after the other. -/
theorem andThen
    {between : List Item}
    {next : World -> Progress}
    (advances : machine.Advances env code limit between progress)
    (goesOn : ∀ after : Machine, progress = .done after.world -> after.rest = between ->
      after.Advances env code limit post (next after.world)) :
    machine.Advances env code limit post (progress.andThen next) := by
  cases progress with
  | done world =>
      obtain ⟨after, reaches, rest_eq, rfl⟩ := advances
      exact of_reaches reaches (goesOn after rfl rest_eq)
  | _ => exact advances

end Advances

end Machine

/-- No two blocks of the routine have the same label. -/
def CodeModule.Distinct (code : CodeModule) : Prop :=
  (code.items.filterMap Item.label?).Nodup

/-- Lines stand in the routine, with given lines after them. -/
def CodeModule.Placed (code : CodeModule) (lines post : List Item) : Prop :=
  ∃ before, code.items = before ++ lines ++ post

namespace CodeModule.Placed

variable {code : CodeModule} {lines more post : List Item}

theorem left (placed : code.Placed (lines ++ more) post) : code.Placed lines (more ++ post) := by
  obtain ⟨before, items_eq⟩ := placed
  exact ⟨before, by simp [items_eq]⟩

theorem right (placed : code.Placed (lines ++ more) post) : code.Placed more post := by
  obtain ⟨before, items_eq⟩ := placed
  exact ⟨before ++ lines, by simp [items_eq]⟩

theorem tail
    {item : Item}
    (placed : code.Placed (item :: lines) post) :
    code.Placed lines post :=
  (show code.Placed ([item] ++ lines) post from placed).right

end CodeModule.Placed

/-- A label that stands nowhere before is found where it stands. -/
theorem Item.after?_append
    {target : Label}
    {before post : List Item}
    (fresh : target ∉ before.filterMap Item.label?) :
    Item.after? target (before ++ .label target :: post) = some post := by
  induction before with
  | nil => simp [Item.after?]
  | cons item rest inductionHypothesis =>
      cases item with
      | label opened =>
          simp only [List.filterMap_cons, Item.label?_label, List.mem_cons, not_or] at fresh
          rw [List.cons_append, Item.after?, if_neg (by simp [Ne.symm fresh.1])]
          exact inductionHypothesis fresh.2
      | instr instruction =>
          simp only [List.filterMap_cons, Item.label?_instr] at fresh
          rw [List.cons_append, Item.after?, if_neg (by simp)]
          exact inductionHypothesis fresh

/-- A jump finds the block that stands in the routine. -/
theorem CodeModule.Distinct.after?_eq
    {code : CodeModule}
    {target : Label}
    {post : List Item}
    (distinct : code.Distinct)
    (before : List Item)
    (items_eq : code.items = before ++ .label target :: post) :
    Item.after? target code.items = some post := by
  rw [CodeModule.Distinct, items_eq, List.filterMap_append, List.filterMap_cons,
    Item.label?_label] at distinct
  rw [items_eq]
  apply Item.after?_append
  intro present
  exact (List.nodup_append.mp distinct).2.2 target present target (by simp) rfl

/-- A jump finds the block that stands at the end of placed lines. -/
theorem CodeModule.Distinct.found
    {code : CodeModule}
    {target : Label}
    {post : List Item}
    (distinct : code.Distinct)
    (placed : code.Placed [.label target] post) :
    Item.after? target code.items = some post := by
  obtain ⟨before, items_eq⟩ := placed
  apply distinct.after?_eq before
  simpa using items_eq

namespace Machine

variable {env : Environment} {code : CodeModule} {machine : Machine} {post lines : List Item}

/-- The machine has gone to the start of a block. -/
structure Enters (machine : Machine) (target : Label) (lines : List Item) (after : Machine) : Prop
    where
  rest_eq : after.rest = lines
  block_eq : after.block = target
  origin_eq : after.origin = some machine.block
  registers_eq : after.registers = machine.registers
  world_eq : after.world = machine.world

theorem exists_jump
    {target : Label}
    (rest_eq : machine.rest = .instr (.jump target) :: post)
    (found : Item.after? target code.items = some lines) :
    ∃ after, machine.step env code = some after ∧ machine.Enters target lines after := by
  refine ⟨{ machine with rest := lines, block := target, origin := some machine.block }, ?_,
    rfl, rfl, rfl, rfl, rfl⟩
  simp [step, rest_eq, exec, goto?, found]

theorem exists_fork
    {condition : Operand}
    {yes no : Label}
    {truth : Bool}
    (rest_eq : machine.rest = .instr (.fork condition yes no) :: post)
    (held : condition.value? machine.registers = some (.bool truth))
    (found : Item.after? (if truth then yes else no) code.items = some lines) :
    ∃ after, machine.step env code = some after ∧
      machine.Enters (if truth then yes else no) lines after := by
  refine ⟨{ machine with
    rest := lines, block := if truth then yes else no, origin := some machine.block }, ?_,
    rfl, rfl, rfl, rfl, rfl⟩
  simp [step, rest_eq, exec, held, goto?, found]

/-- Go through statements and jump from their end. -/
theorem Advances.jump
    {limit : Nat}
    {progress : Progress}
    {target : Label}
    (advances : machine.Advances env code limit (.instr (.jump target) :: post) progress)
    (found : Item.after? target code.items = some lines) :
    machine.Advances env code limit lines progress := by
  cases progress with
  | done world =>
      obtain ⟨middle, reaches, rest_eq, rfl⟩ := advances
      obtain ⟨after, stepped, entered⟩ := exists_jump rest_eq found
      exact ⟨after, reaches.trans (.of_step stepped), entered.rest_eq, entered.world_eq⟩
  | _ => exact advances

/-- The rule for loops.  The machine is at the head of the loop; the test leads inside or past the
loop, and a jump leads from the end of the body back to the head. -/
theorem Advances.iterate
    {test : World -> Option (Bool × World)}
    {body : World -> Progress}
    {keeps : World -> Prop}
    {limit count : Nat}
    {start : Label}
    {head inside back : List Item}
    (tests : ∀ machine : Machine, machine.rest = head -> keeps machine.world ->
      machine.Follows env code (test machine.world) fun outcome after =>
        after.rest = (if outcome.1 then inside else post) ∧ after.world = outcome.2)
    (passes : ∀ machine : Machine, machine.rest = inside -> keeps machine.world ->
      machine.Advances env code limit (.instr (.jump start) :: back) (body machine.world))
    (found : Item.after? start code.items = some head)
    (tested : ∀ {world after : World} {truth : Bool},
      keeps world -> test world = some (truth, after) -> keeps after)
    (passed : ∀ {world after : World}, keeps world -> body world = .done after -> keeps after)
    (count_le : count ≤ limit)
    (rest_eq : machine.rest = head)
    (kept : keeps machine.world) :
    machine.Advances env code count post (Progress.iterate test body count machine.world) := by
  induction count generalizing machine with
  | zero => exact ⟨0, machine, Nat.le_refl 0, rfl⟩
  | succ count inductionHypothesis =>
      apply of_follows (tests machine rest_eq kept)
      · intro failed
        simp [Progress.iterate, failed]
      rintro ⟨truth, world⟩ middle decided ⟨there, rfl⟩
      have keptOn := tested kept decided
      simp only [Progress.iterate, decided]
      cases truth with
      | false => exact ⟨middle, .refl middle, there, rfl⟩
      | true =>
          -- The jump back is the step that counts for this pass.
          apply ((passes middle there keptOn).mono count_le).andThen
          intro last ended last_rest
          obtain ⟨again, stepped, entered⟩ := exists_jump last_rest found
          rw [← entered.world_eq] at ended ⊢
          exact of_step stepped
            (inductionHypothesis (by omega) entered.rest_eq (passed keptOn ended))

end Machine

end MiniLang
