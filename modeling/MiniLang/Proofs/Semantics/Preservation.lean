import MiniLang.Proofs.Code.ModuleText
import MiniLang.Proofs.Semantics.Statements

/-!
# Generated code does what the program does

The slots of the variables are reserved first, with what the variables hold at first.  From there
the machine goes through the code of the body as far as the program gets under a limit.  A program
ends, gets stuck or is unfinished under every limit, and the machine does only one of the three, so
each of them goes both ways.  The code is what its text is read back as, so all of this is said of
the text as well.
-/

namespace MiniLang

open Machine

variable {env : Environment} {code : CodeModule}

/-- The line that reserves the slot of a variable. -/
def Declaration.slot (declaration : Declaration) : Item :=
  .instr (.alloca declaration.name declaration.type)

/-- Reserving the slots of variables with different names lets each hold what it holds at first. -/
theorem exists_reaches_slots
    (env : Environment)
    (code : CodeModule)
    {post : List Item}
    (declarations : List Declaration)
    (nodup : (declarations.map Declaration.name).Nodup)
    (machine : Machine)
    (fresh : ∀ declaration ∈ declarations, machine.world.store declaration.name = none)
    (rest_eq : machine.rest = declarations.map Declaration.slot ++ post) :
    ∃ after, machine.Reaches env code after ∧ after.rest = post ∧
      after.world.trace = machine.world.trace ∧
      (∀ declaration ∈ declarations, after.world.store declaration.name =
        some (env.initial declaration.name declaration.type)) ∧
      ∀ name, name ∉ declarations.map Declaration.name ->
        after.world.store name = machine.world.store name := by
  induction declarations generalizing machine with
  | nil => exact ⟨machine, .refl machine, rest_eq, rfl, by simp, fun _ _ => rfl⟩
  | cons declaration others inductionHypothesis =>
      obtain ⟨unlike, othersNodup⟩ := List.nodup_cons.mp nodup
      let next := { machine with rest := others.map Declaration.slot ++ post }.hold
        declaration.name (env.initial declaration.name declaration.type)
      have stepped : machine.step env code = some next := by
        simp [step, rest_eq, Declaration.slot, exec, fresh declaration (by simp), next]
      have held : ∀ name, name ≠ declaration.name ->
          next.world.store name = machine.world.store name := by
        intro name other
        simp [next, hold, Store.set, other]
      have othersFresh : ∀ other ∈ others, next.world.store other.name = none := by
        intro other present
        rw [held other.name fun equal => unlike (equal ▸ List.mem_map_of_mem present)]
        exact fresh other (List.mem_cons_of_mem _ present)
      obtain ⟨after, reaches, after_rest, after_trace, othersHeld, kept⟩ :=
        inductionHypothesis othersNodup next othersFresh rfl
      refine ⟨after, (Reaches.of_step stepped).trans reaches, after_rest, after_trace, ?_, ?_⟩
      · intro other present
        rcases List.mem_cons.mp present with rfl | present
        · rw [kept other.name unlike]
          simp [next, hold, Store.set]
        · exact othersHeld other present
      · intro name absent
        simp only [List.map_cons, List.mem_cons, not_or] at absent
        rw [kept name absent.2, held name absent.1]

/-- What the variables of a scope hold at first conforms to it. -/
theorem Program.conforms_initialWorld
    (env : Environment)
    (program : Program) :
    (program.initialWorld env).store.Conforms program.scope := by
  intro name
  rw [Program.store_initialWorld]
  cases program.scope.lookup name with
  | none => rfl
  | some declaration => simp

/-- The machine starts with the slots of the variables and comes to the body of the program. -/
theorem exists_reaches_body
    (env : Environment)
    {program : Program}
    {body : List Item}
    (consistent : program.scope.Consistent)
    (items_eq : code.items = .label .entry :: program.scope.slots ++ body) :
    ∃ after, code.start.Reaches env code after ∧ after.rest = body ∧
      after.world = program.initialWorld env := by
  have rest_eq : code.start.rest = program.scope.slots ++ body := by
    simp [CodeModule.start, items_eq, Item.after?]
  obtain ⟨after, reaches, after_rest, after_trace, held, kept⟩ :=
    exists_reaches_slots env code program.scope.entries.toList consistent.nodup_names code.start
      (fun _ _ => rfl) rest_eq
  refine ⟨after, reaches, after_rest, ?_⟩
  have store_eq : after.world.store = (program.initialWorld env).store := by
    funext name
    rw [Program.store_initialWorld]
    cases found : program.scope.lookup name with
    | some declaration =>
        obtain ⟨present, rfl⟩ := consistent.lookup_eq_some_iff.mp found
        exact held declaration present
    | none =>
        apply kept
        intro present
        obtain ⟨declaration, declared, rfl⟩ := List.mem_map.mp present
        rw [consistent.lookup_eq_some_iff.mpr ⟨declared, rfl⟩] at found
        cases found
  calc after.world = ⟨after.world.store, after.world.trace⟩ := rfl
    _ = program.initialWorld env := by rw [store_eq, after_trace]; rfl

/-- Every block of a generated routine is found by its label. -/
theorem Program.distinct_of_generate
    {program : Program}
    {tags : TagTable}
    (generated : program.generate tags = .ok code) :
    code.Distinct := by
  obtain ⟨registers, labels, blocks, routine⟩ := Program.exists_routine generated
  rw [CodeModule.Distinct, routine.items_eq, Block.label?_items]
  exact routine.nodup_labels

/-- The machine gets as far as the program does under a limit. -/
theorem Program.WellFounded.advances
    {program : Program}
    (wellFounded : program.WellFounded)
    {tags : TagTable}
    (accepts : program.check = .ok (tags, []))
    (generated : program.generate tags = .ok code)
    (limit : Nat) :
    code.start.Advances env code limit [.instr .ret] (program.exec env limit) := by
  obtain ⟨typed, holds⟩ := wellFounded.accepted accepts
  obtain ⟨body, registers, labels, emitted, items_eq, texts_eq⟩ :=
    Program.stmtCode_of_generate generated
  obtain ⟨middle, reaches, middle_rest, middle_world⟩ :=
    exists_reaches_body env wellFounded.consistent_scope
      (by rw [items_eq, List.append_assoc])
  have conforms := program.conforms_initialWorld env
  have placed : code.Placed body [.instr .ret] := ⟨_, items_eq⟩
  rw [← middle_world] at conforms
  apply Advances.of_reaches reaches
  rw [Program.exec, ← middle_world]
  exact emitted.advances (Program.distinct_of_generate generated) texts_eq typed holds placed
    middle_rest conforms

namespace CodeModule

/-- Code that runs forever reaches no state from which the machine cannot go on. -/
theorem Diverges.step_ne_none
    {last : Machine}
    (diverges : code.Diverges env)
    (reaches : code.start.Reaches env code last) :
    last.step env code ≠ none := by
  intro ended
  obtain ⟨count, ran⟩ := reaches
  have goesOn := diverges (count + 1)
  rw [run_eq_none_of_lt ran ended (Nat.lt_succ_self count)] at goesOn
  cases goesOn

theorem Ends.not_diverges
    {world : World}
    (ends : code.Ends env world) :
    ¬code.Diverges env := by
  obtain ⟨last, reaches, halted, -⟩ := ends
  exact fun diverges => diverges.step_ne_none reaches halted.step_eq_none

theorem Sticks.not_diverges (sticks : code.Sticks env) : ¬code.Diverges env := by
  obtain ⟨last, reaches, blocked⟩ := sticks
  exact fun diverges => diverges.step_ne_none reaches blocked.2

theorem Ends.not_sticks
    {world : World}
    (ends : code.Ends env world) :
    ¬code.Sticks env := by
  obtain ⟨last, reaches, halted, -⟩ := ends
  rintro ⟨last', reaches', blocked⟩
  obtain rfl := reaches.unique reaches' halted.step_eq_none blocked.2
  exact blocked.1 halted

/-- Code ends in one world only. -/
theorem Ends.unique
    {world world' : World}
    (ends : code.Ends env world)
    (ends' : code.Ends env world') :
    world = world' := by
  obtain ⟨last, reaches, halted, rfl⟩ := ends
  obtain ⟨last', reaches', halted', rfl⟩ := ends'
  rw [reaches.unique reaches' halted.step_eq_none halted'.step_eq_none]

end CodeModule

/-- A program ends, gets stuck or runs forever. -/
theorem Program.ends_or_sticks_or_diverges
    (env : Environment)
    (program : Program) :
    (∃ world, program.Ends env world) ∨ program.Sticks env ∨ program.Diverges env := by
  by_cases diverges : program.Diverges env
  · exact .inr (.inr diverges)
  · obtain ⟨limit, finished⟩ := not_forall.mp diverges
    cases ran : program.exec env limit with
    | done world => exact .inl ⟨world, limit, .inl ran⟩
    | left world => exact .inl ⟨world, limit, .inr ran⟩
    | stuck => exact .inr (.inl ⟨limit, ran⟩)
    | unfinished => exact absurd ran finished

section Preservation

variable {program : Program} {world : World}
  (advances : ∀ limit,
    code.start.Advances env code limit [.instr .ret] (program.exec env limit))
include advances

/-- The end of the body is followed by the instruction that leaves the routine. -/
theorem Program.Ends.code_ends (ends : program.Ends env world) : code.Ends env world := by
  obtain ⟨limit, ended | left⟩ := ends
  · have advanced := advances limit
    rw [ended] at advanced
    obtain ⟨last, reaches, rest_eq, world_eq⟩ := advanced
    exact ⟨last, reaches, by rw [Halted, rest_eq, List.head?_cons], world_eq⟩
  · have advanced := advances limit
    rw [left] at advanced
    exact advanced

theorem Program.Sticks.code_sticks (sticks : program.Sticks env) : code.Sticks env := by
  obtain ⟨limit, stuck⟩ := sticks
  have advanced := advances limit
  rw [stuck] at advanced
  exact advanced

/-- The machine takes as many steps as any limit allows passes. -/
theorem Program.Diverges.code_diverges (diverges : program.Diverges env) : code.Diverges env := by
  intro count
  have advanced := advances count
  rw [diverges count] at advanced
  obtain ⟨more, after, enough, ran⟩ := advanced
  exact isSome_run_of_le ran enough

/-! The program does one of three things, and the code does the same and neither of the others. -/

theorem Program.ends_of_code (codeEnds : code.Ends env world) : program.Ends env world := by
  rcases program.ends_or_sticks_or_diverges env with ⟨reached, ends⟩ | sticks | diverges
  · rw [codeEnds.unique (ends.code_ends advances)]
    exact ends
  · exact absurd (sticks.code_sticks advances) codeEnds.not_sticks
  · exact absurd (diverges.code_diverges advances) codeEnds.not_diverges

theorem Program.sticks_of_code (codeSticks : code.Sticks env) : program.Sticks env := by
  rcases program.ends_or_sticks_or_diverges env with ⟨reached, ends⟩ | sticks | diverges
  · exact absurd codeSticks (ends.code_ends advances).not_sticks
  · exact sticks
  · exact absurd (diverges.code_diverges advances) codeSticks.not_diverges

theorem Program.diverges_of_code (codeDiverges : code.Diverges env) : program.Diverges env := by
  rcases program.ends_or_sticks_or_diverges env with ⟨reached, ends⟩ | sticks | diverges
  · exact absurd codeDiverges (ends.code_ends advances).not_diverges
  · exact absurd codeDiverges (sticks.code_sticks advances).not_diverges
  · exact diverges

end Preservation

/-- Every well-founded program that checking accepts has code.  The code is read back from its text,
and it does what the program does, whatever the reals, the variables at first and the input are: it
ends with the same trace and the same variables, or gets stuck with it, or runs forever with it. -/
theorem generated_code_preserves_meaning
    {program : Program}
    (wellFounded : program.WellFounded)
    {tags : TagTable}
    (accepts : program.check = .ok (tags, [])) :
    ∃ code, program.generate tags = .ok code ∧ CodeModule.ofLines? code.lines = some code ∧
      ∀ env : Environment,
        (∀ (trace : List Event) (store : Store),
          program.Ends env ⟨store, trace⟩ ↔ code.Ends env ⟨store, trace⟩) ∧
        (program.Diverges env ↔ code.Diverges env) ∧
        (program.Sticks env ↔ code.Sticks env) := by
  obtain ⟨code, generated⟩ := wellFounded.exists_generate accepts
  refine ⟨code, generated, Program.ofLines?_of_generate generated, fun env => ?_⟩
  have advances : ∀ limit,
      code.start.Advances env code limit [.instr .ret] (program.exec env limit) :=
    wellFounded.advances accepts generated
  refine ⟨fun trace store => ⟨?_, Program.ends_of_code advances⟩,
    ⟨?_, Program.diverges_of_code advances⟩, ⟨?_, Program.sticks_of_code advances⟩⟩
  · exact fun ends => ends.code_ends advances
  · exact fun diverges => diverges.code_diverges advances
  · exact fun sticks => sticks.code_sticks advances

/-- A program that counts from two down to zero and writes what it counts. -/
def countdown : Program :=
  let two := (Forest.empty.addExpr 1 (.int 2)).2
  let started := (two.addExpr 1 (.assign ⟨"n", 1⟩ 0)).2
  let tested := (started.addExpr 2 (.name "n")).2
  let zero := (tested.addExpr 2 (.int 0)).2
  let condition := (zero.addExpr 2 (.binary .gt 2 3)).2
  let shown := (condition.addExpr 3 (.name "n")).2
  let larger := (shown.addExpr 4 (.name "n")).2
  let one := (larger.addExpr 4 (.int 1)).2
  let difference := (one.addExpr 4 (.binary .sub 6 7)).2
  let lowered := (difference.addExpr 4 (.assign ⟨"n", 4⟩ 8)).2
  let start := (lowered.addStmt 1 (.expr 1)).2
  let write := (start.addStmt 3 (.write 5 .plain)).2
  let lower := (write.addStmt 4 (.expr 9)).2
  let body := (lower.addStmt 3 (.block [1, 2])).2
  (Program.assemble [⟨"n", .int, 1⟩] [0, 4] (body.addStmt 2 (.loop 4 3)).2).1

theorem countdown_built : countdown.Built := by
  refine .assemble _ _ _ (.addStmt 2 _ (.addStmt 3 _ (.addStmt 4 _ (.addStmt 3 _ (.addStmt 1 _
    (.addExpr 4 _ (.addExpr 4 _ (.addExpr 4 _ (.addExpr 4 _ (.addExpr 3 _ (.addExpr 2 _
    (.addExpr 2 _ (.addExpr 2 _ (.addExpr 1 _ (.addExpr 1 _ .empty ?_) ?_) ?_) ?_) ?_) ?_) ?_) ?_)
    ?_) ?_) ?_ ?_ rfl) ?_ ?_ rfl) ?_ ?_ rfl) ?_ ?_ rfl) ?_ ?_ rfl) ?_
  all_goals decide

/-- The code of the countdown ends after two and one were written. -/
theorem countdown_code_ends :
    ∃ tags code, countdown.check = .ok (tags, []) ∧ countdown.generate tags = .ok code ∧
      CodeModule.ofLines? code.lines = some code ∧ ∀ env, ∃ store, store "n" = some (.int 0) ∧
        code.Ends env ⟨store, [.write .plain (.int 2), .write .plain (.int 1)]⟩ := by
  obtain ⟨tags, accepts⟩ : ∃ tags, countdown.check = .ok (tags, []) := ⟨_, rfl⟩
  obtain ⟨code, generated, readBack, preserves⟩ :=
    generated_code_preserves_meaning countdown_built.wellFounded accepts
  refine ⟨tags, code, accepts, generated, readBack, fun env => ?_⟩
  have ends : countdown.Ends env ⟨_, [.write .plain (.int 2), .write .plain (.int 1)]⟩ :=
    ⟨3, .inl rfl⟩
  exact ⟨_, rfl, ((preserves env).1 _ _).mp ends⟩

end MiniLang
