import Mathlib.Data.Set.Basic
import MiniLang.Proofs.Code.Blocks

/-!
# Registers on the paths of a routine

A register may be used where every path from the entry has defined it.  To show this for emitted
code, every label is given a set of registers that are known there.  The sets are right if each
instruction uses known registers only and each branch to a label comes with the registers of that
label; and then every path to a label has defined the registers of its set.

The sets are found fragment by fragment.  Since fragments name different labels, the sets of two
fragments can be put together.
-/

namespace MiniLang

/-- A way through the blocks from the entry: the blocks that are passed, and the block that is
reached. -/
inductive Path (blocks : List Block) : List Block -> Block -> Prop where
  | entry {block : Block}
      (block_mem : block ∈ blocks)
      (at_entry : block.label = .entry) :
      Path blocks [] block
  | step {passed : List Block} {block next : Block}
      (path : Path blocks passed block)
      (next_mem : next ∈ blocks)
      (is_target : next.label ∈ block.last.targets) :
      Path blocks (passed ++ [block]) next

theorem Path.mem
    {blocks passed : List Block}
    {block : Block}
    (path : Path blocks passed block) :
    block ∈ blocks := by
  cases path with
  | entry block_mem => exact block_mem
  | step path next_mem => exact next_mem

/-- A register is defined by one of some instructions. -/
def DefinedIn (instrs : List Instr) (register : Register) : Prop :=
  ∃ instr ∈ instrs, instr.defined? = some register

theorem DefinedIn.append_left
    {first : List Instr}
    {register : Register}
    (defined : DefinedIn first register)
    (second : List Instr) :
    DefinedIn (first ++ second) register := by
  obtain ⟨instr, instr_mem, defines⟩ := defined
  exact ⟨instr, List.mem_append_left _ instr_mem, defines⟩

theorem DefinedIn.append_right
    {second : List Instr}
    {register : Register}
    (first : List Instr)
    (defined : DefinedIn second register) :
    DefinedIn (first ++ second) register := by
  obtain ⟨instr, instr_mem, defines⟩ := defined
  exact ⟨instr, List.mem_append_right _ instr_mem, defines⟩

/-- The registers that are known after an instruction. -/
def Instr.extend (instr : Instr) (known : Set Register) : Set Register :=
  {register | register ∈ known ∨ instr.defined? = some register}

/-- Code uses known registers only, given those known at each label.  The registers known where no
block is open are none at all. -/
inductive Flow (knownAt : Label -> Set Register) :
    Option (Set Register) -> List Item -> Option (Set Register) -> Prop where
  | nil (known : Option (Set Register)) : Flow knownAt known [] known
  | label {opened : Label} {rest : List Item} {final : Option (Set Register)}
      (continues : Flow knownAt (some (knownAt opened)) rest final) :
      Flow knownAt none (.label opened :: rest) final
  | plain {instr : Instr} {known : Set Register} {rest : List Item} {final : Option (Set Register)}
      (stays : instr.isTerminator = false)
      (uses_known : ∀ register ∈ instr.uses, register ∈ known)
      (incoming_known : ∀ incoming ∈ instr.incoming, ∀ register ∈ incoming.1.registers,
        register ∈ knownAt incoming.2)
      (continues : Flow knownAt (some (instr.extend known)) rest final) :
      Flow knownAt (some known) (.instr instr :: rest) final
  | terminator {instr : Instr} {known : Set Register} {rest : List Item}
      {final : Option (Set Register)}
      (ends : instr.isTerminator = true)
      (uses_known : ∀ register ∈ instr.uses, register ∈ known)
      (target_known : ∀ target ∈ instr.targets, knownAt target ⊆ known)
      (continues : Flow knownAt none rest final) :
      Flow knownAt (some known) (.instr instr :: rest) final

namespace Flow

variable {knownAt : Label -> Set Register} {start middle final : Option (Set Register)}
variable {first second code : List Item}

theorem append
    (firstFlow : Flow knownAt start first middle)
    (secondFlow : Flow knownAt middle second final) :
    Flow knownAt start (first ++ second) final := by
  induction firstFlow with
  | nil => exact secondFlow
  | label continues inductionHypothesis => exact .label (inductionHypothesis secondFlow)
  | plain stays uses_known incoming_known continues inductionHypothesis =>
      exact .plain stays uses_known incoming_known (inductionHypothesis secondFlow)
  | terminator ends uses_known target_known continues inductionHypothesis =>
      exact .terminator ends uses_known target_known (inductionHypothesis secondFlow)

theorem exists_middle
    (flow : Flow knownAt start (first ++ second) final) :
    ∃ middle, Flow knownAt start first middle ∧ Flow knownAt middle second final := by
  induction first generalizing start with
  | nil => exact ⟨start, .nil start, flow⟩
  | cons item rest inductionHypothesis =>
      cases flow with
      | label continues =>
          obtain ⟨middle, restFlow, secondFlow⟩ := inductionHypothesis continues
          exact ⟨middle, .label restFlow, secondFlow⟩
      | plain stays uses_known incoming_known continues =>
          obtain ⟨middle, restFlow, secondFlow⟩ := inductionHypothesis continues
          exact ⟨middle, .plain stays uses_known incoming_known restFlow, secondFlow⟩
      | terminator ends uses_known target_known continues =>
          obtain ⟨middle, restFlow, secondFlow⟩ := inductionHypothesis continues
          exact ⟨middle, .terminator ends uses_known target_known restFlow, secondFlow⟩

/-- Only the sets of the labels that the code declares or names matter. -/
theorem congr
    {other : Label -> Set Register}
    (flow : Flow knownAt start code final)
    (declared_eq : ∀ label ∈ code.filterMap Item.label?, other label = knownAt label)
    (refers_eq : ∀ label ∈ code.flatMap Item.refers, other label = knownAt label) :
    Flow other start code final := by
  induction flow with
  | nil known => exact .nil known
  | label continues inductionHypothesis =>
      refine .label ?_
      rw [declared_eq _ (by simp)]
      exact inductionHypothesis (fun label label_mem => declared_eq label (by simp [label_mem]))
        (fun label label_mem => refers_eq label (by simp [label_mem]))
  | plain stays uses_known incoming_known continues inductionHypothesis =>
      refine .plain stays uses_known ?_ (inductionHypothesis ?_ ?_)
      · intro incoming incoming_mem register register_mem
        rw [refers_eq incoming.2 (by
          simp only [List.flatMap_cons, Item.refers_instr, Instr.refers, List.mem_append]
          exact .inl (.inr (List.mem_map_of_mem incoming_mem)))]
        exact incoming_known incoming incoming_mem register register_mem
      · exact fun label label_mem =>
          declared_eq label (by simpa [List.filterMap_cons] using label_mem)
      · exact fun label label_mem => refers_eq label (by simp [label_mem])
  | terminator ends uses_known target_known continues inductionHypothesis =>
      refine .terminator ends uses_known ?_ (inductionHypothesis ?_ ?_)
      · intro target target_mem
        rw [refers_eq target (by simp [Instr.refers, target_mem])]
        exact target_known target target_mem
      · exact fun label label_mem =>
          declared_eq label (by simpa [List.filterMap_cons] using label_mem)
      · exact fun label label_mem => refers_eq label (by simp [label_mem])

/-- What is known inside a block was known at its start or is defined since. -/
theorem known_subset
    {known final : Set Register}
    {instrs : List Instr}
    (flow : Flow knownAt (some known) (instrs.map .instr) (some final))
    {register : Register}
    (is_known : register ∈ final) :
    register ∈ known ∨ DefinedIn instrs register := by
  induction instrs generalizing known with
  | nil =>
      cases flow
      exact .inl is_known
  | cons instr rest inductionHypothesis =>
      cases flow with
      | plain stays uses_known incoming_known continues =>
          rcases inductionHypothesis continues with (before | defines) | defined
          · exact .inl before
          · exact .inr ⟨instr, List.mem_cons_self, defines⟩
          · exact .inr (defined.append_right [instr])
      | terminator ends uses_known target_known continues =>
          cases rest with
          | nil => cases continues
          | cons next others => cases continues

/-- Nothing is known after the end of a block. -/
theorem instrs_closed
    {block : Block}
    {known : Set Register}
    (flow : Flow knownAt (some known) (block.instrs.map .instr) final) :
    final = none := by
  rw [Block.instrs, List.map_append] at flow
  obtain ⟨middle, bodyFlow, lastFlow⟩ := flow.exists_middle
  cases lastFlow with
  | plain stays => simp [block.last_terminator] at stays
  | terminator ends uses_known target_known continues =>
      cases continues
      rfl

/-- The flow through the lines of blocks is a flow through each of them. -/
theorem of_blocks
    {blocks : List Block}
    (flow : Flow knownAt none (blocks.flatMap Block.items) none)
    {block : Block}
    (block_mem : block ∈ blocks) :
    Flow knownAt (some (knownAt block.label)) (block.instrs.map .instr) none := by
  induction blocks with
  | nil => cases block_mem
  | cons first rest inductionHypothesis =>
      rw [List.flatMap_cons] at flow
      obtain ⟨middle, firstFlow, restFlow⟩ := flow.exists_middle
      cases firstFlow with
      | label continues =>
          cases continues.instrs_closed
          rcases List.mem_cons.1 block_mem with rfl | in_rest
          · exact continues
          · exact inductionHypothesis restFlow in_rest

section Paths

variable {blocks : List Block} {passed : List Block} {block : Block}

/-- An instruction of a block uses what was known at its start or is defined since. -/
theorem uses_subset
    (flow : Flow knownAt (some (knownAt block.label)) (block.instrs.map .instr) none)
    {before after : List Instr}
    {instr : Instr}
    (split : block.instrs = before ++ instr :: after)
    {register : Register}
    (is_used : register ∈ instr.uses) :
    register ∈ knownAt block.label ∨ DefinedIn before register := by
  rw [split, List.map_append] at flow
  obtain ⟨middle, beforeFlow, restFlow⟩ := flow.exists_middle
  cases restFlow with
  | plain stays uses_known => exact beforeFlow.known_subset (uses_known register is_used)
  | terminator ends uses_known => exact beforeFlow.known_subset (uses_known register is_used)

/-- What an instruction takes from a block is known at the label of that block. -/
theorem incoming_known
    {known : Set Register}
    {instrs : List Instr}
    (flow : Flow knownAt (some known) (instrs.map .instr) none)
    {instr : Instr}
    (instr_mem : instr ∈ instrs)
    {incoming : Operand × Label}
    (incoming_mem : incoming ∈ instr.incoming)
    {register : Register}
    (register_mem : register ∈ incoming.1.registers) :
    register ∈ knownAt incoming.2 := by
  obtain ⟨before, after, rfl⟩ := List.append_of_mem instr_mem
  rw [List.map_append] at flow
  obtain ⟨middle, beforeFlow, restFlow⟩ := flow.exists_middle
  cases restFlow with
  | plain stays uses_known incoming_known =>
      exact incoming_known incoming incoming_mem register register_mem
  | terminator ends =>
      rw [Instr.incoming_of_terminator ends] at incoming_mem
      cases incoming_mem

/-- What is known at a label to which a block goes was known at the start of the block or is defined
in it. -/
theorem target_subset
    (flow : Flow knownAt (some (knownAt block.label)) (block.instrs.map .instr) none)
    {target : Label}
    (is_target : target ∈ block.last.targets)
    {register : Register}
    (is_known : register ∈ knownAt target) :
    register ∈ knownAt block.label ∨ DefinedIn block.instrs register := by
  rw [Block.instrs, List.map_append] at flow
  obtain ⟨middle, bodyFlow, lastFlow⟩ := flow.exists_middle
  cases lastFlow with
  | plain stays => simp [block.last_terminator] at stays
  | terminator ends uses_known target_known =>
      rcases bodyFlow.known_subset (target_known target is_target is_known) with before | defined
      · exact .inl before
      · exact .inr (defined.append_left _)

/-- Every path to a block has defined the registers that are known at the block's label. -/
theorem defined_on_path
    (flow : Flow knownAt none (blocks.flatMap Block.items) none)
    (entry_empty : knownAt .entry = ∅)
    (path : Path blocks passed block)
    {register : Register}
    (is_known : register ∈ knownAt block.label) :
    DefinedIn (passed.flatMap Block.instrs) register := by
  induction path generalizing register with
  | entry block_mem at_entry =>
      rw [at_entry, entry_empty] at is_known
      exact absurd is_known (Set.notMem_empty register)
  | step path next_mem is_target inductionHypothesis =>
      rw [List.flatMap_append, List.flatMap_singleton]
      rcases (flow.of_blocks path.mem).target_subset is_target is_known with
        before | defined
      · exact (inductionHypothesis before).append_left _
      · exact defined.append_right _

end Paths

end Flow

namespace Lowering

/-- Sets of registers for labels in three ranges: those up to a bound, those above it up to another,
and those above both. -/
theorem exists_joined
    {bound inner : Nat}
    (bound_le : bound ≤ inner)
    (low : Label -> Set Register)
    (middle : Nat -> Set Register)
    (high : Label -> Set Register) :
    ∃ knownAt : Label -> Set Register,
      (∀ number ≤ bound, knownAt (.numbered number) = low (.numbered number)) ∧
      (∀ number, bound < number -> number ≤ inner -> knownAt (.numbered number) = middle number) ∧
      (∀ number, inner < number -> knownAt (.numbered number) = high (.numbered number)) := by
  refine ⟨fun label => Label.casesOn label ∅ fun number =>
    if number ≤ bound then low label else if number ≤ inner then middle number else high label,
    ?_, ?_, ?_⟩
  · intro number upTo
    exact if_pos upTo
  · intro number above upTo
    exact (if_neg (by omega)).trans (if_pos upTo)
  · intro number above
    exact (if_neg (by omega)).trans (if_neg (by omega))

/-- Only the sets of the labels that are given for the code matter. -/
theorem Naming.flow
    {labels labels' : Nat}
    {code : List Item}
    {knownAt other : Label -> Set Register}
    {start final : Option (Set Register)}
    (naming : Naming labels code labels')
    (flow : Flow knownAt start code final)
    (agrees : ∀ number, labels < number -> number ≤ labels' ->
      other (.numbered number) = knownAt (.numbered number)) :
    Flow other start code final := by
  have agrees_between : ∀ label : Label, label.Between labels labels' ->
      other label = knownAt label := by
    intro label between
    cases label with
    | entry => exact between.elim
    | numbered number => exact agrees number between.1 between.2
  exact flow.congr (fun label declared => agrees_between label (naming.declared_between declared))
    (fun label named => agrees_between label (naming.refer_between label named))

/-- Code keeps what is known and adds given registers, with some sets for its labels. -/
def Provides (known : Set Register) (code : List Item) (results : List Register) : Prop :=
  ∃ knownAt final, Flow knownAt (some known) code (some final) ∧ known ⊆ final ∧
    ∀ register ∈ results, register ∈ final

theorem subset_extend
    (instr : Instr)
    (known : Set Register) :
    known ⊆ instr.extend known :=
  fun _ is_known => .inl is_known

/-- The code of a value that comes of a known operand needs no sets. -/
theorem Straight.exists_flow
    {value result : Operand}
    {registers registers' : Nat}
    {code : List Item}
    (straight : Straight value registers code result registers')
    {known : Set Register}
    (value_known : ∀ register ∈ value.registers, register ∈ known)
    (knownAt : Label -> Set Register) :
    ∃ final, Flow knownAt (some known) code (some final) ∧ known ⊆ final ∧
      ∀ register ∈ result.registers, register ∈ final := by
  cases straight with
  | kept => exact ⟨known, .nil _, subset_rfl, value_known⟩
  | computed defines uses_eq incoming_eq =>
      refine ⟨_, .plain (Instr.isTerminator_of_defined defines) ?_ ?_ (.nil _), subset_extend _ _,
        ?_⟩
      · rw [uses_eq]
        exact value_known
      · simp [incoming_eq]
      · intro register register_mem
        rw [List.mem_singleton.1 register_mem]
        exact .inr defines

/-- One instruction that uses known registers needs no sets. -/
theorem flow_single
    {instr : Instr}
    {known : Set Register}
    (stays : instr.isTerminator = false)
    (uses_known : ∀ register ∈ instr.uses, register ∈ known)
    (incoming_eq : instr.incoming = [])
    (knownAt : Label -> Set Register) :
    Flow knownAt (some known) [.instr instr] (some (instr.extend known)) :=
  .plain stays uses_known (by simp [incoming_eq]) (.nil _)

/-- The code of a logical operator, around that of its operands. -/
theorem provides_logical
    (op : BinaryOp)
    {labels labels₁ labels₂ registers : Nat}
    {leftCode rightCode : List Item}
    {leftValue rightValue : Operand}
    {known : Set Register}
    (leftNaming : Naming labels leftCode labels₁)
    (rightNaming : Naming (labels₁ + 4) rightCode labels₂)
    (leftProvides : Provides known leftCode leftValue.registers)
    (rightProvides : ∀ known, Provides known rightCode rightValue.registers) :
    Provides known
      (leftCode ++ logicalOpening op leftValue labels₁ ++ rightCode ++
        logicalClosing op rightValue registers labels₁)
      (Operand.register (registers + 1)).registers := by
  obtain ⟨low, between, leftFlow, kept, left_known⟩ := leftProvides
  obtain ⟨high, final, rightFlow, kept', right_known⟩ := rightProvides between
  -- What the right operand defines is known where it ends, but not where the two ways join.
  obtain ⟨knownAt, low_eq, middle_eq, high_eq⟩ := exists_joined (Nat.le_add_right labels₁ 4) low
    (fun number => if number = labels₁ + 3 then final else between) high
  have leftFlow' := leftNaming.flow leftFlow fun number _ upTo => low_eq number upTo
  have rightFlow' := rightNaming.flow rightFlow fun number above _ => high_eq number above
  have start_eq : knownAt (.numbered (labels₁ + 1)) = between := by simp [middle_eq]
  have rightStart_eq : knownAt (.numbered (labels₁ + 2)) = between := by simp [middle_eq]
  have rightEnd_eq : knownAt (.numbered (labels₁ + 3)) = final := by simp [middle_eq]
  have joined_eq : knownAt (.numbered (labels₁ + 4)) = between := by simp [middle_eq]
  refine ⟨knownAt, Instr.extend (.phi (registers + 1) (.bool (shortValue op))
    (.numbered (labels₁ + 1)) rightValue (.numbered (labels₁ + 3))) between,
    ((leftFlow'.append ?_).append rightFlow').append ?_, ?_, ?_⟩
  · refine .terminator rfl (by simp [Instr.uses]) (by simp [start_eq]) (.label ?_)
    rw [start_eq]
    refine .terminator (isTerminator_decision _ _ _ _) ?_ (by simp [joined_eq, rightStart_eq])
      (.label ?_)
    · rw [uses_decision]
      exact left_known
    · rw [rightStart_eq]
      exact .nil _
  · refine .terminator rfl (by simp [Instr.uses]) (by simp [rightEnd_eq]) (.label ?_)
    rw [rightEnd_eq]
    refine .terminator rfl (by simp [Instr.uses]) (by simpa [joined_eq] using kept') (.label ?_)
    rw [joined_eq]
    refine .plain rfl (by simp [Instr.uses]) ?_ (.nil _)
    simp only [Instr.incoming, List.forall_mem_cons, rightEnd_eq]
    exact ⟨by simp [Operand.registers], right_known, by simp⟩
  · exact kept.trans (subset_extend _ _)
  · intro register register_mem
    rw [List.mem_singleton.1 register_mem]
    exact .inr rfl

section Expressions

variable {context : Context} {expression : Expr} {registers labels registers' labels' : Nat}
variable {code : List Item} {operand : Operand}

/-- The code of an expression uses known registers only, and its operand is known after it. -/
theorem ExprCode.provides
    (emitted : ExprCode context expression registers labels code operand registers' labels')
    (known : Set Register) :
    Provides known code operand.registers := by
  induction emitted generalizing known with
  | int => exact ⟨fun _ => ∅, known, .nil _, subset_rfl, by simp [Operand.registers]⟩
  | double => exact ⟨fun _ => ∅, known, .nil _, subset_rfl, by simp [Operand.registers]⟩
  | bool => exact ⟨fun _ => ∅, known, .nil _, subset_rfl, by simp [Operand.registers]⟩
  | name =>
      refine ⟨fun _ => ∅, _, flow_single rfl (by simp [Instr.uses]) rfl _, subset_extend _ _, ?_⟩
      intro register register_mem
      rw [List.mem_singleton.1 register_mem]
      exact .inr rfl
  | assign site target tagged valueTagged valueCode found accepts coerced valueHypothesis =>
      obtain ⟨knownAt, between, valueFlow, kept, value_known⟩ := valueHypothesis known
      obtain ⟨final, coercionFlow, kept', stored_known⟩ :=
        coerced.straight.exists_flow value_known knownAt
      refine ⟨knownAt, _, (valueFlow.append coercionFlow).append (flow_single rfl ?_ rfl _), ?_, ?_⟩
      · exact stored_known
      · exact (kept.trans kept').trans (subset_extend _ _)
      · exact fun register register_mem => .inl (stored_known register register_mem)
  | unary site op tagged operandTagged operandCode unaryCode operandHypothesis =>
      obtain ⟨knownAt, between, operandFlow, kept, value_known⟩ := operandHypothesis known
      obtain ⟨final, appliedFlow, kept', result_known⟩ :=
        unaryCode.straight.exists_flow value_known knownAt
      exact ⟨knownAt, final, operandFlow.append appliedFlow, kept.trans kept', result_known⟩
  | binary site op plain tagged leftTagged rightTagged leftEmitted rightEmitted common leftCoerced
      rightCoerced lowered result_eq leftHypothesis rightHypothesis =>
      obtain ⟨low, between, leftFlow, kept, left_known⟩ := leftHypothesis known
      obtain ⟨high, between', rightFlow, kept', right_known⟩ := rightHypothesis between
      obtain ⟨knownAt, low_eq, -, high_eq⟩ :=
        exists_joined (Nat.le_refl _) low (fun _ => ∅) high
      have leftFlow' := leftEmitted.naming.flow leftFlow fun number _ upTo => low_eq number upTo
      have rightFlow' := rightEmitted.naming.flow rightFlow fun number above _ =>
        high_eq number above
      obtain ⟨final, leftCoercion, kept₁, left_known'⟩ :=
        leftCoerced.straight.exists_flow (fun register register_mem =>
          kept' (left_known register register_mem)) knownAt
      obtain ⟨final', rightCoercion, kept₂, right_known'⟩ :=
        rightCoerced.straight.exists_flow (fun register register_mem =>
          kept₁ (right_known register register_mem)) knownAt
      refine ⟨knownAt, _, (((leftFlow'.append rightFlow').append leftCoercion).append
        rightCoercion).append (flow_single rfl ?_ rfl _), ?_, ?_⟩
      · intro register register_mem
        rcases List.mem_append.1 register_mem with in_left | in_right
        · exact kept₂ (left_known' register in_left)
        · exact right_known' register in_right
      · exact (((kept.trans kept').trans kept₁).trans kept₂).trans (subset_extend _ _)
      · intro register register_mem
        rw [List.mem_singleton.1 register_mem]
        exact .inr rfl
  | logical site op logical tagged leftTagged rightTagged leftEmitted rightEmitted leftHypothesis
      rightHypothesis =>
      exact provides_logical op leftEmitted.naming rightEmitted.naming (leftHypothesis known)
        rightHypothesis

end Expressions

section Statements

variable {context : Context} {statement : Stmt} {registers labels registers' labels' : Nat}
variable {code : List Item}

/-- The code that prints a known operand needs no sets. -/
theorem PrintCode.exists_flow
    {value : Operand}
    {format : Format}
    {type : ValueType}
    (printed : PrintCode value registers format type code registers')
    {known : Set Register}
    (value_known : ∀ register ∈ value.registers, register ∈ known)
    (knownAt : Label -> Set Register) :
    ∃ final, Flow knownAt (some known) code (some final) ∧ known ⊆ final := by
  cases printed with
  | int =>
      refine ⟨_, flow_single rfl ?_ rfl _, subset_extend _ _⟩
      exact value_known
  | hex =>
      refine ⟨_, flow_single rfl ?_ rfl _, subset_extend _ _⟩
      exact value_known
  | double =>
      refine ⟨_, flow_single rfl ?_ rfl _, subset_extend _ _⟩
      exact value_known
  | bool =>
      refine ⟨_, .plain rfl ?_ (by simp [Instr.incoming]) (flow_single rfl ?_ rfl _),
        (subset_extend _ _).trans (subset_extend _ _)⟩
      · exact value_known
      · intro register register_mem
        rw [List.mem_singleton.1 register_mem]
        exact .inr rfl

/-- The code of a statement uses known registers only. -/
theorem StmtCode.provides
    (emitted : StmtCode context statement registers labels code registers' labels')
    (known : Set Register) :
    Provides known code [] := by
  induction emitted generalizing known with
  | done => exact ⟨fun _ => ∅, known, .nil _, subset_rfl, by simp⟩
  | seq firstEmitted restEmitted firstHypothesis restHypothesis =>
      obtain ⟨low, between, firstFlow, kept, -⟩ := firstHypothesis known
      obtain ⟨high, final, restFlow, kept', -⟩ := restHypothesis between
      obtain ⟨knownAt, low_eq, -, high_eq⟩ := exists_joined (Nat.le_refl _) low (fun _ => ∅) high
      have firstFlow' := firstEmitted.naming.flow firstFlow fun number _ upTo => low_eq number upTo
      have restFlow' := restEmitted.naming.flow restFlow fun number above _ => high_eq number above
      exact ⟨knownAt, final, firstFlow'.append restFlow', kept.trans kept', by simp⟩
  | block line emitted inductionHypothesis => exact inductionHypothesis known
  | expr line emitted =>
      obtain ⟨knownAt, final, flow, kept, -⟩ := emitted.provides known
      exact ⟨knownAt, final, flow, kept, by simp⟩
  | @branch line condition yes no registers labels registers₁ labels₁ registers₂ labels₂ registers₃
      labels₃ testCode yesCode noCode test testEmitted yesEmitted noEmitted yesHypothesis
      noHypothesis =>
      obtain ⟨low, between, testFlow, kept, test_known⟩ := testEmitted.provides known
      obtain ⟨yesSets, yesFinal, yesFlow, yes_kept, -⟩ := yesHypothesis between
      obtain ⟨noSets, noFinal, noFlow, no_kept, -⟩ := noHypothesis between
      obtain ⟨high, yes_eq, -, no_eq⟩ :=
        exists_joined (Nat.le_refl labels₂) yesSets (fun _ => ∅) noSets
      obtain ⟨knownAt, low_eq, middle_eq, high_eq⟩ :=
        exists_joined (Nat.le_add_right labels₁ 3) low (fun _ => between) high
      have yes_le := yesEmitted.naming.labels_le
      have testFlow' := testEmitted.naming.flow testFlow fun number _ upTo => low_eq number upTo
      have yesFlow' := yesEmitted.naming.flow yesFlow fun number above upTo =>
        (high_eq number above).trans (yes_eq number upTo)
      have noFlow' := noEmitted.naming.flow noFlow fun number above _ =>
        (high_eq number (by omega)).trans (no_eq number above)
      refine ⟨knownAt, between, ((((testFlow'.append ?_).append yesFlow').append ?_).append
        noFlow').append ?_, kept, by simp⟩
      · refine .terminator rfl test_known (by simp [middle_eq]) (.label ?_)
        rw [middle_eq _ (by omega) (by omega)]
        exact .nil _
      · refine .terminator rfl (by simp [Instr.uses]) (by simpa [middle_eq] using yes_kept)
          (.label ?_)
        rw [middle_eq _ (by omega) (by omega)]
        exact .nil _
      · refine .terminator rfl (by simp [Instr.uses]) (by simpa [middle_eq] using no_kept)
          (.label ?_)
        rw [middle_eq _ (by omega) (by omega)]
        exact .nil _
  | @loop line condition body registers labels registers₁ labels₁ registers₂ labels₂ testCode
      bodyCode test testEmitted bodyEmitted bodyHypothesis =>
      obtain ⟨low, between, testFlow, kept, test_known⟩ := testEmitted.provides known
      obtain ⟨bodySets, bodyFinal, bodyFlow, body_kept, -⟩ := bodyHypothesis between
      obtain ⟨high, test_eq, middle_eq, body_eq⟩ :=
        exists_joined (Nat.le_add_right labels₁ 2) low (fun _ => between) bodySets
      obtain ⟨knownAt, -, start_eq, high_eq⟩ :=
        exists_joined (Nat.le_add_right labels 1) (fun _ => ∅) (fun _ => known) high
      have test_le := testEmitted.naming.labels_le
      have testFlow' := testEmitted.naming.flow testFlow fun number above upTo =>
        (high_eq number above).trans (test_eq number upTo)
      have bodyFlow' := bodyEmitted.naming.flow bodyFlow fun number above _ =>
        (high_eq number (by omega)).trans (body_eq number above)
      have inner_eq : ∀ number, labels₁ < number -> number ≤ labels₁ + 2 ->
          knownAt (.numbered number) = between := fun number above upTo =>
        (high_eq number (by omega)).trans (middle_eq number above upTo)
      refine ⟨knownAt, between, ((((Flow.append ?_ testFlow').append ?_).append bodyFlow').append
        ?_), kept, by simp⟩
      · refine .terminator rfl (by simp [Instr.uses]) (by simp [start_eq]) (.label ?_)
        rw [start_eq _ (by omega) (by omega)]
        exact .nil _
      · refine .terminator rfl test_known (by simp [inner_eq]) (.label ?_)
        rw [inner_eq _ (by omega) (by omega)]
        exact .nil _
      · refine .terminator rfl (by simp [Instr.uses]) ?_ (.label ?_)
        · simpa [start_eq] using kept.trans body_kept
        · rw [inner_eq _ (by omega) (by omega)]
          exact .nil _
  | write line tagged emitted print =>
      obtain ⟨knownAt, between, flow, kept, operand_known⟩ := emitted.provides known
      obtain ⟨final, printFlow, kept'⟩ := print.exists_flow operand_known knownAt
      exact ⟨knownAt, final, flow.append printFlow, kept.trans kept', by simp⟩
  | writeText line registers labels found =>
      exact ⟨fun _ => ∅, _, flow_single rfl (by simp [Instr.uses]) rfl _, subset_extend _ _,
        by simp⟩
  | read line registers labels found scan =>
      exact ⟨fun _ => ∅, _, flow_single rfl (by simp [Instr.uses]) rfl _, subset_extend _ _,
        by simp⟩
  | leave line registers labels =>
      exact ⟨fun _ => known, known, .terminator rfl (by simp [Instr.uses]) (by simp)
        (.label (.nil _)), subset_rfl, by simp⟩

end Statements

end Lowering

end MiniLang
