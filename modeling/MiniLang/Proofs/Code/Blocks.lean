import Mathlib.Data.List.Nodup
import MiniLang.Proofs.Code.Emission

/-!
# Blocks and names of the emitted code

The emitted code of every construct goes from an open block to an open block.  It declares each of
the labels given for it once, branches to no other label, and defines the registers given for it in
order.  For a whole routine this means that its lines fall into blocks, each of them closed by the
one instruction that leaves it.
-/

namespace MiniLang

/-- The registers of an operand. -/
def Operand.registers : Operand -> List Register
  | .register number => [number]
  | _ => []

namespace Instr

/-- The labels to which an instruction may go. -/
def targets : Instr -> List Label
  | .jump target => [target]
  | .fork _ yes no => [yes, no]
  | _ => []

@[simp] theorem targets_jump (target : Label) : (Instr.jump target).targets = [target] := rfl

@[simp] theorem targets_fork (condition : Operand) (yes no : Label) :
    (Instr.fork condition yes no).targets = [yes, no] := rfl

@[simp] theorem targets_ret : Instr.ret.targets = [] := rfl

@[simp] theorem targets_phi (target : Register) (first second : Operand)
    (firstFrom secondFrom : Label) :
    (Instr.phi target first firstFrom second secondFrom).targets = [] := rfl

/-- The values that an instruction takes by the block control came from, each with that block. -/
def incoming : Instr -> List (Operand × Label)
  | .phi _ first firstFrom second secondFrom => [(first, firstFrom), (second, secondFrom)]
  | _ => []

@[simp] theorem incoming_jump (target : Label) : (Instr.jump target).incoming = [] := rfl

@[simp] theorem incoming_fork (condition : Operand) (yes no : Label) :
    (Instr.fork condition yes no).incoming = [] := rfl

@[simp] theorem incoming_ret : Instr.ret.incoming = [] := rfl

/-- The labels that an instruction names. -/
def refers (instr : Instr) : List Label :=
  instr.targets ++ instr.incoming.map Prod.snd

@[simp] theorem refers_jump (target : Label) : (Instr.jump target).refers = [target] := rfl

@[simp] theorem refers_fork (condition : Operand) (yes no : Label) :
    (Instr.fork condition yes no).refers = [yes, no] := rfl

@[simp] theorem refers_ret : Instr.ret.refers = [] := rfl

@[simp] theorem refers_phi (target : Register) (first second : Operand)
    (firstFrom secondFrom : Label) :
    (Instr.phi target first firstFrom second secondFrom).refers = [firstFrom, secondFrom] := rfl

/-- The registers that an instruction uses wherever control came from. -/
def uses : Instr -> List Register
  | .store _ value _ => value.registers
  | .operate _ _ left right => left.registers ++ right.registers
  | .fneg _ value => value.registers
  | .convert _ _ value => value.registers
  | .select _ condition _ _ => condition.registers
  | .print _ _ value => value.registers
  | .printSelected format => [format]
  | .fork condition _ _ => condition.registers
  | _ => []

theorem isTerminator_of_defined
    {instr : Instr}
    {target : Register}
    (defines : instr.defined? = some target) :
    instr.isTerminator = false := by
  cases instr <;> first | rfl | cases defines

theorem targets_of_plain
    {instr : Instr}
    (plain : instr.isTerminator = false) :
    instr.targets = [] := by
  cases instr <;> first | rfl | cases plain

theorem defined_of_terminator
    {instr : Instr}
    (terminator : instr.isTerminator = true) :
    instr.defined? = none := by
  cases instr <;> first | rfl | cases terminator

theorem incoming_of_terminator
    {instr : Instr}
    (terminator : instr.isTerminator = true) :
    instr.incoming = [] := by
  cases instr <;> first | rfl | cases terminator

end Instr

namespace Item

/-- The label that a line declares. -/
def label? : Item -> Option Label
  | .label opened => some opened
  | .instr _ => none

/-- The register that a line defines. -/
def defined? : Item -> Option Register
  | .label _ => none
  | .instr instruction => instruction.defined?

/-- The labels to which a line may go. -/
def targets : Item -> List Label
  | .label _ => []
  | .instr instruction => instruction.targets

/-- The labels that a line names without declaring them. -/
def refers : Item -> List Label
  | .label _ => []
  | .instr instruction => instruction.refers

@[simp] theorem label?_label (opened : Label) : (Item.label opened).label? = some opened := rfl

@[simp] theorem label?_instr (instruction : Instr) : (Item.instr instruction).label? = none := rfl

@[simp] theorem defined?_label (opened : Label) : (Item.label opened).defined? = none := rfl

@[simp] theorem defined?_instr (instruction : Instr) : (Item.instr instruction).defined? =
    instruction.defined? := rfl

@[simp] theorem targets_label (opened : Label) : (Item.label opened).targets = [] := rfl

@[simp] theorem targets_instr (instruction : Instr) : (Item.instr instruction).targets =
    instruction.targets := rfl

@[simp] theorem refers_label (opened : Label) : (Item.label opened).refers = [] := rfl

@[simp] theorem refers_instr (instruction : Instr) : (Item.instr instruction).refers =
    instruction.refers := rfl

theorem refers_of_targets
    {item : Item}
    {target : Label}
    (is_target : target ∈ item.targets) :
    target ∈ item.refers := by
  cases item with
  | label opened => exact is_target
  | instr instruction => exact List.mem_append_left _ is_target

end Item

/-- A label has a number above one bound and at most another. -/
def Label.Between (low high : Nat) : Label -> Prop
  | .entry => False
  | .numbered number => low < number ∧ number ≤ high

instance (low high : Nat) : DecidablePred (Label.Between low high)
  | .entry => inferInstanceAs (Decidable False)
  | .numbered number => inferInstanceAs (Decidable (low < number ∧ number ≤ high))

@[simp] theorem Label.not_between_entry (low high : Nat) : ¬Label.entry.Between low high := id

@[simp] theorem Label.between_numbered (low high number : Nat) :
    (Label.numbered number).Between low high ↔ low < number ∧ number ≤ high := Iff.rfl

theorem Label.Between.mono
    {low high low' high' : Nat}
    {label : Label}
    (between : label.Between low high)
    (low_le : low' ≤ low)
    (high_le : high ≤ high') :
    label.Between low' high' := by
  cases label with
  | entry => exact between
  | numbered number =>
      exact ⟨Nat.lt_of_le_of_lt low_le between.1, Nat.le_trans between.2 high_le⟩

theorem Label.Between.disjoint
    {low high low' high' : Nat}
    {label : Label}
    (between : label.Between low high)
    (apart : high ≤ low' ∨ high' ≤ low) :
    ¬label.Between low' high' := by
  cases label with
  | entry => exact between.elim
  | numbered number =>
      rw [Label.between_numbered] at between ⊢
      omega

@[simp] theorem Label.not_between_self (number : Nat) (label : Label) :
    ¬label.Between number number := by
  cases label with
  | entry => exact id
  | numbered other =>
      rw [Label.between_numbered]
      omega

/-- Whether a block is open at a point of the code. -/
inductive Phase where
  | inside
  | outside
  deriving DecidableEq, Repr

namespace Phase

/-- The phase after a line, if the line may stand there. -/
def next? : Phase -> Item -> Option Phase
  | .outside, .label _ => some .inside
  | .inside, .instr instr => some (if instr.isTerminator then .outside else .inside)
  | _, _ => none

/-- The phase after some lines, if they may stand there. -/
def after? (phase : Phase) : List Item -> Option Phase
  | [] => some phase
  | item :: rest => (phase.next? item).bind fun next => next.after? rest

@[simp] theorem after?_nil (phase : Phase) : phase.after? [] = some phase := rfl

@[simp] theorem after?_label (label : Label) (rest : List Item) :
    Phase.outside.after? (.label label :: rest) = Phase.inside.after? rest := rfl

theorem after?_plain
    {instr : Instr}
    (plain : instr.isTerminator = false)
    (rest : List Item) :
    Phase.inside.after? (.instr instr :: rest) = Phase.inside.after? rest := by
  simp [after?, next?, plain]

theorem after?_terminator
    {instr : Instr}
    (terminator : instr.isTerminator = true)
    (rest : List Item) :
    Phase.inside.after? (.instr instr :: rest) = Phase.outside.after? rest := by
  simp [after?, next?, terminator]

theorem after?_append
    (phase : Phase)
    (first second : List Item) :
    phase.after? (first ++ second) =
      (phase.after? first).bind fun reached => reached.after? second := by
  induction first generalizing phase with
  | nil => rfl
  | cons item rest inductionHypothesis =>
      rw [List.cons_append, after?, after?]
      cases phase.next? item with
      | none => rfl
      | some next => exact inductionHypothesis next

end Phase

namespace Lowering

/-- The numbers above one bound and at most another, in order. -/
def numbers (low high : Nat) : List Nat :=
  List.range' (low + 1) (high - low)

@[simp] theorem numbers_self (number : Nat) : numbers number number = [] := by
  simp [numbers]

@[simp] theorem numbers_succ (number : Nat) : numbers number (number + 1) = [number + 1] := by
  simp [numbers]

theorem numbers_append
    {low middle high : Nat}
    (low_le : low ≤ middle)
    (le_high : middle ≤ high) :
    numbers low middle ++ numbers middle high = numbers low high := by
  unfold numbers
  have start_eq : middle + 1 = low + 1 + 1 * (middle - low) := by omega
  rw [start_eq, List.range'_append]
  congr 1
  omega

@[simp] theorem mem_numbers
    {low high number : Nat} :
    number ∈ numbers low high ↔ low < number ∧ number ≤ high := by
  rw [numbers, List.mem_range'_1]
  omega

/-- Code that goes from an open block to an open block and defines the registers given for it in
order. -/
structure Passage (registers : Nat) (code : List Item) (registers' : Nat) : Prop where
  registers_le : registers ≤ registers'
  phase_eq : Phase.inside.after? code = some .inside
  defined_eq : code.filterMap Item.defined? = numbers registers registers'

namespace Passage

variable {registers registers₁ registers₂ : Nat} {first second : List Item}

theorem nil (registers : Nat) : Passage registers [] registers where
  registers_le := Nat.le_refl _
  phase_eq := rfl
  defined_eq := by simp

theorem append
    (firstPassage : Passage registers first registers₁)
    (secondPassage : Passage registers₁ second registers₂) :
    Passage registers (first ++ second) registers₂ where
  registers_le := Nat.le_trans firstPassage.registers_le secondPassage.registers_le
  phase_eq := by
    rw [Phase.after?_append, firstPassage.phase_eq]
    exact secondPassage.phase_eq
  defined_eq := by
    rw [List.filterMap_append, firstPassage.defined_eq, secondPassage.defined_eq]
    exact numbers_append firstPassage.registers_le secondPassage.registers_le

/-- An instruction that stays in its block and defines nothing. -/
theorem effect
    {instr : Instr}
    (registers : Nat)
    (plain : instr.isTerminator = false)
    (silent : instr.defined? = none) :
    Passage registers [.instr instr] registers where
  registers_le := Nat.le_refl _
  phase_eq := by rw [Phase.after?_plain plain, Phase.after?_nil]
  defined_eq := by simp [silent]

/-- An instruction that defines the next register. -/
theorem define
    {instr : Instr}
    (defines : instr.defined? = some (registers + 1)) :
    Passage registers [.instr instr] (registers + 1) where
  registers_le := Nat.le_succ _
  phase_eq := by rw [Phase.after?_plain (Instr.isTerminator_of_defined defines), Phase.after?_nil]
  defined_eq := by simp [defines]

/-- The end of a block and the start of another. -/
theorem turn
    {instr : Instr}
    (registers : Nat)
    (label : Label)
    (terminator : instr.isTerminator = true) :
    Passage registers [.instr instr, .label label] registers where
  registers_le := Nat.le_refl _
  phase_eq := by
    rw [Phase.after?_terminator terminator, Phase.after?_label, Phase.after?_nil]
  defined_eq := by simp [List.filterMap_cons, Instr.defined_of_terminator terminator]

end Passage

/-- Code that declares each of the labels given for it once and names no other. -/
structure Naming (labels : Nat) (code : List Item) (labels' : Nat) : Prop where
  labels_le : labels ≤ labels'
  count_label : ∀ label, (code.filterMap Item.label?).count label =
    if label.Between labels labels' then 1 else 0
  refer_between : ∀ label ∈ code.flatMap Item.refers, label.Between labels labels'

namespace Naming

variable {labels labels₁ labels₂ : Nat} {code first second : List Item}

/-- Code that declares the next labels in order and names these only. -/
theorem ofNumbers
    (labels_le : labels ≤ labels₁)
    (declared_eq : code.filterMap Item.label? = (numbers labels labels₁).map .numbered)
    (refer_between : ∀ label ∈ code.flatMap Item.refers, label.Between labels labels₁) :
    Naming labels code labels₁ where
  labels_le := labels_le
  count_label := by
    intro label
    have nodup : ((numbers labels labels₁).map Label.numbered).Nodup :=
      (List.nodup_range').map fun number other equal => Label.numbered.inj equal
    rw [declared_eq, nodup.count]
    refine if_congr ?_ rfl rfl
    cases label with
    | entry => simp
    | numbered number =>
        simp only [List.mem_map, Label.numbered.injEq, exists_eq_right, mem_numbers,
          Label.between_numbered]
  refer_between := refer_between

/-- Code of one block declares no label and names none. -/
theorem plain
    (labels : Nat)
    (declared_eq : code.filterMap Item.label? = [])
    (refers_eq : code.flatMap Item.refers = []) :
    Naming labels code labels :=
  .ofNumbers (Nat.le_refl _) (by simp [declared_eq]) (by simp [refers_eq])

theorem append
    (firstNaming : Naming labels first labels₁)
    (secondNaming : Naming labels₁ second labels₂) :
    Naming labels (first ++ second) labels₂ where
  labels_le := Nat.le_trans firstNaming.labels_le secondNaming.labels_le
  count_label := by
    intro label
    have labels_le := firstNaming.labels_le
    have labels_le' := secondNaming.labels_le
    rw [List.filterMap_append, List.count_append, firstNaming.count_label,
      secondNaming.count_label]
    cases label with
    | entry => simp
    | numbered number =>
        simp only [Label.between_numbered]
        split_ifs <;> omega
  refer_between := by
    intro label label_mem
    rw [List.flatMap_append, List.mem_append] at label_mem
    rcases label_mem with in_first | in_second
    · exact (firstNaming.refer_between label in_first).mono (Nat.le_refl _)
        secondNaming.labels_le
    · exact (secondNaming.refer_between label in_second).mono firstNaming.labels_le
        (Nat.le_refl _)

/-- The order of the lines does not matter. -/
theorem perm
    (naming : Naming labels first labels₁)
    (reordered : first.Perm second) :
    Naming labels second labels₁ where
  labels_le := naming.labels_le
  count_label := by
    intro label
    rw [← naming.count_label label]
    exact ((reordered.filterMap Item.label?).count_eq label).symm
  refer_between := by
    intro label label_mem
    refine naming.refer_between label ?_
    rw [List.mem_flatMap] at label_mem ⊢
    obtain ⟨item, item_mem, named⟩ := label_mem
    exact ⟨item, reordered.mem_iff.2 item_mem, named⟩

/-- Labels that are given before the code they enclose, and declared around it. -/
theorem enclose
    {before after : List Item}
    {labels₃ : Nat}
    (firstNaming : Naming labels first labels₁)
    (around : Naming labels₁ (before ++ after) labels₂)
    (secondNaming : Naming labels₂ second labels₃) :
    Naming labels (first ++ before ++ second ++ after) labels₃ := by
  refine ((firstNaming.append around).append secondNaming).perm ?_
  simp only [List.append_assoc]
  exact ((List.perm_append_comm).append_left _).append_left _

/-- The same with two pieces of code that are enclosed. -/
theorem encloseTwo
    {before between after third : List Item}
    {labels₃ labels₄ : Nat}
    (firstNaming : Naming labels first labels₁)
    (around : Naming labels₁ (before ++ (between ++ after)) labels₂)
    (secondNaming : Naming labels₂ second labels₃)
    (thirdNaming : Naming labels₃ third labels₄) :
    Naming labels (first ++ before ++ second ++ between ++ third ++ after) labels₄ := by
  refine ((firstNaming.enclose around secondNaming).append thirdNaming).perm ?_
  simp only [List.append_assoc]
  exact ((((List.perm_append_comm).append_left _).append_left _).append_left _).append_left _

/-- Another instruction that names labels which are declared. -/
theorem insert
    {instr : Instr}
    (naming : Naming labels (first ++ second) labels₁)
    (refer_between : ∀ label ∈ instr.refers, label.Between labels labels₁) :
    Naming labels (first ++ .instr instr :: second) labels₁ where
  labels_le := naming.labels_le
  count_label := by
    intro label
    rw [← naming.count_label label]
    simp [List.filterMap_cons]
  refer_between := by
    intro label label_mem
    simp only [List.flatMap_append, List.flatMap_cons, List.mem_append, Item.refers_instr]
      at label_mem
    rcases label_mem with in_first | named | in_second
    · exact naming.refer_between label (by simp [in_first])
    · exact refer_between label named
    · exact naming.refer_between label (by simp [in_second])

theorem target_between
    (naming : Naming labels code labels₁)
    {target : Label}
    (target_mem : target ∈ code.flatMap Item.targets) :
    target.Between labels labels₁ := by
  obtain ⟨item, item_mem, is_target⟩ := List.mem_flatMap.1 target_mem
  exact naming.refer_between target
    (List.mem_flatMap.2 ⟨item, item_mem, Item.refers_of_targets is_target⟩)

theorem declared_between
    (naming : Naming labels code labels₁)
    {label : Label}
    (declared : label ∈ code.filterMap Item.label?) :
    label.Between labels labels₁ := by
  have counted := naming.count_label label
  rw [← List.count_pos_iff] at declared
  by_contra outside
  rw [if_neg outside] at counted
  omega

end Naming

/-- The code of a value that is an operand as it is, or comes of it by one instruction. -/
inductive Straight (value : Operand) (registers : Nat) : List Item -> Operand -> Nat -> Prop where
  | kept : Straight value registers [] value registers
  | computed {instr : Instr}
      (defines : instr.defined? = some (registers + 1))
      (uses_eq : instr.uses = value.registers)
      (incoming_eq : instr.incoming = []) :
      Straight value registers [.instr instr] (.register (registers + 1)) (registers + 1)

section Straight

variable {value result : Operand} {registers registers' : Nat} {code : List Item}

theorem Straight.passage
    (straight : Straight value registers code result registers') :
    Passage registers code registers' := by
  cases straight with
  | kept => exact .nil registers
  | computed defines => exact .define defines

theorem Straight.naming
    (straight : Straight value registers code result registers')
    (labels : Nat) :
    Naming labels code labels := by
  cases straight with
  | kept => exact .plain labels rfl rfl
  | computed defines uses_eq incoming_eq =>
      refine .plain labels rfl ?_
      simp [Instr.refers, Instr.targets_of_plain (Instr.isTerminator_of_defined defines),
        incoming_eq]

theorem CoercionCode.straight
    {type wanted : ValueType}
    (coerced : CoercionCode value type wanted registers code result registers') :
    Straight value registers code result registers' := by
  cases coerced with
  | promoted => exact .computed rfl rfl rfl
  | kept => exact .kept

theorem UnaryCode.straight
    {op : UnaryOp}
    {type : ValueType}
    (applied : UnaryCode op type value registers code result registers') :
    Straight value registers code result registers' := by
  cases applied with
  | applied lowered =>
      cases lowered <;> exact .computed rfl (by simp [Instr.uses, Operand.registers]) rfl
  | kept => exact .kept

end Straight

section Decision

variable (op : BinaryOp) (value : Operand) (joined right : Label)

@[simp] theorem isTerminator_decision :
    (decision op value joined right).isTerminator = true := by
  unfold decision
  split <;> rfl

@[simp] theorem mem_targets_decision
    (target : Label) :
    target ∈ (decision op value joined right).targets ↔ target = joined ∨ target = right := by
  unfold decision
  split
  · simp [Instr.targets]
  · simp [Instr.targets, or_comm]

@[simp] theorem incoming_decision : (decision op value joined right).incoming = [] :=
  Instr.incoming_of_terminator (isTerminator_decision op value joined right)

@[simp] theorem mem_refers_decision
    (label : Label) :
    label ∈ (decision op value joined right).refers ↔ label = joined ∨ label = right := by
  simp [Instr.refers]

@[simp] theorem uses_decision : (decision op value joined right).uses = value.registers := by
  unfold decision
  split <;> rfl

variable (registers labels : Nat)

theorem passage_logicalOpening :
    Passage registers (logicalOpening op value labels) registers :=
  (Passage.turn _ _ rfl).append (.turn _ _ (isTerminator_decision _ _ _ _))

theorem passage_logicalClosing :
    Passage registers (logicalClosing op value registers labels) (registers + 1) :=
  ((Passage.turn _ _ rfl).append (.turn _ _ rfl)).append (.define rfl)

/-- The lines around the right operand of a logical operator have four labels. -/
theorem naming_logical
    (left right : Operand) :
    Naming labels (logicalOpening op left labels ++ logicalClosing op right registers labels)
      (labels + 4) := by
  refine .ofNumbers (Nat.le_add_right _ _) ?_ ?_
  · simp [logicalOpening, logicalClosing, List.filterMap_cons, numbers, List.range']
  · rintro label label_mem
    simp only [logicalOpening, logicalClosing, List.cons_append, List.nil_append,
      List.flatMap_cons, List.flatMap_nil, Item.refers_instr, Item.refers_label, Instr.refers_jump,
      Instr.refers_phi, List.mem_append, List.mem_cons, List.not_mem_nil, or_false,
      mem_refers_decision] at label_mem
    rcases label_mem with rfl | (rfl | rfl) | rfl | rfl | rfl | rfl <;> simp

end Decision

section Expressions

variable {context : Context} {expression : Expr} {registers labels registers' labels' : Nat}
variable {code : List Item} {operand : Operand}

/-- The code of an expression goes from an open block to an open block. -/
theorem ExprCode.passage
    (emitted : ExprCode context expression registers labels code operand registers' labels') :
    Passage registers code registers' := by
  induction emitted with
  | int => exact .nil _
  | double => exact .nil _
  | bool => exact .nil _
  | name => exact .define rfl
  | assign site target tagged valueTagged valueCode found accepts coerced valuePassage =>
      exact (valuePassage.append coerced.straight.passage).append (.effect _ rfl rfl)
  | unary site op tagged operandTagged operandCode unaryCode operandPassage =>
      exact operandPassage.append unaryCode.straight.passage
  | binary site op plain tagged leftTagged rightTagged leftEmitted rightEmitted common leftCoerced
      rightCoerced lowered result_eq leftPassage rightPassage =>
      exact (((leftPassage.append rightPassage).append leftCoerced.straight.passage).append
        rightCoerced.straight.passage).append (.define rfl)
  | logical site op logical tagged leftTagged rightTagged leftEmitted rightEmitted leftPassage
      rightPassage =>
      exact ((leftPassage.append (passage_logicalOpening _ _ _ _)).append rightPassage).append
        (passage_logicalClosing _ _ _ _)

/-- The code of an expression declares each of its labels once. -/
theorem ExprCode.naming
    (emitted : ExprCode context expression registers labels code operand registers' labels') :
    Naming labels code labels' := by
  induction emitted with
  | int => exact .plain _ rfl rfl
  | double => exact .plain _ rfl rfl
  | bool => exact .plain _ rfl rfl
  | name => exact .plain _ rfl rfl
  | assign site target tagged valueTagged valueCode found accepts coerced valueNaming =>
      exact (valueNaming.append (coerced.straight.naming _)).append (.plain _ rfl rfl)
  | unary site op tagged operandTagged operandCode unaryCode operandNaming =>
      exact operandNaming.append (unaryCode.straight.naming _)
  | binary site op plain tagged leftTagged rightTagged leftEmitted rightEmitted common leftCoerced
      rightCoerced lowered result_eq leftNaming rightNaming =>
      exact (((leftNaming.append rightNaming).append (leftCoerced.straight.naming _)).append
        (rightCoerced.straight.naming _)).append (.plain _ rfl rfl)
  | logical site op logical tagged leftTagged rightTagged leftEmitted rightEmitted leftNaming
      rightNaming =>
      exact leftNaming.enclose (naming_logical _ _ _ _ _) rightNaming

end Expressions

section Statements

variable {context : Context} {statement : Stmt} {registers labels registers' labels' : Nat}
variable {code : List Item}

theorem PrintCode.passage
    {value : Operand}
    {format : Format}
    {type : ValueType}
    (printed : PrintCode value registers format type code registers') :
    Passage registers code registers' := by
  cases printed with
  | int => exact .effect _ rfl rfl
  | hex => exact .effect _ rfl rfl
  | double => exact .effect _ rfl rfl
  | bool => exact (Passage.define rfl).append (.effect _ rfl rfl)

theorem PrintCode.naming
    {value : Operand}
    {format : Format}
    {type : ValueType}
    (printed : PrintCode value registers format type code registers')
    (labels : Nat) :
    Naming labels code labels := by
  cases printed <;> exact .plain labels rfl rfl

/-- The code of a statement goes from an open block to an open block. -/
theorem StmtCode.passage
    (emitted : StmtCode context statement registers labels code registers' labels') :
    Passage registers code registers' := by
  induction emitted with
  | done => exact .nil _
  | seq firstEmitted restEmitted firstPassage restPassage => exact firstPassage.append restPassage
  | block line emitted passage => exact passage
  | expr line emitted => exact emitted.passage
  | branch line testEmitted yesEmitted noEmitted yesPassage noPassage =>
      exact ((((testEmitted.passage.append (.turn _ _ rfl)).append yesPassage).append
        (.turn _ _ rfl)).append noPassage).append (.turn _ _ rfl)
  | loop line testEmitted bodyEmitted bodyPassage =>
      exact ((((Passage.turn _ _ rfl).append testEmitted.passage).append
        (.turn _ _ rfl)).append bodyPassage).append (.turn _ _ rfl)
  | write line tagged emitted print => exact emitted.passage.append print.passage
  | writeText line registers labels found => exact .effect _ rfl rfl
  | read line registers labels found scan => exact .effect _ rfl rfl
  | leave line registers labels => exact .turn _ _ rfl

/-- The code of a statement declares each of its labels once. -/
theorem StmtCode.naming
    (emitted : StmtCode context statement registers labels code registers' labels') :
    Naming labels code labels' := by
  induction emitted with
  | done => exact .plain _ rfl rfl
  | seq firstEmitted restEmitted firstNaming restNaming => exact firstNaming.append restNaming
  | block line emitted naming => exact naming
  | expr line emitted => exact emitted.naming
  | branch line testEmitted yesEmitted noEmitted yesNaming noNaming =>
      refine testEmitted.naming.encloseTwo (.ofNumbers (by omega) ?_ ?_) yesNaming noNaming
      · simp [List.filterMap_cons, numbers, List.range']
      · simp
  | loop line testEmitted bodyEmitted bodyNaming =>
      refine Naming.insert (Naming.enclose (Naming.append (.ofNumbers (Nat.le_succ _) ?_ ?_)
        testEmitted.naming) (.ofNumbers (Nat.le_add_right _ 2) ?_ ?_) bodyNaming) ?_
      · simp [List.filterMap_cons]
      · simp
      · simp [List.filterMap_cons, numbers, List.range']
      · simp
      · have test_le := testEmitted.naming.labels_le
        have body_le := bodyNaming.labels_le
        simp only [Instr.refers_jump, List.mem_singleton, forall_eq, Label.between_numbered]
        omega
  | write line tagged emitted print => exact emitted.naming.append (print.naming _)
  | writeText line registers labels found => exact .plain _ rfl rfl
  | read line registers labels found scan => exact .plain _ rfl rfl
  | leave line registers labels =>
      refine .ofNumbers (by omega) ?_ ?_
      · simp [List.filterMap_cons]
      · simp

end Statements

end Lowering

/-- A block: a label, instructions that stay in the block, and the one that leaves it. -/
structure Block where
  label : Label
  body : List Instr
  last : Instr
  body_plain : ∀ instr ∈ body, instr.isTerminator = false
  last_terminator : last.isTerminator = true

namespace Block

/-- The instructions of a block. -/
def instrs (block : Block) : List Instr :=
  block.body ++ [block.last]

/-- The lines of a block. -/
def items (block : Block) : List Item :=
  .label block.label :: block.instrs.map .instr

/-- Lines that close every block they open, and open none twice, are the lines of blocks. -/
theorem exists_flatMap_items
    (items : List Item) :
    (Phase.outside.after? items = some .outside ->
      ∃ blocks : List Block, items = blocks.flatMap Block.items) ∧
    (Phase.inside.after? items = some .outside ->
      ∃ (body : List Instr) (last : Instr) (blocks : List Block),
        (∀ instr ∈ body, instr.isTerminator = false) ∧ last.isTerminator = true ∧
        items = (body ++ [last]).map .instr ++ blocks.flatMap Block.items) := by
  induction items with
  | nil =>
      refine ⟨fun _ => ⟨[], rfl⟩, ?_⟩
      intro left_open
      cases left_open
  | cons item rest inductionHypothesis =>
      obtain ⟨outsideHypothesis, insideHypothesis⟩ := inductionHypothesis
      constructor
      · intro closed
        cases item with
        | instr instruction => cases closed
        | label opened =>
            obtain ⟨body, last, blocks, body_plain, last_terminator, rest_eq⟩ :=
              insideHypothesis closed
            refine ⟨⟨opened, body, last, body_plain, last_terminator⟩ :: blocks, ?_⟩
            rw [rest_eq]
            rfl
      · intro closed
        cases item with
        | label opened => cases closed
        | instr instruction =>
            cases terminator : instruction.isTerminator with
            | true =>
                rw [Phase.after?_terminator terminator] at closed
                obtain ⟨blocks, rest_eq⟩ := outsideHypothesis closed
                exact ⟨[], instruction, blocks, by simp, terminator, by rw [rest_eq]; rfl⟩
            | false =>
                rw [Phase.after?_plain terminator] at closed
                obtain ⟨body, last, blocks, body_plain, last_terminator, rest_eq⟩ :=
                  insideHypothesis closed
                refine ⟨instruction :: body, last, blocks, ?_, last_terminator, ?_⟩
                · exact List.forall_mem_cons.2 ⟨terminator, body_plain⟩
                · rw [rest_eq]
                  rfl

/-- A block goes where its lines do. -/
theorem mem_targets_items
    {blocks : List Block}
    {block : Block}
    (block_mem : block ∈ blocks)
    {target : Label}
    (is_target : target ∈ block.last.targets) :
    target ∈ (blocks.flatMap Block.items).flatMap Item.targets := by
  refine List.mem_flatMap.2
    ⟨.instr block.last, List.mem_flatMap.2 ⟨block, block_mem, ?_⟩, is_target⟩
  simp [items, instrs]

@[simp] theorem label?_items
    (blocks : List Block) :
    (blocks.flatMap Block.items).filterMap Item.label? = blocks.map Block.label := by
  induction blocks with
  | nil => rfl
  | cons block rest inductionHypothesis =>
      rw [List.flatMap_cons, List.filterMap_append, inductionHypothesis]
      simp [items, List.filterMap_map, Function.comp_def]

end Block

namespace Lowering

/-- The slots of the variables stay in the block of the entry. -/
theorem passage_slots
    (scope : Scope) :
    Passage 0 scope.slots 0 := by
  unfold Scope.slots
  induction scope.entries.toList with
  | nil => exact .nil 0
  | cons declaration rest inductionHypothesis =>
      exact (Passage.effect 0 rfl rfl).append inductionHypothesis

theorem naming_slots
    (scope : Scope) :
    Naming 0 scope.slots 0 := by
  refine .plain 0 ?_ ?_
  · simp [Scope.slots, List.filterMap_map, Function.comp_def]
  · simp [Scope.slots, List.flatMap_map, Instr.refers, Instr.targets, Instr.incoming]

end Lowering

/-- The names and the blocks of a routine: how many registers and labels it has, and that its lines
are those of blocks. -/
structure Routine (items : List Item) (registers labels : Nat) (blocks : List Block) : Prop where
  items_eq : items = blocks.flatMap Block.items
  label_eq : ∃ others, blocks.map Block.label = .entry :: others ∧
    others.Perm ((Lowering.numbers 0 labels).map .numbered)
  target_between : ∀ target ∈ items.flatMap Item.targets, target.Between 0 labels
  defined_eq : items.filterMap Item.defined? = Lowering.numbers 0 registers

/-- Every generated routine is made of blocks. -/
theorem Program.exists_routine
    {program : Program}
    {tags : TagTable}
    {code : CodeModule}
    (generated : program.generate tags = .ok code) :
    ∃ registers labels blocks, Routine code.items registers labels blocks := by
  obtain ⟨body, registers, labels, emitted, items_eq, -⟩ := Program.stmtCode_of_generate generated
  have passage := (Lowering.passage_slots program.scope).append emitted.passage
  have naming := (Lowering.naming_slots program.scope).append emitted.naming
  have closed : Phase.outside.after? code.items = some .outside := by
    rw [items_eq, List.cons_append, List.cons_append, Phase.after?_label, Phase.after?_append,
      passage.phase_eq]
    rfl
  obtain ⟨blocks, blocks_eq⟩ := (Block.exists_flatMap_items code.items).1 closed
  refine ⟨registers, labels, blocks, blocks_eq, ?_, ?_, ?_⟩
  · have declared_eq : blocks.map Block.label =
        .entry :: (program.scope.slots ++ body).filterMap Item.label? := by
      rw [← Block.label?_items, ← blocks_eq, items_eq]
      simp [List.filterMap_cons]
    refine ⟨_, declared_eq, List.perm_iff_count.2 fun label => ?_⟩
    have counted : Lowering.Naming 0 (((Lowering.numbers 0 labels).map Label.numbered).map .label)
        labels := .ofNumbers (Nat.zero_le _) (by simp [List.filterMap_map, Function.comp_def])
      (by simp [List.flatMap_map])
    rw [naming.count_label, ← counted.count_label]
    simp [List.filterMap_map, Function.comp_def]
  · intro target target_mem
    refine naming.target_between ?_
    simpa [items_eq] using target_mem
  · rw [← passage.defined_eq, items_eq]
    simp [List.filterMap_cons, Instr.defined?]

/-- No two blocks of a routine have the same label. -/
theorem Routine.nodup_labels
    {items : List Item}
    {registers labels : Nat}
    {blocks : List Block}
    (routine : Routine items registers labels blocks) :
    (blocks.map Block.label).Nodup := by
  obtain ⟨others, label_eq, arranged⟩ := routine.label_eq
  rw [label_eq, List.nodup_cons]
  constructor
  · intro entry_mem
    simpa using arranged.mem_iff.1 entry_mem
  · refine arranged.nodup_iff.2 (List.Nodup.map ?_ List.nodup_range')
    exact fun number other equal => Label.numbered.inj equal

end MiniLang
