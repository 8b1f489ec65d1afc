import MiniLang.Proofs.Code.Availability

/-!
# Where values of several blocks meet

An instruction that takes its value by the block control came from has to name exactly the blocks
that go to its own, and has to stand first in it.  Branches to the labels of a fragment are all
inside the fragment, so it is enough to look at the fragment that declares the label.
-/

namespace MiniLang

/-- The labels of the blocks that go to a label, once for every branch that does. -/
def predecessors (blocks : List Block) (target : Label) : List Label :=
  blocks.flatMap fun block =>
    (block.last.targets.filter (· = target)).map fun _ => block.label

/-- The labels of the blocks from which lines go to a label, given the block that is open before the
lines. -/
def sources (current : Label) : List Item -> Label -> List Label
  | [], _ => []
  | .label opened :: rest, target => sources opened rest target
  | .instr instr :: rest, target =>
    (instr.targets.filter (· = target)).map (fun _ => current) ++ sources current rest target

/-- The block that is open after some lines. -/
def openAfter (current : Label) : List Item -> Label
  | [] => current
  | .label opened :: rest => openAfter opened rest
  | .instr _ :: rest => openAfter current rest

section Sources

variable (current target : Label)

@[simp] theorem sources_nil : sources current [] target = [] := rfl

@[simp] theorem sources_label (opened : Label) (rest : List Item) :
    sources current (.label opened :: rest) target = sources opened rest target := rfl

@[simp] theorem sources_instr (instr : Instr) (rest : List Item) :
    sources current (.instr instr :: rest) target =
      (instr.targets.filter (· = target)).map (fun _ => current) ++
        sources current rest target := rfl

theorem sources_append
    (first second : List Item) :
    sources current (first ++ second) target =
      sources current first target ++ sources (openAfter current first) second target := by
  induction first generalizing current with
  | nil => rfl
  | cons item rest inductionHypothesis =>
      cases item with
      | label opened => exact inductionHypothesis opened
      | instr instruction =>
          rw [List.cons_append, sources_instr, sources_instr, inductionHypothesis,
            List.append_assoc]
          rfl

theorem sources_eq_nil
    {code : List Item}
    (not_target : target ∉ code.flatMap Item.targets) :
    sources current code target = [] := by
  induction code generalizing current with
  | nil => rfl
  | cons item rest inductionHypothesis =>
      rw [List.flatMap_cons, List.mem_append, not_or] at not_target
      cases item with
      | label opened => exact inductionHypothesis opened not_target.2
      | instr instruction =>
          have none_here : instruction.targets.filter (· = target) = [] := by
            rw [List.filter_eq_nil_iff]
            intro other is_target equal
            rw [decide_eq_true_eq] at equal
            exact not_target.1 (equal ▸ is_target)
          rw [sources_instr, none_here, inductionHypothesis current not_target.2]
          rfl

/-- The branches to a label in the middle of lines come from there if there are none around it. -/
theorem sources_middle
    {before code after : List Item}
    (outside : target ∉ (before ++ after).flatMap Item.targets) :
    sources current (before ++ code ++ after) target =
      sources (openAfter current before) code target := by
  rw [List.flatMap_append, List.mem_append, not_or] at outside
  rw [sources_append, sources_append, sources_eq_nil current target outside.1,
    sources_eq_nil _ target outside.2, List.nil_append, List.append_nil]

theorem openAfter_instrs
    (instrs : List Instr) :
    openAfter current (instrs.map .instr) = current := by
  induction instrs with
  | nil => rfl
  | cons instr rest inductionHypothesis => exact inductionHypothesis

/-- The branches of the lines of blocks are the branches between the blocks. -/
theorem sources_items
    (blocks : List Block) :
    sources current (blocks.flatMap Block.items) target = predecessors blocks target := by
  induction blocks generalizing current with
  | nil => rfl
  | cons block rest inductionHypothesis =>
      have body_none : target ∉ (block.body.map Item.instr).flatMap Item.targets := by
        rw [List.mem_flatMap]
        rintro ⟨item, item_mem, is_target⟩
        obtain ⟨instr, instr_mem, rfl⟩ := List.mem_map.1 item_mem
        rw [Item.targets_instr, Instr.targets_of_plain (block.body_plain instr instr_mem)]
          at is_target
        exact absurd is_target List.not_mem_nil
      have block_eq : sources current block.items target =
          (block.last.targets.filter (· = target)).map fun _ => block.label := by
        rw [Block.items, Block.instrs, List.map_append, sources_label, sources_append,
          sources_eq_nil _ _ body_none, openAfter_instrs]
        simp
      rw [List.flatMap_cons, sources_append, inductionHypothesis, block_eq]
      rfl

end Sources

/-- The labels by which an instruction takes its value are those from which branches go to its own
block, without repetition, and the block has just been opened. -/
def Instr.Joins (branches : Label -> List Label) (start : Option Label) (instr : Instr) : Prop :=
  ∃ opened, start = some opened ∧ (branches opened).Perm (instr.incoming.map Prod.snd) ∧
    (instr.incoming.map Prod.snd).Nodup

/-- All instructions of some lines that take their values by the block control came from are right,
given the branches to each label and the label, if any, that stands before the lines. -/
def Wired (branches : Label -> List Label) : Option Label -> List Item -> Prop
  | _, [] => True
  | _, .label opened :: rest => Wired branches (some opened) rest
  | start, .instr instr :: rest =>
    (instr.incoming ≠ [] -> instr.Joins branches start) ∧ Wired branches none rest

namespace Wired

variable {branches : Label -> List Label} {start : Option Label} {first second code : List Item}

theorem weaken
    (wired : Wired branches none code)
    (start : Option Label) :
    Wired branches start code := by
  cases code with
  | nil => trivial
  | cons item rest =>
      cases item with
      | label opened => exact wired
      | instr instruction =>
          refine ⟨fun takes => ?_, wired.2⟩
          obtain ⟨opened, absurdity, -⟩ := wired.1 takes
          cases absurdity

theorem append
    (firstWired : Wired branches start first)
    (secondWired : Wired branches none second) :
    Wired branches start (first ++ second) := by
  induction first generalizing start with
  | nil => exact secondWired.weaken start
  | cons item rest inductionHypothesis =>
      cases item with
      | label opened => exact inductionHypothesis firstWired
      | instr instruction => exact ⟨firstWired.1, inductionHypothesis firstWired.2⟩

/-- Lines without such instructions are right. -/
theorem ofNone
    (none_takes : ∀ instr, .instr instr ∈ code -> instr.incoming = []) :
    Wired branches start code := by
  induction code generalizing start with
  | nil => trivial
  | cons item rest inductionHypothesis =>
      have restWired : ∀ start, Wired branches start rest := fun start =>
        inductionHypothesis fun instr instr_mem =>
          none_takes instr (List.mem_cons_of_mem _ instr_mem)
      cases item with
      | label opened => exact restWired _
      | instr instruction =>
          exact ⟨fun takes => absurd (none_takes instruction List.mem_cons_self) takes, restWired _⟩

theorem exists_split
    (wired : Wired branches start (first ++ second)) :
    Wired branches start first ∧ ∃ between, Wired branches between second := by
  induction first generalizing start with
  | nil => exact ⟨trivial, start, wired⟩
  | cons item rest inductionHypothesis =>
      cases item with
      | label opened => exact inductionHypothesis wired
      | instr instruction =>
          obtain ⟨restWired, secondWired⟩ := inductionHypothesis wired.2
          exact ⟨⟨wired.1, restWired⟩, secondWired⟩

/-- After the first instruction of a block none takes its value by the block control came from. -/
theorem incoming_eq_nil
    {instrs : List Instr}
    (wired : Wired branches none (instrs.map .instr))
    {instr : Instr}
    (instr_mem : instr ∈ instrs) :
    instr.incoming = [] := by
  induction instrs with
  | nil => cases instr_mem
  | cons first rest inductionHypothesis =>
      rcases List.mem_cons.1 instr_mem with rfl | in_rest
      · by_contra takes
        obtain ⟨opened, absurdity, -⟩ := wired.1 takes
        cases absurdity
      · exact inductionHypothesis wired.2 in_rest

/-- The instructions of a block are right if the lines of all blocks are. -/
theorem joins_of_blocks
    {blocks : List Block}
    (wired : Wired branches start (blocks.flatMap Block.items))
    {block : Block}
    (block_mem : block ∈ blocks)
    {before after : List Instr}
    {instr : Instr}
    (split : block.instrs = before ++ instr :: after)
    (takes : instr.incoming ≠ []) :
    before = [] ∧ instr.Joins branches (some block.label) := by
  induction blocks generalizing start with
  | nil => cases block_mem
  | cons first rest inductionHypothesis =>
      rw [List.flatMap_cons] at wired
      obtain ⟨firstWired, between, restWired⟩ := wired.exists_split
      rcases List.mem_cons.1 block_mem with rfl | in_rest
      · change Wired branches (some block.label) (block.instrs.map .instr) at firstWired
        rw [split] at firstWired
        cases before with
        | nil => exact ⟨rfl, firstWired.1 takes⟩
        | cons earlier others => exact absurd (firstWired.2.incoming_eq_nil (by simp)) takes
      · exact inductionHypothesis restWired in_rest

end Wired

namespace Lowering

theorem Naming.sources_eq_nil
    {labels labels' : Nat}
    {code : List Item}
    (naming : Naming labels code labels')
    {current target : Label}
    (outside : ¬target.Between labels labels') :
    sources current code target = [] :=
  MiniLang.sources_eq_nil current target fun target_mem =>
    outside (naming.target_between target_mem)

theorem filter_targets_decision
    (op : BinaryOp)
    (value : Operand)
    {joined right : Label}
    (different : right ≠ joined) :
    (decision op value joined right).targets.filter (· = joined) = [joined] := by
  unfold decision
  split <;> simp [different]

/-- The branches to labels of a range are those of given code. -/
def Agrees (branches : Label -> List Label) (current : Label) (labels : Nat) (code : List Item)
    (labels' : Nat) : Prop :=
  ∀ target : Label, target.Between labels labels' -> branches target = sources current code target

/-- The code of a fragment is right wherever the branches to its labels are its own. -/
def WiredWithin (labels : Nat) (code : List Item) (labels' : Nat) : Prop :=
  ∀ (branches : Label -> List Label) (current : Label),
    Agrees branches current labels code labels' -> Wired branches none code

namespace WiredWithin

variable {labels labels₁ labels₂ low high : Nat} {first second code whole : List Item}
variable {branches : Label -> List Label} {current : Label}

/-- Code inside other code that does not go to its labels. -/
theorem embed
    (within : WiredWithin labels code labels₁)
    (agrees : Agrees branches current low whole high)
    (before after : List Item)
    (whole_eq : whole = before ++ code ++ after)
    (low_le : low ≤ labels)
    (le_high : labels₁ ≤ high)
    (outside : ∀ target ∈ (before ++ after).flatMap Item.targets, ¬target.Between labels labels₁) :
    Wired branches none code := by
  refine within branches (openAfter current before) fun target between => ?_
  rw [agrees target (between.mono low_le le_high), whole_eq, sources_middle]
  exact fun target_mem => outside target target_mem between

theorem ofNone
    (labels labels₁ : Nat)
    (none_takes : ∀ instr, .instr instr ∈ code -> instr.incoming = []) :
    WiredWithin labels code labels₁ :=
  fun _ _ _ => .ofNone none_takes

theorem append
    (firstWithin : WiredWithin labels first labels₁)
    (secondWithin : WiredWithin labels₁ second labels₂)
    (firstNaming : Naming labels first labels₁)
    (secondNaming : Naming labels₁ second labels₂) :
    WiredWithin labels (first ++ second) labels₂ := by
  intro branches current agrees
  refine Wired.append
    (firstWithin.embed agrees [] second (by simp) (Nat.le_refl _) secondNaming.labels_le ?_)
    (secondWithin.embed agrees first [] (by simp) firstNaming.labels_le (Nat.le_refl _) ?_)
  · intro target target_mem
    exact (secondNaming.target_between target_mem).disjoint (.inr (Nat.le_refl _))
  · intro target target_mem
    rw [List.append_nil] at target_mem
    exact (firstNaming.target_between target_mem).disjoint (.inl (Nat.le_refl _))

/-- More code of the same block. -/
theorem extend
    (within : WiredWithin labels first labels₁)
    (naming : Naming labels₁ second labels₁)
    (none_takes : ∀ instr, .instr instr ∈ second -> instr.incoming = []) :
    WiredWithin labels (first ++ second) labels₁ := by
  intro branches current agrees
  refine Wired.append
    (within.embed agrees [] second (by simp) (Nat.le_refl _) (Nat.le_refl _) ?_)
    (.ofNone none_takes)
  intro target target_mem
  exact absurd (naming.target_between target_mem) (Label.not_between_self _ _)

/-- Two pieces of code that follow on a third one, with lines between them that go to no label of
theirs. -/
theorem encloseTwo
    {before between after third : List Item}
    {labels₃ labels₄ labels₅ : Nat}
    (firstWithin : WiredWithin labels first labels₁)
    (secondWithin : WiredWithin labels₂ second labels₃)
    (thirdWithin : WiredWithin labels₄ third labels₅)
    (firstNaming : Naming labels first labels₁)
    (secondNaming : Naming labels₂ second labels₃)
    (thirdNaming : Naming labels₄ third labels₅)
    (first_le : labels₁ ≤ labels₂)
    (second_le : labels₃ ≤ labels₄)
    (none_takes : ∀ instr, .instr instr ∈ before ++ between ++ after -> instr.incoming = [])
    (outside : ∀ target ∈ (before ++ between ++ after).flatMap Item.targets,
      ¬target.Between labels labels₁ ∧ ¬target.Between labels₂ labels₃ ∧
        ¬target.Between labels₄ labels₅) :
    WiredWithin labels (first ++ before ++ second ++ between ++ third ++ after) labels₅ := by
  intro branches current agrees
  have le₁ := firstNaming.labels_le
  have le₂ := secondNaming.labels_le
  have le₃ := thirdNaming.labels_le
  simp only [List.flatMap_append, List.mem_append] at outside
  simp only [List.mem_append] at none_takes
  have firstWired : Wired branches none first := by
    refine firstWithin.embed agrees [] (before ++ second ++ between ++ third ++ after) (by simp)
      (Nat.le_refl _) (by omega) ?_
    intro target target_mem
    simp only [List.nil_append, List.flatMap_append, List.mem_append] at target_mem
    rcases target_mem with (((here | here) | here) | here) | here
    · exact (outside target (.inl (.inl here))).1
    · exact (secondNaming.target_between here).disjoint (by omega)
    · exact (outside target (.inl (.inr here))).1
    · exact (thirdNaming.target_between here).disjoint (by omega)
    · exact (outside target (.inr here)).1
  have secondWired : Wired branches none second := by
    refine secondWithin.embed agrees (first ++ before) (between ++ third ++ after) (by simp)
      (by omega) (by omega) ?_
    intro target target_mem
    simp only [List.flatMap_append, List.mem_append] at target_mem
    rcases target_mem with (here | here) | (here | here) | here
    · exact (firstNaming.target_between here).disjoint (by omega)
    · exact (outside target (.inl (.inl here))).2.1
    · exact (outside target (.inl (.inr here))).2.1
    · exact (thirdNaming.target_between here).disjoint (by omega)
    · exact (outside target (.inr here)).2.1
  have thirdWired : Wired branches none third := by
    refine thirdWithin.embed agrees (first ++ before ++ second ++ between) after rfl (by omega)
      (Nat.le_refl _) ?_
    intro target target_mem
    simp only [List.flatMap_append, List.mem_append] at target_mem
    rcases target_mem with (((here | here) | here) | here) | here
    · exact (firstNaming.target_between here).disjoint (by omega)
    · exact (outside target (.inl (.inl here))).2.2
    · exact (secondNaming.target_between here).disjoint (by omega)
    · exact (outside target (.inl (.inr here))).2.2
    · exact (outside target (.inr here)).2.2
  refine ((((firstWired.append (.ofNone ?_)).append secondWired).append (.ofNone ?_)).append
    thirdWired).append (.ofNone ?_)
  · exact fun instr here => none_takes instr (.inl (.inl here))
  · exact fun instr here => none_takes instr (.inl (.inr here))
  · exact fun instr here => none_takes instr (.inr here)

/-- The two ways through the code of a logical operator meet at its end. -/
theorem logical
    (op : BinaryOp)
    {leftValue rightValue : Operand}
    {registers : Nat}
    (leftWithin : WiredWithin labels first labels₁)
    (rightWithin : WiredWithin (labels₁ + 4) second labels₂)
    (leftNaming : Naming labels first labels₁)
    (rightNaming : Naming (labels₁ + 4) second labels₂) :
    WiredWithin labels
      (first ++ logicalOpening op leftValue labels₁ ++ second ++
        logicalClosing op rightValue registers labels₁) labels₂ := by
  intro branches current agrees
  have left_le := leftNaming.labels_le
  have right_le := rightNaming.labels_le
  have around := naming_logical op registers labels₁ leftValue rightValue
  have joined_between : (Label.numbered (labels₁ + 4)).Between labels labels₂ :=
    ⟨by omega, by omega⟩
  have met : branches (.numbered (labels₁ + 4)) =
      [.numbered (labels₁ + 1), .numbered (labels₁ + 3)] := by
    rw [agrees _ joined_between, sources_append, sources_append, sources_append,
      leftNaming.sources_eq_nil (by simp), rightNaming.sources_eq_nil (by simp)]
    simp [logicalOpening, logicalClosing, filter_targets_decision]
  refine ((Wired.append (leftWithin.embed agrees [] _ (by rw [List.nil_append, List.append_assoc,
    List.append_assoc]) (Nat.le_refl _) (by omega) ?_) (.ofNone ?_)).append
      (rightWithin.embed agrees _ _ rfl (by omega) (Nat.le_refl _) ?_)).append
      ⟨by simp, by simp, fun _ => ⟨_, rfl, ?_, ?_⟩, trivial⟩
  · intro target target_mem
    simp only [List.nil_append, List.flatMap_append, List.mem_append] at target_mem
    rcases target_mem with in_opening | in_right | in_closing
    · exact (around.target_between (by simp [in_opening])).disjoint (.inr (by omega))
    · exact (rightNaming.target_between in_right).disjoint (.inr (by omega))
    · exact (around.target_between (by simp [in_closing])).disjoint (.inr (by omega))
  · simp [logicalOpening]
  · intro target target_mem
    simp only [List.flatMap_append, List.mem_append] at target_mem
    rcases target_mem with (in_left | in_opening) | in_closing
    · exact (leftNaming.target_between in_left).disjoint (.inl (by omega))
    · exact (around.target_between (by simp [in_opening])).disjoint (.inl (by omega))
    · exact (around.target_between (by simp [in_closing])).disjoint (.inl (by omega))
  · rw [met]
    rfl
  · simp [Instr.incoming]

end WiredWithin

theorem Straight.incoming_eq_nil
    {value result : Operand}
    {registers registers' : Nat}
    {code : List Item}
    (straight : Straight value registers code result registers')
    (instr : Instr)
    (instr_mem : .instr instr ∈ code) :
    instr.incoming = [] := by
  cases straight with
  | kept => cases instr_mem
  | computed defines uses_eq incoming_eq =>
      rw [List.mem_singleton, Item.instr.injEq] at instr_mem
      rw [instr_mem, incoming_eq]

section Expressions

variable {context : Context} {expression : Expr} {registers labels registers' labels' : Nat}
variable {code : List Item} {operand : Operand}

/-- In the code of an expression, values of several blocks meet only where these blocks do. -/
theorem ExprCode.wired
    (emitted : ExprCode context expression registers labels code operand registers' labels') :
    WiredWithin labels code labels' := by
  induction emitted with
  | int => exact .ofNone _ _ (by simp)
  | double => exact .ofNone _ _ (by simp)
  | bool => exact .ofNone _ _ (by simp)
  | name => exact .ofNone _ _ (by simp [Instr.incoming])
  | assign site target tagged valueTagged valueCode found accepts coerced valueWired =>
      exact (valueWired.extend (coerced.straight.naming _) coerced.straight.incoming_eq_nil).extend
        (.plain _ rfl rfl) (by simp [Instr.incoming])
  | unary site op tagged operandTagged operandCode unaryCode operandWired =>
      exact operandWired.extend (unaryCode.straight.naming _) unaryCode.straight.incoming_eq_nil
  | binary site op plain tagged leftTagged rightTagged leftEmitted rightEmitted common leftCoerced
      rightCoerced lowered result_eq leftWired rightWired =>
      have wired := leftWired.append rightWired leftEmitted.naming rightEmitted.naming
      exact ((wired.extend (leftCoerced.straight.naming _)
        leftCoerced.straight.incoming_eq_nil).extend (rightCoerced.straight.naming _)
          rightCoerced.straight.incoming_eq_nil).extend (.plain _ rfl rfl)
            (by simp [Instr.incoming])
  | logical site op logical tagged leftTagged rightTagged leftEmitted rightEmitted leftWired
      rightWired =>
      exact leftWired.logical op rightWired leftEmitted.naming rightEmitted.naming

end Expressions

section Statements

variable {context : Context} {statement : Stmt} {registers labels registers' labels' : Nat}
variable {code : List Item}

theorem PrintCode.incoming_eq_nil
    {value : Operand}
    {format : Format}
    {type : ValueType}
    (printed : PrintCode value registers format type code registers')
    (instr : Instr)
    (instr_mem : .instr instr ∈ code) :
    instr.incoming = [] := by
  cases printed with
  | bool =>
      simp only [List.mem_cons, Item.instr.injEq, List.not_mem_nil, or_false] at instr_mem
      rcases instr_mem with rfl | rfl <;> rfl
  | _ =>
      simp only [List.mem_singleton, Item.instr.injEq] at instr_mem
      rw [instr_mem]
      rfl

/-- In the code of a statement, values of several blocks meet only where these blocks do. -/
theorem StmtCode.wired
    (emitted : StmtCode context statement registers labels code registers' labels') :
    WiredWithin labels code labels' := by
  induction emitted with
  | done => exact .ofNone _ _ (by simp)
  | seq firstEmitted restEmitted firstWired restWired =>
      exact firstWired.append restWired firstEmitted.naming restEmitted.naming
  | block line emitted inductionHypothesis => exact inductionHypothesis
  | expr line emitted => exact emitted.wired
  | branch line testEmitted yesEmitted noEmitted yesWired noWired =>
      have yes_le := yesEmitted.naming.labels_le
      refine testEmitted.wired.encloseTwo yesWired noWired testEmitted.naming yesEmitted.naming
        noEmitted.naming (Nat.le_add_right _ 3) (Nat.le_refl _) (by simp) ?_
      simp only [List.cons_append, List.nil_append, List.flatMap_cons, List.flatMap_nil,
        Item.targets_instr, Item.targets_label, Instr.targets_fork, Instr.targets_jump,
        List.append_nil, List.mem_cons, List.not_mem_nil, or_false, forall_eq_or_imp, forall_eq,
        Label.between_numbered]
      omega
  | @loop line condition body registers labels registers₁ labels₁ registers₂ labels₂ testCode
      bodyCode test testEmitted bodyEmitted bodyWired =>
      have test_le := testEmitted.naming.labels_le
      have start : WiredWithin labels [] labels := .ofNone _ _ (by simp)
      refine start.encloseTwo testEmitted.wired bodyWired (.plain _ rfl rfl) testEmitted.naming
        bodyEmitted.naming (Nat.le_add_right _ 1) (Nat.le_add_right _ 2) (by simp) ?_
      simp only [List.cons_append, List.nil_append, List.flatMap_cons, List.flatMap_nil,
        Item.targets_instr, Item.targets_label, Instr.targets_fork, Instr.targets_jump,
        List.append_nil, List.mem_cons, List.not_mem_nil, or_false, forall_eq_or_imp, forall_eq,
        Label.between_numbered]
      omega
  | write line tagged emitted print =>
      exact emitted.wired.extend (print.naming _) print.incoming_eq_nil
  | writeText line registers labels found => exact .ofNone _ _ (by simp [Instr.incoming])
  | read line registers labels found scan => exact .ofNone _ _ (by simp [Instr.incoming])
  | leave line registers labels => exact .ofNone _ _ (by simp)

end Statements

/-- The slots of the variables use no registers. -/
theorem flow_slots
    (scope : Scope)
    (knownAt : Label -> Set Register)
    (known : Set Register) :
    Flow knownAt (some known) scope.slots (some known) := by
  unfold Scope.slots
  induction scope.entries.toList with
  | nil => exact .nil _
  | cons declaration rest inductionHypothesis =>
      refine .plain rfl (by simp [Instr.uses]) (by simp [Instr.incoming]) ?_
      have extend_eq : (Instr.alloca declaration.name declaration.type).extend known = known := by
        ext register
        simp [Instr.extend, Instr.defined?]
      rw [extend_eq]
      exact inductionHypothesis

end Lowering

/-- A generated routine has sets of known registers for its labels, none of them at the entry. -/
theorem Program.exists_flow
    {program : Program}
    {tags : TagTable}
    {code : CodeModule}
    (generated : program.generate tags = .ok code) :
    ∃ knownAt : Label -> Set Register, knownAt .entry = ∅ ∧ Flow knownAt none code.items none := by
  obtain ⟨body, registers, labels, emitted, items_eq, -⟩ := Program.stmtCode_of_generate generated
  obtain ⟨sets, final, flow, -, -⟩ := emitted.provides ∅
  let knownAt : Label -> Set Register := fun label => if label = .entry then ∅ else sets label
  have bodyFlow : Flow knownAt (some ∅) body (some final) :=
    emitted.naming.flow flow fun _ _ _ => if_neg (by simp)
  refine ⟨knownAt, if_pos rfl, ?_⟩
  rw [items_eq, List.cons_append, List.cons_append]
  exact .label (((Lowering.flow_slots program.scope knownAt ∅).append bodyFlow).append
    (.terminator rfl (by simp [Instr.uses]) (by simp) (.nil _)))

/-- In a generated routine, values of several blocks meet only where these blocks do. -/
theorem Program.wired
    {program : Program}
    {tags : TagTable}
    {code : CodeModule}
    (generated : program.generate tags = .ok code) :
    Wired (sources .entry code.items) none code.items := by
  obtain ⟨body, registers, labels, emitted, items_eq, -⟩ := Program.stmtCode_of_generate generated
  have slots_targets : program.scope.slots.flatMap Item.targets = [] := by
    simp [Scope.slots, List.flatMap_map, Instr.targets]
  have agrees : Lowering.Agrees (sources .entry code.items) .entry 0 code.items labels :=
    fun _ _ => rfl
  have slotsWired : Wired (sources .entry code.items) (some .entry) program.scope.slots := by
    refine .ofNone fun instr instr_mem => ?_
    obtain ⟨declaration, -, alloca_eq⟩ := List.mem_map.1 instr_mem
    cases alloca_eq
    rfl
  have bodyWired : Wired (sources .entry code.items) none body := by
    refine emitted.wired.embed agrees (.label .entry :: program.scope.slots) [.instr .ret] items_eq
      (Nat.le_refl _) (Nat.le_refl _) ?_
    simp [slots_targets]
  have retWired : Wired (sources .entry code.items) none [.instr .ret] := .ofNone (by simp)
  have wired : Wired (sources .entry code.items) none
      (.label .entry :: program.scope.slots ++ body ++ [.instr .ret]) :=
    (slotsWired.append bodyWired).append retWired
  rwa [← items_eq] at wired

/-- A generated routine defines registers before it uses them and joins values where control does.
An instruction that takes its value by the block control came from is the first of its block, and
the two labels it names are those of the predecessors of its block, once each.  Every other
instruction uses registers that each path to it has defined.  A register that is taken from a block
is defined on each path to the end of that block. -/
theorem routine_single_assignment
    {program : Program}
    {tags : TagTable}
    {code : CodeModule}
    (generated : program.generate tags = .ok code) :
    ∃ blocks : List Block,
      code.items = blocks.flatMap Block.items ∧
      (blocks.map Block.label).Nodup ∧
      (∀ block ∈ blocks, ∀ before target first firstFrom second secondFrom after,
        block.instrs = before ++ .phi target first firstFrom second secondFrom :: after ->
          before = [] ∧ firstFrom ≠ secondFrom ∧
          (predecessors blocks block.label).Perm [firstFrom, secondFrom]) ∧
      (∀ passed block, Path blocks passed block -> ∀ before instr after,
        block.instrs = before ++ instr :: after -> ∀ register ∈ instr.uses,
          DefinedIn (passed.flatMap Block.instrs ++ before) register) ∧
      (∀ block ∈ blocks, ∀ instr ∈ block.instrs, ∀ incoming ∈ instr.incoming,
        ∀ register ∈ incoming.1.registers, ∀ passed origin, Path blocks passed origin ->
          origin.label = incoming.2 ->
            DefinedIn (passed.flatMap Block.instrs ++ origin.instrs) register) := by
  obtain ⟨registers, labels, blocks, routine⟩ := Program.exists_routine generated
  obtain ⟨knownAt, entry_empty, flow⟩ := Program.exists_flow generated
  have wired := Program.wired generated
  rw [routine.items_eq] at flow wired
  refine ⟨blocks, routine.items_eq, routine.nodup_labels, ?_, ?_, ?_⟩
  · intro block block_mem before target first firstFrom second secondFrom after split
    obtain ⟨before_eq, opened, opened_eq, arranged, nodup⟩ :=
      wired.joins_of_blocks block_mem split (by simp [Instr.incoming])
    cases opened_eq
    rw [sources_items] at arranged
    refine ⟨before_eq, ?_, arranged⟩
    simpa [Instr.incoming] using nodup
  · intro passed block path before instr after split register is_used
    rcases (flow.of_blocks path.mem).uses_subset split is_used with is_known | defined
    · exact (flow.defined_on_path entry_empty path is_known).append_left _
    · exact defined.append_right _
  · intro block block_mem instr instr_mem incoming incoming_mem register register_mem passed origin
      path origin_eq
    refine (flow.defined_on_path entry_empty path ?_).append_left _
    rw [origin_eq]
    exact (flow.of_blocks block_mem).incoming_known instr_mem incoming_mem register_mem

/-- A program that writes a conjunction whose right part is a disjunction. -/
def nestedCondition : Program :=
  let yes := (Forest.empty.addExpr 1 (.bool true)).2
  let no := (yes.addExpr 1 (.bool false)).2
  let either := (no.addExpr 1 (.binary .or 1 0)).2
  let both := (either.addExpr 1 (.binary .and 0 2)).2
  (Program.assemble [] [0] (both.addStmt 1 (.write 3 .plain)).2).1

/-- The blocks of the conjunction, and what its instructions use on the paths to them. -/
theorem nestedCondition_single_assignment :
    ∃ (code : CodeModule) (blocks : List Block),
      nestedCondition.generate ⟨Array.replicate 4 (some (.value .bool))⟩ = .ok code ∧
      code.items = blocks.flatMap Block.items ∧
      (∀ passed block, Path blocks passed block -> ∀ before instr after,
        block.instrs = before ++ instr :: after -> ∀ register ∈ instr.uses,
          DefinedIn (passed.flatMap Block.instrs ++ before) register) := by
  obtain ⟨code, generated⟩ :
      ∃ code, nestedCondition.generate ⟨Array.replicate 4 (some (.value .bool))⟩ = .ok code :=
    ⟨_, rfl⟩
  obtain ⟨blocks, items_eq, -, -, uses_defined, -⟩ := routine_single_assignment generated
  exact ⟨code, blocks, generated, items_eq, uses_defined⟩

end MiniLang
