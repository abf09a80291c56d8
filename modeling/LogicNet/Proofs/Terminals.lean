import LogicNet.Proofs.Consistency

/-!
The kinds of nodes, and the terminals by their positions. In a well-formed graph every node is of
one kind, and the gates are what is left when the constants and the inputs are taken away. A list of
terminals is a part of the list of all inputs or of all outputs, of which only the counts tell where
it begins and ends; inputs are found by the table of positions, and what stands at a position by the
list, and the two agree. A next-state signal may stand in its list several times, and tells the
first register that it drives.
-/

namespace LogicNet

/-- The kinds of nodes. -/
inductive Kind where
  | constant | primaryInput | registerOutput | gate

/-- Whether a node is of a kind. -/
def Graph.isOf (g : Graph) : Kind → NodeId → Bool
  | .constant, n => Graph.isConstant n
  | .primaryInput, n => g.isPrimaryInput n
  | .registerOutput, n => g.isRegisterOutput n
  | .gate, n => g.isGate n

/-- The kind of a name, by the lists of inputs. One that belongs to no node counts as that of a
gate. -/
def Graph.kindOf (g : Graph) (n : NodeId) : Kind :=
  if n ≤ 1 then .constant
  else if n ∈ g.primaryInputs then .primaryInput
  else if n ∈ g.registerOutputs then .registerOutput
  else .gate

/-- A combinational list consists of the terminals of two lists, one behind the other: these are as
many as it has, and each of them is found in it behind those before. -/
structure Graph.Consists (g : Graph) (whole front back : Terminal) : Prop where
  count_eq : g.terminalCount whole = g.terminalCount front + g.terminalCount back
  of_front : ∀ i < g.terminalCount front, ∃ n,
    g.terminal whole i = .ok n ∧ g.terminal front i = .ok n
  of_back : ∀ i < g.terminalCount back, ∃ n,
    g.terminal whole (g.terminalCount front + i) = .ok n ∧ g.terminal back i = .ok n

/-- The nodes of a graph are told apart, and its terminals are found by their positions. -/
structure Graph.Arranged (g : Graph) : Prop where
  /-- Every node is of one kind, and what the table of positions tells of its kind is what the lists
  of inputs tell. -/
  kind : ∀ n < g.size, ∃! kind, g.isOf kind n = true
  isOf_iff : ∀ (kind : Kind) (n : NodeId), g.isOf kind n = true ↔ g.kindOf n = kind
  /-- The gates are the nodes that are neither constants nor in the list of inputs. -/
  gates : g.gates.Pairwise (· < ·) ∧ ∀ n : NodeId, n ∈ g.gates ↔ n < g.size ∧ 1 < n ∧ n ∉ g.inputs
  /-- The constants, the inputs and the gates are the nodes, so that the number of gates can be told
  by subtraction. -/
  nodes : ([0, 1] ++ (g.inputs ++ g.gates)).Perm g.nodeIds
  size : g.size = g.inputs.length + g.gates.length + 2
  gateCount : g.gateCount = g.gates.length
  children : ∀ n < g.size, ∃ children, g.children n = .ok children ∧
    if g.isOf .gate n then 1 ≤ children.length ∧ children.length ≤ 32 else children = []
  /-- The counts are the lengths of the lists, and a list has a node at each of its positions. -/
  counted : ∀ list, (g.terminals list).length = g.terminalCount list
  terminal : ∀ list i, (∃ n, g.terminal list i = .ok n) ↔ i < g.terminalCount list
  /-- Primary terminals come first. -/
  inputs : g.Consists .input .primaryInput .registerOutput
  outputs : g.Consists .output .primaryOutput .registerInput
  /-- Each node of a list of inputs has a position, and this and what stands at a position are
  inverse to each other. -/
  indexed : ∀ list ∈ [Terminal.input, .primaryInput, .registerOutput],
    (∀ n, (∃ i, g.inputPosition list n = .ok i) ↔ n ∈ g.terminals list) ∧
    ∀ i n, g.terminal list i = .ok n ↔ g.inputPosition list n = .ok i
  /-- Each register input has a reset value. -/
  resets : g.terminalCount .registerInput = g.resets.length
  /-- A register is named by its output, and by its next-state signal if no register before it has
  the same. -/
  registers : ∀ i < g.resets.length, ∃ state signal,
    g.terminal .registerOutput i = .ok state ∧ g.terminal .registerInput i = .ok signal ∧
    g.nextState state = .ok signal ∧
    ∃ j ≤ i, g.terminal .registerInput j = .ok signal ∧
      (∀ k < j, g.terminal .registerInput k ≠ .ok signal) ∧
      ∃ first, g.terminal .registerOutput j = .ok first ∧ g.stateOf signal = .ok first

namespace Graph

variable {g : Graph} {list : Terminal} {i : Nat} {n : NodeId}

/-- What is found at a position is what stands there in the part of a combinational list that the
counts delimit. -/
theorem terminal_eq_ok_iff : g.terminal list i = .ok n ↔ (g.terminals list)[i]? = some n := by
  have hfound : g.terminal list i = .ok n ↔
      i < g.terminalCount list ∧ g.terminal? list i = some n := by
    unfold Graph.terminal
    by_cases hlt : i < g.terminalCount list
    · rw [if_pos hlt]
      cases g.terminal? list i <;> simp [hlt]
    · simp [hlt]
  have hwhole : ∀ ns : List NodeId, i < ns.length ∧ ns[i]? = some n ↔ ns[i]? = some n := fun ns =>
    and_iff_right_of_imp fun hn => (List.getElem?_eq_some_iff.1 hn).1
  have hfront : ∀ (ns : List NodeId) (count : Nat),
      i < count ∧ ns[i]? = some n ↔ (ns.take count)[i]? = some n := fun ns count => by
    rw [List.getElem?_take]
    split <;> simp_all
  have hback : ∀ (ns : List NodeId) (count : Nat),
      i < ns.length - count ∧ ns[count + i]? = some n ↔ (ns.drop count)[i]? = some n :=
    fun ns count => by
      rw [List.getElem?_drop]
      refine and_iff_right_of_imp fun hn => ?_
      have := (List.getElem?_eq_some_iff.1 hn).1
      omega
  rw [hfound]
  cases list with
  | input | output => exact hwhole _
  | primaryInput | primaryOutput => exact hfront _ _
  | registerOutput | registerInput => exact hback _ _

theorem mem_gates_iff : n ∈ g.gates ↔ n < g.size ∧ g.isGate n = true := by
  simp [gates, nodeIds]

theorem gates_sorted : g.gates.Pairwise (· < ·) :=
  List.pairwise_lt_range.sublist List.filter_sublist

/-- What stands somewhere in a list stands somewhere for the first time. -/
theorem exists_first_position {ns : List NodeId} (h : ns[i]? = some n) :
    ∃ j ≤ i, ns.idxOf? n = some j ∧ ns[j]? = some n ∧ ∀ k < j, ns[k]? ≠ some n := by
  obtain ⟨j, hj⟩ := Option.ne_none_iff_exists'.1
    (List.idxOf?_eq_none_iff.not.2 (not_not.2 (List.mem_of_getElem? h)))
  obtain ⟨hlt, hn, hfirst⟩ := List.idxOf?_eq_some_iff.1 hj
  have hearlier : ∀ k < j, ns[k]? ≠ some n := fun k hk hsame => by
    obtain ⟨hklt, hkn⟩ := List.getElem?_eq_some_iff.1 hsame
    exact hfirst k hk hkn
  refine ⟨j, Nat.le_of_not_lt fun hlater => hearlier i hlater h, hj, ?_, hearlier⟩
  exact List.getElem?_eq_some_iff.2 ⟨hlt, hn⟩

namespace WellFormed

theorem terminals_length (h : g.WellFormed) (list : Terminal) :
    (g.terminals list).length = g.terminalCount list := by
  cases list with
  | input | output => rfl
  | primaryInput => exact List.length_take_of_le h.indexed.primary_le
  | primaryOutput => exact List.length_take_of_le h.matched.primary_le
  | registerOutput | registerInput => exact List.length_drop

theorem exists_terminal_iff (h : g.WellFormed) :
    (∃ n, g.terminal list i = .ok n) ↔ i < g.terminalCount list := by
  simp only [terminal_eq_ok_iff, ← Option.isSome_iff_exists, isSome_getElem?, h.terminals_length]

theorem sublist_inputs (hlist : list ∈ [Terminal.input, .primaryInput, .registerOutput]) :
    (g.terminals list).Sublist g.inputs := by
  simp only [List.mem_cons, List.not_mem_nil, or_false] at hlist
  rcases hlist with rfl | rfl | rfl
  · exact List.Sublist.refl _
  · exact List.take_sublist _ _
  · exact List.drop_sublist _ _

/-- The table of positions tells what the lists of inputs tell. -/
theorem inputPosition_eq_ok_iff (h : g.WellFormed)
    (hlist : list ∈ [Terminal.input, .primaryInput, .registerOutput]) :
    g.inputPosition list n = .ok i ↔ (g.terminals list)[i]? = some n := by
  have hthere := h.indexed.position n
  unfold inputPosition
  cases hposition : g.inputPositions[n]? with
  | none =>
      have habsent := h.indexed.position_eq_none_iff.1 hposition
      refine iff_of_false nofun fun hn => habsent ?_
      exact (sublist_inputs hlist).subset (List.mem_of_getElem? hn)
  | some position =>
      rw [hposition] at hthere
      simp only [List.mem_cons, List.not_mem_nil, or_false] at hlist
      rcases hlist with rfl | rfl | rfl
      · rw [terminals, ← hthere, Except.ok.injEq, Option.some.injEq]
      · rw [terminals, Inputs.primaryInputs, List.getElem?_take, Option.ite_none_right_eq_some,
          ← hthere]
        dsimp only
        split <;> simp <;> omega
      · rw [terminals, Inputs.registerOutputs, List.getElem?_drop, ← hthere]
        dsimp only
        split <;> simp <;> omega

theorem exists_inputPosition_iff (h : g.WellFormed) (list : Terminal)
    (hlist : list ∈ [Terminal.input, .primaryInput, .registerOutput]) :
    (∃ i, g.inputPosition list n = .ok i) ↔ n ∈ g.terminals list := by
  simp only [h.inputPosition_eq_ok_iff hlist, List.mem_iff_getElem?]

/-- A node passes the test for a list of inputs exactly if it has a position in that list. -/
theorem isPrimaryInput_iff (h : g.WellFormed) :
    g.isPrimaryInput n = true ↔ n ∈ g.primaryInputs := by
  refine Iff.trans ?_ (h.exists_inputPosition_iff .primaryInput (by decide))
  unfold isPrimaryInput inputPosition
  cases g.inputPositions[n]? with
  | none => simp
  | some position => by_cases hlt : position < g.primaryInputCount <;> simp [hlt]

theorem isRegisterOutput_iff (h : g.WellFormed) :
    g.isRegisterOutput n = true ↔ n ∈ g.registerOutputs := by
  refine Iff.trans ?_ (h.exists_inputPosition_iff .registerOutput (by decide))
  unfold isRegisterOutput inputPosition
  cases g.inputPositions[n]? with
  | none => simp
  | some position => by_cases hle : g.primaryInputCount ≤ position <;> simp [hle]

/-- Constants, inputs and gates exclude each other. -/
theorem isOf_iff (h : g.WellFormed) (kind : Kind) :
    g.isOf kind n = true ↔ g.kindOf n = kind := by
  have hprimary : n ∈ g.primaryInputs → ¬ n ≤ 1 := fun hn =>
    Nat.not_le.2 (h.input_lt n (g.mem_inputs_iff.2 (.inl hn))).1
  have hregister : n ∈ g.registerOutputs → ¬ n ≤ 1 := fun hn =>
    Nat.not_le.2 (h.input_lt n (g.mem_inputs_iff.2 (.inr hn))).1
  have hapart : n ∈ g.registerOutputs → n ∉ g.primaryInputs := fun hn hmem =>
    List.disjoint_of_nodup_append (g.toInputs.primaryInputs_append ▸ h.inputs_nodup) hmem hn
  have hgate : g.isGate n = true ↔ ¬ n ≤ 1 ∧ n ∉ g.primaryInputs ∧ n ∉ g.registerOutputs := by
    rw [h.isGate_iff, g.mem_inputs_iff, not_or, Nat.not_le]
  have hconstant : isConstant n = true ↔ n ≤ 1 := decide_eq_true_iff
  unfold kindOf
  cases kind <;>
    simp only [isOf, hconstant, h.isPrimaryInput_iff, h.isRegisterOutput_iff, hgate] <;>
    split_ifs <;> simp_all

/-- The constants, the inputs and the gates are all nodes, each of them once. -/
theorem perm_nodeIds (h : g.WellFormed) : ([0, 1] ++ (g.inputs ++ g.gates)).Perm g.nodeIds := by
  have hinputs : ∀ n : NodeId, n ∈ g.inputs → 1 < n ∧ n < g.size := h.input_lt
  have hgates : ∀ n : NodeId, n ∈ g.gates ↔ n < g.size ∧ 1 < n ∧ n ∉ g.inputs := fun n => by
    rw [mem_gates_iff, h.isGate_iff]
  have htwo := h.two_le_size
  have hnodup : ([0, 1] ++ (g.inputs ++ g.gates)).Nodup := by
    refine (by decide : [0, 1].Nodup).append (h.inputs_nodup.append ?_ ?_) ?_
    · exact gates_sorted.imp Nat.ne_of_lt
    · exact fun n hn hmem => ((hgates n).1 hmem).2.2 hn
    · intro n hn hmem
      have hle : n ≤ 1 := by simp only [List.mem_cons, List.not_mem_nil, or_false] at hn; omega
      rcases List.mem_append.1 hmem with hmem | hmem
      · exact absurd (hinputs n hmem).1 (Nat.not_lt.2 hle)
      · exact absurd ((hgates n).1 hmem).2.1 (Nat.not_lt.2 hle)
  refine (List.perm_ext_iff_of_nodup hnodup List.nodup_range).2 fun n => ?_
  simp only [List.mem_append, List.mem_cons, List.not_mem_nil, or_false, hgates, List.mem_range]
  constructor
  · rintro ((rfl | rfl) | hmem | hmem)
    · omega
    · omega
    · exact (hinputs n hmem).2
    · exact hmem.1
  · intro hlt
    by_cases hmem : n ∈ g.inputs
    · exact Or.inr (Or.inl hmem)
    by_cases hle : n ≤ 1
    · exact Or.inl (Nat.le_one_iff_eq_zero_or_eq_one.1 hle)
    · exact Or.inr (Or.inr ⟨hlt, Nat.lt_of_not_le hle, hmem⟩)

theorem size_eq (h : g.WellFormed) : g.size = g.inputs.length + g.gates.length + 2 := by
  have hlength := h.perm_nodeIds.length_eq
  simpa [nodeIds] using hlength.symm

theorem gateCount_eq (h : g.WellFormed) : g.gateCount = g.gates.length := by
  have hsize := h.size_eq
  unfold gateCount
  omega

theorem children_kind (h : g.WellFormed) (hn : n < g.size) : ∃ children,
    g.children n = .ok children ∧
      if g.isOf .gate n then 1 ≤ children.length ∧ children.length ≤ 32 else children = [] := by
  obtain ⟨node, hnode⟩ := exists_node hn
  refine ⟨node.children, by simp [children, (node_eq_ok_iff g n node).2 hnode], ?_⟩
  rw [← childrenOf_eq hnode]
  cases hgate : g.isGate n with
  | true =>
      have harity := h.arity n hn hgate
      exact (if_pos hgate).mpr ⟨List.length_pos_iff.2 harity.1, harity.2⟩
  | false =>
      have := h.childless n hgate
      simpa [isOf, hgate] using this

/-- The register at a position: its output tells its next-state signal, and the signal tells the
first register that it drives. -/
theorem register_at (h : g.WellFormed) (hi : i < g.resets.length) : ∃ state signal,
    g.terminal .registerOutput i = .ok state ∧ g.terminal .registerInput i = .ok signal ∧
    g.nextState state = .ok signal ∧
    ∃ j ≤ i, g.terminal .registerInput j = .ok signal ∧
      (∀ k < j, g.terminal .registerInput k ≠ .ok signal) ∧
      ∃ first, g.terminal .registerOutput j = .ok first ∧ g.stateOf signal = .ok first := by
  have hstates : ∀ j ≤ i, ∃ state, g.terminal .registerOutput j = .ok state := fun j hj => by
    rw [h.exists_terminal_iff, ← h.terminals_length]
    exact Nat.lt_of_le_of_lt hj (Nat.lt_of_lt_of_le hi h.paired)
  obtain ⟨state, hstate⟩ := hstates i le_rfl
  obtain ⟨signal, hsignal⟩ : ∃ signal, g.terminal .registerInput i = .ok signal := by
    rw [h.exists_terminal_iff, ← h.terminals_length]
    exact Nat.lt_of_lt_of_eq hi h.matched.registerInputs_length.symm
  have hposition : g.inputPosition .registerOutput state = .ok i :=
    (h.inputPosition_eq_ok_iff (by decide)).2 (terminal_eq_ok_iff.1 hstate)
  obtain ⟨j, hj, hfound, hthere, hbefore⟩ := exists_first_position (terminal_eq_ok_iff.1 hsignal)
  obtain ⟨first, hfirst⟩ := hstates j hj
  have hnext : g.nextState state = .ok signal := by
    simp only [nextState, hposition, Bind.bind, Except.bind, hsignal]
  have hstateOf : g.stateOf signal = .ok first := by
    simp only [stateOf, position?, hfound, hfirst]
  refine ⟨state, signal, hstate, hsignal, hnext, j, hj, terminal_eq_ok_iff.2 hthere, ?_,
    first, hfirst, hstateOf⟩
  exact fun k hk hsame => hbefore k hk (terminal_eq_ok_iff.1 hsame)

theorem consists (h : g.WellFormed) {whole front back : Terminal}
    (hwhole : g.terminals whole = g.terminals front ++ g.terminals back) :
    g.Consists whole front back where
  count_eq := by
    rw [← h.terminals_length, ← h.terminals_length, ← h.terminals_length, hwhole,
      List.length_append]
  of_front i hi := by
    obtain ⟨n, hn⟩ := h.exists_terminal_iff.2 hi
    refine ⟨n, terminal_eq_ok_iff.2 ?_, hn⟩
    rw [hwhole, List.getElem?_append_left (by rwa [h.terminals_length])]
    exact terminal_eq_ok_iff.1 hn
  of_back i hi := by
    obtain ⟨n, hn⟩ := h.exists_terminal_iff.2 hi
    refine ⟨n, terminal_eq_ok_iff.2 ?_, hn⟩
    rw [hwhole, ← h.terminals_length, List.getElem?_append_right (Nat.le_add_right _ _),
      Nat.add_sub_cancel_left]
    exact terminal_eq_ok_iff.1 hn

theorem arranged (h : g.WellFormed) : g.Arranged where
  kind n _ :=
    ⟨g.kindOf n, (h.isOf_iff _).2 rfl, fun kind hkind => ((h.isOf_iff kind).1 hkind).symm⟩
  isOf_iff kind n := h.isOf_iff kind
  gates := ⟨gates_sorted, fun n => by rw [mem_gates_iff, h.isGate_iff]⟩
  nodes := h.perm_nodeIds
  size := h.size_eq
  gateCount := h.gateCount_eq
  children n hn := h.children_kind hn
  counted := h.terminals_length
  terminal list i := h.exists_terminal_iff
  inputs := h.consists g.toInputs.primaryInputs_append.symm
  outputs := h.consists g.toOutputs.primaryOutputs_append.symm
  indexed list hlist :=
    ⟨fun n => h.exists_inputPosition_iff list hlist,
      fun i n => terminal_eq_ok_iff.trans (h.inputPosition_eq_ok_iff hlist).symm⟩
  resets := (h.terminals_length .registerInput).symm.trans h.matched.registerInputs_length
  registers i hi := h.register_at hi

end WellFormed
end Graph

open Network

/-- The terminals and the kinds of nodes of every reachable network. -/
theorem Reachable.terminals_arranged {net : Network} (h : Reachable net) : net.graph.Arranged :=
  h.wellFormed.graph.arranged

/-- A script that leads three registers to the same next state. -/
def gathering : Action Network Unit := do
  let a ← addPrimaryInput
  let first ← addRegisterOutput
  let second ← addRegisterOutput
  let _ ← addRegisterOutput
  let both ← gate .and [a, first]
  let either ← gate .or [a, second]
  let _ ← addPrimaryOutput either
  let _ ← addRegisterInput either .zero
  let _ ← addRegisterInput both .one
  let _ ← addRegisterInput either .unknown
  substitute either both

theorem gathering_script : Script gathering :=
  .next (.call .addPrimaryInput) fun a => .next (.call .addRegisterOutput) fun first =>
    .next (.call .addRegisterOutput) fun second => .next (.call .addRegisterOutput) fun _ =>
    .next (.call (.gate .and [a, first])) fun both =>
    .next (.call (.gate .or [a, second])) fun either =>
    .next (.call (.addPrimaryOutput either)) fun _ =>
    .next (.call (.addRegisterInput either .zero)) fun _ =>
    .next (.call (.addRegisterInput both .one)) fun _ =>
    .next (.call (.addRegisterInput either .unknown)) fun _ => .call (.substitute either both)

/-- The network that the script makes. -/
def gathered : Network := (gathering (Network.new .sharing)).state

theorem gathered_reachable : Reachable gathered := .run (.new .sharing) gathering_script

theorem gathered_arranged : Reachable gathered ∧ 2 < gathered.graph.resets.length ∧
    gathered.graph.registerInputs = [6, 6, 6] ∧ gathered.graph.nextState 5 = .ok 6 ∧
    gathered.graph.stateOf 6 = .ok 3 := by
  have hlt : 2 < gathered.graph.resets.length := by decide +kernel
  have hthird : gathered.graph.terminal .registerOutput 2 = .ok 5 := by decide +kernel
  have hsignals : gathered.graph.registerInputs = [6, 6, 6] := by decide +kernel
  have hzeroth : gathered.graph.terminal .registerOutput 0 = .ok 3 := by decide +kernel
  obtain ⟨state, signal, hstate, hsignal, hnext, j, _, _, hbefore, first, hfirst, hsame⟩ :=
    (Reachable.terminals_arranged gathered_reachable).registers 2 hlt
  simp only [Graph.terminal_eq_ok_iff, Graph.terminals, hsignals, ne_eq] at hsignal hbefore
  cases hsignal
  cases hthird.symm.trans hstate
  cases j with
  | zero =>
      cases hzeroth.symm.trans hfirst
      exact ⟨gathered_reachable, hlt, hsignals, hnext, hsame⟩
  | succ j => exact absurd rfl (hbefore 0 (Nat.succ_pos j))

end LogicNet
