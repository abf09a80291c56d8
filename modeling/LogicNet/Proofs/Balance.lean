import LogicNet.Proofs.Reduction
import LogicNet.Proofs.Statistics

/-!
How deep reductions are and how many gates they take. Above inputs and constants the depth of what
a reduction answers is the height of its bracketing, which is that of a chain or of a balanced tree
whatever sharing finds on the way; and each pair takes one gate at most, and exactly one if nothing
is shared. Once the answer is an output, the statistics tell its depth.
-/

namespace LogicNet

/-- Constants and inputs are nodes and no gates. -/
theorem Graph.WellFormed.flat {g : Graph} (h : g.WellFormed) {n : NodeId}
    (hn : (∃ value, n = Graph.constant value) ∨ n ∈ g.inputs) :
    n < g.size ∧ g.isGate n = false := by
  rcases hn with ⟨value, rfl⟩ | hinput
  · exact ⟨h.constant_lt value, g.isGate_constant value⟩
  · exact ⟨(h.input_lt n hinput).2, h.isGate_input hinput⟩

namespace Network

variable {net net' : Network}

/-- Whatever a reduction appends is a gate. -/
theorem Appended.gates_eq {count : Nat} (h : net.Appended count net') (hwell : net.WellFormed) :
    net'.graph.gates = net.graph.gates ++
      List.range' net.graph.size (net'.graph.size - net.graph.size) := by
  have hnew : ∀ n ∈ List.range' net.graph.size (net'.graph.size - net.graph.size),
      net.graph.isGate n = true :=
    fun n hn => hwell.graph.isGate_of_size_le (List.mem_range'_1.1 hn).1
  have hnodes : net'.graph.nodeIds = net.graph.nodeIds ++
      List.range' net.graph.size (net'.graph.size - net.graph.size) := by
    have hsize : net'.graph.size = net.graph.size + (net'.graph.size - net.graph.size) := by
      have := h.grown.size_le
      omega
    rw [Graph.nodeIds, hsize, List.range_eq_range', Graph.nodeIds, List.range_eq_range']
    simp [← List.range'_append]
  rw [Graph.gates, hnodes, List.filter_append, Graph.isGate_congr h.toInputs_eq,
    List.filter_eq_self.2 hnew, Graph.gates]

/-- The node is an output, and inputs and scratch space are as before. -/
structure Drives (net : Network) (n : NodeId) (net' : Network) : Prop where
  toInputs_eq : net'.graph.toInputs = net.graph.toInputs
  scratch_eq : net'.scratch = net.scratch
  mem_outputs : n ∈ net'.graph.outputs

theorem addPrimaryOutput_drives (n : NodeId) :
    (addPrimaryOutput n).Leaves net fun _ => net.Drives n :=
  .get_bind (.lift_bind fun _ _ => .require_bind fun _ => .lift_bind fun _ _ => .set_bind
    (.pure ⟨rfl, rfl, List.mem_append_right _ List.mem_cons_self⟩))

theorem addRegisterInput_drives (n : NodeId) (reset : Reset) :
    (addRegisterInput n reset).Leaves net fun _ => net.Drives n :=
  .get_bind (.lift_bind fun _ _ => .require_bind fun _ => .lift_bind fun _ _ => .set_bind
    (.pure ⟨rfl, rfl, List.mem_append_right _ List.mem_cons_self⟩))

/-- The node becomes an output, a primary one or the next state of a register. -/
inductive MadeOutput (net : Network) (n : NodeId) (net' : Network) : Prop where
  | primary (position : Nat) (made : (addPrimaryOutput n).Gives net position net')
  | register (reset : Reset) (position : Nat)
      (made : (addRegisterInput n reset).Gives net position net')

theorem MadeOutput.drives {n : NodeId} (h : net.MadeOutput n net') : net.Drives n net' := by
  cases h with
  | primary _ made => exact (addPrimaryOutput_drives n).of_gives made
  | register reset _ made => exact (addRegisterInput_drives n reset).of_gives made

theorem MadeOutput.extensions {n : NodeId} (h : net.MadeOutput n net') :
    Relation.ReflTransGen Extension net net' := by
  cases h with
  | primary _ made => exact made.2 ▸ extensions_of_growth (addPrimaryOutput_moves n net)
  | register reset _ made =>
      exact made.2 ▸ extensions_of_growth (addRegisterInput_moves n reset net)

/-- An output above flat operands, found at the depth of its bracketing. -/
theorem depths_of_stands (hwell : net.WellFormed) (hfresh : net.scratch.Fresh) {kind : Gate}
    {b : Bracketing} {n : NodeId} (hstands : net.graph.Stands kind b n)
    (hflat : ∀ m ∈ b.operands, net.graph.isGate m = false) (houtput : n ∈ net.graph.outputs) :
    if net.scratch.traversal.toNat + 1 < UInt32.size then
      ∃ depths, (Network.depths net).answer = .ok depths ∧ depths[n]? = some b.height
    else (Network.depths net).answer = .error .counterFull := by
  split
  · next hroom =>
      obtain ⟨depths, htable, hanswer, _⟩ := depths_run hwell ⟨hwell.marks_size, hfresh, hroom⟩
      have hlive := (Graph.mem_liveNodes hwell.graph n).2 ⟨n, houtput, .refl⟩
      exact ⟨depths, hanswer,
        (htable n _).2 ⟨hlive, (hstands.depth_eq hwell.graph hflat).symm⟩⟩
  · next hfull => exact depths_full hfull

/-- What a reduction of so many operands stacks up. Nothing but a full counter keeps it from its
answer, and there is none if two uses more can be counted for each pair. Gates are appended for the
pairs that are new, and without sharing for all of them. Once the answer is an output the depths
tell the height of the shape, as long as there is a traversal number left to find them. -/
structure Stacks (net : Network) (shape : Shape) (kind : Gate) (operands : List NodeId) : Prop where
  room : net.graph.references.length + 2 * (operands.length - 1) < UInt32.size →
    (reduceTo shape (combineBy kind) operands none net).answer ≠ .error .counterFull
  met : (reduceTo shape (combineBy kind) operands none net).answer ≠ .error .counterFull →
    ∃ n net' more, (reduceTo shape (combineBy kind) operands none).Gives net n net' ∧
      net'.graph.gates = net.graph.gates ++ more ∧ more.length ≤ operands.length - 1 ∧
      (net.options.share = false → more.length = operands.length - 1) ∧
      ∀ net'', net'.MadeOutput n net'' →
        if net.scratch.traversal.toNat + 1 < UInt32.size then
          ∃ depths, (Network.depths net'').answer = .ok depths ∧
            depths[n]? = some (shape.height operands.length)
        else (Network.depths net'').answer = .error .counterFull

theorem Stacks.depth {shape : Shape} {kind : Gate} {operands : List NodeId} {n : NodeId}
    {net'' : Network} (h : net.Stacks shape kind operands)
    (hgives : (reduceTo shape (combineBy kind) operands none).Gives net n net')
    (hmade : net'.MadeOutput n net'') (hroom : net.scratch.traversal.toNat + 1 < UInt32.size) :
    ∃ depths, (Network.depths net'').answer = .ok depths ∧
      depths[n]? = some (shape.height operands.length) := by
  obtain ⟨_, _, _, hgives', _, _, _, hdepth⟩ := h.met (by rw [hgives.1]; nofun)
  obtain ⟨rfl, rfl⟩ := hgives.unique hgives'
  have htold := hdepth net'' hmade
  rwa [if_pos hroom] at htold

end Network

open Network

/-- Reductions are as deep as their shape says. If nothing has been replaced so far, what is reduced
from inputs and constants in a row or by halves is at depth `count - 1` or at the logarithm of the
count, rounded up. -/
theorem Network.Unreplaced.reduction_depth {net : Network} (h : net.Unreplaced)
    (hfresh : net.scratch.Fresh) {kind : Gate} (harity : kind.arity = 2) {operands : List NodeId}
    (hne : operands ≠ [])
    (hflat : ∀ m ∈ operands, (∃ value, m = Graph.constant value) ∨ m ∈ net.graph.inputs)
    (shape : Shape) : net.Stacks shape kind operands := by
  have hwell := h.reachable.wellFormed
  have hbelow := fun m hm => hwell.graph.flat (hflat m hm)
  have hlt := fun m hm => (hbelow m hm).1
  refine ⟨fun hroom hanswer => ?_, fun hcounted => ?_⟩
  · obtain ⟨_, hfull⟩ := reduceTo_full hwell h.verbatim hne hlt harity shape _ hanswer
    omega
  obtain ⟨n, net', hgives, happended, b, hb, hstands⟩ :=
    reduceTo_gives hwell h.verbatim hne hlt harity shape hcounted
  have hle := happended.size_le
  refine ⟨n, net', _, hgives, happended.gates_eq hwell, ?_, fun hshare => ?_,
    fun net'' hmade => ?_⟩
  · rw [List.length_range']
    omega
  · have hsize := happended.size_eq hshare
    rw [List.length_range']
    omega
  · have hdrives := hmade.drives
    have hgrown := grown_of_extensions hmade.extensions
    have hsame : net''.scratch.traversal = net.scratch.traversal := by
      rw [hdrives.scratch_eq, happended.traversal_eq]
    rw [← hb.height_eq, ← hsame]
    refine depths_of_stands ((happended.wellFormed hwell).of_extensions hmade.extensions)
      (hdrives.scratch_eq ▸ happended.fresh hfresh) (hstands.of_grown hgrown) (fun m hm => ?_)
      hdrives.mem_outputs
    rw [Graph.isGate_congr (hdrives.toInputs_eq.trans happended.toInputs_eq)]
    exact (hbelow m (hb.operands_eq ▸ hm)).2

/-- Two inputs, without sharing. -/
def parted : Network := ((Network.new .plain).after .addPrimaryInput).after .addPrimaryInput

theorem parted_unreplaced : parted.Unreplaced :=
  unreplaced_afterAll (.new .plain) [⟨_, .addPrimaryInput⟩, ⟨_, .addPrimaryInput⟩]
    (by simp [Operation.substitution?])

/-- The exclusive disjunction of five operands, two of whose pairs are the same, has these gates,
and the node that it answers is so deep as an output. -/
def Fivefold (net : Network) (shape : Shape) (n : NodeId) (gates : List NodeId) (depth : Nat) :
    Prop :=
  ∃ net' net'' depths, (reduceTo shape (combineBy .xor) [2, 3, 1, 2, 3] none).Gives net n net' ∧
    net'.graph.gates = gates ∧ (addPrimaryOutput n).Gives net' 0 net'' ∧
    (Network.depths net'').answer = .ok depths ∧ depths[n]? = some depth

theorem Network.Stacks.fivefold {net : Network} {shape : Shape} {n : NodeId} {gates : List NodeId}
    (h : net.Stacks shape .xor [2, 3, 1, 2, 3])
    (hroom : net.scratch.traversal.toNat + 1 < UInt32.size)
    (hn : (reduceTo shape (combineBy .xor) [2, 3, 1, 2, 3] none net).answer = .ok n)
    (hgates : (reduceTo shape (combineBy .xor) [2, 3, 1, 2, 3] none net).state.graph.gates = gates)
    (hmade : (addPrimaryOutput n
      (reduceTo shape (combineBy .xor) [2, 3, 1, 2, 3] none net).state).answer = .ok 0) :
    Fivefold net shape n gates (shape.height 5) := by
  obtain ⟨depths, hanswer, hentry⟩ := h.depth ⟨hn, rfl⟩ (.primary 0 ⟨hmade, rfl⟩) hroom
  exact ⟨_, _, depths, ⟨hn, rfl⟩, hgates, ⟨hmade, rfl⟩, hanswer, hentry⟩

/-- Three gates on three levels in a tree, four gates on four levels in a row, and four gates on
three levels in a tree without sharing. -/
theorem paired_reduction_depth : paired.Unreplaced ∧ paired.scratch.Fresh ∧ parted.Unreplaced ∧
    parted.scratch.Fresh ∧ Gate.xor.arity = 2 ∧
    (∀ m ∈ [2, 3, 1, 2, 3], (∃ value, m = Graph.constant value) ∨ m ∈ paired.graph.inputs) ∧
    (∀ m ∈ [2, 3, 1, 2, 3], (∃ value, m = Graph.constant value) ∨ m ∈ parted.graph.inputs) ∧
    Fivefold paired .tree 6 [4, 5, 6] 3 ∧ Fivefold paired .linear 7 [4, 5, 6, 7] 4 ∧
    Fivefold parted .tree 7 [4, 5, 6, 7] 3 := by
  have hfresh : paired.scratch.Fresh ∧ parted.scratch.Fresh := by decide +kernel
  have hflat : ∀ m ∈ [2, 3, 1, 2, 3],
      (∃ value, m = Graph.constant value) ∨ m ∈ paired.graph.inputs := by decide +kernel
  have hflat' : ∀ m ∈ [2, 3, 1, 2, 3],
      (∃ value, m = Graph.constant value) ∨ m ∈ parted.graph.inputs := by decide +kernel
  have harity : Gate.xor.arity = 2 := rfl
  have hroom : paired.scratch.traversal.toNat + 1 < UInt32.size ∧
      parted.scratch.traversal.toNat + 1 < UInt32.size := by decide +kernel
  have htree : Shape.tree.height 5 = 3 := by decide +kernel
  have hpaired := Network.Unreplaced.reduction_depth paired_unreplaced hfresh.1 harity
    (List.cons_ne_nil _ _) hflat
  have hparted := Network.Unreplaced.reduction_depth parted_unreplaced hfresh.2 harity
    (List.cons_ne_nil _ _) hflat'
  refine ⟨paired_unreplaced, hfresh.1, parted_unreplaced, hfresh.2, harity, hflat, hflat', ?_, ?_,
    ?_⟩
  · exact htree ▸ (hpaired .tree).fivefold hroom.1 (by decide +kernel) (by decide +kernel)
      (by decide +kernel)
  · exact (hpaired .linear).fivefold hroom.1 (by decide +kernel) (by decide +kernel)
      (by decide +kernel)
  · exact htree ▸ (hparted .tree).fivefold hroom.2 (by decide +kernel) (by decide +kernel)
      (by decide +kernel)

end LogicNet
