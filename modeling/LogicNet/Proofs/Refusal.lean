import LogicNet.Proofs.Consistency
import LogicNet.Proofs.Deliveries
import LogicNet.Proofs.RoundTrip

/-!
Refused calls. A building call or a substitution is refused only by its own checks, unless a fanout
counter is full, and all checks come before the first change of the graph. What is left of a refused
call is at most a cover at the end of the table, in the calls that add their cover before the
children are looked at.
-/

namespace LogicNet
namespace Graph

variable {g : Graph} {fault : Fault}

theorem check_ne_full {n : NodeId} (h : g.check n = .error fault) : fault ≠ .counterFull := by
  unfold check at h
  split at h
  · cases h
  · cases h
    nofun

theorem checkAll_ne_full {ns : List NodeId} (h : g.checkAll ns = .error fault) :
    fault ≠ .counterFull := by
  obtain ⟨n, _, hn⟩ := Network.forM_except_error h
  exact check_ne_full hn

theorem cover_ne_full {c : CoverId} (h : g.cover c = .error fault) : fault ≠ .counterFull := by
  unfold cover at h
  split at h
  · cases h
  · cases h
    nofun

theorem nodeCover_ne_full {n : NodeId} (h : g.nodeCover n = .error fault) :
    fault ≠ .counterFull := by
  unfold nodeCover node at h
  split at h
  · exact cover_ne_full h
  · cases h
    nofun

end Graph

namespace Network

/-- A refusal by a check, without a trace. -/
def Untouched (net : Network) (fault : Fault) (net' : Network) : Prop :=
  fault ≠ .counterFull ∧ net' = net

variable {net : Network}

theorem checkSubstitution_ne_full {g : Graph} (hbound : Bounded g.childrenOf g.size)
    {old new : NodeId} {fault : Fault} (h : checkSubstitution g old new = .error fault) :
    fault ≠ .counterFull := by
  unfold checkSubstitution at h
  cases hold : g.check old with
  | error early =>
      rw [hold] at h
      cases h
      exact Graph.check_ne_full hold
  | ok _ =>
  cases hnew : g.check new with
  | error early =>
      rw [hold, hnew] at h
      cases h
      exact Graph.check_ne_full hnew
  | ok _ =>
  obtain ⟨found, hrun, _⟩ := Graph.dependsOn_eq_ok hbound ((check_eq_ok_iff _ _).1 hnew) old
  rw [hold, hnew, hrun] at h
  by_cases hsame : old = new
  · simp only [hsame, if_true] at h
    cases h
    nofun
  · cases found with
    | true =>
        simp only [hsame, if_false] at h
        cases h
        nofun
    | false =>
        simp only [hsame, if_false] at h
        cases h

theorem addPrimaryInput_fails : addPrimaryInput.Fails net net.Untouched :=
  .get_bind (.require_bind ⟨nofun, rfl⟩ fun _ => .modify_bind (.note_bind (.pure _)))

theorem addCover_fails (cover : Cover) : (addCover cover).Fails net net.Untouched := by
  cases hstray : cover.firstStray? with
  | none => exact .of_ok (by rw [addCover_run ((Cover.firstStray?_eq_none_iff cover).1 hstray)])
  | some cube =>
      intro fault hfault
      rw [addCover_run_error hstray] at hfault ⊢
      cases hfault
      exact ⟨nofun, rfl⟩

/-- The network with a cover more in the table, which may be that of a kind of gate from then on. -/
def covered (net : Network) (cover : Cover) (user : Option Gate) : Network :=
  { net with
    graph.covers := net.graph.covers.push cover
    gateCover := fun kind =>
      if user = some kind then some net.graph.covers.size else net.gateCover kind }

/-- A refusal by a check, which leaves at most a cover in the table that was added before. -/
def Leftover (net : Network) (inserted : Option Cover) (user : Option Gate) (fault : Fault)
    (net' : Network) : Prop :=
  fault ≠ .counterFull ∧
    (net' = net ∨ ∃ cover, inserted = some cover ∧ net' = net.covered cover user)

/-- What the cover of a kind of gate is found with, or left with if it had none. -/
structure Readied (net : Network) (kind : Gate) (c : CoverId) (net' : Network) : Prop where
  wellFormed : net'.WellFormed
  nodes_eq : net'.graph.nodes = net.graph.nodes
  references_eq : net'.graph.references = net.graph.references
  cover_lt : c < net'.graph.covers.size
  left : net' = net ∨ net.gateCover kind = none ∧ net' = net.covered kind.cover (some kind)

theorem coverOfGate_readies (hwell : net.WellFormed) (kind : Gate) :
    ∃ c net', (coverOfGate kind).Gives net c net' ∧ Readied net kind c net' := by
  have hmoved := extensions_of_building (coverOfGate_moves kind net)
  have hrun := coverOfGate_run kind net
  cases hkind : net.gateCover kind with
  | some c =>
      simp only [hkind] at hrun
      have hcover := hwell.gateCover kind c hkind
      exact ⟨c, net, hrun, hwell, rfl, rfl, (Array.getElem?_eq_some_iff.1 hcover).1, .inl rfl⟩
  | none =>
      simp only [hkind] at hrun
      refine ⟨_, _, hrun, hrun.2 ▸ hwell.of_extensions hmoved, rfl, rfl, ?_, .inr ⟨hkind, ?_⟩⟩
      · simp [Graph.addCover]
      · simp only [covered, Graph.addCover, Option.some.injEq, eq_comm]

section Checks

variable (hwell : net.WellFormed) (hroom : net.graph.references.length < UInt32.size - 32)

include hwell hroom

/-- One use more of a node is counted if there is room. -/
theorem WellFormed.raise_isOk (n : NodeId) : ∃ fanouts, net.fanouts.raise n 1 = .ok fanouts := by
  refine ⟨_, (Fanouts.raise_eq_ok_iff n 1).2 ⟨?_, rfl⟩⟩
  have huses : net.graph.uses n ≤ net.graph.references.length := List.count_le_length
  rw [hwell.fanouts_get]
  omega

theorem addPrimaryOutput_fails (signal : NodeId) :
    (addPrimaryOutput signal).Fails net net.Untouched := by
  obtain ⟨fanouts, hraised⟩ := hwell.raise_isOk hroom signal
  refine .get_bind (.lift_bind (fun _ h => ⟨Graph.check_ne_full h, rfl⟩) fun _ _ => ?_)
  exact .require_bind ⟨nofun, rfl⟩ fun _ => .lift_ok_bind hraised (.set_bind (.pure _))

theorem addRegisterInput_fails (signal : NodeId) (reset : Reset) :
    (addRegisterInput signal reset).Fails net net.Untouched := by
  obtain ⟨fanouts, hraised⟩ := hwell.raise_isOk hroom signal
  refine .get_bind (.lift_bind (fun _ h => ⟨Graph.check_ne_full h, rfl⟩) fun _ _ => ?_)
  exact .require_bind ⟨nofun, rfl⟩ fun _ => .lift_ok_bind hraised (.set_bind (.pure _))

theorem createNode_fails {request : Request} (accepted : net.graph.Accepts request) :
    (createNode request).Fails net net.Untouched := by
  have hlength : request.children.length ≤ 32 := accepted.length_le
  obtain ⟨fanouts, hraised⟩ := hwell.raiseAll_isOk accepted.child_lt (by omega)
  exact .get_bind (.lift_ok_bind hraised (.set_bind (.note_bind (.report_bind (.pure _)))))

theorem node_fails (children : List NodeId) (cover : CoverId) :
    (node children cover).Fails net net.Untouched := by
  unfold node
  refine .get_bind (.lift_bind (fun _ h => ⟨Graph.cover_ne_full h, rfl⟩) fun function hcover => ?_)
  split
  · exact .pure _
  next hne =>
  refine .require_bind ⟨by simp, rfl⟩ fun hlength => ?_
  refine .lift_bind (fun _ h => ⟨Graph.checkAll_ne_full h, rfl⟩) fun _ hcheck => ?_
  have hnamed := (Graph.cover_eq_ok_iff _ _ _).1 hcover
  have haccepted : net.graph.Accepts ⟨children, cover⟩ :=
    ⟨(Array.getElem?_eq_some_iff.1 hnamed).1, by simpa using hne, hlength,
      (checkAll_eq_ok_iff _ _).1 hcheck⟩
  split
  · exact .note_bind (.pure _)
  · exact createNode_fails hwell hroom haccepted

theorem substitute_fails (old new : NodeId) : (substitute old new).Fails net net.Untouched := by
  rw [substitute_eq]
  refine .get_bind (.lift_bind (fun _ h =>
    ⟨checkSubstitution_ne_full hwell.graph.bounded h, rfl⟩) fun _ hchecked => ?_)
  obtain ⟨_, hnew, hne, _⟩ := (checkSubstitution_eq_ok_iff hwell.graph.bounded old new).1 hchecked
  obtain ⟨fanouts, hmoved⟩ :=
    LogicNet.WellFormed.moveUses_isOk hwell hnew hne (by omega)
  have hredirected := hwell.of_redirection ⟨hchecked, fanouts, hmoved, rfl⟩
  refine .lift_ok_bind hmoved (.set_bind (.report_bind (.note_bind ?_)))
  -- The redirected network passes the check of its invariants, so the call is met.
  split
  · exact .get_bind (.of_ok hredirected.checkInvariants_eq_ok)
  · exact .pure _

theorem coverNode_fails (children : List NodeId) (cover : Cover) :
    (coverNode children cover).Fails net (net.Leftover (some cover) none) := by
  unfold coverNode
  split
  · exact .pure _
  refine .bind ((addCover_fails cover).mono fun _ _ h => ⟨h.1, .inl h.2⟩) fun c net' hgives => ?_
  have htidy := addCover_tidy hgives.1
  obtain ⟨rfl, rfl⟩ := (addCover_leaves cover net).of_gives hgives
  refine (node_fails (hwell.of_growth (.cover cover htidy)) hroom _ _).mono fun _ _ h => ?_
  exact ⟨h.1, .inr ⟨cover, rfl, h.2⟩⟩

theorem gate_fails (kind : Gate) (operands : List NodeId) : (gate kind operands).Fails net
    (net.Leftover (if net.gateCover kind = none then some kind.cover else none) (some kind)) := by
  obtain ⟨c, middle, hgives, hready⟩ := coverOfGate_readies hwell kind
  refine .require_bind ⟨nofun, .inl rfl⟩ fun _ => .bind (.of_ok hgives.1) fun c' net' hgives' => ?_
  obtain ⟨rfl, rfl⟩ := hgives.unique hgives'
  have hroom' : net'.graph.references.length < UInt32.size - 32 := hready.references_eq ▸ hroom
  refine (node_fails hready.wellFormed hroom' _ _).mono fun _ _ h => ⟨h.1, ?_⟩
  rcases hready.left with hsame | ⟨hfirst, hadded⟩
  · exact .inl (h.2.trans hsame)
  · exact .inr ⟨kind.cover, if_pos hfirst, h.2.trans hadded⟩

theorem tableNode_fails (children : List NodeId) (table : TruthTable) :
    (tableNode children table).Fails net (net.Leftover (some table.toCover) none) := by
  unfold tableNode
  split
  · exact .pure _
  · exact .require_bind ⟨by simp, .inl rfl⟩ fun _ => coverNode_fails hwell hroom children _

theorem copyNode_fails (other : Graph) (source : NodeId) (children : List NodeId) :
    (copyNode other source children).Fails net
      (net.Leftover (other.nodeCover source).toOption none) := by
  refine .require_bind ⟨nofun, .inl rfl⟩ fun _ => .lift_bind (fun _ h => ?_) fun cover hcover => ?_
  · exact ⟨Graph.nodeCover_ne_full h, .inl rfl⟩
  · rw [hcover]
    exact coverNode_fails hwell hroom children cover

end Checks

end Network

open Network

namespace Operation

/-- The calls that build or substitute and that can be refused. -/
def guarded : {α : Type} → Operation α → Bool
  | _, addPrimaryInput | _, addPrimaryOutput _ | _, addRegisterInput .. | _, addCover _ => true
  | _, node .. | _, gate .. | _, coverNode .. | _, tableNode .. | _, copyNode .. => true
  | _, substitute .. => true
  | _, _ => false

/-- The cover that a call adds to the table before it looks at the children, if it does so. -/
def insertion? (net : Network) : {α : Type} → Operation α → Option Cover
  | _, gate kind _ => if net.gateCover kind = none then some kind.cover else none
  | _, coverNode _ cover => some cover
  | _, tableNode _ table => some table.toCover
  | _, copyNode other source _ => (other.nodeCover source).toOption
  | _, _ => none

/-- The kind of gate that a call is for, if it is for a primitive gate. -/
def gateKind? : {α : Type} → Operation α → Option Gate
  | _, gate kind _ => some kind
  | _, _ => none

/-- A guarded call is refused by its checks, with at most a cover left in the table. -/
theorem perform_fails {net : Network} (hwell : net.WellFormed)
    (hroom : net.graph.references.length < UInt32.size - 32) {α : Type} (op : Operation α)
    (hop : op.guarded = true) :
    op.perform.Fails net (net.Leftover (op.insertion? net) op.gateKind?) := by
  have huntouched : ∀ {β : Type} {x : Action Network β} {inserted user},
      x.Fails net net.Untouched → x.Fails net (net.Leftover inserted user) := fun h =>
    h.mono fun _ _ h => ⟨h.1, .inl h.2⟩
  cases op with
  | addPrimaryInput => exact huntouched addPrimaryInput_fails
  | addPrimaryOutput signal => exact huntouched (addPrimaryOutput_fails hwell hroom signal)
  | addRegisterInput signal reset =>
      exact huntouched (addRegisterInput_fails hwell hroom signal reset)
  | addCover cover => exact huntouched (addCover_fails cover)
  | node children cover => exact huntouched (node_fails hwell hroom children cover)
  | gate kind operands => exact gate_fails hwell hroom kind operands
  | coverNode children cover => exact coverNode_fails hwell hroom children cover
  | tableNode children table => exact tableNode_fails hwell hroom children table
  | copyNode other source children => exact copyNode_fails hwell hroom other source children
  | substitute old new => exact huntouched (substitute_fails hwell hroom old new)
  | _ => cases hop

end Operation

/-- A guarded call on a reachable network that is refused leaves everything as it was, but for a
cover at the end of the table: one that the call adds before it looks at the children, and with it
the place of that cover for the kind of gate whose first use this is. Nothing is delivered, and no
counter is full. -/
theorem Reachable.refused_leaves {net : Network} (h : Reachable net)
    (hroom : net.graph.references.length < UInt32.size - 32) {α : Type} (op : Operation α)
    (hop : op.guarded = true) {fault : Fault} (hrefused : (op.perform net).answer = .error fault) :
    fault ≠ .counterFull ∧ heard (op.perform net).journal = [] ∧
    (net.after op = net ∨ ∃ cover, op.insertion? net = some cover ∧
      net.after op = { net with
        graph.covers := net.graph.covers.push cover
        gateCover := fun kind => if op.gateKind? = some kind then some net.graph.covers.size
          else net.gateCover kind }) := by
  obtain ⟨hfull, hleft⟩ := op.perform_fails h.wellFormed hroom hop fault hrefused
  have hsize : (net.after op).graph.size = net.graph.size := by
    rcases hleft with hsame | ⟨cover, _, hadded⟩
    · exact congrArg (·.graph.size) hsame
    · exact congrArg (·.graph.size) hadded
  refine ⟨hfull, ?_, hleft⟩
  rw [heard_call h.wellFormed ⟨α, op⟩, events_of_added (Call.replaced?_of_error hrefused),
    Graph.gatesFrom_of_size_le hsize.le]
  rfl

/-- The first exclusive disjunction of a network is refused for a dangling operand; its cover is in
the table afterwards. -/
theorem detoured_refused_leaves : Reachable detoured ∧
    detoured.graph.references.length < UInt32.size - 32 ∧
    (gate .xor [3, 99] detoured).answer = .error (.nodeOutOfBounds 99 8) ∧
    heard (gate .xor [3, 99] detoured).journal = [] ∧
    (detoured.after (.gate .xor [3, 99])).graph =
      { detoured.graph with covers := detoured.graph.covers.push Gate.xor.cover } := by
  have hroom : detoured.graph.references.length < UInt32.size - 32 := by decide +kernel
  have hrefused : (gate .xor [3, 99] detoured).answer = .error (.nodeOutOfBounds 99 8) := by
    decide +kernel
  obtain ⟨_, hsilent, hleft⟩ := Reachable.refused_leaves detoured_reachable hroom
    (.gate .xor [3, 99]) rfl hrefused
  refine ⟨detoured_reachable, hroom, hrefused, hsilent, ?_⟩
  have hcovers : (detoured.after (.gate .xor [3, 99])).graph.covers.size =
      detoured.graph.covers.size + 1 := by decide +kernel
  rcases hleft with hsame | ⟨cover, hcover, hadded⟩
  · rw [hsame] at hcovers
    omega
  · have hfirst : detoured.gateCover .xor = none := by decide +kernel
    rw [Operation.insertion?, if_pos hfirst] at hcover
    cases hcover
    rw [hadded]

end LogicNet
