import LogicNet.Proofs.Persistence
import LogicNet.Proofs.Run
import Mathlib.Data.List.Induction
import Mathlib.Data.List.Infix

/-!
The sharing table and the history of a network. Substitutions rename the children of nodes and leave
the table as it is, so an entry tells what was asked for, and the children of its node are what the
substitutions since then have made of that. With sharing on from the start every node has exactly one
entry, and without substitutions no two nodes are alike.
-/

namespace LogicNet
namespace Network

/-- What a call makes of the children of node `n`: a substitution renames them if the node is there
already. -/
def renamedBy (net : Network) (call : Call) (n : NodeId) (children : List NodeId) : List NodeId :=
  match call.replaced? net with
  | some (old, new) => if n < net.graph.size then children.map (Graph.rename old new) else children
  | none => children

/-- What a run makes of the children with which node `n` is created: every substitution since then
renames them, one after the other. -/
def rewritten : Network → List Call → NodeId → List NodeId → List NodeId
  | _, [], _, children => children
  | net, call :: rest, n, children =>
    rewritten (net.after call.operation) rest n (net.renamedBy call n children)

/-- Once node `n` is there, no call of the run replaces anything. -/
def UndisturbedSince (start : Network) (n : NodeId) (calls : List Call) : Prop :=
  ∀ before call after, calls = before ++ call :: after →
    n < (start.afterAll before).graph.size → call.replaced? (start.afterAll before) = none

/-- Sharing is on from the start of the run to its end. -/
def SharedThroughout (start : Network) (calls : List Call) : Prop :=
  ∀ before, before <+: calls → (start.afterAll before).options.share = true

theorem rewritten_snoc (start : Network) (calls : List Call) (call : Call) (n : NodeId)
    (children : List NodeId) : start.rewritten (calls ++ [call]) n children =
      (start.afterAll calls).renamedBy call n (start.rewritten calls n children) := by
  induction calls generalizing start children with
  | nil => rfl
  | cons first rest ih => exact ih _ _

theorem rewritten_of_undisturbed {start : Network} {n : NodeId} {calls : List Call}
    (h : start.UndisturbedSince n calls) (children : List NodeId) :
    start.rewritten calls n children = children := by
  induction calls using List.reverseRecOn with
  | nil => rfl
  | append_singleton calls call ih =>
      rw [rewritten_snoc, ih fun before other after hsplit =>
        h before other (after ++ [call]) (by rw [hsplit, List.append_assoc, List.cons_append]),
        renamedBy]
      have hlast := h calls call [] rfl
      split
      · next hreplaced =>
          rw [hreplaced] at hlast
          exact if_neg fun hn => by cases hlast hn
      · rfl

/-- Each entry of the table is for what its node was created from, and `become` tells what its
children have become since. -/
structure Traced (net : Network) (become : NodeId → List NodeId → List NodeId) : Prop where
  entry : ∀ request n, net.table.find? request = some n → ∃ node, net.graph.nodes[n]? = some node ∧
    node.cover = request.cover ∧ node.children = become n request.children
  unmade : ∀ n children, net.graph.size ≤ n → become n children = children
  injective : ∀ request request' n, net.table.find? request = some n →
    net.table.find? request' = some n → request = request'

/-- Every node has an entry. -/
def Complete (net : Network) : Prop :=
  ∀ n < net.graph.size, ∃ request, net.table.find? request = some n

variable {net net' : Network} {become : NodeId → List NodeId → List NodeId}

theorem Traced.lt_size (h : Traced net become) {request : Request} {n : NodeId}
    (hfind : net.table.find? request = some n) : n < net.graph.size := by
  obtain ⟨node, hnode, _⟩ := h.entry request n hfind
  exact Graph.lt_size_of_nodes hnode

theorem find?_new (options : Options) (request : Request) (n : NodeId) :
    (Network.new options).table.find? request = some n ↔
      (Network.new options).graph.nodes[n]? = some request := by
  have htable : (Network.new options).table.find? request =
      if (⟨[], 1⟩ : Request) = request then some 1
      else if (⟨[], 0⟩ : Request) = request then some 0 else none := by
    simp only [Network.new, SharingTable.find?_record]
    rfl
  rw [htable]
  rcases n with _ | _ | n
  · show _ ↔ some (⟨[], 0⟩ : Request) = some request
    split
    · next heq => simp [← heq]
    · simp
  · show _ ↔ some (⟨[], 1⟩ : Request) = some request
    split
    · next heq => simp [heq]
    · next hne => simp [hne]
  · have hnone : (Network.new options).graph.nodes[n + 2]? = none := by
      simp [Network.new, Graph.constants]
    rw [hnone]
    split
    · simp
    · split <;> simp

theorem Traced.new (options : Options) : Traced (Network.new options) fun _ children => children where
  entry request n hfind := ⟨request, (find?_new options request n).1 hfind, rfl, rfl⟩
  unmade _ _ _ := rfl
  injective request request' n hfind hfind' := by
    rw [find?_new] at hfind hfind'
    rw [hfind] at hfind'
    exact Option.some.inj hfind'

theorem Complete.new (options : Options) : (Network.new options).Complete := by
  intro n hn
  obtain ⟨node, hnode⟩ := Graph.exists_node hn
  exact ⟨node, (find?_new options node n).2 hnode⟩

theorem Traced.of_extension (h : Traced net become) (hextension : Extension net net') :
    Traced net' become := by
  rcases hextension.table_cases with ⟨hnodes, htable⟩ | ⟨node, hnodes, htable, _⟩
  · refine ⟨?_, ?_, ?_⟩
    · rw [hnodes, htable]
      exact h.entry
    · rw [Graph.size, hnodes]
      exact h.unmade
    · rw [htable]
      exact h.injective
  have hcases : ∀ {request n}, net'.table.find? request = some n →
      (node = request ∧ n = net.graph.size) ∨ net.table.find? request = some n := by
    intro request n hfind
    rw [htable] at hfind
    split at hfind
    · next hnew => exact Or.inl ⟨hnew.2, (Option.some.inj hfind).symm⟩
    · exact Or.inr hfind
  refine ⟨fun request n hfind => ?_, fun n children hn => ?_, fun request request' n hfind hfind' => ?_⟩
  · rcases hcases hfind with ⟨rfl, rfl⟩ | hfind
    · exact ⟨node, by simp [hnodes, Graph.size], rfl, (h.unmade _ _ (Nat.le_refl _)).symm⟩
    · obtain ⟨before, hbefore, hrest⟩ := h.entry request n hfind
      refine ⟨before, ?_, hrest⟩
      rw [hnodes, Array.getElem?_push, if_neg, hbefore]
      exact Nat.ne_of_lt (h.lt_size hfind)
  · refine h.unmade n children (Nat.le_trans (Nat.le_succ _) ?_)
    rwa [Graph.size, hnodes, Array.size_push] at hn
  · rcases hcases hfind with ⟨rfl, rfl⟩ | hfind
    · rcases hcases hfind' with ⟨rfl, _⟩ | hfind'
      · rfl
      · exact absurd (h.lt_size hfind') (Nat.lt_irrefl _)
    · rcases hcases hfind' with ⟨_, rfl⟩ | hfind'
      · exact absurd (h.lt_size hfind) (Nat.lt_irrefl _)
      · exact h.injective request request' n hfind hfind'

theorem Traced.of_extensions (h : Traced net become)
    (hextensions : Relation.ReflTransGen Extension net net') : Traced net' become := by
  induction hextensions with
  | refl => exact h
  | tail _ hstep ih => exact ih.of_extension hstep

theorem Traced.of_redirection (h : Traced net become) {old new : NodeId}
    (hredirected : Redirection net old new net') :
    Traced net' fun n children => if n < net.graph.size then
      (become n children).map (Graph.rename old new) else become n children := by
  obtain ⟨fanouts, _, rfl⟩ := hredirected.result
  refine ⟨fun request n hfind => ?_, fun n children hn => ?_, h.injective⟩
  · obtain ⟨node, hnode, hcover, hchildren⟩ := h.entry request n hfind
    rw [if_pos (h.lt_size hfind), ← hchildren]
    refine ⟨{ node with children := node.children.map (Graph.rename old new) }, ?_, hcover, rfl⟩
    rw [Graph.nodes_redirect, hnode]
    rfl
  · rw [Graph.redirect_size] at hn
    rw [if_neg (Nat.not_lt.2 hn), h.unmade n children hn]

/-- A call renames the children of the nodes that are there already, or of none. -/
theorem Traced.of_call (h : Traced net become) (hwell : net.WellFormed) (call : Call) :
    Traced (net.after call.operation) fun n children =>
      net.renamedBy call n (become n children) := by
  rcases after_cases hwell call with ⟨hnone, hextensions⟩ | ⟨old, new, hsome, hredirected⟩
  · simp only [renamedBy, hnone]
    exact h.of_extensions hextensions
  · simp only [renamedBy, hsome]
    exact h.of_redirection hredirected

/-- Of a run the table keeps what was asked for, and the nodes what has become of it. -/
theorem Traced.afterAll {start : Network} (h : Traced start fun _ children => children)
    (hwell : start.WellFormed) (calls : List Call) :
    Traced (start.afterAll calls) (start.rewritten calls) := by
  induction calls using List.reverseRecOn with
  | nil => exact h
  | append_singleton calls call ih =>
      have hcall := ih.of_call (hwell.afterAll calls) call
      rw [afterAll_snoc, show start.rewritten (calls ++ [call]) = _ from
        funext fun n => funext fun children => rewritten_snoc start calls call n children]
      exact hcall

namespace Complete

/-- With sharing on every new node gets an entry, which takes that of no other node. -/
theorem of_extension (h : net.Complete) (htraced : Traced net become) (hwell : net.WellFormed)
    (hshare : net.options.share = true) (hextension : Extension net net') : net'.Complete := by
  rcases hextension.table_cases with ⟨hnodes, htable⟩ | ⟨node, hnodes, htable, hfresh⟩
  · unfold Complete
    rw [Graph.size, hnodes, htable]
    exact h
  intro n hn
  by_cases hnew : n = net.graph.size
  · exact ⟨node, by rw [htable, if_pos ⟨hshare, rfl⟩, hnew]⟩
  rw [Graph.size, hnodes, Array.size_push] at hn
  obtain ⟨request, hfind⟩ := h n (Nat.lt_of_le_of_ne (Nat.le_of_lt_succ hn) hnew)
  refine ⟨request, ?_⟩
  rw [htable, if_neg, hfind]
  rintro ⟨_, rfl⟩
  rcases hfresh with hcover | hfresh
  · obtain ⟨other, hother, hsame, _⟩ := htraced.entry _ _ hfind
    have hlt := hwell.graph.cover_lt n other hother
    rw [hsame, hcover] at hlt
    exact Nat.lt_irrefl _ hlt
  · rw [shared?_eq hshare, hfind] at hfresh
    cases hfresh

theorem of_building (h : net.Complete) (htraced : Traced net become) (hwell : net.WellFormed)
    (hshare : net.options.share = true) (hbuilding : Relation.ReflTransGen Building net net') :
    net'.Complete := by
  have hall : net'.Complete ∧ Traced net' become ∧ net'.WellFormed ∧
      net'.options.share = true := by
    induction hbuilding with
    | refl => exact ⟨h, htraced, hwell, hshare⟩
    | tail _ hstep ih =>
        obtain ⟨h, htraced, hwell, hshare⟩ := ih
        exact ⟨h.of_extension htraced hwell hshare hstep.extension,
          htraced.of_extension hstep.extension, hwell.of_extension hstep.extension,
          by rw [hstep.options_eq, hshare]⟩
  exact hall.1

theorem congr (h : net.Complete) (hsize : net'.graph.size = net.graph.size)
    (htable : net'.table = net.table) : net'.Complete := by
  unfold Complete
  rw [hsize, htable]
  exact h

/-- A call that is made while sharing is on gives every new node an entry. -/
theorem of_call (h : net.Complete) (htraced : Traced net become) (hwell : net.WellFormed)
    (hshare : net.options.share = true) (call : Call) : (net.after call.operation).Complete := by
  obtain ⟨Answer, op⟩ := call
  cases hsubstitution : op.substitution? with
  | some pair =>
      cases op with
      | substitute old new =>
          show (Network.substitute old new net).state.Complete
          rcases substitute_run old new net with ⟨hsame, _⟩ | ⟨hredirected, _⟩
          · rwa [hsame]
          · obtain ⟨fanouts, _, hresult⟩ := hredirected.result
            rw [hresult]
            exact h.congr (Graph.redirect_size _ _ _) rfl
      | _ => cases hsubstitution
  | none =>
      cases hconfigures : op.configures with
      | false =>
          exact h.of_building htraced hwell hshare
            (op.perform_building hsubstitution hconfigures net)
      | true =>
          -- Listeners and options come and go without the graph or the table.
          cases op with
          | setOptions _ | subscribeAdded | subscribeModified | unsubscribe _ =>
              exact h.congr rfl rfl
          | _ => cases hconfigures

end Complete

namespace Born

variable {start : Network}

/-- What a run starts from has been built without a substitution. -/
theorem traced (h : Born start) : Traced start fun _ children => children := by
  obtain ⟨options, hbuilding⟩ := h.built
  exact (Traced.new options).of_extensions (extensions_of_building hbuilding)

theorem complete (h : Born start) (hshare : start.options.share = true) : start.Complete := by
  obtain ⟨options, hbuilding⟩ := h.built
  exact (Complete.new options).of_building (.new options) (.new options)
    (by rw [← options_of_building hbuilding, hshare]) hbuilding

theorem traced_afterAll (h : Born start) (calls : List Call) :
    Traced (start.afterAll calls) (start.rewritten calls) :=
  h.traced.afterAll h.reachable.wellFormed calls

/-- As long as sharing is on every node has an entry. -/
theorem complete_afterAll (h : Born start) {calls : List Call}
    (hshared : start.SharedThroughout calls) : (start.afterAll calls).Complete := by
  induction calls using List.reverseRecOn with
  | nil => exact h.complete (hshared [] (List.prefix_refl []))
  | append_singleton calls call ih =>
      have hcomplete := ih fun before hbefore =>
        hshared before (hbefore.trans (List.prefix_append calls [call]))
      rw [afterAll_snoc]
      exact hcomplete.of_call (h.traced_afterAll calls) (h.reachable.wellFormed.afterAll calls)
        (hshared calls (List.prefix_append calls [call])) call

end Born

/-- Without substitutions a node is what its entry asks for, so no two nodes are alike if every node
has an entry. -/
theorem Traced.eq_of_nodes_eq (h : Traced net become) (hcomplete : net.Complete)
    (hbecome : ∀ n children, become n children = children) {m n : NodeId} {node : Node}
    (hm : net.graph.nodes[m]? = some node) (hn : net.graph.nodes[n]? = some node) : m = n := by
  have hfound : ∀ {k}, net.graph.nodes[k]? = some node → net.table.find? node = some k := by
    intro k hk
    obtain ⟨request, hfind⟩ := hcomplete k (Graph.lt_size_of_nodes hk)
    obtain ⟨other, hother, hcover, hchildren⟩ := h.entry request k hfind
    rw [hk, Option.some.injEq] at hother
    subst hother
    rw [hbecome] at hchildren
    have hrequest : node = request := by
      cases node
      cases request
      rw [Node.mk.injEq]
      exact ⟨hchildren, hcover⟩
    rw [hrequest, hfind]
  have hsame := hfound hm
  rw [hfound hn] at hsame
  exact (Option.some.inj hsame).symm

end Network

open Network

/-- What the sharing table tells of the history of a network. Every reachable network comes about by
a run, and of every such run this is true. Each entry is for a node whose cover is the one that was
asked for and whose children are what the substitutions since its creation have made of those that
were asked for: the very same if there were none. No node has two entries. If sharing was on
throughout, each node has exactly one, and if nothing was replaced besides, no two nodes are
alike. -/
theorem Reachable.table_history {net : Network} (h : Reachable net) :
    (∃ start calls, Born start ∧ net = start.afterAll calls) ∧
    ∀ start calls, Born start → net = start.afterAll calls →
      (∀ request n, net.table.find? request = some n →
        ∃ node, net.graph.nodes[n]? = some node ∧ node.cover = request.cover ∧
          node.children = start.rewritten calls n request.children) ∧
      (∀ n, start.UndisturbedSince n calls →
        ∀ children, start.rewritten calls n children = children) ∧
      (∀ request request' n, net.table.find? request = some n →
        net.table.find? request' = some n → request = request') ∧
      (start.SharedThroughout calls →
        (∀ n < net.graph.size, ∃! request, net.table.find? request = some n) ∧
        ((∀ n, start.UndisturbedSince n calls) → ∀ (m n : NodeId) (node : Node),
          net.graph.nodes[m]? = some node → net.graph.nodes[n]? = some node → m = n)) := by
  refine ⟨h.exists_run, ?_⟩
  rintro start calls hborn rfl
  have htraced := hborn.traced_afterAll calls
  refine ⟨htraced.entry, fun n hsince => rewritten_of_undisturbed hsince, htraced.injective,
    fun hshared => ?_⟩
  have hcomplete := hborn.complete_afterAll hshared
  refine ⟨fun n hn => ?_, fun hnever m n node hm hn => ?_⟩
  · obtain ⟨request, hfind⟩ := hcomplete n hn
    exact ⟨request, hfind, fun request' hfind' => htraced.injective _ _ _ hfind' hfind⟩
  · exact htraced.eq_of_nodes_eq hcomplete
      (fun n children => rewritten_of_undisturbed (hnever n) children) hm hn

/-- Calls after which two gates have the same children, though they were asked for with different
ones. -/
def entangling : List Call :=
  [⟨_, .addPrimaryInput⟩, ⟨_, .addPrimaryInput⟩, ⟨_, .gate .and [2, 3]⟩, ⟨_, .substitute 2 3⟩,
    ⟨_, .gate .and [3, 3]⟩, ⟨_, .substitute 4 4⟩, ⟨_, .substitute 3 2⟩]

/-- The network that the calls make. -/
def entangled : Network := (Network.new .sharing).afterAll entangling

theorem entangled_reachable : Reachable entangled := by
  repeat apply Reachable.run _ (.call _)
  exact .new .sharing

theorem entangled_history : Reachable entangled ∧
    (∃! request, entangled.table.find? request = some 4) ∧
    entangled.table.find? ⟨[2, 3], 4⟩ = some 4 ∧ entangled.table.find? ⟨[3, 3], 4⟩ = some 5 ∧
    entangled.graph.nodes[4]? = some ⟨[2, 2], 4⟩ ∧
    entangled.graph.nodes[5]? = some ⟨[2, 2], 4⟩ := by
  obtain ⟨_, hrun⟩ := Reachable.table_history entangled_reachable
  obtain ⟨hentry, _, _, hthroughout⟩ := hrun (Network.new .sharing) entangling (.new _) rfl
  have hshared : (Network.new .sharing).SharedThroughout entangling := by
    intro before hbefore
    rw [← List.mem_inits] at hbefore
    revert before
    decide +kernel
  have hfirst : entangled.table.find? ⟨[2, 3], 4⟩ = some 4 := by decide +kernel
  have hsecond : entangled.table.find? ⟨[3, 3], 4⟩ = some 5 := by decide +kernel
  refine ⟨entangled_reachable, (hthroughout hshared).1 4 (by decide +kernel), hfirst, hsecond,
    ?_, ?_⟩
  · obtain ⟨⟨children, cover⟩, hnode, rfl, rfl⟩ := hentry _ _ hfirst
    rw [hnode]
    decide +kernel
  · obtain ⟨⟨children, cover⟩, hnode, rfl, rfl⟩ := hentry _ _ hsecond
    rw [hnode]
    decide +kernel

end LogicNet
