import LogicNet.Graph.Uses
import Mathlib.Data.Finset.Card
import Mathlib.Data.Finset.Range
import Mathlib.Logic.Relation

/-!
Descent in lists of children. A node descends to each of its children; the lists are acyclic if no
node reaches itself in one or more steps. Over finitely many nodes every node of acyclic lists has a
rank that bounds how far one can descend from it, so a rule that makes something of a node from what
it makes of the children has exactly one result. Renaming one child everywhere keeps lists acyclic
exactly if the new name does not already reach the old one.
-/

namespace LogicNet

/-- The lists lead from a node to one of its children. -/
def Descends (children : NodeId → List NodeId) (n child : NodeId) : Prop := child ∈ children n

/-- The second node is the first one or is reached from it by going to children. -/
abbrev Reaches (children : NodeId → List NodeId) : NodeId → NodeId → Prop :=
  Relation.ReflTransGen (Descends children)

/-- No node reaches itself in one or more steps. -/
def Acyclic (children : NodeId → List NodeId) : Prop :=
  ∀ n, ¬ Relation.TransGen (Descends children) n n

/-- No list holds a name of `size` or more. -/
def Bounded (children : NodeId → List NodeId) (size : Nat) : Prop :=
  ∀ n, ∀ child ∈ children n, child < size

/-- The lists in which `new` stands wherever `old` stood. -/
def renamed (children : NodeId → List NodeId) (old new : NodeId) (n : NodeId) : List NodeId :=
  (children n).map (Graph.rename old new)

variable {children : NodeId → List NodeId} {size : Nat} {old new : NodeId}

theorem descends_renamed_iff (n child : NodeId) :
    Descends (renamed children old new) n child ↔
      (Descends children n old ∧ child = new) ∨ (Descends children n child ∧ child ≠ old) := by
  simp only [Descends, renamed, List.mem_map, Graph.rename]
  constructor
  · rintro ⟨c, hc, rfl⟩
    by_cases hold : c = old
    · subst hold
      exact Or.inl ⟨hc, by simp⟩
    · simp only [hold, if_false]
      exact Or.inr ⟨hc, hold⟩
  · rintro (⟨hc, rfl⟩ | ⟨hc, hne⟩)
    · exact ⟨old, hc, by simp⟩
    · exact ⟨child, hc, by simp [hne]⟩

/-- A path through renamed lists either is a path through the lists themselves, or leaves them at
`old` for the first time and comes back to them at `new` for the last time. -/
theorem transGen_renamed {n m : NodeId}
    (h : Relation.TransGen (Descends (renamed children old new)) n m) :
    Relation.TransGen (Descends children) n m ∨
      (Relation.TransGen (Descends children) n old ∧ Reaches children new m) := by
  induction h with
  | single hstep =>
      rcases (descends_renamed_iff _ _).1 hstep with ⟨hold, rfl⟩ | ⟨hstep, _⟩
      · exact Or.inr ⟨.single hold, .refl⟩
      · exact Or.inl (.single hstep)
  | tail _ hstep ih =>
      rcases (descends_renamed_iff _ _).1 hstep with ⟨hold, rfl⟩ | ⟨hstep, _⟩
      · rcases ih with hpath | ⟨hpath, _⟩
        · exact Or.inr ⟨hpath.tail hold, .refl⟩
        · exact Or.inr ⟨hpath, .refl⟩
      · rcases ih with hpath | ⟨hpath, hback⟩
        · exact Or.inl (hpath.tail hstep)
        · exact Or.inr ⟨hpath, hback.tail hstep⟩

/-- A path from a node other than `old` survives the renaming up to its first step to `old`, which
then leads to `new`. -/
theorem reaches_renamed (new : NodeId) {n m : NodeId} (h : Reaches children n m) (hn : n ≠ old) :
    Relation.TransGen (Descends (renamed children old new)) n new ∨
      (Reaches (renamed children old new) n m ∧ m ≠ old) := by
  induction h with
  | refl => exact Or.inr ⟨.refl, hn⟩
  | @tail m child _ hstep ih =>
      rcases ih with hpath | ⟨hpath, _⟩
      · exact Or.inl hpath
      · by_cases hold : child = old
        · subst hold
          have hlast : Descends (renamed children child new) m new :=
            (descends_renamed_iff m new).2 (Or.inl ⟨hstep, rfl⟩)
          exact Or.inl (.tail' hpath hlast)
        · exact Or.inr ⟨hpath.tail ((descends_renamed_iff m child).2 (Or.inr ⟨hstep, hold⟩)), hold⟩

/-- Renaming closes a cycle exactly if the new name reaches the old one. -/
theorem acyclic_renamed_iff (h : Acyclic children) (hne : new ≠ old) :
    Acyclic (renamed children old new) ↔ ¬ Reaches children new old := by
  constructor
  · intro hacyclic hreach
    rcases reaches_renamed new hreach hne with hpath | ⟨_, hself⟩
    · exact hacyclic new hpath
    · exact hself rfl
  · intro hreach n hcycle
    rcases transGen_renamed hcycle with hpath | ⟨hpath, hback⟩
    · exact h n hpath
    · exact hreach (hback.trans hpath.to_reflTransGen)

/-- Lists stay acyclic when a name that no list holds is given children. -/
theorem Acyclic.of_fresh {children' : NodeId → List NodeId} (h : Acyclic children) (fresh : NodeId)
    (hsame : ∀ n, n ≠ fresh → children' n = children n) (hfresh : ∀ n, fresh ∉ children' n) :
    Acyclic children' := by
  intro n hcycle
  have hpath : ∀ m, Relation.TransGen (Descends children') n m → m ≠ fresh := by
    intro m hm
    rcases hm with hstep | ⟨_, hstep⟩
    · exact fun he => hfresh _ (he ▸ hstep)
    · exact fun he => hfresh _ (he ▸ hstep)
  have hn := hpath n hcycle
  have hold : ∀ m, Relation.TransGen (Descends children') n m →
      Relation.TransGen (Descends children) n m := by
    intro m hm
    induction hm with
    | single hstep => exact .single (by rwa [Descends, hsame n hn] at hstep)
    | @tail m _ hm hstep ih => exact ih.tail (by rwa [Descends, hsame m (hpath m hm)] at hstep)
  exact h n (hold n hcycle)

section Rank

open Classical in
/-- The number of nodes below a node. -/
noncomputable def rank (children : NodeId → List NodeId) (size : Nat) (n : NodeId) : Nat :=
  ((Finset.range size).filter fun m => Relation.TransGen (Descends children) n m).card

theorem rank_lt_of_child (h : Acyclic children) (hbound : Bounded children size) {n child : NodeId}
    (hchild : child ∈ children n) : rank children size child < rank children size n := by
  classical
  apply Finset.card_lt_card
  rw [Finset.ssubset_iff_of_subset]
  · refine ⟨child, ?_, ?_⟩
    · exact Finset.mem_filter.2 ⟨Finset.mem_range.2 (hbound n child hchild), .single hchild⟩
    · exact fun hmem => h child (Finset.mem_filter.1 hmem).2
  · intro m hm
    obtain ⟨hm, hpath⟩ := Finset.mem_filter.1 hm
    exact Finset.mem_filter.2 ⟨hm, .head hchild hpath⟩

theorem rank_lt_size (h : Acyclic children) {n : NodeId} (hn : n < size) :
    rank children size n < size := by
  classical
  calc
    rank children size n < (Finset.range size).card := by
      apply Finset.card_lt_card
      rw [Finset.ssubset_iff_of_subset (Finset.filter_subset _ _)]
      exact ⟨n, Finset.mem_range.2 hn, fun hmem => h n (Finset.mem_filter.1 hmem).2⟩
    _ = size := Finset.card_range size

/-- Induction from the children of a node to the node. -/
theorem Acyclic.induction (h : Acyclic children) (hbound : Bounded children size)
    {P : NodeId → Prop} (step : ∀ n, (∀ child ∈ children n, P child) → P n) (n : NodeId) : P n := by
  induction hrank : rank children size n using Nat.strong_induction_on generalizing n with
  | _ r ih =>
      subst hrank
      exact step n fun child hchild => ih _ (rank_lt_of_child h hbound hchild) child rfl

end Rank

section Descent

variable {α : Type} {rule : NodeId → List α → α} {base : α}

/-- What a rule makes of a node, given what it makes of the children, and so on for `depth` steps
down; what lies deeper counts as `base`. -/
def descendWithin (children : NodeId → List NodeId) (rule : NodeId → List α → α) (base : α) :
    Nat → NodeId → α
  | 0, _ => base
  | depth + 1, n => rule n ((children n).map (descendWithin children rule base depth))

/-- Steps beyond the rank of a node change nothing. -/
theorem descendWithin_congr (h : Acyclic children) (hbound : Bounded children size)
    {depth depth' : Nat} {n : NodeId} (hdepth : rank children size n < depth)
    (hdepth' : rank children size n < depth') :
    descendWithin children rule base depth n = descendWithin children rule base depth' n := by
  induction depth generalizing depth' n with
  | zero => omega
  | succ depth ih =>
      cases depth' with
      | zero => omega
      | succ depth' =>
          rw [descendWithin, descendWithin]
          congr 1
          apply List.map_congr_left
          intro child hchild
          have hlt := rank_lt_of_child h hbound hchild
          exact ih (by omega) (by omega)

/-- Whatever obeys the rule on nodes closed under children is the same there. -/
theorem Acyclic.eq_of_rule (h : Acyclic children) (hbound : Bounded children size)
    {f f' : NodeId → α} {P : NodeId → Prop} (hclosed : ∀ n, P n → ∀ child ∈ children n, P child)
    (hf : ∀ n, P n → f n = rule n ((children n).map f))
    (hf' : ∀ n, P n → f' n = rule n ((children n).map f')) (n : NodeId) (hn : P n) :
    f n = f' n := by
  induction n using Acyclic.induction h hbound with
  | step n ih =>
      rw [hf n hn, hf' n hn]
      congr 1
      exact List.map_congr_left fun child hchild => ih child hchild (hclosed n hn child hchild)

end Descent

end LogicNet
