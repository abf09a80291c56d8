import LogicNet.Proofs.Program
import Mathlib.Data.List.Induction
import Mathlib.Data.Nat.Log

/-!
Bracketings: ways of putting operands together two at a time. A reduction of some operands is the
making of one bracketing of them, which the shape and the number of operands determine. So what a
reduction computes and how deep it gets can be told from the bracketing alone: with an associative
operation all bracketings of a list come to the same, and the nesting depends on the shape.
-/

namespace LogicNet

/-- Operands put together two at a time. -/
inductive Bracketing where
  | operand (n : NodeId)
  | pair (left right : Bracketing)

namespace Bracketing

/-- The operands, from left to right. -/
def operands : Bracketing → List NodeId
  | operand n => [n]
  | pair left right => left.operands ++ right.operands

/-- The number of pairs. -/
def pairs : Bracketing → Nat
  | operand _ => 0
  | pair left right => left.pairs + right.pairs + 1

/-- What an operation makes of the values of the operands. -/
def fold {α : Type} (op : α → α → α) (value : NodeId → α) : Bracketing → α
  | operand n => value n
  | pair left right => op (left.fold op value) (right.fold op value)

/-- The number of pairs around the operand that is nested most. -/
def height : Bracketing → Nat := fold (fun left right => max left right + 1) fun _ => 0

@[simp] theorem height_operand (n : NodeId) : (operand n).height = 0 := rfl

@[simp] theorem height_pair (left right : Bracketing) :
    (pair left right).height = max left.height right.height + 1 := rfl

theorem length_operands (b : Bracketing) : b.operands.length = b.pairs + 1 := by
  induction b with
  | operand n => rfl
  | pair left right ihleft ihright =>
      rw [operands, List.length_append, ihleft, ihright, pairs]
      omega

theorem operands_ne_nil (b : Bracketing) : b.operands ≠ [] := by
  rw [← List.length_pos_iff, length_operands]
  exact Nat.succ_pos _

theorem fold_congr {α : Type} {op : α → α → α} {value value' : NodeId → α} {b : Bracketing}
    (h : ∀ n ∈ b.operands, value n = value' n) : b.fold op value = b.fold op value' := by
  induction b with
  | operand n => exact h n List.mem_cons_self
  | pair left right ihleft ihright =>
      rw [fold, fold, ihleft fun n hn => h n (List.mem_append_left _ hn),
        ihright fun n hn => h n (List.mem_append_right _ hn)]

/-- All bracketings of a list come to what its fold from left to right comes to. -/
theorem fold_eq_foldl {α : Type} {op : α → α → α} [Std.Associative op] (value : NodeId → α)
    {b : Bracketing} {n : NodeId} {rest : List NodeId} (h : b.operands = n :: rest) :
    b.fold op value = (rest.map value).foldl op (value n) := by
  induction b generalizing n rest with
  | operand m =>
      cases h
      rfl
  | pair left right ihleft ihright =>
      obtain ⟨a, before, hleft⟩ := List.exists_cons_of_ne_nil left.operands_ne_nil
      obtain ⟨b, after, hright⟩ := List.exists_cons_of_ne_nil right.operands_ne_nil
      rw [operands, hleft, hright, List.cons_append] at h
      obtain ⟨rfl, rfl⟩ := List.cons_eq_cons.1 h
      rw [fold, ihleft hleft, ihright hright, List.map_append, List.foldl_append, List.map_cons,
        List.foldl_cons, List.foldl_assoc]

open Network in
/-- Makes the pairs of a bracketing, those on the left before those on the right. There may be notes
on a pair before its parts are made. -/
def build (combine : Combine) (notes : Bracketing → Bracketing → List Entry) :
    Bracketing → Action Network NodeId
  | operand n => return n
  | pair left right => do
    Action.report (notes left right)
    let a ← left.build combine notes
    let b ← right.build combine notes
    combine a b

end Bracketing

namespace Network

/-- The nesting of so many operands: one by one, or halved until there is one. -/
def Shape.height : Shape → Nat → Nat
  | linear, count => count - 1
  | tree, count => Nat.clog 2 count

/-- Halving is noted. -/
def Shape.notes : Shape → Bracketing → Bracketing → List Entry
  | linear, _, _ => []
  | tree, left, right => [.noted (.operandsSplit (left.operands.length + right.operands.length)
      left.operands.length right.operands.length)]

/-- What a reduction of the operands in a shape makes, whatever the pairs are made by. -/
structure Shape.Brackets (shape : Shape) (operands : List NodeId) (b : Bracketing) : Prop where
  operands_eq : b.operands = operands
  height_eq : b.height = shape.height operands.length
  reduces : ∀ combine, reduceTo shape combine operands none = b.build combine shape.notes

variable {operands : List NodeId}

theorem Shape.Brackets.pairs_eq {shape : Shape} {b : Bracketing} (h : shape.Brackets operands b) :
    b.pairs = operands.length - 1 := by
  rw [← h.operands_eq, b.length_operands, Nat.add_sub_cancel]

/-- One operand more is paired with what has been made of those before. -/
theorem Shape.Brackets.snoc {b : Bracketing} (h : Shape.linear.Brackets operands b) (n : NodeId) :
    Shape.linear.Brackets (operands ++ [n]) (.pair b (.operand n)) where
  operands_eq := by
    rw [Bracketing.operands, h.operands_eq]
    rfl
  height_eq := by
    have hlength := b.length_operands
    rw [h.operands_eq] at hlength
    rw [Bracketing.height_pair, h.height_eq, List.length_append]
    simp only [Shape.height, Bracketing.height_operand, List.length_singleton]
    omega
  reduces combine := by
    have hbefore := h.reduces combine
    obtain ⟨first, rest, rfl⟩ := List.exists_cons_of_ne_nil (h.operands_eq ▸ b.operands_ne_nil)
    have hafter : reduceTo .linear combine (first :: rest ++ [n]) none = (do
        let a ← reduceTo .linear combine (first :: rest) none
        combine a n) := by
      show (rest ++ [n]).foldlM combine first = rest.foldlM combine first >>= _
      rw [List.foldlM_append]
      simp only [List.foldlM_cons, List.foldlM_nil, bind_pure]
    rw [hafter, hbefore]
    rfl

theorem exists_linear (hne : operands ≠ []) : ∃ b, Shape.linear.Brackets operands b := by
  induction operands using List.reverseRecOn with
  | nil => exact absurd rfl hne
  | append_singleton before n ih =>
      by_cases hbefore : before = []
      · subst hbefore
        exact ⟨.operand n, rfl, rfl, fun _ => rfl⟩
      · obtain ⟨b, hb⟩ := ih hbefore
        exact ⟨_, hb.snoc n⟩

/-- Of two halves the second one is not the smaller, so it decides how deep they are nested. -/
theorem Shape.height_halves {count : Nat} (h : 2 ≤ count) :
    max (tree.height (count / 2)) (tree.height (count - count / 2)) + 1 = tree.height count := by
  have hhalf : (count + 2 - 1) / 2 = count - count / 2 := by omega
  have hle : Nat.clog 2 (count / 2) ≤ Nat.clog 2 (count - count / 2) :=
    Nat.clog_mono_right 2 (by omega)
  rw [height, height, height, Nat.clog_of_two_le Nat.one_lt_two h, hhalf, max_eq_right hle]

/-- What has been made of the two halves of the operands is paired. -/
theorem Shape.Brackets.halves {left right : Bracketing} (hcount : 2 ≤ operands.length)
    (hleft : Shape.tree.Brackets (operands.take (operands.length / 2)) left)
    (hright : Shape.tree.Brackets (operands.drop (operands.length / 2)) right) :
    Shape.tree.Brackets operands (.pair left right) := by
  have hhalf : left.operands.length = operands.length / 2 := by
    rw [hleft.operands_eq, List.length_take]
    omega
  have hother : right.operands.length = operands.length - operands.length / 2 := by
    rw [hright.operands_eq, List.length_drop]
  refine ⟨?_, ?_, fun combine => ?_⟩
  · rw [Bracketing.operands, hleft.operands_eq, hright.operands_eq, List.take_append_drop]
  · rw [Bracketing.height_pair, hleft.height_eq, hright.height_eq, ← hleft.operands_eq,
      ← hright.operands_eq, hhalf, hother, Shape.height_halves hcount]
  · have hmade : treeReduce combine (operands.take (operands.length / 2)) =
        left.build combine tree.notes := hleft.reduces combine
    have hmade' : treeReduce combine (operands.drop (operands.length / 2)) =
        right.build combine tree.notes := hright.reduces combine
    have hnotes : tree.notes left right = [.noted (.operandsSplit operands.length
        (operands.length / 2) (operands.length - operands.length / 2))] := by
      have hsum : operands.length / 2 + (operands.length - operands.length / 2) =
          operands.length := by omega
      rw [Shape.notes, hhalf, hother, hsum]
    match operands, hcount with
    | a :: b :: rest, _ =>
        show treeReduce combine (a :: b :: rest) = _
        rw [treeReduce, hmade, hmade', Bracketing.build, hnotes]
        rfl

theorem exists_tree (hne : operands ≠ []) : ∃ b, Shape.tree.Brackets operands b := by
  induction hlength : operands.length using Nat.strong_induction_on generalizing operands with
  | _ count ih =>
      subst hlength
      by_cases hcount : 2 ≤ operands.length
      · obtain ⟨left, hleft⟩ := ih (operands.take (operands.length / 2)).length
          (by rw [List.length_take]; omega) (List.ne_nil_of_length_pos
            (by rw [List.length_take]; omega)) rfl
        obtain ⟨right, hright⟩ := ih (operands.drop (operands.length / 2)).length
          (by rw [List.length_drop]; omega) (List.ne_nil_of_length_pos
            (by rw [List.length_drop]; omega)) rfl
        exact ⟨_, hleft.halves hcount hright⟩
      · obtain ⟨n, rfl⟩ : ∃ n, operands = [n] := by
          have := List.length_pos_iff.2 hne
          exact List.length_eq_one_iff.1 (by omega)
        exact ⟨.operand n, rfl, by simp [Shape.height], fun combine => by
          show treeReduce combine [n] = _
          rw [treeReduce]
          rfl⟩

/-- Every reduction of at least one operand makes a bracketing of the operands. -/
theorem Shape.exists_brackets (shape : Shape) (hne : operands ≠ []) :
    ∃ b, shape.Brackets operands b := by
  cases shape with
  | linear => exact exists_linear hne
  | tree => exact exists_tree hne

end Network
end LogicNet
