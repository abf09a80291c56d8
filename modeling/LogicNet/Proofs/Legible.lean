import Mathlib.Data.List.Basic

/-!
Legible writing. A way of writing is legible if what has been written can be read off any text that
starts with it, together with the rest of the text. Where the end of what is written shows by what
follows, as with a numeral, this is asked for only before such texts. Lists of legible items are
legible, each item ending by itself or separated from the next.
-/

namespace LogicNet

variable {α : Type}

/-- What is written of something valid can be read off a text, as far as it goes, if the rest of the
text is of the given kind. -/
def Legible (valid : α → Prop) (write : α → List Char) (before : List Char → Prop) : Prop :=
  ∀ ⦃a a' : α⦄ ⦃rest rest' : List Char⦄, valid a → valid a' → before rest → before rest' →
    write a ++ rest = write a' ++ rest' → a = a' ∧ rest = rest'

/-- The text does not go on with a character of the kind. -/
def Breaks (kind : Char → Bool) (rest : List Char) : Prop := ∀ c ∈ rest.head?, kind c = false

/-- The text starts with the character. -/
def Starts (c : Char) (rest : List Char) : Prop := ∃ more, rest = c :: more

theorem Starts.breaks {c : Char} {kind : Char → Bool} {rest : List Char} (h : Starts c rest)
    (hc : kind c = false) : Breaks kind rest := by
  obtain ⟨more, rfl⟩ := h
  rintro _ ⟨⟩
  exact hc

theorem starts_of_separator {c : Char} {separator rest : List Char}
    (h : c :: separator <+: rest) : Starts c rest := by
  obtain ⟨more, rfl⟩ := h
  exact ⟨separator ++ more, rfl⟩

theorem starts_text (text : String) {c : Char} (h : text.toList.head? = some c)
    (rest : List Char) : Starts c (text.toList ++ rest) := by
  obtain ⟨more, hmore⟩ := List.head?_eq_some_iff.1 h
  exact ⟨more ++ rest, by rw [hmore]; rfl⟩

namespace Legible

variable {valid : α → Prop} {write : α → List Char} {before : List Char → Prop}

theorem mono {before' : List Char → Prop} (h : Legible valid write before)
    (himp : ∀ {rest}, before' rest → before rest) : Legible valid write before' :=
  fun _ _ _ _ ha ha' hrest hrest' => h ha ha' (himp hrest) (himp hrest')

/-- Words of one kind of characters end where another kind follows. -/
theorem of_kind {kind : Char → Bool} (hclass : ∀ a, ∀ c ∈ write a, kind c = true)
    (hinjective : Function.Injective write) : Legible valid write (Breaks kind) := by
  have hword : ∀ a rest, Breaks kind rest → (write a ++ rest).takeWhile kind = write a := by
    intro a rest hrest
    rw [List.takeWhile_append_of_pos (hclass a)]
    cases rest with
    | nil => simp
    | cons c rest =>
        have hc : kind c = false := hrest c rfl
        simp [hc]
  intro a a' rest rest' _ _ hrest hrest' h
  have hwords : write a = write a' := by
    rw [← hword a rest hrest, h, hword a' rest' hrest']
  refine ⟨hinjective hwords, ?_⟩
  rw [hwords] at h
  exact List.append_cancel_left h

/-- Items one after the other, before a text that starts with no item, if each of them can be read
where another one follows. -/
theorem flatMap {follow : List Char → Prop} (hitem : Legible valid write follow)
    (hlast : ∀ {rest}, before rest → follow rest)
    (hnext : ∀ {a rest}, valid a → follow (write a ++ rest))
    (hend : ∀ {a rest rest'}, valid a → before rest → write a ++ rest' ≠ rest) :
    Legible (fun items : List α => ∀ a ∈ items, valid a) (·.flatMap write) before := by
  have hfollow : ∀ items : List α, (∀ a ∈ items, valid a) → ∀ {rest}, before rest →
      follow (items.flatMap write ++ rest) := by
    intro items hvalid rest hrest
    cases items with
    | nil => exact hlast hrest
    | cons a items =>
        rw [List.flatMap_cons, List.append_assoc]
        exact hnext (hvalid a List.mem_cons_self)
  intro items
  induction items with
  | nil =>
      intro items' rest rest' _ hvalid' hrest _ h
      cases items' with
      | nil => exact ⟨rfl, h⟩
      | cons a' items' =>
          simp only [List.flatMap_nil, List.nil_append, List.flatMap_cons, List.append_assoc] at h
          exact absurd h.symm (hend (hvalid' a' List.mem_cons_self) hrest)
  | cons a items ih =>
      intro items' rest rest' hvalid hvalid' hrest hrest' h
      have htail : ∀ b ∈ items, valid b := fun b hb => hvalid b (List.mem_cons_of_mem a hb)
      cases items' with
      | nil =>
          simp only [List.flatMap_nil, List.nil_append, List.flatMap_cons, List.append_assoc] at h
          exact absurd h (hend (hvalid a List.mem_cons_self) hrest')
      | cons a' items' =>
          have htail' : ∀ b ∈ items', valid b := fun b hb => hvalid' b (List.mem_cons_of_mem a' hb)
          simp only [List.flatMap_cons, List.append_assoc] at h
          obtain ⟨rfl, hitems⟩ := hitem (hvalid a List.mem_cons_self)
            (hvalid' a' List.mem_cons_self) (hfollow items htail hrest)
            (hfollow items' htail' hrest') h
          obtain ⟨rfl, hrests⟩ := ih htail htail' hrest hrest' hitems
          exact ⟨rfl, hrests⟩

/-- Items behind a text that is always the same. -/
theorem prepend (text : List Char) (h : Legible valid write before) :
    Legible valid (fun a => text ++ write a) before := by
  intro a a' rest rest' ha ha' hrest hrest' heq
  simp only [List.append_assoc, List.append_cancel_left_eq] at heq
  exact h ha ha' hrest hrest' heq

theorem intercalate_map_cons (separator : List Char) (a : α) (items : List α) :
    separator.intercalate ((a :: items).map write) =
      write a ++ items.flatMap fun b => separator ++ write b := by
  induction items generalizing a with
  | nil => simp
  | cons b items ih =>
      rw [List.map_cons, List.map_cons, List.intercalate_cons_cons, ← List.map_cons, ih]
      simp

/-- Items with a separator between them, before a text that starts with neither. -/
theorem intercalate {separator : List Char}
    (hitem : Legible valid write fun rest => before rest ∨ separator <+: rest)
    (hend : ∀ {a rest rest'}, valid a → before rest → write a ++ rest' ≠ rest)
    (hseparator : ∀ {rest}, before rest → ¬ separator <+: rest) :
    Legible (fun items : List α => ∀ a ∈ items, valid a)
      (fun items => separator.intercalate (items.map write)) before := by
  have hstart : ∀ a rest, separator <+: separator ++ write a ++ rest := fun a rest => by
    rw [List.append_assoc]
    exact List.prefix_append _ _
  have htail : Legible (fun items : List α => ∀ a ∈ items, valid a)
      (·.flatMap fun a => separator ++ write a) before := by
    refine (hitem.prepend separator).flatMap .inl (fun _ => .inr (hstart _ _)) ?_
    rintro a rest rest' _ hrest rfl
    exact hseparator hrest (hstart a rest')
  have hfollow : ∀ (items : List α) rest, before rest →
      before (items.flatMap (fun a => separator ++ write a) ++ rest) ∨
        separator <+: items.flatMap (fun a => separator ++ write a) ++ rest := by
    intro items rest hrest
    cases items with
    | nil => exact .inl hrest
    | cons a items =>
        rw [List.flatMap_cons, List.append_assoc]
        exact .inr (hstart a _)
  intro items items' rest rest' hvalid hvalid' hrest hrest' h
  match items, items' with
  | [], [] => exact ⟨rfl, h⟩
  | [], a' :: items' =>
      simp only [intercalate_map_cons, List.append_assoc] at h
      exact absurd h.symm (hend (hvalid' a' List.mem_cons_self) hrest)
  | a :: items, [] =>
      simp only [intercalate_map_cons, List.append_assoc] at h
      exact absurd h (hend (hvalid a List.mem_cons_self) hrest')
  | a :: items, a' :: items' =>
      simp only [intercalate_map_cons, List.append_assoc] at h
      obtain ⟨rfl, hitems⟩ := hitem (hvalid a List.mem_cons_self)
        (hvalid' a' List.mem_cons_self) (hfollow items rest hrest) (hfollow items' rest' hrest') h
      obtain ⟨rfl, hrests⟩ := htail (fun b hb => hvalid b (List.mem_cons_of_mem a hb))
        (fun b hb => hvalid' b (List.mem_cons_of_mem a hb)) hrest hrest' hitems
      exact ⟨rfl, hrests⟩

end Legible

/-- The decimal digits of a number. -/
def numeral (n : Nat) : List Char := (toString n).toList

theorem numeral_eq (n : Nat) : numeral n = Nat.toDigits 10 n := by
  rw [numeral, Nat.toString_eq_repr, Nat.toList_repr]

/-- A number can be read off its digits where no further digit follows. -/
theorem numeral_legible : Legible (fun _ => True) numeral (Breaks Char.isDigit) := by
  refine .of_kind (fun n c hc => ?_) fun n m h => ?_
  · rw [numeral_eq] at hc
    exact Nat.isDigit_of_mem_toDigits (by decide) (by decide) hc
  · rw [numeral_eq, numeral_eq] at h
    rw [← Nat.ofDigitChars_toDigits (b := 10) (n := n) (by decide) (by decide), h,
      Nat.ofDigitChars_toDigits (by decide) (by decide)]

end LogicNet
