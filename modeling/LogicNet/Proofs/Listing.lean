import LogicNet.Graph.Dump
import LogicNet.Proofs.Legible
import LogicNet.Proofs.Terminals

/-!
What a listing shows. It is the text of some data, the names of the inputs and one line for each
gate and each output, and all of the data can be read off the text. Of a cube the data tell the
literals at the places of the children, and nothing of the places above them.
-/

namespace LogicNet

/-- What a line of a listing shows. -/
inductive Line where
  | gate (name : NodeId) (polarity : Bool) (cubes : List (List Literal)) (children : List NodeId)
  | primaryOutput (signal : NodeId) (position : Nat)
  | registerInput (signal : NodeId) (reset : Reset) (position : Nat)

/-- What a listing shows: the inputs, those of registers on the right, and the lines. -/
structure Listing where
  inputs : List (NodeId ⊕ NodeId)
  lines : List Line

/-- The text of a signal. -/
def signalText (n : NodeId) : List Char := ['%'] ++ numeral n

/-- The text of an input in the heading. -/
def inputText : NodeId ⊕ NodeId → List Char
  | .inl n => "pi ".toList ++ signalText n
  | .inr n => "ro ".toList ++ signalText n

/-- The text of a cube. -/
def cubeText (literals : List Literal) : List Char := literals.map Literal.toChar

namespace Line

/-- The cubes of a line have a literal at least, as those of a gate do. -/
def Valid : Line → Prop
  | gate _ _ cubes _ => ∀ literals ∈ cubes, literals ≠ []
  | _ => True

/-- The gate that a line is about, with its cover and its children. -/
def gate? : Line → Option (NodeId × Bool × List (List Literal) × List NodeId)
  | gate name polarity cubes children => some (name, polarity, cubes, children)
  | _ => none

/-- The signal of the primary output that a line is about. -/
def primaryOutput? : Line → Option NodeId
  | primaryOutput signal _ => some signal
  | _ => none

/-- The register input that a line is about. -/
def nextState? : Line → Option NextState
  | registerInput signal reset _ => some ⟨signal, reset⟩
  | _ => none

/-- The text of a line. -/
def write : Line → List Char
  | gate name polarity cubes children =>
    "  ".toList ++ (signalText name ++ (" = ".toList ++
      ((if polarity then "on[" else "off[").toList ++
      (" ".toList.intercalate (cubes.map cubeText) ++ ("](".toList ++
      (", ".toList.intercalate (children.map signalText) ++ ")\n".toList))))))
  | primaryOutput signal position =>
    "  po".toList ++ (numeral position ++ (" = ".toList ++ (signalText signal ++ "\n".toList)))
  | registerInput signal reset position =>
    "  ri".toList ++ (numeral position ++ (" = ".toList ++ (signalText signal ++
      (" reset=".toList ++ (reset.name.toList ++ "\n".toList)))))

end Line

/-- The text of a listing. -/
def Listing.write (listing : Listing) : List Char :=
  "network(".toList ++ (", ".toList.intercalate (listing.inputs.map inputText) ++
    (") \x7b\n".toList ++ (listing.lines.flatMap Line.write ++ "\x7d".toList)))

theorem Literal.toChar_injective : Function.Injective Literal.toChar := by
  intro a b h
  have hsome : some a = some b := by
    rw [← Literal.ofChar?_toChar a, h, Literal.ofChar?_toChar]
  exact Option.some.inj hsome

theorem signalText_legible : Legible (fun _ => True) signalText (Breaks Char.isDigit) :=
  numeral_legible.prepend ['%']

theorem cubeText_legible : Legible (fun literals => literals ≠ []) cubeText
    (Breaks fun c => (Literal.ofChar? c).isSome) := by
  refine .of_kind (fun literals c hc => ?_) (List.map_injective_iff.2 Literal.toChar_injective)
  obtain ⟨literal, _, rfl⟩ := List.mem_map.1 hc
  rw [Literal.ofChar?_toChar]
  rfl

theorem inputText_legible : Legible (fun _ => True) inputText (Breaks Char.isDigit) := by
  rintro (n | n) (n' | n') rest rest' _ _ hrest hrest' h
  · obtain ⟨rfl, hrests⟩ := (signalText_legible.prepend _) trivial trivial hrest hrest' h
    exact ⟨rfl, hrests⟩
  · simp [inputText] at h
  · simp [inputText] at h
  · obtain ⟨rfl, hrests⟩ := (signalText_legible.prepend _) trivial trivial hrest hrest' h
    exact ⟨rfl, hrests⟩

/-- Names, each with a text that ends where the digits do, between commas and before a bracket. -/
theorem commas_legible {α : Type} {write : α → List Char}
    (hitem : Legible (fun _ => True) write (Breaks Char.isDigit))
    (hstart : ∀ a rest, ¬ Starts ')' (write a ++ rest)) :
    Legible (fun items : List α => ∀ a ∈ items, True)
      (fun items => ", ".toList.intercalate (items.map write)) (Starts ')') := by
  refine .intercalate (hitem.mono fun hrest => ?_) (fun _ hrest heq => ?_) fun hrest hprefix => ?_
  · rcases hrest with hrest | hrest
    · exact hrest.breaks (by decide)
    · exact (starts_of_separator hrest).breaks (by decide)
  · exact hstart _ _ (heq ▸ hrest)
  · obtain ⟨more, rfl⟩ := hrest
    simp at hprefix

theorem cubes_legible :
    Legible (fun cubes : List (List Literal) => ∀ literals ∈ cubes, literals ≠ [])
      (fun cubes => " ".toList.intercalate (cubes.map cubeText)) (Starts ']') := by
  refine .intercalate (cubeText_legible.mono fun hrest => ?_) (fun hne hrest heq => ?_)
    fun hrest hprefix => ?_
  · rcases hrest with hrest | hrest
    · exact hrest.breaks (by decide)
    · exact (starts_of_separator hrest).breaks (by decide)
  · obtain ⟨more, rfl⟩ := hrest
    obtain ⟨literal, literals, rfl⟩ := List.exists_cons_of_ne_nil hne
    have hchar : literal.toChar = ']' := (List.cons.inj heq).1
    cases literal <;> cases hchar
  · obtain ⟨more, rfl⟩ := hrest
    simp at hprefix

theorem children_legible : Legible (fun children : List NodeId => ∀ n ∈ children, True)
    (fun children => ", ".toList.intercalate (children.map signalText)) (Starts ')') := by
  refine commas_legible signalText_legible fun n rest h => ?_
  obtain ⟨more, hmore⟩ := h
  cases hmore

theorem inputs_legible : Legible (fun inputs : List (NodeId ⊕ NodeId) => ∀ n ∈ inputs, True)
    (fun inputs => ", ".toList.intercalate (inputs.map inputText)) (Starts ')') := by
  refine commas_legible inputText_legible fun n rest h => ?_
  obtain ⟨more, hmore⟩ := h
  cases n <;> simp [inputText] at hmore

theorem Reset.name_legible : Legible (fun _ => True) (fun reset : Reset => reset.name.toList)
    (Starts '\n') := by
  rintro reset reset' rest rest' _ _ ⟨more, rfl⟩ ⟨more', rfl⟩ h
  cases reset <;> cases reset' <;> simp [Reset.name] at h ⊢ <;> exact h

theorem breaks_equals (rest : List Char) : Breaks Char.isDigit (" = ".toList ++ rest) :=
  (starts_text " = " rfl rest).breaks (by decide)

namespace Line

theorem gate_legible {n n' : NodeId} {polarity polarity' : Bool}
    {cubes cubes' : List (List Literal)} {children children' : List NodeId} {rest rest' : List Char}
    (hvalid : ∀ literals ∈ cubes, literals ≠ []) (hvalid' : ∀ literals ∈ cubes', literals ≠ [])
    (h : (gate n polarity cubes children).write ++ rest =
      (gate n' polarity' cubes' children').write ++ rest') :
    gate n polarity cubes children = gate n' polarity' cubes' children' ∧ rest = rest' := by
  simp only [write, List.append_assoc] at h
  obtain ⟨rfl, hnamed⟩ := signalText_legible trivial trivial (breaks_equals _) (breaks_equals _)
    (List.append_cancel_left h)
  have hopen := List.append_cancel_left hnamed
  have hpolarity : polarity = polarity' := by
    cases polarity <;> cases polarity' <;> simp at hopen ⊢
  subst hpolarity
  obtain ⟨rfl, hcubes⟩ :=
    cubes_legible hvalid hvalid' (starts_text "](" rfl _) (starts_text "](" rfl _)
      (List.append_cancel_left hopen)
  obtain ⟨rfl, hchildren⟩ := children_legible (fun _ _ => trivial) (fun _ _ => trivial)
    (starts_text ")\n" rfl _) (starts_text ")\n" rfl _) (List.append_cancel_left hcubes)
  exact ⟨rfl, List.append_cancel_left hchildren⟩

theorem primaryOutput_legible {n n' : NodeId} {i i' : Nat} {rest rest' : List Char}
    (h : (primaryOutput n i).write ++ rest = (primaryOutput n' i').write ++ rest') :
    primaryOutput n i = primaryOutput n' i' ∧ rest = rest' := by
  simp only [write, List.append_assoc] at h
  obtain ⟨rfl, hplaced⟩ := numeral_legible trivial trivial (breaks_equals _) (breaks_equals _)
    (List.append_cancel_left h)
  obtain ⟨rfl, hend⟩ := signalText_legible trivial trivial
    ((starts_text "\n" rfl _).breaks (by decide)) ((starts_text "\n" rfl _).breaks (by decide))
    (List.append_cancel_left hplaced)
  exact ⟨rfl, List.append_cancel_left hend⟩

theorem registerInput_legible {n n' : NodeId} {reset reset' : Reset} {i i' : Nat}
    {rest rest' : List Char}
    (h : (registerInput n reset i).write ++ rest = (registerInput n' reset' i').write ++ rest') :
    registerInput n reset i = registerInput n' reset' i' ∧ rest = rest' := by
  simp only [write, List.append_assoc] at h
  obtain ⟨rfl, hplaced⟩ := numeral_legible trivial trivial (breaks_equals _) (breaks_equals _)
    (List.append_cancel_left h)
  obtain ⟨rfl, hnamed⟩ := signalText_legible trivial trivial
    ((starts_text " reset=" rfl _).breaks (by decide))
    ((starts_text " reset=" rfl _).breaks (by decide)) (List.append_cancel_left hplaced)
  obtain ⟨rfl, hend⟩ := Reset.name_legible trivial trivial (starts_text "\n" rfl _)
    (starts_text "\n" rfl _) (List.append_cancel_left hnamed)
  exact ⟨rfl, List.append_cancel_left hend⟩

/-- The third character of a line tells what it is about. -/
theorem write_legible : Legible Valid write fun _ => True := by
  intro line line' rest rest' hvalid hvalid' _ _ h
  cases line <;> cases line'
  case gate.gate => exact gate_legible hvalid hvalid' h
  case primaryOutput.primaryOutput => exact primaryOutput_legible h
  case registerInput.registerInput => exact registerInput_legible h
  all_goals simp [write, signalText] at h

end Line

theorem lines_legible : Legible (fun lines : List Line => ∀ line ∈ lines, line.Valid)
    (fun lines => lines.flatMap Line.write) (Starts '\x7d') := by
  refine Line.write_legible.flatMap (fun _ => trivial) (fun _ => trivial) ?_
  rintro line _ more _ ⟨rest, rfl⟩ heq
  cases line <;> simp [Line.write] at heq

/-- All that a listing shows can be read off its text. -/
theorem Listing.write_injective {listing listing' : Listing}
    (hvalid : ∀ line ∈ listing.lines, line.Valid) (hvalid' : ∀ line ∈ listing'.lines, line.Valid)
    (h : listing.write = listing'.write) : listing = listing' := by
  obtain ⟨inputs, lines⟩ := listing
  obtain ⟨inputs', lines'⟩ := listing'
  unfold write at h
  obtain ⟨rfl, hlines⟩ := inputs_legible (fun _ _ => trivial) (fun _ _ => trivial)
    (starts_text ") \x7b\n" rfl _) (starts_text ") \x7b\n" rfl _) (List.append_cancel_left h)
  obtain ⟨rfl, _⟩ := lines_legible hvalid hvalid' ⟨[], rfl⟩ ⟨[], rfl⟩
    (List.append_cancel_left hlines)
  rfl

theorem toString_string (s : String) : toString s = s := rfl

@[simp] theorem NodeId.toList_text (n : NodeId) : n.text.toList = signalText n := by
  simp [NodeId.text, signalText, numeral, toString_string]

theorem Cube.toList_render (cube : Cube) (width : Nat) :
    (cube.render width).toList = cubeText (cube.literals width) :=
  String.toList_ofList

theorem Cover.toList_render (cover : Cover) (width : Nat) : (cover.render width).toList =
    (if cover.polarity then "on[" else "off[").toList ++
      (" ".toList.intercalate ((cover.cubes.map (·.literals width)).map cubeText) ++
        "]".toList) := by
  have hcubes : (cover.cubes.map (·.render width)).map String.toList =
      (cover.cubes.map (·.literals width)).map cubeText := by
    simp [Cube.toList_render, Function.comp_def]
  rw [render, String.toList_append, String.toList_append, String.toList_append,
    String.toList_intercalate, hcubes]
  cases cover.polarity <;> simp

namespace Graph

variable {g g' : Graph}

/-- The cover of a node, and one without cubes for a name that belongs to no node. -/
def coverOf (g : Graph) (n : NodeId) : Cover := (g.nodeCover n).toOption.getD (Cover.onSet [])

/-- What the line of a gate shows. -/
def line (g : Graph) (n : NodeId) : Line :=
  .gate n (g.coverOf n).polarity ((g.coverOf n).cubes.map (·.literals (g.childrenOf n).length))
    (g.childrenOf n)

/-- What the lines of the outputs show. -/
def outputListing (g : Graph) : List Line :=
  (g.primaryOutputs.zipIdx.map fun (signal, position) => .primaryOutput signal position) ++
  g.nextStates.zipIdx.map fun (next, position) => .registerInput next.signal next.reset position

/-- What the listing of a graph shows. -/
def listing (g : Graph) : Listing where
  inputs := g.primaryInputs.map .inl ++ g.registerOutputs.map .inr
  lines := g.gates.map g.line ++ g.outputListing

theorem children_eq_ok {n : NodeId} (hn : n < g.size) : g.children n = .ok (g.childrenOf n) := by
  obtain ⟨node, hnode⟩ := exists_node hn
  rw [children, (node_eq_ok_iff g n node).2 hnode, childrenOf_eq hnode]
  rfl

theorem WellFormed.nodeCover_eq_ok (h : g.WellFormed) {n : NodeId} (hn : n < g.size) :
    g.nodeCover n = .ok (g.coverOf n) := by
  obtain ⟨node, cover, hnode, hcover⟩ := h.exists_cover hn
  rw [coverOf, (nodeCover_eq_ok_iff g n cover).2 ⟨node, hnode, hcover⟩]
  rfl

theorem gateLine_eq_ok (h : g.WellFormed) {n : NodeId} (hn : n ∈ g.gates) :
    g.gateLine n = .ok (String.ofList (g.line n).write) := by
  obtain ⟨hlt, hgate⟩ := mem_gates_iff.1 hn
  have hwidth : (g.childrenOf n).length ≤ maxFanin ∨ (g.coverOf n).cubes = [] :=
    .inl (h.arity n hlt hgate).2
  have hcover : (g.coverOf n).renderChecked (g.childrenOf n).length =
      .ok ((g.coverOf n).render (g.childrenOf n).length) := if_pos hwidth
  unfold gateLine
  simp only [children_eq_ok hlt, h.nodeCover_eq_ok hlt, hcover, Bind.bind, Except.bind, pure,
    Except.pure, Except.ok.injEq]
  rw [← String.toList_inj, String.toList_ofList]
  simp [toString_string, Cover.toList_render, line, Line.write, Function.comp_def]

theorem toList_heading (g : Graph) : g.heading.toList =
    "network(".toList ++ (", ".toList.intercalate (g.listing.inputs.map inputText) ++
      ") \x7b\n".toList) := by
  have hinputs : (g.primaryInputs.map (fun n => "pi " ++ NodeId.text n) ++
      g.registerOutputs.map fun n => "ro " ++ NodeId.text n).map String.toList =
        g.listing.inputs.map inputText := by
    simp [listing, inputText, Function.comp_def]
  simp only [heading, toString_string, String.toList_append, String.toList_intercalate, hinputs,
    List.append_assoc]

theorem toList_outputLines (g : Graph) :
    g.outputLines.flatMap String.toList = g.outputListing.flatMap Line.write := by
  simp [outputLines, outputListing, List.flatMap_map, Line.write, toString_string, numeral]

/-- The listing of a well-formed graph is never refused, and it is the text of what it shows. -/
theorem dump_eq_ok (h : g.WellFormed) : g.dump = .ok (String.ofList g.listing.write) := by
  have hdone := Network.mapM_except_eq_ok fun n hn => gateLine_eq_ok h hn
  have hgates : (g.gates.map fun n => String.ofList (g.line n).write).flatMap String.toList =
      (g.gates.map g.line).flatMap Line.write := by
    simp [List.flatMap_map]
  have hlines : g.listing.lines = g.gates.map g.line ++ g.outputListing := rfl
  unfold dump
  simp only [hdone, Bind.bind, Except.bind, pure, Except.pure, Except.ok.injEq]
  rw [← String.toList_inj, String.toList_ofList, String.toList_append, String.toList_append,
    String.toList_append, String.toList_join, String.toList_join, toList_heading,
    toList_outputLines]
  unfold Listing.write
  rw [hlines, List.flatMap_append, hgates, List.append_assoc, List.append_assoc,
    List.append_assoc, List.append_assoc, List.append_assoc]

theorem listing_valid (h : g.WellFormed) : ∀ line ∈ g.listing.lines, line.Valid := by
  intro line hline
  simp only [listing, outputListing, List.mem_append, List.mem_map] at hline
  rcases hline with ⟨n, hn, rfl⟩ | ⟨_, _, rfl⟩ | ⟨_, _, rfl⟩
  · obtain ⟨hlt, hgate⟩ := mem_gates_iff.1 hn
    intro literals hliterals
    obtain ⟨cube, _, rfl⟩ := List.mem_map.1 hliterals
    have hlength := List.length_pos_iff.2 (h.arity n hlt hgate).1
    exact List.length_pos_iff.1 (by rwa [Cube.literals_length])
  · trivial
  · trivial

/-- What two graphs have in common that have the same listing. -/
structure Resembles (g g' : Graph) : Prop where
  primaryInputs : g.primaryInputs = g'.primaryInputs
  registerOutputs : g.registerOutputs = g'.registerOutputs
  primaryOutputs : g.primaryOutputs = g'.primaryOutputs
  nextStates : g.nextStates = g'.nextStates
  gates : g.gates = g'.gates
  children : ∀ n ∈ g.gates, g.childrenOf n = g'.childrenOf n
  polarity : ∀ n ∈ g.gates, (g.coverOf n).polarity = (g'.coverOf n).polarity
  literals : ∀ n ∈ g.gates,
    (g.coverOf n).cubes.map (·.literals (g.childrenOf n).length) =
      (g'.coverOf n).cubes.map (·.literals (g'.childrenOf n).length)

section Shown

variable (g)

theorem listing_primaryInputs : g.listing.inputs.filterMap Sum.getLeft? = g.primaryInputs := by
  simp [listing, List.filterMap_append, List.filterMap_map, Function.comp_def]

theorem listing_registerOutputs :
    g.listing.inputs.filterMap Sum.getRight? = g.registerOutputs := by
  simp [listing, List.filterMap_append, List.filterMap_map, Function.comp_def]

theorem listing_primaryOutputs :
    g.listing.lines.filterMap Line.primaryOutput? = g.primaryOutputs := by
  simp [listing, outputListing, line, Line.primaryOutput?, List.filterMap_append,
    List.filterMap_map, Function.comp_def]

theorem listing_nextStates : g.listing.lines.filterMap Line.nextState? = g.nextStates := by
  simp [listing, outputListing, line, Line.nextState?, List.filterMap_append, List.filterMap_map,
    Function.comp_def]

theorem listing_gates : g.listing.lines.filterMap Line.gate? = g.gates.map fun n =>
    (n, (g.coverOf n).polarity, (g.coverOf n).cubes.map (·.literals (g.childrenOf n).length),
      g.childrenOf n) := by
  simp [listing, outputListing, line, Line.gate?, List.filterMap_append, List.filterMap_map,
    Function.comp_def]

end Shown

theorem resembles_of_listing_eq (h : g.listing = g'.listing) : g.Resembles g' := by
  have hshown := listing_gates g
  rw [h, listing_gates g'] at hshown
  have hgates : g.gates = g'.gates := by
    simpa [Function.comp_def] using (congrArg (List.map Prod.fst) hshown).symm
  rw [← hgates, List.map_inj_left] at hshown
  have hgate : ∀ n ∈ g.gates, (g.coverOf n).polarity = (g'.coverOf n).polarity ∧
      (g.coverOf n).cubes.map (·.literals (g.childrenOf n).length) =
        (g'.coverOf n).cubes.map (·.literals (g'.childrenOf n).length) ∧
      g.childrenOf n = g'.childrenOf n := by
    intro n hn
    have hparts := (hshown n hn).symm
    simp only [Prod.mk.injEq] at hparts
    exact hparts.2
  exact
    { primaryInputs := by rw [← listing_primaryInputs g, h, listing_primaryInputs]
      registerOutputs := by rw [← listing_registerOutputs g, h, listing_registerOutputs]
      primaryOutputs := by rw [← listing_primaryOutputs g, h, listing_primaryOutputs]
      nextStates := by rw [← listing_nextStates g, h, listing_nextStates]
      gates := hgates
      children := fun n hn => (hgate n hn).2.2
      polarity := fun n hn => (hgate n hn).1
      literals := fun n hn => (hgate n hn).2.1 }

/-- Well-formed graphs with equal listings have in common whatever a listing shows. -/
theorem WellFormed.resembles (h : g.WellFormed) (h' : g'.WellFormed) (hdump : g.dump = g'.dump) :
    g.Resembles g' := by
  rw [dump_eq_ok h, dump_eq_ok h'] at hdump
  have hwrite := congrArg String.toList (Except.ok.inj hdump)
  rw [String.toList_ofList, String.toList_ofList] at hwrite
  exact resembles_of_listing_eq
    (Listing.write_injective (listing_valid h) (listing_valid h') hwrite)

end Graph

end LogicNet
