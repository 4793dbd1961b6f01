/-
What the properties of a block say about the module. Each part of the module comes from one property:
the last one whose name spells its word, in any case of the letters. So properties that are followed by
one with the same name do not count, neither do properties whose name is no word, and the order of
properties with different names does not matter.

A property changes the part of its own word and no other one. By induction with the last property taken
off, the parts after a whole block are those of the last properties, and the rest follows from that.
-/
import BuildOrder.Module.Block
import BuildOrder.Proofs.Token.Piece
import Mathlib.Data.List.Induction
import Mathlib.Data.List.Pairwise

namespace BuildOrder

/-! ## The properties of a word -/

/-- What a value lists: the elements of an array, or the value itself. -/
def Node.listed : Node → List Node
  | .array _ elements => elements
  | n => [n]

namespace Property

/-- The name of the property spells the word, in some case of its letters. -/
def Spells (p : Property Node) (k : Keyword) : Prop := Text.lower p.name = k.word

/-- The name means something: it spells a word other than the one for a block. -/
def Known (p : Property Node) : Prop := ∃ k ≠ Keyword.module, p.Spells k

theorem spells_iff {p : Property Node} {k : Keyword} : p.Spells k ↔ p.key? = some k := by
  constructor
  · intro h
    rw [key?, show Text.lower p.name = k.word from h, Keyword.ofWord?_word]
  · intro h
    exact (Keyword.word_eq_of_ofWord? h).symm

instance (p : Property Node) : Decidable p.Known :=
  match h : p.key? with
  | none => .isFalse fun ⟨k, _, hk⟩ => by
    rw [spells_iff, h] at hk
    cases hk
  | some k =>
    if hm : k = .module then
      .isFalse fun ⟨k', hne, hk⟩ => by
        rw [spells_iff, h] at hk
        cases hk
        exact hne hm
    else .isTrue ⟨k, hm, spells_iff.2 h⟩

end Property

namespace Block

/-- The properties whose names are the text, up to the case of letters. -/
def named (b : ModuleBlock) (word : String) : List (Property Node) :=
  b.properties.filter fun p => Text.lower p.name = word

/-- The value of the last property that spells the word. -/
def last? (b : ModuleBlock) (k : Keyword) : Option Node := (b.named k.word).getLast?.map (·.value)

/-- What the last property that spells the word lists. -/
def listed (b : ModuleBlock) (k : Keyword) : List Node := (b.last? k).elim [] Node.listed

/-- The block without the properties that are followed by one with the same name, up to the case of
letters. -/
def withoutRepeats (b : ModuleBlock) : ModuleBlock :=
  { b with properties := b.properties.pwFilter fun p q => Text.lower p.name ≠ Text.lower q.name }

/-- The block without the properties whose names mean nothing. -/
def withoutUnknown (b : ModuleBlock) : ModuleBlock :=
  { b with properties := b.properties.filter fun p => p.Known }

end Block

/-! ## The parts of a module -/

namespace Node

theorem strings_eq (n : Node) : n.strings = n.listed.filterMap string? := by cases n <;> rfl

theorem names_eq (n : Node) : n.names = n.listed.filterMap name? := by cases n <;> rfl

end Node

namespace Block

theorem last?_concat (b : ModuleBlock) (p : Property Node) (k : Keyword) :
    last? { b with properties := b.properties ++ [p] } k =
      if p.key? = some k then some p.value else b.last? k := by
  unfold last? named
  rw [List.filter_append]
  by_cases h : p.key? = some k
  · have hs : Text.lower p.name = k.word := Property.spells_iff.2 h
    rw [if_pos h, List.filter_cons_of_pos (by simpa using hs), List.filter_nil,
      List.getLast?_concat, Option.map_some]
  · have hs : ¬ Text.lower p.name = k.word := fun hs => h (Property.spells_iff.1 hs)
    rw [if_neg h, List.filter_cons_of_neg (by simpa using hs), List.filter_nil, List.append_nil]

end Block

namespace Module

/-- The module of a block, part by part. -/
theorem ofBlock_eq (name directory : String) (b : ModuleBlock) : ofBlock name directory b =
    { name, directory
      kind := .ofText ((b.last? .type).bind Node.name?)
      sources := (b.last? .sources).elim [] Node.strings
      publicIncludes := (b.last? .publicIncludes).elim [] Node.strings
      privateIncludes := (b.last? .privateIncludes).elim [] Node.strings
      defines := (b.last? .defines).elim [] Node.strings
      dependencies := (b.last? .deps).elim [] Node.names } := by
  obtain ⟨start, heading, ps⟩ := b
  induction ps using List.reverseRecOn with
  | nil => rfl
  | append_singleton ps p ih =>
    have hstep : ofBlock name directory ⟨start, heading, ps ++ [p]⟩ =
        (ofBlock name directory ⟨start, heading, ps⟩).assign p := by
      unfold ofBlock
      rw [List.foldl_append]
      rfl
    have hlast := Block.last?_concat ⟨start, heading, ps⟩ p
    dsimp only at hlast
    rw [hstep, ih, assign]
    simp only [hlast]
    cases p.key? with
    | none => simp
    | some k => cases k <;> simp

/-- Properties of one word say the same if their values list the same names, and the same strings
unless the word takes names and strings alike. -/
theorem assign_congr {p p' : Property Node} (hk : p'.key? = p.key?)
    (hnames : p'.value.names = p.value.names) (hname : p'.value.name? = p.value.name?)
    (hstrings : p.key? = some .deps ∨ p.key? = some .type ∨ p'.value.strings = p.value.strings)
    (m : Module) : m.assign p' = m.assign p := by
  unfold assign
  rw [hk, hnames, hname]
  rcases hstrings with h | h | h
  · rw [h]
  · rw [h]
  · rw [h]

end Module

/-! ## Properties that do not count -/

namespace Block

/-- Among the properties with one name the last one stays when those that are followed by one with the
same name are left out. -/
theorem getLast?_named_withoutRepeats (b : ModuleBlock) (word : String) :
    (b.withoutRepeats.named word).getLast? = (b.named word).getLast? := by
  obtain ⟨start, heading, ps⟩ := b
  unfold withoutRepeats named
  dsimp only
  induction ps with
  | nil => rfl
  | cons p ps ih =>
    by_cases hlast : ∀ q ∈ ps.pwFilter fun p q => Text.lower p.name ≠ Text.lower q.name,
        Text.lower p.name ≠ Text.lower q.name
    · rw [List.pwFilter_cons_of_pos hlast]
      by_cases hp : Text.lower p.name = word
      · rw [List.filter_cons_of_pos (by simpa using hp), List.filter_cons_of_pos (by simpa using hp),
          List.getLast?_cons, List.getLast?_cons, ih]
      · rw [List.filter_cons_of_neg (by simpa using hp), List.filter_cons_of_neg (by simpa using hp),
          ih]
    · rw [List.pwFilter_cons_of_neg hlast, ih]
      by_cases hp : Text.lower p.name = word
      · -- a later property has this name too, so the last one is not the one left out
        push Not at hlast
        obtain ⟨q, hq, hpq⟩ := hlast
        have hmem : q ∈ ps.filter fun p => Text.lower p.name = word := by
          simpa [← hpq, hp] using (List.pwFilter_sublist ps).subset hq
        rw [List.filter_cons_of_pos (by simpa using hp), List.getLast?_cons,
          List.getLast?_eq_some_getLast (List.ne_nil_of_mem hmem), Option.getD_some]
      · rw [List.filter_cons_of_neg (by simpa using hp)]

theorem named_withoutUnknown (b : ModuleBlock) {k : Keyword} (hk : k ≠ .module) :
    b.withoutUnknown.named k.word = b.named k.word := by
  unfold withoutUnknown named
  rw [List.filter_filter]
  refine List.filter_congr fun p _ => ?_
  by_cases hp : Text.lower p.name = k.word
  · have : p.Known := ⟨k, hk, hp⟩
    simp [hp, this]
  · simp [hp]

end Block

namespace Module

/-- Blocks of which each known word is spelled last with the same value describe the same module. -/
theorem ofBlock_congr {b b' : ModuleBlock} (h : ∀ k ≠ Keyword.module, b'.last? k = b.last? k)
    (name directory : String) : ofBlock name directory b' = ofBlock name directory b := by
  rw [ofBlock_eq, ofBlock_eq, h _ (by decide), h _ (by decide), h _ (by decide), h _ (by decide),
    h _ (by decide), h _ (by decide)]

/-- Each part of the module that a block describes is what the last property says whose name spells the
word of this part: the type in a string or an identifier, the strings that it lists, and for the
dependencies the strings and the identifiers. A value of another shape says nothing and still counts
as the last one; without a property the part is empty, and the type a static library. Properties that
are followed by one with the same name and properties with unknown names can be left out, and blocks
that have the same properties in the same order under each name describe the same module, whatever the
blocks are called. -/
theorem ofBlock_lastWins (name directory : String) (b : ModuleBlock) :
    ofBlock name directory b =
      { name, directory
        kind := ((b.last? .type).bind Node.name?).elim .staticLibrary fun text => .ofText (some text)
        sources := (b.listed .sources).filterMap Node.string?
        publicIncludes := (b.listed .publicIncludes).filterMap Node.string?
        privateIncludes := (b.listed .privateIncludes).filterMap Node.string?
        defines := (b.listed .defines).filterMap Node.string?
        dependencies := (b.listed .deps).filterMap Node.name? } ∧
    ofBlock name directory b.withoutRepeats = ofBlock name directory b ∧
    ofBlock name directory b.withoutUnknown = ofBlock name directory b ∧
    ∀ b' : ModuleBlock, (∀ word, b'.named word = b.named word) →
      ofBlock name directory b' = ofBlock name directory b := by
  refine ⟨?_, ofBlock_congr (fun k _ => ?_) .., ofBlock_congr (fun k hk => ?_) ..,
    fun b' h => ofBlock_congr (fun k _ => ?_) ..⟩
  · have hstrings : ∀ k, (b.last? k).elim [] Node.strings =
        (b.listed k).filterMap Node.string? := fun k => by
      unfold Block.listed
      cases b.last? k with
      | none => rfl
      | some n => exact n.strings_eq
    have hnames : ∀ k, (b.last? k).elim [] Node.names =
        (b.listed k).filterMap Node.name? := fun k => by
      unfold Block.listed
      cases b.last? k with
      | none => rfl
      | some n => exact n.names_eq
    have hkind : ModuleKind.ofText ((b.last? .type).bind Node.name?) =
        ((b.last? .type).bind Node.name?).elim .staticLibrary fun text => .ofText (some text) := by
      cases (b.last? .type).bind Node.name? with
      | none => rfl
      | some text => rfl
    rw [ofBlock_eq, hkind, hnames]
    simp only [hstrings]
  · unfold Block.last?
    rw [Block.getLast?_named_withoutRepeats]
  · unfold Block.last?
    rw [Block.named_withoutUnknown b hk]
  · unfold Block.last?
    rw [h]

/-- A type, and dependencies with a nested array. -/
def typeThenDeps : ModuleBlock :=
  ⟨.start, "A", [⟨.start, "TYPE", .string .start "Shared"⟩,
    ⟨.start, "deps", .array .start [.identifier .start "a", .array .start [], .string .start "b"]⟩]⟩

/-- The same properties the other way round, in a block of another name. -/
def depsThenType : ModuleBlock :=
  ⟨.start, "B", typeThenDeps.properties.reverse⟩

theorem ofBlock_lastWins_reverse :
    (∀ word, depsThenType.named word = typeThenDeps.named word) ∧
      ofBlock "M" "." depsThenType = ofBlock "M" "." typeThenDeps ∧
      ofBlock "M" "." typeThenDeps =
        { name := "M", directory := ".", kind := .sharedLibrary, dependencies := ["a", "b"] } := by
  have htype : Text.lower "TYPE" = "type" := by decide
  have hdeps : Text.lower "deps" = "deps" := by decide
  have hnamed : ∀ word, depsThenType.named word = typeThenDeps.named word := by
    intro word
    by_cases hw : word = "type"
    · subst hw
      simp [Block.named, depsThenType, typeThenDeps, htype, hdeps]
    · have hw' : "type" ≠ word := fun h => hw h.symm
      simp [Block.named, depsThenType, typeThenDeps, htype, hdeps, List.filter_cons, hw']
  obtain ⟨hparts, -, -, hcongr⟩ := ofBlock_lastWins "M" "." typeThenDeps
  exact ⟨hnamed, hcongr _ hnamed, hparts.trans (by decide +kernel)⟩

end Module

end BuildOrder
