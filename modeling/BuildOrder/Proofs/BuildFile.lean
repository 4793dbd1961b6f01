/-
What a source text is accepted for. A text gives a module exactly if its tokens begin with a module
block; the tokens behind the closing brace are not looked at. So a text that is accepted is one block
and nothing else only if nothing stands between the closing brace and the end of the file.

What is derived is read and what is read is derived, so all of this is said of derivations.
-/
import BuildOrder.BuildFile
import BuildOrder.Proofs.Node.Segment
import Mathlib.Data.List.Basic

namespace BuildOrder

/-! ## Blocks in a text -/

namespace ModuleBlock

/-- The tokens of the text begin with the block, and the tokens `rest` stand behind it. -/
def Opens (b : ModuleBlock) (source : String) (rest : Tokens) : Prop :=
  ∃ ts, Derives.Block ts b ∧ tokenize source = .ok (rest.prepend ts)

/-- The text is the block and nothing else: behind its tokens comes the end of the file. -/
def Fills (b : ModuleBlock) (source : String) : Prop :=
  ∃ tokens : Tokens, tokenize source = .ok tokens ∧ Derives.Block tokens.ahead b

variable {b b' : ModuleBlock} {source : String} {rest rest' : Tokens}

/-- A block that opens a text is read there, and what stands behind it is left. -/
theorem Opens.read (h : b.Opens source rest) :
    ∃ tokens, tokenize source = .ok tokens ∧ Parse.block tokens = .ok b rest := by
  obtain ⟨ts, hb, ht⟩ := h
  exact ⟨rest.prepend ts, ht, hb.read rest⟩

theorem Opens.ofSource (h : b.Opens source rest) : ofSource source = .ok b := by
  obtain ⟨tokens, ht, hb⟩ := h.read
  unfold ModuleBlock.ofSource
  rw [ht]
  dsimp only
  rw [hb]

theorem opens_of_ofSource (h : ofSource source = .ok b) : ∃ rest, b.Opens source rest := by
  unfold ModuleBlock.ofSource at h
  cases ht : tokenize source with
  | error e =>
    rw [ht] at h
    cases h
  | ok tokens =>
    rw [ht] at h
    dsimp only at h
    cases hb : Parse.block tokens with
    | error e s =>
      rw [hb] at h
      cases h
    | ok b' rest =>
      rw [hb] at h
      cases h
      obtain ⟨ts, hts, hs⟩ := Parse.derived_of_block hb
      exact ⟨rest, ts, hts, by rw [ht, hs]⟩

/-- The block that opens a text is the only one, and so is what stands behind it. -/
theorem Opens.unique (h : b.Opens source rest) (h' : b'.Opens source rest') :
    b = b' ∧ rest = rest' := by
  obtain ⟨tokens, ht, hb⟩ := h.read
  obtain ⟨tokens', ht', hb'⟩ := h'.read
  obtain rfl : tokens = tokens' := Except.ok.inj (ht.symm.trans ht')
  have he := hb.symm.trans hb'
  rw [EStateM.Result.ok.injEq] at he
  exact he

/-- A text is the block that opens it just if no token stands behind the block. -/
theorem fills_iff : b.Fills source ↔ ∃ rest, b.Opens source rest ∧ rest.ahead = [] := by
  constructor
  · rintro ⟨⟨ahead, final, hf⟩, ht, hb⟩
    refine ⟨.only final hf, ⟨ahead, hb, ?_⟩, rfl⟩
    have hall : (Tokens.only final hf).prepend ahead = ⟨ahead, final, hf⟩ := by
      simp [Tokens.prepend, Tokens.only]
    rw [hall]
    exact ht
  · rintro ⟨⟨_, final, hf⟩, ⟨ts, hb, ht⟩, rfl⟩
    have hall : (Tokens.mk [] final hf).prepend ts = ⟨ts, final, hf⟩ := by
      simp [Tokens.prepend]
    rw [hall] at ht
    exact ⟨_, ht, hb⟩

/-- A text is refused for a lexical fault, or for a token where the grammar admits another one. -/
theorem fault_of_ofSource {f : Fault} (h : ofSource source = .error f) :
    (∃ e, tokenize source = .error e ∧ f = e.toFault) ∨
      ∃ tokens, tokenize source = .ok tokens ∧ f.kind = .grammar := by
  unfold ModuleBlock.ofSource at h
  cases ht : tokenize source with
  | error e =>
    rw [ht] at h
    cases h
    exact .inl ⟨e, rfl, rfl⟩
  | ok tokens =>
    rw [ht] at h
    dsimp only at h
    cases hb : Parse.block tokens with
    | ok b s =>
      rw [hb] at h
      cases h
    | error e s =>
      rw [hb] at h
      cases h
      exact .inr ⟨tokens, rfl, rfl⟩

end ModuleBlock

/-! ## Modules of a text -/

namespace Module

theorem ofSource_eq_map (name directory source : String) :
    ofSource name directory source = (ModuleBlock.ofSource source).map (ofBlock name directory) :=
  rfl

theorem ofSource_eq_ok_iff {name directory source : String} {m : Module} :
    ofSource name directory source = .ok m ↔
      ∃ b rest, b.Opens source rest ∧ m = ofBlock name directory b := by
  constructor
  · intro h
    rw [ofSource_eq_map] at h
    cases hb : ModuleBlock.ofSource source with
    | error f =>
      rw [hb] at h
      cases h
    | ok b =>
      rw [hb] at h
      cases h
      obtain ⟨rest, hr⟩ := ModuleBlock.opens_of_ofSource hb
      exact ⟨b, rest, hr, rfl⟩
  · rintro ⟨b, rest, hb, rfl⟩
    rw [ofSource_eq_map, hb.ofSource]
    rfl

theorem fault_of_ofSource {name directory source : String} {f : Fault}
    (h : ofSource name directory source = .error f) :
    (∃ e, tokenize source = .error e ∧ f = e.toFault) ∨
      ∃ tokens, tokenize source = .ok tokens ∧ f.kind = .grammar := by
  rw [ofSource_eq_map] at h
  cases hb : ModuleBlock.ofSource source with
  | ok b =>
    rw [hb] at h
    cases h
  | error f' =>
    rw [hb] at h
    cases h
    exact ModuleBlock.fault_of_ofSource hb

/-- A text gives a module exactly if a block opens it, and else it is refused with the fault of its
tokens or of the grammar. That every text which is accepted is one block, and that tokens behind a
block are a fault of the grammar, holds of the texts that have no tokens behind the block which opens
them, and of no others. -/
theorem ofSource_front (name directory source : String) :
    (∀ m, ofSource name directory source = .ok m ↔
      ∃ b rest, b.Opens source rest ∧ m = ofBlock name directory b) ∧
    (∀ f, ofSource name directory source = .error f →
      (∃ e, tokenize source = .error e ∧ f = e.toFault) ∨
        ∃ tokens, tokenize source = .ok tokens ∧ f.kind = .grammar) ∧
    (((∀ m, ofSource name directory source = .ok m → ∃ b : ModuleBlock, b.Fills source) ∧
        ∀ (b : ModuleBlock) rest, b.Opens source rest → rest.ahead ≠ [] →
          ∃ f, ofSource name directory source = .error f ∧ f.kind = .grammar) ↔
      ∀ (b : ModuleBlock) rest, b.Opens source rest → rest.ahead = []) := by
  refine ⟨fun m => ofSource_eq_ok_iff, fun f => fault_of_ofSource, ?_, fun hnone => ⟨?_, ?_⟩⟩
  · rintro ⟨hwhole, -⟩ b rest hb
    obtain ⟨b', hb'⟩ := hwhole _ (ofSource_eq_ok_iff.2 ⟨b, rest, hb, rfl⟩)
    obtain ⟨rest', hr', hnil⟩ := ModuleBlock.fills_iff.1 hb'
    rw [(hb.unique hr').2]
    exact hnil
  · intro m hm
    obtain ⟨b, rest, hb, -⟩ := ofSource_eq_ok_iff.1 hm
    exact ⟨b, ModuleBlock.fills_iff.2 ⟨rest, hb, hnone b rest hb⟩⟩
  · intro b rest hb hne
    exact absurd (hnone b rest hb) hne

/-- A text of two blocks. -/
def twoBlocks : String := "module A \x7b\x7d module B \x7b\x7d"

/-- A text of two blocks is accepted for the first of them. -/
theorem ofSource_twoBlocks :
    ofSource "M" "." twoBlocks = .ok { name := "M", directory := "." } ∧
      ¬ ∃ b : ModuleBlock, b.Fills twoBlocks := by
  refine ⟨by decide +kernel, ?_⟩
  rintro ⟨b, hb⟩
  obtain ⟨rest, hr, hnil⟩ := ModuleBlock.fills_iff.1 hb
  obtain ⟨tokens, ht, hread⟩ := hr.read
  -- the reading stops in front of the second block
  have hleft : (tokenize twoBlocks).toOption.all
      (fun tokens => (Parse.rest (Parse.block tokens)).ahead.isEmpty) = false := by
    decide +kernel
  rw [ht, Except.toOption, Option.all_some, hread, Parse.rest, hnil] at hleft
  cases hleft

end Module

end BuildOrder
