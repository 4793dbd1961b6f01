/-
Spellings of a module block that mean the same. In the tokens of a block the letters of a property name
that means something may change their case, identifiers may be written as strings where a type or
dependencies are set, and the comma behind an element of an array may be left out or put in. However
many of these changes are made, the block is read again and describes the same module.

Each construct in two spellings is derived twice, with nodes that list the same names, and the same
strings where strings count; so each property does the same to the module.
-/
import BuildOrder.Proofs.Module.Properties
import BuildOrder.Proofs.Node.Segment

namespace BuildOrder

/-! ## Two spellings -/

namespace Respelled

/-- The same token, at any place. -/
def Same (t t' : Token) : Prop := t'.kind = t.kind ∧ t'.text = t.text

/-- The comma that may stand behind an element. -/
inductive Separator : List Token → Prop
  | absent : Separator []
  | comma {t : Token} (h : t.kind = .comma) : Separator [t]

/-- The property of this name takes identifiers and strings alike. -/
def TakesNames (name : Token) : Prop :=
  Text.lower name.text = Keyword.deps.word ∨ Text.lower name.text = Keyword.type.word

/-- A string or an identifier. Where names are taken an identifier may become the string of its
text. -/
inductive Leaf (names : Prop) : Token → Token → Prop
  | same {t t' : Token} (hk : t.kind = .string ∨ t.kind = .identifier) (h : Same t t') :
      Leaf names t t'
  | quoted {t t' : Token} (hn : names) (hk : t.kind = .identifier) (hk' : t'.kind = .string)
      (ht : t'.text = t.text) : Leaf names t t'

/-- The elements of an array, with commas behind some of them in one spelling and behind others in the
other one. -/
inductive Elements (names : Prop) : List Token → List Token → Prop
  | nil : Elements names [] []
  | cons {t t' : Token} {cs cs' ts ts' : List Token} (hl : Leaf names t t') (hc : Separator cs)
      (hc' : Separator cs') (h : Elements names ts ts') :
      Elements names (t :: (cs ++ ts)) (t' :: (cs' ++ ts'))

/-- The value of a property. -/
inductive Value (names : Prop) : List Token → List Token → Prop
  | leaf {t t' : Token} (h : Leaf names t t') : Value names [t] [t']
  | array {opening opening' closing closing' : Token} {ts ts' : List Token}
      (ho : opening.kind = .leftBracket) (hso : Same opening opening') (h : Elements names ts ts')
      (hc : closing.kind = .rightBracket) (hsc : Same closing closing') :
      Value names (opening :: (ts ++ [closing])) (opening' :: (ts' ++ [closing']))

/-- The name of a property. A name that means something may change the case of its letters; the kind is
then the one that a reader of the text gives to the new word. -/
inductive Name : Token → Token → Prop
  | same {t t' : Token} (hk : Derives.Name t.kind) (h : Same t t') : Name t t'
  | recased {t t' : Token} {k : Keyword} (hk : Derives.Name t.kind) (hm : k ≠ .module)
      (ht : Text.lower t.text = k.word) (ht' : Text.lower t'.text = k.word)
      (hk' : t'.kind = .ofWord t'.text) : Name t t'

/-- A property. -/
inductive Property : List Token → List Token → Prop
  | intro {name name' equals equals' : Token} {ts ts' : List Token} (hn : Name name name')
      (he : equals.kind = .equals) (hse : Same equals equals')
      (h : Value (TakesNames name) ts ts') :
      Property (name :: equals :: ts) (name' :: equals' :: ts')

/-- The properties of a block. -/
inductive Properties : List Token → List Token → Prop
  | nil : Properties [] []
  | cons {ts ts' us us' : List Token} (hp : Property ts ts') (h : Properties us us') :
      Properties (ts ++ us) (ts' ++ us')

/-- A module block. -/
inductive Block : List Token → List Token → Prop
  | intro {heading heading' name name' opening opening' closing closing' : Token}
      {ts ts' : List Token} (hh : heading.kind = .keyword .module) (hsh : Same heading heading')
      (hn : name.kind = .identifier) (hsn : Same name name') (ho : opening.kind = .leftBrace)
      (hso : Same opening opening') (h : Properties ts ts') (hc : closing.kind = .rightBrace)
      (hsc : Same closing closing') :
      Block (heading :: name :: opening :: (ts ++ [closing]))
        (heading' :: name' :: opening' :: (ts' ++ [closing']))

/-! ## Every block has its own spelling -/

theorem Same.refl (t : Token) : Same t t := ⟨rfl, rfl⟩

theorem Elements.refl {names : Prop} {ts : List Token} {ns : List Node}
    (h : Derives.Elements ts ns) : Elements names ts ts := by
  induction h with
  | nil => exact .nil
  | plain hn _ ih => exact .cons (.same hn.kind (.refl _)) .absent .absent ih
  | comma hn hc _ ih => exact .cons (.same hn.kind (.refl _)) (.comma hc) (.comma hc) ih

theorem Value.refl {names : Prop} {ts : List Token} {n : Node} (h : Derives.Value ts n) :
    Value names ts ts := by
  cases h with
  | leaf hn => exact .leaf (.same hn.kind (.refl _))
  | array ho h hc => exact .array ho (.refl _) (.refl h) hc (.refl _)

theorem Properties.refl {ts : List Token} {ps : List (BuildOrder.Property Node)}
    (h : Derives.Properties ts ps) : Properties ts ts := by
  induction h with
  | nil => exact .nil
  | cons hp _ ih =>
    cases hp with
    | intro hk he hv => exact .cons (.intro (.same hk (.refl _)) he (.refl _) (.refl hv)) ih

theorem Block.refl {ts : List Token} {b : ModuleBlock} (h : Derives.Block ts b) : Block ts ts := by
  cases h with
  | intro hh hn ho hps hc =>
    exact .intro hh (.refl _) hn (.refl _) ho (.refl _) (.refl hps) hc (.refl _)

/-! ## Both spellings are derived -/

theorem Same.kind {t t' : Token} (h : Same t t') {k : Token.Kind} (hk : t.kind = k) :
    t'.kind = k := h.1.trans hk

theorem Leaf.derived {names : Prop} {t t' : Token} (h : Leaf names t t') :
    ∃ n n', Derives.Leaf t n ∧ Derives.Leaf t' n' ∧ n'.name? = n.name? ∧
      (names ∨ n'.string? = n.string?) ∧ n.listed = [n] ∧ n'.listed = [n'] := by
  cases h with
  | same hk h =>
    rcases hk with hk | hk
    · refine ⟨_, _, .string hk, .string (h.kind hk), ?_, .inr ?_, rfl, rfl⟩
      · exact congrArg some h.2
      · exact congrArg some h.2
    · refine ⟨_, _, .identifier hk, .identifier (h.kind hk), ?_, .inr rfl, rfl, rfl⟩
      exact congrArg some h.2
  | quoted hn hk hk' ht =>
    exact ⟨_, _, .identifier hk, .string hk', congrArg some ht, .inl hn, rfl, rfl⟩

theorem Elements.derived {names : Prop} {ts ts' : List Token} (h : Elements names ts ts') :
    ∃ ns ns', Derives.Elements ts ns ∧ Derives.Elements ts' ns' ∧
      ns'.filterMap Node.name? = ns.filterMap Node.name? ∧
      (names ∨ ns'.filterMap Node.string? = ns.filterMap Node.string?) := by
  -- a leaf with its separator goes in front of elements that are derived
  have front : ∀ {t n cs us ns}, Derives.Leaf t n → Separator cs → Derives.Elements us ns →
      Derives.Elements (t :: (cs ++ us)) (n :: ns) := by
    intro t n cs us ns hn hc hus
    cases hc with
    | absent => exact .plain hn hus
    | comma hc => exact .comma hn hc hus
  induction h with
  | nil => exact ⟨[], [], .nil, .nil, rfl, .inr rfl⟩
  | cons hl hc hc' _ ih =>
    obtain ⟨n, n', hn, hn', hname, hstring, -⟩ := hl.derived
    obtain ⟨ns, ns', hns, hns', hnames, hstrings⟩ := ih
    refine ⟨n :: ns, n' :: ns', front hn hc hns, front hn' hc' hns', ?_, ?_⟩
    · rw [List.filterMap_cons, List.filterMap_cons, hname, hnames]
    · rcases hstring with h | hstring
      · exact .inl h
      · rcases hstrings with h | hstrings
        · exact .inl h
        · refine .inr ?_
          rw [List.filterMap_cons, List.filterMap_cons, hstring, hstrings]

theorem Value.derived {names : Prop} {ts ts' : List Token} (h : Value names ts ts') :
    ∃ n n', Derives.Value ts n ∧ Derives.Value ts' n' ∧ n'.names = n.names ∧ n'.name? = n.name? ∧
      (names ∨ n'.strings = n.strings) := by
  cases h with
  | leaf h =>
    obtain ⟨n, n', hn, hn', hname, hstring, hl, hl'⟩ := h.derived
    refine ⟨n, n', .leaf hn, .leaf hn', ?_, hname, hstring.imp_right fun hs => ?_⟩
    · rw [Node.names_eq, Node.names_eq, hl, hl', List.filterMap_cons, List.filterMap_cons, hname]
    · rw [Node.strings_eq, Node.strings_eq, hl, hl', List.filterMap_cons, List.filterMap_cons, hs]
  | array ho hso h hc hsc =>
    obtain ⟨ns, ns', hns, hns', hnames, hstrings⟩ := h.derived
    exact ⟨_, _, .array ho hns hc, .array (hso.kind ho) hns' (hsc.kind hc), hnames, rfl, hstrings⟩

theorem lower_word (k : Keyword) : Text.lower k.word = k.word := by cases k <;> decide

theorem word_injective {k k' : Keyword} (h : k.word = k'.word) : k = k' := by
  have := congrArg Keyword.ofWord? h
  rw [Keyword.ofWord?_word, Keyword.ofWord?_word] at this
  exact Option.some.inj this

theorem Name.derived {t t' : Token} (h : Name t t') :
    Derives.Name t.kind ∧ Derives.Name t'.kind ∧
      Keyword.ofWord? (Text.lower t'.text) = Keyword.ofWord? (Text.lower t.text) := by
  cases h with
  | same hk h => exact ⟨hk, h.1.symm ▸ hk, by rw [h.2]⟩
  | @recased k hk hm ht ht' hk' =>
    refine ⟨hk, ?_, by rw [ht, ht']⟩
    rw [hk']
    by_cases hw : ∃ k' : Keyword, t'.text = k'.word
    · obtain ⟨k', hw⟩ := hw
      -- the word in its exact spelling is the one that the name spells in some case of its letters
      have hkk : k' = k := word_injective (by rw [← lower_word k', ← hw, ht'])
      rw [hw, Token.Kind.ofWord_word, hkk]
      exact .reserved hm
    · rw [not_exists] at hw
      rw [Token.Kind.ofWord_of_ne hw]
      exact .identifier

theorem Property.derived {ts ts' : List Token} (h : Property ts ts') :
    ∃ p p', Derives.Property ts p ∧ Derives.Property ts' p' ∧
      ∀ m : Module, m.assign p' = m.assign p := by
  cases h with
  | @intro name name' equals equals' ts ts' hn he hse h =>
    obtain ⟨hk, hk', hkey⟩ := hn.derived
    obtain ⟨n, n', hv, hv', hnames, hname, hstrings⟩ := h.derived
    refine ⟨_, _, .intro hk he hv, .intro hk' (hse.kind he) hv', ?_⟩
    refine Module.assign_congr hkey hnames hname ?_
    rcases hstrings with (h | h) | h
    · exact .inl (BuildOrder.Property.spells_iff.1 h)
    · exact .inr (.inl (BuildOrder.Property.spells_iff.1 h))
    · exact .inr (.inr h)

theorem Properties.derived {ts ts' : List Token} (h : Properties ts ts') :
    ∃ ps ps', Derives.Properties ts ps ∧ Derives.Properties ts' ps' ∧
      ∀ m : Module, ps'.foldl Module.assign m = ps.foldl Module.assign m := by
  induction h with
  | nil => exact ⟨[], [], .nil, .nil, fun _ => rfl⟩
  | cons hp _ ih =>
    obtain ⟨p, p', hp, hp', hassign⟩ := hp.derived
    obtain ⟨ps, ps', hps, hps', hfold⟩ := ih
    refine ⟨p :: ps, p' :: ps', .cons hp hps, .cons hp' hps', fun m => ?_⟩
    rw [List.foldl_cons, List.foldl_cons, hassign, hfold]

theorem Block.derived {ts ts' : List Token} (h : Block ts ts') :
    ∃ b b', Derives.Block ts b ∧ Derives.Block ts' b' ∧
      ∀ name directory, Module.ofBlock name directory b' = Module.ofBlock name directory b := by
  cases h with
  | intro hh hsh hn hsn ho hso h hc hsc =>
    obtain ⟨ps, ps', hps, hps', hfold⟩ := h.derived
    exact ⟨_, _, .intro hh hn ho hps hc,
      .intro (hsh.kind hh) (hsn.kind hn) (hso.kind ho) hps' (hsc.kind hc), fun _ _ => hfold _⟩

end Respelled

/-! ## Reading another spelling -/

/-- The tokens of a block that is read are one spelling of it. From each other spelling, with the same
tokens behind, a block is read too, up to the same place, and under each name and directory it
describes the same module. -/
theorem Parse.block_respelled {s rest : Tokens} {b : ModuleBlock} (h : block s = .ok b rest) :
    ∃ ts, s = rest.prepend ts ∧ Respelled.Block ts ts ∧
      ∀ ts', Respelled.Block ts ts' → ∃ b', block (rest.prepend ts') = .ok b' rest ∧
        ∀ name directory, Module.ofBlock name directory b' = Module.ofBlock name directory b := by
  obtain ⟨ts, hts, rfl⟩ := derived_of_block h
  refine ⟨ts, rfl, .refl hts, fun ts' hr => ?_⟩
  obtain ⟨b₁, b', hb₁, hb', hsame⟩ := hr.derived
  -- the reading has one result, so the block that is derived is the one that is read
  obtain rfl : b₁ = b := by
    have he := (hb₁.read rest).symm.trans h
    rw [EStateM.Result.ok.injEq] at he
    exact he.1
  exact ⟨b', hb'.read rest, hsame⟩

/-- A name in capitals, a bare dependency, the comma behind it and the missing one behind the last are
all written the other way. -/
theorem Parse.block_respelled_deps :
    let token := fun (kind : Token.Kind) (text : String) (column : Nat) =>
      (⟨kind, text, ⟨1, column⟩⟩ : Token)
    let head := [token (.keyword .module) "module" 1, token .identifier "M" 8,
      token .leftBrace "\x7b" 10]
    let ts := head ++ [token .identifier "DEPS" 12, token .equals "=" 17, token .leftBracket "[" 19,
      token .identifier "a" 20, token .comma "," 21, token .identifier "b" 23,
      token .rightBracket "]" 24, token .rightBrace "\x7d" 26]
    let ts' := head ++ [token (.keyword .deps) "deps" 12, token .equals "=" 17,
      token .leftBracket "[" 19, token .string "a" 20, token .identifier "b" 24,
      token .comma "," 25, token .rightBracket "]" 26, token .rightBrace "\x7d" 28]
    let rest : Tokens := ⟨[], token .endOfFile "" 29, rfl⟩
    let b : ModuleBlock := ⟨⟨1, 1⟩, "M", [⟨⟨1, 12⟩, "DEPS",
      .array ⟨1, 19⟩ [.identifier ⟨1, 20⟩ "a", .identifier ⟨1, 23⟩ "b"]⟩]⟩
    block (rest.prepend ts) = .ok b rest ∧ Respelled.Block ts ts' ∧
      ∃ b', block (rest.prepend ts') = .ok b' rest ∧
        Module.ofBlock "M" "." b' = Module.ofBlock "M" "." b ∧
        Module.ofBlock "M" "." b = { name := "M", directory := ".", dependencies := ["a", "b"] } := by
  intro token head ts ts' rest b
  have hb : Derives.Block ts b := by
    have helements : Derives.Elements ((ts.drop 6).take 3) _ :=
      .comma (.identifier rfl) rfl (.plain (.identifier rfl) .nil)
    have hvalue : Derives.Value ((ts.drop 5).take 5) _ := .array rfl helements rfl
    have hproperty : Derives.Property ((ts.drop 3).take 7) _ := .intro .identifier rfl hvalue
    exact .intro rfl rfl rfl (.cons hproperty .nil) rfl
  have hr : Respelled.Block ts ts' := by
    have hnames : Respelled.TakesNames (token .identifier "DEPS" 12) := .inl (by decide)
    have hquoted : Respelled.Leaf (Respelled.TakesNames (token .identifier "DEPS" 12))
      (token .identifier "a" 20) (token .string "a" 20) := .quoted hnames rfl rfl rfl
    have hsame : Respelled.Leaf (Respelled.TakesNames (token .identifier "DEPS" 12))
      (token .identifier "b" 23) (token .identifier "b" 24) := .same (.inr rfl) ⟨rfl, rfl⟩
    have hout : Respelled.Separator [token .comma "," 21] := .comma rfl
    have hin : Respelled.Separator [token .comma "," 25] := .comma rfl
    have helements := Respelled.Elements.cons hquoted hout .absent (.cons hsame .absent hin .nil)
    have hvalue : Respelled.Value _ ((ts.drop 5).take 5) ((ts'.drop 5).take 5) :=
      .array rfl ⟨rfl, rfl⟩ helements rfl ⟨rfl, rfl⟩
    have hproperty : Respelled.Property ((ts.drop 3).take 7) ((ts'.drop 3).take 7) :=
      .intro (.recased .identifier (k := .deps) (by decide) (by decide) (by decide) (by decide)) rfl
        ⟨rfl, rfl⟩ hvalue
    exact .intro rfl ⟨rfl, rfl⟩ rfl ⟨rfl, rfl⟩ rfl ⟨rfl, rfl⟩ (.cons hproperty .nil) rfl ⟨rfl, rfl⟩
  have h : block (rest.prepend ts) = .ok b rest := hb.read rest
  obtain ⟨us, hus, -, hall⟩ := block_respelled h
  obtain rfl : ts = us := by
    have := congrArg Tokens.ahead hus
    simpa [Tokens.prepend, rest] using this
  obtain ⟨b', hread, hsame⟩ := hall ts' hr
  exact ⟨h, hr, b', hread, hsame _ _, by decide +kernel⟩

end BuildOrder
