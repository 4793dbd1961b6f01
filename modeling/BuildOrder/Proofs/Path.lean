/-
The characters of a path in its plain form: besides dots and slashes it has those of the text that
it was read from, all of them and no others. So a path can be asked for exactly if its text is
without the null character.

The text of a path in its plain form gives the path back. With forward slashes only it does so exactly
if the path has no backslash.
-/
import BuildOrder.Path

namespace BuildOrder

namespace Text

theorem mem_of_mem_split {separator c : Char} {part text : List Char}
    (hp : part ∈ split separator text) (hc : c ∈ part) : c ∈ text := by
  induction text generalizing part with
  | nil =>
    obtain rfl := List.mem_singleton.1 hp
    cases hc
  | cons d rest ih =>
    unfold split at hp
    split at hp
    · rcases List.mem_cons.1 hp with rfl | hp
      · cases hc
      · exact List.mem_cons_of_mem _ (ih hp hc)
    · split at hp
      · rename_i hnil
        exact absurd hnil (split_ne_nil separator rest)
      · rename_i first parts hs
        rw [hs] at ih
        rcases List.mem_cons.1 hp with rfl | hp
        · rcases List.mem_cons.1 hc with rfl | hc
          · exact List.mem_cons_self ..
          · exact List.mem_cons_of_mem _ (ih (List.mem_cons_self ..) hc)
        · exact List.mem_cons_of_mem _ (ih (List.mem_cons_of_mem _ hp) hc)

theorem mem_of_mem_words {separator c : Char} {word text : String}
    (hw : word ∈ words separator text) (hc : c ∈ word.toList) : c ∈ text.toList := by
  obtain ⟨part, hp, rfl⟩ := List.mem_map.1 (List.mem_filter.1 hw).1
  rw [String.toList_ofList] at hc
  exact mem_of_mem_split hp hc

theorem split_of_not_mem {separator : Char} {text : List Char} (h : separator ∉ text) :
    split separator text = [text] := by
  induction text with
  | nil => rfl
  | cons c rest ih =>
    rw [List.mem_cons, not_or] at h
    unfold split
    rw [if_neg (Ne.symm h.1), ih h.2]

theorem words_of_not_mem {separator : Char} {name : String} (h : separator ∉ name.toList)
    (hempty : name ≠ "") : words separator name = [name] := by
  unfold words
  rw [split_of_not_mem h]
  simp [hempty]

theorem split_append_separator {separator : Char} {part : List Char} (rest : List Char)
    (h : separator ∉ part) :
    split separator (part ++ separator :: rest) = part :: split separator rest := by
  induction part with
  | nil => exact if_pos rfl
  | cons c part ih =>
    rw [List.mem_cons, not_or] at h
    rw [List.cons_append, split, if_neg (Ne.symm h.1), ih h.2]

theorem not_mem_of_mem_split {separator : Char} {part text : List Char}
    (hp : part ∈ split separator text) : separator ∉ part := by
  induction text generalizing part with
  | nil =>
    obtain rfl := List.mem_singleton.1 hp
    exact List.not_mem_nil
  | cons c rest ih =>
    unfold split at hp
    split at hp
    · rcases List.mem_cons.1 hp with rfl | hp
      · exact List.not_mem_nil
      · exact ih hp
    · rename_i hc
      split at hp
      · rename_i hnil
        exact absurd hnil (split_ne_nil separator rest)
      · rename_i first parts hs
        rw [hs] at ih
        rcases List.mem_cons.1 hp with rfl | hp
        · rw [List.mem_cons, not_or]
          exact ⟨Ne.symm hc, ih (List.mem_cons_self ..)⟩
        · exact ih (List.mem_cons_of_mem _ hp)

theorem words_cons_separator (separator : Char) (text : List Char) :
    words separator (.ofList (separator :: text)) = words separator (.ofList text) := by
  unfold words
  rw [String.toList_ofList, String.toList_ofList, split, if_pos rfl]
  rfl

theorem words_replicate_append (separator : Char) (n : Nat) (text : List Char) :
    words separator (.ofList (List.replicate n separator ++ text)) =
      words separator (.ofList text) := by
  induction n with
  | zero => rfl
  | succ n ih => rw [List.replicate_succ, List.cons_append, words_cons_separator, ih]

theorem split_append_cons (separator : Char) (front rest : List Char) :
    split separator (front ++ separator :: rest) = split separator front ++ split separator rest := by
  induction front with
  | nil => simp [split]
  | cons c front ih =>
    rw [List.cons_append, split, split, ih]
    split
    · rfl
    · cases hs : split separator front with
      | nil => exact absurd hs (split_ne_nil separator front)
      | cons part parts => rfl

theorem words_append_cons (separator : Char) (front rest : List Char) :
    words separator (.ofList (front ++ separator :: rest)) =
      words separator (.ofList front) ++ words separator (.ofList rest) := by
  unfold words
  rw [String.toList_ofList, String.toList_ofList, String.toList_ofList, split_append_cons,
    List.map_append, List.filter_append]

/-- Parts that have been put together are told apart again. -/
theorem split_intercalate {separator : Char} {parts : List (List Char)} (hne : parts ≠ [])
    (h : ∀ part ∈ parts, separator ∉ part) :
    split separator ([separator].intercalate parts) = parts := by
  induction parts with
  | nil => exact absurd rfl hne
  | cons first parts ih =>
    rw [List.forall_mem_cons] at h
    cases parts with
    | nil => rw [List.intercalate_singleton, split_of_not_mem h.1]
    | cons second parts =>
      rw [List.intercalate_cons_cons, List.append_assoc, List.singleton_append,
        split_append_separator _ h.1, ih (List.cons_ne_nil _ _) h.2]

theorem mem_intercalate {α : Type} {a : α} {separator : List α} {parts : List (List α)}
    (h : a ∈ separator.intercalate parts) : a ∈ separator ∨ ∃ part ∈ parts, a ∈ part := by
  induction parts with
  | nil => cases h
  | cons first parts ih =>
    cases parts with
    | nil =>
      rw [List.intercalate_singleton] at h
      exact .inr ⟨first, List.mem_cons_self .., h⟩
    | cons second parts =>
      rw [List.intercalate_cons_cons, List.append_assoc, List.mem_append, List.mem_append] at h
      rcases h with h | h | h
      · exact .inr ⟨first, List.mem_cons_self .., h⟩
      · exact .inl h
      · rcases ih h with h | ⟨part, hp, h⟩
        · exact .inl h
        · exact .inr ⟨part, List.mem_cons_of_mem _ hp, h⟩

theorem mem_split_of_mem {separator c : Char} {text : List Char} (h : c ∈ text)
    (hne : c ≠ separator) : ∃ part ∈ split separator text, c ∈ part := by
  induction text with
  | nil => cases h
  | cons d rest ih =>
    unfold split
    rcases List.mem_cons.1 h with rfl | h
    · rw [if_neg hne]
      split
      · exact ⟨_, List.mem_cons_self .., List.mem_cons_self ..⟩
      · exact ⟨_, List.mem_cons_self .., List.mem_cons_self ..⟩
    · obtain ⟨part, hp, hc⟩ := ih h
      split
      · exact ⟨part, List.mem_cons_of_mem _ hp, hc⟩
      · split
        · rename_i hnil
          exact absurd hnil (split_ne_nil separator rest)
        · rename_i first parts hs
          rw [hs] at hp
          rcases List.mem_cons.1 hp with rfl | hp
          · exact ⟨_, List.mem_cons_self .., List.mem_cons_of_mem _ hc⟩
          · exact ⟨part, List.mem_cons_of_mem _ hp, hc⟩

theorem mem_words_of_mem {separator c : Char} {text : String} (h : c ∈ text.toList)
    (hne : c ≠ separator) : ∃ word ∈ words separator text, c ∈ word.toList := by
  obtain ⟨part, hp, hc⟩ := mem_split_of_mem h hne
  have hc' : c ∈ (String.ofList part).toList := by rwa [String.toList_ofList]
  refine ⟨.ofList part, List.mem_filter.2 ⟨List.mem_map_of_mem hp, ?_⟩, hc'⟩
  refine decide_eq_true fun he => ?_
  rw [he] at hc'
  cases hc'

theorem mem_intercalate_of_mem {α : Type} {a : α} {separator part : List α} {parts : List (List α)}
    (hp : part ∈ parts) (h : a ∈ part) : a ∈ separator.intercalate parts := by
  induction parts with
  | nil => cases hp
  | cons first parts ih =>
    cases parts with
    | nil =>
      obtain rfl := List.mem_singleton.1 hp
      rwa [List.intercalate_singleton]
    | cons second parts =>
      rw [List.intercalate_cons_cons, List.append_assoc]
      rcases List.mem_cons.1 hp with rfl | hp
      · exact List.mem_append_left _ h
      · exact List.mem_append_right _ (List.mem_append_right _ (ih hp))

end Text

namespace Path

theorem mem_toString_ofString {c : Char} {text : String} (h : c ∈ (ofString text).toString.toList) :
    c = '.' ∨ c = '/' ∨ c ∈ text.toList := by
  unfold toString at h
  split at h
  · exact .inl (by simpa using h)
  rw [String.toList_append, String.toList_ofList, String.toList_intercalate, List.mem_append] at h
  rcases h with h | h
  · exact .inr (.inl (List.eq_of_mem_replicate h))
  rcases Text.mem_intercalate h with h | ⟨part, hp, h⟩
  · exact .inr (.inl (by simpa using h))
  obtain ⟨word, hw, rfl⟩ := List.mem_map.1 hp
  exact .inr (.inr (Text.mem_of_mem_words (List.mem_filter.1 hw).1 h))

theorem null_not_mem_toString {text : String} (h : '\x00' ∉ text.toList) :
    '\x00' ∉ (ofString text).toString.toList := by
  intro hm
  rcases mem_toString_ofString hm with hm | hm | hm
  · exact absurd hm (by decide)
  · exact absurd hm (by decide)
  · exact h hm

/-- Reading a path drops nothing but dots and slashes. -/
theorem mem_toString_of_mem {c : Char} {text : String} (h : c ∈ text.toList) (hdot : c ≠ '.')
    (hslash : c ≠ '/') : c ∈ (ofString text).toString.toList := by
  obtain ⟨word, hw, hc⟩ := Text.mem_words_of_mem h hslash
  have hpart : word ∈ (ofString text).parts := by
    refine List.mem_filter.2 ⟨hw, decide_eq_true fun he => ?_⟩
    rw [he] at hc
    exact hdot (by simpa using hc)
  unfold toString
  split
  · rename_i hnone
    rw [hnone.2] at hpart
    cases hpart
  · rw [String.toList_append, String.toList_intercalate]
    exact List.mem_append_right _ (Text.mem_intercalate_of_mem (List.mem_map_of_mem hpart) hc)

theorem null_mem_toString_iff {text : String} :
    '\x00' ∈ (ofString text).toString.toList ↔ '\x00' ∈ text.toList := by
  refine ⟨fun h => ?_, fun h => mem_toString_of_mem h (by decide) (by decide)⟩
  exact Decidable.not_imp_not.1 null_not_mem_toString h

/-- Besides dots and slashes a path has the characters of its parts. -/
theorem mem_toString_iff {p : Path} {c : Char} (hdot : c ≠ '.') (hslash : c ≠ '/') :
    c ∈ p.toString.toList ↔ ∃ part ∈ p.parts, c ∈ part.toList := by
  unfold toString
  split
  · rename_i hnone
    simp [hnone.2, hdot]
  · rw [String.toList_append, String.toList_ofList, String.toList_intercalate, List.mem_append]
    constructor
    · rintro (h | h)
      · exact absurd (List.eq_of_mem_replicate h) hslash
      · rcases Text.mem_intercalate h with h | ⟨part, hp, h⟩
        · exact absurd (by simpa using h) hslash
        · obtain ⟨word, hw, rfl⟩ := List.mem_map.1 hp
          exact ⟨word, hw, h⟩
    · rintro ⟨part, hp, h⟩
      exact .inr (Text.mem_intercalate_of_mem (List.mem_map_of_mem hp) h)

theorem mem_toString_child_iff {p : Path} {name : String} {c : Char} (hdot : c ≠ '.')
    (hslash : c ≠ '/') :
    c ∈ (p.child name).toString.toList ↔ c ∈ p.toString.toList ∨ c ∈ name.toList := by
  rw [mem_toString_iff hdot hslash, mem_toString_iff hdot hslash]
  simp [child, or_and_right, exists_or]

/-! ## Single names -/

theorem takeWhile_slash {text : List Char} (h : '/' ∉ text) : text.takeWhile (· = '/') = [] := by
  cases text with
  | nil => rfl
  | cons c rest =>
    rw [List.mem_cons, not_or] at h
    simp [Ne.symm h.1]

theorem ofString_name {name : String} (hslash : '/' ∉ name.toList) (hempty : name ≠ "")
    (hdot : name ≠ ".") : ofString name = ⟨0, [name]⟩ := by
  unfold ofString
  rw [takeWhile_slash hslash, Text.words_of_not_mem hslash hempty]
  simp [hdot]

/-- A name behind a path, and behind a slash if the path does not end in one, is an entry of the
path. -/
theorem ofString_append {front sep : List Char} {name : String} (hslash : '/' ∉ name.toList)
    (hempty : name ≠ "") (hdot : name ≠ ".") (hfront : front ≠ [])
    (hsep : sep = if front.getLast? = some '/' then [] else ['/']) :
    ofString (.ofList (front ++ sep ++ name.toList)) = (ofString (.ofList front)).child name := by
  have hname : Text.words '/' (.ofList name.toList) = [name] := by
    rw [String.ofList_toList, Text.words_of_not_mem hslash hempty]
  have hwords : Text.words '/' (.ofList (front ++ sep ++ name.toList)) =
      Text.words '/' (.ofList front) ++ [name] := by
    split at hsep <;> subst hsep
    · rename_i hlast
      obtain ⟨body, rfl⟩ := List.getLast?_eq_some_iff.1 hlast
      rw [List.append_nil, List.append_assoc, List.singleton_append, Text.words_append_cons,
        Text.words_append_cons, hname]
      simp [Text.words, Text.split]
    · rw [List.append_assoc, List.singleton_append, Text.words_append_cons, hname]
  have hslashes : (front ++ sep ++ name.toList).takeWhile (· = '/') = front.takeWhile (· = '/') := by
    rw [List.append_assoc, List.takeWhile_append]
    split
    · -- a text of slashes only ends in one
      rename_i hlength
      have hself := (List.takeWhile_prefix _).eq_of_length hlength
      have hall := List.all_eq_true.1 (hself ▸ List.all_takeWhile)
      rw [List.getLast?_eq_some_getLast hfront,
        of_decide_eq_true (hall _ (List.getLast_mem hfront)), if_pos rfl] at hsep
      rw [hsep, List.nil_append, takeWhile_slash hslash, List.append_nil, hself]
    · rfl
  unfold ofString child
  rw [String.toList_ofList, String.toList_ofList, hwords, hslashes, List.filter_append]
  simp [hdot]

theorem toString_name (name : String) : (⟨0, [name]⟩ : Path).toString = name := by
  unfold toString
  rw [if_neg (by simp), ← String.toList_inj, String.toList_append, String.toList_intercalate]
  simp

/-! ## Texts of paths -/

/-- A path in its plain form. -/
structure IsPlain (p : Path) : Prop where
  slashes : p.slashes ≤ 2
  parts : ∀ part ∈ p.parts, part ≠ "" ∧ part ≠ "." ∧ '/' ∉ part.toList

theorem isPlain_ofString (text : String) : (ofString text).IsPlain where
  slashes := by
    unfold ofString
    dsimp only
    split <;> omega
  parts := by
    intro part hp
    obtain ⟨hw, hdot⟩ := List.mem_filter.1 hp
    obtain ⟨hm, hempty⟩ := List.mem_filter.1 hw
    obtain ⟨chars, hc, rfl⟩ := List.mem_map.1 hm
    refine ⟨of_decide_eq_true hempty, of_decide_eq_true hdot, ?_⟩
    rw [String.toList_ofList]
    exact Text.not_mem_of_mem_split hc

theorem IsPlain.words_intercalate {p : Path} (h : p.IsPlain) (hne : p.parts ≠ []) :
    Text.words '/' ("/".intercalate p.parts) = p.parts := by
  have hslash : ∀ part ∈ p.parts.map String.toList, '/' ∉ part := by
    rw [List.forall_mem_map]
    exact fun part hp => (h.parts part hp).2.2
  have hsplit := Text.split_intercalate (mt List.map_eq_nil_iff.1 hne) hslash
  have hchars : "/".toList = ['/'] := rfl
  have hback : p.parts.map (String.ofList ∘ String.toList) = p.parts := by
    simp [Function.comp_def]
  unfold Text.words
  rw [String.toList_intercalate, hchars, hsplit, List.map_map, hback, List.filter_eq_self]
  exact fun part hp => decide_eq_true (h.parts part hp).1

theorem IsPlain.head_ne_slash {p : Path} (h : p.IsPlain) (hne : p.parts ≠ []) :
    ∃ c rest, ("/".intercalate p.parts).toList = c :: rest ∧ c ≠ '/' := by
  obtain ⟨first, parts, hparts⟩ := List.exists_cons_of_ne_nil hne
  obtain ⟨hempty, -, hslash⟩ := h.parts first (hparts ▸ List.mem_cons_self ..)
  obtain ⟨c, chars, hfirst⟩ := List.exists_cons_of_ne_nil (mt String.toList_eq_nil_iff.1 hempty)
  have hc : c ≠ '/' := by
    rintro rfl
    exact hslash (hfirst ▸ List.mem_cons_self ..)
  rw [hparts, String.toList_intercalate, List.map_cons, hfirst]
  cases parts with
  | nil => exact ⟨c, _, rfl, hc⟩
  | cons second parts => exact ⟨c, _, rfl, hc⟩

/-- The text of a plain path gives the path back. -/
theorem IsPlain.ofString_toString {p : Path} (h : p.IsPlain) : ofString p.toString = p := by
  obtain ⟨slashes, parts⟩ := p
  have hcases : slashes = 0 ∨ slashes = 1 ∨ slashes = 2 := by
    have hle : slashes ≤ 2 := h.slashes
    omega
  by_cases hne : parts = []
  · subst hne
    rcases hcases with rfl | rfl | rfl <;> decide
  · have htext : (⟨slashes, parts⟩ : Path).toString =
        .ofList (List.replicate slashes '/' ++ ("/".intercalate parts).toList) := by
      rw [String.ofList_append, String.ofList_toList]
      exact if_neg fun hnone => hne hnone.2
    have hwords : Text.words '/' (⟨slashes, parts⟩ : Path).toString = parts := by
      rw [htext, Text.words_replicate_append, String.ofList_toList, h.words_intercalate hne]
    have hfront : (⟨slashes, parts⟩ : Path).toString.toList.takeWhile (· = '/') =
        List.replicate slashes '/' := by
      obtain ⟨c, rest, hbody, hc⟩ := h.head_ne_slash hne
      rw [htext, String.toList_ofList, hbody, List.takeWhile_append_of_pos]
      · simp [hc]
      · intro a ha
        exact decide_eq_true (List.eq_of_mem_replicate ha)
    have hdots : parts.filter (· ≠ ".") = parts := by
      rw [List.filter_eq_self]
      exact fun part hp => decide_eq_true (h.parts part hp).2.1
    unfold ofString
    rw [hfront, hwords, hdots, List.length_replicate]
    rcases hcases with rfl | rfl | rfl <;> rfl

theorem isPlain_child {p : Path} {name : String} (h : p.IsPlain) (hempty : name ≠ "")
    (hdot : name ≠ ".") (hslash : '/' ∉ name.toList) : (p.child name).IsPlain where
  slashes := h.slashes
  parts := by
    intro part hp
    rcases List.mem_append.1 hp with hp | hp
    · exact h.parts part hp
    · obtain rfl := List.mem_singleton.1 hp
      exact ⟨hempty, hdot, hslash⟩

/-- The text of an entry's path ends in the name of the entry, behind a slash if behind anything. -/
theorem exists_toString_child (p : Path) (name : String) :
    ∃ front : List Char, (p.child name).toString.toList = front ++ name.toList ∧
      (front = [] ∨ front.getLast? = some '/') := by
  have htext : (p.child name).toString =
      .ofList (List.replicate p.slashes '/') ++ "/".intercalate (p.parts ++ [name]) :=
    if_neg fun hnone => List.append_ne_nil_of_right_ne_nil _ (List.cons_ne_nil _ _) hnone.2
  rw [htext, String.toList_append, String.toList_ofList]
  cases hparts : p.parts with
  | nil =>
    refine ⟨List.replicate p.slashes '/', by rw [List.nil_append, String.intercalate_singleton], ?_⟩
    cases p.slashes with
    | zero => exact .inl rfl
    | succ n => exact .inr (by rw [List.getLast?_replicate, if_neg (Nat.succ_ne_zero n)])
  | cons part parts =>
    rw [String.intercalate_append_of_ne_nil (List.cons_ne_nil _ _) (List.cons_ne_nil _ _),
      String.intercalate_singleton, String.toList_append, String.toList_append, ← List.append_assoc,
      ← List.append_assoc]
    exact ⟨_, rfl, .inr List.getLast?_concat⟩

end Path

end BuildOrder
