/-
The grammar of JSON texts, written down by the value that a text denotes. It relates the characters
ahead to those that are left behind a value, and knows nothing of how values are printed here: any
blanks and any way to escape a character are fine. Numbers are integers in decimal digits.

A text denotes at most one value, since the first character that is not blank tells what kind of
value it is. The text that is printed for a value denotes it, and so no other.
-/
import BuildOrder.Json
import Mathlib.Data.List.DropRight

namespace BuildOrder.Json

/-! ## Grammar -/

/-- The characters behind the blanks. -/
def skip (cs : List Char) : List Char := cs.dropWhile (· ∈ [' ', '\t', '\n', '\r'])

/-- Behind blanks the word is ahead. -/
def Word (word cs rest : List Char) : Prop := skip cs = word ++ rest

/-- The value of a hexadecimal digit. -/
def hexValue? (c : Char) : Option Nat := "0123456789abcdef".toList.idxOf? c.toLower

/-- A sixteen-bit unit in four hexadecimal digits, with what is left. -/
def unit? : List Char → Option (Nat × List Char)
  | a :: b :: c :: d :: rest => do
    let a ← hexValue? a
    let b ← hexValue? b
    let c ← hexValue? c
    let d ← hexValue? d
    return (0x1000 * a + 0x100 * b + 0x10 * c + d, rest)
  | _ => none

/-- The letters of short escapes, with the characters that they stand for. -/
def escapes : List (Char × Char) :=
  [('"', '"'), ('\\', '\\'), ('/', '/'), ('b', '\x08'), ('f', '\x0c'), ('n', '\n'), ('r', '\r'),
    ('t', '\t')]

/-- One character of a string, as it may be written. -/
inductive Spelled (c : Char) : List Char → List Char → Prop
  | plain {rest : List Char} (printable : 0x20 ≤ c.toNat) (quote : c ≠ '"') (escape : c ≠ '\\') :
      Spelled c (c :: rest) rest
  | short {letter : Char} {rest : List Char} (h : (letter, c) ∈ escapes) :
      Spelled c ('\\' :: letter :: rest) rest
  | unit {cs rest : List Char} (h : unit? cs = some (c.toNat, rest)) :
      Spelled c ('\\' :: 'u' :: cs) rest
  | pair {high low : Nat} {cs cs' rest : List Char}
      (first : unit? cs = some (0xD800 + high, '\\' :: 'u' :: cs')) (high_lt : high < 0x400)
      (second : unit? cs' = some (0xDC00 + low, rest)) (low_lt : low < 0x400)
      (value : c.toNat = 0x10000 + 0x400 * high + low) : Spelled c ('\\' :: 'u' :: cs) rest

/-- The characters of a string, up to the quote that ends it. -/
def Chars : List Char → List Char → List Char → Prop
  | [], cs, rest => cs = '"' :: rest
  | c :: text, cs, rest => ∃ cs', Spelled c cs cs' ∧ Chars text cs' rest

/-- A string in quotes. -/
def Quoted (text : String) (cs rest : List Char) : Prop :=
  ∃ cs', Word ['"'] cs cs' ∧ Chars text.toList cs' rest

mutual

/-- Behind blanks a text of the value is ahead. -/
def Ahead : Json → List Char → List Char → Prop
  | .null, cs, rest => Word "null".toList cs rest
  | .bool true, cs, rest => Word "true".toList cs rest
  | .bool false, cs, rest => Word "false".toList cs rest
  | .number value, cs, rest =>
    Word (toString value).toList cs rest ∧ ∀ c ∈ rest.head?, c.isDigit = false
  | .string text, cs, rest => Quoted text cs rest
  | .array items, cs, rest => ∃ cs', Word ['['] cs cs' ∧ Items [] items cs' rest
  | .object members, cs, rest => ∃ cs', Word ['\x7b'] cs cs' ∧ Members [] members cs' rest

/-- The items of an array up to the bracket that ends it: `separator` stands in front of the first
one, a comma in front of each of the others. -/
def Items (separator : List Char) : List Json → List Char → List Char → Prop
  | [], cs, rest => Word [']'] cs rest
  | item :: items, cs, rest => ∃ cs₁ cs₂,
    Word separator cs cs₁ ∧ Ahead item cs₁ cs₂ ∧ Items [','] items cs₂ rest

/-- The members of an object up to the brace that ends it. -/
def Members (separator : List Char) : List (String × Json) → List Char → List Char → Prop
  | [], cs, rest => Word ['\x7d'] cs rest
  | (key, value) :: members, cs, rest => ∃ cs₁ cs₂ cs₃ cs₄,
    Word separator cs cs₁ ∧ Quoted key cs₁ cs₂ ∧ Word [':'] cs₂ cs₃ ∧ Ahead value cs₃ cs₄ ∧
      Members [','] members cs₄ rest

end

/-- The text is a JSON text of the value. -/
def Denotes (text : String) (value : Json) : Prop :=
  ∃ rest, Ahead value text.toList rest ∧ skip rest = []

/-! ## Blanks and words -/

theorem skip_skip (cs : List Char) : skip (skip cs) = skip cs :=
  List.dropWhile_idempotent _ _

theorem skip_append {gap : List Char} (h : ∀ c ∈ gap, c ∈ [' ', '\t', '\n', '\r'])
    (cs : List Char) : skip (gap ++ cs) = skip cs :=
  List.dropWhile_append_of_pos fun c hc => decide_eq_true (h c hc)

theorem Word.unique {word cs rest rest' : List Char} (h : Word word cs rest)
    (h' : Word word cs rest') : rest = rest' :=
  List.append_cancel_left (h.symm.trans h')

/-- Two words that begin differently are not both ahead. -/
theorem Word.head_eq {c c' : Char} {word word' cs rest rest' : List Char}
    (h : Word (c :: word) cs rest) (h' : Word (c' :: word') cs rest') : c = c' :=
  List.head_eq_of_cons_eq (h.symm.trans h')

/-! ## A text denotes one value -/

theorem Spelled.unique {c c' : Char} {cs rest rest' : List Char} (h : Spelled c cs rest)
    (h' : Spelled c' cs rest') : c = c' ∧ rest = rest' := by
  have hletter : ∀ p ∈ escapes, p.1 ≠ 'u' ∧ ∀ q ∈ escapes, p.1 = q.1 → p.2 = q.2 := by decide
  -- a character is no surrogate
  have hchar : ∀ {c : Char} {high : Nat}, high < 0x400 → c.toNat ≠ 0xD800 + high := by
    intro c high hlt heq
    have hvalid : c.toNat.isValidChar := c.valid
    unfold Nat.isValidChar at hvalid
    omega
  cases h with
  | plain _ _ escape =>
    cases h' with
    | plain => exact ⟨rfl, rfl⟩
    | short => exact absurd rfl escape
    | unit => exact absurd rfl escape
    | pair => exact absurd rfl escape
  | short h =>
    cases h' with
    | plain _ _ escape => exact absurd rfl escape
    | short h' => exact ⟨(hletter _ h).2 _ h' rfl, rfl⟩
    | unit => exact absurd rfl (hletter _ h).1
    | pair => exact absurd rfl (hletter _ h).1
  | unit h =>
    cases h' with
    | plain _ _ escape => exact absurd rfl escape
    | short h' => exact absurd rfl (hletter _ h').1
    | unit h' =>
      obtain ⟨hc, hrest⟩ := Prod.mk.inj (Option.some.inj (h.symm.trans h'))
      exact ⟨Char.toNat_inj.1 hc, hrest⟩
    | pair first high_lt =>
      exact absurd (Prod.mk.inj (Option.some.inj (h.symm.trans first))).1 (hchar high_lt)
  | pair first high_lt second low_lt value =>
    cases h' with
    | plain _ _ escape => exact absurd rfl escape
    | short h' => exact absurd rfl (hletter _ h').1
    | unit h' =>
      exact absurd (Prod.mk.inj (Option.some.inj (h'.symm.trans first))).1 (hchar high_lt)
    | pair first' _ second' _ value' =>
      obtain ⟨hhigh, hcs⟩ := Prod.mk.inj (Option.some.inj (first.symm.trans first'))
      obtain rfl := (List.cons.inj (List.cons.inj hcs).2).2
      obtain ⟨hlow, hrest⟩ := Prod.mk.inj (Option.some.inj (second.symm.trans second'))
      exact ⟨Char.toNat_inj.1 (by omega), hrest⟩

/-- No character of a string is the quote that ends it. -/
theorem Spelled.ne_quote {c : Char} {cs rest : List Char} (h : Spelled c ('"' :: cs) rest) :
    False := by
  cases h with
  | plain _ quote _ => exact quote rfl

theorem Chars.unique {text text' cs rest rest' : List Char} (h : Chars text cs rest)
    (h' : Chars text' cs rest') : text = text' ∧ rest = rest' := by
  induction text generalizing text' cs with
  | nil =>
    obtain rfl : cs = '"' :: rest := h
    cases text' with
    | nil => exact ⟨rfl, (List.cons.inj h').2⟩
    | cons c text' =>
      obtain ⟨_, hc, _⟩ := h'
      exact hc.ne_quote.elim
  | cons c text ih =>
    obtain ⟨cs₁, hc, htext⟩ := h
    cases text' with
    | nil =>
      obtain rfl : cs = '"' :: rest' := h'
      exact hc.ne_quote.elim
    | cons c' text' =>
      obtain ⟨cs₁', hc', htext'⟩ := h'
      obtain ⟨rfl, rfl⟩ := hc.unique hc'
      obtain ⟨rfl, hrest⟩ := ih htext htext'
      exact ⟨rfl, hrest⟩

theorem Quoted.unique {text text' : String} {cs rest rest' : List Char} (h : Quoted text cs rest)
    (h' : Quoted text' cs rest') : text = text' ∧ rest = rest' := by
  obtain ⟨_, hquote, htext⟩ := h
  obtain ⟨_, hquote', htext'⟩ := h'
  obtain rfl := hquote.unique hquote'
  obtain ⟨heq, hrest⟩ := htext.unique htext'
  exact ⟨String.toList_inj.1 heq, hrest⟩

/-! ### Numbers -/

/-- The digits of a number end where no digit follows. -/
theorem takeWhile_toDigits (n : Nat) {rest : List Char} (h : ∀ c ∈ rest.head?, c.isDigit = false) :
    (Nat.toDigits 10 n ++ rest).takeWhile Char.isDigit = Nat.toDigits 10 n := by
  have hdigits : ∀ c ∈ Nat.toDigits 10 n, c.isDigit = true := fun c hc =>
    Nat.isDigit_of_mem_toDigits (by decide) (by decide) hc
  rw [List.takeWhile_append_of_pos hdigits]
  cases rest with
  | nil => rw [List.takeWhile_nil, List.append_nil]
  | cons c rest =>
    rw [List.takeWhile_cons_of_neg (by rw [h c rfl]; exact Bool.false_ne_true), List.append_nil]

theorem toDigits_append_unique {n n' : Nat} {rest rest' : List Char}
    (heq : Nat.toDigits 10 n ++ rest = Nat.toDigits 10 n' ++ rest')
    (h : ∀ c ∈ rest.head?, c.isDigit = false) (h' : ∀ c ∈ rest'.head?, c.isDigit = false) :
    n = n' ∧ rest = rest' := by
  have hdigits : Nat.toDigits 10 n = Nat.toDigits 10 n' := by
    rw [← takeWhile_toDigits n h, heq, takeWhile_toDigits n' h']
  refine ⟨?_, List.append_cancel_left (hdigits ▸ heq)⟩
  calc
    n = Nat.ofDigitChars 10 (Nat.toDigits 10 n) 0 := Nat.ofDigitChars_ten_toDigits.symm
    _ = Nat.ofDigitChars 10 (Nat.toDigits 10 n') 0 := by rw [hdigits]
    _ = n' := Nat.ofDigitChars_ten_toDigits

theorem exists_cons_toDigits (n : Nat) :
    ∃ c cs, Nat.toDigits 10 n = c :: cs ∧ c.isDigit = true := by
  cases hcs : Nat.toDigits 10 n with
  | nil => exact absurd hcs Nat.toDigits_ne_nil
  | cons c cs =>
    have hc : c ∈ Nat.toDigits 10 n := by
      rw [hcs]
      exact List.mem_cons_self
    exact ⟨c, cs, rfl, Nat.isDigit_of_mem_toDigits (by decide) (by decide) hc⟩

theorem toList_toString_ofNat (n : Nat) : (toString (Int.ofNat n)).toList = Nat.toDigits 10 n :=
  Nat.toList_repr

theorem toList_toString_negSucc (n : Nat) :
    (toString (Int.negSucc n)).toList = '-' :: Nat.toDigits 10 (n + 1) := by
  show ("-" ++ (n + 1).repr).toList = _
  rw [String.toList_append, Nat.toList_repr]
  rfl

theorem toString_append_unique {n n' : Int} {rest rest' : List Char}
    (heq : (toString n).toList ++ rest = (toString n').toList ++ rest')
    (h : ∀ c ∈ rest.head?, c.isDigit = false) (h' : ∀ c ∈ rest'.head?, c.isDigit = false) :
    n = n' ∧ rest = rest' := by
  -- a sign is no digit
  have hsign : ∀ (m : Nat) (cs cs' : List Char), Nat.toDigits 10 m ++ cs ≠ '-' :: cs' := by
    intro m cs cs' hcs
    obtain ⟨c, digits, hdigits, hc⟩ := exists_cons_toDigits m
    rw [hdigits, List.cons_append] at hcs
    rw [List.head_eq_of_cons_eq hcs] at hc
    exact absurd hc (by decide)
  cases n with
  | ofNat m =>
    rw [toList_toString_ofNat] at heq
    cases n' with
    | ofNat m' =>
      rw [toList_toString_ofNat] at heq
      obtain ⟨rfl, hrest⟩ := toDigits_append_unique heq h h'
      exact ⟨rfl, hrest⟩
    | negSucc m' =>
      rw [toList_toString_negSucc, List.cons_append] at heq
      exact absurd heq (hsign _ _ _)
  | negSucc m =>
    rw [toList_toString_negSucc, List.cons_append] at heq
    cases n' with
    | ofNat m' =>
      rw [toList_toString_ofNat] at heq
      exact absurd heq.symm (hsign _ _ _)
    | negSucc m' =>
      rw [toList_toString_negSucc, List.cons_append] at heq
      obtain ⟨hm, hrest⟩ := toDigits_append_unique (List.cons.inj heq).2 h h'
      exact ⟨by rw [Nat.succ.inj hm], hrest⟩

/-! ### Values -/

/-- The character that begins a text of a value; one stands for the two truth values, and one for
all numbers. -/
def initial : Json → Char
  | .null => 'n'
  | .bool _ => 't'
  | .number _ => '0'
  | .string _ => '"'
  | .array _ => '['
  | .object _ => '\x7b'

/-- What a character begins, told by the initial of a value. -/
def initialOf (c : Char) : Char :=
  if c.isDigit ∨ c = '-' then '0' else if c = 'f' then 't' else c

theorem Word.initialOf_head {c : Char} {word cs rest : List Char} (h : Word (c :: word) cs rest) :
    (skip cs).head?.map initialOf = some (initialOf c) := by
  unfold Word at h
  rw [h]
  rfl

theorem Ahead.initialOf_head {v : Json} {cs rest : List Char} (h : Ahead v cs rest) :
    (skip cs).head?.map initialOf = some v.initial := by
  cases v with
  | null => exact Word.initialOf_head h
  | bool b =>
    cases b with
    | true => exact Word.initialOf_head h
    | false => exact Word.initialOf_head h
  | number n =>
    have hword := h.1
    cases n with
    | ofNat m =>
      obtain ⟨c, digits, hdigits, hc⟩ := exists_cons_toDigits m
      rw [toList_toString_ofNat, hdigits] at hword
      rw [hword.initialOf_head]
      unfold initialOf
      rw [if_pos (.inl hc)]
      rfl
    | negSucc m =>
      rw [toList_toString_negSucc] at hword
      exact hword.initialOf_head
  | string text =>
    obtain ⟨_, hquote, _⟩ := h
    exact hquote.initialOf_head
  | array items =>
    obtain ⟨_, hopening, _⟩ := h
    exact hopening.initialOf_head
  | object members =>
    obtain ⟨_, hopening, _⟩ := h
    exact hopening.initialOf_head

theorem Ahead.initial_eq {v v' : Json} {cs rest rest' : List Char} (h : Ahead v cs rest)
    (h' : Ahead v' cs rest') : v.initial = v'.initial :=
  Option.some.inj (h.initialOf_head.symm.trans h'.initialOf_head)

/-- Where an array or an object ends no item follows, neither behind a comma nor without. -/
theorem Ahead.not_closing {v : Json} {separator cs cs' rest rest' : List Char} {c : Char}
    (hseparator : separator ∈ [[], [',']]) (hc : c ∈ [']', '\x7d']) (h : Word [c] cs rest)
    (hword : Word separator cs cs') : ¬ Ahead v cs' rest' := by
  intro hv
  have hcomma : ∀ c ∈ [']', '\x7d'], c ≠ ',' := by simp
  have hclosing : ∀ c ∈ [']', '\x7d'], initialOf c ∉ ['n', 't', '0', '"', '[', '\x7b'] := by
    simp [initialOf]
  obtain rfl | rfl : separator = [] ∨ separator = [','] := by simpa using hseparator
  · obtain rfl : skip cs = cs' := hword
    have hinitial := hv.initialOf_head
    rw [skip_skip, h.initialOf_head] at hinitial
    refine hclosing c hc ?_
    rw [Option.some.inj hinitial]
    cases v <;> simp [initial]
  · exact hcomma c hc (h.head_eq hword)

mutual

theorem Ahead.unique : ∀ {v v' : Json} {cs rest rest' : List Char}, Ahead v cs rest →
    Ahead v' cs rest' → v = v' ∧ rest = rest'
  | .null, v', _, _, _, h, h' => by
    have hinitial := h.initial_eq h'
    cases v' with
    | null => exact ⟨rfl, Word.unique h h'⟩
    | _ => simp [initial] at hinitial
  | .bool b, v', _, _, _, h, h' => by
    have hinitial := h.initial_eq h'
    cases v' with
    | bool b' =>
      cases b with
      | true =>
        cases b' with
        | true => exact ⟨rfl, Word.unique h h'⟩
        | false => exact absurd (Word.head_eq h h') (by decide)
      | false =>
        cases b' with
        | true => exact absurd (Word.head_eq h h') (by decide)
        | false => exact ⟨rfl, Word.unique h h'⟩
    | _ => simp [initial] at hinitial
  | .number n, v', _, _, _, h, h' => by
    have hinitial := h.initial_eq h'
    cases v' with
    | number n' =>
      obtain ⟨rfl, hrest⟩ := toString_append_unique (h.1.symm.trans h'.1) h.2 h'.2
      exact ⟨rfl, hrest⟩
    | _ => simp [initial] at hinitial
  | .string text, v', _, _, _, h, h' => by
    have hinitial := h.initial_eq h'
    cases v' with
    | string text' =>
      obtain ⟨rfl, hrest⟩ := Quoted.unique h h'
      exact ⟨rfl, hrest⟩
    | _ => simp [initial] at hinitial
  | .array items, v', _, _, _, h, h' => by
    have hinitial := h.initial_eq h'
    cases v' with
    | array items' =>
      obtain ⟨_, hopening, hitems⟩ := h
      obtain ⟨_, hopening', hitems'⟩ := h'
      obtain rfl := hopening.unique hopening'
      obtain ⟨rfl, hrest⟩ := Items.unique (by decide) hitems hitems'
      exact ⟨rfl, hrest⟩
    | _ => simp [initial] at hinitial
  | .object members, v', _, _, _, h, h' => by
    have hinitial := h.initial_eq h'
    cases v' with
    | object members' =>
      obtain ⟨_, hopening, hmembers⟩ := h
      obtain ⟨_, hopening', hmembers'⟩ := h'
      obtain rfl := hopening.unique hopening'
      obtain ⟨rfl, hrest⟩ := Members.unique (by decide) hmembers hmembers'
      exact ⟨rfl, hrest⟩
    | _ => simp [initial] at hinitial

theorem Items.unique : ∀ {items items' : List Json} {separator cs rest rest' : List Char},
    separator ∈ [[], [',']] → Items separator items cs rest → Items separator items' cs rest' →
    items = items' ∧ rest = rest'
  | [], [], _, _, _, _, _, h, h' => ⟨rfl, Word.unique h h'⟩
  | [], _ :: _, _, _, _, _, hseparator, h, ⟨_, _, hword, hitem, _⟩ =>
    absurd hitem (Ahead.not_closing hseparator (by decide) h hword)
  | _ :: _, [], _, _, _, _, hseparator, ⟨_, _, hword, hitem, _⟩, h' =>
    absurd hitem (Ahead.not_closing hseparator (by decide) h' hword)
  | _ :: _, _ :: _, _, _, _, _, _, ⟨_, _, hword, hitem, hitems⟩,
      ⟨_, _, hword', hitem', hitems'⟩ => by
    obtain rfl := hword.unique hword'
    obtain ⟨rfl, rfl⟩ := Ahead.unique hitem hitem'
    obtain ⟨rfl, hrest⟩ := Items.unique (by decide) hitems hitems'
    exact ⟨rfl, hrest⟩

theorem Members.unique : ∀ {members members' : List (String × Json)}
    {separator cs rest rest' : List Char}, separator ∈ [[], [',']] →
    Members separator members cs rest → Members separator members' cs rest' →
    members = members' ∧ rest = rest'
  | [], [], _, _, _, _, _, h, h' => ⟨rfl, Word.unique h h'⟩
  | [], (key, _) :: _, _, _, _, _, hseparator, h, ⟨_, _, _, _, hword, hkey, _⟩ =>
    absurd hkey (Ahead.not_closing (v := .string key) hseparator (by decide) h hword)
  | (key, _) :: _, [], _, _, _, _, hseparator, ⟨_, _, _, _, hword, hkey, _⟩, h' =>
    absurd hkey (Ahead.not_closing (v := .string key) hseparator (by decide) h' hword)
  | (_, _) :: _, (_, _) :: _, _, _, _, _, _, ⟨_, _, _, _, hword, hkey, hcolon, hvalue, hmembers⟩,
      ⟨_, _, _, _, hword', hkey', hcolon', hvalue', hmembers'⟩ => by
    obtain rfl := hword.unique hword'
    obtain ⟨rfl, rfl⟩ := hkey.unique hkey'
    obtain rfl := hcolon.unique hcolon'
    obtain ⟨rfl, rfl⟩ := Ahead.unique hvalue hvalue'
    obtain ⟨rfl, hrest⟩ := Members.unique (by decide) hmembers hmembers'
    exact ⟨rfl, hrest⟩

end

/-- A text denotes at most one value. -/
theorem Denotes.unique {text : String} {v v' : Json} (h : Denotes text v) (h' : Denotes text v') :
    v = v' := by
  obtain ⟨_, hv, _⟩ := h
  obtain ⟨_, hv', _⟩ := h'
  exact (hv.unique hv').1

/-! ## Printed strings -/

theorem toList_hex_succ {width n : Nat} (hwidth : 0 < width) :
    (Text.hex (width + 1) n).toList =
      (Text.hex width (n / 16)).toList ++ [(n % 16).digitChar] := by
  unfold Text.hex
  rw [String.toList_ofList, String.toList_ofList]
  by_cases hn : n < 16
  · obtain ⟨width, rfl⟩ := Nat.exists_eq_add_of_le' hwidth
    rw [Nat.div_eq_of_lt hn, Nat.mod_eq_of_lt hn, Nat.toDigits_of_lt_base hn,
      Nat.toDigits_of_lt_base (by decide)]
    exact congrArg (· ++ [n.digitChar]) List.replicate_succ'
  · rw [Nat.toDigits_of_base_le (by decide) (Nat.not_lt.1 hn), List.length_append,
      List.length_singleton, Nat.add_sub_add_right, List.append_assoc]

theorem toList_hex_one {n : Nat} (h : n < 16) : (Text.hex 1 n).toList = [n.digitChar] := by
  unfold Text.hex
  rw [String.toList_ofList, Nat.toDigits_of_lt_base h]
  rfl

theorem hexValue?_digitChar {d : Nat} (h : d < 16) : hexValue? d.digitChar = some d := by
  have hall : ∀ d < 16, hexValue? d.digitChar = some d := by decide
  exact hall d h

/-- The four digits of a unit are read back. -/
theorem unit?_hex {n : Nat} (h : n < 0x10000) (rest : List Char) :
    unit? ((Text.hex 4 n).toList ++ rest) = some (n, rest) := by
  have hmod : ∀ m, m % 16 < 16 := fun m => Nat.mod_lt m (by decide)
  have hn : 0x1000 * (n / 16 / 16 / 16) + 0x100 * (n / 16 / 16 % 16) + 0x10 * (n / 16 % 16) +
      n % 16 = n := by omega
  rw [toList_hex_succ (by decide), toList_hex_succ (by decide), toList_hex_succ (by decide),
    toList_hex_one (by omega)]
  simp only [List.cons_append, List.nil_append, unit?, hexValue?_digitChar (hmod _),
    hexValue?_digitChar (show n / 16 / 16 / 16 < 16 by omega), Option.bind_eq_bind,
    Option.bind_some, hn, Option.pure_def]

theorem toList_escapeUnit (n : Nat) :
    (escapeUnit n).toList = '\\' :: 'u' :: (Text.hex 4 n).toList := by
  unfold escapeUnit
  rw [String.toList_append]
  rfl

theorem spelled_escapeChar (c : Char) (rest : List Char) :
    Spelled c ((escapeChar c).toList ++ rest) rest := by
  have hvalid : c.toNat.isValidChar := c.valid
  unfold Nat.isValidChar at hvalid
  unfold escapeChar
  split
  all_goals try exact .short (by decide)
  rename_i hquote hescape _ _ _ _ _
  split
  · rename_i hprintable
    rw [String.toList_singleton]
    exact .plain hprintable.1 hquote hescape
  · split
    · rename_i hunit
      rw [toList_escapeUnit]
      exact .unit (unit?_hex (by omega) rest)
    · rename_i hunit
      obtain ⟨n, hn⟩ : ∃ n, c.toNat = 0x10000 + n := Nat.exists_eq_add_of_le (by omega)
      have hfirst : 0xD800 + n / 0x400 < 0x10000 := by omega
      have hsecond : 0xDC00 + n % 0x400 < 0x10000 := by omega
      rw [hn, Nat.add_sub_cancel_left]
      dsimp only
      rw [String.toList_append, toList_escapeUnit, toList_escapeUnit, List.append_assoc]
      exact .pair (unit?_hex hfirst _) (by omega) (unit?_hex hsecond rest) (by omega) (by omega)

theorem chars_map_escapeChar (text rest : List Char) :
    Chars text ((text.map escapeChar).flatMap String.toList ++ '"' :: rest) rest := by
  induction text with
  | nil => rfl
  | cons c text ih =>
    refine ⟨_, ?_, ih⟩
    rw [List.map_cons, List.flatMap_cons, List.append_assoc]
    exact spelled_escapeChar c _

theorem quoted_quote (text : String) (rest : List Char) :
    Quoted text ((quote text).toList ++ rest) rest := by
  refine ⟨_, ?_, chars_map_escapeChar text.toList rest⟩
  unfold quote
  rw [String.toList_append, String.toList_append, String.toList_join, List.append_assoc,
    List.append_assoc]
  rfl

/-! ## Printed values -/

theorem Word.of_skip {word cs cs' rest : List Char} (heq : skip cs = skip cs')
    (h : Word word cs rest) : Word word cs' rest :=
  heq.symm.trans h

/-- What is ahead is so behind other blanks as well. -/
theorem Ahead.of_skip {v : Json} {cs cs' rest : List Char} (heq : skip cs = skip cs')
    (h : Ahead v cs rest) : Ahead v cs' rest := by
  cases v with
  | null => exact Word.of_skip heq h
  | bool b =>
    cases b with
    | true => exact Word.of_skip heq h
    | false => exact Word.of_skip heq h
  | number n => exact ⟨h.1.of_skip heq, h.2⟩
  | string text =>
    obtain ⟨cs₁, hquote, htext⟩ := h
    exact ⟨cs₁, hquote.of_skip heq, htext⟩
  | array items =>
    obtain ⟨cs₁, hopening, hitems⟩ := h
    exact ⟨cs₁, hopening.of_skip heq, hitems⟩
  | object members =>
    obtain ⟨cs₁, hopening, hmembers⟩ := h
    exact ⟨cs₁, hopening.of_skip heq, hmembers⟩

theorem skip_space (cs : List Char) : skip (' ' :: cs) = skip cs := rfl

theorem skip_newLine (depth : Nat) (cs : List Char) :
    skip ((newLine depth).toList ++ cs) = skip cs := by
  refine skip_append (fun c hc => ?_) cs
  unfold newLine at hc
  rw [String.toList_ofList, List.mem_cons] at hc
  obtain rfl | hc := hc
  · decide
  · rw [List.eq_of_mem_replicate hc]
    decide

theorem word_toString (n : Int) (rest : List Char) :
    Word (toString n).toList ((toString n).toList ++ rest) rest := by
  have hblank : ∀ c ∈ [' ', '\t', '\n', '\r'], c.isDigit = false := by simp
  unfold Word
  cases n with
  | ofNat m =>
    obtain ⟨c, digits, hdigits, hc⟩ := exists_cons_toDigits m
    rw [toList_toString_ofNat, hdigits]
    refine List.dropWhile_cons_of_neg fun hmem => ?_
    rw [hblank c (of_decide_eq_true hmem)] at hc
    cases hc
  | negSucc m =>
    rw [toList_toString_negSucc]
    rfl

/-- Further texts of a list, each behind a comma and on a line of its own. -/
def further (depth : Nat) (texts : List String) : List Char :=
  texts.flatMap fun text => ',' :: ((newLine depth).toList ++ text.toList)

theorem further_cons (depth : Nat) (text : String) (texts : List String) :
    further depth (text :: texts) =
      ',' :: ((newLine depth).toList ++ (text.toList ++ further depth texts)) := by
  unfold further
  rw [List.flatMap_cons, List.cons_append, List.append_assoc]

theorem toList_intercalate_cons (depth : Nat) (text : String) (texts : List String) :
    (("," ++ newLine depth).intercalate (text :: texts)).toList =
      text.toList ++ further depth texts := by
  induction texts generalizing text with
  | nil => rw [String.intercalate_singleton, further, List.flatMap_nil, List.append_nil]
  | cons next texts ih =>
    rw [String.intercalate_cons_cons, String.toList_append, ih, further_cons, String.toList_append,
      String.toList_append, List.append_assoc, List.append_assoc]
    rfl

theorem toList_enclose_cons (opening closing : String) (depth : Nat) (text : String)
    (texts : List String) : (enclose opening closing depth (text :: texts)).toList =
      opening.toList ++ ((newLine (depth + 1)).toList ++ (text.toList ++
        (further (depth + 1) texts ++ ((newLine depth).toList ++ closing.toList)))) := by
  unfold enclose
  simp only [String.toList_append, toList_intercalate_cons, List.append_assoc]

/-- Where another line begins no digit is ahead. -/
theorem isDigit_head_newLine (depth : Nat) (cs : List Char) :
    ∀ c ∈ ((newLine depth).toList ++ cs).head?, c.isDigit = false := by
  unfold newLine
  rw [String.toList_ofList]
  rintro c ⟨⟩
  decide

theorem isDigit_head_further (depth outer : Nat) (texts : List String) (cs : List Char) :
    ∀ c ∈ (further depth texts ++ ((newLine outer).toList ++ cs)).head?, c.isDigit = false := by
  cases texts with
  | nil => exact isDigit_head_newLine outer cs
  | cons text texts =>
    rintro c ⟨⟩
    decide

theorem word_newLine {c : Char} (hc : c ∈ [']', '\x7d']) (depth : Nat) (rest : List Char) :
    Word [c] ((newLine depth).toList ++ c :: rest) rest := by
  have hblank : ∀ c ∈ [']', '\x7d'], c ∉ [' ', '\t', '\n', '\r'] := by simp
  unfold Word
  rw [skip_newLine]
  exact List.dropWhile_cons_of_neg (mt of_decide_eq_true (hblank c hc))

theorem ahead_quote (text : String) (rest : List Char) :
    Ahead (.string text) ((quote text).toList ++ rest) rest := quoted_quote text rest

theorem word_colon (cs : List Char) : Word [':'] (": ".toList ++ cs) (' ' :: cs) := rfl

mutual

theorem ahead_renderAt : ∀ (v : Json) (depth : Nat) {rest : List Char},
    (∀ c ∈ rest.head?, c.isDigit = false) → Ahead v ((renderAt depth v).toList ++ rest) rest
  | .null, _, _, _ => by
    rw [renderAt]
    rfl
  | .bool true, _, _, _ => by
    rw [renderAt]
    rfl
  | .bool false, _, _, _ => by
    rw [renderAt]
    rfl
  | .number n, _, rest, h => by
    rw [renderAt]
    exact ⟨word_toString n rest, h⟩
  | .string text, _, rest, _ => by
    rw [renderAt]
    exact quoted_quote text rest
  | .array [], _, rest, _ => by
    rw [renderAt, renderItems, enclose]
    exact ⟨']' :: rest, rfl, rfl⟩
  | .array (item :: items), depth, rest, _ => by
    have hitem := ahead_renderAt item (depth + 1) (isDigit_head_further (depth + 1) depth
      (renderItems (depth + 1) items) (']' :: rest))
    have hitems := items_renderItems items (depth + 1) depth rest
    rw [renderAt, renderItems, toList_enclose_cons]
    simp only [List.append_assoc]
    refine ⟨_, rfl, skip _, _, rfl, hitem.of_skip ?_, hitems⟩
    rw [skip_skip, skip_newLine]
    rfl
  | .object [], _, rest, _ => by
    rw [renderAt, renderMembers, enclose]
    exact ⟨'\x7d' :: rest, rfl, rfl⟩
  | .object ((key, value) :: members), depth, rest, _ => by
    have hvalue := ahead_renderAt value (depth + 1) (isDigit_head_further (depth + 1) depth
      (renderMembers (depth + 1) members) ('\x7d' :: rest))
    have hmembers := members_renderMembers members (depth + 1) depth rest
    rw [renderAt, renderMembers, toList_enclose_cons]
    simp only [String.toList_append, List.append_assoc]
    refine ⟨_, rfl, skip _, _, _, _, rfl, (ahead_quote key _).of_skip ?_, word_colon _,
      hvalue.of_skip (skip_space _).symm, hmembers⟩
    rw [skip_skip, skip_newLine]
    rfl

theorem items_renderItems : ∀ (items : List Json) (depth outer : Nat) (rest : List Char),
    Items [','] items
      (further depth (renderItems depth items) ++ ((newLine outer).toList ++ ']' :: rest)) rest
  | [], _, outer, rest => word_newLine (by decide) outer rest
  | item :: items, depth, outer, rest => by
    have hitem := ahead_renderAt item depth (isDigit_head_further depth outer
      (renderItems depth items) (']' :: rest))
    have hitems := items_renderItems items depth outer rest
    rw [renderItems, further_cons, List.cons_append, List.append_assoc, List.append_assoc]
    exact ⟨_, _, rfl, hitem.of_skip (skip_newLine depth _).symm, hitems⟩

theorem members_renderMembers : ∀ (members : List (String × Json)) (depth outer : Nat)
    (rest : List Char), Members [','] members
      (further depth (renderMembers depth members) ++ ((newLine outer).toList ++ '\x7d' :: rest))
      rest
  | [], _, outer, rest => word_newLine (by decide) outer rest
  | (key, value) :: members, depth, outer, rest => by
    have hvalue := ahead_renderAt value depth (isDigit_head_further depth outer
      (renderMembers depth members) ('\x7d' :: rest))
    have hmembers := members_renderMembers members depth outer rest
    rw [renderMembers, further_cons]
    simp only [String.toList_append, List.cons_append, List.append_assoc]
    exact ⟨_, _, _, _, rfl, (ahead_quote key _).of_skip (skip_newLine depth _).symm, word_colon _,
      hvalue.of_skip (skip_space _).symm, hmembers⟩

end

/-- The text that is printed for a value denotes it. -/
theorem denotes_render (v : Json) : Denotes v.render v := by
  refine ⟨[], ?_, rfl⟩
  have h := ahead_renderAt v 0 fun _ (hc : _ ∈ ([] : List Char).head?) => nomatch hc
  rw [List.append_nil] at h
  exact h

/-- The text that is printed for a value denotes it and no other. -/
theorem denotes_render_iff {v w : Json} : Denotes w.render v ↔ v = w := by
  constructor
  · exact fun h => h.unique (denotes_render w)
  · rintro rfl
    exact denotes_render v

end BuildOrder.Json
