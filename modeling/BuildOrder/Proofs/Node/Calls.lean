/-
Call after call of the reader of blocks on one list of tokens, failing ones included. A call begins
where the one before it stopped, which may be in the middle of a block, and it goes by the tokens
from there on alone: what the calls before it did comes down to a place in the list. No call moves
this place back or behind the first end of the file, and that holds of a run of calls by induction.
-/
import BuildOrder.Proofs.Node.Indexed
import Mathlib.Data.List.Forall2
import Mathlib.Logic.Function.Iterate

namespace BuildOrder

open Steps

namespace Parse

variable {α : Type} {tokens : Tokens} {i : Nat}

/-! ## One call -/

/-- A call stops between the place where it begins and the first end of the file, and leaves the
tokens from there on. -/
theorem behind_stops (h : i ≤ tokens.firstEnd) :
    i ≤ Indexed.behind tokens.toList i ∧ Indexed.behind tokens.toList i ≤ tokens.firstEnd ∧
      rest (block (tokens.drop i)) = tokens.drop (Indexed.behind tokens.toList i) := by
  have hb := agreeAt_block i h
  unfold Indexed.behind
  generalize Indexed.block tokens.toList i = r, block (tokens.drop i) = r' at hb ⊢
  cases hb with
  | ok a hle hend => exact ⟨hle, hend, rfl⟩
  | error e hle hend => exact ⟨hle, hend, rfl⟩

/-- The same result as many places farther on. -/
def Indexed.moved (k : Nat) :
    EStateM.Result (Option GrammarFault) Nat α → EStateM.Result (Option GrammarFault) Nat α
  | .ok a i => .ok a (k + i)
  | .error e i => .error e (k + i)

/-- What stands in front of the place where a call begins does not matter. -/
theorem block_drop (h : i ≤ tokens.firstEnd) :
    Indexed.block tokens.toList i = Indexed.moved i (Indexed.block (tokens.toList.drop i) 0) := by
  have hi := Nat.le_trans h tokens.firstEnd_le
  have hb := agreeAt_block i h
  have hb' : Agree (tokens.drop i) 0 _ _ := agreeAt_block 0 (Nat.zero_le _)
  have hlen : (tokens.drop i).ahead.length = tokens.ahead.length - i := List.length_drop ..
  rw [show (tokens.drop i).drop 0 = tokens.drop i from rfl, Tokens.toList_drop hi] at hb'
  generalize Indexed.block tokens.toList i = r, Indexed.block (tokens.toList.drop i) 0 = r₀,
    block (tokens.drop i) = r' at hb hb' ⊢
  -- both stop with the same tokens left, so at places that are as far apart as those of the begin
  have same : ∀ {j k}, j ≤ tokens.firstEnd → k ≤ (tokens.drop i).firstEnd →
      tokens.drop j = (tokens.drop i).drop k → j = i + k := by
    intro j k hj hk he
    have := Nat.le_trans hk (tokens.drop i).firstEnd_le
    rw [Tokens.drop_drop] at he
    exact Tokens.drop_injective (Nat.le_trans hj tokens.firstEnd_le) (by omega) he
  cases hb with
  | @ok a j hle hend =>
    generalize hs : tokens.drop j = s at hb'
    cases hb' with
    | ok _ hle' hend' => rw [Indexed.moved, same hend hend' hs]
  | @error e j hle hend =>
    generalize hs : tokens.drop j = s at hb'
    cases hb' with
    | error _ hle' hend' => rw [Indexed.moved, same hend hend' hs]

/-! ## Runs of calls -/

/-- The cursor after some calls. -/
def Indexed.cursor (tokens : List Token) (n : Nat) : Nat := (Indexed.behind tokens)^[n] 0

theorem cursor_succ (tokens : List Token) (n : Nat) :
    Indexed.cursor tokens (n + 1) = Indexed.behind tokens (Indexed.cursor tokens n) :=
  Function.iterate_succ_apply' ..

theorem cursor_le_firstEnd (tokens : Tokens) (n : Nat) :
    Indexed.cursor tokens.toList n ≤ tokens.firstEnd := by
  induction n with
  | zero => exact Nat.zero_le _
  | succ n ih =>
    rw [cursor_succ]
    exact (behind_stops ih).2.1

theorem iterate_rest_block (tokens : Tokens) (n : Nat) :
    (fun s => rest (block s))^[n] tokens = tokens.drop (Indexed.cursor tokens.toList n) := by
  induction n with
  | zero => rfl
  | succ n ih =>
    rw [Function.iterate_succ_apply', ih, cursor_succ]
    exact (behind_stops (cursor_le_firstEnd tokens n)).2.2

/-! ## Blocks one behind the other -/

theorem block_of_read {b : ModuleBlock} {s : Tokens} (h : i ≤ tokens.firstEnd)
    (hb : block (tokens.drop i) = .ok b s) :
    Indexed.block tokens.toList i = .ok b (Indexed.behind tokens.toList i) ∧
      tokens.drop (Indexed.behind tokens.toList i) = s := by
  have hagree := agreeAt_block i h
  rw [hb] at hagree
  unfold Indexed.behind
  generalize Indexed.block tokens.toList i = r at hagree ⊢
  cases hagree with
  | ok _ hle hend => exact ⟨rfl, rfl⟩

/-- As many calls as there are blocks in front of the end read the blocks. -/
theorem blocks_of_flatten {tss : List (List Token)} {bs : List ModuleBlock}
    (hbs : List.Forall₂ Derives.Block tss bs) (h : i ≤ tokens.firstEnd)
    (ha : (tokens.drop i).ahead = tss.flatten) :
    (∀ k, (hk : k < bs.length) →
      Indexed.block tokens.toList ((Indexed.behind tokens.toList)^[k] i) =
        .ok bs[k] ((Indexed.behind tokens.toList)^[k + 1] i)) ∧
    (tokens.drop ((Indexed.behind tokens.toList)^[bs.length] i)).ahead = [] := by
  induction hbs generalizing i with
  | nil => exact ⟨fun k hk => absurd hk (Nat.not_lt_zero k), ha⟩
  | @cons ts b tss bs hb hbs ih =>
    have hs : tokens.drop i = Tokens.prepend ts { tokens with ahead := tss.flatten } := by
      unfold Tokens.prepend
      rw [← List.flatten_cons, ← ha]
      rfl
    obtain ⟨hread, hrest⟩ := block_of_read h (hs ▸ hb.read _)
    obtain ⟨hall, hend⟩ := ih (behind_stops h).2.1 (congrArg Tokens.ahead hrest)
    refine ⟨fun k hk => ?_, hend⟩
    cases k with
    | zero => exact hread
    | succ k => exact hall k (Nat.lt_of_succ_lt_succ hk)

/-- In front of the last token no block begins. -/
theorem block_at_final (h : i ≤ tokens.firstEnd) (ha : (tokens.drop i).ahead = []) :
    Indexed.block tokens.toList i =
      .error (some ⟨.token (.keyword .module), tokens.final⟩) i := by
  have ht : tokens.toList[i]? = some tokens.final := by
    rw [Tokens.getElem?_toList h, Tokens.current_eq_final ha]
    rfl
  have he : Indexed.expect tokens.toList (.keyword .module) i =
      .error (some ⟨.token (.keyword .module), tokens.final⟩) i := by
    rw [Indexed.expect, Indexed.look, ht]
    dsimp only
    rw [if_neg (by rw [tokens.final_kind]; decide)]
    rfl
  exact bind_of_error he

theorem ahead_cursor {m n : Nat} (h : (tokens.drop (Indexed.cursor tokens.toList m)).ahead = [])
    (hmn : m ≤ n) : (tokens.drop (Indexed.cursor tokens.toList n)).ahead = [] := by
  induction hmn with
  | refl => exact h
  | step _ ih =>
    rw [cursor_succ, Indexed.behind, block_at_final (cursor_le_firstEnd tokens _) ih]
    exact ih

/-- After any number of calls, failing ones included, the next one does not move the cursor back,
which stands in front of the first end of the file or at it, and the tokens left are those from the
cursor on. So the next call agrees with the reader of these tokens, and never looks at an index that
the list does not have; these tokens are again a list to be read, and on it alone the call comes to
the same, as many places farther on. Where the tokens in front of the last one are those of blocks,
as many calls read the blocks in their order, and each later one refuses the end of the file and
stays there. -/
theorem calls_exact (tokens : Tokens) :
    (∀ n, Indexed.cursor tokens.toList n ≤ Indexed.cursor tokens.toList (n + 1) ∧
      Indexed.cursor tokens.toList n ≤ tokens.firstEnd ∧
      (fun s => rest (block s))^[n] tokens = tokens.drop (Indexed.cursor tokens.toList n) ∧
      Agree tokens (Indexed.cursor tokens.toList n)
        (Indexed.block tokens.toList (Indexed.cursor tokens.toList n))
        (block (tokens.drop (Indexed.cursor tokens.toList n))) ∧
      Tokens.ofList (tokens.toList.drop (Indexed.cursor tokens.toList n)) =
        .ok (tokens.drop (Indexed.cursor tokens.toList n)) ∧
      Indexed.block tokens.toList (Indexed.cursor tokens.toList n) =
        Indexed.moved (Indexed.cursor tokens.toList n)
          (Indexed.block (tokens.toList.drop (Indexed.cursor tokens.toList n)) 0)) ∧
    ∀ tss bs, tokens.ahead = tss.flatten → List.Forall₂ Derives.Block tss bs →
      (∀ k, (hk : k < bs.length) →
        Indexed.block tokens.toList (Indexed.cursor tokens.toList k) =
          .ok bs[k] (Indexed.cursor tokens.toList (k + 1))) ∧
      ∀ n, bs.length ≤ n → ∃ e : GrammarFault,
        Indexed.block tokens.toList (Indexed.cursor tokens.toList n) =
          .error (some e) (Indexed.cursor tokens.toList n) ∧
        e.toFault.message = "Expected Module, got EndOfFile" := by
  refine ⟨fun n => ?_, fun tss bs ha hbs => ?_⟩
  · have hle := cursor_le_firstEnd tokens n
    refine ⟨?_, hle, iterate_rest_block tokens n, agreeAt_block _ hle, ?_, block_drop hle⟩
    · rw [cursor_succ]
      exact (behind_stops hle).1
    · rw [← Tokens.toList_drop (Nat.le_trans hle tokens.firstEnd_le), Tokens.ofList_toList]
  · obtain ⟨hall, hend⟩ := blocks_of_flatten hbs (Nat.zero_le tokens.firstEnd) ha
    refine ⟨hall, fun n hn => ⟨⟨.token (.keyword .module), tokens.final⟩,
      block_at_final (cursor_le_firstEnd tokens n) (ahead_cursor hend hn), ?_⟩⟩
    rw [GrammarFault.toFault]
    dsimp only
    rw [tokens.final_kind]
    rfl

end Parse

end BuildOrder
