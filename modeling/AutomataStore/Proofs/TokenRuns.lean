import AutomataStore.Markup.Token

/-
  Tokens of spelled tokens.

  Spelling tokens and cutting the bytes again gives the same
  tokens, up to character data: runs that follow each other
  come back as one, and an empty run does not come back.  A
  token is recoverable when its own bytes tell where it ends.

  Key definitions include:
    * `Feed.Delivers`
    * `Token.Recoverable`
    * `Token.mergeRuns`

  Main declarations:
    * `Token.mergeRuns_append_cons`
    * `tokensFrom_spell_delivers`
-/

------------------------------------------------------------
-- Delivered Pieces
------------------------------------------------------------

namespace AutomataStore

namespace Markup

namespace Feed

variable {α : Type}

/- A feed delivers pieces when it has them and no fault. -/
def Delivers (f : Feed α) (as : List α) : Prop :=
  f.Complete ∧ f.items = as

@[simp]
theorem delivers_complete
    (offset : Nat)
    (as : List α) :
    (complete offset : Feed α).Delivers as ↔ as = [] := by
  simp [Delivers, Complete, fault?, items, eq_comm]

@[simp]
theorem delivers_item
    (a : α)
    (offset : Nat)
    (rest : Feed α)
    (as : List α) :
    (item a offset rest).Delivers (a :: as) ↔
      rest.Delivers as := by
  simp [Delivers, Complete, fault?, items]

end Feed

------------------------------------------------------------
-- Merged Runs
------------------------------------------------------------

namespace Token

/- Put a run of character data before tokens. -/
def joinRun (run : Bytes) : List Token → List Token
  | .text more :: ts => .text (run ++ more) :: ts
  | ts => if run = [] then ts else .text run :: ts

/- One token for all character data up to the next markup. -/
def mergeRuns : List Token → List Token
  | [] => []
  | .text run :: ts => joinRun run (mergeRuns ts)
  | t :: ts => t :: mergeRuns ts

/- Whether a token is character data. -/
def isText : Token → Bool
  | .text _ => true
  | _ => false

/- An empty run changes nothing. -/
theorem joinRun_nil
    (ts : List Token) :
    joinRun [] ts = ts := by
  cases ts with
  | nil => rfl
  | cons t ts => cases t <;> rfl

/- A run before markup stands on its own. -/
theorem joinRun_of_not_isText
    (run : Bytes)
    {t : Token}
    (ht : t.isText = false)
    (ts : List Token) :
    joinRun run (t :: ts) =
      if run = [] then t :: ts else .text run :: t :: ts := by
  cases t with
  | text content => cases ht
  | _ => rfl

/- Runs are put before tokens one after the other. -/
theorem joinRun_joinRun
    (run more : Bytes)
    (ts : List Token) :
    joinRun run (joinRun more ts) =
      joinRun (run ++ more) ts := by
  cases ts with
  | nil =>
      by_cases h : more = [] <;> simp [joinRun, h]
  | cons t ts =>
      cases ht : t.isText with
      | true =>
          cases t <;> simp_all [isText, joinRun]
      | false =>
          rw [joinRun_of_not_isText more ht]
          split
          · rename_i hMore
            simp [hMore]
          · rename_i hMore
            rw [joinRun_of_not_isText _ ht]
            simp [joinRun, hMore]

/- Markup stays as it is. -/
theorem mergeRuns_cons
    {t : Token}
    (ht : t.isText = false)
    (ts : List Token) :
    mergeRuns (t :: ts) = t :: mergeRuns ts := by
  cases t with
  | text content => cases ht
  | _ => rfl

/- Runs on both sides of markup are merged apart. -/
theorem mergeRuns_append_cons
    {t : Token}
    (ht : t.isText = false)
    (before after : List Token) :
    mergeRuns (before ++ t :: after) =
      mergeRuns before ++ t :: mergeRuns after := by
  induction before with
  | nil => exact mergeRuns_cons ht after
  | cons u before ih =>
      cases hu : u.isText with
      | false =>
          rw [List.cons_append, mergeRuns_cons hu,
            mergeRuns_cons hu, ih, List.cons_append]
      | true =>
          obtain ⟨run, rfl⟩ : ∃ run, u = .text run := by
            cases u <;> simp_all [isText]
          simp only [List.cons_append, mergeRuns, ih]
          cases hMerged : mergeRuns before with
          | nil =>
              rw [List.nil_append,
                joinRun_of_not_isText run ht]
              by_cases hRun : run = [] <;>
                simp [joinRun, hRun]
          | cons v merged =>
              cases hv : v.isText with
              | false =>
                  rw [List.cons_append,
                    joinRun_of_not_isText run hv,
                    joinRun_of_not_isText run hv]
                  split <;> simp
              | true =>
                  cases v <;> simp_all [isText, joinRun]

------------------------------------------------------------
-- Recoverable Tokens
------------------------------------------------------------

/-
  A token whose bytes are cut where it ends, whatever follows:
  character data without `<`, or markup that is taken back.
-/
def Recoverable (t : Token) : Prop :=
  if t.isText then
    byte '<' ∉ t.content
  else
    ∀ rest, takeMarkup (t.spell.drop 1 ++ rest) =
      .token t rest

/- Text is recoverable if no markup starts in it. -/
theorem recoverable_text_iff
    {bs : Bytes} :
    (text bs).Recoverable ↔ byte '<' ∉ bs := by
  simp [Recoverable, isText, content]

/- Markup starts with `<`. -/
theorem spell_eq_cons
    {t : Token}
    (ht : t.isText = false) :
    t.spell = byte '<' :: t.spell.drop 1 := by
  cases t with
  | text content => cases ht
  | _ => rfl

end Token

------------------------------------------------------------
-- Cutting Spelled Tokens
------------------------------------------------------------

/- Markup at the front becomes the first token. -/
theorem tokensFrom_markup
    (offset : Nat)
    {bs rest : Bytes}
    {t : Token}
    (hTake : takeMarkup bs = .token t rest) :
    tokensFrom offset (byte '<' :: bs) =
      .item t (offset + t.width)
        (tokensFrom (offset + t.width) rest) := by
  rw [tokensFrom, if_pos rfl]
  split
  · rename_i h
    rw [hTake] at h
    cases h
    rfl
  · rename_i h
    rw [hTake] at h
    cases h

/- Markup at a fault ends the tokens. -/
theorem tokensFrom_fault
    (offset : Nat)
    {bs : Bytes}
    {width : Nat}
    {fault : Fault}
    (hTake : takeMarkup bs = .fault width fault) :
    tokensFrom offset (byte '<' :: bs) =
      .broken (offset + width) fault := by
  rw [tokensFrom, if_pos rfl]
  split
  · rename_i h
    rw [hTake] at h
    cases h
  · rename_i h
    rw [hTake] at h
    cases h
    rfl

/- A run before markup or the end becomes the first token. -/
theorem tokensFrom_run
    (offset : Nat)
    {run rest : Bytes}
    (hNotNil : run ≠ [])
    (hRun : byte '<' ∉ run)
    (hRest : ∀ b bs, rest = b :: bs → b = byte '<') :
    tokensFrom offset (run ++ rest) =
      .item (.text run) (offset + run.length)
        (tokensFrom (offset + run.length) rest) := by
  cases run with
  | nil => exact absurd rfl hNotNil
  | cons b run =>
      have hHead : b ≠ byte '<' := by
        intro hEq
        exact hRun (hEq ▸ List.mem_cons_self ..)
      have hTail : ∀ c ∈ run, decide (c ≠ byte '<') = true := by
        intro c hc
        apply decide_eq_true
        intro hEq
        exact hRun (List.mem_cons_of_mem _ (hEq ▸ hc))
      have hStop :
          rest.takeWhile (· ≠ byte '<') = [] ∧
            rest.dropWhile (· ≠ byte '<') = rest := by
        cases rest with
        | nil => exact ⟨rfl, rfl⟩
        | cons c rest =>
            rw [hRest c rest rfl]
            simp
      rw [List.cons_append, tokensFrom, if_neg hHead,
        List.takeWhile_append_of_pos hTail,
        List.dropWhile_append_of_pos hTail,
        hStop.1, hStop.2, List.append_nil]

/-
  Cutting a run and spelled tokens after it gives the tokens
  with their runs merged.  The run is what was read since the
  last piece of markup.
-/
theorem tokensFrom_spell_delivers
    (ts : List Token)
    (hts : ∀ t ∈ ts, t.Recoverable)
    (run : Bytes)
    (hRun : byte '<' ∉ run)
    (offset : Nat) :
    (tokensFrom offset
        (run ++ ts.flatMap Token.spell)).Delivers
      (Token.joinRun run (Token.mergeRuns ts)) := by
  induction ts generalizing run offset with
  | nil =>
      by_cases hNil : run = []
      · simp [hNil, tokensFrom, Token.joinRun,
          Token.mergeRuns]
      · rw [List.flatMap_nil,
          tokensFrom_run offset hNil hRun (by simp)]
        simp [hNil, tokensFrom, Token.joinRun,
          Token.mergeRuns]
  | cons t ts ih =>
      have hHead := hts t (List.mem_cons_self ..)
      have hTail : ∀ u ∈ ts, u.Recoverable :=
        fun u hu => hts u (List.mem_cons_of_mem _ hu)
      cases ht : t.isText with
      | true =>
          obtain ⟨more, rfl⟩ : ∃ more, t = .text more := by
            cases t <;> simp_all [Token.isText]
          have hMore : byte '<' ∉ more :=
            Token.recoverable_text_iff.mp hHead
          have hSpell : (Token.text more).spell = more := by
            simp [Token.spell, Token.before, Token.content,
              Token.after]
          rw [List.flatMap_cons, hSpell, Token.mergeRuns,
            Token.joinRun_joinRun, ← List.append_assoc]
          apply ih hTail
          simp [hRun, hMore]
      | false =>
          have hTake :
              ∀ rest,
                takeMarkup (t.spell.drop 1 ++ rest) =
                  .token t rest := by
            simpa [Token.Recoverable, ht] using hHead
          have hRest :
              ∀ offset,
                (tokensFrom offset
                    (ts.flatMap Token.spell)).Delivers
                  (Token.mergeRuns ts) := by
            intro offset
            have hIh := ih hTail [] (by simp) offset
            rwa [List.nil_append, Token.joinRun_nil] at hIh
          rw [List.flatMap_cons, Token.mergeRuns_cons ht,
            Token.joinRun_of_not_isText run ht,
            Token.spell_eq_cons ht, List.cons_append]
          by_cases hNil : run = []
          · rw [if_pos hNil, hNil, List.nil_append,
              tokensFrom_markup offset (hTake _)]
            simpa using hRest _
          · rw [if_neg hNil,
              tokensFrom_run offset hNil hRun (by simp),
              tokensFrom_markup _ (hTake _)]
            simpa using hRest _

end Markup

end AutomataStore
