import Mathlib

/-!
# Decoders of token strings and their round trips

A decoder reads a prefix of a string of tokens and answers a value, or fails; it is a function
of the input in `StateT (List τ) (Except ε)`.  `Decodes d bs a` says that `d` reads exactly the
tokens `bs` from the front of every input that starts with them, and answers `a`.  Round trips
of an encoder are proved with it piece by piece: each field's decoder decodes that field's
encoding, and `Decodes.bind` puts the fields of a record together in the order the encoder
wrote them.

A stream of records is read by `loop`, which runs a step until the input is used up.  It stops
early, answering the state so far, if a step reads nothing: a step that always reads some
tokens never reaches that case, and the check is what makes `loop` terminate.
`loop_flatMap_append` reads back a stream that an encoder wrote record by record, and
`loop_flatMap_eq_foldlM` one whose records each go on to a step that may fail.
-/

/-- A decoder of tokens `τ` that answers an `α` or fails with an `ε`. -/
abbrev Decoder (τ ε α : Type) := StateT (List τ) (Except ε) α

namespace Decoder

variable {τ ε α β σ : Type}

/-- The next token; at the end of the input, the error `err`. -/
def next (err : ε) : Decoder τ ε τ := fun s =>
  match s with
  | [] => .error err
  | t :: s => .ok (t, s)

/-- The next `n` tokens; when fewer are left, the error `err`. -/
def take (n : Nat) (err : ε) : Decoder τ ε (List τ) := fun s =>
  if n ≤ s.length then .ok (s.take n, s.drop n) else .error err

/-- The next `n` tokens as a vector; when fewer are left, the error `err`. -/
def takeVector (n : Nat) (err : ε) : Decoder τ ε (Vector τ n) := fun s =>
  if h : n ≤ s.length then .ok (⟨(s.take n).toArray, by simp [h]⟩, s.drop n) else .error err

/-- `n` values read one after the other by `d`. -/
def replicate (d : Decoder τ ε α) : Nat → Decoder τ ε (List α)
  | 0 => pure []
  | n + 1 => do
    let a ← d
    let as ← replicate d n
    pure (a :: as)

/-- `d` reads exactly `bs` from the front of every input that starts with them, and answers
`a`. -/
def Decodes (d : Decoder τ ε α) (bs : List τ) (a : α) : Prop :=
  ∀ rest, d.run (bs ++ rest) = .ok (a, rest)

namespace Decodes

lemma pure (a : α) : Decodes (Pure.pure a : Decoder τ ε α) [] a :=
  fun _ => rfl

lemma bind {d : Decoder τ ε α} {f : α → Decoder τ ε β} {bs bs' : List τ} {a : α} {b : β}
    (hd : Decodes d bs a) (hf : Decodes (f a) bs' b) : Decodes (d >>= f) (bs ++ bs') b := by
  intro rest
  rw [List.append_assoc, StateT.run_bind, hd]
  exact hf rest

lemma map {d : Decoder τ ε α} {bs : List τ} {a : α} (f : α → β) (hd : Decodes d bs a) :
    Decodes (f <$> d) bs (f a) := by
  intro rest
  show (d >>= fun a => Pure.pure (f a)).run (bs ++ rest) = _
  rw [StateT.run_bind, hd]
  rfl

/-- A decoding read off the same tokens written another way. -/
lemma of_eq {d : Decoder τ ε α} {bs bs' : List τ} {a a' : α} (hd : Decodes d bs a)
    (hbs : bs = bs') (ha : a = a') : Decodes d bs' a' := by
  subst hbs ha
  exact hd

lemma next (err : ε) (t : τ) : Decodes (Decoder.next err) [t] t :=
  fun _ => rfl

lemma take (err : ε) {bs : List τ} : Decodes (Decoder.take bs.length err) bs bs := by
  intro rest
  simp [StateT.run, Decoder.take]

lemma takeVector (err : ε) {n : Nat} (v : Vector τ n) :
    Decodes (Decoder.takeVector n err) v.toList v := by
  intro rest
  have hn : n ≤ (v.toList ++ rest).length := by simp
  simp only [StateT.run, Decoder.takeVector, dif_pos hn, Except.ok.injEq, Prod.mk.injEq]
  refine ⟨Vector.toList_inj.mp ?_, by simp⟩
  simp

lemma replicate {d : Decoder τ ε α} {enc : α → List τ} :
    ∀ {as : List α}, (∀ a ∈ as, Decodes d (enc a) a) →
      Decodes (Decoder.replicate d as.length) (as.flatMap enc) as
  | [], _ => Decodes.pure []
  | a :: as, h => by
    rw [List.flatMap_cons, ← List.append_nil (enc a ++ _), List.append_assoc]
    exact (h a List.mem_cons_self).bind
      ((Decodes.replicate fun a' ha' => h a' (List.mem_cons_of_mem a ha')).bind (Decodes.pure _))

end Decodes

/-- `while (has_next()) state = step(state)`: the steps from `s` until the input is used up,
or until a step reads nothing. -/
def loop (step : σ → Decoder τ ε σ) (s : σ) (input : List τ) : Except ε σ :=
  match input with
  | [] => .ok s
  | t :: ts =>
    match (step s).run (t :: ts) with
    | .error e => .error e
    | .ok (s', rest) =>
      if rest.length < ts.length + 1 then loop step s' rest else .ok s'
termination_by input.length
decreasing_by simpa using ‹rest.length < ts.length + 1›

@[simp] lemma loop_nil (step : σ → Decoder τ ε σ) (s : σ) : loop step s [] = .ok s := by
  rw [loop]

/-- The steps of `loop` read back the records `xs`, each written as the non-empty `enc x`:
from `s`, the step decodes the first record to the state `next s x`, and so on. -/
def Steps (step : σ → Decoder τ ε σ) (enc : β → List τ) (next : σ → β → σ) :
    σ → List β → Prop
  | _, [] => True
  | s, x :: xs =>
    enc x ≠ [] ∧ Decodes (step s) (enc x) (next s x) ∧ Steps step enc next (next s x) xs

/-- The steps read the records `xs` one by one and then go on with the rest of the input. -/
lemma loop_flatMap_append {step : σ → Decoder τ ε σ} {enc : β → List τ} {next : σ → β → σ}
    (rest : List τ) :
    ∀ (xs : List β) (s : σ), Steps step enc next s xs →
      loop step s (xs.flatMap enc ++ rest) = loop step (xs.foldl next s) rest
  | [], s, _ => rfl
  | x :: xs, s, ⟨hne, hx, hxs⟩ => by
    obtain ⟨t, ts, hts⟩ := List.exists_cons_of_ne_nil hne
    have hrun : (step s).run (t :: (ts ++ (xs.flatMap enc ++ rest))) =
        .ok (next s x, xs.flatMap enc ++ rest) := by
      rw [← List.cons_append, ← hts]
      exact hx _
    -- the step reads the whole record, so the rest is shorter
    have hlt : (xs.flatMap enc ++ rest).length < (ts ++ (xs.flatMap enc ++ rest)).length + 1 := by
      simp only [List.length_append]
      omega
    rw [List.flatMap_cons, hts, List.cons_append, List.cons_append, List.append_assoc, loop,
      List.foldl_cons]
    split
    · rename_i e h
      rw [hrun] at h
      cases h
    · rename_i s' rest' h
      rw [hrun, Except.ok.injEq, Prod.mk.injEq] at h
      obtain ⟨rfl, rfl⟩ := h
      rw [if_pos hlt]
      exact loop_flatMap_append rest xs _ hxs

/-- A loop whose step reads each record `x` of `xs` and goes on as `next` says, to a new state
or to a failure, is the fold of `next` over the records. -/
lemma loop_flatMap_eq_foldlM {step : σ → Decoder τ ε σ} {enc : β → List τ}
    {next : σ → β → Except ε σ} :
    ∀ (xs : List β) (s : σ), (∀ x ∈ xs, enc x ≠ [] ∧
      ∀ s rest, (step s).run (enc x ++ rest) = (next s x).map (·, rest)) →
      loop step s (xs.flatMap enc) = xs.foldlM next s
  | [], s, _ => loop_nil step s
  | x :: xs, s, h => by
    obtain ⟨hne, hx⟩ := h x List.mem_cons_self
    obtain ⟨t, ts, hts⟩ := List.exists_cons_of_ne_nil hne
    have hrun : (step s).run (t :: (ts ++ xs.flatMap enc)) =
        (next s x).map (·, xs.flatMap enc) := by
      rw [← List.cons_append, ← hts]
      exact hx s _
    -- the step reads the whole record, so the rest is shorter
    have hlt : (xs.flatMap enc).length < (ts ++ xs.flatMap enc).length + 1 := by
      simp only [List.length_append]
      omega
    rw [List.flatMap_cons, hts, List.cons_append, loop, List.foldlM_cons]
    cases hnext : next s x with
    | error e =>
      simp only [hrun, hnext, Except.map]
      rfl
    | ok s' =>
      simp only [hrun, hnext, Except.map, if_pos hlt]
      exact loop_flatMap_eq_foldlM xs s' fun y hy => h y (List.mem_cons_of_mem x hy)

end Decoder
