import Asg1.Lexer.Closed

/-!
# `Lexer.Reads` — the lexer with a record of the table cells it reads

The model of `lexanc.c` looks into its tables by functions that are total: what lies outside a table comes from the
host. Whether a run reads outside is therefore not visible in its result. Here the scanners are written once more in
`Traced`, which is `Scan` with a list of the cells that were read, in the order of the source's evaluation; `erase`
forgets the list. `erase` commutes with every construct, so the traced `gettoken` is the one of the model
(`erase_gettokenT`).
-/

namespace Asg1
namespace Lexer

variable {D : Type}

/-- A cell of one of the three tables. -/
inductive Read where
  | charclass (c : Option UInt8)
  | dcl (i : Int)
  | pdcl (i : Int)
deriving DecidableEq, Repr

/-- The index that is used; that of `EOF` is -1. -/
def Read.index : Read → Int
  | .charclass none => -1
  | .charclass (some c) => c.toNat
  | .dcl i => i
  | .pdcl i => i

/-- The number of elements of the table. -/
def Read.size : Read → Int
  | .charclass _ => 256
  | .dcl _ => 100
  | .pdcl _ => 100

/-- The read stays in its table. -/
def Read.Inside (r : Read) : Prop := 0 ≤ r.index ∧ r.index < r.size

/-! ## Routines with a record of their reads -/

/-- A routine that also returns what it has read. -/
structure Traced (α : Type) where
  run : Nat → LexState → Option ((α × List Read) × LexState)

namespace Traced

variable {α β σ ρ : Type}

/-- Go on with `f`, after the reads `l`. -/
def after (l : List Read) (x : (α × List Read) × LexState) : (α × List Read) × LexState := ((x.1.1, l ++ x.1.2), x.2)

instance : Monad Traced where
  pure a := ⟨fun _ s => some ((a, []), s)⟩
  bind m f := ⟨fun n s => (m.run n s).bind fun x => ((f x.1.1).run n x.2).map (after x.1.2)⟩

/-- A routine that reads no table. -/
def lift (m : Scan α) : Traced α := ⟨fun n s => (m.run n s).map fun x => ((x.1, []), x.2)⟩

/-- Read some cells. -/
def note (l : List Read) : Traced Unit := ⟨fun _ s => some (((), l), s)⟩

/-- One iteration of a loop, with the reads so far. -/
def iter (body : σ → Traced (σ ⊕ ρ)) (n : Nat) (p : (σ × List Read) × LexState) :
    Option (((σ × List Read) × LexState) ⊕ ((ρ × List Read) × LexState)) :=
  ((body p.1.1).run n p.2).map fun x =>
    match x.1.1 with
    | .inl y => .inl ((y, p.1.2 ++ x.1.2), x.2)
    | .inr r => .inr ((r, p.1.2 ++ x.1.2), x.2)

def loop (body : σ → Traced (σ ⊕ ρ)) (x : σ) : Traced ρ := ⟨fun n s => Loop.run (iter body n) n ((x, []), s)⟩

/-- Forget the reads. -/
def erase (m : Traced α) : Scan α := ⟨fun n s => (m.run n s).map fun x => (x.1.1, x.2)⟩

/-! ### What `erase` does -/

@[simp] theorem erase_pure (a : α) : erase (pure a : Traced α) = pure a := rfl

@[simp] theorem erase_note (l : List Read) : erase (note l) = pure () := rfl

@[simp] theorem erase_lift (m : Scan α) : erase (lift m) = m := by
  refine Scan.ext fun n s => ?_
  show ((m.run n s).map _).map _ = _
  cases m.run n s <;> rfl

@[simp] theorem erase_bind (m : Traced α) (f : α → Traced β) : erase (m >>= f) = erase m >>= fun a => erase (f a) := by
  refine Scan.ext fun n s => ?_
  rw [Scan.bind_run]
  show ((m.run n s).bind _).map _ = ((m.run n s).map _).bind _
  cases m.run n s with
  | none => rfl
  | some x =>
    show (((f x.1.1).run n x.2).map _).map _ = ((f x.1.1).run n x.2).map _
    cases (f x.1.1).run n x.2 <;> rfl

@[simp] theorem erase_ite (p : Prop) [Decidable p] (m m' : Traced α) :
    erase (if p then m else m') = if p then erase m else erase m' := by
  split <;> rfl

theorem erase_iter (body : σ → Traced (σ ⊕ ρ)) (n k : Nat) (x : σ) (l : List Read) (s : LexState) :
    (Loop.run (iter body n) k ((x, l), s)).map (fun y => (y.1.1, y.2))
      = Loop.run (Scan.iter (fun x => erase (body x)) n) k (x, s) := by
  induction k generalizing x l s with
  | zero => rfl
  | succ k ih =>
    simp only [Loop.run, iter, Scan.iter, erase]
    cases (body x).run n s with
    | none => rfl
    | some y =>
      obtain ⟨⟨y | r, l'⟩, s'⟩ := y
      · exact ih y (l ++ l') s'
      · rfl

variable {n : Nat} {a : α} {l : List Read} {m : Traced α} {s s' : LexState}

@[simp] theorem erase_loop (body : σ → Traced (σ ⊕ ρ)) (x : σ) :
    erase (loop body x) = Scan.loop (fun x => erase (body x)) x :=
  Scan.ext fun n s => erase_iter body n n x [] s

/-! ### Runs -/

section Run
variable {s : LexState}

@[simp] theorem after_nil (x : (α × List Read) × LexState) : after [] x = x := rfl

@[simp] theorem run_pure (a : α) : (pure a : Traced α).run n s = some ((a, []), s) := rfl

@[simp] theorem run_ite (p : Prop) [Decidable p] (m m' : Traced α) :
    (if p then m else m').run n s = if p then m.run n s else m'.run n s := by
  split <;> rfl

variable {s' : LexState}

theorem run_bind (h : m.run n s = some ((a, l), s'))
    (f : α → Traced β) : (m >>= f).run n s = ((f a).run n s').map (after l) := by
  show (m.run n s).bind _ = _
  rw [h]
  rfl

@[simp] theorem run_pure_bind (a : α) (f : α → Traced β) : (pure a >>= f).run n s = (f a).run n s := by
  show ((f a).run n s).map (after []) = _
  cases (f a).run n s <;> rfl

@[simp] theorem run_note_bind (l : List Read) (f : Unit → Traced β) :
    (note l >>= f).run n s = ((f ()).run n s).map (after l) := rfl

theorem run_lift_bind {m : Scan α} (h : m.run n s = some (a, s')) (f : α → Traced β) :
    (lift m >>= f).run n s = (f a).run n s' := by
  have hlift : (lift m).run n s = some ((a, []), s') := by
    show (m.run n s).map _ = _
    rw [h]
    rfl
  rw [run_bind hlift]
  cases (f a).run n s' <;> rfl

@[simp] theorem run_getchar_bind (f : Option UInt8 → Traced β) :
    (lift getchar >>= f).run n s = (f s.stdin.head?).run n { s with stdin := s.stdin.tail } :=
  run_lift_bind (getchar_run n s) f

@[simp] theorem run_peekchar_bind (f : Option UInt8 → Traced β) :
    (lift peekchar >>= f).run n s = (f s.stdin.head?).run n s :=
  run_lift_bind (peekchar_run n s) f

@[simp] theorem run_peek2char_bind (f : Option UInt8 → Traced β) :
    (lift peek2char >>= f).run n s = (f s.stdin.tail.head?).run n s :=
  run_lift_bind (peek2char_run n s) f

end Run

variable {m₀ : Scan α}

/-- What a traced routine returns is what the routine without the trace returns. -/
theorem exists_reads (h : erase m = m₀) (hrun : m₀.run n s = some (a, s')) : ∃ l, m.run n s = some ((a, l), s') := by
  rw [← h] at hrun
  obtain ⟨⟨⟨a', l⟩, s''⟩, hm, heq⟩ := Option.map_eq_some_iff.mp hrun
  cases heq
  exact ⟨l, hm⟩

theorem run_erase (h : erase m = m₀) (hrun : m.run n s = some ((a, l), s')) : m₀.run n s = some (a, s') := by
  rw [← h]
  show (m.run n s).map _ = _
  rw [hrun]
  rfl

/-- The reads of a sequence are those of its parts. -/
theorem run_bind_eq_some {f : α → Traced β} {s s'' : LexState} {b : β} (h : (m >>= f).run n s = some ((b, l), s'')) :
    ∃ a s' l₁ l₂, m.run n s = some ((a, l₁), s') ∧ (f a).run n s' = some ((b, l₂), s'') ∧ l = l₁ ++ l₂ := by
  obtain ⟨⟨⟨a, l₁⟩, s'⟩, hm, hf⟩ := Option.bind_eq_some_iff.mp h
  obtain ⟨⟨⟨b', l₂⟩, s₂⟩, hf', heq⟩ := Option.map_eq_some_iff.mp hf
  cases heq
  exact ⟨a, s', l₁, l₂, hm, hf', rfl⟩

/-- The reads of a lifted routine: none. -/
theorem run_lift_eq_some {m : Scan α}
    (h : (lift m).run n s = some ((a, l), s')) : m.run n s = some (a, s') ∧ l = [] := by
  obtain ⟨⟨a', s₁⟩, hm, heq⟩ := Option.map_eq_some_iff.mp h
  cases heq
  exact ⟨hm, rfl⟩

/-- **Reads of a loop.** A property of the reads that holds of a last round, and is handed from the rest of the loop
    to the loop by every other round, holds of every loop that ends. -/
theorem loop_reads {body : σ → Traced (σ ⊕ ρ)} (Q : σ → LexState → List Read → Prop)
    (hround : ∀ x s z l s', (body x).run n s = some ((z, l), s') →
      z.elim (fun x' => ∀ l', Q x' s' l' → Q x s (l ++ l')) (fun _ => Q x s l))
    {x : σ} {r : ρ} (h : (loop body x).run n s = some ((r, l), s')) : Q x s l := by
  -- with the reads so far in front, by induction on the number of rounds
  suffices hrun : ∀ (k : Nat) (x : σ) (s : LexState) (acc l : List Read),
      Loop.run (iter body n) k ((x, acc), s) = some ((r, l), s') → ∃ l', l = acc ++ l' ∧ Q x s l' by
    obtain ⟨l', rfl, hQ⟩ := hrun n x s [] l h
    exact hQ
  intro k
  induction k with
  | zero =>
    intro x s acc l hk
    cases hk
  | succ k ih =>
    intro x s acc l hk
    cases hb : (body x).run n s with
    | none =>
      simp only [Loop.run, iter, hb, Option.map_none] at hk
      cases hk
    | some y =>
      obtain ⟨⟨y | r', l₁⟩, s₁⟩ := y
      · simp only [Loop.run, iter, hb, Option.map_some] at hk
        obtain ⟨l', rfl, hQ⟩ := ih y s₁ (acc ++ l₁) l hk
        exact ⟨l₁ ++ l', List.append_assoc _ _ _, hround x s _ l₁ s₁ hb l' hQ⟩
      · simp only [Loop.run, iter, hb, Option.map_some] at hk
        cases hk
        exact ⟨l₁, rfl, hround x s _ l₁ s' hb⟩

end Traced

/-! ## The scanners -/

open Traced

/-- `CHARCLASS[c]` -/
def charclassT (H : Host D) (c : Option UInt8) : Traced Nat := do
  note [.charclass c]
  return CHARCLASS H c

@[simp] theorem run_charclassT_bind {β : Type} (H : Host D) (c : Option UInt8) (f : Nat → Traced β) (n : Nat)
    (s : LexState) :
    (charclassT H c >>= f).run n s = ((f (CHARCLASS H c)).run n s).map (after [.charclass c]) := rfl

/-- `CHARCLASS[c] == ALPHA || CHARCLASS[c] == NUMERIC` -/
def wordCharT (H : Host D) (c : Option UInt8) : Traced Bool := do
  let cclass ← charclassT H c
  if cclass = ALPHA then return true
  else do
    let cclass ← charclassT H c
    return cclass == NUMERIC

def identifierBodyT (H : Host D) (st : List UInt8 × Bool) :
    Traced ((List UInt8 × Bool) ⊕ (List UInt8 × Bool × Option UInt8)) := do
  let ch ← lift getchar
  let c ← lift peekchar
  let cclass ← charclassT H c
  let more ← if c ≠ none ∧ (st.1 ++ [ch.getD 255]).length < 15 then wordCharT H c else pure false
  if more = true then return .inl (st.1 ++ [ch.getD 255], st.2 || cclass == NUMERIC)
  else return .inr (st.1 ++ [ch.getD 255], st.2 || cclass == NUMERIC, c)

def identifierRestBodyT (H : Host D) (c : Option UInt8) : Traced (Option UInt8 ⊕ Unit) := do
  let more ← if c ≠ none then wordCharT H c else pure false
  if more = true then do
    let _ ← lift getchar
    let c ← lift peekchar
    return .inl c
  else return .inr ()

def identifierT (src : Source) (H : Host D) (tok : Token D) : Traced (Token D) := do
  let w ← loop (identifierBodyT H) ([], false)
  loop (identifierRestBodyT H) w.2.2
  return wordToken src w.1 w.2.1 tok

/-- A loop over digits; `cells` are the cells of `dcl` that a round reads. -/
def digitBodyT {σ : Type} (H : Host D) (push : σ → Int → σ) (cells : σ → List Read) (x : σ) : Traced (σ ⊕ σ) := do
  let c ← lift peekchar
  if c ≠ none then do
    let cclass ← charclassT H c
    if cclass = NUMERIC then do
      let c ← lift getchar
      note (cells x)
      return .inl (push x (charval (c.getD 255)))
    else return .inr x
  else return .inr x

def digitLoopT {σ : Type} (H : Host D) (push : σ → Int → σ) (cells : σ → List Read) (x : σ) : Traced σ :=
  loop (digitBodyT H push cells) x

def numberFracT (H : Host D) (v : FracPart D) : Traced (FracPart D × Bool) := do
  let c ← lift peekchar
  if c = some '.'.toUInt8 then do
    let cc ← lift peek2char
    let cclass ← charclassT H cc
    if cclass = NUMERIC then do
      let _ ← lift getchar
      let v ← digitLoopT H (FracPart.push H) (fun v => [.dcl v.dclCounter]) v
      return (v, true)
    else return (v, false)
  else return (v, false)

/-- The cell that moves the first significant digit to the ones place. -/
def normalizeCells (firstSigDigLoc : Int) : List Read :=
  if firstSigDigLoc > 0 then [.dcl firstSigDigLoc]
  else if firstSigDigLoc < 0 then [.pdcl (wrap32 (-firstSigDigLoc))]
  else []

def numberExpT (H : Host D) : Traced (Int × Bool × Bool) := do
  let c ← lift peekchar
  if c = some 'e'.toUInt8 ∨ c = some 'E'.toUInt8 then do
    let _ ← lift getchar
    let c ← lift peekchar
    let _ ← lift (getcharIf (c == some '+'.toUInt8 || c == some '-'.toUInt8))
    let v ← digitLoopT H ExpPart.push (fun _ => []) ⟨0, false⟩
    return (if c = some '-'.toUInt8 then wrap32 (-v.expVal) else v.expVal, decide (v.expVal < 0), true)
  else return (0, false, false)

/-- The cell for the net exponent; a negative one is not looked up. -/
def exponentCells (expVal : Int) (floatErrorFlag : Bool) : List Read :=
  if expVal > 38 ∨ expVal < -38 ∨ floatErrorFlag = true then []
  else if expVal > 0 then [.pdcl expVal]
  else []

def numberT (src : Source) (H : Host D) (tok : Token D) : Traced (Token D) := do
  let v ← digitLoopT H (IntPart.push H) (fun _ => []) ⟨0, H.ofInt 0, false, 0⟩
  let w ← numberFracT H v.toFrac
  -- the normalisation comes before it is known whether the number is an integer
  note (normalizeCells w.1.firstSigDigLoc)
  let x ← numberExpT H
  if w.2 || x.2.2 then do
    note (exponentCells (wrap32 (x.1 + w.1.firstSigDigLoc)) x.2.1)
    lift (realToken src H (normalize H w.1.dnum w.1.firstSigDigLoc) (wrap32 (x.1 + w.1.firstSigDigLoc)) x.2.1 tok)
  else lift (intToken src v.lnum (intErrorFlag v) tok)

def gettokenT (src : Source) (H : Host D) : Traced (Token D) := do
  lift skipblanks
  let c ← lift peekchar
  if c ≠ none then do
    let cclass ← charclassT H c
    if cclass = ALPHA then identifierT src H talloc
    else if cclass = NUMERIC then numberT src H talloc
    else if c = some apostrophe then lift (getstring talloc)
    else lift (special talloc)
  else do
    lift setEOFFLG
    return talloc

/-! ## The traced lexer is the lexer -/

@[simp] theorem erase_charclassT (H : Host D) (c : Option UInt8) : erase (charclassT H c) = pure (CHARCLASS H c) := rfl

@[simp] theorem erase_wordCharT (H : Host D) (c : Option UInt8) :
    erase (wordCharT H c) = pure (CHARCLASS H c == ALPHA || CHARCLASS H c == NUMERIC) := by
  simp only [wordCharT, erase_bind, erase_charclassT, Scan.pure_bind, erase_ite, erase_pure]
  by_cases h : CHARCLASS H c = ALPHA
  · simp [h]
  · have hb : (CHARCLASS H c == ALPHA) = false := by simpa using h
    rw [if_neg h, hb, Bool.false_or]

theorem erase_identifierBodyT (H : Host D) (st : List UInt8 × Bool) :
    erase (identifierBodyT H st) = identifierBody H st := by
  simp only [identifierBodyT, identifierBody, erase_bind, erase_lift, erase_charclassT, Scan.pure_bind, erase_ite,
    erase_wordCharT, erase_pure]
  refine bind_congr fun ch => bind_congr fun c => ?_
  cases c with
  | none => simp
  | some c =>
    by_cases hlen : (st.1 ++ [ch.getD 255]).length < 15
    · have hword : (CHARCLASS H (some c) == ALPHA || CHARCLASS H (some c) == NUMERIC) = wordChar H (some c) := by
        simp [wordChar]
      rw [if_pos ⟨by simp, hlen⟩, hword]
      simp only [hlen, true_and]
    · rw [if_neg (fun h => hlen h.2)]
      exact (if_neg (fun h => hlen h.1)).symm

theorem erase_identifierRestBodyT (H : Host D) (c : Option UInt8) :
    erase (identifierRestBodyT H c) = identifierRestBody H c := by
  simp only [identifierRestBodyT, identifierRestBody, erase_bind, erase_lift, Scan.pure_bind, erase_ite,
    erase_wordCharT, erase_pure]
  cases c with
  | none => rfl
  | some c =>
    simp [wordChar]

theorem erase_identifierT (src : Source) (H : Host D) (tok : Token D) :
    erase (identifierT src H tok) = identifier src H tok := by
  simp only [identifierT, identifier, identifierWord, identifierRest, erase_bind, erase_loop, erase_identifierBodyT,
    erase_identifierRestBodyT, erase_pure]

@[simp] theorem erase_digitLoopT {σ : Type} (H : Host D) (push : σ → Int → σ) (cells : σ → List Read) (x : σ) :
    erase (digitLoopT H push cells x) = digitLoop H push x := by
  have hbody : ∀ x, erase (digitBodyT H push cells x) = digitBody H push x := by
    intro x
    simp only [digitBodyT, digitBody, erase_bind, erase_lift, erase_note, erase_charclassT, Scan.pure_bind, erase_ite,
      erase_pure]
    refine bind_congr fun c => ?_
    by_cases hc : c = none
    · rw [if_neg (not_not.mpr hc), if_neg (fun h => h.1 hc)]
    · by_cases hn : CHARCLASS H c = NUMERIC
      · rw [if_pos hc, if_pos hn, if_pos ⟨hc, hn⟩]
      · rw [if_pos hc, if_neg hn, if_neg (fun h => hn h.2)]
  simp only [digitLoopT, digitLoop, erase_loop, hbody]

theorem erase_numberFracT (H : Host D) (v : FracPart D) : erase (numberFracT H v) = numberFrac H v := by
  simp only [numberFracT, numberFrac, erase_bind, erase_lift, erase_charclassT, Scan.pure_bind, erase_ite,
    erase_pure, erase_digitLoopT]
  refine bind_congr fun c => ?_
  by_cases hc : c = some '.'.toUInt8
  · subst hc
    refine bind_congr fun cc => ?_
    by_cases hn : CHARCLASS H cc = NUMERIC
    · rw [if_pos hn, if_pos ⟨rfl, hn⟩]
    · rw [if_neg hn, if_neg (fun h => hn h.2)]
  · have hb : (c == some '.'.toUInt8) = false := by simpa using hc
    have hno : ¬ (c = some '.'.toUInt8 ∧ CHARCLASS H none = NUMERIC) := fun h => hc h.1
    rw [if_neg hc, hb]
    exact (if_neg hno).symm

theorem erase_numberExpT (H : Host D) : erase (numberExpT H) = numberExp H := by
  simp only [numberExpT, numberExp, erase_bind, erase_lift, erase_ite, erase_pure, erase_digitLoopT]

theorem erase_numberT (src : Source) (H : Host D) (tok : Token D) : erase (numberT src H tok) = number src H tok := by
  simp only [numberT, number, numberInt, erase_bind, erase_lift, erase_note, erase_ite, erase_digitLoopT,
    erase_numberFracT, erase_numberExpT, Scan.pure_bind]

/-- **The traced lexer is the lexer.** -/
theorem erase_gettokenT (src : Source) (H : Host D) : erase (gettokenT src H) = gettoken src H := by
  simp only [gettokenT, gettoken, scanToken, erase_bind, erase_lift, erase_charclassT, Scan.pure_bind, erase_ite,
    erase_identifierT, erase_numberT, erase_pure]

end Lexer
end Asg1
