import Asg1.Lib.Loop

/-!
# `Lexer.Scan` — the standard input of the lexer and routines over it

`stdin` is the list of bytes still to be read. `getchar` and `ungetc` are the C library's, with `EOF` as `none`;
`peekchar` and `peek2char` are those of `scanner.c`, built from them. `ungetc` can push back any number of
bytes, which covers the two that `peek2char` needs, and pushing back `EOF` does nothing.

A routine of the lexer is a `Scan`: it takes the fuel for its loops and the lexer's globals, and returns
`none` only when a loop did not end within the fuel.
-/

namespace Asg1
namespace Lexer

/-- The bytes of a string literal of the source. -/
def bytes (s : String) : List UInt8 := s.toList.map Char.toUInt8

/-- The lexer's globals: the input still to be read, the end-of-file flag, and what has been printed. -/
structure LexState where
  stdin : List UInt8
  EOFFLG : Int := 0
  stdout : List String := []
deriving DecidableEq, Repr

/-- A routine over the globals. The first argument is the fuel of each loop it runs. -/
structure Scan (α : Type) where
  run : Nat → LexState → Option (α × LexState)

namespace Scan

variable {α β σ ρ : Type}

instance : Monad Scan where
  pure a := ⟨fun _ s => some (a, s)⟩
  bind m f := ⟨fun n s =>
    match m.run n s with
    | none => none
    | some (a, s') => (f a).run n s'⟩

@[simp] theorem run_pure (a : α) (n : Nat) (s : LexState) : (pure a : Scan α).run n s = some (a, s) := rfl

@[simp] theorem run_ite (p : Prop) [Decidable p] (m m' : Scan α) (n : Nat) (s : LexState) :
    (if p then m else m').run n s = if p then m.run n s else m'.run n s := by
  split <;> rfl

variable {n : Nat}

theorem run_bind {m : Scan α} {f : α → Scan β} {s s' : LexState} {a : α}
    (h : m.run n s = some (a, s')) : (m >>= f).run n s = (f a).run n s' := by
  show (match m.run n s with | none => none | some (a, s') => (f a).run n s') = _
  rw [h]

theorem bind_run (m : Scan α) (f : α → Scan β) (n : Nat) (s : LexState) :
    (m >>= f).run n s = (m.run n s).bind fun x => (f x.1).run n x.2 := by
  show (match m.run n s with | none => none | some (a, s') => (f a).run n s') = _
  cases m.run n s <;> rfl

@[simp] theorem run_pure_bind (a : α) (f : α → Scan β) (n : Nat) (s : LexState) :
    ((pure a : Scan α) >>= f).run n s = (f a).run n s := rfl

theorem pure_bind (a : α) (f : α → Scan β) : (pure a >>= f) = f a := rfl

/-- Routines that do the same on every input are the same. -/
theorem ext {m m' : Scan α} (h : ∀ n s, m.run n s = m'.run n s) : m = m' := by
  cases m
  cases m'
  congr
  funext n s
  exact h n s

/-- One iteration of a loop whose body is a routine, on the loop's variables and the globals. -/
def iter (body : σ → Scan (σ ⊕ ρ)) (n : Nat) (p : σ × LexState) : Option ((σ × LexState) ⊕ (ρ × LexState)) :=
  match (body p.1).run n p.2 with
  | none => none
  | some (.inl x', s') => some (.inl (x', s'))
  | some (.inr r, s') => some (.inr (r, s'))

/-- A C loop whose body is itself a routine: each iteration gets the whole fuel for its own loops. -/
def loop (body : σ → Scan (σ ⊕ ρ)) (x : σ) : Scan ρ := ⟨fun n s => Loop.run (iter body n) n (x, s)⟩

theorem iter_continue {body : σ → Scan (σ ⊕ ρ)} {x x' : σ} {s s' : LexState}
    (h : (body x).run n s = some (.inl x', s')) : iter body n (x, s) = some (.inl (x', s')) := by
  simp only [iter, h]

theorem iter_exit {body : σ → Scan (σ ⊕ ρ)} {x : σ} {r : ρ} {s s' : LexState}
    (h : (body x).run n s = some (.inr r, s')) : iter body n (x, s) = some (.inr (r, s')) := by
  simp only [iter, h]

end Scan

/-! ## The C library's character input -/

/-- `getchar()`: the next byte, or `EOF` at the end of the input, again and again. -/
def getchar : Scan (Option UInt8) := ⟨fun _ s =>
  match s.stdin with
  | [] => some (none, s)
  | c :: rest => some (some c, { s with stdin := rest })⟩

/-- `ungetc(c, stdin)`: push a byte back; pushing back `EOF` changes nothing. -/
def ungetc (c : Option UInt8) : Scan Unit := ⟨fun _ s =>
  match c with
  | none => some ((), s)
  | some c => some ((), { s with stdin := c :: s.stdin })⟩

/-- `printf` of one message. -/
def printf (msg : String) : Scan Unit := ⟨fun _ s => some ((), { s with stdout := s.stdout ++ [msg] })⟩

/-- `EOFFLG = 1;` -/
def setEOFFLG : Scan Unit := ⟨fun _ s => some ((), { s with EOFFLG := 1 })⟩

/-! ## Peeking (`scanner.c`) -/

/-- Peek at the next character without moving the pointer. -/
def peekchar : Scan (Option UInt8) := do
  let c ← getchar
  ungetc c
  return c

/-- Peek at the second character without moving the pointer. -/
def peek2char : Scan (Option UInt8) := do
  let c ← getchar
  let cc ← getchar
  ungetc cc
  ungetc c
  return cc

/-- `if (p) getchar();` -/
def getcharIf (p : Bool) : Scan (Option UInt8) := if p then getchar else pure none

/-- `p && f(peek2char())`: the second character is looked at only if `p`. -/
def peek2charIf (p : Bool) : Scan (Option UInt8) := if p then peek2char else pure none

/-! ## What the routines do to the stream -/

theorem getchar_run (n : Nat) (s : LexState) :
    getchar.run n s = some (s.stdin.head?, { s with stdin := s.stdin.tail }) := by
  obtain ⟨stdin, e, o⟩ := s
  cases stdin <;> rfl

/-- Peeking returns the next byte and leaves the whole state as it was, also at the end of the input. -/
theorem peekchar_run (n : Nat) (s : LexState) : peekchar.run n s = some (s.stdin.head?, s) := by
  obtain ⟨stdin, e, o⟩ := s
  cases stdin <;> rfl

/-- Peeking two ahead leaves the state as it was, also with no or one byte left. -/
theorem peek2char_run (n : Nat) (s : LexState) : peek2char.run n s = some (s.stdin.tail.head?, s) := by
  obtain ⟨stdin, e, o⟩ := s
  rcases stdin with _ | ⟨c, _ | ⟨cc, rest⟩⟩ <;> rfl

section Bind
variable {β : Type} (n : Nat) (s : LexState)

@[simp] theorem getchar_bind (f : Option UInt8 → Scan β) :
    (getchar >>= f).run n s = (f s.stdin.head?).run n { s with stdin := s.stdin.tail } :=
  Scan.run_bind (getchar_run n s)

@[simp] theorem peekchar_bind (f : Option UInt8 → Scan β) : (peekchar >>= f).run n s = (f s.stdin.head?).run n s :=
  Scan.run_bind (peekchar_run n s)

@[simp] theorem peek2char_bind (f : Option UInt8 → Scan β) :
    (peek2char >>= f).run n s = (f s.stdin.tail.head?).run n s :=
  Scan.run_bind (peek2char_run n s)

@[simp] theorem printf_bind (msg : String) (f : Unit → Scan β) :
    (printf msg >>= f).run n s = (f ()).run n { s with stdout := s.stdout ++ [msg] } := rfl

@[simp] theorem setEOFFLG_bind (f : Unit → Scan β) :
    (setEOFFLG >>= f).run n s = (f ()).run n { s with EOFFLG := 1 } := rfl

@[simp] theorem getcharIf_bind (p : Bool) (f : Option UInt8 → Scan β) :
    (getcharIf p >>= f).run n s
      = if p then (f s.stdin.head?).run n { s with stdin := s.stdin.tail } else (f none).run n s := by
  cases p
  · rfl
  · exact getchar_bind n s f

@[simp] theorem peek2charIf_bind (p : Bool) (f : Option UInt8 → Scan β) :
    (peek2charIf p >>= f).run n s
      = if p then (f s.stdin.tail.head?).run n s else (f none).run n s := by
  cases p
  · rfl
  · exact peek2char_bind n s f

end Bind

/-- **A loop computes `f`.** Every iteration either leaves with `f` of the current variables and globals, or
    goes on with `f` unchanged and less input. -/
theorem Scan.loop_eq {σ ρ : Type} {body : σ → Scan (σ ⊕ ρ)} (I : σ → LexState → Prop) (f : σ → LexState → ρ × LexState)
    (hbody : ∀ x s, I x s →
      (∃ x' s', (body x).run n s = some (.inl x', s') ∧ I x' s' ∧ s'.stdin.length < s.stdin.length ∧
        f x' s' = f x s) ∨
      (body x).run n s = some (.inr (f x s).1, (f x s).2))
    {x : σ} {s : LexState} (hI : I x s) (hn : s.stdin.length < n) : (Scan.loop body x).run n s = some (f x s) := by
  refine Loop.run_eq_of_measure (fun p => I p.1 p.2) (fun p => p.2.stdin.length) (fun p => f p.1 p.2)
    ?_ (x := (x, s)) hI hn
  rintro ⟨y, t⟩ hy
  rcases hbody y t hy with ⟨y', t', hb, hI', hlt, hf⟩ | hb
  · exact .inl ⟨(y', t'), Scan.iter_continue hb, hI', hlt, hf⟩
  · exact .inr (Scan.iter_exit hb)

end Lexer
end Asg1
