import RpcCatalog.Grammar.Lexeme
import RpcCatalog.Grammar.Rule

/-!
# Phrases

A grammar with ordered choice, as data: a `Phrase α` describes a piece of text that stands for a
value of type `α`. Between the parts of a phrase white space is skipped. Two functions give a
phrase its meaning.

* `Phrase.parse`: the value of the phrase at the front of a text, and what is left of the text.
* `Phrase.attempts`: which rules a parse tried in vain, at the furthest place where one failed.
  Syntax errors are made from it.
-/

set_option autoImplicit false

namespace RpcCatalog.Grammar

/-- A description of a piece of text that stands for a value. -/
inductive Phrase : Type → Type 1 where
  /-- One lexeme; its value is its text. -/
  | lexeme (rule : Rule) (scan : Scan) : Phrase String
  /-- A fixed mark. A missing mark is not among the rules that a syntax error names. -/
  | mark (text : List Char) : Phrase Unit
  | endOfInput : Phrase Unit
  | seq {α β γ : Type} (combine : α → β → γ) (first : Phrase α) (second : Phrase β) : Phrase γ
  /-- The first of two phrases that matches; the second is not tried where the first matches. -/
  | choice {α : Type} (first second : Phrase α) : Phrase α
  | many {α : Type} (item : Phrase α) : Phrase (List α)
  | optional {α : Type} (item : Phrase α) : Phrase (Option α)
  /-- A phrase that syntax errors know by the name of a rule. -/
  | named {α : Type} (rule : Rule) (phrase : Phrase α) : Phrase α
  | map {α β : Type} (f : α → β) (phrase : Phrase α) : Phrase β

instance : Functor Phrase where
  map f phrase := .map f phrase

instance : SeqLeft Phrase where
  seqLeft first second := .seq (fun a _ => a) first (second ())

instance : SeqRight Phrase where
  seqRight first second := .seq (fun _ b => b) first (second ())

instance {α : Type} : OrElse (Phrase α) where
  orElse first second := .choice first (second ())

/-! ## Parsing -/

/-- Items read by `step` from the front of a text, with white space before each, until `step` fails
or takes nothing. White space before the failing attempt is given back. -/
def collect {α : Type} (step : List Char → Option (α × List Char)) (s : List Char) :
    List α × List Char :=
  match step (skipBlanks s) with
  | none => ([], s)
  | some (a, r) =>
    if r.length < s.length then
      let (as, r') := collect step r
      (a :: as, r')
    else ([], s)
termination_by s.length

/-- The value of a phrase at the front of a text, and what is left of the text. -/
def Phrase.parse : {α : Type} → Phrase α → List Char → Option (α × List Char)
  | _, .lexeme _ scan, s => (scan s).map fun (t, r) => (String.ofList t, r)
  | _, .mark text, s => (Text.afterPrefix text s).map fun r => ((), r)
  | _, .endOfInput, s => if s.isEmpty then some ((), []) else none
  | _, .seq combine first second, s =>
    match first.parse s with
    | none => none
    | some (a, r) =>
      match second.parse (skipBlanks r) with
      | none => none
      | some (b, r') => some (combine a b, r')
  | _, .choice first second, s =>
    match first.parse s with
    | some result => some result
    | none => second.parse s
  | _, .many item, s => some (collect item.parse s)
  | _, .optional item, s =>
    match item.parse s with
    | some (a, r) => some (some a, r)
    | none => some (none, s)
  | _, .named _ phrase, s => phrase.parse s
  | _, .map f phrase, s => (phrase.parse s).map fun (a, r) => (f a, r)

/-! ## Failed attempts -/

/-- The rules that failed at the furthest place where a rule failed. A place is known by the number
of characters from there to the end of the text. -/
structure Attempts where
  /-- The number of characters after the furthest failure. -/
  remaining : Nat
  /-- The rules that failed there, the latest first. -/
  rules : List Rule
  deriving DecidableEq, Repr

namespace Attempts

/-- How many failures are known at the place with `remaining` characters after it. -/
def countAt (attempts : Attempts) (remaining : Nat) : Nat :=
  if attempts.remaining = remaining then attempts.rules.length else 0

/-- Enters the failure of `rule` at the place with `remaining` characters after it. If exactly one
failure was entered there since `before`, it says more than `rule` and is kept in its stead;
otherwise `rule` replaces those entered there since. A failure short of the furthest place is
dropped, one beyond it forgets all others. -/
def record (attempts before : Attempts) (rule : Rule) (remaining : Nat) : Attempts :=
  let earlier := before.countAt remaining
  if attempts.countAt remaining = earlier + 1 then attempts
  else if attempts.remaining < remaining then attempts
  else if attempts.remaining = remaining then
    ⟨remaining, rule :: attempts.rules.drop (attempts.rules.length - earlier)⟩
  else ⟨remaining, [rule]⟩

end Attempts

/-- The attempts of reading items by `step` until it fails. -/
def collectAttempts {α : Type} (step : List Char → Option (α × List Char))
    (attemptsAt : List Char → Attempts → Attempts) (s : List Char) (attempts : Attempts) :
    Attempts :=
  let attempts' := attemptsAt (skipBlanks s) attempts
  match step (skipBlanks s) with
  | none => attempts'
  | some (_, r) =>
    if r.length < s.length then collectAttempts step attemptsAt r attempts' else attempts'
termination_by s.length

/-- The attempts known after parsing a phrase at the front of a text, from those known before. A
failing attempt counts wherever it happens, also inside a phrase that matches in the end and inside
an alternative that is given up. -/
def Phrase.attempts : {α : Type} → Phrase α → List Char → Attempts → Attempts
  | _, .lexeme rule scan, s, before =>
    match scan s with
    | some _ => before
    | none => before.record before rule s.length
  | _, .mark _, _, before => before
  | _, .endOfInput, s, before =>
    if s.isEmpty then before else before.record before .endOfInput s.length
  | _, .seq _ first second, s, before =>
    let after := first.attempts s before
    match first.parse s with
    | none => after
    | some (_, r) => second.attempts (skipBlanks r) after
  | _, .choice first second, s, before =>
    let after := first.attempts s before
    match first.parse s with
    | some _ => after
    | none => second.attempts s after
  | _, .many item, s, before => collectAttempts item.parse item.attempts s before
  | _, .optional item, s, before => item.attempts s before
  | _, .named rule phrase, s, before =>
    let after := phrase.attempts s before
    match phrase.parse s with
    | some _ => after
    | none => after.record before rule s.length
  | _, .map _ phrase, s, before => phrase.attempts s before

/-- The furthest failure of a phrase that is tried on a whole text. -/
def Phrase.furthestFailure {α : Type} (phrase : Phrase α) (s : List Char) : Attempts :=
  phrase.attempts s ⟨s.length, []⟩

end RpcCatalog.Grammar
