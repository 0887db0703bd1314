import CodeFence.Syntax.Capture
import CodeFence.Text.Split

/-!
# Lexemes

A grammar cuts a source into lexemes, each with a kind and its place.  Every character belongs to
one of them, except a byte order mark in front of the source.
-/

namespace CodeFence.Syntax

/-- A piece of a source that a grammar takes as a whole. -/
structure Lexeme (κ : Type) where
  kind : κ
  text : List Char
  start : Position

namespace Lexeme

variable {κ : Type}

/-- The place behind a lexeme. -/
def stop (l : Lexeme κ) : Position :=
  l.start.after l.text

/-- The whole lexeme under a name. -/
def capture (l : Lexeme κ) (name : String) : Capture :=
  ⟨name, l.start, l.stop⟩

end Lexeme

/-- What a grammar says about the beginning of a source: the kind of the first lexeme, its length,
and the state in which the next one is read. -/
structure Cut (σ κ : Type) where
  kind : κ
  length : Nat
  state : σ

/-- Cuts a source that starts at a place, behind the lexemes found so far, latest first.  A lexeme
has at least one character. -/
def lexemesOnto {σ κ : Type} (next : σ → Char → List Char → Cut σ κ) (state : σ) (p : Position)
    (done : List (Lexeme κ)) : List Char → List (Lexeme κ)
  | [] => done.reverse
  | c :: rest =>
    let cut := next state c rest
    let text := c :: rest.take (cut.length - 1)
    lexemesOnto next cut.state (p.after text) (⟨cut.kind, text, p⟩ :: done)
      (rest.drop (cut.length - 1))
termination_by cs => cs.length
decreasing_by
  simp only [List.length_drop, List.length_cons]
  omega

/-- The mark of its byte order that a source may begin with. -/
def orderMark : List Char → List Char
  | '\ufeff' :: _ => ['\ufeff']
  | _ => []

/-- A source without the mark of its byte order. -/
def dropOrderMark : List Char → List Char
  | '\ufeff' :: rest => rest
  | cs => cs

/-- The lexemes of a source. -/
def lexemes {σ κ : Type} (next : σ → Char → List Char → Cut σ κ) (start : σ) (code : List Char) :
    List (Lexeme κ) :=
  lexemesOnto next start (Position.origin.after (orderMark code)) [] (dropOrderMark code)

/-- How many characters at the beginning satisfy `p`. -/
def runLength (p : Char → Bool) (cs : List Char) : Nat :=
  (cs.takeWhile p).length

/-- How far a text goes up to the end of the first occurrence of `needle`, or at all. -/
def lengthThrough (needle cs : List Char) : Nat :=
  match Text.cutAround? needle cs with
  | some (before, _) => before.length + needle.length
  | none => cs.length

/-- How far a text goes up to and with the first `quote` that no backslash escapes, or at all,
counted from `n`. -/
def quotedLengthFrom (quote : Char) (n : Nat) : List Char → Nat
  | '\\' :: _ :: rest => quotedLengthFrom quote (n + 2) rest
  | c :: rest => if c = quote then n + 1 else quotedLengthFrom quote (n + 1) rest
  | [] => n

/-- How far a text goes up to and with the first `quote` that no backslash escapes, or at all. -/
def quotedLength (quote : Char) (cs : List Char) : Nat :=
  quotedLengthFrom quote 0 cs

end CodeFence.Syntax
