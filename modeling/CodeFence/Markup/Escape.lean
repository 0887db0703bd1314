/-!
# Escaped text

Text inside markup writes the five characters that markup gives a meaning as entities.  Reading
decodes those five entities and leaves every other ampersand as it stands.

* `unescape_escape`: what was escaped reads back as itself.
-/

namespace CodeFence.Markup

/-- How one character is written inside element content and attribute values. -/
def escapeChar : Char → List Char
  | '&' => ['&', 'a', 'm', 'p', ';']
  | '<' => ['&', 'l', 't', ';']
  | '>' => ['&', 'g', 't', ';']
  | '"' => ['&', 'q', 'u', 'o', 't', ';']
  | '\'' => ['&', '#', '3', '9', ';']
  | c => [c]

/-- A text as it is written inside element content and attribute values. -/
def escapeChars (cs : List Char) : List Char :=
  cs.flatMap escapeChar

/-- Decodes a text behind what has been decoded so far, latest character first. -/
def unescapeOnto (done : List Char) : List Char → List Char
  | '&' :: 'a' :: 'm' :: 'p' :: ';' :: rest => unescapeOnto ('&' :: done) rest
  | '&' :: 'l' :: 't' :: ';' :: rest => unescapeOnto ('<' :: done) rest
  | '&' :: 'g' :: 't' :: ';' :: rest => unescapeOnto ('>' :: done) rest
  | '&' :: 'q' :: 'u' :: 'o' :: 't' :: ';' :: rest => unescapeOnto ('"' :: done) rest
  | '&' :: '#' :: '3' :: '9' :: ';' :: rest => unescapeOnto ('\'' :: done) rest
  | c :: rest => unescapeOnto (c :: done) rest
  | [] => done.reverse

/-- The text that markup stands for; an entity other than the five is kept as written. -/
def unescapeChars (cs : List Char) : List Char :=
  unescapeOnto [] cs

/-- `escapeChars` on strings. -/
def escape (s : String) : String :=
  String.ofList (escapeChars s.toList)

/-- `unescapeChars` on strings. -/
def unescape (s : String) : String :=
  String.ofList (unescapeChars s.toList)

theorem unescapeOnto_escapeChar (done : List Char) (c : Char) (rest : List Char) :
    unescapeOnto done (escapeChar c ++ rest) = unescapeOnto (c :: done) rest := by
  unfold escapeChar
  split <;> try rfl
  simp only [List.cons_append, List.nil_append]
  rw [unescapeOnto.eq_def]
  split <;> simp_all

theorem unescapeOnto_escapeChars (done cs : List Char) :
    unescapeOnto done (escapeChars cs) = done.reverse ++ cs := by
  induction cs generalizing done with
  | nil => simp [escapeChars, unescapeOnto]
  | cons c rest ih =>
    rw [escapeChars, List.flatMap_cons, unescapeOnto_escapeChar]
    simpa [escapeChars] using ih (c :: done)

theorem unescapeChars_escapeChars (cs : List Char) : unescapeChars (escapeChars cs) = cs := by
  simp [unescapeChars, unescapeOnto_escapeChars]

theorem unescape_escape (s : String) : unescape (escape s) = s := by
  simp [unescape, escape, unescapeChars_escapeChars]

end CodeFence.Markup
