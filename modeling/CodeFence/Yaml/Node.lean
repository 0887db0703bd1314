import CodeFence.Yaml.Token

/-!
# YAML documents

Scalars, sequences and mappings, in block and in flow style, as far as the files of themes need
them.  There are no directives, tags, anchors or block scalars, and a text holds one document.
Reading is bounded by the number of tokens, which no nesting can exceed.
-/

namespace CodeFence.Yaml

/-- A YAML node.  A plain scalar is told from a quoted one, for only a plain one can mean nothing or
be a number. -/
inductive Node where
  | scalar (text : String) (isPlain : Bool)
  | sequence (items : List Node)
  | mapping (entries : List (Node × Node))

/-- The node that stands where nothing is written. -/
def Node.empty : Node :=
  .scalar "" true

mutual

/-- Reads a node.  The items of a sequence may stand right below a key or a value, without a block
of their own. -/
def node? (fuel : Nat) (inMapping : Bool) (tokens : List Token) : Option (Node × List Token) :=
  match fuel with
  | 0 => none
  | fuel + 1 =>
    match tokens with
    | .scalar text isPlain :: rest => some (.scalar text isPlain, rest)
    | .openList :: rest => listItems? fuel [] rest
    | .openRecord :: rest => recordEntries? fuel [] rest
    | .beginSequence :: rest => blockItems? fuel [] rest
    | .beginMapping :: rest => blockEntries? fuel [] rest
    | .dash :: _ => if inMapping then looseItems? fuel [] tokens else none
    | _ => none

/-- Reads a node where nothing may be written instead. -/
def optionalNode? (fuel : Nat) (inMapping : Bool) (tokens : List Token) :
    Option (Node × List Token) :=
  match fuel with
  | 0 => none
  | fuel + 1 =>
    match tokens with
    | .dash :: _ => if inMapping then node? fuel true tokens else some (.empty, tokens)
    | .key :: _ | .colon :: _ | .endBlock :: _ | .comma :: _ | .closeList :: _
    | .closeRecord :: _ => some (.empty, tokens)
    | _ => node? fuel inMapping tokens

/-- Reads the value of a key, if there is one. -/
def value? (fuel : Nat) (inMapping : Bool) (tokens : List Token) : Option (Node × List Token) :=
  match fuel with
  | 0 => none
  | fuel + 1 =>
    match tokens with
    | .colon :: rest => optionalNode? fuel inMapping rest
    | _ => some (.empty, tokens)

/-- Reads the items of a block sequence, latest first. -/
def blockItems? (fuel : Nat) (done : List Node) (tokens : List Token) :
    Option (Node × List Token) :=
  match fuel with
  | 0 => none
  | fuel + 1 =>
    match tokens with
    | .dash :: rest => do
      let (item, rest) ← optionalNode? fuel false rest
      blockItems? fuel (item :: done) rest
    | .endBlock :: rest => some (.sequence done.reverse, rest)
    | _ => none

/-- Reads the items of a sequence that is no block of its own, latest first. -/
def looseItems? (fuel : Nat) (done : List Node) (tokens : List Token) :
    Option (Node × List Token) :=
  match fuel with
  | 0 => none
  | fuel + 1 =>
    match tokens with
    | .dash :: rest => do
      let (item, rest) ← optionalNode? fuel false rest
      looseItems? fuel (item :: done) rest
    | _ => some (.sequence done.reverse, tokens)

/-- Reads the entries of a block mapping, latest first. -/
def blockEntries? (fuel : Nat) (done : List (Node × Node)) (tokens : List Token) :
    Option (Node × List Token) :=
  match fuel with
  | 0 => none
  | fuel + 1 =>
    match tokens with
    | .key :: rest => do
      let (key, rest) ← optionalNode? fuel true rest
      let (value, rest) ← value? fuel true rest
      blockEntries? fuel ((key, value) :: done) rest
    | .endBlock :: rest => some (.mapping done.reverse, rest)
    | _ => none

/-- Reads an item of a sequence in brackets: a node, or a pair that is a mapping of its own.  A
question mark without a key takes the mark behind it along. -/
def listItem? (fuel : Nat) (tokens : List Token) : Option (Node × List Token) :=
  match fuel with
  | 0 => none
  | fuel + 1 =>
    match tokens with
    | .key :: rest => do
      let (key, rest) ←
        match rest with
        | .colon :: rest | .comma :: rest | .closeList :: rest => some (.empty, rest)
        | _ => node? fuel false rest
      let (value, rest) ← value? fuel false rest
      some (.mapping [(key, value)], rest)
    | _ => node? fuel false tokens

/-- Reads the items of a sequence in brackets, latest first. -/
def listItems? (fuel : Nat) (done : List Node) (tokens : List Token) :
    Option (Node × List Token) :=
  match fuel with
  | 0 => none
  | fuel + 1 =>
    match tokens with
    | .closeList :: rest => some (.sequence done.reverse, rest)
    | _ => do
      let (item, rest) ← listItem? fuel tokens
      match rest with
      | .comma :: rest => listItems? fuel (item :: done) rest
      | .closeList :: rest => some (.sequence (item :: done).reverse, rest)
      | _ => none

/-- Reads an entry of a mapping in brackets: a pair, or a node that is a key without a value. -/
def recordEntry? (fuel : Nat) (tokens : List Token) : Option ((Node × Node) × List Token) :=
  match fuel with
  | 0 => none
  | fuel + 1 =>
    match tokens with
    | .key :: rest => do
      let (key, rest) ← optionalNode? fuel false rest
      let (value, rest) ← value? fuel false rest
      some ((key, value), rest)
    | _ => do
      let (key, rest) ← node? fuel false tokens
      some ((key, .empty), rest)

/-- Reads the entries of a mapping in brackets, latest first. -/
def recordEntries? (fuel : Nat) (done : List (Node × Node)) (tokens : List Token) :
    Option (Node × List Token) :=
  match fuel with
  | 0 => none
  | fuel + 1 =>
    match tokens with
    | .closeRecord :: rest => some (.mapping done.reverse, rest)
    | _ => do
      let (entry, rest) ← recordEntry? fuel tokens
      match rest with
      | .comma :: rest => recordEntries? fuel (entry :: done) rest
      | .closeRecord :: rest => some (.mapping (entry :: done).reverse, rest)
      | _ => none

end

/-- Reads the node of a document behind the mark that opens it. -/
def content? (tokens : List Token) : Option (Node × List Token) :=
  match tokens with
  | [] | .beginDocument :: _ | .endDocument :: _ => some (.empty, tokens)
  | _ => node? (4 * tokens.length + 4) false tokens

/-- Whether nothing but marks that close a document is left. -/
def isFinished (tokens : List Token) : Bool :=
  tokens.all fun
    | .endDocument => true
    | _ => false

/-- The one document of a row of tokens. -/
def Node.ofTokens? (tokens : List Token) : Option Node := do
  let (node, rest) ←
    match tokens with
    | .beginDocument :: rest => content? rest
    | _ => node? (4 * tokens.length + 4) false tokens
  if isFinished rest then some node else none

/-- Reads a text that holds one document. -/
def parse? (text : String) : Option Node :=
  let cs := normalizeBreaks text.toList
  if cs.all isAllowed then (tokens? cs).bind Node.ofTokens? else none

end CodeFence.Yaml
