import Supervision.Toml.Scalar

/-!
# Reading a document

Text to statements, and statements to a table. A text that is not a document is answered by `none`;
where and why it fails is not kept. Arrays and inline tables lie at most eighty deep in one another.
Each reader takes something off the front of a text and returns it with what is left.
-/

namespace Supervision.Toml

/-- How deep arrays and inline tables may lie in one another. -/
def maxDepth : Nat := 80

/-- A space or a tab. -/
def isSpace (c : Char) : Bool :=
  c == ' ' || c == '\t'

/-- The characters that may stand in comments and between quotes. -/
def isPlain (c : Char) : Bool :=
  c == '\t' || (0x20 ≤ c.toNat && c.toNat != 0x7F)

def isBareKey (c : Char) : Bool :=
  c.isAlphanum || c == '_' || c == '-'

def isBareValue (c : Char) : Bool :=
  c.isAlphanum || c == '_' || c == '-' || c == '+' || c == '.' || c == ':'

def skipSpaces (cs : List Char) : List Char :=
  cs.dropWhile isSpace

def newline? : List Char → Option (List Char)
  | '\n' :: rest => some rest
  | '\r' :: '\n' :: rest => some rest
  | _ => none

/-- Drops a comment, if there is one, up to the newline. -/
def skipComment : List Char → List Char
  | '#' :: rest => rest.dropWhile isPlain
  | cs => cs

/-- Drops spaces and a comment up to the end of the line, and the newline unless the text ends. -/
def endOfLine? (cs : List Char) : Option (List Char) :=
  match skipComment (skipSpaces cs) with
  | [] => some []
  | rest => newline? rest

/-- Drops spaces, comments and newlines; `fuel` bounds the number of lines. -/
def skipLines : Nat → List Char → List Char
  | 0, cs => cs
  | fuel + 1, cs =>
    let rest := skipComment (skipSpaces cs)
    match newline? rest with
    | some after => skipLines fuel after
    | none => rest

def codePoint? (n : Nat) (cs : List Char) : Option (Char × List Char) := do
  let ds ← (cs.take n).mapM digitOf?
  let code := ofDigits 16 ds
  if ds.length = n ∧ code.isValidChar then some (Char.ofNat code, cs.drop n) else none

def escape? : List Char → Option (Char × List Char)
  | 'b' :: rest => some ('\x08', rest)
  | 't' :: rest => some ('\t', rest)
  | 'n' :: rest => some ('\n', rest)
  | 'f' :: rest => some ('\x0C', rest)
  | 'r' :: rest => some ('\r', rest)
  | 'e' :: rest => some ('\x1B', rest)
  | '"' :: rest => some ('"', rest)
  | '\\' :: rest => some ('\\', rest)
  | 'x' :: rest => codePoint? 2 rest
  | 'u' :: rest => codePoint? 4 rest
  | 'U' :: rest => codePoint? 8 rest
  | _ => none

/-- A string after its opening quote. -/
def basic? : Nat → List Char → Option (List Char × List Char)
  | 0, _ => none
  | _, [] => none
  | fuel + 1, c :: rest =>
    if c = '"' then some ([], rest)
    else if c = '\\' then do
      let (x, rest) ← escape? rest
      let (xs, rest) ← basic? fuel rest
      some (x :: xs, rest)
    else if isPlain c then do
      let (xs, rest) ← basic? fuel rest
      some (c :: xs, rest)
    else none

/-- A string without escapes after its opening quote. -/
def literal? (cs : List Char) : Option (List Char × List Char) :=
  match cs.dropWhile (fun c => isPlain c && c != '\'') with
  | '\'' :: rest => some (cs.takeWhile (fun c => isPlain c && c != '\''), rest)
  | _ => none

/-- A string of several lines after its opening quotes. Up to two quotes may stand inside, also
right before the closing ones. A backslash at the end of a line drops all blanks up to the next
character. -/
def lines? (quote : Char) : Nat → List Char → Option (List Char × List Char)
  | 0, _ => none
  | fuel + 1, cs =>
    match cs with
    | [] => none
    | c :: rest =>
      if c = quote then
        match rest with
        | q₂ :: q₃ :: after =>
          if q₂ = quote ∧ q₃ = quote then
            let more := (after.take 2).takeWhile (· == quote)
            some (more, after.drop more.length)
          else (lines? quote fuel rest).map (fun r => (c :: r.1, r.2))
        | _ => none
      else if c = '\\' ∧ quote = '"' then
        match newline? (skipSpaces rest) with
        | some after =>
          lines? quote fuel (after.dropWhile (fun c => isSpace c || c == '\n' || c == '\r'))
        | none => do
          let (x, rest) ← escape? rest
          let (xs, rest) ← lines? quote fuel rest
          some (x :: xs, rest)
      else
        match newline? cs with
        | some after => (lines? quote fuel after).map (fun r => ('\n' :: r.1, r.2))
        | none =>
          if isPlain c then (lines? quote fuel rest).map (fun r => (c :: r.1, r.2)) else none

/-- Drops a newline right after opening quotes. -/
def skipFirstNewline (cs : List Char) : List Char :=
  (newline? cs).getD cs

def string? : List Char → Option (String × List Char)
  | '"' :: '"' :: '"' :: rest =>
    (lines? '"' (rest.length + 1) (skipFirstNewline rest)).map (fun r => (String.ofList r.1, r.2))
  | '\'' :: '\'' :: '\'' :: rest =>
    (lines? '\'' (rest.length + 1) (skipFirstNewline rest)).map (fun r => (String.ofList r.1, r.2))
  | '"' :: rest => (basic? (rest.length + 1) rest).map (fun r => (String.ofList r.1, r.2))
  | '\'' :: rest => (literal? rest).map (fun r => (String.ofList r.1, r.2))
  | _ => none

def keyPart? (cs : List Char) : Option (String × List Char) :=
  match cs with
  | '"' :: rest => (basic? (rest.length + 1) rest).map (fun r => (String.ofList r.1, r.2))
  | '\'' :: rest => (literal? rest).map (fun r => (String.ofList r.1, r.2))
  | _ =>
    let part := cs.takeWhile isBareKey
    if part.isEmpty then none else some (String.ofList part, cs.dropWhile isBareKey)

/-- A key: its parts before the last, and the last. -/
def key? : Nat → List Char → Option ((List String × String) × List Char)
  | 0, _ => none
  | fuel + 1, cs => do
    let (part, rest) ← keyPart? (skipSpaces cs)
    match skipSpaces rest with
    | '.' :: rest =>
      let ((path, key), rest) ← key? fuel rest
      some ((part :: path, key), rest)
    | rest => some (([], part), rest)

/-- A value without quotes. A space may part a day from its time. -/
def bare? (cs : List Char) : Option (Toml × List Char) :=
  let first := cs.takeWhile isBareValue
  let rest := cs.dropWhile isBareValue
  match (skipDay? first), rest with
  | some [], ' ' :: d₁ :: d₂ :: ':' :: more =>
    if d₁.isDigit ∧ d₂.isDigit then
      let time := d₁ :: d₂ :: ':' :: more.takeWhile isBareValue
      (ofBare? (first ++ ' ' :: time)).map (fun v => (v, more.dropWhile isBareValue))
    else (ofBare? first).map (fun v => (v, rest))
  | _, _ => (ofBare? first).map (fun v => (v, rest))

mutual

/-- A value. `depth` says how much deeper it may go. -/
def value? (depth : Nat) : Nat → List Char → Option (Toml × List Char)
  | 0, _ => none
  | fuel + 1, cs =>
    match cs with
    | '[' :: rest =>
      match depth with
      | 0 => none
      | depth + 1 => (items? depth fuel rest).map (fun r => (.arr r.1, r.2))
    | '\x7b' :: rest =>
      match depth with
      | 0 => none
      | depth + 1 =>
        (members? depth fuel [] rest).map (fun r => (.table (entriesToToml r.1), r.2))
    | '"' :: _ => (string? cs).map (fun r => (.str r.1, r.2))
    | '\'' :: _ => (string? cs).map (fun r => (.str r.1, r.2))
    | _ => bare? cs

/-- The items of an array up to its closing bracket. -/
def items? (depth : Nat) : Nat → List Char → Option (List Toml × List Char)
  | 0, _ => none
  | fuel + 1, cs =>
    match skipLines cs.length cs with
    | ']' :: rest => some ([], rest)
    | cs => do
      let (v, rest) ← value? depth fuel cs
      match skipLines rest.length rest with
      | ']' :: rest => some ([v], rest)
      | ',' :: rest =>
        let (vs, rest) ← items? depth fuel rest
        some (v :: vs, rest)
      | _ => none

/-- The members of an inline table up to its closing brace, added to those already read. -/
def members? (depth : Nat) : Nat → Entries → List Char → Option (Entries × List Char)
  | 0, _, _ => none
  | fuel + 1, entries, cs =>
    match skipLines cs.length cs with
    | '\x7d' :: rest => some (entries, rest)
    | cs => do
      let ((path, key), rest) ← key? (cs.length + 1) cs
      match rest with
      | '=' :: rest =>
        let (v, rest) ← value? depth fuel (skipSpaces rest)
        let entries ← Entries.addDotted .header path key v entries
        match skipLines rest.length rest with
        | '\x7d' :: rest => some (entries, rest)
        | ',' :: rest => members? depth fuel entries rest
        | _ => none
      | _ => none

end

/-- A statement, up to the end of its line. -/
def statement? (cs : List Char) : Option (Statement × List Char) :=
  match cs with
  | '[' :: '[' :: rest => do
    let ((path, key), rest) ← key? (rest.length + 1) rest
    match rest with
    | ']' :: ']' :: rest => (endOfLine? rest).map (fun r => (.openNext path key, r))
    | _ => none
  | '[' :: rest => do
    let ((path, key), rest) ← key? (rest.length + 1) rest
    match rest with
    | ']' :: rest => (endOfLine? rest).map (fun r => (.openTable path key, r))
    | _ => none
  | _ => do
    let ((path, key), rest) ← key? (cs.length + 1) cs
    match rest with
    | '=' :: rest =>
      let (v, rest) ← value? maxDepth (2 * rest.length + 2) (skipSpaces rest)
      (endOfLine? rest).map (fun r => (.assign path key v, r))
    | _ => none

/-- All statements of a text. Each takes a character at least, so the length bounds their number. -/
def statements? : Nat → List Char → Option (List Statement)
  | 0, cs => if (skipLines cs.length cs).isEmpty then some [] else none
  | fuel + 1, cs =>
    match skipLines cs.length cs with
    | [] => some []
    | cs => do
      let (s, rest) ← statement? cs
      let ss ← statements? fuel rest
      some (s :: ss)

/-- Drops the mark that may stand before a text. -/
def skipMark : List Char → List Char
  | '\uFEFF' :: rest => rest
  | cs => cs

def read? (text : String) : Option (List (String × Toml)) := do
  let cs := skipMark text.toList
  ofStatements? (← statements? (cs.length + 1) cs)

end Supervision.Toml
