import Aggregation.Text.Bytes
import Aggregation.Yaml.Folding

/-!
# Quoted scalars

Within single quotes a quote is written twice and everything else stands for
itself.  Within double quotes a backslash starts an escape, also of a line
break.
-/

namespace Aggregation.Yaml.Quoted

/-- How a word within quotes ends. -/
inductive Stop where
  /-- At a blank, a break, the closing quote, or the end of the text. -/
  | here
  /-- At a break that is escaped; the backslash is taken. -/
  | escapedBreak

/-- The characters of a word, how many characters they are written with, and how
the word ends. -/
structure Word where
  text : List Char := []
  size : Nat := 0
  stop : Stop := .here

def Word.cons (c : Char) (size : Nat) (word : Word) : Word :=
  { word with text := c :: word.text, size := word.size + size }

def readSingle : List Char → Word
  | '\'' :: '\'' :: rest => (readSingle rest).cons '\'' 2
  | c :: rest =>
    if isBlank c || isBreak c || c = '\'' then {}
      else (readSingle rest).cons c 1
  | [] => {}

/-- The character that a backslash and this letter stand for. -/
def escaped? : Char → Option Char
  | '0' => some '\x00'
  | 'a' => some '\x07'
  | 'b' => some '\x08'
  | 't' => some '\t'
  | '\t' => some '\t'
  | 'n' => some '\n'
  | 'v' => some '\x0b'
  | 'f' => some '\x0c'
  | 'r' => some '\r'
  | 'e' => some '\x1b'
  | ' ' => some ' '
  | '"' => some '"'
  | '/' => some '/'
  | '\\' => some '\\'
  | 'N' => some '\u0085'
  | '_' => some '\u00a0'
  | 'L' => some '\u2028'
  | 'P' => some '\u2029'
  | _ => none

/-- The character of hexadecimal digits.  Surrogates, and numbers beyond all
characters, have none. -/
def codePoint? (digits : List Char) : Option Char := do
  let n ← digits.foldlM (fun n c => (Text.hexDigit? c).map (16 * n + ·)) 0
  if h : n.isValidChar then some (Char.ofNatAux n h) else none

def readDouble : List Char → Option Word
  | [] => some {}
  | '\\' :: 'x' :: a :: b :: rest => do
    let c ← codePoint? [a, b]
    (readDouble rest).map (Word.cons c 4)
  | '\\' :: 'u' :: a :: b :: c :: d :: rest => do
    let c ← codePoint? [a, b, c, d]
    (readDouble rest).map (Word.cons c 6)
  | '\\' :: 'U' :: a :: b :: c :: d :: e :: f :: g :: h :: rest => do
    let c ← codePoint? [a, b, c, d, e, f, g, h]
    (readDouble rest).map (Word.cons c 10)
  | '\\' :: c :: rest =>
    if isBreak c then some { size := 1, stop := .escapedBreak }
    else do
      let c ← escaped? c
      (readDouble rest).map (Word.cons c 2)
  | c :: rest =>
    if isBlank c || isBreak c || c = '"' then some {}
    else if c = '\\' then none
    else (readDouble rest).map (Word.cons c 1)

def readWord (quote : Char) (cs : List Char) : Option Word :=
  if quote = '"' then readDouble cs else some (readSingle cs)

/-- Reads words and gaps up to the closing quote.  The marks that begin and end
documents may not stand at the start of a line. -/
def readWords (quote : Char) :
    Nat → List Char → Cursor → Option (List Char × Cursor)
  | 0, _, _ => none
  | fuel + 1, text, cursor =>
    if cursor.atMarker then none
    else do
      let word ← readWord quote cursor.rest
      let text := text ++ word.text
      let cursor := cursor.skip word.size
      let (gap, cursor) :=
        match word.stop with
        | .here => (({} : Gap), cursor)
        | .escapedBreak => (Gap.afterEscapedBreak, cursor.skipBreak.2)
      match cursor.rest with
      | [] => none
      | c :: _ =>
        if c = quote then some (text, cursor.skip 1)
        else
          let (gap, cursor) ← Gap.read 0 gap cursor
          readWords quote fuel (text ++ gap.text) cursor

/-- Reads a quoted scalar from its opening quote on. -/
def read (quote : Char) (cursor : Cursor) : Option (String × Cursor) :=
  (readWords quote (cursor.rest.length + 1) [] (cursor.skip 1)).map
    fun (text, cursor) =>
    (String.ofList text, cursor)

end Aggregation.Yaml.Quoted
