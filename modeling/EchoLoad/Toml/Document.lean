import EchoLoad.Toml.Lexeme
import EchoLoad.Toml.Number
/-!
TOML documents: values, tables, and the rules by which headers and dotted keys build them up. A
table is closed to some of these by the way it came about.
-/

namespace EchoLoad.Toml

/-- How a table came about. -/
inductive Origin where
  /-- Written in braces, and complete. -/
  | inline
  /-- Named by a header of its own. -/
  | header
  /-- Only passed through by longer headers. -/
  | implied
  /-- Made by a dotted key. -/
  | dotted
  deriving DecidableEq, Repr

inductive Value where
  | string (text : String)
  | integer (n : Int)
  | float
  | boolean (b : Bool)
  | datetime
  | array (items : List Value)
  | table (origin : Origin) (entries : List (String × Value))
  /-- Tables under one repeated header, the latest first. -/
  | tables (latest : List (String × Value)) (earlier : List (List (String × Value)))

abbrev Entries := List (String × Value)

namespace Entries

def set (k : String) (v : Value) : Entries → Entries
  | [] => [(k, v)]
  | (k', v') :: rest => if k' = k then (k, v) :: rest else (k', v') :: set k v rest

/-- Give a new key its value; the key may be dotted. The table that gets it must be the first one or
made by a dotted key, and none with a header of its own may lie on the way. -/
def insert : List String → Value → Entries → Option Entries
  | [], _, _ => none
  | [k], v, es => if (es.lookup k).isSome then none else some (es ++ [(k, v)])
  | k :: k' :: ks, v, es =>
    match es.lookup k with
    | none => (insert (k' :: ks) v []).map fun inner => es ++ [(k, .table .dotted inner)]
    | some (.table .dotted inner) =>
      (insert (k' :: ks) v inner).map fun inner => set k (.table .dotted inner) es
    | some (.table .implied inner) =>
      if ks = [] then none
      else (insert (k' :: ks) v inner).map fun inner => set k (.table .implied inner) es
    | some (.tables latest earlier) =>
      if ks = [] then none
      else (insert (k' :: ks) v latest).map fun latest => set k (.tables latest earlier) es
    | _ => none

/-- Change what stands under a path; on the way the latest of repeated tables is entered, and
missing tables are made. -/
def alter (f : Option Value → Option Value) : List String → Entries → Option Entries
  | [], _ => none
  | [k], es => (f (es.lookup k)).map fun v => set k v es
  | k :: k' :: ks, es =>
    match es.lookup k with
    | none => (alter f (k' :: ks) []).map fun inner => es ++ [(k, .table .implied inner)]
    | some (.table .inline _) => none
    | some (.table origin inner) =>
      (alter f (k' :: ks) inner).map fun inner => set k (.table origin inner) es
    | some (.tables latest earlier) =>
      (alter f (k' :: ks) latest).map fun latest => set k (.tables latest earlier) es
    | _ => none

end Entries

def openTable : Option Value → Option Value
  | none => some (.table .header [])
  | some (.table .implied es) => some (.table .header es)
  | _ => none

/-- A repeated header adds a table. -/
def addTable : Option Value → Option Value
  | none => some (.tables [] [])
  | some (.tables latest earlier) => some (.tables [] (latest :: earlier))
  | _ => none

def insertHere (key : List String) (v : Value) : Option Value → Option Value
  | some (.table .header es) => (Entries.insert key v es).map (.table .header ·)
  | some (.tables latest earlier) =>
    (Entries.insert key v latest).map (.tables · earlier)
  | _ => none

structure Document where
  entries : Entries := []
  /-- The path of the table that keys go to. -/
  current : List String := []

namespace Document

def insert (d : Document) (key : List String) (v : Value) : Option Document :=
  if d.current = [] then (Entries.insert key v d.entries).map ({ d with entries := · })
  else (d.entries.alter (insertHere key v) d.current).map ({ d with entries := · })

def enter (d : Document) (f : Option Value → Option Value) (path : List String) :
    Option Document :=
  (d.entries.alter f path).map fun entries => ⟨entries, path⟩

end Document

/-- A number, truth value or date. Between a date and a time there may be one space. -/
def word? (cs : List Char) : Option (Value × List Char) :=
  let word := cs.takeWhile isWordChar
  let rest := cs.dropWhile isWordChar
  if word = ['t', 'r', 'u', 'e'] then some (.boolean true, rest)
  else if word = ['f', 'a', 'l', 's', 'e'] then some (.boolean false, rest)
  else if isDateTime word then
    match rest with
    | ' ' :: c :: r =>
      if isDate word && c.isDigit then
        if isTimeWithOffset ((c :: r).takeWhile isWordChar) then
          some (.datetime, (c :: r).dropWhile isWordChar)
        else none
      else some (.datetime, rest)
    | _ => some (.datetime, rest)
  else
    match integer? word with
    | some n => some (.integer n, rest)
    | none => if isFloat word then some (.float, rest) else none

mutual

/-- A value. The first number bounds how deep values may lie inside one another, the second how
many elements there may be. -/
def value? : Nat → Nat → List Char → Option (Value × List Char)
  | depth, width, cs =>
    match cs with
    | '"' :: _ | '\'' :: _ => (string? cs).map fun (s, r) => (.string s, r)
    | '[' :: r =>
      match depth with
      | 0 => none
      | depth + 1 => elements depth width [] r
    | '{' :: r =>
      match depth with
      | 0 => none
      | depth + 1 =>
        match skipBlanks r with
        | '}' :: r => some (.table .inline [], r)
        | r => members depth width [] r
    | _ => word? cs
termination_by depth width _ => (depth, 2 * width + 1)

/-- The rest of an array, behind its bracket or a comma. -/
def elements : Nat → Nat → List Value → List Char → Option (Value × List Char)
  | _, 0, _, _ => none
  | depth, width + 1, read, cs => do
    match ← skipGap false cs with
    | ']' :: r => some (.array read.reverse, r)
    | r =>
      let (v, r) ← value? depth width r
      match ← skipGap false r with
      | ']' :: r => some (.array (v :: read).reverse, r)
      | ',' :: r => elements depth width (v :: read) r
      | _ => none
termination_by depth width _ _ => (depth, 2 * width)

/-- The rest of a table in braces, from a key on. -/
def members : Nat → Nat → Entries → List Char → Option (Value × List Char)
  | _, 0, _, _ => none
  | depth, width + 1, read, cs => do
    let (key, r) ← key? cs
    match r with
    | '=' :: r =>
      let (v, r) ← value? depth width (skipBlanks r)
      let read ← Entries.insert key v read
      match skipBlanks r with
      | '}' :: r => some (.table .inline read, r)
      | ',' :: r => members depth width read r
      | _ => none
    | _ => none
termination_by depth width _ _ => (depth, 2 * width)

end

def line? (d : Document) (cs : List Char) : Option (Document × List Char) := do
  match cs with
  | '[' :: '[' :: r =>
    match ← key? r with
    | (path, ']' :: ']' :: r) => return (← d.enter addTable path, ← endOfLine r)
    | _ => none
  | '[' :: r =>
    match ← key? r with
    | (path, ']' :: r) => return (← d.enter openTable path, ← endOfLine r)
    | _ => none
  | _ =>
    match ← key? cs with
    | (key, '=' :: r) =>
      let (v, r) ← value? (depthLimit - 1) r.length (skipBlanks r)
      return (← d.insert key v, ← endOfLine r)
    | _ => none

/-- The lines of a document. Each takes a character at least, which bounds their number. -/
def lines : Nat → Document → List Char → Option Document
  | 0, _, _ => none
  | n + 1, d, cs =>
    match skipBlanks cs with
    | [] => some d
    | '#' :: r => do lines n d (← endOfLine ('#' :: r))
    | '\n' :: r => lines n d r
    | '\r' :: '\n' :: r => lines n d r
    | r => do
      let (d, r) ← line? d r
      lines n d r

/-- The top-level entries of a document, if it is well formed. A byte order mark may lead it. -/
def document? (text : String) : Option Entries :=
  let cs := match text.toList with
    | c :: r => if c.toNat = 0xFEFF then r else c :: r
    | [] => []
  (lines (cs.length + 1) {} cs).map (·.entries)

end EchoLoad.Toml
