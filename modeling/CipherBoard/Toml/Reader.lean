/-
CipherBoard.Toml.Reader — TOML documents.

A document is a sequence of lines: headings, names with values, and lines with nothing but a
comment. Reading stops at the first line that is none of these or that does not fit to the lines
before it. Between the brackets of an array or a table within a line, line breaks and comments
count as blanks, except around the dots of a name.

Where a reader refuses it does not say why.
-/
import CipherBoard.Text.Taken
import CipherBoard.Toml.Scalar

namespace CipherBoard.Toml

open Text (Taken length_lt_cons length_le_cons)

/-- Reads something off the front. -/
abbrev Reader (α : Type) : Type :=
  (s : List Char) → Option (Taken α s)

namespace Reader

/-! ## Blanks and comments -/

/-- Whether a character may stand in a comment or in a string: a tab, or no control character. -/
def isPlain (c : Char) : Bool :=
  c == '\t' || (' ' ≤ c && c.toNat != 127)

/-- Whether a character is a blank within a line. -/
def isSpace (c : Char) : Bool :=
  c == ' ' || c == '\t'

/-- The text behind the blanks of a line. -/
def skipSpace (s : List Char) : List Char :=
  s.dropWhile isSpace

theorem length_skipSpace_le (s : List Char) : (skipSpace s).length ≤ s.length :=
  (List.dropWhile_suffix isSpace).length_le

/-- The text behind blanks and line breaks. -/
def skipGap : List Char → List Char
  | [] => []
  | c :: rest =>
    if isSpace c || c == '\n' then skipGap rest
    else if c = '\r' then
      match rest with
      | '\n' :: behind => skipGap behind
      | _ => c :: rest
    else c :: rest

theorem length_skipGap_le (s : List Char) : (skipGap s).length ≤ s.length := by
  match s with
  | [] => exact Nat.le_refl _
  | c :: rest =>
    unfold skipGap
    split
    · exact Nat.le_succ_of_le (length_skipGap_le rest)
    · split
      · split
        · next behind =>
          exact Nat.le_trans (length_skipGap_le behind)
            (Nat.le_trans (length_le_cons ..) (length_le_cons ..))
        · exact Nat.le_refl _
      · exact Nat.le_refl _
termination_by s.length

/-- The text behind blanks, line breaks and comments. -/
def skipFill (s : List Char) : List Char :=
  match h : skipGap s with
  | '#' :: rest =>
    have : (rest.dropWhile isPlain).length < s.length := by
      have h₁ := (List.dropWhile_suffix (l := rest) isPlain).length_le
      have h₂ := length_skipGap_le s
      rw [h] at h₂
      exact Nat.lt_of_le_of_lt h₁ h₂
    skipFill (rest.dropWhile isPlain)
  | behind => behind
termination_by s.length

theorem length_skipFill_le (s : List Char) : (skipFill s).length ≤ s.length := by
  have h₂ := length_skipGap_le s
  unfold skipFill
  split
  · next rest h =>
    have h₁ := (List.dropWhile_suffix (l := rest) isPlain).length_le
    rw [h] at h₂
    have h₃ := Nat.lt_of_le_of_lt h₁ h₂
    exact Nat.le_trans (length_skipFill_le (rest.dropWhile isPlain)) (Nat.le_of_lt h₃)
  · exact h₂
termination_by s.length

theorem length_of_skipFill {s rest : List Char} {c : Char} (h : skipFill s = c :: rest) :
    rest.length < s.length := by
  have := length_skipFill_le s
  rw [h] at this
  exact this

/-- The text behind a comment, if one begins here. -/
def skipComment : List Char → List Char
  | '#' :: rest => rest.dropWhile isPlain
  | s => s

theorem length_skipComment_le (s : List Char) : (skipComment s).length ≤ s.length := by
  fun_cases skipComment s with
  | case1 rest => exact Nat.le_succ_of_le (List.dropWhile_suffix isPlain).length_le
  | case2 => exact Nat.le_refl _

/-- The text behind a line break or the end of the document, if one is here. -/
def lineBreak? : List Char → Option (List Char)
  | [] => some []
  | '\n' :: rest => some rest
  | '\r' :: '\n' :: rest => some rest
  | _ => none

theorem length_lineBreak_le {s rest : List Char} (h : lineBreak? s = some rest) :
    rest.length ≤ s.length := by
  fun_cases lineBreak? s <;> grind [lineBreak?]

/-- The text behind the end of a line, which may hold a comment: none if something else stands
there. -/
def lineEnd? (s : List Char) : Option (List Char) :=
  lineBreak? (skipComment (skipSpace s))

theorem length_lineEnd_le {s rest : List Char} (h : lineEnd? s = some rest) :
    rest.length ≤ s.length :=
  Nat.le_trans (length_lineBreak_le h)
    (Nat.le_trans (length_skipComment_le _) (length_skipSpace_le s))

/-! ## Strings -/

/-- The character of a number, if it is one. -/
def charOf? (n : Nat) : Option Char :=
  if h : n.isValidChar then some (Char.ofNatAux n h) else none

/-- Reads a character that is written as so many hexadecimal digits. -/
def hexChar (digits : Nat) : Reader Char := fun s =>
  if h : (s.take digits).length = digits ∧ 0 < digits then do
    let values ← (s.take digits).mapM (digit? 16)
    let c ← charOf? (values.foldl (fun n d => n * 16 + d) 0)
    some ⟨c, s.drop digits, by simp only [List.length_take, List.length_drop] at *; omega⟩
  else none

/-- Reads what stands behind a backslash. -/
def escape : Reader Char := fun s =>
  match s with
  | [] => none
  | c :: rest =>
    if c = 'x' then (hexChar 2 rest).map (·.widen (length_le_cons ..))
    else if c = 'u' then (hexChar 4 rest).map (·.widen (length_le_cons ..))
    else if c = 'U' then (hexChar 8 rest).map (·.widen (length_le_cons ..))
    else
      ([('b', '\x08'), ('t', '\t'), ('n', '\n'), ('f', '\x0c'), ('r', '\r'), ('e', '\x1b'),
        ('\"', '\"'), ('\\', '\\')].lookup c).map fun e => ⟨e, rest, length_lt_cons ..⟩

/-- Reads a string of one line behind its opening mark. `seen` holds the characters read so far,
the last one first. Only between quotes a backslash means something. -/
def lineString (mark : Char) (seen : List Char) (s : List Char) : Option (Taken String s) :=
  match s with
  | [] => none
  | c :: rest =>
    if c = mark then some ⟨String.ofList seen.reverse, rest, length_lt_cons ..⟩
    else if c = '\\' ∧ mark = '\"' then
      match escape rest with
      | none => none
      | some e =>
        have := e.shorter
        (lineString mark (e.value :: seen) e.rest).map
          (·.widen (by simp only [List.length_cons]; omega))
    else if isPlain c then (lineString mark (c :: seen) rest).map (·.widen (length_le_cons ..))
    else none
termination_by s.length

/-- The text behind a line break with blanks and line breaks around it, if a line break is the
first thing behind the blanks. -/
def joinedLine? (s : List Char) : Option (List Char) :=
  match skipSpace s with
  | [] => none
  | rest => (lineBreak? rest).map skipGap

theorem length_joinedLine_le {s rest : List Char} (h : joinedLine? s = some rest) :
    rest.length ≤ s.length := by
  have hs := length_skipSpace_le s
  unfold joinedLine? at h
  split at h
  · simp at h
  · obtain ⟨behind, hb, rfl⟩ := Option.map_eq_some_iff.1 h
    have := length_lineBreak_le hb
    have := length_skipGap_le behind
    omega

/-- Reads a string of several lines behind its opening marks. Two marks may stand in front of the
three that close it. -/
def blockString (mark : Char) (seen : List Char) (s : List Char) : Option (Taken String s) :=
  match s with
  | [] => none
  | c :: rest =>
    if c = mark then
      match rest with
      | a :: b :: behind =>
        if a = mark ∧ b = mark then
          match behind with
          | d :: e :: more =>
            if d = mark ∧ e = mark then
              some ⟨String.ofList (mark :: mark :: seen).reverse, more, by simp; omega⟩
            else if d = mark then
              some ⟨String.ofList (mark :: seen).reverse, e :: more, by simp⟩
            else some ⟨String.ofList seen.reverse, d :: e :: more, by simp⟩
          | [d] =>
            if d = mark then some ⟨String.ofList (mark :: seen).reverse, [], by simp⟩
            else some ⟨String.ofList seen.reverse, [d], by simp⟩
          | [] => some ⟨String.ofList seen.reverse, [], by simp⟩
        else (blockString mark (c :: seen) (a :: b :: behind)).map (·.widen (by simp))
      | _ => none
    else if c = '\\' ∧ mark = '\"' then
      match h : joinedLine? rest with
      | some behind =>
        have := length_joinedLine_le h
        (blockString mark seen behind).map (·.widen (by simp only [List.length_cons]; omega))
      | none =>
        match escape rest with
        | none => none
        | some e =>
          have := e.shorter
          (blockString mark (e.value :: seen) e.rest).map
            (·.widen (by simp only [List.length_cons]; omega))
    else if isPlain c || c == '\n' then
      (blockString mark (c :: seen) rest).map (·.widen (length_le_cons ..))
    else if c = '\r' then
      match rest with
      | '\n' :: behind =>
        (blockString mark ('\n' :: c :: seen) behind).map
          (·.widen (by simp only [List.length_cons]; omega))
      | _ => none
    else none
termination_by s.length

/-- The text behind a line break at the front. -/
def skipBreak : List Char → List Char
  | '\n' :: rest => rest
  | '\r' :: '\n' :: rest => rest
  | s => s

theorem length_skipBreak_le (s : List Char) : (skipBreak s).length ≤ s.length := by
  fun_cases skipBreak s <;> grind [skipBreak]

/-- Reads a string behind its first mark. -/
def string (mark : Char) : Reader String := fun s =>
  match s with
  | a :: b :: rest =>
    if a = mark ∧ b = mark then
      (blockString mark [] (skipBreak rest)).map
        (·.widen (by have := length_skipBreak_le rest; simp only [List.length_cons]; omega))
    else lineString mark [] (a :: b :: rest)
  | s => lineString mark [] s

/-! ## Names -/

/-- Whether a character may stand in a name without quotes. -/
def isNameChar (c : Char) : Bool :=
  c.isAlphanum || c == '_' || c == '-'

/-- Reads a name, with or without quotes. -/
def name : Reader String := fun s =>
  match s with
  | [] => none
  | c :: rest =>
    if c = '\"' ∨ c = '\'' then (lineString c [] rest).map (·.widen (length_le_cons ..))
    else if isNameChar c then
      some ⟨String.ofList (c :: rest.takeWhile isNameChar), rest.dropWhile isNameChar, by
        have := (List.dropWhile_suffix (l := rest) isNameChar).length_le
        simp only [List.length_cons]; omega⟩
    else none

/-- How many names may be joined by dots. -/
def longestPath : Nat := 80

/-- Reads at most `room` names joined by dots: the last one, and those in front of it. -/
def path : (room : Nat) → Reader (List String × String)
  | 0, _ => none
  | room + 1, s =>
    match name s with
    | none => none
    | some first =>
      match h : skipSpace first.rest with
      | '.' :: behind =>
        have : (skipSpace behind).length ≤ s.length := by
          have h₁ := length_skipSpace_le behind
          have h₂ := length_skipSpace_le first.rest
          have h₃ := first.shorter
          rw [h] at h₂
          simp only [List.length_cons] at h₂
          omega
        (path room (skipSpace behind)).map fun more =>
          (more.map fun (ahead, last) => (first.value :: ahead, last)).widen this
      | _ => some (first.map fun last => ([], last))

/-! ## Values -/

/-- Whether a character may stand in a number, a truth value, a date or a time. -/
def isWordChar (c : Char) : Bool :=
  isNameChar c || c == '+' || c == '.' || c == ':'

/-- How much of the text is one word. A day may be followed by a blank and a time. -/
def wordLength (s : List Char) : Nat :=
  let first := s.takeWhile isWordChar
  match s.drop first.length with
  | ' ' :: c :: rest =>
    if isDay first && c.isDigit then first.length + 1 + ((c :: rest).takeWhile isWordChar).length
    else first.length
  | _ => first.length

/-- Reads a value that is one word. -/
def word : Reader Value
  | [] => none
  | c :: rest =>
    let size := wordLength (c :: rest)
    if h : 0 < size then
      (scalar? ((c :: rest).take size)).map fun v =>
        ⟨v, (c :: rest).drop size, by simp only [List.length_drop, List.length_cons]; omega⟩
    else none

/-- Reads the items of an array that are left, and the closing bracket. -/
def items (item : Reader Value) (seen : List Value) (s : List Char) :
    Option (Taken (List Value) s) :=
  match h : skipFill s with
  | [] => none
  | c :: rest =>
    have hc : rest.length < s.length := length_of_skipFill h
    if c = ']' then some ⟨seen.reverse, rest, hc⟩
    else
      match item (c :: rest) with
      | none => none
      | some v =>
        have hv : v.rest.length < s.length := Nat.lt_of_lt_of_le v.shorter hc
        match h' : skipFill v.rest with
        | ',' :: behind =>
          have : behind.length < s.length := Nat.lt_trans (length_of_skipFill h') hv
          (items item (v.value :: seen) behind).map (·.widen (Nat.le_of_lt this))
        | ']' :: behind =>
          some ⟨(v.value :: seen).reverse, behind, Nat.lt_trans (length_of_skipFill h') hv⟩
        | _ => none
termination_by s.length

/-- A name with a value: the names in front of it, the name, and the value. -/
structure Definition where
  path : List String
  name : String
  value : Value

/-- What may stand around an equals sign, as the text behind it. -/
structure Padding where
  skip : List Char → List Char
  length_skip_le : ∀ s, (skip s).length ≤ s.length

/-- Blanks within a line. -/
def Padding.space : Padding :=
  ⟨skipSpace, length_skipSpace_le⟩

/-- Blanks, line breaks and comments. -/
def Padding.fill : Padding :=
  ⟨skipFill, length_skipFill_le⟩

/-- Reads a name, an equals sign and a value. -/
def definition (padding : Padding) (item : Reader Value) : Reader Definition := fun s =>
  match path longestPath s with
  | none => none
  | some key =>
    match h : padding.skip key.rest with
    | '=' :: behind =>
      (item (padding.skip behind)).map fun v =>
        (v.map fun v => ⟨key.value.1, key.value.2, v⟩).widen (by
          have h₁ := padding.length_skip_le key.rest
          have h₂ := padding.length_skip_le behind
          have h₃ := key.shorter
          rw [h] at h₁
          simp only [List.length_cons] at h₁
          omega)
    | _ => none

/-- Reads the definitions of a table within a line that are left, and the closing brace. -/
def definitions (item : Reader Value) (table : Node) (s : List Char) : Option (Taken Value s) :=
  match h : skipFill s with
  | [] => none
  | c :: rest =>
    have hc : rest.length < s.length := length_of_skipFill h
    if c = '\x7d' then some ⟨.inline, rest, hc⟩
    else
      match definition .fill item (c :: rest) with
      | none => none
      | some d =>
        have hv : d.rest.length < s.length := Nat.lt_of_lt_of_le d.shorter hc
        match table.define d.value.path d.value.name d.value.value, h' : skipFill d.rest with
        | some changed, ',' :: behind =>
          have : behind.length < s.length := Nat.lt_trans (length_of_skipFill h') hv
          (definitions item changed behind).map (·.widen (Nat.le_of_lt this))
        | some _, '\x7d' :: behind =>
          some ⟨.inline, behind, Nat.lt_trans (length_of_skipFill h') hv⟩
        | _, _ => none
termination_by s.length

/-- How deep arrays and tables within lines may be nested. -/
def deepest : Nat := 80

/-- Reads a value in which arrays and tables are nested at most `depth` deep. -/
def value : (depth : Nat) → Reader Value
  | _, [] => none
  | depth, c :: rest =>
    if c = '\"' ∨ c = '\'' then
      (string c rest).map fun r => (r.map .string).widen (length_le_cons ..)
    else if c = '[' then
      match depth with
      | 0 => none
      | depth + 1 =>
        (items (value depth) [] rest).map fun r => (r.map .array).widen (length_le_cons ..)
    else if c = '\x7b' then
      match depth with
      | 0 => none
      | depth + 1 =>
        (definitions (value depth) (.emptyTable .heading) rest).map (·.widen (length_le_cons ..))
    else word (c :: rest)

/-! ## Lines -/

/-- The tables of a document that has been read up to some line, and the path to the table to
which the next line belongs. -/
structure Progress where
  root : Node
  current : List String

/-- Reads a heading behind its opening brackets: a path between blanks, and the closing
brackets. -/
def heading (brackets : Nat) : Reader (List String × String) := fun s =>
  match path longestPath (skipSpace s) with
  | none => none
  | some key =>
    let behind := skipSpace key.rest
    if behind.take brackets = List.replicate brackets ']' then
      some ⟨key.value, behind.drop brackets, by
        have h₁ := length_skipSpace_le s
        have h₂ := length_skipSpace_le key.rest
        have h₃ := key.shorter
        simp only [behind, List.length_drop]
        omega⟩
    else none

/-- Reads a line that is not empty, without its end. -/
def line (p : Progress) : Reader Progress := fun s =>
  match s with
  | '[' :: '[' :: rest =>
    match heading 2 rest with
    | none => none
    | some key =>
      let (path, name) := key.value
      (p.root.changeAt false (Node.openItem name) path).map fun root =>
        (key.map fun _ => ⟨root, path ++ [name]⟩).widen (by simp only [List.length_cons]; omega)
  | '[' :: rest =>
    match heading 1 rest with
    | none => none
    | some key =>
      let (path, name) := key.value
      (p.root.changeAt false (Node.openTable name) path).map fun root =>
        (key.map fun _ => ⟨root, path ++ [name]⟩).widen (length_le_cons ..)
  | s => do
    let d ← definition .space (value deepest) s
    let define := Node.define d.value.path d.value.name d.value.value
    let root ← p.root.changeAt false define p.current
    some (d.map fun _ => { p with root })

/-- Reads the lines that are left. -/
def lines (p : Progress) (s : List Char) : Option Node :=
  match h : skipFill s with
  | [] => some p.root
  | c :: rest =>
    match line p (c :: rest) with
    | none => none
    | some r =>
      match h' : lineEnd? r.rest with
      | none => none
      | some behind =>
        have : behind.length < s.length := by
          have h₁ := length_skipFill_le s
          have h₂ := r.shorter
          have h₃ := length_lineEnd_le h'
          rw [h] at h₁
          omega
        lines r.value behind
termination_by s.length

end Reader

/-- The mark that may stand in front of a document to say that it is text. -/
def byteOrderMark : Char := '\uFEFF'

/-- Reads a document: the table that holds everything in it. -/
def read (text : String) : Option Node :=
  let start : Reader.Progress := ⟨.emptyTable .heading, []⟩
  match text.toList with
  | c :: rest => Reader.lines start (if c = byteOrderMark then rest else c :: rest)
  | [] => Reader.lines start []

end CipherBoard.Toml
