/-
CipherBoard.Proofs.Keywords — a keyword text decodes to the words it is made of.

The settings of a level hold their keywords in one text, a word on each line. Reading it takes the
blanks off both ends of the text, cuts what is left into lines, and takes the blanks off both ends
of each line. The two kinds of trimming meet on the first line and on the last.

* `Text.Blank`, `Text.Gap` — blanks, and blanks within a line; `trim_blank_append` and
  `trim_append_append` say what trimming leaves of a text that is put together.
* `Text.trimmedLines` — the lines of a text, each trimmed. `lines_eq_splitOn` takes what is to be
  known of lines from the library.
* `PaddedWord` — a word with blanks around it on its line.
* `Text.Spells` — a text that begins with its first word and ends with its last; `exists_spells`
  finds it within padded words, and `Spells.trimmedLines_eq` reads it, both by induction over the
  words.
* `keyword_text` — what a level makes of padded words, and of a text with a blank line.
-/
import CipherBoard.Proofs.Acceptance
import Mathlib.Data.List.DropRight

namespace CipherBoard

namespace Text

/-! ## Section 1 — blanks -/

/-- Nothing but blanks. -/
def Blank (cs : List Char) : Prop :=
  ∀ c ∈ cs, isBlank c = true

instance (cs : List Char) : Decidable (Blank cs) :=
  decidable_of_iff (cs.all isBlank = true) List.all_eq_true

/-- Blanks that do not end a line. -/
structure Gap (cs : List Char) : Prop where
  blank : Blank cs
  oneLine : '\n' ∉ cs

variable {cs lead tail front mid back gap : List Char}

theorem Blank.append (hlead : Blank lead) (htail : Blank tail) : Blank (lead ++ tail) := by
  intro c hc
  rcases List.mem_append.mp hc with hc | hc
  · exact hlead c hc
  · exact htail c hc

theorem trim_eq (cs : List Char) : trim cs = (cs.dropWhile isBlank).rdropWhile isBlank := rfl

theorem dropWhile_blank_append (hlead : Blank lead) :
    (lead ++ cs).dropWhile isBlank = cs.dropWhile isBlank :=
  List.dropWhile_append_of_pos hlead

theorem rdropWhile_append_blank (htail : Blank tail) :
    (cs ++ tail).rdropWhile isBlank = cs.rdropWhile isBlank := by
  have hreverse : Blank tail.reverse := fun c hc => htail c (List.mem_reverse.mp hc)
  rw [List.rdropWhile, List.rdropWhile, List.reverse_append, dropWhile_blank_append hreverse]

/-- Trimming at the front does not get past what is not blank. -/
theorem dropWhile_append_of_not_blank (hfront : ¬ Blank front) :
    (front ++ cs).dropWhile isBlank = front.dropWhile isBlank ++ cs := by
  have hrest : front.dropWhile isBlank ≠ [] := mt List.dropWhile_eq_nil_iff.mp hfront
  rw [List.dropWhile_append, if_neg (by simpa using hrest)]

theorem rdropWhile_append_of_not_blank (hback : ¬ Blank back) :
    (cs ++ back).rdropWhile isBlank = cs ++ back.rdropWhile isBlank := by
  have hreverse : ¬ Blank back.reverse := fun h => hback fun c hc => h c (List.mem_reverse.mpr hc)
  rw [List.rdropWhile, List.rdropWhile, List.reverse_append,
    dropWhile_append_of_not_blank hreverse, List.reverse_append, List.reverse_reverse]

/-- What is left at the front begins with something that is not blank. -/
theorem not_blank_dropWhile (h : ¬ Blank cs) : ¬ Blank (cs.dropWhile isBlank) := by
  intro hblank
  refine h fun c hc => ?_
  rw [← List.takeWhile_append_dropWhile (p := isBlank) (l := cs)] at hc
  rcases List.mem_append.mp hc with hc | hc
  · exact List.mem_takeWhile_imp hc
  · exact hblank c hc

/-- Only blanks are trimmed away altogether. -/
theorem trim_eq_nil_iff : trim cs = [] ↔ Blank cs := by
  rw [trim_eq, List.rdropWhile_eq_nil_iff]
  refine ⟨fun h => ?_, fun h => ?_⟩
  · by_contra hnot
    exact not_blank_dropWhile hnot h
  · rw [List.dropWhile_eq_nil_iff.mpr h]
    simp

/-- Blanks at the ends of a text are trimmed away. -/
theorem trim_blank_append (hlead : Blank lead) (hnot : ¬ Blank cs) (htail : Blank tail) :
    trim (lead ++ cs ++ tail) = trim cs := by
  rw [trim_eq, trim_eq, List.append_assoc, dropWhile_blank_append hlead,
    dropWhile_append_of_not_blank hnot, rdropWhile_append_blank htail]

/-- Where both ends of a text hold more than blanks, trimming does not get past them. -/
theorem trim_append_append (hfront : ¬ Blank front) (hback : ¬ Blank back) :
    trim (front ++ mid ++ back) = front.dropWhile isBlank ++ mid ++ back.rdropWhile isBlank := by
  rw [trim_eq, List.append_assoc, dropWhile_append_of_not_blank hfront, ← List.append_assoc,
    rdropWhile_append_of_not_blank hback]

/-! ## Section 2 — lines -/

theorem lines_eq_splitOn (cs : List Char) : lines cs = cs.splitOn '\n' := by
  induction cs with
  | nil => simp [lines, List.splitOn]
  | cons c rest ih =>
    have hcons : (c :: rest).splitOn '\n' =
        if (c == '\n') = true then [] :: rest.splitOn '\n'
        else (rest.splitOn '\n').modifyHead (c :: ·) :=
      List.splitOnP_cons_eq_if_modifyHead c rest
    obtain ⟨line, more, hsplit⟩ :=
      List.exists_cons_of_ne_nil (show rest.splitOn '\n' ≠ [] by simp)
    rw [lines, ih, hcons, hsplit]
    simp

theorem lines_of_oneLine (h : '\n' ∉ cs) : lines cs = [cs] := by
  rw [lines_eq_splitOn, List.splitOn_eq_singleton h]

theorem lines_append_newline (front back : List Char) :
    lines (front ++ '\n' :: back) = lines front ++ lines back := by
  rw [lines_eq_splitOn, lines_eq_splitOn, lines_eq_splitOn, List.splitOn_append_cons_self]

/-- The lines of a text, each without the blanks around it. -/
def trimmedLines (cs : List Char) : List (List Char) :=
  (lines cs).map trim

theorem trimmedLines_append_newline (front back : List Char) :
    trimmedLines (front ++ '\n' :: back) = trimmedLines front ++ trimmedLines back := by
  rw [trimmedLines, lines_append_newline, List.map_append]
  rfl

theorem trimmedLines_of_oneLine (h : '\n' ∉ cs) : trimmedLines cs = [trim cs] := by
  rw [trimmedLines, lines_of_oneLine h, List.map_singleton]

/-- A blank before a text that does not end a line is trimmed away with the first line. -/
theorem trimmedLines_cons_blank {c : Char} (hblank : isBlank c = true) (hne : c ≠ '\n') :
    trimmedLines (c :: cs) = trimmedLines cs := by
  obtain ⟨line, more, hlines⟩ :=
    List.exists_cons_of_ne_nil (show lines cs ≠ [] by simp [lines_eq_splitOn])
  rw [trimmedLines, trimmedLines, lines, if_neg hne, hlines]
  simp [trim, hblank]

theorem trimmedLines_gap_append (hgap : Gap gap) : trimmedLines (gap ++ cs) = trimmedLines cs := by
  obtain ⟨hblank, hone⟩ := hgap
  induction gap with
  | nil => rfl
  | cons c rest ih =>
    rw [List.cons_append, trimmedLines_cons_blank (hblank c List.mem_cons_self)
      (List.ne_of_not_mem_cons hone).symm]
    exact ih (fun d hd => hblank d (List.mem_cons_of_mem c hd)) (List.not_mem_of_not_mem_cons hone)

/-- Trimming a text at the front takes lines away and adds none. -/
theorem mem_trimmedLines_of_dropWhile {line : List Char}
    (h : line ∈ trimmedLines (cs.dropWhile isBlank)) : line ∈ trimmedLines cs := by
  induction cs with
  | nil => exact h
  | cons c rest ih =>
    by_cases hblank : isBlank c = true
    · rw [List.dropWhile_cons_of_pos hblank] at h
      by_cases hne : c = '\n'
      · subst hne
        rw [show '\n' :: rest = [] ++ '\n' :: rest from rfl, trimmedLines_append_newline]
        exact List.mem_append_right _ (ih h)
      · rw [trimmedLines_cons_blank hblank hne]
        exact ih h
    · rwa [List.dropWhile_cons_of_neg hblank] at h

end Text

/-! ## Section 3 — padded words -/

theorem Level.isBlank_of_isKeyword {word : String} (h : Level.isKeyword word = true) :
    ∀ c ∈ word.toList, Text.isBlank c = false := by
  intro c hc
  obtain ⟨hlow, hhigh⟩ := (Level.isKeyword_iff.mp h).2 c hc
  have hlow' : 97 ≤ c.toNat := hlow
  have hhigh' : c.toNat ≤ 122 := hhigh
  simp [Text.isBlank, Text.blankRanges]
  omega

/-- A word over `a` … `z` with blanks on its line, before it and after it. -/
structure PaddedWord where
  before : List Char
  word : String
  after : List Char
  gap_before : Text.Gap before
  nonempty : word ≠ ""
  lower : ∀ c ∈ word.toList, 'a' ≤ c ∧ c ≤ 'z'
  gap_after : Text.Gap after

/-- The line of a padded word. -/
def PaddedWord.line (w : PaddedWord) : List Char :=
  w.before ++ w.word.toList ++ w.after

theorem PaddedWord.isKeyword_word (w : PaddedWord) : Level.isKeyword w.word = true :=
  Level.isKeyword_iff.mpr ⟨w.nonempty, w.lower⟩

namespace Text

/-- The text spells the words, one on each line, with blanks between them only. -/
inductive Spells : List String → List Char → Prop
  | one {word : String} (hword : Level.isKeyword word = true) : Spells [word] word.toList
  | cons {word : String} {words : List String} {after before cs : List Char}
    (hword : Level.isKeyword word = true) (hafter : Gap after) (hbefore : Gap before)
    (h : Spells words cs) :
    Spells (word :: words) (word.toList ++ after ++ '\n' :: (before ++ cs))

variable {words : List String} {word : String} {cs : List Char}

/-- **Padded words spell their words**, with blanks around the whole. -/
theorem exists_spells {ws : List PaddedWord} (hne : ws ≠ []) :
    ∃ before cs after, ['\n'].intercalate (ws.map PaddedWord.line) = before ++ cs ++ after ∧
      Gap before ∧ Gap after ∧ Spells (ws.map PaddedWord.word) cs := by
  induction ws with
  | nil => exact absurd rfl hne
  | cons w rest ih =>
    cases rest with
    | nil =>
      exact ⟨w.before, w.word.toList, w.after, by simp [PaddedWord.line], w.gap_before,
        w.gap_after, .one w.isKeyword_word⟩
    | cons v rest =>
      obtain ⟨before, cs, after, htext, hbefore, hafter, hspells⟩ := ih (List.cons_ne_nil v rest)
      refine ⟨w.before, w.word.toList ++ w.after ++ '\n' :: (before ++ cs), after, ?_,
        w.gap_before, hafter, .cons w.isKeyword_word w.gap_after hbefore hspells⟩
      rw [List.map_cons, List.map_cons, List.intercalate_cons_cons, ← List.map_cons, htext]
      simp [PaddedWord.line]

section

variable (h : Level.isKeyword word = true)
include h

theorem not_blank_of_isKeyword : ¬ Blank word.toList := by
  intro hblank
  obtain ⟨hne, _⟩ := Level.isKeyword_iff.mp h
  obtain ⟨c, rest, hcs⟩ := List.exists_cons_of_ne_nil (mt String.toList_eq_nil_iff.mp hne)
  have hc : c ∈ word.toList := by simp [hcs]
  have hnot := Level.isBlank_of_isKeyword h c hc
  rw [hblank c hc] at hnot
  cases hnot

theorem oneLine_of_isKeyword : '\n' ∉ word.toList := fun hmem =>
  absurd (Level.isBlank_of_isKeyword h _ hmem) (by decide)

theorem dropWhile_of_isKeyword : word.toList.dropWhile isBlank = word.toList := by
  have hsolid := Level.isBlank_of_isKeyword h
  cases hcs : word.toList with
  | nil => rfl
  | cons c rest =>
    rw [hcs] at hsolid
    rw [List.dropWhile_cons_of_neg (by simp [hsolid c List.mem_cons_self])]

theorem rdropWhile_of_isKeyword : word.toList.rdropWhile isBlank = word.toList := by
  refine List.rdropWhile_eq_self_iff.mpr fun hne => ?_
  simp [Level.isBlank_of_isKeyword h _ (List.getLast_mem hne)]

end

theorem Spells.not_blank (h : Spells words cs) : ¬ Blank cs := by
  cases h with
  | one hword => exact not_blank_of_isKeyword hword
  | cons hword =>
    exact fun hblank => not_blank_of_isKeyword hword fun c hc => hblank c (by simp [hc])

/-- What is spelt begins with a word. -/
theorem Spells.dropWhile_eq (h : Spells words cs) : cs.dropWhile isBlank = cs := by
  cases h with
  | one hword => exact dropWhile_of_isKeyword hword
  | cons hword =>
    rw [List.append_assoc, dropWhile_append_of_not_blank (not_blank_of_isKeyword hword),
      dropWhile_of_isKeyword hword]

/-- What is spelt ends with a word. -/
theorem Spells.rdropWhile_eq (h : Spells words cs) : cs.rdropWhile isBlank = cs := by
  induction h with
  | one hword => exact rdropWhile_of_isKeyword hword
  | @cons word _ after before cs _ _ _ h ih =>
    have hsplit : word.toList ++ after ++ '\n' :: (before ++ cs) =
        (word.toList ++ after ++ '\n' :: before) ++ cs := by simp
    rw [hsplit, rdropWhile_append_of_not_blank h.not_blank, ih]

theorem Spells.trim_eq_self (h : Spells words cs) : trim cs = cs := by
  rw [trim_eq, h.dropWhile_eq, h.rdropWhile_eq]

/-- The lines of what is spelt are the words. -/
theorem Spells.trimmedLines_eq (h : Spells words cs) :
    trimmedLines cs = words.map String.toList := by
  induction h with
  | one hword =>
    rw [trimmedLines_of_oneLine (oneLine_of_isKeyword hword), trim_eq,
      dropWhile_of_isKeyword hword, rdropWhile_of_isKeyword hword]
    rfl
  | @cons word words after before cs hword hafter hbefore _ ih =>
    have hone : '\n' ∉ word.toList ++ after := by
      simp [oneLine_of_isKeyword hword, hafter.oneLine]
    rw [trimmedLines_append_newline, trimmedLines_of_oneLine hone,
      trimmedLines_gap_append hbefore, ih, trim_eq,
      dropWhile_append_of_not_blank (not_blank_of_isKeyword hword), dropWhile_of_isKeyword hword,
      rdropWhile_append_blank hafter.blank, rdropWhile_of_isKeyword hword]
    rfl

end Text

namespace Level

/-! ## Section 4 — keyword texts -/

open Text

variable {front gap back : List Char}

theorem keywordsOf_eq (cs : List Char) :
    keywordsOf (String.ofList cs) = (trimmedLines (trim cs)).map String.ofList := by
  rw [keywordsOf, String.toList_ofList, trimmedLines, List.map_map]
  rfl

theorem isEmptyText_eq_false_iff {cs : List Char} :
    isEmptyText (String.ofList cs) = false ↔ ¬ Blank cs := by
  rw [isEmptyText, String.toList_ofList, ← trim_eq_nil_iff]
  cases trim cs <;> simp

/-- The text of padded words, with blanks before the first and after the last. -/
def paddedText (lead : List Char) (ws : List PaddedWord) (tail : List Char) : String :=
  String.ofList (lead ++ ['\n'].intercalate (ws.map PaddedWord.line) ++ tail)

/-- **Padded words decode to the words.** -/
theorem keywordsOf_paddedText {lead tail : List Char} {ws : List PaddedWord} (hne : ws ≠ [])
    (hlead : Blank lead) (htail : Blank tail) :
    keywordsOf (paddedText lead ws tail) = ws.map PaddedWord.word ∧
      isEmptyText (paddedText lead ws tail) = false := by
  obtain ⟨before, cs, after, htext, hbefore, hafter, hspells⟩ := exists_spells hne
  have hsplit : lead ++ ['\n'].intercalate (ws.map PaddedWord.line) ++ tail =
      (lead ++ before) ++ cs ++ (after ++ tail) := by
    rw [htext]
    simp
  rw [paddedText, hsplit]
  refine ⟨?_, isEmptyText_eq_false_iff.mpr fun hblank => ?_⟩
  · rw [keywordsOf_eq, trim_blank_append (hlead.append hbefore.blank) hspells.not_blank
      (hafter.blank.append htail), hspells.trim_eq_self, hspells.trimmedLines_eq, List.map_map]
    simp [Function.comp_def]
  · exact hspells.not_blank fun c hc => hblank c (by simp [hc])

/-- A text with a blank line between two that are not. -/
def brokenText (front gap back : List Char) : String :=
  String.ofList (front ++ '\n' :: (gap ++ '\n' :: back))

/-- The first keyword that is none stands on the blank line or before it. -/
theorem exists_invalid_of_brokenText (hfront : ¬ Blank front) (hgap : Gap gap)
    (hback : ¬ Blank back) :
    ∃ w, (keywordsOf (brokenText front gap back)).find? (!isKeyword ·) = some w ∧
      (w = "" ∨ isKeyword w = false ∧ ∃ line ∈ lines front, w = String.ofList (trim line)) := by
  have htrim : trim (front ++ '\n' :: (gap ++ '\n' :: back)) =
      front.dropWhile isBlank ++ '\n' :: (gap ++ '\n' :: back.rdropWhile isBlank) := by
    have hsplit : front ++ '\n' :: (gap ++ '\n' :: back) =
        front ++ ('\n' :: (gap ++ ['\n'])) ++ back := by simp
    rw [hsplit, trim_append_append hfront hback]
    simp
  have hgapline : trimmedLines gap = [[]] := by
    rw [trimmedLines_of_oneLine hgap.oneLine, trim_eq_nil_iff.mpr hgap.blank]
  have hwords : keywordsOf (brokenText front gap back) =
      (trimmedLines (front.dropWhile isBlank)).map String.ofList ++
        "" :: (trimmedLines (back.rdropWhile isBlank)).map String.ofList := by
    rw [brokenText, keywordsOf_eq, htrim, trimmedLines_append_newline,
      trimmedLines_append_newline, hgapline]
    simp
  have hempty : isKeyword "" = false := rfl
  rw [hwords, List.find?_append, List.find?_cons_of_pos (by simp [hempty])]
  cases hearlier : ((trimmedLines (front.dropWhile isBlank)).map String.ofList).find?
      (!isKeyword ·) with
  | none => exact ⟨"", rfl, Or.inl rfl⟩
  | some w =>
    refine ⟨w, rfl, Or.inr ⟨by simpa using List.find?_some hearlier, ?_⟩⟩
    obtain ⟨cs, hcs, rfl⟩ := List.mem_map.mp (List.mem_of_find?_eq_some hearlier)
    obtain ⟨line, hline, rfl⟩ := List.mem_map.mp (mem_trimmedLines_of_dropWhile hcs)
    exact ⟨line, hline, rfl⟩

/-! ## Section 5 — levels -/

variable {tileset : Tileset} {map : TileMap} {layer : Layer} {first : Nat} {o : MapObject}

/-- A level is refused for the first of its keywords that is none, whatever their number. -/
theorem layout_eq_invalidKeyword (hfirst : map.firstNumbers.head? = some first)
    (hlayer : map.layers.head? = some layer)
    (h : AcceptableBut tileset first layer.objects o) {text w : String}
    (htext : o.text? "keywords" = some text)
    (hblank : isEmptyText text = false)
    (hw : (keywordsOf text).find? (!isKeyword ·) = some w) :
    layout tileset map = .error (.invalidKeyword w) := by
  have hproperty : o.textProperty "keywords" "" = text := by rw [o.textProperty_eq, htext]; rfl
  rw [← hproperty] at hblank hw
  obtain ⟨es, hreads, hcount, hinput, hfound⟩ := h.exists_entries hblank
  rw [layout_eq_assemble hfirst hlayer hreads hcount, assemble]
  simp only [hinput, hfound, hw, ne_eq, not_true_eq_false, if_false]

/-- **What a level makes of a keyword text.** Words with blanks around them, each on its line, are
the keywords of the level, whatever blanks stand before the first and after the last. A blank
line between two that are not has the level refused, for the empty word or for one that stands
before the blank line. -/
theorem keyword_text (hfirst : map.firstNumbers.head? = some first)
    (hlayer : map.layers.head? = some layer)
    (h : AcceptableBut tileset first layer.objects o) :
    (∀ (ws : List PaddedWord) (lead tail : List Char) (n : Nat), ws ≠ [] → Blank lead →
      Blank tail → o.text? "keywords" = some (paddedText lead ws tail) →
      o.int? "num_keywords" = some (n : Int) → 1 ≤ n → n ≤ ws.length →
      ∃ l, layout tileset map = .ok l ∧ l.keywords = ws.map PaddedWord.word ∧
        l.requiredCount = n) ∧
    ∀ front gap back : List Char, ¬ Blank front → Gap gap → ¬ Blank back →
      o.text? "keywords" = some (brokenText front gap back) →
      ∃ w, layout tileset map = .error (.invalidKeyword w) ∧
        (w = "" ∨ isKeyword w = false ∧
          ∃ line ∈ lines front, w = String.ofList (Text.trim line)) := by
  constructor
  · intro ws lead tail n hne hlead htail htext hnumber hone hle
    obtain ⟨hkeywords, hblank⟩ := keywordsOf_paddedText hne hlead htail
    have hsettles : Settles o n (ws.map PaddedWord.word) := by
      refine settles_iff.mpr ?_
      rw [o.textProperty_eq, o.intProperty_eq, htext, hnumber]
      refine ⟨hblank, hkeywords.symm, fun w hw => ?_, rfl, hone, by simpa using hle⟩
      obtain ⟨padded, _, rfl⟩ := List.mem_map.mp hw
      exact padded.isKeyword_word
    obtain ⟨es, l, hreads, hcount, hassemble, hwords⟩ := h.exists_layout hsettles
    exact ⟨l, (layout_eq_assemble hfirst hlayer hreads hcount).trans hassemble, hwords⟩
  · intro front gap back hfront hgap hback htext
    obtain ⟨w, hw, hwhich⟩ := exists_invalid_of_brokenText hfront hgap hback
    have hblank : isEmptyText (brokenText front gap back) = false :=
      isEmptyText_eq_false_iff.mpr fun hblank => hfront fun c hc => hblank c (by simp [hc])
    exact ⟨w, layout_eq_invalidKeyword hfirst hlayer h htext hblank hw, hwhich⟩

/-- Settings with a text, and one keyword to be decoded. -/
def settingsOf (text : String) : MapObject :=
  ⟨3, ⟨0, 768⟩, 0, [⟨"keywords", "string", .string text⟩,
    ⟨"num_keywords", "int", .number (.whole 1)⟩]⟩

/-- The objects of a level with the settings: an input, and an output beside it. -/
def objectsOf (text : String) : List MapObject :=
  [settingsOf text, ⟨1, ⟨0, 96⟩, 0, []⟩, ⟨2, ⟨96, 96⟩, 270, []⟩]

theorem objectsOf_acceptableBut (text : String) :
    AcceptableBut fewTiles 1 (objectsOf text) (settingsOf text) where
  tile := by
    simp only [objectsOf, List.forall_mem_cons, ← exists_classOf?_iff]
    exact ⟨⟨_, rfl⟩, ⟨_, rfl⟩, ⟨_, rfl⟩, by simp⟩
  settings := rfl
  input := rfl
  piece := by
    have hturned : (0 : Float) == 0 ∧ (270 : Float) == 270 := by decide +kernel
    simp only [objectsOf, List.forall_mem_cons]
    refine ⟨fun cls hcls hne _ => ?_, fun cls hcls _ _ => ?_, fun cls hcls _ _ => ?_, by simp⟩
    · cases hcls
      exact absurd rfl hne
    · cases hcls
      exact ⟨⟨by decide, by decide⟩, by simp [hturned]⟩
    · cases hcls
      exact ⟨⟨by decide, by decide⟩, by simp [hturned]⟩

/-- Two words with blanks around them. -/
def twoWords : List PaddedWord :=
  [⟨[' '], "one", ['\t'], ⟨by decide, by decide⟩, by decide, (isKeyword_iff.mp rfl).2,
      ⟨by decide, by decide⟩⟩,
    ⟨[' '], "two", [], ⟨by decide, by decide⟩, by decide, (isKeyword_iff.mp rfl).2,
      ⟨by decide, by decide⟩⟩]

/-- The two words are the keywords of a level; with a blank line between them it has none. -/
theorem twoWords_decoded :
    (∃ l, layout fewTiles ⟨[1], [⟨objectsOf "\n one\t\n two\n\n"⟩]⟩ = .ok l ∧
      l.keywords = ["one", "two"] ∧ l.requiredCount = 1) ∧
    layout fewTiles ⟨[1], [⟨objectsOf "one\n \ntwo"⟩]⟩ = .error (.invalidKeyword "") := by
  have hpadded : "\n one\t\n two\n\n" = paddedText ['\n'] twoWords ['\n', '\n'] := by
    decide +kernel
  have hbroken : "one\n \ntwo" = brokenText "one".toList [' '] "two".toList := by
    decide +kernel
  constructor
  · exact (@keyword_text fewTiles ⟨[1], [⟨objectsOf _⟩]⟩ _ _ _ rfl rfl
      (objectsOf_acceptableBut _)).1 twoWords ['\n'] ['\n', '\n'] 1 (List.cons_ne_nil _ _)
      (by decide) (by decide) (congrArg some hpadded) rfl le_rfl (by decide)
  · obtain ⟨w, hw, hwhich⟩ := (@keyword_text fewTiles ⟨[1], [⟨objectsOf _⟩]⟩ _ _ _ rfl rfl
      (objectsOf_acceptableBut _)).2 "one".toList [' '] "two".toList (by decide)
      ⟨by decide, by decide⟩ (by decide) (congrArg some hbroken)
    rw [hw]
    -- The one line before the blank line holds a keyword.
    obtain rfl | ⟨hbad, line, hline, rfl⟩ := hwhich
    · rfl
    · rw [lines_of_oneLine (by decide)] at hline
      rw [List.mem_singleton.mp hline] at hbad
      exact absurd hbad (by decide)

end Level

end CipherBoard
