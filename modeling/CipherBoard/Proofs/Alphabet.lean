/-
CipherBoard.Proofs.Alphabet — words over `a` … `z`.

* `LetterStep.isLower_apply` — a letter step leads from the alphabet back into it. The
  alphabet is short (`Letter.alphabet`), so this is looked up letter by letter.
* `Word.perm_swapHalves`, `perm_zigzag`, `perm_rotateLeft`, `perm_rotateRight` — the
  rearrangements are rearrangements.
* `Transform.length_apply`, `Transform.isLower_apply` — every transform keeps the length of
  a word, and the alphabet.
* `length_wordAfter`, `isLower_wordAfter` — so does every trail, by induction over its
  transforms.
* `Word.ofText_decodeLossy` — a word over the alphabet is the text that it spells.
* `lower_closed` — what this means for the states of a runner, and for the keywords of a
  level.
-/
import CipherBoard.Proofs.Acceptance
import CipherBoard.Proofs.Limit
import CipherBoard.Proofs.Trail

namespace CipherBoard

/-! ## Section 1 — letters -/

/-- The letters `a` … `z`, in order. -/
def Letter.alphabet : List UInt8 :=
  (List.range 26).map fun i => first + UInt8.ofNat i

theorem Letter.isLower_iff {b : UInt8} : isLower b = true ↔ 97 ≤ b.toNat ∧ b.toNat ≤ 122 := by
  simp [isLower, first, last, UInt8.le_iff_toNat_le]

theorem Letter.mem_alphabet {b : UInt8} (h : isLower b = true) : b ∈ alphabet := by
  rw [isLower_iff] at h
  refine List.mem_map.mpr ⟨b.toNat - 97, List.mem_range.mpr (by omega), ?_⟩
  apply UInt8.toNat_inj.mp
  rw [UInt8.toNat_add, UInt8.toNat_ofNat']
  show (97 + (b.toNat - 97) % 256) % 256 = b.toNat
  omega

/-- **A letter step keeps to the alphabet.** -/
theorem LetterStep.isLower_apply (step : LetterStep) {b : UInt8} (h : Letter.isLower b = true) :
    Letter.isLower (step.apply b) = true := by
  have hall : Letter.alphabet.all (fun c => Letter.isLower (step.apply c)) = true := by
    cases step <;> decide
  exact List.all_eq_true.mp hall b (Letter.mem_alphabet h)

/-! ## Section 2 — words -/

namespace Word

/-- All letters of a word are in the alphabet. -/
def IsLower (w : Word) : Prop :=
  ∀ b ∈ w, Letter.isLower b = true

variable {w v : Word} {b c : UInt8} {f g : UInt8 → UInt8}

@[simp] theorem isLower_nil : IsLower [] := by
  simp [IsLower]

@[simp] theorem isLower_cons : IsLower (b :: w) ↔ Letter.isLower b = true ∧ w.IsLower := by
  simp [IsLower]

theorem IsLower.perm (h : w.IsLower) (hp : v.Perm w) : v.IsLower :=
  fun b hb => h b (hp.mem_iff.mp hb)

theorem perm_swapHalves (w : Word) : w.swapHalves.Perm w := by
  unfold swapHalves
  dsimp only
  generalize hhalf : w.length / 2 = half
  generalize hsecond : half + w.length % 2 = second
  have hsplit : w.take half ++ (w.take second).drop half = w.take second := by
    have hparts := List.take_append_drop half (w.take second)
    rwa [List.take_take, Nat.min_eq_left (by omega)] at hparts
  calc w.drop second ++ (w.take second).drop half ++ w.take half
      List.Perm _ (w.take half ++ (w.drop second ++ (w.take second).drop half)) :=
        List.perm_append_comm
      List.Perm _ (w.take half ++ ((w.take second).drop half ++ w.drop second)) :=
        List.perm_append_comm.append_left _
      _ = w.take second ++ w.drop second := by rw [← List.append_assoc, hsplit]
      _ = w := List.take_append_drop second w

theorem perm_zigzag (w : Word) : w.zigzag.Perm w := by
  fun_induction zigzag w with
  | case1 b c rest ih => exact (List.Perm.swap b c _).trans ((ih.cons c).cons b)
  | case2 => exact .refl _

theorem perm_rotateLeft (w : Word) : w.rotateLeft.Perm w := by
  cases w with
  | nil => exact .refl _
  | cons b rest => exact List.perm_append_singleton b rest

theorem perm_rotateRight (w : Word) : w.rotateRight.Perm w := by
  unfold rotateRight
  cases hlast : w.getLast? with
  | none => exact .refl _
  | some b =>
    have hw : w.dropLast ++ [b] = w := List.dropLast_append_getLast? b hlast
    exact (List.perm_append_singleton b w.dropLast).symm.trans (.of_eq hw)

theorem perm_onTail {step : Word → Word} (h : ∀ v, (step v).Perm v) (w : Word) :
    (w.onTail step).Perm w := by
  cases w with
  | nil => exact .refl _
  | cons b rest => exact (h rest).cons b

theorem length_mapLast (f : UInt8 → UInt8) (w : Word) : (w.mapLast f).length = w.length := by
  fun_induction mapLast f w <;> simp_all

theorem length_mapButLast (f : UInt8 → UInt8) (w : Word) :
    (w.mapButLast f).length = w.length := by
  fun_induction mapButLast f w <;> simp_all

theorem length_alternate (f g : UInt8 → UInt8) (w : Word) :
    (w.alternate f g).length = w.length := by
  fun_induction alternate f g w <;> simp_all

theorem length_collapsePairs (w : Word) : w.collapsePairs.length = w.length := by
  fun_induction collapsePairs w <;> simp_all

end Word

/-- A step on letters keeps to the alphabet. -/
def KeepsLower (f : UInt8 → UInt8) : Prop :=
  ∀ b, Letter.isLower b = true → Letter.isLower (f b) = true

namespace Word

variable {w : Word} {f g : UInt8 → UInt8}

theorem IsLower.map (h : w.IsLower) (hf : KeepsLower f) : IsLower (w.map f) := by
  intro c hc
  obtain ⟨b, hb, rfl⟩ := List.mem_map.mp hc
  exact hf b (h b hb)

theorem IsLower.mapLast (h : w.IsLower) (hf : KeepsLower f) : (w.mapLast f).IsLower := by
  fun_induction Word.mapLast f w with
  | case1 => exact h
  | case2 b => simpa using hf b (by simpa using h)
  | case3 b c rest ih =>
    obtain ⟨hb, hrest⟩ := isLower_cons.1 h
    exact isLower_cons.2 ⟨hb, ih hrest⟩

theorem IsLower.mapButLast (h : w.IsLower) (hf : KeepsLower f) : (w.mapButLast f).IsLower := by
  fun_induction Word.mapButLast f w with
  | case1 => exact h
  | case2 b => exact h
  | case3 b c rest ih =>
    obtain ⟨hb, hrest⟩ := isLower_cons.1 h
    exact isLower_cons.2 ⟨hf b hb, ih hrest⟩

theorem IsLower.alternate (h : w.IsLower) (hf : KeepsLower f) (hg : KeepsLower g) :
    (w.alternate f g).IsLower := by
  induction w generalizing f g with
  | nil => exact h
  | cons b rest ih =>
    obtain ⟨hb, hrest⟩ := isLower_cons.1 h
    exact isLower_cons.2 ⟨hf b hb, ih hrest hg hf⟩

theorem IsLower.collapsePairs (h : w.IsLower) : w.collapsePairs.IsLower := by
  fun_induction Word.collapsePairs w with
  | case1 b c rest _ ih =>
    obtain ⟨hb, hc, hrest⟩ := by simpa using h
    exact isLower_cons.2 ⟨LetterStep.next.isLower_apply hb,
      isLower_cons.2 ⟨LetterStep.prev.isLower_apply hc, ih hrest⟩⟩
  | case2 b c rest _ ih =>
    obtain ⟨hb, hrest⟩ := isLower_cons.1 h
    exact isLower_cons.2 ⟨hb, ih hrest⟩
  | case3 => exact h

end Word

theorem Span.length_map (span : Span) (f : UInt8 → UInt8) (w : Word) :
    (span.map f w).length = w.length := by
  cases span with
  | all => exact List.length_map f
  | first => cases w <;> rfl
  | last => exact w.length_mapLast f
  | butFirst => cases w <;> simp [map]
  | butLast => exact w.length_mapButLast f
  | odd => exact w.length_alternate f id
  | even => exact w.length_alternate id f

theorem Span.isLower_map (span : Span) {f : UInt8 → UInt8} (hf : KeepsLower f) {w : Word}
    (h : w.IsLower) : (span.map f w).IsLower := by
  cases span with
  | all => exact h.map hf
  | first =>
    cases w with
    | nil => exact h
    | cons b rest => exact Word.isLower_cons.2 ((Word.isLower_cons.1 h).imp_left (hf b))
  | last => exact h.mapLast hf
  | butFirst =>
    cases w with
    | nil => exact h
    | cons b rest =>
      exact Word.isLower_cons.2 ((Word.isLower_cons.1 h).imp_right fun hrest => hrest.map hf)
  | butLast => exact h.mapButLast hf
  | odd => exact h.alternate hf fun _ => id
  | even => exact h.alternate (fun _ => id) hf

/-! ## Section 3 — transforms and runs -/

/-- Whether a transform only moves letters. -/
def Transform.rearranges : Transform → Bool
  | .letters _ _ | .collapsePairs => false
  | _ => true

theorem Transform.perm_apply {op : Transform} (h : op.rearranges = true) (w : Word) :
    (op.apply w).Perm w := by
  cases op with
  | reverse => exact List.reverse_perm w
  | swapHalves => exact w.perm_swapHalves
  | zigzag => exact w.perm_zigzag
  | rotateLeft keepFirst =>
    cases keepFirst
    · exact w.perm_rotateLeft
    · exact Word.perm_onTail Word.perm_rotateLeft w
  | rotateRight keepFirst =>
    cases keepFirst
    · exact w.perm_rotateRight
    · exact Word.perm_onTail Word.perm_rotateRight w
  | collapsePairs => cases h
  | letters => cases h

/-- **A transform keeps the length of a word.** -/
theorem Transform.length_apply (op : Transform) (w : Word) : (op.apply w).length = w.length := by
  cases op with
  | letters step span => exact span.length_map _ w
  | collapsePairs => exact w.length_collapsePairs
  | _ => exact (perm_apply rfl w).length_eq

/-- **A transform keeps to the alphabet.** -/
theorem Transform.isLower_apply (op : Transform) {w : Word} (h : w.IsLower) :
    (op.apply w).IsLower := by
  cases op with
  | letters step span => exact span.isLower_map (fun _ => step.isLower_apply) h
  | collapsePairs => exact h.collapsePairs
  | _ => exact h.perm (perm_apply rfl w)

theorem length_wordAfter (input : Word) (trail : List Piece) :
    (wordAfter input trail).length = input.length := by
  unfold wordAfter
  induction transforms trail generalizing input with
  | nil => rfl
  | cons op ops ih => rw [List.foldl_cons, ih, op.length_apply]

theorem isLower_wordAfter {input : Word} (h : input.IsLower) (trail : List Piece) :
    (wordAfter input trail).IsLower := by
  unfold wordAfter
  induction transforms trail generalizing input with
  | nil => exact h
  | cons op ops ih => exact ih (op.isLower_apply h)

/-- What the signal carries, wherever it has got to. -/
theorem Signal.Reaches.exists_wordAfter {b : Board} {input : Word} {n : Nat} {s : Signal}
    (h : Reaches b (enter b input) n s) : ∃ trail, s.word = wordAfter input trail := by
  obtain ⟨trail, hleaves, _⟩ := h.exists_trail
  exact ⟨trail, hleaves.remembers.word⟩

/-! ## Section 4 — texts over the alphabet -/

/-- All characters of a text are letters `a` … `z`. -/
def IsLowerText (s : String) : Prop :=
  ∀ c ∈ s.toList, 'a' ≤ c ∧ c ≤ 'z'

/-- The character of a letter. -/
def Letter.char (b : UInt8) : Char := Char.ofNat b.toNat

theorem Letter.utf8EncodeChar_char {b : UInt8} (h : isLower b = true) :
    String.utf8EncodeChar (char b) = [b] := by
  have hall : alphabet.all (fun c => String.utf8EncodeChar (char c) == [c]) = true := by decide
  exact beq_iff_eq.mp (List.all_eq_true.mp hall b (mem_alphabet h))

theorem Letter.char_bounds {b : UInt8} (h : isLower b = true) : 'a' ≤ char b ∧ char b ≤ 'z' := by
  have hall : alphabet.all (fun c => 'a' ≤ char c ∧ char c ≤ 'z') = true := by decide
  exact of_decide_eq_true (List.all_eq_true.mp hall b (mem_alphabet h))

/-- A character between `a` and `z` is that of a letter. -/
theorem Letter.exists_char {c : Char} (h : 'a' ≤ c ∧ c ≤ 'z') :
    ∃ b, isLower b = true ∧ c = char b := by
  have hlow : 97 ≤ c.toNat := h.1
  have hhigh : c.toNat ≤ 122 := h.2
  have hbyte : (UInt8.ofNat c.toNat).toNat = c.toNat := by
    rw [UInt8.toNat_ofNat']
    exact Nat.mod_eq_of_lt (by omega)
  refine ⟨UInt8.ofNat c.toNat, ?_, ?_⟩
  · rw [isLower_iff, hbyte]
    exact ⟨hlow, hhigh⟩
  · rw [char, hbyte, Char.ofNat_toNat]

theorem Text.lead_of_isLower {b : UInt8} (h : Letter.isLower b = true) :
    lead b = .char (Letter.char b) := by
  obtain ⟨_, hhigh⟩ := Letter.isLower_iff.1 h
  exact if_pos (by omega)

namespace Word

variable {w : Word}

theorem pieces_of_isLower (h : w.IsLower) : Text.pieces w = w.map fun b => some (Letter.char b) := by
  unfold Text.pieces
  induction w with
  | nil => rfl
  | cons b rest ih =>
    obtain ⟨hb, hrest⟩ := isLower_cons.1 h
    rw [Text.piecesFrom, Text.lead_of_isLower hb]
    exact congrArg _ (ih hrest)

theorem toList_decodeLossy (h : w.IsLower) :
    (Text.decodeLossy w).toList = w.map Letter.char := by
  unfold Text.decodeLossy
  rw [pieces_of_isLower h, String.toList_ofList, List.map_map]
  rfl

/-- **A word over the alphabet is the text that it spells.** -/
theorem ofText_decodeLossy (h : w.IsLower) : ofText (Text.decodeLossy w) = w := by
  unfold ofText
  rw [toList_decodeLossy h]
  induction w with
  | nil => rfl
  | cons b rest ih =>
    obtain ⟨hb, hrest⟩ := isLower_cons.1 h
    rw [List.map_cons, List.flatMap_cons, Letter.utf8EncodeChar_char hb, ih hrest]
    rfl

theorem isLowerText_decodeLossy (h : w.IsLower) : IsLowerText (Text.decodeLossy w) := by
  intro c hc
  rw [toList_decodeLossy h] at hc
  obtain ⟨b, hb, rfl⟩ := List.mem_map.mp hc
  exact Letter.char_bounds (h b hb)

theorem length_decodeLossy (h : w.IsLower) : (Text.decodeLossy w).length = w.length := by
  rw [← String.length_toList, toList_decodeLossy h, List.length_map]

/-- A text over the alphabet spells a word over it, a letter for each character. -/
theorem ofText_of_isLowerText {s : String} (h : IsLowerText s) :
    (ofText s).IsLower ∧ (ofText s).length = s.length := by
  unfold IsLowerText at h
  unfold ofText
  rw [← String.length_toList]
  generalize s.toList = cs at h ⊢
  induction cs with
  | nil => exact ⟨isLower_nil, rfl⟩
  | cons c rest ih =>
    obtain ⟨b, hb, rfl⟩ := Letter.exists_char (h c List.mem_cons_self)
    obtain ⟨hrest, hlen⟩ := ih fun d hd => h d (List.mem_cons_of_mem _ hd)
    rw [List.flatMap_cons, Letter.utf8EncodeChar_char hb]
    exact ⟨isLower_cons.2 ⟨hb, hrest⟩, by simp [hlen]⟩

/-- **A text over the alphabet is what its letters spell.** -/
theorem decodeLossy_ofText {s : String} (h : IsLowerText s) : Text.decodeLossy (ofText s) = s := by
  have hmap : ∀ cs : List Char, (∀ c ∈ cs, 'a' ≤ c ∧ c ≤ 'z') →
      (cs.flatMap String.utf8EncodeChar).map Letter.char = cs := by
    intro cs hcs
    induction cs with
    | nil => rfl
    | cons c rest ih =>
      obtain ⟨b, hb, rfl⟩ := Letter.exists_char (hcs c List.mem_cons_self)
      rw [List.flatMap_cons, Letter.utf8EncodeChar_char hb, List.map_append,
        ih fun d hd => hcs d (List.mem_cons_of_mem _ hd)]
      rfl
  apply String.toList_inj.mp
  rw [toList_decodeLossy (ofText_of_isLowerText h).1]
  exact hmap s.toList h

end Word

/-! ## Section 5 — encodings -/

/-- What a board makes of a text over the alphabet is one of the same length. -/
theorem Board.isLowerText_encode {b : Board} {limit : Nat} {input text : String}
    (hinput : IsLowerText input) (h : b.encode limit input = .ok text) :
    IsLowerText text ∧ text.length = input.length := by
  obtain ⟨n, _, s, hreach, _, rfl⟩ := Board.encode_eq_ok_iff.mp h
  obtain ⟨trail, hword⟩ := hreach.exists_wordAfter
  obtain ⟨hlower, hlen⟩ := Word.ofText_of_isLowerText hinput
  have hs : s.word.IsLower := by
    rw [hword]
    exact isLower_wordAfter hlower trail
  refine ⟨Word.isLowerText_decodeLossy hs, ?_⟩
  rw [Signal.text, Word.length_decodeLossy hs, hword, length_wordAfter, hlen]

/-- The keywords of a level are words over the alphabet. -/
theorem Level.keywords_of_layout {tileset : Tileset} {map : TileMap} {l : Layout}
    (h : layout tileset map = .ok l) : ∀ w ∈ l.keywords, w ≠ "" ∧ IsLowerText w := by
  obtain ⟨_, _, _, _, es, _, _, hassemble⟩ := layout_eq_ok_iff.mp h
  obtain ⟨_, _, keywords, _, hwords, _, _, rfl⟩ := assemble_eq_ok_iff.mp hassemble
  exact fun w hw => isKeyword_iff.mp (hwords w hw)

theorem Level.board_eq_ok_iff {tileset : Tileset} {bytes : List UInt8} {limit : Nat} {b : Board} :
    Level.board tileset bytes limit = .ok b ↔ ∃ map l,
      TileMap.document.ofBytes bytes = .ok map ∧ layout tileset map = .ok l ∧
        l.build .zero limit = .ok b := by
  unfold Level.board layoutOfBytes
  cases TileMap.document.ofBytes bytes with
  | error e => simp
  | ok map =>
    dsimp only
    cases hl : layout tileset map with
    | error e => simp [hl]
    | ok l => cases hb : l.build .zero limit <;> simp [hl, hb, Except.mapError]

/-- **Nothing leaves the alphabet.** After any number of steps from a reset, a runner holds a word
of the length of the input; if the input is a text over `a` … `z`, so is that word, and the text
that is shown of it spells it. So the keywords of a level that is read and built are turned into
words over `a` … `z` of their length. -/
theorem lower_closed :
    (∀ (b : Board) (r r' : Runner) (input : String) (n : Nat),
      (r.reset b input).steps n = .ok r' →
        r'.word.length = (Word.ofText input).length ∧
        (IsLowerText input → r'.word.IsLower ∧ Word.ofText (Text.decodeLossy r'.word) = r'.word)) ∧
    ∀ (tileset : Tileset) (bytes : List UInt8) (limit : Nat) (b : Board),
      Level.board tileset bytes limit = .ok b →
        List.Forall₂ (fun keyword output =>
          output ≠ "" ∧ IsLowerText output ∧ output.length = keyword.length)
          b.keywords b.encoded := by
  constructor
  · intro b r r' input n h
    obtain ⟨_, s, _, _, hreach, rfl⟩ := Runner.steps_reset_eq_ok h
    obtain ⟨trail, hword⟩ := hreach.exists_wordAfter
    have hheld : (r.holding b s).word = wordAfter (Word.ofText input) trail := hword
    rw [hheld]
    refine ⟨length_wordAfter _ trail, fun hinput => ?_⟩
    have hlower := isLower_wordAfter (Word.ofText_of_isLowerText hinput).1 trail
    exact ⟨hlower, Word.ofText_decodeLossy hlower⟩
  · intro tileset bytes limit b h
    obtain ⟨map, l, _, hl, hb⟩ := Level.board_eq_ok_iff.1 h
    obtain ⟨c, encoded, hc, hencoded, rfl⟩ := Layout.build_eq_ok_iff.mp hb
    have hkeywords := Level.keywords_of_layout hl
    rw [← Layout.keywords_of_wire hc] at hkeywords
    refine ((List.forall₂_and_left _ _).mpr ⟨hkeywords, hencoded⟩).imp ?_
    intro keyword output ⟨⟨hne, hlower⟩, hencode⟩
    obtain ⟨hout, hlen⟩ := Board.isLowerText_encode hlower hencode
    refine ⟨fun hempty => hne ?_, hout, hlen⟩
    rw [hempty, String.length_empty] at hlen
    exact String.length_eq_zero_iff.mp hlen.symm

/-- Tiles for a line that moves letters on by one. -/
def lineTiles : Tileset :=
  ⟨96, 96, [⟨0, "settings"⟩, ⟨1, "elem_input"⟩, ⟨2, "pipe"⟩, ⟨3, "apply_add"⟩,
    ⟨4, "elem_output"⟩]⟩

/-- A level document with such a line, and the keyword `xyz`. -/
def lineDocument : List UInt8 :=
  ["\x7b\"tilesets\":[\x7b\"firstgid\":1\x7d],", "\"layers\":[\x7b\"objects\":[",
   "\x7b\"gid\":1,\"x\":0,\"y\":768,\"properties\":[",
   "\x7b\"name\":\"keywords\",\"value\":\"xyz\"\x7d,",
   "\x7b\"name\":\"num_keywords\",\"value\":1\x7d]\x7d,",
   "\x7b\"gid\":2,\"x\":0,\"y\":96\x7d,", "\x7b\"gid\":3,\"x\":96,\"y\":96\x7d,",
   "\x7b\"gid\":4,\"x\":192,\"y\":96\x7d,", "\x7b\"gid\":3,\"x\":288,\"y\":96\x7d,",
   "\x7b\"gid\":5,\"x\":384,\"y\":96\x7d", "]\x7d]\x7d"].flatMap Word.ofText

theorem lineDocument_lower :
    ∃ b, Level.board lineTiles lineDocument 4 = .ok b ∧ b.encoded = ["yza"] ∧
      (∃ r, (Runner.fresh.reset b "zoo").steps 3 = .ok r ∧ r.word.IsLower ∧
        Word.ofText (Text.decodeLossy r.word) = r.word) ∧
      List.Forall₂ (fun keyword output =>
        output ≠ "" ∧ IsLowerText output ∧ output.length = keyword.length)
        b.keywords b.encoded := by
  obtain ⟨b, hb, hshape⟩ := exists_ok_of_any
    (show (Level.board lineTiles lineDocument 4).toOption.any (fun b =>
      b.encoded == ["yza"] &&
      ((Runner.fresh.reset b "zoo").steps 3).toOption.any (fun _ => true)) = true by
      decide +kernel)
  rw [Bool.and_eq_true, beq_iff_eq] at hshape
  obtain ⟨hencoded, hruns⟩ := hshape
  obtain ⟨r, hsteps, _⟩ := exists_ok_of_any hruns
  obtain ⟨hrunner, hlevel⟩ := lower_closed
  have hinput : IsLowerText "zoo" := by
    unfold IsLowerText
    simp
  have hword := (hrunner b Runner.fresh r "zoo" 3 hsteps).2 hinput
  exact ⟨b, hb, hencoded, ⟨r, hsteps, hword⟩, hlevel lineTiles _ 4 b hb⟩

end CipherBoard
