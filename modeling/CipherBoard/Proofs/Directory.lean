/-
CipherBoard.Proofs.Directory — the levels of a directory.

* `Catalogue.isLevelName_iff` — names of level files, by how they end.
* `FileAccess.Breaks` — the board of a file breaks on one of its own keywords; `breaking?` finds
  the one error that a catalogue does not survive.
* `FileAccess.catalogueOf_eq` — the catalogue of paths: those that have a board and those that
  have none, unless one breaks.
* `FileAccess.levelPaths` — the level files of a listing, by path; `levelPaths_perm` says that
  the order of the listing does not matter.
* `CommandLine.Verdict` — the exit code for a set of files; `check_verdict` and `scan_verdict`
  say that both commands give it.
* `catalogue_law` — these together: a catalogue loses and invents nothing, unless a board breaks.
-/
import CipherBoard.CommandLine.Commands
import CipherBoard.Proofs.Breaks
import CipherBoard.Proofs.Provisions

namespace CipherBoard

/-! ## Section 1 — names -/

/-- Where a text is cut at its first point. -/
theorem PathName.cut_iff {cs ending rest : List Char} :
    (cs.takeWhile (· != '.') = ending ∧ cs.drop ending.length = '.' :: rest) ↔
      '.' ∉ ending ∧ cs = ending ++ '.' :: rest := by
  constructor
  · rintro ⟨rfl, hdrop⟩
    constructor
    · intro hmem
      have hall := List.all_eq_true.mp (List.all_takeWhile (p := (· != '.')) (l := cs)) '.' hmem
      simp at hall
    · have htake := List.prefix_iff_eq_take.mp (List.takeWhile_prefix (l := cs) (· != '.'))
      conv_lhs => rw [← List.take_append_drop (cs.takeWhile (· != '.')).length cs]
      rw [← htake, hdrop]
  · rintro ⟨hpoint, rfl⟩
    have hplain : ∀ c ∈ ending, (c != '.') = true := by
      intro c hc
      rw [bne_iff_ne]
      rintro rfl
      exact hpoint hc
    have hending : (ending ++ '.' :: rest).takeWhile (· != '.') = ending := by
      rw [List.takeWhile_append_of_pos hplain, List.takeWhile_cons_of_neg (by decide),
        List.append_nil]
    exact ⟨hending, List.drop_left⟩

/-- The extension of a name is what follows its last point, if there is something before it. -/
theorem PathName.extension?_eq_some_iff {name extension : String} :
    extension? name = some extension ↔ name ≠ ".." ∧ '.' ∉ extension.toList ∧
      ∃ stem, stem ≠ "" ∧ name = stem ++ "." ++ extension := by
  unfold extension?
  dsimp only
  constructor
  · intro h
    split at h
    · rename_i c rest hdrop
      obtain ⟨hpoint, hname⟩ := cut_iff.1 ⟨rfl, hdrop⟩
      split at h
      · cases h
      · rename_i hdots
        cases h
        refine ⟨hdots, by simpa using hpoint, String.ofList (c :: rest).reverse, by simp, ?_⟩
        apply String.toList_inj.mp
        have hforwards := congrArg List.reverse hname
        simpa using hforwards
    · cases h
  · rintro ⟨hdots, hpoint, stem, hstem, hname⟩
    have hbackwards : name.toList.reverse =
        extension.toList.reverse ++ '.' :: stem.toList.reverse := by
      simp [hname]
    obtain ⟨hending, hdrop⟩ := cut_iff.2 ⟨by simpa using hpoint, hbackwards⟩
    obtain ⟨c, rest, hrest⟩ := List.exists_cons_of_ne_nil
      (show stem.toList.reverse ≠ [] by simpa using hstem)
    rw [hending, hdrop, hrest]
    simp [hdots]

/-- **Level files by name**: a name, a point, and one of the extensions. -/
theorem Catalogue.isLevelName_iff {name : String} : isLevelName name = true ↔
    ∃ stem extension, stem ≠ "" ∧ extension ∈ levelExtensions ∧
      name = stem ++ "." ++ extension := by
  have hplain : ∀ extension ∈ levelExtensions,
      '.' ∉ extension.toList ∧ 2 < extension.length := by decide
  simp only [isLevelName, Option.any_eq_true, List.contains_eq_mem, decide_eq_true_eq,
    PathName.extension?_eq_some_iff]
  constructor
  · rintro ⟨extension, ⟨_, _, stem, hstem, hname⟩, hmem⟩
    exact ⟨stem, extension, hstem, hmem, hname⟩
  · rintro ⟨stem, extension, hstem, hmem, rfl⟩
    obtain ⟨hpoint, hlong⟩ := hplain extension hmem
    refine ⟨extension, ⟨fun hdots => ?_, hpoint, stem, hstem, rfl⟩, hmem⟩
    have hlength := congrArg String.length hdots
    have htwo : "..".length = 2 := by decide
    rw [String.length_append, htwo] at hlength
    omega
namespace FileAccess

/-! ## Section 2 — the board of a file

Files that stay as they are answer at once: a request is its own result. -/

section
variable {ε α : Type} {x y : ε} {a b : α}

@[simp] theorem ok_inj : @Eq (Id (Except ε α)) (.ok a) (.ok b) ↔ a = b :=
  ⟨Except.ok.inj, congrArg Except.ok⟩

@[simp] theorem error_inj : @Eq (Id (Except ε α)) (.error x) (.error y) ↔ x = y :=
  ⟨Except.error.inj, congrArg Except.error⟩

end

variable {files : FileAccess Id} {tileset : Tileset} {limit : Nat} {path : String}
variable {paths : List String} {e : FileError}

theorem board_eq (files : FileAccess Id) (tileset : Tileset) (limit : Nat) (path : String) :
    files.board tileset limit path =
      match files.read path with
      | .error e => .error (.refused "read level" path e)
      | .ok bytes => (Level.board tileset bytes limit).mapError (.level path) := by
  unfold board level
  cases files.read path <;> rfl

/-- A file has a board if it can be read and its bytes are a level that can be played. -/
theorem board_eq_ok_iff {b : Board} : files.board tileset limit path = .ok b ↔
    ∃ bytes, files.read path = .ok bytes ∧ Level.board tileset bytes limit = .ok b := by
  rw [board_eq]
  cases files.read path with
  | error e => simp
  | ok bytes => cases hboard : Level.board tileset bytes limit <;> simp [Except.mapError, hboard]

/-- The board of a file breaks on one of its own keywords. -/
def Breaks (files : FileAccess Id) (tileset : Tileset) (limit : Nat) (path : String) : Prop :=
  ∃ bytes l e, files.read path = .ok bytes ∧ Level.layoutOfBytes tileset bytes = .ok l ∧
    l.build .zero limit = .error (.broken e)

/-- What is wrong with a file, if anything is. -/
def fault? (files : FileAccess Id) (tileset : Tileset) (limit : Nat) (path : String) :
    Option FileError :=
  match files.board tileset limit path with
  | .ok _ => none
  | .error e => some e

theorem fault?_eq_some_iff :
    files.fault? tileset limit path = some e ↔ files.board tileset limit path = .error e := by
  unfold fault?
  cases files.board tileset limit path <;> simp

theorem fault?_eq_none_iff :
    files.fault? tileset limit path = none ↔ ∃ b, files.board tileset limit path = .ok b := by
  unfold fault?
  cases files.board tileset limit path <;> simp

/-- What is wrong with a file, if it is that its board breaks. -/
def breaking? (files : FileAccess Id) (tileset : Tileset) (limit : Nat) (path : String) :
    Option FileError :=
  (files.fault? tileset limit path).filter (·.break?.isSome)

theorem breaking?_eq_some_iff : files.breaking? tileset limit path = some e ↔
    files.board tileset limit path = .error e ∧ e.break?.isSome = true := by
  rw [breaking?, Option.filter_eq_some_iff, fault?_eq_some_iff]

/-- **The error that ends a catalogue** is that a board breaks. -/
theorem isSome_breaking?_iff :
    (files.breaking? tileset limit path).isSome ↔ files.Breaks tileset limit path := by
  rw [Option.isSome_iff_exists]
  simp only [breaking?_eq_some_iff]
  rw [board_eq]
  unfold Breaks Level.board
  cases files.read path with
  | error e => simp [FileError.break?]
  | ok bytes =>
    cases hl : Level.layoutOfBytes tileset bytes with
    | error e => simp [hl, Except.mapError, FileError.break?]
    | ok l =>
      cases hb : l.build .zero limit with
      | ok b => simp [hl, hb, Except.mapError]
      | error e => cases e <;> simp [hl, hb, Except.mapError, FileError.break?]

theorem breaking?_eq_none_iff :
    files.breaking? tileset limit path = none ↔ ¬ files.Breaks tileset limit path := by
  rw [← isSome_breaking?_iff, Option.not_isSome_iff_eq_none]

theorem not_breaks_of_ok {b : Board} (h : files.board tileset limit path = .ok b) :
    ¬ files.Breaks tileset limit path := by
  rw [← breaking?_eq_none_iff, breaking?, fault?_eq_none_iff.2 ⟨b, h⟩, Option.filter_none]

/-! ## Section 3 — the catalogue of paths -/

theorem catalogueOf_cons (files : FileAccess Id) (tileset : Tileset) (limit : Nat) (path : String)
    (rest : List String) : files.catalogueOf tileset limit (path :: rest) =
      match files.board tileset limit path with
      | .ok _ => (files.catalogueOf tileset limit rest).map (·.accept path)
      | .error e =>
        if e.break?.isSome then .error e
        else (files.catalogueOf tileset limit rest).map (·.reject path e) := by
  rw [catalogueOf]
  cases files.board tileset limit path with
  | ok b => rfl
  | error e =>
    dsimp only [bind]
    cases e.break? <;> rfl

/-- The paths that have a board, and those that have none. -/
def divided (files : FileAccess Id) (tileset : Tileset) (limit : Nat) (paths : List String) :
    Catalogue where
  accepted := paths.filter fun path => (files.fault? tileset limit path).isNone
  rejected := paths.filterMap fun path => (files.fault? tileset limit path).map (path, ·)

/-- **A catalogue divides the paths**, up to the first whose board breaks. -/
theorem catalogueOf_eq (files : FileAccess Id) (tileset : Tileset) (limit : Nat)
    (paths : List String) : files.catalogueOf tileset limit paths =
      match paths.findSome? (files.breaking? tileset limit) with
      | some e => .error e
      | none => .ok (files.divided tileset limit paths) := by
  induction paths with
  | nil => rfl
  | cons path rest ih =>
    rw [catalogueOf_cons, List.findSome?_cons, ih]
    cases hboard : files.board tileset limit path with
    | ok b =>
      have hfault := fault?_eq_none_iff.2 ⟨b, hboard⟩
      have hdivided : files.divided tileset limit (path :: rest) =
          (files.divided tileset limit rest).accept path := by
        simp [divided, Catalogue.accept, hfault]
      rw [hdivided]
      simp only [breaking?, hfault, Option.filter_none]
      cases rest.findSome? (files.breaking? tileset limit) <;> rfl
    | error e =>
      have hfault := fault?_eq_some_iff.2 hboard
      have hdivided : files.divided tileset limit (path :: rest) =
          (files.divided tileset limit rest).reject path e := by
        simp [divided, Catalogue.reject, hfault]
      rw [hdivided]
      by_cases hbreak : e.break?.isSome = true
      · rw [breaking?_eq_some_iff.2 ⟨hboard, hbreak⟩]
        exact if_pos hbreak
      · simp only [breaking?, hfault, Option.filter_some, hbreak]
        cases rest.findSome? (files.breaking? tileset limit) <;> rfl

section divided
variable {p : String}

theorem mem_accepted_divided : p ∈ (files.divided tileset limit paths).accepted ↔
    p ∈ paths ∧ ∃ b, files.board tileset limit p = .ok b := by
  simp only [divided, List.mem_filter, Option.isNone_iff_eq_none, fault?_eq_none_iff]

theorem mem_rejected_divided : (p, e) ∈ (files.divided tileset limit paths).rejected ↔
    p ∈ paths ∧ files.board tileset limit p = .error e := by
  simp only [divided, List.mem_filterMap, Option.map_eq_some_iff, Prod.mk.injEq,
    fault?_eq_some_iff]
  constructor
  · rintro ⟨q, hq, e, herror, rfl, rfl⟩
    exact ⟨hq, herror⟩
  · rintro ⟨hp, herror⟩
    exact ⟨p, hp, e, herror, rfl, rfl⟩

/-- The rejected paths are those without a board. -/
theorem map_rejected_divided : (files.divided tileset limit paths).rejected.map Prod.fst =
    paths.filter fun path => !(files.fault? tileset limit path).isNone := by
  unfold divided
  induction paths with
  | nil => rfl
  | cons path rest ih =>
    cases hfault : files.fault? tileset limit path <;> simp [hfault, ih]

/-- **No path is lost, and none is invented.** -/
theorem divided_perm (files : FileAccess Id) (tileset : Tileset) (limit : Nat)
    (paths : List String) :
    ((files.divided tileset limit paths).accepted ++
      (files.divided tileset limit paths).rejected.map Prod.fst).Perm paths := by
  rw [map_rejected_divided]
  exact List.filter_append_perm _ paths

end divided

/-! ## Section 4 — the level files of a listing -/

/-- A request that is its own result filters like any other test. -/
theorem filterAuxM_eq {α : Type} (p : α → Id Bool) (l acc : List α) :
    l.filterAuxM p acc = ((l.filter p).reverse ++ acc : Id (List α)) := by
  induction l generalizing acc with
  | nil => rfl
  | cons a l ih =>
    rw [List.filterAuxM, List.filter_cons]
    show (List.filterAuxM p l (cond (p a) (a :: acc) acc) : List α) = _
    rw [ih]
    cases p a <;> simp

/-- The level files among the names in a directory, by path. -/
def levelPaths (files : FileAccess Id) (directory : String) (names : List String) : List String :=
  (((names.filter Catalogue.isLevelName).map (PathName.join directory)).filter
    files.isFile).mergeSort fun a b => decide (a ≤ b)

theorem levelFiles_eq (files : FileAccess Id) (directory : String) :
    files.levelFiles directory =
      match files.list directory with
      | .error e => .error (.refused "read directory" directory e)
      | .ok names => .ok (files.levelPaths directory names) := by
  unfold levelFiles levelPaths List.filterM
  cases files.list directory with
  | error e => rfl
  | ok names =>
    simp only [filterAuxM_eq, List.append_nil]
    dsimp only [bind, pure]
    rw [List.reverse_reverse]

/-- The path is that of a level file in a directory. -/
def IsLevel (files : FileAccess Id) (directory : String) (names : List String) (path : String) :
    Prop :=
  files.isFile path = true ∧ ∃ name ∈ names, path = PathName.join directory name ∧
    ∃ stem extension, stem ≠ "" ∧ extension ∈ Catalogue.levelExtensions ∧
      name = stem ++ "." ++ extension

variable {directory : String} {names names' : List String}

theorem mem_levelPaths :
    path ∈ files.levelPaths directory names ↔ files.IsLevel directory names path := by
  simp only [levelPaths, List.mem_mergeSort, List.mem_filter, List.mem_map, IsLevel,
    Catalogue.isLevelName_iff]
  constructor
  · rintro ⟨⟨name, ⟨hname, hlevel⟩, rfl⟩, hfile⟩
    exact ⟨hfile, name, hname, rfl, hlevel⟩
  · rintro ⟨hfile, name, hname, rfl, hlevel⟩
    exact ⟨⟨name, ⟨hname, hlevel⟩, rfl⟩, hfile⟩

theorem levelPaths_sorted (files : FileAccess Id) (directory : String) (names : List String) :
    (files.levelPaths directory names).Pairwise (· ≤ ·) := by
  have hsorted := @List.pairwise_mergeSort String (fun a b => decide (a ≤ b))
    (by simpa using fun _ _ _ => String.le_trans) (by simpa using String.le_total)
    (((names.filter Catalogue.isLevelName).map (PathName.join directory)).filter files.isFile)
  simpa [levelPaths] using hsorted

/-- **The order of the listing does not matter.** -/
theorem levelPaths_perm (h : names.Perm names') :
    files.levelPaths directory names = files.levelPaths directory names' := by
  refine List.Perm.eq_of_pairwise (fun _ _ _ _ => String.le_antisymm)
    (files.levelPaths_sorted directory names) (files.levelPaths_sorted directory names') ?_
  calc files.levelPaths directory names
      List.Perm _ _ := List.mergeSort_perm _ _
      List.Perm _ _ := ((h.filter _).map _).filter _
      List.Perm _ (files.levelPaths directory names') := (List.mergeSort_perm _ _).symm

/-- Names that lead to different paths give each path once. -/
theorem levelPaths_nodup (h : (names.map (PathName.join directory)).Nodup) :
    (files.levelPaths directory names).Nodup := by
  rw [levelPaths, (List.mergeSort_perm _ _).nodup_iff]
  exact (h.sublist (List.filter_sublist.map _)).filter _

/-- **The catalogue of a directory** divides its level files, unless the board of one breaks. -/
theorem catalogue_eq (hpresent : files.isPresent directory = true)
    (hlist : files.list directory = .ok names) (tileset : Tileset) (limit : Nat) :
    files.catalogue tileset limit directory =
      match (files.levelPaths directory names).findSome? (files.breaking? tileset limit) with
      | some e => .error e
      | none => .ok (files.divided tileset limit (files.levelPaths directory names)) := by
  have hfiles : files.levelFiles directory = .ok (files.levelPaths directory names) := by
    rw [levelFiles_eq, hlist]
  rw [← catalogueOf_eq]
  unfold catalogue
  rw [hpresent, hfiles]
  rfl

end FileAccess

namespace CommandLine

open FileAccess

variable {files : FileAccess Id} {setup : Setup} {given given' : Option String}
variable {tileset : Tileset}
variable {limit : Nat} {paths paths' : List String} {directory : String} {names : List String}

/-! ## Section 5 — two commands -/

/-- The exit code for a set of files. -/
inductive Verdict (files : FileAccess Id) (tileset : Tileset) (limit : Nat)
    (paths : List String) : Nat → Prop
  /-- The board of one breaks. -/
  | broken {path : String} : path ∈ paths → files.Breaks tileset limit path →
      Verdict files tileset limit paths Report.brokenOff
  /-- None breaks, and something is wrong with one. -/
  | rejected {path : String} {e : FileError} :
      (∀ p ∈ paths, ¬ files.Breaks tileset limit p) → path ∈ paths →
      files.board tileset limit path = .error e →
      Verdict files tileset limit paths Report.rejected
  /-- Nothing is wrong with any. -/
  | accepted : (∀ p ∈ paths, ∃ b, files.board tileset limit p = .ok b) →
      Verdict files tileset limit paths Report.accepted

namespace Verdict

variable {code code' : Nat}

theorem accepted_iff (h : Verdict files tileset limit paths code) :
    code = Report.accepted ↔ ∀ p ∈ paths, ∃ b, files.board tileset limit p = .ok b := by
  cases h with
  | accepted hall => exact iff_of_true rfl hall
  | @broken path hmem hbreaks =>
    refine iff_of_false (by decide) fun hall => ?_
    obtain ⟨b, hb⟩ := hall path hmem
    exact not_breaks_of_ok hb hbreaks
  | @rejected path e _ hmem herror =>
    refine iff_of_false (by decide) fun hall => ?_
    obtain ⟨b, hb⟩ := hall path hmem
    rw [herror] at hb
    cases hb

theorem brokenOff_iff (h : Verdict files tileset limit paths code) :
    code = Report.brokenOff ↔ ∃ p ∈ paths, files.Breaks tileset limit p := by
  cases h with
  | @broken path hmem hbreaks => exact iff_of_true rfl ⟨path, hmem, hbreaks⟩
  | rejected hnone =>
    exact iff_of_false (by decide) fun ⟨p, hp, hbreaks⟩ => hnone p hp hbreaks
  | accepted hall =>
    refine iff_of_false (by decide) fun ⟨p, hp, hbreaks⟩ => ?_
    obtain ⟨b, hb⟩ := hall p hp
    exact not_breaks_of_ok hb hbreaks

/-- **A set of files has one exit code**, in whatever order it is given. -/
theorem unique (h : Verdict files tileset limit paths code)
    (h' : Verdict files tileset limit paths' code') (hmem : ∀ p, p ∈ paths ↔ p ∈ paths') :
    code = code' := by
  have haccepted : code = Report.accepted ↔ code' = Report.accepted := by
    rw [h.accepted_iff, h'.accepted_iff]
    simp only [hmem]
  have hbroken : code = Report.brokenOff ↔ code' = Report.brokenOff := by
    rw [h.brokenOff_iff, h'.brokenOff_iff]
    simp only [hmem]
  -- Of the three codes the two that are not settled by these differ from the third.
  cases h <;> cases h' <;> simp_all [Report.accepted, Report.brokenOff, Report.rejected]

/-- The verdict where a board breaks. -/
theorem of_some {e : FileError} (h : paths.findSome? (files.breaking? tileset limit) = some e) :
    Verdict files tileset limit paths Report.brokenOff ∧ ∃ b, e.break? = some b := by
  obtain ⟨path, hmem, hsome⟩ := List.exists_of_findSome?_eq_some h
  refine ⟨.broken hmem (isSome_breaking?_iff.1 (by rw [hsome]; rfl)), ?_⟩
  exact Option.isSome_iff_exists.mp (breaking?_eq_some_iff.1 hsome).2

/-- The verdict where none breaks: it is enough to look for rejected paths. -/
theorem of_none (h : paths.findSome? (files.breaking? tileset limit) = none) :
    Verdict files tileset limit paths
      (if (files.divided tileset limit paths).rejected.isEmpty then Report.accepted
        else Report.rejected) := by
  have hnone : ∀ p ∈ paths, ¬ files.Breaks tileset limit p :=
    fun p hp => breaking?_eq_none_iff.1 (List.findSome?_eq_none_iff.mp h p hp)
  cases hrejected : (files.divided tileset limit paths).rejected with
  | nil =>
    refine .accepted fun p hp => ?_
    cases hboard : files.board tileset limit p with
    | ok b => exact ⟨b, rfl⟩
    | error e =>
      have hmem := mem_rejected_divided.2 ⟨hp, hboard⟩
      rw [hrejected] at hmem
      cases hmem
  | cons first rest =>
    obtain ⟨path, e⟩ := first
    have hmem : (path, e) ∈ (files.divided tileset limit paths).rejected := by
      rw [hrejected]
      exact List.mem_cons_self
    obtain ⟨hpath, herror⟩ := mem_rejected_divided.1 hmem
    exact .rejected hnone hpath herror

end Verdict

/-- The report of a command that gave up because a board broke. -/
theorem failed_of_break {e : CommandError} {b : Break} (h : e.break? = some b) :
    Report.failed e = Report.broken b := by
  rw [Report.failed, h]

theorem complaints_cons (files : FileAccess Id) (tileset : Tileset) (limit : Nat) (path : String)
    (rest : List String) : complaints files tileset limit (path :: rest) =
      match files.board tileset limit path with
      | .ok _ => complaints files tileset limit rest
      | .error e =>
        match e.break? with
        | some b => ([], some b)
        | none =>
          (complaint path e :: (complaints files tileset limit rest).1,
            (complaints files tileset limit rest).2) := by
  rw [complaints]
  cases files.board tileset limit path with
  | ok b => rfl
  | error e =>
    dsimp only [bind]
    cases e.break? <;> rfl

/-- **The complaints about files** are those about the rejected ones, up to the first whose board
breaks. -/
theorem complaints_eq (files : FileAccess Id) (tileset : Tileset) (limit : Nat)
    (paths : List String) :
    (complaints files tileset limit paths).2 =
        (paths.findSome? (files.breaking? tileset limit)).bind FileError.break? ∧
      (paths.findSome? (files.breaking? tileset limit) = none →
        (complaints files tileset limit paths).1 =
          (files.divided tileset limit paths).rejected.map fun (path, e) => complaint path e) := by
  induction paths with
  | nil => exact ⟨rfl, fun _ => rfl⟩
  | cons path rest ih =>
    obtain ⟨ihbreak, ihlines⟩ := ih
    rw [complaints_cons, List.findSome?_cons]
    cases hboard : files.board tileset limit path with
    | ok b =>
      have hfault := fault?_eq_none_iff.2 ⟨b, hboard⟩
      simp only [breaking?, hfault, Option.filter_none]
      refine ⟨ihbreak, fun hnone => ?_⟩
      rw [ihlines hnone]
      simp [divided, hfault]
    | error e =>
      have hfault := fault?_eq_some_iff.2 hboard
      cases hbreak : e.break? with
      | some b =>
        have hsome : files.breaking? tileset limit path = some e :=
          breaking?_eq_some_iff.2 ⟨hboard, by rw [hbreak]; rfl⟩
        rw [hsome]
        dsimp only
        rw [hbreak]
        exact ⟨hbreak.symm, fun hnone => by cases hnone⟩
      | none =>
        simp only [breaking?, hfault, Option.filter_some, hbreak, Option.isSome_none,
          Bool.false_eq_true, if_false]
        refine ⟨ihbreak, fun hnone => ?_⟩
        rw [ihlines hnone]
        simp [divided, hfault]

theorem check_eq (files : FileAccess Id) (setup : Setup) (given : Option String)
    (paths : List String) : check files setup given paths =
      match setup.tileset files given with
      | .error e => .failed e
      | .ok tileset =>
        checkReport paths.length (complaints files tileset setup.settings.limit paths) := by
  unfold check
  cases setup.tileset files given <;> rfl

/-- **What `check` says of files**: their exit code. -/
theorem check_verdict (htileset : setup.tileset files given = .ok tileset) :
    Verdict files tileset setup.settings.limit paths (check files setup given paths).code := by
  rw [check_eq, htileset]
  dsimp only
  obtain ⟨hbreak, hlines⟩ := complaints_eq files tileset setup.settings.limit paths
  generalize complaints files tileset setup.settings.limit paths = result at hbreak hlines
  obtain ⟨lines, broken⟩ := result
  cases hfind : paths.findSome? (files.breaking? tileset setup.settings.limit) with
  | some e =>
    obtain ⟨hverdict, b, hb⟩ := Verdict.of_some hfind
    rw [hfind, Option.bind_some, hb] at hbreak
    cases hbreak
    exact hverdict
  | none =>
    have hverdict := Verdict.of_none hfind
    rw [hfind, Option.bind_none] at hbreak
    cases hbreak
    rw [show lines = _ from hlines hfind]
    cases hrejected : (files.divided tileset setup.settings.limit paths).rejected <;>
      rw [hrejected] at hverdict <;> exact hverdict

theorem scan_eq (hdirectory : setup.directory given' = .ok directory)
    (hpresent : files.isPresent directory = true) (hlist : files.list directory = .ok names) :
    scan files setup given given' =
      match setup.tileset files given with
      | .error e => .failed e
      | .ok tileset =>
        match (files.levelPaths directory names).findSome?
            (files.breaking? tileset setup.settings.limit) with
        | some e => .failed (.file "validate" e)
        | none => scanReport directory
            (files.divided tileset setup.settings.limit (files.levelPaths directory names)) := by
  unfold scan
  rw [hdirectory]
  cases setup.tileset files given with
  | error e => rfl
  | ok tileset =>
    dsimp only [bind]
    rw [catalogue_eq hpresent hlist]
    cases (files.levelPaths directory names).findSome?
      (files.breaking? tileset setup.settings.limit) <;> rfl

/-- **What `scan` says of a directory** is the exit code of its level files. -/
theorem scan_verdict (hdirectory : setup.directory given' = .ok directory)
    (hpresent : files.isPresent directory = true) (hlist : files.list directory = .ok names)
    (htileset : setup.tileset files given = .ok tileset) :
    Verdict files tileset setup.settings.limit (files.levelPaths directory names)
      (scan files setup given given').code := by
  rw [scan_eq hdirectory hpresent hlist, htileset]
  dsimp only
  cases hfind : (files.levelPaths directory names).findSome?
      (files.breaking? tileset setup.settings.limit) with
  | some e =>
    obtain ⟨hverdict, b, hb⟩ := Verdict.of_some hfind
    dsimp only
    rw [failed_of_break (show CommandError.break? (.file "validate" e) = some b from hb)]
    exact hverdict
  | none => exact Verdict.of_none hfind

end CommandLine

/-! ## Section 6 — the law -/

open CommandLine

/-- **A catalogue loses and invents nothing**, unless a board breaks. There is a catalogue exactly
if the board of no level file breaks. Then each level file is listed once, as playable if it can be
read and has a board and as rejected for what is wrong with it otherwise, both in the order of
paths, and whatever the order of the listing. The command that scans the directory has the exit
code of the one that checks its level files, in every case. -/
theorem catalogue_law {files : FileAccess Id} {directory : String} {names : List String}
    (hpresent : files.isPresent directory = true) (hlist : files.list directory = .ok names)
    (honce : (names.map (PathName.join directory)).Nodup) :
    (∀ (tileset : Tileset) (limit : Nat),
      ((∃ c, files.catalogue tileset limit directory = .ok c) ↔
        ∀ p, files.IsLevel directory names p → ¬ files.Breaks tileset limit p) ∧
      (∀ c, files.catalogue tileset limit directory = .ok c →
        (∀ p, p ∈ c.accepted ++ c.rejected.map Prod.fst ↔ files.IsLevel directory names p) ∧
        (c.accepted ++ c.rejected.map Prod.fst).Nodup ∧
        (∀ p, p ∈ c.accepted ↔ files.IsLevel directory names p ∧
          ∃ bytes b, files.read p = .ok bytes ∧ Level.board tileset bytes limit = .ok b) ∧
        (∀ p e, (p, e) ∈ c.rejected ↔ files.IsLevel directory names p ∧
          files.board tileset limit p = .error e) ∧
        c.accepted.Pairwise (· ≤ ·) ∧ (c.rejected.map Prod.fst).Pairwise (· ≤ ·)) ∧
      ∀ names', names.Perm names' →
        FileAccess.catalogue { files with list := fun _ => .ok names' } tileset limit directory =
          files.catalogue tileset limit directory) ∧
    ∀ (setup : Setup) (given given' : Option String) (paths : List String),
      setup.directory given' = .ok directory →
      (∀ p, p ∈ paths ↔ files.IsLevel directory names p) →
        (scan files setup given given').code = (check files setup given paths).code := by
  have hcatalogue := FileAccess.catalogue_eq hpresent hlist
  refine ⟨fun tileset limit => ⟨?_, fun c hc => ?_, fun names' hperm => ?_⟩, ?_⟩
  · simp only [hcatalogue, ← FileAccess.mem_levelPaths]
    cases hfind : (files.levelPaths directory names).findSome?
        (files.breaking? tileset limit) with
    | some e =>
      obtain ⟨p, hp, hsome⟩ := List.exists_of_findSome?_eq_some hfind
      have hbreaks := FileAccess.isSome_breaking?_iff.1 (by rw [hsome]; rfl)
      exact iff_of_false (fun ⟨_, hok⟩ => by cases hok) fun hnone => hnone p hp hbreaks
    | none =>
      refine iff_of_true ⟨_, rfl⟩ fun p hp => ?_
      exact FileAccess.breaking?_eq_none_iff.1 (List.findSome?_eq_none_iff.mp hfind p hp)
  · have hpaths := files.levelPaths_sorted directory names
    rw [hcatalogue] at hc
    split at hc
    · cases hc
    · cases hc
      have hperm := files.divided_perm tileset limit (files.levelPaths directory names)
      refine ⟨fun p => ?_, ?_, fun p => ?_, fun p e => ?_, ?_, ?_⟩
      · rw [hperm.mem_iff, FileAccess.mem_levelPaths]
      · exact hperm.nodup_iff.mpr (FileAccess.levelPaths_nodup honce)
      · rw [FileAccess.mem_accepted_divided, FileAccess.mem_levelPaths]
        simp only [FileAccess.board_eq_ok_iff]
        exact and_congr_right fun _ => exists_comm
      · rw [FileAccess.mem_rejected_divided, FileAccess.mem_levelPaths]
      · exact hpaths.filter _
      · rw [FileAccess.map_rejected_divided]
        exact hpaths.filter _
  · have hpaths : FileAccess.levelPaths { files with list := fun _ => .ok names' } directory
        names' = files.levelPaths directory names := (FileAccess.levelPaths_perm hperm).symm
    rw [hcatalogue, @FileAccess.catalogue_eq { files with list := fun _ => .ok names' } directory
      names' hpresent rfl, hpaths]
    rfl
  · intro setup given given' paths hdirectory hpaths
    cases htileset : setup.tileset files given with
    | error e => rw [scan_eq hdirectory hpresent hlist, check_eq, htileset]
    | ok tileset =>
      refine (scan_verdict hdirectory hpresent hlist htileset).unique (check_verdict htileset) ?_
      intro p
      rw [FileAccess.mem_levelPaths, hpaths]

/-- Files and directories by name in the directory `levels`: a file with its bytes, and anything
else with the refusal to read it. -/
def FileAccess.ofLevels (items : List (String × Except SystemError (List UInt8))) :
    FileAccess Id where
  read path :=
    match items.find? fun item => PathName.join "levels" item.1 = path with
    | some (_, content) => content
    | none => .error .notFound
  list _ := .ok (items.map (·.1))
  isPresent _ := true
  isFile path := items.any fun item => PathName.join "levels" item.1 = path &&
    match item.2 with
    | .error e => e ≠ .isDirectory
    | .ok _ => true

/-- The tiles of `testTiles` as a document. -/
def testTilesDocument : List UInt8 :=
  ["\x7b\"tilewidth\":96,\"tileheight\":96,\"tiles\":[",
   "\x7b\"id\":0,\"class\":\"settings\"\x7d,", "\x7b\"id\":1,\"class\":\"elem_input\"\x7d,",
   "\x7b\"id\":2,\"class\":\"pipe\"\x7d,", "\x7b\"id\":3,\"class\":\"elem_if\"\x7d,",
   "\x7b\"id\":4,\"class\":\"special_pipe\"\x7d,", "\x7b\"id\":5,\"class\":\"elem_output\"\x7d",
   "]\x7d"].flatMap Word.ofText

theorem testTilesDocument_read : Tileset.document.ofBytes testTilesDocument = .ok testTiles := by
  obtain ⟨tiles, htiles, hshape⟩ := exists_ok_of_any (e := Tileset.document.ofBytes testTilesDocument)
    (p := fun t => decide (t.tileWidth = 96 ∧ t.tileHeight = 96 ∧ t.tiles = testTiles.tiles))
    (by decide +kernel)
  obtain ⟨width, height, list⟩ := tiles
  obtain ⟨rfl, rfl, rfl⟩ := of_decide_eq_true hshape
  exact htiles

theorem testDocument_board :
    ∃ b, Level.board testTiles testDocument 100 = .ok b ∧ b.keywords = ["abc"] := by
  obtain ⟨b, hb, hkeywords⟩ := exists_ok_of_any (e := Level.board testTiles testDocument 100)
    (p := (·.keywords == ["abc"])) (by decide +kernel)
  exact ⟨b, hb, eq_of_beq hkeywords⟩

/-- The document of a level with `adjacentTests` and one keyword. -/
def adjacentDocument (keyword : String) : List UInt8 :=
  ["\x7b\"tilesets\":[\x7b\"firstgid\":1\x7d],", "\"layers\":[\x7b\"objects\":[",
   "\x7b\"gid\":1,\"x\":0,\"y\":768,\"properties\":[",
   "\x7b\"name\":\"keywords\",\"value\":\"" ++ keyword ++ "\"\x7d,",
   "\x7b\"name\":\"num_keywords\",\"value\":1\x7d]\x7d,",
   "\x7b\"gid\":2,\"x\":0,\"y\":288\x7d,", "\x7b\"gid\":3,\"x\":96,\"y\":288\x7d,",
   "\x7b\"gid\":4,\"x\":192,\"y\":288,\"properties\":[",
   "\x7b\"name\":\"cond_kind\",\"value\":\"len_even\"\x7d]\x7d,",
   "\x7b\"gid\":4,\"x\":288,\"y\":288,\"properties\":[",
   "\x7b\"name\":\"cond_kind\",\"value\":\"len_even\"\x7d]\x7d,",
   "\x7b\"gid\":5,\"x\":288,\"y\":192,\"rotation\":270\x7d,",
   "\x7b\"gid\":6,\"x\":192,\"y\":96\x7d,",
   "\x7b\"gid\":3,\"x\":192,\"y\":288,\"rotation\":90\x7d,",
   "\x7b\"gid\":6,\"x\":192,\"y\":480\x7d,",
   "\x7b\"gid\":5,\"x\":384,\"y\":192,\"rotation\":270\x7d,",
   "\x7b\"gid\":6,\"x\":288,\"y\":96\x7d,",
   "\x7b\"gid\":3,\"x\":288,\"y\":288,\"rotation\":90\x7d,",
   "\x7b\"gid\":6,\"x\":288,\"y\":480\x7d", "]\x7d]\x7d"].flatMap Word.ofText

/-- A directory with two level files, one of which cannot be read, and with other things. -/
def quietLevels : FileAccess Id :=
  .ofLevels
    [("tiles.tsj", .ok testTilesDocument), ("good.json", .ok testDocument),
     ("closed.tmj", .error .denied), ("deeper.json", .error .isDirectory), ("notes.txt", .ok [])]

/-- A directory with a level that can be played and one whose board breaks. -/
def brokenLevels : FileAccess Id :=
  .ofLevels
    [("tiles.tsj", .ok testTilesDocument), ("bad.json", .ok (adjacentDocument "abc")),
     ("good.json", .ok testDocument)]

/-- Settings with a limit of a hundred moves. -/
def hundredMoves : Setup where
  settings := { limit := 100 }
  base := ""

theorem hundredMoves_tileset {files : FileAccess Id}
    (h : files.read "levels/tiles.tsj" = .ok testTilesDocument) :
    hundredMoves.tileset files (some "levels/tiles.tsj") = .ok testTiles := by
  have hread : files.tileset "levels/tiles.tsj" = .ok testTiles := by
    unfold FileAccess.tileset
    rw [h]
    show Except.mapError _ (Tileset.document.ofBytes testTilesDocument) = _
    rw [testTilesDocument_read]
    rfl
  unfold Setup.tileset
  show (files.tileset "levels/tiles.tsj" >>= fun r => _ : Id (Except CommandError Tileset)) = _
  rw [hread]
  rfl

theorem quietLevels_good : quietLevels.read "levels/good.json" = .ok testDocument := rfl

theorem quietLevels_divided :
    ∃ c, quietLevels.catalogue testTiles 100 "levels" = .ok c ∧
      "levels/good.json" ∈ c.accepted ∧ "levels/closed.tmj" ∈ c.rejected.map Prod.fst ∧
      (∀ p ∈ c.accepted ++ c.rejected.map Prod.fst,
        p = "levels/good.json" ∨ p = "levels/closed.tmj") ∧
      (scan quietLevels hundredMoves (some "levels/tiles.tsj") (some "levels")).code =
        (check quietLevels hundredMoves (some "levels/tiles.tsj")
          ["levels/good.json", "levels/closed.tmj"]).code := by
  have hlevels : ∀ p, quietLevels.IsLevel "levels"
      ["tiles.tsj", "good.json", "closed.tmj", "deeper.json", "notes.txt"] p ↔
        p ∈ ["levels/good.json", "levels/closed.tmj"] := by
    intro p
    rw [← FileAccess.mem_levelPaths, FileAccess.levelPaths, List.mem_mergeSort]
    exact iff_of_eq (congrArg (p ∈ ·) (by decide +kernel))
  obtain ⟨hcatalogue, hcodes⟩ := @catalogue_law quietLevels "levels"
    ["tiles.tsj", "good.json", "closed.tmj", "deeper.json", "notes.txt"] rfl rfl (by decide +kernel)
  obtain ⟨hexists, hdivides, _⟩ := hcatalogue testTiles 100
  obtain ⟨b, hboard, _⟩ := testDocument_board
  have hgood := FileAccess.board_eq_ok_iff.2 ⟨testDocument, quietLevels_good, hboard⟩
  have hclosed : quietLevels.board testTiles 100 "levels/closed.tmj" =
      .error (.refused "read level" "levels/closed.tmj" .denied) := by
    rw [FileAccess.board_eq]
    rfl
  obtain ⟨c, hc⟩ := hexists.mpr (by
    simp only [hlevels, List.forall_mem_cons, List.not_mem_nil, false_implies, implies_true,
      and_true]
    refine ⟨?_, ?_⟩
    · exact FileAccess.not_breaks_of_ok hgood
    · rw [← FileAccess.breaking?_eq_none_iff, FileAccess.breaking?,
        FileAccess.fault?_eq_some_iff.2 hclosed]
      rfl)
  obtain ⟨hmem, _, haccepted, hrejected, _⟩ := hdivides c hc
  refine ⟨c, hc, ?_, ?_, fun p hp => ?_, ?_⟩
  · rw [haccepted, hlevels]
    exact ⟨by decide, testDocument, b, quietLevels_good, hboard⟩
  · exact List.mem_map.mpr ⟨_, (hrejected _ _).mpr ⟨(hlevels _).mpr (by decide), hclosed⟩, rfl⟩
  · simpa using (hlevels p).mp ((hmem p).mp hp)
  · exact hcodes hundredMoves _ _ _ rfl fun p => (hlevels p).symm

/-- **A board that breaks ends the catalogue**: the level beside it is not listed either. -/
theorem brokenLevels_ends :
    (∀ c, brokenLevels.catalogue testTiles 100 "levels" ≠ .ok c) ∧
      (scan brokenLevels hundredMoves (some "levels/tiles.tsj") (some "levels")).code =
        Report.brokenOff := by
  have hbad : "levels/bad.json" ∈
      brokenLevels.levelPaths "levels" ["tiles.tsj", "bad.json", "good.json"] := by
    rw [FileAccess.levelPaths, List.mem_mergeSort]
    decide +kernel
  have hbreaks : brokenLevels.Breaks testTiles 100 "levels/bad.json" :=
    FileAccess.isSome_breaking?_iff.1 (by decide +kernel)
  constructor
  · intro c hc
    rw [@FileAccess.catalogue_eq brokenLevels "levels" ["tiles.tsj", "bad.json", "good.json"]
      rfl rfl] at hc
    split at hc
    · cases hc
    · rename_i hnone
      exact FileAccess.breaking?_eq_none_iff.1 (List.findSome?_eq_none_iff.mp hnone _ hbad) hbreaks
  · have htileset : hundredMoves.tileset brokenLevels (some "levels/tiles.tsj") = .ok testTiles :=
      hundredMoves_tileset rfl
    exact (@scan_verdict brokenLevels hundredMoves _ (some "levels") testTiles "levels"
      ["tiles.tsj", "bad.json", "good.json"] rfl rfl rfl htileset).brokenOff_iff.mpr
        ⟨_, hbad, hbreaks⟩

end CipherBoard
