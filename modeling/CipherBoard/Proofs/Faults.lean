/-
CipherBoard.Proofs.Faults — which layouts a survey accepts, and which fault it reports.

A survey reads the placements one after the other, enters each in the board as it goes, and stops
at the first with a fault; only after the last does it count. What it comes to is said here of the
placements alone:

* `Frame.WellPlaced` — every placement has a class, a cell of its own and a behaviour;
  `sites_eq_ok_iff_wellPlaced` says that these are the lists that are read to their end.
* `Frame.Finds` — what is wrong with a placement that comes after others, by the first question
  that has no good answer; `examine_eq_error_iff` says that this is what is reported of it.
* `Frame.FaultAt` — the placement in a place is at fault. A list is well placed exactly if none
  is (`wellPlaced_iff_forall_faultAt`), and otherwise the first is reported
  (`sites_eq_error_iff_faultAt`).
* `survey_decides` — the answers of a survey, each with the layouts that get it.
-/
import CipherBoard.Proofs.Board

namespace CipherBoard

/-! ## Section 1 — what can be wrong -/

/-- The cell on which a placement lies. -/
def Frame.cellOf? (f : Frame) (p : Placement) : Option Cell :=
  f.cell? (f.place p)

/-- The role of a placement, if its class is known. -/
def Placement.role? (p : Placement) : Option Role :=
  (PieceClass.ofName? p.className).map PieceClass.role

/-- How many pieces of a layout have a role. -/
def Layout.countOf (l : Layout) (role : Role) : Nat :=
  l.placements.countP (·.role? = some role)

namespace Frame

/-- What is wrong with a placement that comes after others. Its class is asked for first, then its
cell, then whether an earlier one lies there, and last what it does. -/
inductive Finds (f : Frame) (before : List Placement) (p : Placement) : PieceFault → Prop
  | unknownClass (hcls : PieceClass.ofName? p.className = none) : Finds f before p .unknownClass
  | offBoard {cls : PieceClass} (hcls : PieceClass.ofName? p.className = some cls)
    (hcell : f.cellOf? p = none) : Finds f before p .offBoard
  | cellTaken {cls : PieceClass} {c : Cell} {q : Placement}
    (hcls : PieceClass.ofName? p.className = some cls) (hcell : f.cellOf? p = some c)
    (hq : q ∈ before) (htaken : f.cellOf? q = some c) : Finds f before p (.cellTaken q.className)
  | behaviour {cls : PieceClass} {c : Cell} {fault : PieceFault}
    (hcls : PieceClass.ofName? p.className = some cls) (hcell : f.cellOf? p = some c)
    (hfree : ∀ q ∈ before, f.cellOf? q ≠ some c)
    (hfault : Behaviour.of cls p.payload = .error fault) : Finds f before p fault

/-- The placement in place `i` of a list is at fault. -/
def FaultAt (f : Frame) (ps : List Placement) (i : Nat) (fault : PieceFault) : Prop :=
  ∃ p, ps[i]? = some p ∧ f.Finds (ps.take i) p fault

/-- Nothing is wrong with any placement of a list. -/
structure WellPlaced (f : Frame) (ps : List Placement) : Prop where
  known : ∀ p ∈ ps, ∃ cls, PieceClass.ofName? p.className = some cls
  onBoard : ∀ p ∈ ps, ∃ c, f.cellOf? p = some c
  apart : (ps.map f.cellOf?).Nodup
  behaves : ∀ p ∈ ps, ∀ cls, PieceClass.ofName? p.className = some cls →
    ∃ behaviour, Behaviour.of cls p.payload = .ok behaviour

end Frame

/-! ## Section 2 — one placement -/

section

variable {f : Frame} {p : Placement} {ps before : List Placement} {sites : List Site}
  {fault : PieceFault}

theorem Site.Lies.cellOf?_eq {s : Site} (h : s.Lies f p) : f.cellOf? p = some s.cell := by
  rw [← h.cell, h.pos, Frame.cellOf?]

/-- Sites and placements have the same cells. -/
theorem map_cellOf? (h : List.Forall₂ (Site.Lies f) ps sites) :
    ps.map f.cellOf? = (sites.map Site.cell).map some := by
  induction h with
  | nil => rfl
  | cons hs _ ih => simp [hs.cellOf?_eq, ih]

/-- The site that holds a cell. -/
theorem find?_eq_some_of_cell (hd : (sites.map Site.cell).Nodup) {t : Site} (ht : t ∈ sites) :
    sites.find? (·.cell = t.cell) = some t := by
  cases hfind : sites.find? (·.cell = t.cell) with
  | none =>
    have hnone := List.find?_eq_none.mp hfind t ht
    simp at hnone
  | some s =>
    have hcell : s.cell = t.cell := by simpa using List.find?_some hfind
    rw [List.inj_on_of_nodup_map hd (List.mem_of_find?_eq_some hfind) ht hcell]

/-- **Examining a placement** after sites reports what is wrong with it after their placements. -/
theorem Frame.examine_eq_error_iff (hlies : List.Forall₂ (Site.Lies f) before sites)
    (hd : (sites.map Site.cell).Nodup) :
    f.examine sites p = .error fault ↔ f.Finds before p fault := by
  have hcells : ∀ c, (∃ q ∈ before, f.cellOf? q = some c) ↔ ∃ t ∈ sites, t.cell = c := by
    intro c
    have hmem : some c ∈ before.map f.cellOf? ↔ some c ∈ (sites.map Site.cell).map some := by
      rw [map_cellOf? hlies]
    simpa using hmem
  refine ⟨fun h => ?_, fun h => ?_⟩
  · unfold Frame.examine at h
    split at h
    · rename_i hcls
      cases h
      exact .unknownClass hcls
    · rename_i cls hcls
      split at h
      · rename_i hcell
        cases h
        exact .offBoard hcls hcell
      · rename_i c hcell
        split at h
        · rename_i t hfind
          cases h
          obtain ⟨i, hi⟩ := List.mem_iff_getElem?.mp (List.mem_of_find?_eq_some hfind)
          obtain ⟨q, hq, hlie⟩ := exists_getElem?_of_forall₂ hlies hi
          have htaken : t.cell = c := by simpa using List.find?_some hfind
          rw [hlie.className]
          exact .cellTaken hcls hcell (List.mem_of_getElem? hq) (htaken ▸ hlie.cellOf?_eq)
        · rename_i hfind
          have hfree : ¬ ∃ t ∈ sites, t.cell = c := by
            simpa using List.find?_eq_none.mp hfind
          refine .behaviour hcls hcell (fun q hq htaken => ?_) ?_
          · exact hfree ((hcells c).mp ⟨q, hq, htaken⟩)
          · cases hb : Behaviour.of cls p.payload <;> rw [hb] at h <;> cases h
            rfl
  · unfold Frame.examine
    cases h with
    | unknownClass hcls => rw [hcls]
    | offBoard hcls hcell =>
      rw [Frame.cellOf?] at hcell
      rw [hcls]
      simp [hcell]
    | @cellTaken cls c q hcls hcell hq htaken =>
      obtain ⟨t, ht, hlie⟩ := exists_mem_of_forall₂ hlies hq
      rw [hlie.cellOf?_eq] at htaken
      cases htaken
      rw [Frame.cellOf?] at hcell
      rw [hcls]
      simp [hcell, find?_eq_some_of_cell hd ht, hlie.className]
    | @behaviour cls c _ hcls hcell hfree hfault =>
      have hfind : sites.find? (·.cell = c) = none := by
        refine List.find?_eq_none.mpr fun t ht hcell => ?_
        obtain ⟨q, hq, htaken⟩ := (hcells c).mpr ⟨t, ht, by simpa using hcell⟩
        exact hfree q hq htaken
      rw [Frame.cellOf?] at hcell
      rw [hcls]
      simp [hcell, hfind, hfault, Except.map]

/-! ## Section 3 — all placements -/

namespace Frame

/-- Reading placements fails at one of them, after the sites of those before it. -/
theorem sites_eq_error_iff {held : List Site} {e : LayoutError} :
    f.sites held ps = .error e ↔ ∃ front p rest sites fault, ps = front ++ p :: rest ∧
      f.sites held front = .ok sites ∧ f.examine sites p = .error fault ∧
      e = .piece sites.length ⟨p.className, f.place p⟩ fault := by
  induction ps generalizing held with
  | nil => simp [Frame.sites]
  | cons q tail ih =>
    rw [Frame.sites]
    cases hq : f.examine held q with
    | error g =>
      refine ⟨fun h => ?_, fun h => ?_⟩
      · cases h
        exact ⟨[], q, tail, held, g, rfl, rfl, hq, rfl⟩
      · obtain ⟨front, p, rest, sites, fault, hsplit, hfront, hp, rfl⟩ := h
        cases front with
        | nil =>
          cases hsplit
          cases hfront
          rw [hq] at hp
          cases hp
          rfl
        | cons q' front =>
          cases hsplit
          rw [Frame.sites, hq] at hfront
          cases hfront
    | ok s =>
      dsimp only
      rw [ih]
      refine ⟨fun h => ?_, fun h => ?_⟩
      · obtain ⟨front, p, rest, sites, fault, rfl, hfront, hp, rfl⟩ := h
        refine ⟨q :: front, p, rest, sites, fault, rfl, ?_, hp, rfl⟩
        rw [Frame.sites, hq]
        exact hfront
      · obtain ⟨front, p, rest, sites, fault, hsplit, hfront, hp, rfl⟩ := h
        cases front with
        | nil =>
          cases hsplit
          cases hfront
          rw [hq] at hp
          cases hp
        | cons q' front =>
          cases hsplit
          rw [Frame.sites, hq] at hfront
          exact ⟨front, p, rest, sites, fault, rfl, hfront, hp, rfl⟩

theorem sites_nil_eq_ok_iff : f.sites [] ps = .ok sites ↔
    List.Forall₂ (Site.Lies f) ps sites ∧ (sites.map Site.cell).Nodup := by
  rw [Frame.sites_eq_ok_iff (by simp)]
  simp

/-- A placement that has a class, a cell and a behaviour has a site. -/
theorem WellPlaced.exists_lies (h : f.WellPlaced ps) (hp : p ∈ ps) : ∃ s : Site, s.Lies f p := by
  obtain ⟨cls, hcls⟩ := h.known p hp
  obtain ⟨c, hcell⟩ := h.onBoard p hp
  obtain ⟨behaviour, hbehaviour⟩ := h.behaves p hp cls hcls
  exact ⟨⟨p.className, cls, f.place p, p.turn, p.payload, behaviour, c⟩,
    ⟨rfl, rfl, rfl, rfl, hcls, hcell, hbehaviour⟩⟩

/-- **The lists that are read to their end** are those that are well placed. -/
theorem sites_eq_ok_iff_wellPlaced : (∃ sites, f.sites [] ps = .ok sites) ↔ f.WellPlaced ps := by
  simp only [sites_nil_eq_ok_iff]
  refine ⟨fun h => ?_, fun h => ?_⟩
  · obtain ⟨sites, hlies, hd⟩ := h
    refine ⟨fun p hp => ?_, fun p hp => ?_, ?_, fun p hp cls hcls => ?_⟩
    · obtain ⟨s, _, hs⟩ := exists_mem_of_forall₂ hlies hp
      exact ⟨s.cls, hs.className ▸ hs.cls⟩
    · obtain ⟨s, _, hs⟩ := exists_mem_of_forall₂ hlies hp
      exact ⟨s.cell, hs.cellOf?_eq⟩
    · rw [map_cellOf? hlies]
      exact hd.map fun _ _ h => Option.some.inj h
    · obtain ⟨s, _, hs⟩ := exists_mem_of_forall₂ hlies hp
      have hname := hs.cls
      rw [hs.className, hcls] at hname
      cases hname
      exact ⟨s.behaviour, hs.payload ▸ hs.behaviour⟩
  · obtain ⟨sites, hlies⟩ := exists_forall₂ fun p hp => h.exists_lies hp
    refine ⟨sites, hlies, ?_⟩
    have hapart := h.apart
    rw [map_cellOf? hlies] at hapart
    exact hapart.of_map some

theorem WellPlaced.exists_sites (h : f.WellPlaced ps) : ∃ sites, f.sites [] ps = .ok sites ∧
    List.Forall₂ (Site.Lies f) ps sites ∧ (sites.map Site.cell).Nodup := by
  obtain ⟨sites, hsites⟩ := sites_eq_ok_iff_wellPlaced.2 h
  exact ⟨sites, hsites, sites_nil_eq_ok_iff.1 hsites⟩

theorem WellPlaced.take (h : f.WellPlaced ps) (i : Nat) : f.WellPlaced (ps.take i) := by
  refine ⟨fun p hp => h.known p (List.mem_of_mem_take hp),
    fun p hp => h.onBoard p (List.mem_of_mem_take hp), ?_,
    fun p hp => h.behaves p (List.mem_of_mem_take hp)⟩
  rw [List.map_take]
  exact h.apart.sublist (List.take_sublist i _)

/-- A fault does not depend on what comes behind it. -/
theorem faultAt_take {i j : Nat} :
    f.FaultAt (ps.take i) j fault ↔ j < i ∧ f.FaultAt ps j fault := by
  unfold FaultAt
  rw [List.getElem?_take]
  by_cases hj : j < i
  · simp [hj, List.take_take, Nat.min_eq_left (Nat.le_of_lt hj)]
  · simp [hj]

/-- A placement at fault behind some that are well placed is reported. -/
theorem sites_eq_error_of_faultAt {i : Nat} (hfault : f.FaultAt ps i fault)
    (hfront : f.WellPlaced (ps.take i)) : ∃ p, ps[i]? = some p ∧
      f.sites [] ps = .error (.piece i ⟨p.className, f.place p⟩ fault) := by
  obtain ⟨p, hp, hfinds⟩ := hfault
  obtain ⟨hi, rfl⟩ := List.getElem?_eq_some_iff.mp hp
  obtain ⟨sites, hsites, hlies, hd⟩ := hfront.exists_sites
  have hlength : sites.length = i := by
    rw [← hlies.length_eq, List.length_take]
    omega
  refine ⟨ps[i], hp, sites_eq_error_iff.2 ⟨ps.take i, ps[i], ps.drop (i + 1), sites, fault, ?_,
    hsites, (examine_eq_error_iff hlies hd).mpr hfinds, by rw [hlength]⟩⟩
  rw [← List.drop_eq_getElem_cons hi, List.take_append_drop]

/-- **A list is well placed exactly if no placement of it is at fault.** -/
theorem wellPlaced_iff_forall_faultAt :
    f.WellPlaced ps ↔ ∀ i fault, ¬ f.FaultAt ps i fault := by
  refine ⟨fun h i fault hfault => ?_, fun h => ?_⟩
  · obtain ⟨p, _, herror⟩ := sites_eq_error_of_faultAt hfault (h.take i)
    obtain ⟨sites, hsites, _⟩ := h.exists_sites
    rw [hsites] at herror
    cases herror
  · refine sites_eq_ok_iff_wellPlaced.1 ?_
    cases hsites : f.sites [] ps with
    | ok sites => exact ⟨sites, rfl⟩
    | error e =>
      obtain ⟨front, p, rest, sites, fault, rfl, hfront, hp, _⟩ := sites_eq_error_iff.1 hsites
      obtain ⟨hlies, hd⟩ := sites_nil_eq_ok_iff.1 hfront
      refine absurd ⟨p, ?_, ?_⟩ (h front.length fault)
      · simp
      · simpa using (examine_eq_error_iff hlies hd).mp hp

/-- **The first placement at fault is reported.** -/
theorem sites_eq_error_iff_faultAt {e : LayoutError} : f.sites [] ps = .error e ↔
    ∃ i p fault, ps[i]? = some p ∧ f.FaultAt ps i fault ∧
      (∀ j < i, ∀ other, ¬ f.FaultAt ps j other) ∧
      e = .piece i ⟨p.className, f.place p⟩ fault := by
  refine ⟨fun h => ?_, fun h => ?_⟩
  · obtain ⟨front, p, rest, sites, fault, rfl, hfront, hp, rfl⟩ := sites_eq_error_iff.1 h
    obtain ⟨hlies, hd⟩ := sites_nil_eq_ok_iff.1 hfront
    have hwell : f.WellPlaced front := sites_eq_ok_iff_wellPlaced.1 ⟨sites, hfront⟩
    have hat : (front ++ p :: rest)[front.length]? = some p := by simp
    refine ⟨front.length, p, fault, hat, ⟨p, hat, ?_⟩, fun j hj other hother => ?_, ?_⟩
    · simpa using (examine_eq_error_iff hlies hd).mp hp
    · have htake : (front ++ p :: rest).take front.length = front := by simp
      refine wellPlaced_iff_forall_faultAt.1 hwell j other ?_
      rw [← htake]
      exact faultAt_take.2 ⟨hj, hother⟩
    · rw [hlies.length_eq]
  · obtain ⟨i, p, fault, hp, hfault, hfirst, rfl⟩ := h
    have hfront : f.WellPlaced (ps.take i) := by
      refine wellPlaced_iff_forall_faultAt.2 fun j other hother => ?_
      obtain ⟨hj, hother⟩ := faultAt_take.1 hother
      exact hfirst j hj other hother
    obtain ⟨q, hq, herror⟩ := sites_eq_error_of_faultAt hfault hfront
    rw [hp] at hq
    cases hq
    exact herror

end Frame

/-- There are as many sites of a role as placements. -/
theorem roleCount_eq (h : List.Forall₂ (Site.Lies f) ps sites) (role : Role) :
    roleCount role sites = ps.countP (·.role? = some role) := by
  unfold roleCount
  induction h with
  | nil => rfl
  | @cons p s _ _ hs _ ih =>
    have hrole : p.role? = some s.cls.role := by
      rw [Placement.role?, ← hs.className, hs.cls, Option.map_some]
    simp only [List.countP_cons, ih, hrole, Option.some.injEq]

end

/-! ## Section 4 — the survey -/

namespace Layout

/-- What there is to report of a layout: of its placements at fault the first, with its place and
its name; if none is at fault, that there is no output; and if there is one, the number of inputs,
unless that is one. -/
inductive Reports (l : Layout) (f : Frame) : LayoutError → Prop
  | piece {i : Nat} {p : Placement} {fault : PieceFault} (hp : l.placements[i]? = some p)
    (hfault : f.FaultAt l.placements i fault)
    (hfirst : ∀ j < i, ∀ other, ¬ f.FaultAt l.placements j other) :
    Reports l f (.piece i ⟨p.className, f.place p⟩ fault)
  | noOutput (hwell : f.WellPlaced l.placements) (hout : l.countOf .output = 0) :
    Reports l f .noOutput
  | inputCount (hwell : f.WellPlaced l.placements) (hout : l.countOf .output ≠ 0)
    (hin : l.countOf .input ≠ 1) : Reports l f (.inputCount (l.countOf .input))

variable {l : Layout} {origin : Point} {f : Frame}

/-- A survey fails where reading the placements does. -/
theorem survey_of_sites_eq_error (hf : l.frame? origin = some f) {e : LayoutError}
    (h : f.sites [] l.placements = .error e) : l.survey origin = .error e := by
  unfold survey
  rw [hf]
  dsimp only
  rw [h]

/-- Where the placements are read to their end, the numbers of outputs and inputs decide. -/
theorem survey_of_sites_eq_ok (hf : l.frame? origin = some f) {sites : List Site}
    (h : f.sites [] l.placements = .ok sites) : l.survey origin =
      if l.countOf .output = 0 then .error .noOutput
      else if l.countOf .input ≠ 1 then .error (.inputCount (l.countOf .input))
      else .ok { sites, entry := sites.findIdx (·.cls.role = .input) } := by
  have hcount := roleCount_eq (Frame.sites_nil_eq_ok_iff.1 h).1
  unfold survey
  rw [hf]
  dsimp only
  rw [h]
  dsimp only
  rw [hcount, hcount]
  rfl

/-- **The layouts of which there is nothing to report.** -/
theorem exists_survey_iff (hf : l.frame? origin = some f) : (∃ v, l.survey origin = .ok v) ↔
    f.WellPlaced l.placements ∧ l.countOf .output ≠ 0 ∧ l.countOf .input = 1 := by
  rw [← Frame.sites_eq_ok_iff_wellPlaced]
  cases hsites : f.sites [] l.placements with
  | error e => simp [survey_of_sites_eq_error hf hsites]
  | ok sites =>
    rw [survey_of_sites_eq_ok hf hsites]
    split_ifs with hout hin <;> simp_all

/-- **What a survey reports is what there is to report.** -/
theorem survey_eq_error_iff (hf : l.frame? origin = some f) {e : LayoutError} :
    l.survey origin = .error e ↔ l.Reports f e := by
  cases hsites : f.sites [] l.placements with
  | error e' =>
    have hwell : ¬ f.WellPlaced l.placements := by
      rw [← Frame.sites_eq_ok_iff_wellPlaced, hsites]
      simp
    rw [survey_of_sites_eq_error hf hsites]
    refine ⟨fun h => ?_, fun h => ?_⟩
    · cases h
      obtain ⟨i, p, fault, hp, hfault, hfirst, rfl⟩ := Frame.sites_eq_error_iff_faultAt.1 hsites
      exact .piece hp hfault hfirst
    · cases h with
      | piece hp hfault hfirst =>
        have herror := Frame.sites_eq_error_iff_faultAt.2 ⟨_, _, _, hp, hfault, hfirst, rfl⟩
        rw [hsites] at herror
        cases herror
        rfl
      | noOutput hwell' => exact absurd hwell' hwell
      | inputCount hwell' => exact absurd hwell' hwell
  | ok sites =>
    have hwell : f.WellPlaced l.placements := Frame.sites_eq_ok_iff_wellPlaced.1 ⟨sites, hsites⟩
    rw [survey_of_sites_eq_ok hf hsites]
    refine ⟨fun h => ?_, fun h => ?_⟩
    · split_ifs at h with hout hin
      · cases h
        exact .noOutput hwell hout
      · cases h
        exact .inputCount hwell hout hin
    · cases h with
      | piece _ hfault _ => exact absurd hfault (Frame.wellPlaced_iff_forall_faultAt.1 hwell _ _)
      | noOutput _ hout => rw [if_pos hout]
      | inputCount _ hout hin => rw [if_neg hout, if_pos hin]

section

variable {v : Survey} (hf : l.frame? origin = some f) (hv : l.survey origin = .ok v)
include hf hv

theorem lies_of_survey :
    List.Forall₂ (Site.Lies f) l.placements v.sites ∧ (v.sites.map Site.cell).Nodup := by
  obtain ⟨g, hg, hlies, hd, _⟩ := survey_eq_ok_iff.mp hv
  rw [hf] at hg
  cases hg
  exact ⟨hlies, hd⟩

/-- A cell holds the number of the placement that lies on it. -/
theorem siteAt?_of_survey {c : Cell} {i : Nat} :
    siteAt? v.sites c = some i ↔ ∃ p, l.placements[i]? = some p ∧ f.cellOf? p = some c := by
  obtain ⟨hlies, hd⟩ := lies_of_survey hf hv
  rw [siteAt?_eq_some_iff hd]
  refine ⟨fun h => ?_, fun h => ?_⟩
  · obtain ⟨s, hs, rfl⟩ := h
    obtain ⟨p, hp, hlie⟩ := exists_getElem?_of_forall₂ hlies hs
    exact ⟨p, hp, hlie.cellOf?_eq⟩
  · obtain ⟨p, hp, hcell⟩ := h
    obtain ⟨s, hs, hlie⟩ := exists_site hlies hp
    rw [hlie.cellOf?_eq] at hcell
    exact ⟨s, hs, Option.some.inj hcell⟩

end

end Layout

/-- **What a survey decides.** Let the tiles of a layout be at least one unit wide and high. The
survey succeeds exactly if every placement has a known class, a cell of its own and a behaviour,
and there are an output and exactly one input. Then there is a site for each placement, in their
order, and a cell of the board holds number `i` exactly if the placement in place `i` lies on it.
Otherwise it reports what there is to report: if a placement is at fault, the first such, with its
place, its name and what is wrong with it; if none is, that there is no output; and if there is
one, the number of inputs. -/
theorem survey_decides (l : Layout) (origin : Point)
    (hwidth : 1 ≤ Decimal.wholePart l.tileWidth) (hheight : 1 ≤ Decimal.wholePart l.tileHeight) :
    ∃ f, l.frame? origin = some f ∧
      ((∃ v, l.survey origin = .ok v) ↔ f.WellPlaced l.placements ∧
        l.countOf .output ≠ 0 ∧ l.countOf .input = 1) ∧
      (∀ v, l.survey origin = .ok v → List.Forall₂ (Site.Lies f) l.placements v.sites ∧
        ∀ c i, siteAt? v.sites c = some i ↔
          ∃ p, l.placements[i]? = some p ∧ f.cellOf? p = some c) ∧
      (f.WellPlaced l.placements ↔ ∀ i fault, ¬ f.FaultAt l.placements i fault) ∧
      ∀ e, l.survey origin = .error e ↔ l.Reports f e := by
  have hf : l.frame? origin =
      some ⟨origin, Decimal.wholePart l.tileWidth, Decimal.wholePart l.tileHeight⟩ :=
    Layout.frame?_eq_some_iff.mpr ⟨rfl, hwidth, hheight⟩
  refine ⟨_, hf, Layout.exists_survey_iff hf, fun v hv => ⟨?_, fun c i => ?_⟩,
    Frame.wellPlaced_iff_forall_faultAt, fun e => Layout.survey_eq_error_iff hf⟩
  · exact (Layout.lies_of_survey hf hv).1
  · exact Layout.siteAt?_of_survey hf hv

/-- A piece of a class that nobody knows, on the cell of the input, before a pipe that lies off the
board. -/
def twoFaults : Layout :=
  .onCells [.onCell "elem_input" 0 0, .onCell "valve" 0 0, .onCell "loose_pipe" 20 0] []

theorem twoFaults_reported :
    1 ≤ Decimal.wholePart twoFaults.tileWidth ∧ 1 ≤ Decimal.wholePart twoFaults.tileHeight ∧
      ∃ f, twoFaults.frame? .zero = some f ∧ ∃ pos,
        twoFaults.survey .zero = .error (.piece 1 ⟨"valve", pos⟩ .unknownClass) := by
  have hwidth : 1 ≤ Decimal.wholePart twoFaults.tileWidth := by decide +kernel
  have hheight : 1 ≤ Decimal.wholePart twoFaults.tileHeight := by decide +kernel
  obtain ⟨f, hf, _, _, _, hreports⟩ := survey_decides twoFaults .zero hwidth hheight
  obtain ⟨rfl, _⟩ := Layout.frame?_eq_some_iff.mp hf
  have hvalve : twoFaults.placements[1]? = some (.onCell "valve" 0 0) := rfl
  refine ⟨hwidth, hheight, _, hf, _, (hreports _).mpr (.piece hvalve ⟨_, hvalve, ?_⟩ ?_)⟩
  · exact .unknownClass (by decide)
  · -- Nothing is wrong with the input, which comes first.
    intro j hj other hother
    obtain rfl : j = 0 := by omega
    obtain ⟨p, hp, hfinds⟩ := hother
    cases hp
    cases hfinds with
    | unknownClass hcls => cases hcls
    | offBoard _ hcell => exact absurd hcell (by decide +kernel)
    | cellTaken _ _ hq => cases hq
    | behaviour hcls _ _ hfault =>
      cases hcls
      cases hfault

end CipherBoard
