/-
CipherBoard.Proofs.Survey — what a survey promises.

* `Cell.Adjoins` — two cells share a side; `mem_neighbours` says that the
  neighbours of a cell are exactly those.
* `Site.Lies` — a site is a placement whose class, cell and behaviour have been
  read off; `Frame.sites_eq_ok_iff` says that a survey reads off every placement,
  in order, and that no two sites share a cell.
* `Site.FlowsTo` — a signal that leaves one site can enter the next, and the two
  adjoin. `mem_feeders_iff` and `mem_targets_iff` give the links of a node in
  these words.
-/
import CipherBoard.Wiring
import Mathlib.Data.List.Forall2
import Mathlib.Data.List.Nodup

namespace CipherBoard

/-! ## Section 1 — cells -/

namespace Cell

/-- Two cells share a side: one row apart in a column, or one column apart in a row. -/
def Adjoins (c d : Cell) : Prop :=
  (c.column = d.column ∧ (c.row.val + 1 = d.row.val ∨ d.row.val + 1 = c.row.val)) ∨
    (c.row = d.row ∧ (c.column.val + 1 = d.column.val ∨ d.column.val + 1 = c.column.val))

instance (c d : Cell) : Decidable (c.Adjoins d) := by
  unfold Adjoins
  infer_instance

theorem Adjoins.symm {c d : Cell} (h : c.Adjoins d) : d.Adjoins c := by
  unfold Adjoins at *
  rcases h with ⟨hcol, hrow⟩ | ⟨hrow, hcol⟩
  · exact Or.inl ⟨hcol.symm, hrow.symm⟩
  · exact Or.inr ⟨hrow.symm, hcol.symm⟩

theorem not_adjoins_self (c : Cell) : ¬ c.Adjoins c := by
  unfold Adjoins
  omega

theorem at?_eq_some_iff {row column : Int} {c : Cell} :
    at? row column = some c ↔ row = c.row.val ∧ column = c.column.val := by
  obtain ⟨⟨r, hr⟩, ⟨k, hk⟩⟩ := c
  unfold at?
  split
  · rename_i h
    simp only [Option.some.injEq, Cell.mk.injEq, Fin.mk.injEq]
    omega
  · rename_i h
    simp only [reduceCtorEq, false_iff]
    omega

/-- The neighbours of a cell are the cells of the board that share a side with it. -/
theorem mem_neighbours {c d : Cell} : d ∈ c.neighbours ↔ c.Adjoins d := by
  obtain ⟨⟨r, hr⟩, ⟨k, hk⟩⟩ := c
  obtain ⟨⟨r', hr'⟩, ⟨k', hk'⟩⟩ := d
  simp only [neighbours, List.mem_filterMap, List.mem_cons, List.not_mem_nil, or_false, id,
    exists_eq_right, eq_comm (a := some _), at?_eq_some_iff, Adjoins, Fin.mk.injEq]
  omega

end Cell

/-! ## Section 2 — sites -/

/-- The site `s` is the placement `p` with its class, cell and behaviour read off. -/
structure Site.Lies (f : Frame) (p : Placement) (s : Site) : Prop where
  className : s.className = p.className
  pos : s.pos = f.place p
  turn : s.turn = p.turn
  payload : s.payload = p.payload
  cls : PieceClass.ofName? s.className = some s.cls
  cell : f.cell? s.pos = some s.cell
  behaviour : Behaviour.of s.cls s.payload = .ok s.behaviour

/-- Examining a placement gives the site that it lies on, provided that its cell
is not taken yet. -/
theorem Frame.examine_eq_ok_iff {f : Frame} {before : List Site} {p : Placement} {s : Site} :
    f.examine before p = .ok s ↔ s.Lies f p ∧ ∀ t ∈ before, t.cell ≠ s.cell := by
  constructor
  · intro h
    unfold Frame.examine at h
    split at h
    · cases h
    · rename_i cls hcls
      split at h
      · cases h
      · rename_i cell hcell
        split at h
        · cases h
        · rename_i hfree
          cases hb : Behaviour.of cls p.payload with
          | error fault => rw [hb] at h; cases h
          | ok behaviour =>
            rw [hb] at h
            cases h
            refine ⟨⟨rfl, rfl, rfl, rfl, hcls, hcell, hb⟩, fun t ht => ?_⟩
            simpa using List.find?_eq_none.mp hfree t ht
  · rintro ⟨⟨hname, hpos, hturn, hpay, hcls, hcell, hb⟩, hfree⟩
    obtain ⟨className, cls, pos, turn, payload, behaviour, cell⟩ := s
    subst hname hpos hturn hpay
    have hnone : before.find? (·.cell = cell) = none :=
      List.find?_eq_none.mpr fun t ht => by simpa using hfree t ht
    unfold Frame.examine
    simp only [hcls, hcell, hnone, hb]
    rfl

theorem cell_ne_of_nodup {before tail : List Site} {s : Site}
    (h : ((before ++ s :: tail).map Site.cell).Nodup) : ∀ t ∈ before, t.cell ≠ s.cell := by
  intro t ht heq
  rw [List.map_append, List.map_cons] at h
  exact (List.nodup_append.mp h).2.2 _ (List.mem_map_of_mem ht) _ List.mem_cons_self heq

/-- **What a survey reads off**: one site for each placement, in their order, no
two on one cell. -/
theorem Frame.sites_eq_ok_iff {f : Frame} {ps : List Placement} {before all : List Site}
    (hbefore : (before.map Site.cell).Nodup) :
    f.sites before ps = .ok all ↔
      ∃ new, all = before ++ new ∧ List.Forall₂ (Site.Lies f) ps new ∧
        (all.map Site.cell).Nodup := by
  induction ps generalizing before with
  | nil =>
    simp only [Frame.sites, Except.ok.injEq, List.forall₂_nil_left_iff]
    constructor
    · rintro rfl
      exact ⟨[], by simp, rfl, hbefore⟩
    · rintro ⟨new, rfl, rfl, _⟩
      simp
  | cons p rest ih =>
    rw [Frame.sites]
    cases hp : f.examine before p with
    | error fault =>
      simp only [reduceCtorEq, false_iff]
      rintro ⟨new, rfl, hnew, hnodup⟩
      obtain ⟨s, tail, hs, -, rfl⟩ := List.forall₂_cons_left_iff.mp hnew
      -- The first new site would have been found.
      rw [Frame.examine_eq_ok_iff.2 ⟨hs, cell_ne_of_nodup hnodup⟩] at hp
      cases hp
    | ok s =>
      obtain ⟨hs, hfree⟩ := Frame.examine_eq_ok_iff.1 hp
      have hnext : ((before ++ [s]).map Site.cell).Nodup := by
        rw [List.map_append, List.map_singleton]
        refine hbefore.append (List.nodup_singleton _) ?_
        intro c hc hs'
        obtain ⟨t, ht, rfl⟩ := List.mem_map.mp hc
        exact hfree t ht (List.mem_singleton.mp hs')
      simp only [ih hnext]
      constructor
      · rintro ⟨new, rfl, hnew, hnodup⟩
        exact ⟨s :: new, by simp, .cons hs hnew, hnodup⟩
      · rintro ⟨new, rfl, hnew, hnodup⟩
        obtain ⟨s', tail, hs', htail, rfl⟩ := List.forall₂_cons_left_iff.mp hnew
        -- The site that lies on a placement is determined by it.
        rw [Frame.examine_eq_ok_iff.2 ⟨hs', cell_ne_of_nodup hnodup⟩] at hp
        cases hp
        exact ⟨tail, by simp, htail, hnodup⟩

/-- Lists that are related entry by entry. -/
theorem exists_getElem?_of_forall₂ {α β : Type} {R : α → β → Prop} {k : List α} {m : List β}
    (h : List.Forall₂ R k m) {i : Nat} {y : β} (hy : m[i]? = some y) :
    ∃ x, k[i]? = some x ∧ R x y := by
  obtain ⟨hi, rfl⟩ := List.getElem?_eq_some_iff.mp hy
  have hlt : i < k.length := h.length_eq ▸ hi
  exact ⟨k[i], List.getElem?_eq_getElem hlt, h.get hlt hi⟩

/-- Where each entry is related to something, a list is related to a list. -/
theorem exists_forall₂ {α β : Type} {R : α → β → Prop} {k : List α}
    (h : ∀ x ∈ k, ∃ y, R x y) : ∃ m, List.Forall₂ R k m := by
  induction k with
  | nil => exact ⟨[], .nil⟩
  | cons x rest ih =>
    obtain ⟨y, hy⟩ := h x List.mem_cons_self
    obtain ⟨m, hm⟩ := ih fun z hz => h z (List.mem_cons_of_mem x hz)
    exact ⟨y :: m, .cons hy hm⟩

/-- In a list that is related to another, each entry is related to one of the other. -/
theorem exists_mem_of_forall₂ {α β : Type} {R : α → β → Prop} {k : List α} {m : List β}
    (h : List.Forall₂ R k m) {x : α} (hx : x ∈ k) : ∃ y ∈ m, R x y := by
  induction h with
  | nil => cases hx
  | @cons a b _ _ hab _ ih =>
    rcases List.mem_cons.mp hx with rfl | hx
    · exact ⟨b, List.mem_cons_self, hab⟩
    · obtain ⟨y, hy, hxy⟩ := ih hx
      exact ⟨y, List.mem_cons_of_mem b hy, hxy⟩

/-- The site of a placement. -/
theorem exists_site {f : Frame} {ps : List Placement} {sites : List Site}
    (h : List.Forall₂ (Site.Lies f) ps sites) {i : Nat} {p : Placement} (hp : ps[i]? = some p) :
    ∃ s, sites[i]? = some s ∧ s.Lies f p :=
  exists_getElem?_of_forall₂ (R := flip (Site.Lies f)) h.flip hp

/-- The frame of a layout: its tiles are at least one unit wide and high. -/
theorem Layout.frame?_eq_some_iff {l : Layout} {origin : Point} {f : Frame} :
    l.frame? origin = some f ↔
      f = ⟨origin, Decimal.wholePart l.tileWidth, Decimal.wholePart l.tileHeight⟩ ∧
        1 ≤ f.cellWidth ∧ 1 ≤ f.cellHeight := by
  unfold frame?
  dsimp only
  split
  · rename_i h
    simp only [reduceCtorEq, false_iff]
    rintro ⟨rfl, hwidth, hheight⟩
    dsimp only at hwidth hheight
    omega
  · rename_i h
    rw [Option.some.injEq]
    constructor
    · rintro rfl
      dsimp only
      exact ⟨rfl, by omega, by omega⟩
    · rintro ⟨rfl, _⟩
      rfl

/-- **What a survey finds**: the sites of all placements, at least one output among
them and exactly one input, which is the entry. -/
theorem Layout.survey_eq_ok_iff {l : Layout} {origin : Point} {v : Survey} :
    l.survey origin = .ok v ↔
      ∃ f, l.frame? origin = some f ∧ List.Forall₂ (Site.Lies f) l.placements v.sites ∧
        (v.sites.map Site.cell).Nodup ∧ roleCount .output v.sites ≠ 0 ∧
        roleCount .input v.sites = 1 ∧ v.entry = v.sites.findIdx (·.cls.role = .input) := by
  unfold Layout.survey
  cases hf : l.frame? origin with
  | none => simp
  | some f =>
    have hsites : ∀ sites, f.sites [] l.placements = .ok sites ↔
        List.Forall₂ (Site.Lies f) l.placements sites ∧ (sites.map Site.cell).Nodup := by
      intro sites
      rw [Frame.sites_eq_ok_iff (by simp)]
      simp
    dsimp only
    cases hs : f.sites [] l.placements with
    | error e =>
      simp only [reduceCtorEq, Option.some.injEq, exists_eq_left', false_iff]
      rintro ⟨hlies, hnodup, _⟩
      rw [(hsites _).mpr ⟨hlies, hnodup⟩] at hs
      cases hs
    | ok sites =>
      obtain ⟨hlies, hnodup⟩ := (hsites _).mp hs
      simp only [Option.some.injEq, exists_eq_left']
      constructor
      · intro h
        split at h
        · cases h
        · rename_i hout
          split at h
          · cases h
          · rename_i hin
            cases h
            exact ⟨hlies, hnodup, hout, not_not.mp hin, rfl⟩
      · rintro ⟨hlies', hnodup', hout, hin, hentry⟩
        have heq := (hsites _).mpr ⟨hlies', hnodup'⟩
        rw [hs] at heq
        cases heq
        rw [if_neg hout, if_neg (not_not.mpr hin), ← hentry]

/-- Where a role occurs once, it occurs where it is found first. -/
theorem role_eq_iff_of_roleCount {r : Role} {sites : List Site} (h : roleCount r sites = 1)
    {i : Nat} {s : Site} (hs : sites[i]? = some s) :
    s.cls.role = r ↔ i = sites.findIdx (·.cls.role = r) := by
  unfold roleCount at h
  induction sites generalizing i with
  | nil => simp at h
  | cons t rest ih =>
    by_cases ht : t.cls.role = r
    · rw [List.countP_cons_of_pos (by simpa using ht)] at h
      have hrest : ∀ u ∈ rest, ¬ u.cls.role = r := by
        have hzero : rest.countP (·.cls.role = r) = 0 := by omega
        simpa [List.countP_eq_zero] using hzero
      cases i with
      | zero =>
        cases hs
        simp [ht, List.findIdx_cons]
      | succ i =>
        have hu := hrest s (List.mem_of_getElem? hs)
        simp [hu, ht, List.findIdx_cons]
    · rw [List.countP_cons_of_neg (by simpa using ht)] at h
      cases i with
      | zero =>
        cases hs
        simp [ht, List.findIdx_cons]
      | succ i => simp [ht, List.findIdx_cons, ih h hs]

/-! ## Section 3 — links

A site is found by its cell, and a node by its number; both say where it stands in
the survey. -/

/-- A signal that leaves `t` can enter `s`, and the two adjoin. -/
def Site.FlowsTo (t s : Site) : Prop :=
  t.cell.Adjoins s.cell ∧ t.feeds s = true

section

variable {sites : List Site}

/-- Sites on one cell are one site. -/
theorem index_eq_of_cell_eq (hd : (sites.map Site.cell).Nodup) {i j : Nat} {s t : Site}
    (hs : sites[i]? = some s) (ht : sites[j]? = some t) (h : s.cell = t.cell) : i = j := by
  have hi : i < (sites.map Site.cell).length := by
    rw [List.length_map]
    exact (List.getElem?_eq_some_iff.mp hs).1
  refine (List.getElem?_inj hi hd).mp ?_
  rw [List.getElem?_map, List.getElem?_map, hs, ht, Option.map_some, Option.map_some, h]

theorem siteAt?_eq_some_iff (hd : (sites.map Site.cell).Nodup) {c : Cell} {i : Nat} :
    siteAt? sites c = some i ↔ ∃ s, sites[i]? = some s ∧ s.cell = c := by
  unfold siteAt?
  rw [List.findIdx?_eq_some_iff_getElem]
  constructor
  · rintro ⟨hi, hc, _⟩
    exact ⟨sites[i], List.getElem?_eq_getElem hi, by simpa using hc⟩
  · rintro ⟨s, hs, hc⟩
    obtain ⟨hi, rfl⟩ := List.getElem?_eq_some_iff.mp hs
    refine ⟨hi, by simpa using hc, fun j hj => ?_⟩
    intro hcell
    have hjs := List.getElem?_eq_getElem (Nat.lt_trans hj hi)
    have heq := index_eq_of_cell_eq hd hjs hs (by rw [hc]; simpa using hcell)
    omega

theorem Site.direction?_eq_incoming {s t : Site} :
    s.direction? t = some .incoming ↔ t.feeds s = true := by
  unfold Site.direction?
  split
  · simp_all
  · split <;> simp_all

theorem Site.direction?_eq_outgoing {s t : Site} :
    s.direction? t = some .outgoing ↔ t.feeds s = false ∧ s.feeds t = true := by
  unfold Site.direction?
  split
  · simp_all
  · split <;> simp_all

theorem Site.mem_links (hd : (sites.map Site.cell).Nodup) {s : Site} {k : Link} :
    k ∈ s.links sites ↔ ∃ t, sites[k.other]? = some t ∧ s.cell.Adjoins t.cell ∧
      s.direction? t = some k.direction ∧ k.special = isSpecial t.className := by
  unfold Site.links
  simp only [List.mem_filterMap, Cell.mem_neighbours, Option.bind_eq_bind,
    Option.bind_eq_some_iff, Option.pure_def, Option.some.injEq, siteAt?_eq_some_iff hd]
  constructor
  · rintro ⟨c, hc, id, ⟨s', hs', rfl⟩, t, ht, d, hdir, rfl⟩
    rw [hs'] at ht
    cases ht
    exact ⟨s', hs', hc, hdir, rfl⟩
  · rintro ⟨t, ht, hadj, hdir, hspecial⟩
    obtain ⟨other, direction, special⟩ := k
    cases hspecial
    exact ⟨t.cell, hadj, other, ⟨t, ht, rfl⟩, t, ht, direction, hdir, rfl⟩

end

/-- The nodes of a survey are its sites, numbered from the first. -/
theorem Survey.getElem?_nodes (v : Survey) (i : Nat) :
    v.nodes[i]? = v.sites[i]?.map fun s =>
      { id := i, role := s.cls.role, links := s.links v.sites } := by
  unfold Survey.nodes
  rw [List.getElem?_mapIdx]

theorem Survey.mem_nodes {v : Survey} {n : Node} :
    n ∈ v.nodes ↔ ∃ s, v.sites[n.id]? = some s ∧
      n = { id := n.id, role := s.cls.role, links := s.links v.sites } := by
  rw [List.mem_iff_getElem?]
  simp only [Survey.getElem?_nodes, Option.map_eq_some_iff]
  constructor
  · rintro ⟨i, s, hs, rfl⟩
    exact ⟨s, hs, rfl⟩
  · rintro ⟨s, hs, hn⟩
    exact ⟨n.id, s, hs, hn.symm⟩

/-- The nodes before and behind that of a site. -/
theorem Survey.nodes_eq_append {v : Survey} {i : Nat} {s : Site} (hs : v.sites[i]? = some s) :
    v.nodes = v.nodes.take i ++
      { id := i, role := s.cls.role, links := s.links v.sites } :: v.nodes.drop (i + 1) := by
  have hnode := v.getElem?_nodes i
  rw [hs, Option.map_some] at hnode
  obtain ⟨hlt, heq⟩ := List.getElem?_eq_some_iff.mp hnode
  rw [← heq, ← List.drop_eq_getElem_cons hlt, List.take_append_drop]

theorem Survey.nodes_id (v : Survey) : v.nodes.map Node.id = List.range v.sites.length := by
  refine List.ext_getElem? fun i => ?_
  rw [List.getElem?_map, Survey.getElem?_nodes, Option.map_map]
  by_cases hi : i < v.sites.length
  · simp [List.getElem?_eq_getElem hi, List.getElem?_range hi]
  · rw [List.getElem?_eq_none (by omega), List.getElem?_eq_none (by simpa using hi)]
    rfl

theorem Survey.nodes_id_nodup (v : Survey) : (v.nodes.map Node.id).Nodup := by
  rw [Survey.nodes_id]
  exact List.nodup_range

section

variable {v : Survey} (hd : (v.sites.map Site.cell).Nodup) {s : Site}
include hd

/-- The pieces that feed a node are those from which a signal flows to it. -/
theorem Survey.mem_feeders_iff {n : Node} (hn : n ∈ v.nodes) (hs : v.sites[n.id]? = some s)
    {e : Nat} : e ∈ n.feeders ↔ ∃ t, v.sites[e]? = some t ∧ t.FlowsTo s := by
  obtain ⟨s', hs', hn⟩ := Survey.mem_nodes.1 hn
  rw [hs] at hs'
  cases hs'
  rw [hn]
  simp only [Node.feeders, List.mem_map, List.mem_filter, Site.mem_links hd, decide_eq_true_eq]
  constructor
  · rintro ⟨k, ⟨⟨t, ht, hadj, hdir, _⟩, hin⟩, rfl⟩
    rw [hin] at hdir
    exact ⟨t, ht, hadj.symm, Site.direction?_eq_incoming.1 hdir⟩
  · rintro ⟨t, ht, hadj, hfeeds⟩
    exact ⟨⟨e, .incoming, isSpecial t.className⟩,
      ⟨⟨t, ht, hadj.symm, Site.direction?_eq_incoming.2 hfeeds, rfl⟩, rfl⟩, rfl⟩

/-- A link goes out where a signal flows that way and not back. -/
theorem Survey.mem_outgoing_iff {n : Node} (hn : n ∈ v.nodes) (hs : v.sites[n.id]? = some s)
    {k : Link} : k ∈ n.outgoing ↔ k.direction = .outgoing ∧ ∃ t, v.sites[k.other]? = some t ∧
      s.FlowsTo t ∧ ¬ t.FlowsTo s ∧ k.special = isSpecial t.className := by
  obtain ⟨s', hs', hn⟩ := Survey.mem_nodes.1 hn
  rw [hs] at hs'
  cases hs'
  rw [hn]
  simp only [Node.outgoing, List.mem_filter, Site.mem_links hd, decide_eq_true_eq]
  constructor
  · rintro ⟨⟨t, ht, hadj, hdir, hspecial⟩, hout⟩
    rw [hout] at hdir
    obtain ⟨hback, hfeeds⟩ := Site.direction?_eq_outgoing.1 hdir
    exact ⟨hout, t, ht, ⟨hadj, hfeeds⟩, fun h => Bool.false_ne_true (hback.symm.trans h.2),
      hspecial⟩
  · rintro ⟨hout, t, ht, ⟨hadj, hfeeds⟩, hback, hspecial⟩
    refine ⟨⟨t, ht, hadj, ?_, hspecial⟩, hout⟩
    rw [hout]
    refine Site.direction?_eq_outgoing.2 ⟨?_, hfeeds⟩
    by_contra h
    exact hback ⟨hadj.symm, by simpa using h⟩

theorem Survey.mem_targets_iff {n : Node} (hn : n ∈ v.nodes) (hs : v.sites[n.id]? = some s)
    {e : Nat} : e ∈ n.targets ↔
      ∃ t, v.sites[e]? = some t ∧ s.FlowsTo t ∧ ¬ t.FlowsTo s := by
  simp only [Node.targets, List.mem_map, Survey.mem_outgoing_iff hd hn hs]
  constructor
  · rintro ⟨k, ⟨_, t, ht, hto, hback, _⟩, rfl⟩
    exact ⟨t, ht, hto, hback⟩
  · rintro ⟨t, ht, hto, hback⟩
    exact ⟨⟨e, .outgoing, isSpecial t.className⟩, ⟨rfl, t, ht, hto, hback, rfl⟩, rfl⟩

/-- No piece feeds itself. -/
theorem Survey.id_not_mem_feeders {n : Node} (hn : n ∈ v.nodes) : n.id ∉ n.feeders := by
  obtain ⟨s, hs, _⟩ := Survey.mem_nodes.1 hn
  rw [Survey.mem_feeders_iff hd hn hs]
  rintro ⟨t, ht, hadj, _⟩
  rw [hs] at ht
  cases ht
  exact Cell.not_adjoins_self _ hadj

end

end CipherBoard
