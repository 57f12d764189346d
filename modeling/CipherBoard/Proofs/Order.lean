/-
CipherBoard.Proofs.Order — layouts whose pieces come in another order.

The order of the placements numbers the pieces, and wiring goes over them in that
order. The numbers mean nothing (`CipherBoard.Proofs.Renumbering`), so what remains
of the order is the choice among the offers to each piece
(`CipherBoard.Proofs.Offers`).

* `Survey.Reorders` — one survey is another in a different order; its nodes are those
  of the other, reordered and renumbered.
* `Layout.Uncontested` — no piece of the layout has two different offers.
* `order_irrelevant_iff` — then, and only then, all orders of the placements give the
  same board up to numbers; and boards that are the same up to numbers run alike.
-/
import CipherBoard.Proofs.Offers
import CipherBoard.Proofs.Renumbering
import Mathlib.Data.List.Perm.Basic
import Mathlib.Logic.Equiv.Basic

namespace CipherBoard

/-! ## Section 1 — surveys in another order -/

/-- Where the entries of a list stand after a permutation. -/
theorem exists_index {α : Type} {k k' : List α} (h : k.Perm k') :
    ∃ f : Nat → Nat, Function.Injective f ∧ ∀ i, k'[f i]? = k[i]? := by
  induction h with
  | nil => exact ⟨id, Function.injective_id, fun _ => rfl⟩
  | cons a _ ih =>
    obtain ⟨f, hf, hi⟩ := ih
    refine ⟨fun i => i.casesOn 0 fun j => f j + 1, ?_, ?_⟩
    · rintro (_ | i) (_ | j) hij
      · rfl
      · cases hij
      · cases hij
      · rw [hf (Nat.succ.inj hij)]
    · rintro (_ | i)
      · rfl
      · exact hi i
  | swap a b rest =>
    refine ⟨Equiv.swap 0 1, (Equiv.swap 0 1).injective, ?_⟩
    rintro (_ | _ | i)
    · rw [Equiv.swap_apply_left]
      rfl
    · rw [Equiv.swap_apply_right]
      rfl
    · rw [Equiv.swap_apply_of_ne_of_ne (by omega) (by omega)]
      rfl
  | trans _ _ ih₁ ih₂ =>
    obtain ⟨f, hf, hfi⟩ := ih₁
    obtain ⟨g, hg, hgi⟩ := ih₂
    exact ⟨g ∘ f, hg.comp hf, fun i => (hgi (f i)).trans (hfi i)⟩

/-- Reordering the images of a list reorders the list. -/
theorem exists_perm_map {α β : Type} {g : α → β} {k : List β} {m : List α}
    (h : k.Perm (m.map g)) : ∃ m' : List α, k = m'.map g ∧ m'.Perm m :=
  (congrFun₂ (List.eq_map_comp_perm g) k m).mpr h

/-- The survey `v'` has the sites of `v` in another order: the site `i` stands at `f i`. -/
structure Survey.Reorders (f : Nat → Nat) (v v' : Survey) : Prop where
  injective : Function.Injective f
  site : ∀ i, v'.sites[f i]? = v.sites[i]?
  perm : v'.sites.Perm v.sites

theorem Survey.exists_reorders {v v' : Survey} (h : v'.sites.Perm v.sites) :
    ∃ f, Survey.Reorders f v v' := by
  obtain ⟨f, hf, hi⟩ := exists_index h.symm
  exact ⟨f, hf, hi, h⟩

/-- What wiring sees of a site and its number. -/
def Survey.node (v : Survey) (z : Site × Nat) : Node where
  id := z.2
  role := z.1.cls.role
  links := z.1.links v.sites

theorem Survey.nodes_eq_map (v : Survey) : v.nodes = v.sites.zipIdx.map v.node :=
  List.mapIdx_eq_zipIdx_map

namespace Survey.Reorders

variable {f : Nat → Nat} {v v' : Survey} (h : Survey.Reorders f v v')
  (hd : (v.sites.map Site.cell).Nodup)
include h hd

theorem cells_nodup : (v'.sites.map Site.cell).Nodup :=
  (h.perm.map _).nodup_iff.mpr hd

theorem siteAt?_eq (c : Cell) : siteAt? v'.sites c = (siteAt? v.sites c).map f := by
  cases hc : siteAt? v.sites c with
  | some i =>
    obtain ⟨s, hs, hcell⟩ := (siteAt?_eq_some_iff hd).mp hc
    exact (siteAt?_eq_some_iff (h.cells_nodup hd)).mpr ⟨s, (h.site i).trans hs, hcell⟩
  | none =>
    unfold siteAt? at *
    rw [List.findIdx?_eq_none_iff] at hc
    rw [Option.map_none, List.findIdx?_eq_none_iff]
    exact fun s hs => hc s (h.perm.mem_iff.mp hs)

/-- The links of a site lead to the same sites under their other numbers. -/
theorem links_eq (s : Site) :
    s.links v'.sites = (s.links v.sites).map (Link.renumber f) := by
  unfold Site.links
  rw [List.map_filterMap]
  congr 1
  funext c
  rw [h.siteAt?_eq hd]
  cases siteAt? v.sites c with
  | none => rfl
  | some i =>
    simp only [Option.map_some, Option.bind_eq_bind, Option.bind_some, h.site]
    cases v.sites[i]? with
    | none => rfl
    | some t =>
      simp only [Option.bind_some]
      cases s.direction? t <;> rfl

/-- The nodes in the other order, from the sites with the numbers that they had. -/
theorem nodes_eq {zs : List (Site × Nat)} (hzs : zs.Perm v.sites.zipIdx)
    (hsites : v'.sites = zs.map Prod.fst) :
    v'.nodes = (zs.map v.node).map (Node.renumber f) := by
  refine List.ext_getElem? fun j => ?_
  rw [Survey.getElem?_nodes, hsites, List.map_map, List.getElem?_map, List.getElem?_map,
    Option.map_map]
  cases hz : zs[j]? with
  | none => rfl
  | some z =>
    -- The site that stands at `j` now stood at `z.2`.
    have hold : v.sites[z.2]? = some z.1 :=
      List.mem_zipIdx_iff_getElem?.mp (hzs.mem_iff.mp (List.mem_of_getElem? hz))
    have hnew : v'.sites[j]? = some z.1 := by rw [hsites, List.getElem?_map, hz]; rfl
    have hj : f z.2 = j :=
      index_eq_of_cell_eq (h.cells_nodup hd) ((h.site z.2).trans hold) hnew rfl
    simp only [Option.map_some, Function.comp_apply, Survey.node, Node.renumber, ← hsites,
      h.links_eq hd, hj]

/-- The nodes in the other order are those in some order, renumbered. -/
theorem exists_nodes : ∃ ms : List Node, ms.Perm v.nodes ∧ v'.nodes = ms.map (Node.renumber f) := by
  have hperm : v'.sites.Perm (v.sites.zipIdx.map Prod.fst) := by
    rw [List.zipIdx_map_fst]
    exact h.perm
  obtain ⟨zs, hsites, hzs⟩ := exists_perm_map hperm
  refine ⟨zs.map v.node, ?_, h.nodes_eq hd hzs hsites⟩
  rw [v.nodes_eq_map]
  exact hzs.map _

end Survey.Reorders

/-- Every order of the nodes comes from an order of the sites. -/
theorem Survey.exists_sites {v : Survey} (hd : (v.sites.map Site.cell).Nodup) {ms : List Node}
    (hms : ms.Perm v.nodes) : ∃ sites : List Site, sites.Perm v.sites ∧
      ∀ v' : Survey, v'.sites = sites →
        ∃ f, Survey.Reorders f v v' ∧ v'.nodes = ms.map (Node.renumber f) := by
  rw [v.nodes_eq_map] at hms
  obtain ⟨zs, rfl, hzs⟩ := exists_perm_map hms
  have hperm : (zs.map Prod.fst).Perm v.sites := by
    have := hzs.map Prod.fst
    rwa [List.zipIdx_map_fst] at this
  refine ⟨_, hperm, fun v' hsites => ?_⟩
  obtain ⟨f, hf⟩ := Survey.exists_reorders (hsites ▸ hperm)
  exact ⟨f, hf, hf.nodes_eq hd hzs hsites⟩

/-! ## Section 2 — layouts in another order -/

/-- The layout with its placements in the order `ps`. -/
def Layout.inOrder (l : Layout) (ps : List Placement) : Layout :=
  { l with placements := ps }

section

variable {l : Layout} {origin : Point} {v : Survey} (hv : l.survey origin = .ok v)
include hv

/-- Sites in another order are a survey of placements on which they lie. -/
theorem Layout.survey_inOrder {f : Frame} (hf : l.frame? origin = some f) {ps : List Placement}
    {sites : List Site} (hlies : List.Forall₂ (Site.Lies f) ps sites)
    (hsites : sites.Perm v.sites) :
    (l.inOrder ps).survey origin =
      .ok { sites, entry := sites.findIdx (·.cls.role = .input) } := by
  obtain ⟨_, _, _, hd, hout, hone, _⟩ := Layout.survey_eq_ok_iff.mp hv
  have hcount : ∀ r, roleCount r sites = roleCount r v.sites := fun r => hsites.countP_eq _
  exact Layout.survey_eq_ok_iff.mpr ⟨f, hf, hlies, (hsites.map _).nodup_iff.mpr hd,
    by rwa [hcount], by rwa [hcount], rfl⟩

/-- The placements in any order have a survey, of the same sites. -/
theorem Layout.exists_survey {ps : List Placement} (hps : ps.Perm l.placements) :
    ∃ v', (l.inOrder ps).survey origin = .ok v' ∧ v'.sites.Perm v.sites := by
  obtain ⟨f, hf, hlies, _⟩ := Layout.survey_eq_ok_iff.mp hv
  obtain ⟨sites, hlies', hsites⟩ := List.perm_comp_forall₂ hps hlies
  exact ⟨_, Layout.survey_inOrder hv hf hlies' hsites, hsites⟩

/-- Every order of the sites comes from an order of the placements. -/
theorem Layout.exists_placements {sites : List Site} (hsites : sites.Perm v.sites) :
    ∃ ps : List Placement, ps.Perm l.placements ∧
      ∃ v', (l.inOrder ps).survey origin = .ok v' ∧ v'.sites = sites := by
  obtain ⟨f, hf, hlies, _⟩ := Layout.survey_eq_ok_iff.mp hv
  obtain ⟨ps, hlies', hps⟩ := List.perm_comp_forall₂ hsites hlies.flip
  exact ⟨ps, hps, _, Layout.survey_inOrder hv hf hlies'.flip hsites, rfl⟩

end

/-! ## Section 3 — boards in another order -/

/-- The piece of a site under another number and renumbered ways. -/
theorem Site.piece_renumber {f : Nat → Nat} (hf : Function.Injective f) (s : Site) (i : Nat)
    (w : Ways) : s.piece (f i) (w.renumber f) = (s.piece i w).renumber f := by
  unfold Site.piece Piece.renumber
  simp only [Ways.get?_renumber hf, Piece.mk.injEq, true_and]
  split
  · rfl
  · cases w.get? i <;> rfl

/-- Where a piece leads is the way of its node. -/
theorem Survey.piece_eq_iff (v : Survey) (s : Site) (i : Nat) {w u : Ways} :
    s.piece i u = s.piece i w ↔ (v.node (s, i)).wayIn u = (v.node (s, i)).wayIn w := by
  unfold Site.piece Survey.node Node.wayIn
  simp only [Piece.mk.injEq, true_and]

namespace Survey.Reorders

variable {f : Nat → Nat} {v v' : Survey} (h : Survey.Reorders f v v') {l : Layout}
  {origin : Point} {ps : List Placement} {w u : Ways} (hw : Survey.Wired l origin v w)
  (hw' : Survey.Wired (l.inOrder ps) origin v' (u.renumber f))
include h hw hw'

theorem entry_eq : v'.entry = f v.entry := by
  have hs := List.getElem?_eq_getElem hw.entry_lt
  have hs' := (h.site v.entry).trans hs
  exact ((hw'.input_iff hs').mp ((hw.input_iff hs).mpr rfl)).symm

/-- If every node has the same way, the boards are the same up to numbers. -/
theorem renumbers (hways : ∀ e ∈ v.nodes, e.wayIn u = e.wayIn w) :
    (v.board w l).Renumbers f (v'.board (u.renumber f) (l.inOrder ps)) where
  injective := h.injective
  size := by
    rw [Survey.size_pieces, Survey.size_pieces]
    exact h.perm.length_eq
  piece i := by
    rw [Survey.getElem?_pieces, Survey.getElem?_pieces, h.site]
    cases hs : v.sites[i]? with
    | none => rfl
    | some s =>
      have hnode : v.node (s, i) ∈ v.nodes := by
        rw [v.nodes_eq_map]
        exact List.mem_map_of_mem (List.mem_zipIdx_iff_getElem?.mpr hs)
      have hpiece := (v.piece_eq_iff s i).mpr (hways _ hnode)
      rw [Option.map_some, Option.map_some, Option.map_some, Site.piece_renumber h.injective,
        hpiece]
  entry := h.entry_eq hw hw'

/-- Boards that are the same up to numbers give the same number to a site. -/
theorem index_eq {g : Nat → Nat}
    (hg : (v.board w l).Renumbers g (v'.board (u.renumber f) (l.inOrder ps))) {i : Nat} {s : Site}
    (hs : v.sites[i]? = some s) : g i = f i := by
  have hpiece := hg.piece i
  rw [Survey.getElem?_pieces, Survey.getElem?_pieces, hs, Option.map_some,
    Option.map_some] at hpiece
  obtain ⟨t, ht, heq⟩ := Option.map_eq_some_iff.mp hpiece
  -- The two sites have one position, hence one cell.
  have hpos : t.pos = s.pos := congrArg Piece.pos heq
  obtain ⟨fr, _, hfr, _, hlies⟩ := hw.lies hs
  obtain ⟨fr', _, hfr', _, hlies'⟩ := hw'.lies ht
  have hframe : fr' = fr := Option.some.inj (hfr'.symm.trans hfr)
  have hcell : t.cell = s.cell := by
    have hat := hlies'.cell
    rw [hframe, hpos, hlies.cell] at hat
    exact (Option.some.inj hat).symm
  exact index_eq_of_cell_eq hw'.cells_nodup ht ((h.site i).trans hs) hcell

/-- If the boards are the same up to numbers, every node has the same way. -/
theorem wayIn_eq {g : Nat → Nat}
    (hg : (v.board w l).Renumbers g (v'.board (u.renumber f) (l.inOrder ps))) {e : Node}
    (he : e ∈ v.nodes) : e.wayIn u = e.wayIn w := by
  obtain ⟨s, hs, hnode⟩ := Survey.mem_nodes.mp he
  have hpiece := hg.piece e.id
  rw [h.index_eq hw hw' hg hs, Survey.getElem?_pieces, Survey.getElem?_pieces, h.site, hs,
    Option.map_some, Option.map_some, Option.map_some, Site.piece_renumber h.injective] at hpiece
  have hnext : (s.piece e.id u).next.map f = (s.piece e.id w).next.map g :=
    congrArg Piece.next (Option.some.inj hpiece)
  have hsame : (s.piece e.id w).next.map g = (s.piece e.id w).next.map f := by
    refine List.map_congr_left fun j hj => ?_
    obtain ⟨t, ht, _⟩ := hw.next_flows hs hj
    exact h.index_eq hw hw' hg ht
  rw [hsame] at hnext
  have heq := List.map_injective_iff.mpr h.injective hnext
  rw [hnode]
  exact heq

end Survey.Reorders

/-! ## Section 4 — uncontested layouts -/

/-- No piece of the layout has two different offers. -/
def Layout.Uncontested (l : Layout) (origin : Point) : Prop :=
  ∀ v, l.survey origin = .ok v → CipherBoard.Uncontested v.nodes

section

variable {l : Layout} {origin : Point} {ps : List Placement} (hps : ps.Perm l.placements)
  {b b' : Board}
include hps

/-- An uncontested layout is wired in every order if it is in the given one, to the
same board up to numbers. -/
theorem Layout.Uncontested.exists_wire (hu : l.Uncontested origin) (hb : l.wire origin = .ok b) :
    ∃ b' f, (l.inOrder ps).wire origin = .ok b' ∧ b.Renumbers f b' := by
  obtain ⟨v, w, hv, hw, rfl⟩ := Layout.wire_eq_ok_iff.mp hb
  have hwired : Survey.Wired l origin v w := ⟨hv, hw⟩
  obtain ⟨v', hv', hsites⟩ := Layout.exists_survey hv hps
  obtain ⟨f, hf⟩ := Survey.exists_reorders hsites
  obtain ⟨ms, hms, hnodes⟩ := hf.exists_nodes hwired.cells_nodup
  obtain ⟨u, hu'⟩ := (hu v hv).exists_connectAll v.nodes_id_nodup hw hms
  have hw' : connectAll v'.nodes = .ok (u.renumber f) := by
    rw [hnodes]
    exact (connectAll_renumber_eq_ok hf.injective).mpr ⟨u, hu', rfl⟩
  have hways : ∀ e ∈ v.nodes, e.wayIn u = e.wayIn w :=
    fun e he => (hu v hv).wayIn_eq v.nodes_id_nodup hw hms hu' he
  exact ⟨_, f, Layout.wire_eq_ok_iff.mpr ⟨v', _, hv', hw', rfl⟩,
    hf.renumbers hwired ⟨hv', hw'⟩ hways⟩

/-- An uncontested layout that is wired in some order is wired in the given one. -/
theorem Layout.Uncontested.exists_wire_back (hu : l.Uncontested origin)
    (hb : (l.inOrder ps).wire origin = .ok b) : ∃ b', l.wire origin = .ok b' := by
  obtain ⟨v', w', hv', hw', rfl⟩ := Layout.wire_eq_ok_iff.mp hb
  obtain ⟨v, hv, hsites⟩ := Layout.exists_survey hv' hps.symm
  have hv : l.survey origin = .ok v := hv
  obtain ⟨_, _, _, hd, _⟩ := Layout.survey_eq_ok_iff.mp hv
  obtain ⟨f, hf⟩ := Survey.exists_reorders hsites.symm
  obtain ⟨ms, hms, hnodes⟩ := hf.exists_nodes hd
  rw [hnodes, connectAll_renumber_eq_ok hf.injective] at hw'
  obtain ⟨u, hu', rfl⟩ := hw'
  have hdms : (ms.map Node.id).Nodup := (hms.map _).nodup_iff.mpr v.nodes_id_nodup
  obtain ⟨w, hw⟩ :=
    (uncontested_perm hms.symm (hu v hv)).exists_connectAll hdms hu' hms.symm
  exact ⟨_, Layout.wire_eq_ok_iff.mpr ⟨v, w, hv, hw, rfl⟩⟩

end

/-- A layout that gives the same board in every order is uncontested. -/
theorem Survey.Wired.uncontested {l : Layout} {origin : Point} {v : Survey} {w : Ways}
    (h : Survey.Wired l origin v w) (hall : ∀ ps : List Placement, ps.Perm l.placements →
      ∃ b' g, (l.inOrder ps).wire origin = .ok b' ∧ (v.board w l).Renumbers g b') :
    CipherBoard.Uncontested v.nodes := by
  refine (uncontested_iff v.nodes_id_nodup
    (fun e he => Survey.id_not_mem_feeders h.cells_nodup he) h.ways).mpr fun ms hms => ?_
  -- The order of the nodes is that of some order of the placements.
  obtain ⟨sites, hsites, hreorders⟩ := Survey.exists_sites h.cells_nodup hms
  obtain ⟨ps, hps, v', hv', hv'sites⟩ := Layout.exists_placements h.survey hsites
  obtain ⟨f, hf, hnodes⟩ := hreorders v' hv'sites
  obtain ⟨b', g, hb', hg⟩ := hall ps hps
  obtain ⟨v'', w', hv'', hw', rfl⟩ := Layout.wire_eq_ok_iff.mp hb'
  cases hv'.symm.trans hv''
  rw [hnodes, connectAll_renumber_eq_ok hf.injective] at hw'
  obtain ⟨u, hu, rfl⟩ := hw'
  have hwired' : Survey.Wired (l.inOrder ps) origin v' (u.renumber f) := by
    refine ⟨hv', ?_⟩
    rw [hnodes]
    exact (connectAll_renumber_eq_ok hf.injective).mpr ⟨u, hu, rfl⟩
  exact ⟨u, hu, fun e he => hf.wayIn_eq h hwired' hg he⟩

/-- The encodings of a board play no part in its pieces. -/
theorem Board.Renumbers.withEncoded {f : Nat → Nat} {b b' : Board} (h : b.Renumbers f b')
    (encoded encoded' : List String) :
    Board.Renumbers f { b with encoded } { b' with encoded := encoded' } :=
  ⟨h.injective, h.size, h.piece, h.entry⟩

/-- A board that is wired has no way that leads off it. -/
theorem Layout.closed_of_wire {l : Layout} {origin : Point} {b : Board}
    (h : l.wire origin = .ok b) : b.Closed := by
  obtain ⟨v, w, hv, hw, rfl⟩ := Layout.wire_eq_ok_iff.mp h
  have hreal := Survey.Wired.realizes ⟨hv, hw⟩ l.keywords rfl
  exact ⟨hreal.closed.entry_lt, hreal.closed.next_lt⟩

/-- A layout that is wired is built exactly if all its keywords have encodings. -/
theorem Layout.exists_build_iff {l : Layout} {origin : Point} {b : Board} {limit : Nat}
    (h : l.wire origin = .ok b) : (∃ c, l.build origin limit = .ok c) ↔
      ∃ encoded, List.Forall₂ (fun k e => b.encode limit k = .ok e) l.keywords encoded := by
  have hkeywords : b.keywords = l.keywords := by
    obtain ⟨v, w, _, _, rfl⟩ := Layout.wire_eq_ok_iff.mp h
    rfl
  simp only [Layout.build_eq_ok_iff, h, Except.ok.injEq]
  constructor
  · rintro ⟨_, _, encoded, rfl, hencoded, _⟩
    exact ⟨encoded, hkeywords ▸ hencoded⟩
  · rintro ⟨encoded, hencoded⟩
    exact ⟨_, b, encoded, rfl, hkeywords ▸ hencoded, rfl⟩

/-- **Where the order of the placements is irrelevant.** If no piece has two different
offers, a layout is built in every order or in none, and every run comes to the same
on all its boards. No weaker condition makes the board itself independent of the
order: a layout that is wired gives the same board up to numbers in every order
exactly if no piece has two different offers. -/
theorem order_irrelevant_iff (l : Layout) (origin : Point) :
    (l.Uncontested origin → ∀ ps : List Placement, ps.Perm l.placements → ∀ limit,
      ((∃ b, l.build origin limit = .ok b) ↔ ∃ b, (l.inOrder ps).build origin limit = .ok b) ∧
      ∀ b b', l.build origin limit = .ok b → (l.inOrder ps).build origin limit = .ok b' →
        ∀ (r : Runner) (input : String), (r.exec b' input).1 = (r.exec b input).1) ∧
    ∀ b, l.wire origin = .ok b → (l.Uncontested origin ↔ ∀ ps : List Placement,
      ps.Perm l.placements → ∃ b' f, (l.inOrder ps).wire origin = .ok b' ∧ b.Renumbers f b') := by
  constructor
  · intro hu ps hps limit
    constructor
    · constructor
      · rintro ⟨c, hc⟩
        obtain ⟨b, _, hb, _⟩ := Layout.build_eq_ok_iff.mp hc
        obtain ⟨b', f, hb', hf⟩ := hu.exists_wire hps hb
        rw [Layout.exists_build_iff hb']
        simp only [hf.encode_eq (Layout.closed_of_wire hb)]
        exact (Layout.exists_build_iff hb).mp ⟨c, hc⟩
      · rintro ⟨c, hc⟩
        obtain ⟨b', _, hb', _⟩ := Layout.build_eq_ok_iff.mp hc
        obtain ⟨b, hb⟩ := hu.exists_wire_back hps hb'
        obtain ⟨b'', f, hb'', hf⟩ := hu.exists_wire hps hb
        cases hb'.symm.trans hb''
        rw [Layout.exists_build_iff hb]
        simp only [← hf.encode_eq (Layout.closed_of_wire hb)]
        exact (Layout.exists_build_iff hb').mp ⟨c, hc⟩
    · intro c c' hc hc' r input
      obtain ⟨b, encoded, hb, _, rfl⟩ := Layout.build_eq_ok_iff.mp hc
      obtain ⟨b', encoded', hb', _, rfl⟩ := Layout.build_eq_ok_iff.mp hc'
      obtain ⟨b'', f, hb'', hf⟩ := hu.exists_wire hps hb
      cases hb'.symm.trans hb''
      have hclosed := Layout.closed_of_wire hb
      exact (hf.withEncoded encoded encoded').encode_eq ⟨hclosed.entry_lt, hclosed.next_lt⟩
        r.limit input
  · intro b hb
    constructor
    · exact fun hu ps hps => hu.exists_wire hps hb
    · intro hall v hv
      obtain ⟨v', w, hv', hw, rfl⟩ := Layout.wire_eq_ok_iff.mp hb
      cases hv.symm.trans hv'
      exact Survey.Wired.uncontested ⟨hv, hw⟩ hall

/-- A line leaves nothing to the order of its pieces. -/
theorem shiftLine_uncontested : shiftLine.Uncontested .zero := by
  intro v hv
  have hall : (shiftLine.survey .zero).toOption.all
      (fun v => decide (CipherBoard.Uncontested v.nodes)) = true := by decide +kernel
  rw [hv] at hall
  exact of_decide_eq_true hall

theorem shiftLine_reversed :
    ∃ b b', shiftLine.build .zero 100 = .ok b ∧
      (shiftLine.inOrder shiftLine.placements.reverse).build .zero 100 = .ok b' ∧
      ∀ (r : Runner) (input : String), (r.exec b' input).1 = (r.exec b input).1 := by
  obtain ⟨b, hb, _⟩ := shiftLine_built
  obtain ⟨hbuilt, hexec⟩ := (order_irrelevant_iff shiftLine .zero).1 shiftLine_uncontested
    shiftLine.placements.reverse (List.reverse_perm _) 100
  obtain ⟨b', hb'⟩ := hbuilt.mp ⟨b, hb⟩
  exact ⟨b, b', hb, hb', hexec b b' hb hb'⟩

/-- An output that is reached from the right, too. -/
def twoSidedOutput : List Placement :=
  [.onCell "elem_input" 0 0, .onCell "pipe" 1 0, .onCell "elem_output" 2 0,
   .onCell "pipe" 3 0 .half]

/-- Two pipes more behind those that come from the right, nothing behind the last. -/
def openPipes : Layout :=
  .onCells (twoSidedOutput ++ [.onCell "pipe" 4 0 .half, .onCell "pipe" 5 0 .half]) []

/-- What lies around two tests next to each other: an output above and one below each of
them, but on the way up from the second one letters are moved on. -/
def aroundTests : List Placement :=
  [.onCell "elem_input" 0 2, .onCell "pipe" 1 2,
   .onCell "special_pipe" 2 1 .threeQuarters, .onCell "elem_output" 2 0,
   .onCell "pipe" 2 3 .quarter, .onCell "elem_output" 2 4,
   .onCell "special_pipe" 4 2, .onCell "apply_add" 5 2, .onCell "pipe" 6 2,
   .onCell "elem_output" 7 2, .onCell "pipe" 3 3 .quarter, .onCell "elem_output" 3 4]

/-- The first of the two tests takes over the second in one order, and the other way
round in the other. -/
def facingTests : Layout :=
  .onCells ([.evenTest 2 2, .evenTest 3 2] ++ aroundTests) []

/-- **The order of the placements matters** to some layouts: one is built in one order
and refused in another; one is built in two orders, and a word becomes a different one. -/
theorem order_matters :
    (∃ ps : List Placement, ps.Perm openPipes.placements ∧
      (∃ b, openPipes.build .zero 100 = .ok b) ∧
      ∃ e, (openPipes.inOrder ps).build .zero 100 = .error e) ∧
    ∃ ps : List Placement, ps.Perm facingTests.placements ∧
      ∃ b b', facingTests.build .zero 100 = .ok b ∧
        (facingTests.inOrder ps).build .zero 100 = .ok b' ∧
        (Runner.fresh.exec b "ab").1 = .ok "bc" ∧ (Runner.fresh.exec b' "ab").1 = .ok "ab" := by
  constructor
  · refine ⟨twoSidedOutput ++ [.onCell "pipe" 5 0 .half, .onCell "pipe" 4 0 .half],
      (List.Perm.swap _ _ _).append_left _, ?_, ?_⟩
    · obtain ⟨b, hb, _⟩ := exists_ok_of_any
        (show (openPipes.build .zero 100).toOption.any (fun _ => true) = true by decide +kernel)
      exact ⟨b, hb⟩
    · obtain ⟨e, he, _⟩ := exists_error_of_failsWith
        (show failsWith (fun _ => true) ((openPipes.inOrder
          (twoSidedOutput ++ [.onCell "pipe" 5 0 .half, .onCell "pipe" 4 0 .half])).build
            .zero 100) = true by decide +kernel)
      exact ⟨e, he⟩
  · refine ⟨[.evenTest 3 2, .evenTest 2 2] ++ aroundTests, List.Perm.swap _ _ _, ?_⟩
    obtain ⟨b, hb, hrun⟩ := exists_ok_of_any
      (show (facingTests.build .zero 100).toOption.any
        (fun b => (Runner.fresh.exec b "ab").1.toOption.any (· == "bc")) = true by decide +kernel)
    obtain ⟨b', hb', hrun'⟩ := exists_ok_of_any
      (show ((facingTests.inOrder ([.evenTest 3 2, .evenTest 2 2] ++ aroundTests)).build
          .zero 100).toOption.any
        (fun b => (Runner.fresh.exec b "ab").1.toOption.any (· == "ab")) = true by decide +kernel)
    obtain ⟨output, houtput, hbc⟩ := exists_ok_of_any hrun
    obtain ⟨output', houtput', hab⟩ := exists_ok_of_any hrun'
    exact ⟨b, b', hb, hb', by rw [houtput, beq_iff_eq.mp hbc], by rw [houtput', beq_iff_eq.mp hab]⟩

end CipherBoard
