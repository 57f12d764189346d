/-
CipherBoard.Proofs.Resolution — which of the competing ways a piece ends up with.

Three things are written for a piece while a board is wired: the way that it settles for
itself, the first piece that draws it, and every branch that takes it over. What remains of
them does not look at the writing: it can be read off the links.

* `Survey.takersOf`, `Survey.drawersOf` — the branches, and the other pieces that draw, among
  whose links a piece is listed as one that feeds them.
* `exists_isGreatest`, `exists_isLeast` — the last branch and the first drawer, as the greatest
  and the least number of those sets.
* `Survey.Resolves` — where a piece leads, by cases on its role and on those sets;
  `build_resolves` proves it of every piece of every board.
* `unfedJoint_drawn` — a joint that fails its own check, and leads to the output that drew it.
-/
import CipherBoard.Proofs.Entrances
import Mathlib.Order.Bounds.Basic

namespace CipherBoard

/-! ## Section 1 — the competitors -/

/-- The links of `t` list the piece `e` as one that feeds it. -/
def Site.FedBy (sites : List Site) (t : Site) (e : Nat) : Prop :=
  ∃ k ∈ t.links sites, k.direction = .incoming ∧ k.other = e

/-- The links of a site that go out. -/
def Site.outgoing (sites : List Site) (s : Site) : List Link :=
  (s.links sites).filter (·.direction = .outgoing)

/-- The branches that the piece `e` feeds. -/
def Survey.takersOf (v : Survey) (e : Nat) : Set Nat :=
  { x | ∃ t, v.sites[x]? = some t ∧ t.cls.role = .branch ∧ t.FedBy v.sites e }

/-- The transforms, muxes and outputs that the piece `e` feeds. -/
def Survey.drawersOf (v : Survey) (e : Nat) : Set Nat :=
  { x | ∃ t, v.sites[x]? = some t ∧ t.cls.role.isDrawing = true ∧ t.FedBy v.sites e }

/-- Where the piece `s`, with the number `i`, leads. -/
structure Survey.Resolves (v : Survey) (i : Nat) (s : Site) (next : List Nat) : Prop where
  /-- A pipe or joint leads to the last branch that it feeds. -/
  taken : s.cls.role.isLoose = true → (v.takersOf i).Nonempty →
    ∃ j, IsGreatest (v.takersOf i) j ∧ next = [j]
  /-- A pipe or joint that feeds no branch leads to the first piece that draws it. -/
  drawn : s.cls.role.isLoose = true → v.takersOf i = ∅ → (v.drawersOf i).Nonempty →
    ∃ j, IsLeast (v.drawersOf i) j ∧ next = [j]
  /-- Any other piece leads to the last branch that it feeds, if that is a later piece. -/
  overtaken : s.cls.role.isFirm = true → (v.takersOf i ∩ Set.Ioi i).Nonempty →
    ∃ j, IsGreatest (v.takersOf i ∩ Set.Ioi i) j ∧ next = [j]
  /-- Otherwise it leads where its only link goes out. -/
  line : s.cls.role.isFirm = true → v.takersOf i ∩ Set.Ioi i = ∅ → s.cls.role ≠ .branch →
    ∃ k, s.outgoing v.sites = [k] ∧ next = [k.other]
  /-- A branch leads where its two links go out, to the special piece first. -/
  branch : s.cls.role = .branch → v.takersOf i ∩ Set.Ioi i = ∅ →
    ∃ first second, (s.outgoing v.sites).Perm [first, second] ∧ first.special = true ∧
      second.special = false ∧ next = [first.other, second.other]

/-! ## Section 2 — the links of a node -/

theorem Survey.links_of_mem_nodes {v : Survey} {n : Node} (hn : n ∈ v.nodes) {s : Site}
    (hs : v.sites[n.id]? = some s) : n.links = s.links v.sites := by
  obtain ⟨s', hs', hnode⟩ := Survey.mem_nodes.mp hn
  rw [hs] at hs'
  cases hs'
  rw [hnode]

/-- A branch that passes its check has two links out, one of them special. -/
theorem Node.outgoing_of_branch {n : Node} (h : n.sound = true) (hr : n.role = .branch) :
    ∃ first second, n.outgoing.Perm [first, second] ∧ first.special = true ∧
      second.special = false ∧ n.ways = [first.other, second.other] := by
  obtain ⟨first, hfirst, second, hsecond, hspecial, hplain, hways⟩ := ways_of_branch h hr
  refine ⟨first, second, ?_, hspecial, hplain, hways⟩
  have hlen : n.outgoing.length = 2 := by
    simp only [sound, hr, Bool.and_eq_true, beq_iff_eq, targets, List.length_map] at h
    exact h.1.1.1
  have hne : first ≠ second := by
    rintro rfl
    rw [hspecial] at hplain
    cases hplain
  obtain ⟨x, y, hxy⟩ := List.length_eq_two.mp hlen
  rw [hxy] at hfirst hsecond ⊢
  rcases List.mem_pair.mp hfirst with rfl | rfl <;>
    rcases List.mem_pair.mp hsecond with rfl | rfl
  · exact absurd rfl hne
  · exact .refl _
  · exact .swap _ _ _
  · exact absurd rfl hne

/-- A piece that settles one way for itself has one link out. -/
theorem Node.outgoing_of_line {n : Node} (h : n.sound = true) (hfirm : n.role.isFirm = true)
    (hbranch : n.role ≠ .branch) : ∃ k, n.outgoing = [k] ∧ n.ways = [k.other] := by
  have hways : n.ways = n.targets := by
    unfold ways
    split
    · contradiction
    · rfl
  have hlen := length_ways h (Role.ne_output_of_isFirm hfirm) hbranch
  rw [hways, targets, List.length_map] at hlen
  obtain ⟨k, hk⟩ := List.length_eq_one_iff.mp hlen
  exact ⟨k, hk, by rw [hways, targets, hk, List.map_singleton]⟩

/-! ## Section 3 — the last and the first of some nodes -/

section

variable {ns : List Node} (hsorted : (ns.map Node.id).Pairwise (· < ·)) {ids : Set Nat}
  (hids : ∀ j, j ∈ ns.map Node.id ↔ j ∈ ids)
include hids

theorem eq_nil_of_ids_eq_empty (h : ids = ∅) : ns = [] := by
  refine List.eq_nil_iff_forall_not_mem.mpr fun n hn => ?_
  have hmem := (hids n.id).mp (List.mem_map_of_mem hn)
  rw [h] at hmem
  exact hmem

theorem ne_nil_of_ids_nonempty (h : ids.Nonempty) : ns ≠ [] := by
  rintro rfl
  obtain ⟨j, hj⟩ := h
  exact List.not_mem_nil ((hids j).mpr hj)

include hsorted

/-- The last of the nodes has the greatest number. -/
theorem exists_isGreatest (h : ids.Nonempty) :
    ∃ n, ns.getLast? = some n ∧ IsGreatest ids n.id := by
  have hlast := List.getLast?_eq_some_getLast (ne_nil_of_ids_nonempty hids h)
  have hgreatest := (getLast?_eq_some_iff_of_sorted hsorted).mp
    (by rw [List.getLast?_map, hlast]; rfl)
  simp only [hids] at hgreatest
  exact ⟨_, hlast, hgreatest⟩

/-- The first of the nodes has the least number. -/
theorem exists_isLeast (h : ids.Nonempty) : ∃ n, ns.head? = some n ∧ IsLeast ids n.id := by
  have hfirst := List.head?_eq_some_head (ne_nil_of_ids_nonempty hids h)
  have hleast := (head?_eq_some_iff_of_sorted hsorted).mp
    (by rw [List.head?_map, hfirst]; rfl)
  simp only [hids] at hleast
  exact ⟨_, hfirst, hleast⟩

end

/-! ## Section 4 — the piece in its place -/

namespace Survey.Wired

variable {l : Layout} {origin : Point} {v : Survey} {w : Ways} (h : Survey.Wired l origin v w)
  {i j : Nat} {s : Site} (hs : v.sites[i]? = some s)
include h hs

/-- The links list a piece as one that feeds where a signal flows from it. -/
theorem fedBy_iff {t : Site} (ht : v.sites[j]? = some t) :
    t.FedBy v.sites i ↔ s.FlowsTo t := by
  obtain ⟨n, hn, rfl, _⟩ := Survey.exists_node ht
  have hfeeders : t.FedBy v.sites i ↔ i ∈ n.feeders := by
    unfold Site.FedBy Node.feeders
    rw [← Survey.links_of_mem_nodes hn ht]
    simp [and_assoc]
  rw [hfeeders, Survey.mem_feeders_iff h.cells_nodup hn ht]
  simp [hs]

theorem mem_takersOf : j ∈ v.takersOf i ↔
    ∃ t, v.sites[j]? = some t ∧ t.cls.role = .branch ∧ s.FlowsTo t :=
  exists_congr fun _ => and_congr_right fun ht => and_congr_right fun _ => h.fedBy_iff hs ht

theorem mem_drawersOf : j ∈ v.drawersOf i ↔
    ∃ t, v.sites[j]? = some t ∧ t.cls.role.isDrawing = true ∧ s.FlowsTo t :=
  exists_congr fun _ => and_congr_right fun ht => and_congr_right fun _ => h.fedBy_iff hs ht

theorem mem_takers_ids (j : Nat) : j ∈ (takers v.nodes i).map Node.id ↔ j ∈ v.takersOf i := by
  have hmem := h.mem_takers_id hs 0 (j := j)
  rw [List.drop_zero] at hmem
  rw [hmem, h.mem_takersOf hs]
  simp only [Nat.zero_le, true_and]

theorem mem_laterTakers_ids (j : Nat) :
    j ∈ (takers (v.nodes.drop (i + 1)) i).map Node.id ↔ j ∈ v.takersOf i ∩ Set.Ioi i := by
  rw [h.mem_takers_id hs, Set.mem_inter_iff, h.mem_takersOf hs, and_comm]
  rfl

theorem mem_drawers_ids (j : Nat) :
    j ∈ (drawers v.nodes i).map Node.id ↔ j ∈ v.drawersOf i := by
  rw [h.mem_drawers_id hs, h.mem_drawersOf hs]

/-- The way of a pipe or joint that something takes over or draws. -/
theorem next_of_competed (hloose : s.cls.role.isLoose = true)
    (hany : takers v.nodes i ≠ [] ∨ drawers v.nodes i ≠ []) :
    (s.piece i w).next = (((takers v.nodes i).getLast?.map Node.here).or
      ((drawers v.nodes i).head?.map Node.here)).getD [] := by
  obtain ⟨e, hmem, hid, hrole⟩ := Survey.exists_node hs
  refine h.next_of_not_free hs hmem hid (hrole ▸ hloose) (Bool.eq_false_iff.mpr fun hfree => ?_)
  simp only [isFree, hid, Bool.and_eq_true, List.isEmpty_iff] at hfree
  rcases hany with hne | hne
  · exact hne hfree.1.2
  · exact hne hfree.2

/-- **Every piece leads where its competitors say.** -/
theorem resolves : v.Resolves i s (s.piece i w).next where
  taken hloose hany := by
    have hids := h.mem_takers_ids hs
    have hsorted : ((takers v.nodes i).map Node.id).Pairwise (· < ·) :=
      fed_sorted (Node.takes i) 0
    obtain ⟨t, ht, hgreatest⟩ := exists_isGreatest hsorted hids hany
    refine ⟨t.id, hgreatest, ?_⟩
    rw [h.next_of_competed hs hloose (Or.inl (ne_nil_of_ids_nonempty hids hany)), ht]
    rfl
  drawn hloose hnone hany := by
    have hids := h.mem_drawers_ids hs
    have hsorted : ((drawers v.nodes i).map Node.id).Pairwise (· < ·) :=
      fed_sorted (Node.draws i) 0
    obtain ⟨t, ht, hleast⟩ := exists_isLeast hsorted hids hany
    refine ⟨t.id, hleast, ?_⟩
    rw [h.next_of_competed hs hloose (Or.inr (ne_nil_of_ids_nonempty hids hany)), ht,
      eq_nil_of_ids_eq_empty (h.mem_takers_ids hs) hnone]
    rfl
  overtaken hfirm hany := by
    obtain ⟨_, _, _, _, hnext⟩ := h.exists_next_firm hs hfirm
    have hsorted : ((takers (v.nodes.drop (i + 1)) i).map Node.id).Pairwise (· < ·) :=
      fed_sorted (Node.takes i) (i + 1)
    obtain ⟨t, ht, hgreatest⟩ := exists_isGreatest hsorted (h.mem_laterTakers_ids hs) hany
    exact ⟨t.id, hgreatest, by rw [hnext, ht]; rfl⟩
  line hfirm hnone hbranch := by
    obtain ⟨e, hmem, hid, hrole, hnext⟩ := h.exists_next_firm hs hfirm
    have hsound := connectAll_sound h.ways hmem
      (Role.isLoose_eq_false_of_isFirm (hrole ▸ hfirm))
    obtain ⟨k, hk, hways⟩ := Node.outgoing_of_line hsound (hrole ▸ hfirm) (hrole ▸ hbranch)
    rw [Node.outgoing, Survey.links_of_mem_nodes hmem (hid ▸ hs)] at hk
    rw [eq_nil_of_ids_eq_empty (h.mem_laterTakers_ids hs) hnone] at hnext
    exact ⟨k, hk, hnext.trans hways⟩
  branch hbranch hnone := by
    have hfirm : s.cls.role.isFirm = true := by rw [hbranch]; rfl
    obtain ⟨e, hmem, hid, hrole, hnext⟩ := h.exists_next_firm hs hfirm
    have hsound := connectAll_sound h.ways hmem
      (Role.isLoose_eq_false_of_isFirm (hrole ▸ hfirm))
    obtain ⟨first, second, hout, hspecial, hplain, hways⟩ :=
      Node.outgoing_of_branch hsound (hrole.trans hbranch)
    rw [Node.outgoing, Survey.links_of_mem_nodes hmem (hid ▸ hs)] at hout
    rw [eq_nil_of_ids_eq_empty (h.mem_laterTakers_ids hs) hnone] at hnext
    exact ⟨first, second, hout, hspecial, hplain, hnext.trans hways⟩

end Survey.Wired

/-- **Which of the competing ways a piece ends up with.** On every board that is built, a pipe or
joint leads to the last branch that it feeds; if it feeds none, to the first transform, mux or
output that it feeds, whatever its own check would say. An input, transform, mux or branch leads to
the last branch that it feeds, if that is a later piece; otherwise it keeps its own way: that of
its only link out, or, for a branch, those of its two links out, the special one first. -/
theorem build_resolves {l : Layout} {origin : Point} {limit : Nat} {b : Board}
    (h : l.build origin limit = .ok b) :
    ∃ v, l.survey origin = .ok v ∧ v.sites.length = b.pieces.size ∧
      ∀ (i : Nat) (s : Site) (p : Piece), v.sites[i]? = some s → b.pieces[i]? = some p →
        p.role = s.cls.role ∧ v.Resolves i s p.next := by
  obtain ⟨c, encoded, hc, _, rfl⟩ := Layout.build_eq_ok_iff.mp h
  obtain ⟨v, w, hv, hw, rfl⟩ := Layout.wire_eq_ok_iff.mp hc
  refine ⟨v, hv, (Survey.size_pieces v w l).symm, fun i s p hs hp => ?_⟩
  have hp' : (v.board w l).pieces[i]? = some p := hp
  rw [Survey.getElem?_pieces, hs] at hp'
  cases hp'
  exact ⟨rfl, Survey.Wired.resolves ⟨hv, hw⟩ hs⟩

/-- A line that turns a corner into a joint, which nothing else feeds, and on to an output. -/
def unfedJoint : Layout :=
  .onCells
    [.onCell "elem_input" 0 0, .onCell "pipe" 1 0, .onCell "angle_pipe" 2 0 .none (.bend false),
     .onCell "pipe_connect2" 2 1, .onCell "elem_output" 3 1]
    ["abc"]

/-- **A joint that fails its own check leads to the output that drew it.** -/
theorem unfedJoint_drawn :
    ∃ b v n p, unfedJoint.build .zero 100 = .ok b ∧ unfedJoint.survey .zero = .ok v ∧
      v.nodes[3]? = some n ∧ n.role = .joint ∧ n.sound = false ∧
      b.pieces[3]? = some p ∧ p.next = [4] ∧ IsLeast (v.drawersOf 3) 4 := by
  obtain ⟨b, hb, hshape⟩ := exists_ok_of_any
    (show (unfedJoint.build .zero 100).toOption.any (fun b =>
        b.pieces[3]?.any (·.next == [4])) = true by decide +kernel)
  obtain ⟨v, hv, _, hresolves⟩ := build_resolves hb
  obtain ⟨v', hv', hsites⟩ := exists_ok_of_any
    (show (unfedJoint.survey .zero).toOption.any (fun v =>
        v.sites.all (·.cls.role != .branch) &&
        v.nodes[3]?.any (fun n => n.role == .joint && !n.sound) &&
        v.sites[4]?.any (fun t => t.cls.role.isDrawing &&
          (t.links v.sites).any fun k => k.direction == .incoming && k.other == 3)) = true by
      decide +kernel)
  cases hv.symm.trans hv'
  simp only [Bool.and_eq_true, List.all_eq_true, bne_iff_ne, ne_eq, Option.any_eq_true,
    Bool.not_eq_true', List.any_eq_true, beq_iff_eq] at hshape hsites
  obtain ⟨p, hp, hnext⟩ := hshape
  obtain ⟨⟨hplain, n, hn, hjoint, hunsound⟩, t, ht, hdrawing, hfed⟩ := hsites
  obtain ⟨s, hs, hnode⟩ := Option.map_eq_some_iff.mp ((v.getElem?_nodes 3).symm.trans hn)
  have hrole : s.cls.role = .joint := by rw [← hjoint, ← hnode]
  have hnone : v.takersOf 3 = ∅ := by
    refine Set.eq_empty_iff_forall_notMem.mpr ?_
    rintro x ⟨u, hu, hbranch, _⟩
    exact hplain u (List.mem_of_getElem? hu) hbranch
  obtain ⟨j, hleast, hj⟩ := (hresolves 3 s p hs hp).2.drawn (by rw [hrole]; rfl) hnone
    ⟨4, t, ht, hdrawing, hfed⟩
  have hat : j = 4 := by simpa [hnext] using hj.symm
  exact ⟨b, v, n, p, hb, hv, hn, hjoint, hunsound, hp, hnext, hat ▸ hleast⟩

end CipherBoard
