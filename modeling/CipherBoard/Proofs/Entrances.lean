/-
CipherBoard.Proofs.Entrances — the ways that lead into a piece.

A transform, a mux, a branch and an output ask for a piece that feeds them. A piece that
feeds another need not lead there: it leads to the last branch that it feeds, if it feeds
one; a pipe or joint leads to the first of the other three else; and any other piece keeps
a way of its own.

* `FlowsTo.symm_of_open` — between two pieces that are open on all sides a signal could go
  either way, so neither leads to the other by itself.
* `last_taker_iff`, `first_drawer_iff` — which piece prevails, read off the geometry.
* `mem_next_firm`, `mem_next_loose` — where a piece leads, by the two rounds of wiring.
* `Board.Seizes`, `Board.Draws` — the two ways by which a piece gets another to lead to it.
* `entered_iff` — what leads to a piece is what it seizes or draws. That it is fed does not
  promise that there is anything (`transformBelow_not_entered`).
-/
import CipherBoard.Proofs.Board
import CipherBoard.Proofs.Floating

namespace CipherBoard

/-- The roles that ask for a piece that feeds them, wherever they lead. -/
def Role.isEntered : Role → Bool
  | .transform | .mux | .branch | .output => true
  | .input | .pipe | .joint => false

theorem Role.isEntered_iff {r : Role} :
    r.isEntered = true ↔ r = .branch ∨ r.isDrawing = true := by
  cases r <;> simp [isEntered, isDrawing]

theorem Role.isLoose_eq_false_of_isEntered {r : Role} (h : r.isEntered = true) :
    r.isLoose = false := by
  cases r <;> simp_all [isEntered, isLoose]

/-- A piece that asks to be fed passes its check only if it is. -/
theorem Node.feeders_ne_nil {n : Node} (h : n.sound = true) (hr : n.role.isEntered = true) :
    n.feeders ≠ [] := by
  intro hnil
  cases hrole : n.role <;> rw [hrole] at hr <;> simp_all [sound, Role.isEntered]

/-! ## Section 1 — pins on all sides -/

theorem coincide_comm (a b : Point) : coincide a b = coincide b a := by
  unfold coincide
  rw [Floating.abs_sub_comm a.x, Floating.abs_sub_comm a.y]

/-- Pins that serve both purposes feed each other, or do not touch. -/
theorem Pins.feed_onAllSides_symm {c d : Point}
    (h : (onAllSides c).feed (onAllSides d) = true) :
    (onAllSides d).feed (onAllSides c) = true := by
  unfold feed at h ⊢
  simp only [List.any_eq_true] at h ⊢
  obtain ⟨x, hx, y, hy, hxy⟩ := h
  exact ⟨y, hy, x, hx, coincide_comm x y ▸ hxy⟩

/-- Whether a piece can be entered and left on every side. -/
def PieceClass.isOpen : PieceClass → Bool
  | .pipe | .bend | .joint => false
  | _ => true

theorem PieceClass.isOpen_of_role {c : PieceClass}
    (h : c.role.isFirm = true ∨ c.role.isEntered = true) : c.isOpen = true := by
  cases c <;> simp_all [isOpen, role, Role.isFirm, Role.isEntered]

theorem Site.pins_of_isOpen {s : Site} (h : s.cls.isOpen = true) :
    s.pins = .onAllSides s.pos := by
  unfold Site.pins Pins.of
  cases hc : s.cls <;> simp_all [PieceClass.isOpen]

/-- **Between two open pieces a signal could go either way.** -/
theorem Site.FlowsTo.symm_of_open {s t : Site} (h : s.FlowsTo t) (hs : s.cls.isOpen = true)
    (ht : t.cls.isOpen = true) : t.FlowsTo s := by
  refine ⟨h.1.symm, ?_⟩
  have hfeeds := h.2
  unfold Site.feeds at hfeeds ⊢
  rw [pins_of_isOpen hs, pins_of_isOpen ht] at hfeeds
  rw [pins_of_isOpen hs, pins_of_isOpen ht]
  exact Pins.feed_onAllSides_symm hfeeds

/-! ## Section 2 — the first and the last -/

theorem getLast?_eq_some_iff_of_sorted {ids : List Nat} (h : ids.Pairwise (· < ·)) {j : Nat} :
    ids.getLast? = some j ↔ j ∈ ids ∧ ∀ k ∈ ids, k ≤ j := by
  constructor
  · intro hlast
    obtain ⟨front, rfl⟩ := List.getLast?_eq_some_iff.mp hlast
    refine ⟨by simp, fun k hk => ?_⟩
    rcases List.mem_append.mp hk with hk | hk
    · exact Nat.le_of_lt ((List.pairwise_append.mp h).2.2 k hk j (List.mem_singleton_self j))
    · exact Nat.le_of_eq (List.mem_singleton.mp hk)
  · rintro ⟨hmem, hmax⟩
    obtain ⟨front, last, rfl⟩ := List.append_of_mem hmem
    cases last with
    | nil => simp
    | cons k rest =>
      have hlt := List.rel_of_pairwise_cons (List.pairwise_append.mp h).2.1
        (List.mem_cons_self (a := k) (l := rest))
      have hle := hmax k (by simp)
      omega

theorem head?_eq_some_iff_of_sorted {ids : List Nat} (h : ids.Pairwise (· < ·)) {j : Nat} :
    ids.head? = some j ↔ j ∈ ids ∧ ∀ k ∈ ids, j ≤ k := by
  cases ids with
  | nil => simp
  | cons first rest =>
    have hfirst : ∀ k ∈ rest, first < k := fun k hk => List.rel_of_pairwise_cons h hk
    rw [List.head?_cons, Option.some.injEq]
    constructor
    · rintro rfl
      refine ⟨List.mem_cons_self, fun k hk => ?_⟩
      rcases List.mem_cons.mp hk with rfl | hk
      · exact Nat.le_refl k
      · exact Nat.le_of_lt (hfirst k hk)
    · rintro ⟨hmem, hmin⟩
      rcases List.mem_cons.mp hmem with rfl | hmem
      · rfl
      · have hle := hmin first List.mem_cons_self
        have hlt := hfirst j hmem
        omega

/-- The nodes of a survey from some number on. -/
theorem Survey.mem_drop_nodes {v : Survey} {start : Nat} {n : Node} :
    n ∈ v.nodes.drop start ↔ n ∈ v.nodes ∧ start ≤ n.id := by
  rw [List.mem_iff_getElem?]
  simp only [List.getElem?_drop, Survey.getElem?_nodes, Option.map_eq_some_iff]
  constructor
  · rintro ⟨k, s, hs, rfl⟩
    exact ⟨Survey.mem_nodes.mpr ⟨s, hs, rfl⟩, Nat.le_add_right _ _⟩
  · rintro ⟨hn, hle⟩
    obtain ⟨s, hs, hn⟩ := Survey.mem_nodes.mp hn
    have hid : start + (n.id - start) = n.id := by omega
    exact ⟨n.id - start, s, by rw [hid, hs], by rw [hid, ← hn]⟩

/-! ## Section 3 — which way a piece takes -/

namespace Survey.Wired

variable {l : Layout} {origin : Point} {v : Survey} {w : Ways} (h : Survey.Wired l origin v w)
  {i j : Nat} {s t : Site} (hs : v.sites[i]? = some s)
include h hs

/-- The pieces of some roles that a piece feeds, by their numbers. -/
theorem mem_fed_iff (among : Role → Bool) (start : Nat) :
    j ∈ ((v.nodes.drop start).filter fun n => among n.role && n.feeders.contains i).map Node.id ↔
      start ≤ j ∧ ∃ t, v.sites[j]? = some t ∧ among t.cls.role = true ∧ s.FlowsTo t := by
  simp only [List.mem_map, List.mem_filter, Survey.mem_drop_nodes, Bool.and_eq_true,
    List.contains_iff_mem]
  constructor
  · rintro ⟨n, ⟨⟨hn, hle⟩, hamong, hfeeds⟩, rfl⟩
    obtain ⟨t, ht, hnode⟩ := Survey.mem_nodes.mp hn
    obtain ⟨s', hs', hflow⟩ := (Survey.mem_feeders_iff h.cells_nodup hn ht).mp hfeeds
    rw [hs] at hs'
    cases hs'
    rw [hnode] at hamong
    exact ⟨hle, t, ht, hamong, hflow⟩
  · rintro ⟨hle, t, ht, hamong, hflow⟩
    obtain ⟨n, hn, rfl, hrole⟩ := Survey.exists_node ht
    refine ⟨n, ⟨⟨hn, hle⟩, hrole ▸ hamong, ?_⟩, rfl⟩
    exact (Survey.mem_feeders_iff h.cells_nodup hn ht).mpr ⟨s, hs, hflow⟩

theorem mem_takers_id (start : Nat) :
    j ∈ (takers (v.nodes.drop start) i).map Node.id ↔
      start ≤ j ∧ ∃ t, v.sites[j]? = some t ∧ t.cls.role = .branch ∧ s.FlowsTo t := by
  have hfed := h.mem_fed_iff hs (· == .branch) start (j := j)
  simp only [beq_iff_eq] at hfed
  exact hfed

theorem mem_drawers_id : j ∈ (drawers v.nodes i).map Node.id ↔
    ∃ t, v.sites[j]? = some t ∧ t.cls.role.isDrawing = true ∧ s.FlowsTo t := by
  have hfed := h.mem_fed_iff hs Role.isDrawing 0 (j := j)
  simp only [Nat.zero_le, true_and] at hfed
  exact hfed

omit h hs in
theorem fed_sorted (keep : Node → Bool) (start : Nat) :
    (((v.nodes.drop start).filter keep).map Node.id).Pairwise (· < ·) := by
  have hsub : ((v.nodes.drop start).filter keep).Sublist v.nodes :=
    List.filter_sublist.trans (List.drop_sublist _ _)
  have hall : (v.nodes.map Node.id).Pairwise (· < ·) := by
    rw [Survey.nodes_id]
    exact List.pairwise_lt_range
  exact hall.sublist (hsub.map Node.id)

/-- **The branch that prevails** from some number on: the last that the piece feeds. -/
theorem last_taker_iff (start : Nat) :
    (takers (v.nodes.drop start) i).getLast?.map Node.id = some j ↔
      start ≤ j ∧ (∃ t, v.sites[j]? = some t ∧ t.cls.role = .branch ∧ s.FlowsTo t) ∧
        ∀ k t, v.sites[k]? = some t → t.cls.role = .branch → s.FlowsTo t → k ≤ j := by
  have hsorted : ((takers (v.nodes.drop start) i).map Node.id).Pairwise (· < ·) :=
    fed_sorted (Node.takes i) start
  rw [← List.getLast?_map, getLast?_eq_some_iff_of_sorted hsorted, h.mem_takers_id hs start,
    and_assoc]
  refine and_congr_right fun hle => and_congr_right fun _ => ?_
  constructor
  · intro hmax k t ht hrole hflow
    rcases Nat.lt_or_ge k start with hlt | hge
    · omega
    · exact hmax k ((h.mem_takers_id hs start).mpr ⟨hge, t, ht, hrole, hflow⟩)
  · intro hmax k hk
    obtain ⟨_, t, ht, hrole, hflow⟩ := (h.mem_takers_id hs start).mp hk
    exact hmax k t ht hrole hflow

/-- **The piece that prevails without branches**: the first that draws. -/
theorem first_drawer_iff :
    (drawers v.nodes i).head?.map Node.id = some j ↔
      (∃ t, v.sites[j]? = some t ∧ t.cls.role.isDrawing = true ∧ s.FlowsTo t) ∧
        ∀ k t, v.sites[k]? = some t → t.cls.role.isDrawing = true → s.FlowsTo t → j ≤ k := by
  have hsorted : ((drawers v.nodes i).map Node.id).Pairwise (· < ·) :=
    fed_sorted (Node.draws i) 0
  rw [← List.head?_map, head?_eq_some_iff_of_sorted hsorted, h.mem_drawers_id hs]
  refine and_congr_right fun _ => ?_
  constructor
  · intro hmin k t ht hrole hflow
    exact hmin k ((h.mem_drawers_id hs).mpr ⟨t, ht, hrole, hflow⟩)
  · intro hmin k hk
    obtain ⟨t, ht, hrole, hflow⟩ := (h.mem_drawers_id hs).mp hk
    exact hmin k t ht hrole hflow

theorem takers_eq_nil_iff : takers v.nodes i = [] ↔
    ∀ (k : Nat) (t : Site), v.sites[k]? = some t → t.cls.role = .branch → ¬ s.FlowsTo t := by
  have hmem := fun k => h.mem_takers_id hs 0 (j := k)
  simp only [List.drop_zero, Nat.zero_le, true_and] at hmem
  rw [← List.map_eq_nil_iff (f := Node.id), List.eq_nil_iff_forall_not_mem]
  simp only [hmem, not_exists, not_and]

/-- The way of a piece that settles its own: the last branch behind it that takes it over, else
the way that it settled. -/
theorem exists_next_firm (hfirm : s.cls.role.isFirm = true) :
    ∃ e ∈ v.nodes, e.id = i ∧ e.role = s.cls.role ∧ (s.piece i w).next =
      ((takers (v.nodes.drop (i + 1)) i).getLast?.map Node.here).getD e.ways := by
  have hout := Role.ne_output_of_isFirm hfirm
  have hsplit := Survey.nodes_eq_append hs
  generalize he : ({ id := i, role := s.cls.role, links := s.links v.sites } : Node) = e at hsplit
  have hid : e.id = i := by rw [← he]
  have hrole : e.role = s.cls.role := by rw [← he]
  have hmem : e ∈ v.nodes := by
    rw [hsplit]
    exact List.mem_append_right _ List.mem_cons_self
  have hd := v.nodes_id_nodup
  have hways := h.ways
  rw [hsplit] at hd hways
  have hget := get?_firm hd hways (hrole ▸ hfirm)
  rw [hid] at hget
  exact ⟨e, hmem, hid, hrole, by simp [Site.piece, hout, hget]⟩

/-- **Where a piece leads that settles its own way**: into a later branch, or to no piece that
asks to be fed, since its own way goes where nothing comes back. -/
theorem mem_next_firm (ht : v.sites[j]? = some t) (hfirm : s.cls.role.isFirm = true)
    (hentered : t.cls.role.isEntered = true) :
    j ∈ (s.piece i w).next ↔
      (takers (v.nodes.drop (i + 1)) i).getLast?.map Node.id = some j := by
  obtain ⟨e, hmem, hid, _, hnext⟩ := h.exists_next_firm hs hfirm
  rw [hnext]
  cases htake : (takers (v.nodes.drop (i + 1)) i).getLast? with
  | some m => simp [Node.here, eq_comm]
  | none =>
    simp only [Option.map_none, Option.getD_none, reduceCtorEq, iff_false]
    intro hj
    obtain ⟨t', ht', hflow, hback⟩ := (Survey.mem_targets_iff h.cells_nodup hmem (hid ▸ hs)).mp
      (Node.ways_subset_targets hj)
    rw [ht] at ht'
    cases ht'
    exact hback (hflow.symm_of_open (PieceClass.isOpen_of_role (Or.inl hfirm))
      (PieceClass.isOpen_of_role (Or.inr hentered)))

/-- The way of a pipe or joint that is not free: the last branch that takes it over, else the
first piece that draws it. -/
theorem next_of_not_free {e : Node} (he : e ∈ v.nodes) (hid : e.id = i)
    (hloose : e.role.isLoose = true) (hfree : isFree v.nodes e = false) :
    (s.piece i w).next = (((takers v.nodes i).getLast?.map Node.here).or
      ((drawers v.nodes i).head?.map Node.here)).getD [] := by
  subst hid
  obtain ⟨s', hs', hnode⟩ := Survey.mem_nodes.mp he
  rw [hs] at hs'
  cases hs'
  have hout : s.cls.role ≠ .output := Role.ne_output_of_isLoose (by rwa [hnode] at hloose)
  have hget := get?_drawn v.nodes_id_nodup h.ways he hloose hfree
  simp [Site.piece, hout, hget]

/-- **Where a pipe or joint leads**: into the last branch that it feeds, else to the first piece
that draws it. If it feeds neither, it leads to no piece that asks to be fed. -/
theorem mem_next_loose (ht : v.sites[j]? = some t) (hloose : s.cls.role.isLoose = true)
    (hentered : t.cls.role.isEntered = true) :
    j ∈ (s.piece i w).next ↔ (takers v.nodes i).getLast?.map Node.id = some j ∨
      takers v.nodes i = [] ∧ (drawers v.nodes i).head?.map Node.id = some j := by
  obtain ⟨e, hmem, rfl, hrole⟩ := Survey.exists_node hs
  cases hfree : isFree v.nodes e with
  | false =>
    rw [h.next_of_not_free hs hmem rfl (hrole ▸ hloose) hfree]
    cases htake : (takers v.nodes e.id).getLast? with
    | some m =>
      have hne := List.ne_nil_of_mem (List.mem_of_getLast? htake)
      simp [Node.here, hne, eq_comm]
    | none =>
      have hnil := List.getLast?_eq_none_iff.mp htake
      cases hdraw : (drawers v.nodes e.id).head? <;> simp [Node.here, hnil, eq_comm]
  | true =>
    simp only [isFree, Bool.and_eq_true, List.isEmpty_iff] at hfree
    obtain ⟨⟨-, htake⟩, hdraw⟩ := hfree
    simp only [htake, hdraw, List.getLast?_nil, List.head?_nil, Option.map_none, reduceCtorEq,
      and_false, or_false, iff_false]
    -- Whatever the pipe leads to it feeds, but it feeds no piece of these roles.
    intro hj
    obtain ⟨t', ht', hflow⟩ := h.next_flows hs hj
    rw [ht] at ht'
    cases ht'
    obtain ⟨n, hn, rfl, hrole'⟩ := Survey.exists_node ht
    have hfeeds := (Survey.mem_feeders_iff h.cells_nodup hn ht).mpr ⟨s, hs, hflow⟩
    rcases Role.isEntered_iff.mp hentered with hbranch | hdrawing
    · exact List.ne_nil_of_mem (mem_takers.mpr ⟨hn, hrole' ▸ hbranch, hfeeds⟩) htake
    · exact List.ne_nil_of_mem (mem_drawers.mpr ⟨hn, hrole' ▸ hdrawing, hfeeds⟩) hdraw

end Survey.Wired

/-! ## Section 4 — the ways into a piece -/

/-- The branch `q`, with the number `j`, seizes the piece `p`, with the number `i`: `p` feeds it,
and no branch with a greater number. A piece that settles a way of its own after the branch is
wired is not seized. -/
def Board.Seizes (f : Frame) (b : Board) (j : Nat) (q : Piece) (i : Nat) (p : Piece) : Prop :=
  q.role = .branch ∧ p.FlowsTo f q ∧ (p.role.isLoose = true ∨ p.role.isFirm = true ∧ i < j) ∧
    ∀ (k : Nat) (r : Piece), b.pieces[k]? = some r → r.role = .branch → p.FlowsTo f r → k ≤ j

/-- The transform, mux or output `q`, with the number `j`, draws the pipe or joint `p`: `p` feeds
it, and none of these with a smaller number, and no branch. -/
def Board.Draws (f : Frame) (b : Board) (j : Nat) (q p : Piece) : Prop :=
  q.role.isDrawing = true ∧ p.FlowsTo f q ∧ p.role.isLoose = true ∧
    (∀ (k : Nat) (r : Piece), b.pieces[k]? = some r → r.role = .branch → ¬ p.FlowsTo f r) ∧
    ∀ (k : Nat) (r : Piece), b.pieces[k]? = some r → r.role.isDrawing = true →
      p.FlowsTo f r → j ≤ k

namespace Survey.Wired

variable {l : Layout} {origin : Point} {v : Survey} {w : Ways} (h : Survey.Wired l origin v w)
  {f : Frame} (hf : l.frame? origin = some f) {i j : Nat} {s t : Site}
  (hs : v.sites[i]? = some s) (ht : v.sites[j]? = some t)

/-- What holds of all pieces of a board is what holds of its sites. -/
theorem forall_pieces {P : Nat → Piece → Prop} :
    (∀ (k : Nat) (r : Piece), (v.board w l).pieces[k]? = some r → P k r) ↔
      ∀ (k : Nat) (u : Site), v.sites[k]? = some u → P k (u.piece k w) := by
  simp only [Survey.getElem?_pieces, Option.map_eq_some_iff]
  constructor
  · intro hall k u hu
    exact hall k _ ⟨u, hu, rfl⟩
  · rintro hall k r ⟨u, hu, rfl⟩
    exact hall k u hu

include h hf hs

/-- What holds of all pieces of some roles that a piece feeds. -/
theorem forall_fed (Among : Role → Prop) (P : Nat → Prop) :
    (∀ (k : Nat) (r : Piece), (v.board w l).pieces[k]? = some r → Among r.role →
        (s.piece i w).FlowsTo f r → P k) ↔
      ∀ (k : Nat) (u : Site), v.sites[k]? = some u → Among u.cls.role → s.FlowsTo u → P k := by
  rw [forall_pieces (P := fun k r => Among r.role → (s.piece i w).FlowsTo f r → P k)]
  refine forall_congr' fun k => forall_congr' fun u => forall_congr' fun hu => ?_
  rw [h.flowsTo_iff hf hs hu]
  rfl

include ht

theorem seizes_iff : (v.board w l).Seizes f j (t.piece j w) i (s.piece i w) ↔
    (s.cls.role.isLoose = true ∨ s.cls.role.isFirm = true ∧ i < j) ∧
      (takers v.nodes i).getLast?.map Node.id = some j := by
  have hlast := h.last_taker_iff hs 0 (j := j)
  unfold Board.Seizes
  rw [h.forall_fed hf hs (· = .branch) (· ≤ j), h.flowsTo_iff hf hs ht]
  rw [List.drop_zero] at hlast
  simp only [hlast, ht, Option.some.injEq, exists_eq_left', Nat.zero_le, true_and]
  exact ⟨fun ⟨hrole, hflow, hfirst, hmax⟩ => ⟨hfirst, ⟨hrole, hflow⟩, hmax⟩,
    fun ⟨hfirst, ⟨hrole, hflow⟩, hmax⟩ => ⟨hrole, hflow, hfirst, hmax⟩⟩

theorem draws_iff : (v.board w l).Draws f j (t.piece j w) (s.piece i w) ↔
    s.cls.role.isLoose = true ∧ takers v.nodes i = [] ∧
      (drawers v.nodes i).head?.map Node.id = some j := by
  unfold Board.Draws
  rw [h.forall_fed hf hs (·.isDrawing = true) (j ≤ ·), h.flowsTo_iff hf hs ht,
    h.forall_fed hf hs (· = .branch) (fun _ => False), h.takers_eq_nil_iff hs,
    h.first_drawer_iff hs]
  simp only [ht, Option.some.injEq, exists_eq_left']
  exact ⟨fun ⟨hrole, hflow, hloose, hnone, hmin⟩ => ⟨hloose, hnone, ⟨hrole, hflow⟩, hmin⟩,
    fun ⟨hloose, hnone, ⟨hrole, hflow⟩, hmin⟩ => ⟨hrole, hflow, hloose, hnone, hmin⟩⟩

omit hf hs in
/-- A piece that asks to be fed is fed by a piece. -/
theorem exists_flowsTo (hentered : t.cls.role.isEntered = true) :
    ∃ (i : Nat) (s : Site), v.sites[i]? = some s ∧ s.FlowsTo t := by
  obtain ⟨n, hn, rfl, hrole⟩ := Survey.exists_node ht
  rw [← hrole] at hentered
  have hsound := connectAll_sound h.ways hn (Role.isLoose_eq_false_of_isEntered hentered)
  obtain ⟨i, hi⟩ := List.exists_mem_of_ne_nil _ (Node.feeders_ne_nil hsound hentered)
  obtain ⟨s, hs, hflow⟩ := (Survey.mem_feeders_iff h.cells_nodup hn ht).mp hi
  exact ⟨i, s, hs, hflow⟩

/-- **The way from one piece into another** that asks to be fed. -/
theorem mem_next_iff (hentered : t.cls.role.isEntered = true) :
    j ∈ (s.piece i w).next ↔ (v.board w l).Seizes f j (t.piece j w) i (s.piece i w) ∨
      (v.board w l).Draws f j (t.piece j w) (s.piece i w) := by
  rw [h.seizes_iff hf hs ht, h.draws_iff hf hs ht]
  cases hloose : s.cls.role.isLoose with
  | true =>
    rw [h.mem_next_loose hs ht hloose hentered]
    simp
  | false =>
    cases hfirm : s.cls.role.isFirm with
    | true =>
      have hall := h.last_taker_iff hs 0 (j := j)
      rw [h.mem_next_firm hs ht hfirm hentered, h.last_taker_iff hs]
      rw [List.drop_zero] at hall
      simp only [hall, Nat.succ_le_iff, Nat.zero_le, Bool.false_eq_true, false_or, true_and,
        false_and, or_false]
    | false =>
      have hout : s.cls.role = .output := by
        by_contra hout
        rw [Role.isLoose_of_isFirm_eq_false hfirm hout] at hloose
        cases hloose
      simp [Site.piece, hout]

end Survey.Wired

/-- **The ways into a piece that asks to be fed.** On every board that is built, a transform, a mux,
a branch and an output is fed by some piece, but that piece need not lead there. Those pieces lead
there that it seizes or draws, and no others; so something leads there exactly if there is a piece
that it seizes or draws. -/
theorem entered_iff {l : Layout} {origin : Point} {limit : Nat} {b : Board}
    (h : l.build origin limit = .ok b) :
    ∃ f, l.frame? origin = some f ∧ ∀ (j : Nat) (q : Piece), b.pieces[j]? = some q →
      q.role.isEntered = true →
      (∃ p ∈ b.pieces, p.FlowsTo f q) ∧
      (∀ (i : Nat) (p : Piece), b.pieces[i]? = some p →
        (j ∈ p.next ↔ b.Seizes f j q i p ∨ b.Draws f j q p)) ∧
      ((∃ p ∈ b.pieces, j ∈ p.next) ↔ ∃ (i : Nat) (p : Piece), b.pieces[i]? = some p ∧
        (b.Seizes f j q i p ∨ b.Draws f j q p)) := by
  obtain ⟨c, encoded, hc, hencoded, rfl⟩ := Layout.build_eq_ok_iff.mp h
  obtain ⟨v, w, hv, hw, rfl⟩ := Layout.wire_eq_ok_iff.mp hc
  have hwired : Survey.Wired l origin v w := ⟨hv, hw⟩
  obtain ⟨f, hf, _⟩ := Layout.survey_eq_ok_iff.mp hv
  refine ⟨f, hf, fun j q hq hentered => ?_⟩
  have hq' : (v.board w l).pieces[j]? = some q := hq
  rw [Survey.getElem?_pieces] at hq'
  obtain ⟨t, ht, rfl⟩ := Option.map_eq_some_iff.mp hq'
  have hedge : ∀ (i : Nat) (p : Piece), (v.board w l).pieces[i]? = some p →
      (j ∈ p.next ↔ (v.board w l).Seizes f j (t.piece j w) i p ∨
        (v.board w l).Draws f j (t.piece j w) p) :=
    Survey.Wired.forall_pieces.mpr fun i s hs => hwired.mem_next_iff hf hs ht hentered
  refine ⟨?_, hedge, ?_⟩
  · obtain ⟨i, s, hs, hflow⟩ := hwired.exists_flowsTo ht hentered
    refine ⟨s.piece i w, Array.mem_of_getElem? (i := i) ?_, (hwired.flowsTo_iff hf hs ht).mpr hflow⟩
    exact (v.getElem?_pieces w l i).trans (by rw [hs]; rfl)
  · constructor
    · rintro ⟨p, hp, hj⟩
      obtain ⟨i, hi⟩ := Array.mem_iff_getElem?.mp hp
      exact ⟨i, p, hi, (hedge i p hi).mp hj⟩
    · rintro ⟨i, p, hi, hinto⟩
      exact ⟨p, Array.mem_of_getElem? hi, (hedge i p hi).mpr hinto⟩

/-- The first pipe of the line is drawn to the transform behind it. -/
theorem shiftLine_entered :
    ∃ b f p q, shiftLine.build .zero 100 = .ok b ∧ shiftLine.frame? .zero = some f ∧
      b.pieces[1]? = some p ∧ b.pieces[2]? = some q ∧ q.role = .transform ∧
      b.Draws f 2 q p := by
  obtain ⟨b, hb, _, hshape⟩ := shiftLine_built
  obtain ⟨f, hf, hways⟩ := entered_iff hb
  have hat : ∀ (i : Nat) (x : Role × List Nat),
      (b.pieces.toList.map fun p => (p.role, p.next))[i]? = some x →
        ∃ p, b.pieces[i]? = some p ∧ (p.role, p.next) = x := by
    intro i x hx
    rw [List.getElem?_map, Array.getElem?_toList] at hx
    exact Option.map_eq_some_iff.mp hx
  obtain ⟨p, hp, hpipe⟩ := hat 1 (.pipe, [2]) (by rw [hshape]; rfl)
  obtain ⟨q, hq, htransform⟩ := hat 2 (.transform, [3]) (by rw [hshape]; rfl)
  obtain ⟨_, hnext⟩ := Prod.mk.inj hpipe
  obtain ⟨hrole, _⟩ := Prod.mk.inj htransform
  have hmem : 2 ∈ p.next := by rw [hnext]; exact List.mem_singleton_self 2
  obtain ⟨_, hedge, _⟩ := hways 2 q hq (by rw [hrole]; rfl)
  rcases (hedge 1 p hp).mp hmem with ⟨hbranch, _⟩ | hdraws
  · rw [hrole] at hbranch
    cases hbranch
  · exact ⟨b, f, p, q, hb, hf, hp, hq, hrole, hdraws⟩

/-- A line from the input to the output, and under its transform another one, with a way out. -/
def transformBelow : Layout :=
  .onCells
    [.onCell "elem_input" 0 0, .onCell "pipe" 1 0, .onCell "apply_add" 2 0, .onCell "pipe" 3 0,
     .onCell "elem_output" 4 0, .onCell "apply_reverse" 2 1, .onCell "pipe" 2 2 .quarter,
     .onCell "elem_output" 2 3]
    []

/-- **A transform that nothing leads to.** The transform below is fed by the one above, which keeps
its own way. -/
theorem transformBelow_not_entered :
    ∃ b q, transformBelow.build .zero 100 = .ok b ∧ b.pieces[5]? = some q ∧
      q.role = .transform ∧ ∀ p ∈ b.pieces, 5 ∉ p.next := by
  obtain ⟨b, hb, hshape⟩ := exists_ok_of_any
    (show (transformBelow.build .zero 100).toOption.any (fun b =>
        b.pieces[5]?.any (fun q => q.role == .transform) &&
          b.pieces.toList.all fun p => !p.next.contains 5) = true by decide +kernel)
  rw [Bool.and_eq_true] at hshape
  obtain ⟨q, hq, hrole⟩ := (Option.any_eq_true _ _).mp hshape.1
  refine ⟨b, q, hb, hq, by simpa using hrole, fun p hp => ?_⟩
  simpa using List.all_eq_true.mp hshape.2 p (Array.mem_def.mp hp)

end CipherBoard
