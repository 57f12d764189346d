/-
CipherBoard.Proofs.Links — what two neighbours see of each other.

Every site finds its links by itself: it looks at the cells around its own, and at the pins of the
sites there. What it sees is nevertheless what its neighbour sees. Adjoining goes both ways, and as
no two sites share a cell, each finds the other where the other lies.

* `Cell.neighbours_nodup`, `Cell.length_neighbours_le` — a cell has at most four neighbours, all of
  them different.
* `Site.links_nodup`, `Site.length_links_le` — so a site has at most four links, to different sites.
* `Survey.Lists`, `Survey.Mentions` — a site lists another, with a direction or with either;
  `lists_incoming_iff`, `lists_outgoing_iff` and `mentions_iff` say when, by the cells of the two
  and by where signals can go between them.
* `links_agree` — these together.
-/
import CipherBoard.Proofs.Breaks

namespace CipherBoard

/-! ## Section 1 — four neighbours -/

namespace Cell

theorem ne_of_at? {row row' column column' : Int} {c d : Cell} (hc : at? row column = some c)
    (hd : at? row' column' = some d) (h : row ≠ row' ∨ column ≠ column') : c ≠ d := by
  intro heq
  subst heq
  obtain ⟨hrow, hcolumn⟩ := at?_eq_some_iff.mp hc
  obtain ⟨hrow', hcolumn'⟩ := at?_eq_some_iff.mp hd
  omega

theorem neighbours_nodup (c : Cell) : c.neighbours.Nodup := by
  unfold neighbours List.Nodup
  rw [List.pairwise_filterMap]
  simp only [id, List.pairwise_cons, List.forall_mem_cons, List.not_mem_nil, false_implies,
    implies_true, List.Pairwise.nil, and_true]
  refine ⟨⟨?_, ?_, ?_⟩, ⟨?_, ?_⟩, ?_⟩ <;>
    exact fun d hd e he => ne_of_at? hd he (by omega)

theorem length_neighbours_le (c : Cell) : c.neighbours.length ≤ 4 :=
  List.length_filterMap_le id _

end Cell

namespace Site

variable {sites : List Site}

theorem length_links_le (sites : List Site) (s : Site) : (s.links sites).length ≤ 4 :=
  Nat.le_trans (List.length_filterMap_le _ _) s.cell.length_neighbours_le

/-- The links of a site lead to different sites: each was found on a cell of its own. -/
theorem links_nodup (hd : (sites.map Site.cell).Nodup) (s : Site) :
    ((s.links sites).map Link.other).Nodup := by
  unfold links List.Nodup
  rw [List.pairwise_map, List.pairwise_filterMap]
  refine s.cell.neighbours_nodup.imp ?_
  intro c d hne k hk k' hk' heq
  simp only [Option.bind_eq_bind, Option.bind_eq_some_iff, Option.pure_def, Option.some.injEq,
    siteAt?_eq_some_iff hd] at hk hk'
  obtain ⟨i, ⟨t, ht, rfl⟩, _, _, _, _, rfl⟩ := hk
  obtain ⟨j, ⟨t', ht', rfl⟩, _, _, _, _, rfl⟩ := hk'
  dsimp only at heq
  rw [heq, ht'] at ht
  cases ht
  exact hne rfl

end Site

/-! ## Section 2 — both ends of a link -/

namespace Survey

/-- Site `i` of a survey lists site `j`, as one that a signal comes from or as one that it goes
to. -/
def Lists (v : Survey) (i j : Nat) (d : Direction) : Prop :=
  ∃ s, v.sites[i]? = some s ∧ ∃ k ∈ s.links v.sites, k.other = j ∧ k.direction = d

/-- Site `i` of a survey lists site `j`. -/
def Mentions (v : Survey) (i j : Nat) : Prop :=
  ∃ d, v.Lists i j d

section

variable {v : Survey} (hd : (v.sites.map Site.cell).Nodup) {i j : Nat} {s t : Site}
  (hs : v.sites[i]? = some s) (ht : v.sites[j]? = some t)
include hd hs ht

theorem lists_iff {d : Direction} :
    v.Lists i j d ↔ s.cell.Adjoins t.cell ∧ s.direction? t = some d := by
  simp only [Lists, hs, Option.some.injEq, exists_eq_left', Site.mem_links hd]
  constructor
  · intro h
    obtain ⟨k, ⟨u, hu, hadj, hdir, _⟩, rfl, rfl⟩ := h
    rw [ht] at hu
    cases hu
    exact ⟨hadj, hdir⟩
  · intro h
    exact ⟨⟨j, d, isSpecial t.className⟩, ⟨t, ht, h.1, h.2, rfl⟩, rfl, rfl⟩

/-- A neighbour is listed as one that a signal comes from if one can. -/
theorem lists_incoming_iff :
    v.Lists i j .incoming ↔ s.cell.Adjoins t.cell ∧ t.feeds s = true := by
  rw [lists_iff hd hs ht, Site.direction?_eq_incoming]

/-- A neighbour is listed as one that a signal goes to if one can, and none can come back. -/
theorem lists_outgoing_iff :
    v.Lists i j .outgoing ↔ s.cell.Adjoins t.cell ∧ s.feeds t = true ∧ t.feeds s = false := by
  rw [lists_iff hd hs ht, Site.direction?_eq_outgoing, and_comm (a := t.feeds s = false)]

theorem mentions_iff :
    v.Mentions i j ↔ s.cell.Adjoins t.cell ∧ (s.feeds t = true ∨ t.feeds s = true) := by
  constructor
  · intro h
    obtain ⟨d, hlists⟩ := h
    cases d with
    | incoming =>
      obtain ⟨hadj, hfeeds⟩ := (lists_incoming_iff hd hs ht).mp hlists
      exact ⟨hadj, Or.inr hfeeds⟩
    | outgoing =>
      obtain ⟨hadj, hfeeds, _⟩ := (lists_outgoing_iff hd hs ht).mp hlists
      exact ⟨hadj, Or.inl hfeeds⟩
  · intro h
    obtain ⟨hadj, hfeeds⟩ := h
    cases hback : t.feeds s with
    | true => exact ⟨.incoming, (lists_incoming_iff hd hs ht).mpr ⟨hadj, hback⟩⟩
    | false =>
      rw [hback] at hfeeds
      have hforth : s.feeds t = true := hfeeds.resolve_right Bool.false_ne_true
      exact ⟨.outgoing, (lists_outgoing_iff hd hs ht).mpr ⟨hadj, hforth, hback⟩⟩

theorem mentions_comm : v.Mentions i j ↔ v.Mentions j i := by
  rw [mentions_iff hd hs ht, mentions_iff hd ht hs, or_comm]
  exact and_congr_left fun _ => ⟨Cell.Adjoins.symm, Cell.Adjoins.symm⟩

/-- What one lists as outgoing, the other lists as incoming. -/
theorem lists_incoming_of_outgoing (h : v.Lists i j .outgoing) : v.Lists j i .incoming := by
  obtain ⟨hadj, hfeeds, _⟩ := (lists_outgoing_iff hd hs ht).mp h
  exact (lists_incoming_iff hd ht hs).mpr ⟨hadj.symm, hfeeds⟩

theorem both_incoming_iff (hadj : s.cell.Adjoins t.cell) :
    (v.Lists i j .incoming ∧ v.Lists j i .incoming) ↔ s.feeds t = true ∧ t.feeds s = true := by
  rw [lists_incoming_iff hd hs ht, lists_incoming_iff hd ht hs]
  constructor
  · intro h
    exact ⟨h.2.2, h.1.2⟩
  · intro h
    exact ⟨⟨hadj, h.2⟩, hadj.symm, h.1⟩

end

/-- A site that is listed is one of the survey, on a cell that adjoins. -/
theorem Mentions.exists_site {v : Survey} (hd : (v.sites.map Site.cell).Nodup) {i j : Nat}
    {s : Site} (hs : v.sites[i]? = some s) (h : v.Mentions i j) :
    ∃ t, v.sites[j]? = some t ∧ s.cell.Adjoins t.cell := by
  obtain ⟨d, s', hs', k, hk, rfl, _⟩ := h
  rw [hs] at hs'
  cases hs'
  obtain ⟨t, ht, hadj, _⟩ := (Site.mem_links hd).mp hk
  exact ⟨t, ht, hadj⟩

end Survey

/-- **Both ends of a link agree.** In a survey every site lies on the cell of its position, and looks
at the cells around it. It lists another site as incoming exactly if the two cells adjoin and a signal
that leaves the other can enter it, and as outgoing exactly if they adjoin and a signal can go to the
other but not come back. So one of two sites lists the other if the other lists it; what one lists as
outgoing, the other lists as incoming; and two sites on cells that adjoin list each other as incoming
exactly if signals can go both ways. No site lists itself, none lists another twice, and none has
more than four links, all of them to sites one row or one column away. -/
theorem links_agree {l : Layout} {origin : Point} {v : Survey} (h : l.survey origin = .ok v) :
    (∃ f, l.frame? origin = some f ∧ ∀ s ∈ v.sites, f.cell? s.pos = some s.cell) ∧
    (∀ i j s t, v.sites[i]? = some s → v.sites[j]? = some t →
      (v.Lists i j .incoming ↔ s.cell.Adjoins t.cell ∧ t.feeds s = true) ∧
      (v.Lists i j .outgoing ↔
        s.cell.Adjoins t.cell ∧ s.feeds t = true ∧ t.feeds s = false) ∧
      (v.Mentions i j ↔ v.Mentions j i) ∧
      (v.Lists i j .outgoing → v.Lists j i .incoming) ∧
      (s.cell.Adjoins t.cell → ((v.Lists i j .incoming ∧ v.Lists j i .incoming) ↔
        (s.feeds t = true ∧ t.feeds s = true)))) ∧
    ∀ i s, v.sites[i]? = some s →
      ¬ v.Mentions i i ∧ ((s.links v.sites).map Link.other).Nodup ∧ (s.links v.sites).length ≤ 4 ∧
      ∀ j, v.Mentions i j → ∃ t, v.sites[j]? = some t ∧ s.cell.Adjoins t.cell := by
  obtain ⟨f, hf, hlies, hd, _⟩ := Layout.survey_eq_ok_iff.mp h
  refine ⟨⟨f, hf, fun s hs => ?_⟩, fun i j s t hs ht => ?_, fun i s hs => ?_⟩
  · obtain ⟨i, hi⟩ := List.mem_iff_getElem?.mp hs
    obtain ⟨p, _, hlie⟩ := exists_getElem?_of_forall₂ hlies hi
    exact hlie.cell
  · exact ⟨Survey.lists_incoming_iff hd hs ht, Survey.lists_outgoing_iff hd hs ht,
      Survey.mentions_comm hd hs ht, Survey.lists_incoming_of_outgoing hd hs ht,
      Survey.both_incoming_iff hd hs ht⟩
  · refine ⟨fun hself => ?_, s.links_nodup hd, s.length_links_le v.sites, fun j hj => ?_⟩
    · exact s.cell.not_adjoins_self ((Survey.mentions_iff hd hs hs).mp hself).1
    · exact hj.exists_site hd hs

/-- The two tests that adjoin list each other as incoming, as a signal can go either way; the pipe
before them lists the first as outgoing, and is listed by it as incoming. -/
theorem adjacentTests_agree : ∃ v, adjacentTests.survey .zero = .ok v ∧
    v.Lists 2 3 .incoming ∧ v.Lists 3 2 .incoming ∧ v.Lists 1 2 .outgoing ∧
    v.Lists 2 1 .incoming ∧ ¬ v.Mentions 2 2 := by
  obtain ⟨v, hv, hpins⟩ := exists_ok_of_any
    (show (adjacentTests.survey .zero).toOption.any (fun v =>
      v.sites[1]?.any fun r => v.sites[2]?.any fun s => v.sites[3]?.any fun t =>
        decide (r.cell.Adjoins s.cell) && r.feeds s && !s.feeds r &&
          decide (s.cell.Adjoins t.cell) && s.feeds t && t.feeds s) = true by decide +kernel)
  obtain ⟨r, hr, hpins⟩ := (Option.any_eq_true _ _).mp hpins
  obtain ⟨s, hs, hpins⟩ := (Option.any_eq_true _ _).mp hpins
  obtain ⟨t, ht, hpins⟩ := (Option.any_eq_true _ _).mp hpins
  simp only [Bool.and_eq_true, decide_eq_true_eq, Bool.not_eq_true'] at hpins
  obtain ⟨⟨⟨⟨⟨hadj, hforth⟩, hback⟩, hadj'⟩, hforth'⟩, hback'⟩ := hpins
  obtain ⟨_, hpairs, hsites⟩ := links_agree hv
  obtain ⟨_, houtgoing, _, hincoming, _⟩ := hpairs 1 2 r s hr hs
  obtain ⟨_, _, _, _, hboth⟩ := hpairs 2 3 s t hs ht
  have hlists := houtgoing.mpr ⟨hadj, hforth, hback⟩
  obtain ⟨hlists', hlists''⟩ := (hboth hadj').mpr ⟨hforth', hback'⟩
  exact ⟨v, hv, hlists', hlists'', hlists, hincoming hlists, (hsites 2 s hs).1⟩

end CipherBoard
