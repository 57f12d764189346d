/-
CipherBoard.Proofs.Wiring — what the two rounds of wiring settle.

Every way that wiring ever writes is one of three: the piece's own ways
(`Node.ways`), a draw, which fills in a way only where none is settled, and a
take-over by a branch, which replaces whatever was there. What the whole first
round leaves with a piece therefore depends on the order of the pieces in two
places only: the last branch that takes the piece over, and the first piece
that draws it.

* `Node.visit` — what one piece of the first round makes of the way of another.
* `foldl_visit` — the first round as a formula: the last taker, else what was
  settled before, else the first drawer.
* `firstRound_eq_ok` / `exists_firstRound` — the first round succeeds exactly
  when every piece it connects passes its own check.
* `secondRound_keeps`, `secondRound_origin`, `secondRound_settles` — what is
  settled stays, and a loose pipe ends with its own way or with that of a
  loose pipe which it feeds.
* `get?_firm`, `get?_drawn`, `get?_free` — the way of a piece after both rounds: of one
  that is no pipe, of a pipe that another piece gave a way, of a pipe left free.
* `connectAll_led` — every piece but an output leads somewhere, by its own way or to a
  piece that it feeds (`Led`).
-/
import CipherBoard.Wiring
import Mathlib.Data.List.Nodup

namespace CipherBoard

/-! ## Section 1 — the table of settled ways

`get?` is the view: every write is described by what it does to each entry. -/

namespace Ways

@[simp] theorem get?_unsettled (e : Nat) : unsettled.get? e = none := rfl

@[simp] theorem get?_set (w : Ways) (id : Nat) (ts : List Nat) (e : Nat) :
    (w.set id ts).get? e = if e = id then some ts else w.get? e := by
  unfold get? set
  rw [List.lookup_cons]
  by_cases h : e = id
  · simp [h]
  · have hne : (e == id) = false := by simpa using h
    simp [h, hne]

theorem get?_draw (w : Ways) (target id e : Nat) :
    (w.draw target id).get? e =
      if e = id then some ((w.get? e).getD [target]) else w.get? e := by
  unfold draw
  by_cases h : e = id
  · subst h
    cases hw : w.get? e with
    | none => simp
    | some ts => simp [hw]
  · cases hw : w.get? id with
    | none => simp [h]
    | some ts => simp [h]

end Ways

namespace Node

theorem get?_drawFeeders (n : Node) (w : Ways) (e : Nat) :
    (n.drawFeeders w).get? e =
      if e ∈ n.feeders then some ((w.get? e).getD [n.id]) else w.get? e := by
  unfold drawFeeders
  induction n.feeders generalizing w with
  | nil => simp
  | cons id ids ih =>
    rw [List.foldl_cons, ih, Ways.get?_draw]
    by_cases h : e = id
    · subst h; simp
    · simp [h]

theorem get?_takeFeeders (n : Node) (w : Ways) (e : Nat) :
    (n.takeFeeders w).get? e = if e ∈ n.feeders then some [n.id] else w.get? e := by
  unfold takeFeeders
  induction n.feeders generalizing w with
  | nil => simp
  | cons id ids ih =>
    rw [List.foldl_cons, ih, Ways.get?_set]
    by_cases h : e = id
    · subst h; simp
    · simp [h]

end Node

/-! ## Section 2 — one piece at a time

A piece checks its own links before it writes, and the check does not look at
what is settled (`Node.sound`). What it writes is given entry by entry. -/

/-- The roles that settle their own ways in the first round. -/
def Role.isFirm : Role → Bool
  | .input | .mux | .branch | .transform => true
  | .output | .pipe | .joint => false

/-- The roles whose own check is left to the second round. -/
def Role.isLoose : Role → Bool
  | .pipe | .joint => true
  | _ => false

/-- The roles that draw the pieces which feed them in the first round. -/
def Role.isDrawing : Role → Bool
  | .mux | .transform | .output => true
  | _ => false

namespace Node

/-- The ways that a piece settles for itself: a branch puts the special one first. -/
def ways (n : Node) : List Nat :=
  match n.role with
  | .branch =>
    match n.outgoing.find? (·.special), n.outgoing.find? (!·.special) with
    | some first, some second => [first.other, second.other]
    | _, _ => []
  | _ => n.targets

/-- Whether the links of a piece are as its role wants them. -/
def sound (n : Node) : Bool :=
  match n.role with
  | .transform | .mux | .pipe => n.targets.length == 1 && decide (1 ≤ n.feeders.length)
  | .joint => n.targets.length == 1 && decide (2 ≤ n.feeders.length)
  | .output => n.targets.isEmpty && !n.feeders.isEmpty
  | .input => n.feeders.isEmpty && n.targets.length == 1
  | .branch =>
    n.targets.length == 2 && (n.outgoing.find? (·.special)).isSome &&
      (n.outgoing.find? (!·.special)).isSome && !n.feeders.isEmpty

/-- Whether `n` is a branch that takes over `e`. -/
def takes (e : Nat) (n : Node) : Bool :=
  n.role == .branch && n.feeders.contains e

/-- Whether `n` draws `e` in the first round. -/
def draws (e : Nat) (n : Node) : Bool :=
  n.role.isDrawing && n.feeders.contains e

/-- What `n` makes of the way of `e` in the first round. -/
def visit (e : Nat) (v : Option (List Nat)) (n : Node) : Option (List Nat) :=
  if n.role.isFirm && n.id == e then some n.ways
  else if n.takes e then some [n.id]
  else if n.draws e then some (v.getD [n.id])
  else v

theorem connectLine_eq_ok {least : Nat} {n : Node} {w w' : Ways}
    (h : n.connectLine least w = .ok w') :
    n.targets.length = 1 ∧ least ≤ n.feeders.length ∧
      w' = (n.drawFeeders w).set n.id n.targets := by
  unfold connectLine at h
  split at h
  · cases h
  · split at h
    · cases h
    · rename_i h1 h2
      cases h
      exact ⟨by omega, by omega, rfl⟩

theorem connectLine_of_sound {least : Nat} {n : Node} (w : Ways)
    (h1 : n.targets.length = 1) (h2 : least ≤ n.feeders.length) :
    n.connectLine least w = .ok ((n.drawFeeders w).set n.id n.targets) := by
  unfold connectLine
  rw [if_neg (by omega), if_neg (by omega)]

theorem connectBranch_eq_ok {n : Node} {w w' : Ways} (h : n.connectBranch w = .ok w') :
    ∃ first second, n.targets.length = 2 ∧ n.outgoing.find? (·.special) = some first ∧
      n.outgoing.find? (!·.special) = some second ∧ n.feeders ≠ [] ∧
      w' = (n.takeFeeders w).set n.id [first.other, second.other] := by
  unfold connectBranch at h
  split at h
  · cases h
  · rename_i hlen
    split at h
    · rename_i first second hfirst hsecond
      split at h
      · cases h
      · rename_i hfeed
        cases h
        exact ⟨first, second, by omega, hfirst, hsecond, hfeed, rfl⟩
    · cases h

/-- **What connecting a piece does**: it succeeds only if the piece passes its own
check, and it changes every way as `visit` says. -/
theorem connect_eq_ok {n : Node} {w w' : Ways} (h : n.connect w = .ok w') :
    (n.role.isLoose = false → n.sound = true) ∧
      ∀ e, w'.get? e = visit e (w.get? e) n := by
  unfold connect at h
  split at h
  case h_1 hr | h_2 hr =>
    obtain ⟨h1, h2, rfl⟩ := connectLine_eq_ok h
    refine ⟨fun _ => by simp [sound, hr, h1, h2], fun e => ?_⟩
    rw [Ways.get?_set, get?_drawFeeders]
    by_cases he : e = n.id
    · simp [visit, ways, hr, Role.isFirm, he]
    · simp [visit, takes, draws, hr, Role.isFirm, Role.isDrawing, he, Ne.symm he]
  case h_3 hr =>
    unfold connectOutput at h
    split at h
    · cases h
    · rename_i ht
      split at h
      · cases h
      · rename_i hf
        cases h
        refine ⟨fun _ => by simp_all [sound], fun e => ?_⟩
        rw [get?_drawFeeders]
        simp [visit, takes, draws, hr, Role.isFirm, Role.isDrawing]
  case h_4 hr =>
    unfold connectInput at h
    split at h
    · cases h
    · rename_i hf
      split at h
      · cases h
      · rename_i ht
        cases h
        refine ⟨fun _ => by simp_all [sound], fun e => ?_⟩
        rw [Ways.get?_set]
        by_cases he : e = n.id
        · simp [visit, ways, hr, Role.isFirm, he]
        · simp [visit, takes, draws, hr, Role.isFirm, Role.isDrawing, he, Ne.symm he]
  case h_5 hr =>
    obtain ⟨first, second, h1, h2, h3, h4, rfl⟩ := connectBranch_eq_ok h
    refine ⟨fun _ => by simp [sound, hr, h1, h2, h3, h4], fun e => ?_⟩
    rw [Ways.get?_set, get?_takeFeeders]
    by_cases he : e = n.id
    · simp [visit, ways, hr, Role.isFirm, he, h2, h3]
    · simp [visit, takes, draws, hr, Role.isFirm, Role.isDrawing, he, Ne.symm he]
  case h_6 hr | h_7 hr =>
    cases h
    refine ⟨fun hl => by simp [hr, Role.isLoose] at hl, fun e => ?_⟩
    simp [visit, takes, draws, hr, Role.isFirm, Role.isDrawing]

/-- A piece that passes its own check is connected, whatever is settled already. -/
theorem exists_connect {n : Node} (h : n.role.isLoose = false → n.sound = true) (w : Ways) :
    ∃ w', n.connect w = .ok w' := by
  unfold connect
  split
  case h_1 hr | h_2 hr =>
    have hs := h (by simp [hr, Role.isLoose])
    simp only [sound, hr, Bool.and_eq_true, beq_iff_eq, decide_eq_true_eq] at hs
    exact ⟨_, connectLine_of_sound w hs.1 hs.2⟩
  case h_3 hr =>
    have hs := h (by simp [hr, Role.isLoose])
    simp only [sound, hr, Bool.and_eq_true, List.isEmpty_iff, Bool.not_eq_true',
      List.isEmpty_eq_false_iff] at hs
    exact ⟨n.drawFeeders w, by simp [connectOutput, hs.1, hs.2]⟩
  case h_4 hr =>
    have hs := h (by simp [hr, Role.isLoose])
    simp only [sound, hr, Bool.and_eq_true, List.isEmpty_iff, beq_iff_eq] at hs
    exact ⟨w.set n.id n.targets, by simp [connectInput, hs.1, hs.2]⟩
  case h_5 hr =>
    have hs := h (by simp [hr, Role.isLoose])
    simp only [sound, hr, Bool.and_eq_true, beq_iff_eq, Option.isSome_iff_exists,
      Bool.not_eq_true', List.isEmpty_eq_false_iff] at hs
    obtain ⟨⟨⟨h1, first, h2⟩, second, h3⟩, h4⟩ := hs
    exact ⟨(n.takeFeeders w).set n.id [first.other, second.other],
      by simp [connectBranch, h1, h2, h3, h4]⟩
  case h_6 | h_7 => exact ⟨w, rfl⟩

/-- A piece in the second round: it is left alone if it is no pipe or has a way
already; otherwise it passes its own check, settles its own way and draws the
pieces that feed it. -/
theorem connectLoose_eq_ok {n : Node} {w w' : Ways} (h : n.connectLoose w = .ok w') :
    ((n.role.isLoose = false ∨ (w.get? n.id).isSome) ∧ w' = w) ∨
      (n.role.isLoose = true ∧ w.get? n.id = none ∧ n.sound = true ∧
        ∀ e, w'.get? e = if e = n.id then some n.ways
          else if e ∈ n.feeders then some ((w.get? e).getD [n.id]) else w.get? e) := by
  unfold connectLoose at h
  split at h
  · rename_i hsome
    cases h
    exact Or.inl ⟨Or.inr hsome, rfl⟩
  · rename_i hnone
    split at h
    case h_1 hr | h_2 hr =>
      obtain ⟨h1, h2, rfl⟩ := connectLine_eq_ok h
      refine Or.inr ⟨by simp [hr, Role.isLoose], by simpa using hnone,
        by simp [sound, hr, h1, h2], fun e => ?_⟩
      rw [Ways.get?_set, get?_drawFeeders]
      simp [ways, hr]
    case h_3 hp hj =>
      cases h
      refine Or.inl ⟨Or.inl ?_, rfl⟩
      cases hr : n.role <;> simp_all [Role.isLoose]

/-- A piece that passes its own check gets through the second round. -/
theorem exists_connectLoose {n : Node} {w : Ways}
    (h : n.role.isLoose = true → w.get? n.id = none → n.sound = true) :
    ∃ w', n.connectLoose w = .ok w' := by
  unfold connectLoose
  split
  · exact ⟨w, rfl⟩
  · rename_i hnone
    have hw : w.get? n.id = none := by simpa using hnone
    split
    case h_1 hr | h_2 hr =>
      have hs := h (by simp [hr, Role.isLoose]) hw
      simp only [sound, hr, Bool.and_eq_true, beq_iff_eq, decide_eq_true_eq] at hs
      exact ⟨_, connectLine_of_sound w hs.1 hs.2⟩
    case h_3 => exact ⟨w, rfl⟩

end Node

/-! ## Section 3 — the first round as a formula -/

theorem connectEach_cons_eq_ok {settle : Node → Ways → Except PieceFault Ways} {n : Node}
    {rest : List Node} {w w' : Ways} :
    connectEach settle (n :: rest) w = .ok w' ↔
      ∃ v, settle n w = .ok v ∧ connectEach settle rest v = .ok w' := by
  rw [connectEach]
  cases h : settle n w with
  | error fault => simp
  | ok v => simp

/-- The branches among the pieces that take `e` over, in their order. -/
def takers (ns : List Node) (e : Nat) : List Node :=
  ns.filter (Node.takes e)

/-- The pieces that draw `e` in the first round, in their order. -/
def drawers (ns : List Node) (e : Nat) : List Node :=
  ns.filter (Node.draws e)

/-- The ways of a piece that another one has led to itself. -/
def Node.here (n : Node) : List Nat := [n.id]

theorem mem_takers {ns : List Node} {e : Nat} {t : Node} :
    t ∈ takers ns e ↔ t ∈ ns ∧ t.role = .branch ∧ e ∈ t.feeders := by
  simp [takers, Node.takes]

theorem mem_drawers {ns : List Node} {e : Nat} {t : Node} :
    t ∈ drawers ns e ↔ t ∈ ns ∧ t.role.isDrawing = true ∧ e ∈ t.feeders := by
  simp [drawers, Node.draws]

/-- The first round succeeds only if every piece that it connects passes its
check, and it is a fold of visits for each way separately. -/
theorem firstRound_eq_ok {ns : List Node} {w w' : Ways}
    (h : connectEach Node.connect ns w = .ok w') :
    (∀ n ∈ ns, n.role.isLoose = false → n.sound = true) ∧
      ∀ e, w'.get? e = ns.foldl (Node.visit e) (w.get? e) := by
  induction ns generalizing w with
  | nil =>
    cases h
    exact ⟨by simp, fun e => rfl⟩
  | cons n rest ih =>
    obtain ⟨v, hn, hrest⟩ := connectEach_cons_eq_ok.1 h
    obtain ⟨hsound, hvisit⟩ := Node.connect_eq_ok hn
    obtain ⟨hsounds, hvisits⟩ := ih hrest
    refine ⟨?_, fun e => ?_⟩
    · intro m hm
      rcases List.mem_cons.mp hm with rfl | hm
      · exact hsound
      · exact hsounds m hm
    · rw [hvisits e, hvisit e, List.foldl_cons]

theorem exists_firstRound {ns : List Node}
    (h : ∀ n ∈ ns, n.role.isLoose = false → n.sound = true) (w : Ways) :
    ∃ w', connectEach Node.connect ns w = .ok w' := by
  induction ns generalizing w with
  | nil => exact ⟨w, rfl⟩
  | cons n rest ih =>
    obtain ⟨v, hv⟩ := Node.exists_connect (h n List.mem_cons_self) w
    obtain ⟨w', hw'⟩ := ih (fun m hm => h m (List.mem_cons_of_mem _ hm)) v
    exact ⟨w', connectEach_cons_eq_ok.2 ⟨v, hv, hw'⟩⟩

/-- What the visits leave with a piece that does not settle its own way among
them: the last taker, else what there was, else the first drawer. -/
theorem foldl_visit {ns : List Node} {e : Nat}
    (h : ∀ n ∈ ns, n.role.isFirm = true → n.id ≠ e) (v : Option (List Nat)) :
    ns.foldl (Node.visit e) v =
      ((takers ns e).getLast?.map Node.here).or (v.or ((drawers ns e).head?.map Node.here)) := by
  induction ns generalizing v with
  | nil => simp [takers, drawers]
  | cons n rest ih =>
    rw [List.foldl_cons, ih (fun m hm => h m (List.mem_cons_of_mem _ hm))]
    have hown : (n.role.isFirm && n.id == e) = false := by
      cases hf : n.role.isFirm with
      | false => rfl
      | true => simpa using h n List.mem_cons_self hf
    by_cases ht : n.takes e = true
    · -- A taker leaves its mark on whatever there was, so only later takers count.
      have hd : n.draws e = false := by
        simp only [Node.takes, Bool.and_eq_true, beq_iff_eq] at ht
        simp [Node.draws, ht.1, Role.isDrawing]
      have htake : takers (n :: rest) e = n :: takers rest e := by simp [takers, ht]
      have hv : Node.visit e v n = some n.here := by
        simp [Node.visit, hown, ht, Node.here]
      rw [hv, htake, List.getLast?_cons]
      cases (takers rest e).getLast? <;> simp
    · have htake : takers (n :: rest) e = takers rest e := by simp [takers, ht]
      rw [htake]
      by_cases hd : n.draws e = true
      · have hdraw : drawers (n :: rest) e = n :: drawers rest e := by simp [drawers, hd]
        have hv : Node.visit e v n = some (v.getD n.here) := by
          simp [Node.visit, hown, ht, hd, Node.here]
        rw [hv, hdraw]
        cases v <;> simp
      · have hdraw : drawers (n :: rest) e = drawers rest e := by simp [drawers, hd]
        have hv : Node.visit e v n = v := by simp [Node.visit, hown, ht, hd]
        rw [hv, hdraw]

/-! ## Section 4 — the second round -/

theorem Node.connectLoose_keeps {n : Node} {w w' : Ways} (h : n.connectLoose w = .ok w')
    {e : Nat} {ts : List Nat} (hw : w.get? e = some ts) : w'.get? e = some ts := by
  rcases Node.connectLoose_eq_ok h with ⟨_, rfl⟩ | ⟨_, hnone, _, hv⟩
  · exact hw
  · have hne : e ≠ n.id := by
      rintro rfl
      rw [hnone] at hw
      cases hw
    rw [hv e, if_neg hne, hw]
    simp

/-- A way that is open after a piece of the second round was open before. -/
theorem Node.connectLoose_open {n : Node} {w w' : Ways} (h : n.connectLoose w = .ok w')
    {e : Nat} (hw' : w'.get? e = none) : w.get? e = none := by
  cases hw : w.get? e with
  | none => rfl
  | some ts =>
    rw [Node.connectLoose_keeps h hw] at hw'
    cases hw'

/-- A way that is settled before the second round stays. -/
theorem secondRound_keeps {ns : List Node} {w w' : Ways}
    (h : connectEach Node.connectLoose ns w = .ok w') {e : Nat} {ts : List Nat}
    (hw : w.get? e = some ts) : w'.get? e = some ts := by
  induction ns generalizing w with
  | nil => cases h; exact hw
  | cons n rest ih =>
    obtain ⟨v, hn, hrest⟩ := connectEach_cons_eq_ok.1 h
    exact ih hrest (Node.connectLoose_keeps hn hw)

/-- Where a way comes from that the second round settles: it is the piece's own,
or a loose pipe that had no way itself drew the piece. -/
theorem secondRound_origin {ns : List Node} {w w' : Ways}
    (h : connectEach Node.connectLoose ns w = .ok w') {e : Nat} {ts : List Nat}
    (hw : w.get? e = none) (hw' : w'.get? e = some ts) :
    (∃ n ∈ ns, n.id = e ∧ n.role.isLoose = true ∧ n.sound = true ∧ ts = n.ways) ∨
      ∃ q ∈ ns, q.role.isLoose = true ∧ w.get? q.id = none ∧ e ∈ q.feeders ∧ ts = q.here := by
  induction ns generalizing w with
  | nil =>
    cases h
    rw [hw] at hw'
    cases hw'
  | cons n rest ih =>
    obtain ⟨v, hn, hrest⟩ := connectEach_cons_eq_ok.1 h
    rcases Node.connectLoose_eq_ok hn with ⟨_, rfl⟩ | ⟨hloose, hnone, hsound, hv⟩
    · rcases ih hrest hw with ⟨m, hm, hrest'⟩ | ⟨q, hq, hrest'⟩
      · exact Or.inl ⟨m, List.mem_cons_of_mem _ hm, hrest'⟩
      · exact Or.inr ⟨q, List.mem_cons_of_mem _ hq, hrest'⟩
    · -- The piece that is connected here settles the way now, or it stays open.
      by_cases he : e = n.id
      · have hset : v.get? e = some n.ways := by rw [hv e, if_pos he]
        rw [secondRound_keeps hrest hset] at hw'
        cases hw'
        exact Or.inl ⟨n, List.mem_cons_self, he.symm, hloose, hsound, rfl⟩
      · by_cases hf : e ∈ n.feeders
        · have hset : v.get? e = some n.here := by
            rw [hv e, if_neg he, if_pos hf, hw]; rfl
          rw [secondRound_keeps hrest hset] at hw'
          cases hw'
          exact Or.inr ⟨n, List.mem_cons_self, hloose, hnone, hf, rfl⟩
        · have hopen : v.get? e = none := by rw [hv e, if_neg he, if_neg hf, hw]
          rcases ih hrest hopen with ⟨m, hm, hrest'⟩ | ⟨q, hq, hql, hqv, hqe, hts⟩
          · exact Or.inl ⟨m, List.mem_cons_of_mem _ hm, hrest'⟩
          · exact Or.inr ⟨q, List.mem_cons_of_mem _ hq, hql,
              Node.connectLoose_open hn hqv, hqe, hts⟩

/-- After the second round every pipe leads somewhere. -/
theorem secondRound_settles {ns : List Node} {w w' : Ways}
    (h : connectEach Node.connectLoose ns w = .ok w') {n : Node} (hn : n ∈ ns)
    (hloose : n.role.isLoose = true) : ∃ ts, w'.get? n.id = some ts := by
  induction ns generalizing w with
  | nil => cases hn
  | cons m rest ih =>
    obtain ⟨v, hm, hrest⟩ := connectEach_cons_eq_ok.1 h
    rcases List.mem_cons.mp hn with rfl | hn
    · rcases Node.connectLoose_eq_ok hm with ⟨hor, rfl⟩ | ⟨_, _, _, hv⟩
      · rcases hor with hfirm | hsome
        · rw [hfirm] at hloose
          cases hloose
        · obtain ⟨ts, hts⟩ := Option.isSome_iff_exists.mp hsome
          exact ⟨ts, secondRound_keeps hrest hts⟩
      · exact ⟨n.ways, secondRound_keeps hrest (by rw [hv, if_pos rfl])⟩
    · exact ih hrest hn

theorem exists_secondRound {ns : List Node} {w : Ways}
    (h : ∀ n ∈ ns, n.role.isLoose = true → w.get? n.id = none → n.sound = true) :
    ∃ w', connectEach Node.connectLoose ns w = .ok w' := by
  induction ns generalizing w with
  | nil => exact ⟨w, rfl⟩
  | cons n rest ih =>
    obtain ⟨v, hv⟩ := Node.exists_connectLoose (h n List.mem_cons_self)
    have hopen : ∀ m ∈ rest, m.role.isLoose = true → v.get? m.id = none → m.sound = true := by
      intro m hm hloose hnone
      exact h m (List.mem_cons_of_mem _ hm) hloose (Node.connectLoose_open hv hnone)
    obtain ⟨w', hw'⟩ := ih hopen
    exact ⟨w', connectEach_cons_eq_ok.2 ⟨v, hv, hw'⟩⟩

/-! ## Section 5 — both rounds

The two kinds of pieces part here. A piece that is no pipe has its way after the
first round; a pipe or joint has one then only if a branch took it over or
another piece drew it, and is free for the second round otherwise. -/

theorem connectAll_eq_ok {ns : List Node} {w : Ways} :
    connectAll ns = .ok w ↔
      ∃ v, connectEach Node.connect ns .unsettled = .ok v ∧
        connectEach Node.connectLoose ns v = .ok w := by
  rw [connectAll]
  cases h : connectEach Node.connect ns .unsettled with
  | error e => simp
  | ok v => simp

/-- A pipe or joint that no piece of the first round gives a way. -/
def isFree (ns : List Node) (e : Node) : Bool :=
  e.role.isLoose && (takers ns e.id).isEmpty && (drawers ns e.id).isEmpty

theorem Role.isFirm_eq_false_of_isLoose {r : Role} (h : r.isLoose = true) : r.isFirm = false := by
  cases r <;> simp_all [Role.isLoose, Role.isFirm]

theorem Role.isLoose_eq_false_of_isFirm {r : Role} (h : r.isFirm = true) : r.isLoose = false := by
  cases r <;> simp_all [Role.isLoose, Role.isFirm]

theorem Role.isLoose_of_isFirm_eq_false {r : Role} (h : r.isFirm = false) (hout : r ≠ .output) :
    r.isLoose = true := by
  cases r <;> simp_all [Role.isLoose, Role.isFirm]

theorem Role.ne_output_of_isFirm {r : Role} (h : r.isFirm = true) : r ≠ .output := by
  rintro rfl
  cases h

theorem Role.ne_output_of_isLoose {r : Role} (h : r.isLoose = true) : r ≠ .output := by
  rintro rfl
  cases h

/-- A piece with an id is the only one: what is said of ids is said of pieces. -/
theorem eq_of_id_eq {ns : List Node} (hd : (ns.map Node.id).Nodup) {n m : Node} (hn : n ∈ ns)
    (hm : m ∈ ns) (h : n.id = m.id) : n = m :=
  List.inj_on_of_nodup_map hd hn hm h

/-- The way of a pipe after the first round: the last taker, else the first drawer. -/
theorem get?_firstRound_loose {ns : List Node} (hd : (ns.map Node.id).Nodup) {v : Ways}
    (h : connectEach Node.connect ns .unsettled = .ok v) {e : Node} (he : e ∈ ns)
    (hloose : e.role.isLoose = true) :
    v.get? e.id = ((takers ns e.id).getLast?.map Node.here).or
      ((drawers ns e.id).head?.map Node.here) := by
  rw [(firstRound_eq_ok h).2 e.id, Ways.get?_unsettled, foldl_visit]
  · rfl
  · intro n hn hfirm hid
    rw [eq_of_id_eq hd hn he hid, Role.isFirm_eq_false_of_isLoose hloose] at hfirm
    cases hfirm

theorem get?_firstRound_eq_none_iff {ns : List Node} (hd : (ns.map Node.id).Nodup) {v : Ways}
    (h : connectEach Node.connect ns .unsettled = .ok v) {e : Node} (he : e ∈ ns)
    (hloose : e.role.isLoose = true) : v.get? e.id = none ↔ isFree ns e = true := by
  rw [get?_firstRound_loose hd h he hloose]
  simp [isFree, hloose, List.head?_eq_none_iff]

/-- **The way of a piece that is no pipe**: the last branch behind it in the order
that takes it over, else its own ways. -/
theorem get?_firm {pre post : List Node} {e : Node} {w : Ways}
    (hd : ((pre ++ e :: post).map Node.id).Nodup)
    (h : connectAll (pre ++ e :: post) = .ok w) (hfirm : e.role.isFirm = true) :
    w.get? e.id = some (((takers post e.id).getLast?.map Node.here).getD e.ways) := by
  obtain ⟨v, hv, hw⟩ := connectAll_eq_ok.1 h
  refine secondRound_keeps hw ?_
  rw [(firstRound_eq_ok hv).2 e.id, List.foldl_append, List.foldl_cons]
  have hown : ∀ u, Node.visit e.id u e = some e.ways := by
    intro u
    simp [Node.visit, hfirm]
  have hpost : ∀ n ∈ post, n.role.isFirm = true → n.id ≠ e.id := by
    intro n hn _ hid
    rw [List.map_append, List.map_cons] at hd
    have hnot := (List.nodup_cons.mp (List.nodup_append.mp hd).2.1).1
    exact hnot (hid ▸ List.mem_map_of_mem hn)
  rw [hown, foldl_visit hpost]
  cases (takers post e.id).getLast? <;> simp

/-- **The way of a pipe that is not free**: the last branch that takes it over, else
the first piece that draws it. -/
theorem get?_drawn {ns : List Node} (hd : (ns.map Node.id).Nodup) {w : Ways}
    (h : connectAll ns = .ok w) {e : Node} (he : e ∈ ns) (hloose : e.role.isLoose = true)
    (hfree : isFree ns e = false) :
    w.get? e.id = ((takers ns e.id).getLast?.map Node.here).or
      ((drawers ns e.id).head?.map Node.here) := by
  obtain ⟨v, hv, hw⟩ := connectAll_eq_ok.1 h
  cases hve : v.get? e.id with
  | none =>
    rw [(get?_firstRound_eq_none_iff hd hv he hloose).mp hve] at hfree
    cases hfree
  | some ts =>
    rw [secondRound_keeps hw hve, ← hve, get?_firstRound_loose hd hv he hloose]

/-- **The way of a free pipe**: its own, if it passes its check, or that of a free
pipe which it feeds. -/
theorem get?_free {ns : List Node} (hd : (ns.map Node.id).Nodup) {w : Ways}
    (h : connectAll ns = .ok w) {e : Node} (he : e ∈ ns) (hfree : isFree ns e = true) :
    (e.sound = true ∧ w.get? e.id = some e.ways) ∨
      ∃ q ∈ ns, isFree ns q = true ∧ e.id ∈ q.feeders ∧ w.get? e.id = some q.here := by
  obtain ⟨v, hv, hw⟩ := connectAll_eq_ok.1 h
  have hloose : e.role.isLoose = true := by
    simp only [isFree, Bool.and_eq_true] at hfree
    exact hfree.1.1
  have hopen := (get?_firstRound_eq_none_iff hd hv he hloose).mpr hfree
  obtain ⟨ts, hts⟩ := secondRound_settles hw he hloose
  rcases secondRound_origin hw hopen hts with ⟨n, hn, hid, _, hsound, rfl⟩ |
    ⟨q, hq, hql, hqv, hqe, rfl⟩
  · cases eq_of_id_eq hd hn he hid
    exact Or.inl ⟨hsound, hts⟩
  · exact Or.inr ⟨q, hq, (get?_firstRound_eq_none_iff hd hv hq hql).mp hqv, hqe, hts⟩

/-- Where the way of a piece can come from: the piece settled it, having passed
its check, or a piece that it feeds led it to itself. -/
inductive Led (ns : List Node) (e : Node) : List Nat → Prop
  | own (hsound : e.sound = true) : Led ns e e.ways
  | fed {t : Node} (ht : t ∈ ns) (hfeeds : e.id ∈ t.feeders) : Led ns e t.here

theorem connectAll_sound {ns : List Node} {w : Ways} (h : connectAll ns = .ok w) {n : Node}
    (hn : n ∈ ns) (hloose : n.role.isLoose = false) : n.sound = true := by
  obtain ⟨v, hv, _⟩ := connectAll_eq_ok.1 h
  exact (firstRound_eq_ok hv).1 n hn hloose

/-- **Every piece but an output leads somewhere**, and `Led` says where. -/
theorem connectAll_led {ns : List Node} (hd : (ns.map Node.id).Nodup) {w : Ways}
    (h : connectAll ns = .ok w) {e : Node} (he : e ∈ ns) (hout : e.role ≠ .output) :
    ∃ ts, w.get? e.id = some ts ∧ Led ns e ts := by
  cases hfirm : e.role.isFirm with
  | true =>
    have hsound := connectAll_sound h he (Role.isLoose_eq_false_of_isFirm hfirm)
    obtain ⟨pre, post, rfl⟩ := List.append_of_mem he
    refine ⟨_, get?_firm hd h hfirm, ?_⟩
    cases ht : (takers post e.id).getLast? with
    | none => exact .own hsound
    | some t =>
      obtain ⟨htpost, _, hfeeds⟩ := mem_takers.1 (List.mem_of_getLast? ht)
      exact .fed (List.mem_append_right _ (List.mem_cons_of_mem _ htpost)) hfeeds
  | false =>
    have hloose := Role.isLoose_of_isFirm_eq_false hfirm hout
    cases hfree : isFree ns e with
    | true =>
      rcases get?_free hd h he hfree with ⟨hsound, hw⟩ | ⟨q, hq, _, hfeeds, hw⟩
      · exact ⟨_, hw, .own hsound⟩
      · exact ⟨_, hw, .fed hq hfeeds⟩
    | false =>
      have hw := get?_drawn hd h he hloose hfree
      cases ht : (takers ns e.id).getLast? with
      | some t =>
        obtain ⟨htn, _, hfeeds⟩ := mem_takers.1 (List.mem_of_getLast? ht)
        exact ⟨t.here, by rw [hw, ht]; rfl, .fed htn hfeeds⟩
      | none =>
        cases hdr : (drawers ns e.id).head? with
        | some t =>
          obtain ⟨htn, _, hfeeds⟩ := mem_drawers.1 (List.mem_of_head? hdr)
          exact ⟨t.here, by rw [hw, ht, hdr]; rfl, .fed htn hfeeds⟩
        | none =>
          rw [List.getLast?_eq_none_iff] at ht
          rw [List.head?_eq_none_iff] at hdr
          simp [isFree, hloose, ht, hdr] at hfree

namespace Node

variable {n : Node}

/-- A piece that passes its check has one way of its own, unless it is an output
or a branch. -/
theorem length_ways (h : n.sound = true) (hout : n.role ≠ .output) (hbranch : n.role ≠ .branch) :
    n.ways.length = 1 := by
  cases hr : n.role <;> simp_all [sound, ways]

/-- A branch that passes its check has two ways of its own, a special one and
then one that is not special. -/
theorem ways_of_branch (h : n.sound = true) (hr : n.role = .branch) :
    ∃ first ∈ n.outgoing, ∃ second ∈ n.outgoing, first.special = true ∧
      second.special = false ∧ n.ways = [first.other, second.other] := by
  simp only [sound, hr, Bool.and_eq_true, Option.isSome_iff_exists] at h
  obtain ⟨⟨⟨_, first, hfirst⟩, second, hsecond⟩, _⟩ := h
  refine ⟨first, List.mem_of_find?_eq_some hfirst, second, List.mem_of_find?_eq_some hsecond,
    List.find?_some hfirst, ?_, ?_⟩
  · simpa using List.find?_some hsecond
  · simp only [ways, hr, hfirst, hsecond]

/-- A piece's own ways lead where its links go out. -/
theorem ways_subset_targets : n.ways ⊆ n.targets := by
  intro t ht
  unfold ways at ht
  split at ht
  · split at ht
    · rename_i first second hfirst hsecond
      have h1 := List.mem_map_of_mem (f := Link.other) (List.mem_of_find?_eq_some hfirst)
      have h2 := List.mem_map_of_mem (f := Link.other) (List.mem_of_find?_eq_some hsecond)
      rcases List.mem_pair.mp ht with rfl | rfl
      · exact h1
      · exact h2
    · cases ht
  · exact ht

end Node

end CipherBoard
