/-
CipherBoard.Proofs.Offers — what the order of the pieces decides.

Wiring goes over the pieces in their order, and where two of them would lead a third
to themselves, or a piece would keep a way that another takes from it, the order says
who prevails. `offers` lists what each piece may end up with, and `none` among the
offers stands for an order in which the piece fails its check.

* `wayIn_mem_offers` — wiring gives every piece something that was on offer.
* `exists_order` — every offer prevails in some order of the pieces.
* `uncontested_iff` — the order of the pieces is irrelevant exactly where no piece has
  two different offers.
-/
import CipherBoard.Proofs.Wiring

namespace CipherBoard

/-! ## Section 1 — offers -/

/-- The way that settled ways give to a piece. An output has none, whatever was settled. -/
def Node.wayIn (e : Node) (w : Ways) : List Nat :=
  if e.role = .output then [] else (w.get? e.id).getD []

/-- The free pipes that a piece feeds. -/
def sharers (ns : List Node) (e : Nat) : List Node :=
  ns.filter fun q => isFree ns q && q.feeders.contains e

/-- What a piece offers to the pieces that feed it. -/
def Node.offer (n : Node) : Option (List Nat) := some n.here

/-- What a free pipe that comes first makes of itself. -/
def Node.ownOffer (e : Node) : Option (List Nat) :=
  if e.sound then some e.ways else none

/-- What wiring can make of a piece: the way that some order of the pieces gives to it,
or `none` if some order makes it fail its check. -/
def offers (ns : List Node) (e : Node) : List (Option (List Nat)) :=
  if e.role = .output then [some []]
  else if e.role.isFirm then some e.ways :: (takers ns e.id).map Node.offer
  else if isFree ns e then e.ownOffer :: (sharers ns e.id).map Node.offer
  else if (takers ns e.id).isEmpty then (drawers ns e.id).map Node.offer
  else (takers ns e.id).map Node.offer

/-- No piece has two different offers. -/
def Uncontested (ns : List Node) : Prop :=
  ∀ e ∈ ns, ∀ o ∈ offers ns e, ∀ o' ∈ offers ns e, o = o'

instance (ns : List Node) : Decidable (Uncontested ns) :=
  inferInstanceAs (Decidable (∀ e ∈ ns, ∀ o ∈ offers ns e, ∀ o' ∈ offers ns e, o = o'))

theorem mem_sharers {ns : List Node} {e : Nat} {q : Node} :
    q ∈ sharers ns e ↔ q ∈ ns ∧ isFree ns q = true ∧ e ∈ q.feeders := by
  simp [sharers]

section

variable {ns ms : List Node} {e : Node}

theorem offers_output (h : e.role = .output) : offers ns e = [some []] := if_pos h

theorem offers_firm (h : e.role.isFirm = true) :
    offers ns e = some e.ways :: (takers ns e.id).map Node.offer := by
  simp [offers, Role.ne_output_of_isFirm h, h]

theorem isLoose_of_isFree (h : isFree ns e = true) : e.role.isLoose = true := by
  simp only [isFree, Bool.and_eq_true] at h
  exact h.1.1

theorem offers_free (h : isFree ns e = true) :
    offers ns e = e.ownOffer :: (sharers ns e.id).map Node.offer := by
  have hloose := isLoose_of_isFree h
  simp [offers, Role.ne_output_of_isLoose hloose, Role.isFirm_eq_false_of_isLoose hloose, h]

/-- The branches that take a pipe over leave nothing to those that draw it. -/
theorem offers_drawn (hloose : e.role.isLoose = true) (h : isFree ns e = false) :
    offers ns e = if (takers ns e.id).isEmpty then (drawers ns e.id).map Node.offer
      else (takers ns e.id).map Node.offer := by
  simp [offers, Role.ne_output_of_isLoose hloose, Role.isFirm_eq_false_of_isLoose hloose, h]

/-! ## Section 2 — what is on offer does not depend on the order -/

theorem takers_perm (h : ms.Perm ns) (e : Nat) : (takers ms e).Perm (takers ns e) :=
  h.filter _

theorem drawers_perm (h : ms.Perm ns) (e : Nat) : (drawers ms e).Perm (drawers ns e) :=
  h.filter _

theorem isFree_perm (h : ms.Perm ns) (e : Node) : isFree ms e = isFree ns e := by
  unfold isFree
  rw [(takers_perm h e.id).isEmpty_eq, (drawers_perm h e.id).isEmpty_eq]

theorem sharers_perm (h : ms.Perm ns) (e : Nat) : (sharers ms e).Perm (sharers ns e) := by
  unfold sharers
  simp only [isFree_perm h]
  exact h.filter _

theorem offers_perm (h : ms.Perm ns) (e : Node) : (offers ms e).Perm (offers ns e) := by
  unfold offers
  rw [isFree_perm h, (takers_perm h e.id).isEmpty_eq]
  split_ifs
  · exact .refl _
  · exact ((takers_perm h e.id).map _).cons _
  · exact ((sharers_perm h e.id).map _).cons _
  · exact (drawers_perm h e.id).map _
  · exact (takers_perm h e.id).map _

theorem uncontested_perm (h : ms.Perm ns) (hu : Uncontested ms) : Uncontested ns := by
  intro e he o ho o' ho'
  exact hu e (h.mem_iff.mpr he) o ((offers_perm h e).mem_iff.mpr ho) o'
    ((offers_perm h e).mem_iff.mpr ho')

end

/-! ## Section 3 — wiring settles what is on offer -/

theorem wayIn_of_get? {e : Node} {w : Ways} {ts : List Nat} (hout : e.role ≠ .output)
    (h : w.get? e.id = some ts) : e.wayIn w = ts := by
  simp [Node.wayIn, hout, h]

section

variable {ns : List Node} (hd : (ns.map Node.id).Nodup) {w : Ways} (h : connectAll ns = .ok w)
  {e : Node} (he : e ∈ ns)
include hd h he

/-- The way of a pipe that is not free. -/
theorem wayIn_mem_offers_drawn (hloose : e.role.isLoose = true) (hfree : isFree ns e = false) :
    some (e.wayIn w) ∈ offers ns e := by
  have hout := Role.ne_output_of_isLoose hloose
  have hw := get?_drawn hd h he hloose hfree
  rw [offers_drawn hloose hfree]
  cases ht : (takers ns e.id).getLast? with
  | some t =>
    rw [ht] at hw
    have hmem := List.mem_of_getLast? ht
    rw [if_neg (by simpa using List.ne_nil_of_mem hmem), wayIn_of_get? hout hw]
    exact List.mem_map_of_mem hmem
  | none =>
    rw [List.getLast?_eq_none_iff] at ht
    cases hdr : (drawers ns e.id).head? with
    | some t =>
      rw [ht, hdr] at hw
      rw [ht, wayIn_of_get? hout hw]
      exact List.mem_map_of_mem (List.mem_of_head? hdr)
    | none =>
      rw [List.head?_eq_none_iff] at hdr
      simp [isFree, hloose, ht, hdr] at hfree

/-- **What wiring settles was on offer.** -/
theorem wayIn_mem_offers : some (e.wayIn w) ∈ offers ns e := by
  by_cases hout : e.role = .output
  · rw [offers_output hout]
    simp [Node.wayIn, hout]
  cases hfirm : e.role.isFirm with
  | true =>
    obtain ⟨pre, post, rfl⟩ := List.append_of_mem he
    rw [offers_firm hfirm, wayIn_of_get? hout (get?_firm hd h hfirm)]
    cases ht : (takers post e.id).getLast? with
    | none => exact List.mem_cons_self
    | some t =>
      obtain ⟨htpost, hbranch, hfeeds⟩ := mem_takers.mp (List.mem_of_getLast? ht)
      have hmem := mem_takers.mpr
        ⟨List.mem_append_right pre (List.mem_cons_of_mem e htpost), hbranch, hfeeds⟩
      exact List.mem_cons_of_mem _ (List.mem_map_of_mem (f := Node.offer) hmem)
  | false =>
    have hloose := Role.isLoose_of_isFirm_eq_false hfirm hout
    cases hfree : isFree ns e with
    | false => exact wayIn_mem_offers_drawn hd h he hloose hfree
    | true =>
      rw [offers_free hfree]
      rcases get?_free hd h he hfree with ⟨hsound, hw⟩ | ⟨q, hq, hqfree, hfeeds, hw⟩
      · rw [wayIn_of_get? hout hw, Node.ownOffer, if_pos hsound]
        exact List.mem_cons_self
      · rw [wayIn_of_get? hout hw]
        have hmem := mem_sharers.mpr ⟨hq, hqfree, hfeeds⟩
        exact List.mem_cons_of_mem _ (List.mem_map_of_mem (f := Node.offer) hmem)

end

/-- Wiring succeeds where the pieces of the first round and the free pipes pass their
checks. -/
theorem exists_connectAll {ns : List Node} (hd : (ns.map Node.id).Nodup)
    (hfirst : ∀ n ∈ ns, n.role.isLoose = false → n.sound = true)
    (hfree : ∀ n ∈ ns, isFree ns n = true → n.sound = true) : ∃ w, connectAll ns = .ok w := by
  obtain ⟨v, hv⟩ := exists_firstRound hfirst .unsettled
  have hopen : ∀ n ∈ ns, n.role.isLoose = true → v.get? n.id = none → n.sound = true := by
    intro n hn hloose hnone
    exact hfree n hn ((get?_firstRound_eq_none_iff hd hv hn hloose).mp hnone)
  obtain ⟨w, hw⟩ := exists_secondRound hopen
  exact ⟨w, connectAll_eq_ok.mpr ⟨v, hv, hw⟩⟩

/-! ## Section 4 — every offer prevails in some order

A branch that comes last has the last word; a piece that comes first finds nothing
settled. -/

theorem exists_perm_first {ns : List Node} {e : Node} (he : e ∈ ns) :
    ∃ rest, (e :: rest).Perm ns := by
  obtain ⟨pre, post, rfl⟩ := List.append_of_mem he
  exact ⟨pre ++ post, List.perm_middle.symm⟩

theorem exists_perm_last {ns : List Node} {e : Node} (he : e ∈ ns) :
    ∃ rest, (rest ++ [e]).Perm ns := by
  obtain ⟨rest, h⟩ := exists_perm_first he
  exact ⟨rest, (List.perm_append_singleton e rest).trans h⟩

/-- A free pipe that comes first settles its own way and draws the pieces that feed it. -/
theorem get?_free_first {q : Node} {rest : List Node} (hd : ((q :: rest).map Node.id).Nodup)
    {w : Ways} (h : connectAll (q :: rest) = .ok w) (hq : isFree (q :: rest) q = true) :
    q.sound = true ∧ w.get? q.id = some q.ways ∧
      ∀ e ∈ rest, isFree (q :: rest) e = true → e.id ∈ q.feeders →
        w.get? e.id = some q.here := by
  obtain ⟨v, hv, hw⟩ := connectAll_eq_ok.mp h
  have hopen : ∀ e ∈ q :: rest, isFree (q :: rest) e = true → v.get? e.id = none :=
    fun e he hfree => (get?_firstRound_eq_none_iff hd hv he (isLoose_of_isFree hfree)).mpr hfree
  obtain ⟨u, hu, hrest⟩ := connectEach_cons_eq_ok.mp hw
  rcases Node.connectLoose_eq_ok hu with ⟨hfirm | hsome, _⟩ | ⟨_, _, hsound, hvisit⟩
  · rw [isLoose_of_isFree hq] at hfirm
    cases hfirm
  · rw [hopen q List.mem_cons_self hq] at hsome
    cases hsome
  · refine ⟨hsound, secondRound_keeps hrest (by rw [hvisit, if_pos rfl]), ?_⟩
    intro e he hfree hfeeds
    have hne : e.id ≠ q.id := by
      intro hid
      rw [List.map_cons, List.nodup_cons] at hd
      exact hd.1 (hid ▸ List.mem_map_of_mem he)
    refine secondRound_keeps hrest ?_
    rw [hvisit, if_neg hne, if_pos hfeeds, hopen e (List.mem_cons_of_mem _ he) hfree]
    rfl

/-- In the order `ms` of the pieces, `e` ends up with `o` or wiring fails; with `none` it
can only fail. -/
def Prevails (ms : List Node) (e : Node) (o : Option (List Nat)) : Prop :=
  ∀ w, connectAll ms = .ok w → some (e.wayIn w) = o

section

variable {rest : List Node} {e t : Node}

theorem getLast?_takers_concat (hbranch : t.role = .branch) (hfeeds : e.id ∈ t.feeders) :
    (takers (rest ++ [t]) e.id).getLast? = some t := by
  have ht : t.takes e.id = true := by simp [Node.takes, hbranch, hfeeds]
  simp [takers, List.filter_append, ht]

/-- A piece that is no pipe keeps its own way if it comes last. -/
theorem prevails_own (hd : ((rest ++ [e]).map Node.id).Nodup) (hfirm : e.role.isFirm = true) :
    Prevails (rest ++ [e]) e (some e.ways) := by
  intro w h
  rw [wayIn_of_get? (Role.ne_output_of_isFirm hfirm) (get?_firm hd h hfirm)]
  rfl

/-- The branch that comes last takes over a piece that is no pipe. -/
theorem prevails_taker_firm (hd : ((rest ++ [t]).map Node.id).Nodup) (he : e ∈ rest)
    (hfirm : e.role.isFirm = true) (hbranch : t.role = .branch) (hfeeds : e.id ∈ t.feeders) :
    Prevails (rest ++ [t]) e t.offer := by
  intro w h
  obtain ⟨pre, post, rfl⟩ := List.append_of_mem he
  rw [List.append_assoc, List.cons_append] at hd h
  rw [wayIn_of_get? (Role.ne_output_of_isFirm hfirm) (get?_firm hd h hfirm),
    getLast?_takers_concat hbranch hfeeds]
  rfl

/-- The branch that comes last takes over a pipe. -/
theorem prevails_taker_loose (hd : ((rest ++ [t]).map Node.id).Nodup) (he : e ∈ rest ++ [t])
    (hloose : e.role.isLoose = true) (hbranch : t.role = .branch) (hfeeds : e.id ∈ t.feeders) :
    Prevails (rest ++ [t]) e t.offer := by
  intro w h
  have hlast : (takers (rest ++ [t]) e.id).getLast? = some t :=
    getLast?_takers_concat hbranch hfeeds
  have hne := List.ne_nil_of_mem (List.mem_of_getLast? hlast)
  have hfree : isFree (rest ++ [t]) e = false := by simp [isFree, hne]
  have hw := get?_drawn hd h he hloose hfree
  rw [hlast] at hw
  rw [wayIn_of_get? (Role.ne_output_of_isLoose hloose) hw]
  rfl

/-- Where no branch takes a pipe over, the piece that comes first draws it. -/
theorem prevails_drawer (hd : ((t :: rest).map Node.id).Nodup) (he : e ∈ t :: rest)
    (hloose : e.role.isLoose = true) (htakers : takers (t :: rest) e.id = [])
    (hdraws : t.draws e.id = true) :
    Prevails (t :: rest) e t.offer := by
  intro w h
  have hdrawers : drawers (t :: rest) e.id = t :: drawers rest e.id := by simp [drawers, hdraws]
  have hfree : isFree (t :: rest) e = false := by simp [isFree, hdrawers]
  have hw := get?_drawn hd h he hloose hfree
  rw [htakers, hdrawers] at hw
  rw [wayIn_of_get? (Role.ne_output_of_isLoose hloose) hw]
  rfl

/-- A free pipe that comes first keeps its own way, or fails. -/
theorem prevails_free (hd : ((e :: rest).map Node.id).Nodup)
    (hfree : isFree (e :: rest) e = true) : Prevails (e :: rest) e e.ownOffer := by
  intro w h
  have hout := Role.ne_output_of_isLoose (isLoose_of_isFree hfree)
  obtain ⟨hsound, hw, _⟩ := get?_free_first hd h hfree
  rw [wayIn_of_get? hout hw, Node.ownOffer, if_pos hsound]

/-- A free pipe that comes first draws the free pipes that feed it. -/
theorem prevails_sharer (hd : ((t :: rest).map Node.id).Nodup) (he : e ∈ rest)
    (hfree : isFree (t :: rest) e = true) (htfree : isFree (t :: rest) t = true)
    (hfeeds : e.id ∈ t.feeders) : Prevails (t :: rest) e t.offer := by
  intro w h
  have hout := Role.ne_output_of_isLoose (isLoose_of_isFree hfree)
  obtain ⟨_, _, hdraws⟩ := get?_free_first hd h htfree
  rw [wayIn_of_get? hout (hdraws e he hfree hfeeds)]
  rfl

end

/-- **Every offer prevails in some order of the pieces.** -/
theorem exists_order {ns : List Node} (hd : (ns.map Node.id).Nodup) {e : Node} (he : e ∈ ns)
    (hself : e.id ∉ e.feeders) {o : Option (List Nat)} (ho : o ∈ offers ns e) :
    ∃ ms, ms.Perm ns ∧ Prevails ms e o := by
  have hdistinct : ∀ {ms : List Node}, ms.Perm ns → (ms.map Node.id).Nodup :=
    fun hp => (hp.map _).nodup_iff.mpr hd
  -- Whoever offers a way to `e` is another piece.
  have hother : ∀ {t rest}, (t :: rest).Perm ns → e.id ∈ t.feeders → e ∈ rest := by
    intro t rest hp hfeeds
    rcases List.mem_cons.mp (hp.mem_iff.mpr he) with rfl | hrest
    · exact absurd hfeeds hself
    · exact hrest
  by_cases hout : e.role = .output
  · rw [offers_output hout, List.mem_singleton] at ho
    refine ⟨ns, .refl _, fun w _ => ?_⟩
    rw [ho, Node.wayIn, if_pos hout]
  cases hfirm : e.role.isFirm with
  | true =>
    rw [offers_firm hfirm] at ho
    rcases List.mem_cons.mp ho with rfl | ho
    · obtain ⟨rest, hp⟩ := exists_perm_last he
      exact ⟨_, hp, prevails_own (hdistinct hp) hfirm⟩
    · obtain ⟨t, ht, rfl⟩ := List.mem_map.mp ho
      obtain ⟨htns, hbranch, hfeeds⟩ := mem_takers.mp ht
      obtain ⟨rest, hp⟩ := exists_perm_last htns
      have hrest := hother ((List.perm_append_singleton t rest).symm.trans hp) hfeeds
      exact ⟨_, hp, prevails_taker_firm (hdistinct hp) hrest hfirm hbranch hfeeds⟩
  | false =>
    have hloose := Role.isLoose_of_isFirm_eq_false hfirm hout
    cases hfree : isFree ns e with
    | true =>
      rw [offers_free hfree] at ho
      rcases List.mem_cons.mp ho with rfl | ho
      · obtain ⟨rest, hp⟩ := exists_perm_first he
        exact ⟨_, hp, prevails_free (hdistinct hp) (isFree_perm hp e ▸ hfree)⟩
      · obtain ⟨t, ht, rfl⟩ := List.mem_map.mp ho
        obtain ⟨htns, htfree, hfeeds⟩ := mem_sharers.mp ht
        obtain ⟨rest, hp⟩ := exists_perm_first htns
        exact ⟨_, hp, prevails_sharer (hdistinct hp) (hother hp hfeeds)
          (isFree_perm hp e ▸ hfree) (isFree_perm hp t ▸ htfree) hfeeds⟩
    | false =>
      rw [offers_drawn hloose hfree] at ho
      split at ho
      · rename_i hempty
        obtain ⟨t, ht, rfl⟩ := List.mem_map.mp ho
        obtain ⟨htns, hdraws⟩ := List.mem_filter.mp ht
        obtain ⟨rest, hp⟩ := exists_perm_first htns
        have htakers : takers (t :: rest) e.id = [] := by
          rw [← List.isEmpty_iff, (takers_perm hp e.id).isEmpty_eq]
          exact hempty
        exact ⟨_, hp, prevails_drawer (hdistinct hp) (hp.mem_iff.mpr he) hloose htakers hdraws⟩
      · obtain ⟨t, ht, rfl⟩ := List.mem_map.mp ho
        obtain ⟨htns, hbranch, hfeeds⟩ := mem_takers.mp ht
        obtain ⟨rest, hp⟩ := exists_perm_last htns
        exact ⟨_, hp, prevails_taker_loose (hdistinct hp) (hp.mem_iff.mpr he) hloose hbranch hfeeds⟩

/-! ## Section 5 — the pieces whose order is irrelevant -/

section

variable {ns ms : List Node} (hd : (ns.map Node.id).Nodup) (hu : Uncontested ns) {w w' : Ways}
include hd hu

/-- Without a contest, one order gives every piece what another gives to it. -/
theorem Uncontested.wayIn_eq (h : connectAll ns = .ok w) (hp : ms.Perm ns)
    (h' : connectAll ms = .ok w') {e : Node} (he : e ∈ ns) : e.wayIn w' = e.wayIn w := by
  have hd' : (ms.map Node.id).Nodup := (hp.map _).nodup_iff.mpr hd
  have hmem := (offers_perm hp e).mem_iff.mp (wayIn_mem_offers hd' h' (hp.mem_iff.mpr he))
  exact Option.some.inj (hu e he _ hmem _ (wayIn_mem_offers hd h he))

/-- Without a contest, wiring succeeds in every order if it does in one. -/
theorem Uncontested.exists_connectAll (h : connectAll ns = .ok w) (hp : ms.Perm ns) :
    ∃ w', connectAll ms = .ok w' := by
  refine CipherBoard.exists_connectAll ((hp.map _).nodup_iff.mpr hd) ?_ ?_
  · intro n hn hloose
    exact connectAll_sound h (hp.mem_iff.mp hn) hloose
  · intro n hn hfree
    rw [isFree_perm hp] at hfree
    have hns := hp.mem_iff.mp hn
    have hown : n.ownOffer ∈ offers ns n := by
      rw [offers_free hfree]
      exact List.mem_cons_self
    -- The offer that prevails in the given order is no fault, so neither is its own.
    have hsome := hu n hns _ hown _ (wayIn_mem_offers hd h hns)
    by_contra hsound
    rw [Node.ownOffer, if_neg hsound] at hsome
    cases hsome

end

/-- **Where the order of the pieces is irrelevant**: exactly where no piece has two
different offers. -/
theorem uncontested_iff {ns : List Node} (hd : (ns.map Node.id).Nodup)
    (hself : ∀ e ∈ ns, e.id ∉ e.feeders) {w : Ways} (h : connectAll ns = .ok w) :
    Uncontested ns ↔ ∀ ms, ms.Perm ns → ∃ w', connectAll ms = .ok w' ∧
      ∀ e ∈ ns, e.wayIn w' = e.wayIn w := by
  constructor
  · intro hu ms hp
    obtain ⟨w', h'⟩ := hu.exists_connectAll hd h hp
    exact ⟨w', h', fun e he => hu.wayIn_eq hd h hp h' he⟩
  · intro hall e he o ho o' ho'
    have hsame : ∀ o ∈ offers ns e, o = some (e.wayIn w) := by
      intro o ho
      obtain ⟨ms, hp, hprevails⟩ := exists_order hd he (hself e he) ho
      obtain ⟨w', h', hway⟩ := hall ms hp
      rw [← hprevails w' h', hway e he]
    rw [hsame o ho, hsame o' ho']

end CipherBoard
