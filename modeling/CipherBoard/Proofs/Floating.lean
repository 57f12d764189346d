/-
CipherBoard.Proofs.Floating — what holds of all floating-point numbers.

A number is stored as a sign, eleven bits of exponent and fifty-two of significand. An
operation takes its operands apart, computes, and stores what comes out.

* `pack_unpack` — a number that is taken apart and stored again is the same number.
* `sub_zero`, `add_zero` — so nothing happens where zero is added or taken away, except
  that a zero with a sign loses it.
* `abs_sub_comm` — the distance between two numbers does not depend on their order, since
  rounding treats both signs alike.
-/
import CipherBoard.Decimal.Binary

namespace CipherBoard.Floating

open Float.Model Float.Model.UnpackedFloat

/-! ## Section 1 — taking apart and storing again -/

theorem toBitVec_ofBitVec (b : BitVec 1) : (Sign.ofBitVec b).toBitVec = b := by
  have hlt := b.isLt
  unfold Sign.ofBitVec
  split
  · simp_all [Sign.toBitVec]
  · rename_i h
    have hb : b.toNat ≠ 0 := fun h0 => h (BitVec.eq_of_toNat_eq h0)
    apply BitVec.eq_of_toNat_eq
    simp only [Sign.toBitVec, BitVec.toNat_ofNat]
    omega

/-- The three parts of a number side by side. -/
theorem getLsbD_parts (b : BitVec 64) (i : Nat) (hi : i < 64) :
    (b.extractLsb 63 63 ++ b.extractLsb 62 52 ++ b.extractLsb 51 0).getLsbD i =
      b.getLsbD i := by
  rw [BitVec.getLsbD_append, BitVec.getLsbD_append]
  by_cases hm : i < 52
  · rw [if_pos hm, BitVec.getLsbD_extractLsb, Nat.zero_add, decide_eq_true (by omega),
      Bool.true_and]
  · rw [if_neg hm]
    by_cases he : i - 52 < 11
    · rw [if_pos he, BitVec.getLsbD_extractLsb, Nat.add_sub_cancel' (by omega),
        decide_eq_true (by omega), Bool.true_and]
    · rw [if_neg he, BitVec.getLsbD_extractLsb, decide_eq_true (by omega), Bool.true_and]
      congr 1
      omega

theorem packComponents_unpack (b : BitVec Format.binary64.numBits) :
    packComponents Format.binary64 (Sign.ofBitVec (unpackSign b)) (unpackExponent b)
      (unpackMantissa b) = b := by
  unfold packComponents
  rw [toBitVec_ofBitVec]
  exact BitVec.eq_of_getLsbD_eq (getLsbD_parts b)

/-- The significand with the leading one that is not stored. -/
theorem toNat_implicit (m : BitVec 52) : (1#1 ++ m).toNat = Decimal.hiddenBit + m.toNat := by
  rw [BitVec.toNat_append, ← Nat.shiftLeft_add_eq_or_of_lt m.isLt]
  rfl

/-- The smallest numbers have no leading one. -/
theorem pack_subnormal (s : Sign) (m : BitVec 52) (e : Int) (h : 0 < m.toNat)
    (he : e = (0#11).toNat - ((Format.binary64.exponentBias : Int) + (52 : Nat)) + 1) :
    UnpackedFloat.pack Format.binary64 (.finite s m.toNat e h) =
      packComponents Format.binary64 s 0#11 m := by
  have hlog : m.toNat.log2 < 52 := (Nat.log2_lt (Nat.ne_of_gt h)).mpr m.isLt
  have hnormal : ¬ m.toNat.log2 + 1 = Format.binary64.mantissaBits := by
    show ¬ m.toNat.log2 + 1 = 53
    omega
  subst he
  unfold UnpackedFloat.pack
  dsimp only
  rw [if_neg (by decide), if_neg hnormal, BitVec.ofNat_toNat, BitVec.setWidth_eq]

/-- All others have one, which is not stored. -/
theorem pack_normal (s : Sign) (e : BitVec 11) (m : BitVec 52) (he : e.toNat ≠ 2047)
    (h : 0 < (1#1 ++ m).toNat) :
    UnpackedFloat.pack Format.binary64
      (.finite s (1#1 ++ m).toNat (e.toNat - (Format.binary64.exponentBias + (52 : Nat))) h) =
      packComponents Format.binary64 s e m := by
  have hmant : m.toNat < Decimal.hiddenBit := m.isLt
  have hexp := e.isLt
  have hlog : (1#1 ++ m).toNat.log2 + 1 = Format.binary64.mantissaBits := by
    have hlog : (1#1 ++ m).toNat.log2 = 52 := by
      unfold Decimal.hiddenBit at hmant
      rw [toNat_implicit, Nat.log2_eq_iff (by unfold Decimal.hiddenBit; omega)]
      unfold Decimal.hiddenBit
      omega
    rw [hlog]
    rfl
  have hbiased : ((e.toNat : Int) - (Format.binary64.exponentBias + (52 : Nat)) +
      Format.binary64.exponentBias + (52 : Nat)).toNat = e.toNat := by omega
  have hfinite : ¬ 2 ^ Format.binary64.exponentBits ≤ e.toNat + 1 := by
    show ¬ 2048 ≤ e.toNat + 1
    omega
  have hstored : BitVec.ofNat 52 (1#1 ++ m).toNat = m := by
    apply BitVec.eq_of_toNat_eq
    rw [toNat_implicit, BitVec.toNat_ofNat]
    show (Decimal.hiddenBit + m.toNat) % Decimal.hiddenBit = m.toNat
    rw [Nat.add_mod_left, Nat.mod_eq_of_lt hmant]
  unfold UnpackedFloat.pack
  dsimp only
  rw [hbiased, if_neg hfinite, if_pos hlog, BitVec.ofNat_toNat, BitVec.setWidth_eq, hstored]

theorem pack_unpack_bits {b : BitVec Format.binary64.numBits} (hv : Format.binary64.Valid b) :
    UnpackedFloat.pack Format.binary64 (UnpackedFloat.unpack Format.binary64 b) = b := by
  have hparts := packComponents_unpack b
  unfold UnpackedFloat.unpack
  dsimp only
  by_cases hmax : unpackExponent b = -1#11
  · rw [if_pos hmax]
    by_cases hzero : unpackMantissa b = 0#52
    · rw [if_pos hzero]
      rw [hmax, hzero] at hparts
      exact hparts
    · -- All numbers that are not numbers are stored alike.
      rw [if_neg hzero]
      exact (hv.eq_packedNaN hmax hzero).symm
  · rw [if_neg hmax]
    by_cases hsub : unpackExponent b = 0#11
    · rw [if_pos hsub]
      rw [hsub] at hparts
      by_cases hzero : unpackMantissa b = 0#52
      · rw [dif_pos hzero]
        rw [hzero] at hparts
        exact hparts
      · rw [dif_neg hzero, pack_subnormal _ _ _ _ (by rw [hsub])]
        exact hparts
    · rw [if_neg hsub, pack_normal _ _ _ (fun h => hmax (BitVec.eq_of_toNat_eq h))]
      exact hparts

/-- **A number that is taken apart and stored again is the same number.** -/
theorem pack_unpack (a : Float.Model) : Float.Model.pack a.unpack = a := by
  obtain ⟨bits, hv⟩ := a
  exact (Float.Model.mk.injEq _ _ _ _).mpr (congrArg UInt64.ofBitVec (pack_unpack_bits hv))

/-! ## Section 2 — zero -/

theorem unpack_zero : (0 : Float).toModel.unpack = .zero .positive := by rfl

theorem sub_zero (x : Float) : x - 0 = x := by
  obtain ⟨a⟩ := x
  have hsub : UnpackedFloat.sub Format.binary64 a.unpack (0 : Float).toModel.unpack =
      a.unpack := by
    rw [unpack_zero]
    cases a.unpack with
    | zero s => cases s <;> rfl
    | _ => rfl
  show Float.ofModel (Float.Model.pack (UnpackedFloat.sub _ a.unpack _)) = ⟨a⟩
  rw [hsub, pack_unpack]

/-- Only a zero below zero is another number with zero added: it becomes zero. -/
theorem add_zero (x : Float) :
    x + 0 = x ∨ x.toModel.unpack = .zero .negative ∧ x + 0 = 0 := by
  obtain ⟨a⟩ := x
  have hadd : Float.ofModel a + 0 =
      Float.ofModel (Float.Model.pack (UnpackedFloat.add Format.binary64 a.unpack
        (.zero .positive))) := by
    rw [← unpack_zero]
    rfl
  have hpack := pack_unpack a
  rw [hadd]
  dsimp only
  cases ha : a.unpack with
  | zero s =>
    cases s
    · exact Or.inr ⟨rfl, rfl⟩
    · left
      rw [← hpack, ha]
      rfl
  | _ =>
    left
    rw [← hpack, ha]
    rfl

/-! ## Section 3 — distances -/

/-- How far a number is from zero shows in its exponent and its significand. -/
theorem abs_unpack_congr {b b' : BitVec Format.binary64.numBits}
    (he : unpackExponent b = unpackExponent b') (hm : unpackMantissa b = unpackMantissa b') :
    (UnpackedFloat.unpack Format.binary64 b).abs =
      (UnpackedFloat.unpack Format.binary64 b').abs := by
  unfold UnpackedFloat.unpack
  dsimp only
  rw [he]
  by_cases hmax : unpackExponent b' = -1#11
  · rw [if_pos hmax, if_pos hmax, hm]
    split <;> rfl
  · rw [if_neg hmax, if_neg hmax]
    by_cases hsub : unpackExponent b' = 0#11
    · rw [if_pos hsub, if_pos hsub]
      by_cases hzero : unpackMantissa b' = 0#52
      · rw [dif_pos hzero, dif_pos (hm.trans hzero)]
        rfl
      · rw [dif_neg hzero, dif_neg (fun h => hzero (hm.symm.trans h))]
        exact (finite.injEq ..).mpr ⟨rfl, congrArg BitVec.toNat hm, rfl⟩
    · rw [if_neg hsub, if_neg hsub]
      exact (finite.injEq ..).mpr
        ⟨rfl, congrArg (fun m => (1#1 ++ m).toNat) hm, rfl⟩

/-- The sign of a number shows in the bit of the sign only. -/
theorem abs_unpack_packComponents (s s' : Sign) (e : BitVec Format.binary64.exponentBits)
    (m : BitVec Format.binary64.mantissaBitsWithoutImplicit) :
    (UnpackedFloat.unpack Format.binary64 (packComponents Format.binary64 s e m)).abs =
      (UnpackedFloat.unpack Format.binary64 (packComponents Format.binary64 s' e m)).abs :=
  abs_unpack_congr
    (by rw [unpackExponent_packComponents, unpackExponent_packComponents])
    (by rw [unpackMantissa_packComponents, unpackMantissa_packComponents])

theorem exists_pack_finite (m : Nat) (e : Int) (h : 0 < m) :
    ∃ e' m', ∀ s, UnpackedFloat.pack Format.binary64 (.finite s m e h) =
      packComponents Format.binary64 s e' m' := by
  unfold UnpackedFloat.pack
  dsimp only
  split
  · exact ⟨_, _, fun s => rfl⟩
  · split
    · exact ⟨_, _, fun s => rfl⟩
    · exact ⟨_, _, fun s => rfl⟩

/-- What is stored of two numbers that differ in their signs differs there, too, if at all. -/
theorem abs_unpack_pack {u v : UnpackedFloat} (h : u.abs = v.abs) :
    (Float.Model.pack u).unpack.abs = (Float.Model.pack v).unpack.abs := by
  unfold Float.Model.pack Float.Model.unpack
  cases u <;> cases v <;> cases h
  case infinity.infinity => exact abs_unpack_packComponents _ _ _ _
  case notANumber.notANumber => rfl
  case zero.zero => exact abs_unpack_packComponents _ _ _ _
  case finite.finite.refl s m e hm s' _ =>
    obtain ⟨e', m', hpack⟩ := exists_pack_finite m e hm
    show (UnpackedFloat.unpack Format.binary64 (UnpackedFloat.pack _ (.finite s m e hm))).abs =
      (UnpackedFloat.unpack Format.binary64 (UnpackedFloat.pack _ (.finite s' m e hm))).abs
    rw [hpack, hpack]
    exact abs_unpack_packComponents _ _ _ _

theorem abs_of_parts (s s' : Sign) (m : Nat) (e : Int) :
    (if h : m = 0 then zero s else finite s m e (Nat.pos_of_ne_zero h)).abs =
      (if h : m = 0 then zero s' else finite s' m e (Nat.pos_of_ne_zero h)).abs := by
  by_cases h : m = 0
  · rw [dif_pos h, dif_pos h]
    rfl
  · rw [dif_neg h, dif_neg h]
    rfl

/-- Rounding looks at the size of a number only. -/
theorem abs_round (s s' : Sign) (m : Nat) (e : Int) :
    (UnpackedFloat.round Format.binary64 s m e).abs =
      (UnpackedFloat.round Format.binary64 s' m e).abs := by
  unfold UnpackedFloat.round roundWithAccuracy
  exact abs_of_parts _ _ _ _

theorem abs_normalize (k : Int) (e : Int) :
    (UnpackedFloat.normalize Format.binary64 k e .positive).abs =
      (UnpackedFloat.normalize Format.binary64 (-k) e .positive).abs := by
  unfold UnpackedFloat.normalize
  rcases Int.lt_trichotomy k 0 with hneg | rfl | hpos
  · rw [Int.compare_eq_lt.mpr hneg, Int.compare_eq_gt.mpr (by omega)]
    exact abs_round _ _ _ _
  · rfl
  · rw [Int.compare_eq_gt.mpr hpos, Int.compare_eq_lt.mpr (by omega), Int.neg_neg]
    exact abs_round _ _ _ _

theorem abs_unpacked_sub (u v : UnpackedFloat) :
    (UnpackedFloat.sub Format.binary64 u v).abs =
      (UnpackedFloat.sub Format.binary64 v u).abs := by
  cases u <;> cases v
  case finite.finite s m e _ s' m' e' _ =>
    unfold UnpackedFloat.sub
    dsimp only
    rw [abs_normalize, Int.neg_sub, Int.min_comm]
  case infinity.infinity s s' => cases s <;> cases s' <;> rfl
  case zero.zero s s' => cases s <;> cases s' <;> rfl
  all_goals rfl

/-- **The distance between two numbers does not depend on their order.** -/
theorem abs_sub_comm (x y : Float) : (x - y).abs = (y - x).abs := by
  obtain ⟨a⟩ := x
  obtain ⟨b⟩ := y
  exact congrArg (fun u => Float.ofModel (Float.Model.pack u))
    (abs_unpack_pack (abs_unpacked_sub a.unpack b.unpack))

end CipherBoard.Floating
