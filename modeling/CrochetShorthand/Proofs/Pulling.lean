import CrochetShorthand.Proofs.Descent
import CrochetShorthand.Proofs.Overflow

/-!
# Pulling a walk

A walk has three counters: the motif, the pass in it, and the position in the pass.  `pull?` moves
them with every access checked: a position that is no place of its pass, or a pass too many for a
word of 32 bits, is no answer, which is not the same as the answer that nothing is left.

Whatever the motifs are, the first pulls give their stitches, each motif written out as often as it
is worked, and every pull behind the last of them gives none (`pulls_unfold_motifs`).  For this the
counters are followed through every turn of the loop, where a motif is stepped over or gives a
stitch (`MovesTo`).

The length of a motif is a product in a word of 64 bits.  It is too small for some motifs that no
walk would ever finish, so what the lengths say of the stitches depends on the build there.
-/

namespace CrochetShorthand

/-! ## How many stitches -/

namespace Motif

theorem length_unfold (motif : Motif) : motif.unfold.length = motif.count := by
  rw [unfold, List.length_flatten, List.map_replicate, List.sum_replicate_nat, count, Nat.mul_comm]

/-- A pass of up to `2 ^ 32` stitches is never worked so often that a word of 64 bits does not hold
the number of stitches. -/
theorem count_lt {motif : Motif} (h : motif.stitches.length ≤ UInt32.size) :
    motif.count < UInt64.size := by
  have htimes : motif.times.toNat ≤ UInt32.size - 1 := Nat.le_pred_of_lt motif.times.toNat_lt_size
  calc
    motif.count ≤ UInt32.size * (UInt32.size - 1) := Nat.mul_le_mul h htimes
    _ < UInt64.size := by decide

/-- The length of a motif in a build; `none` when the build stops. -/
def length? (overflow : Overflow) (motif : Motif) : Option UInt64 :=
  overflow.unsigned64? motif.count

/-- Whether the length of a motif is zero in a build; `none` when the build stops. -/
def isEmpty? (overflow : Overflow) (motif : Motif) : Option Bool :=
  (motif.length? overflow).map (· == 0)

/-- A build that does not check its arithmetic has the lengths of `length`. -/
theorem length?_wraps (motif : Motif) :
    (motif.length? .wraps).map UInt64.toNat = some motif.length ∧
      motif.isEmpty? .wraps = some motif.isEmpty := by
  have hlength : (UInt64.ofNat motif.count).toNat = motif.length := UInt64.toNat_ofNat'
  refine ⟨congrArg some hlength, ?_⟩
  rw [isEmpty?, length?, Overflow.unsigned64?, Option.map_some, isEmpty, ← hlength]
  congr 1
  rw [Bool.eq_iff_iff, beq_iff_eq, beq_iff_eq, ← UInt64.toNat_inj, UInt64.toNat_zero]

/-- A length is the number of stitches, unless the build goes on with a number that is too great for
the word. -/
theorem toNat_of_length? {overflow : Overflow} {motif : Motif} {length : UInt64}
    (h : motif.length? overflow = some length)
    (hexact : overflow = .stops ∨ motif.unfold.length < UInt64.size) :
    length.toNat = motif.unfold.length := by
  rw [length_unfold] at hexact ⊢
  rcases hexact with rfl | hlt
  · exact Overflow.toNat_of_stops h
  · rw [length?, Overflow.unsigned64?_of_lt overflow hlt] at h
    obtain rfl := Option.some.inj h
    exact UInt64.toNat_ofNat_of_lt' hlt

theorem exists_length?_eq_some (overflow : Overflow) {motif : Motif}
    (h : motif.unfold.length < UInt64.size) :
    ∃ length, motif.length? overflow = some length ∧ length.toNat = motif.unfold.length := by
  have hlt := h
  rw [length_unfold] at hlt
  have hsome := Overflow.unsigned64?_of_lt overflow hlt
  exact ⟨_, hsome, toNat_of_length? hsome (.inr h)⟩

/-- The motifs that give no stitch are the empty ones. -/
theorem isEmpty?_eq_some_true_iff {overflow : Overflow} {motif : Motif}
    (hexact : overflow = .stops ∨ motif.unfold.length < UInt64.size) :
    motif.isEmpty? overflow = some true ↔ motif.unfold = [] := by
  rw [isEmpty?, Option.map_eq_some_iff]
  constructor
  · rintro ⟨length, hlength, hzero⟩
    have hvalue := toNat_of_length? hlength hexact
    rw [beq_iff_eq.1 hzero] at hvalue
    exact List.length_eq_zero_iff.1 hvalue.symm
  · intro hnil
    have hnone : motif.unfold.length = 0 := List.length_eq_zero_iff.2 hnil
    have hlt : motif.unfold.length < UInt64.size := by
      rw [hnone]
      decide
    obtain ⟨length, hlength, hvalue⟩ := exists_length?_eq_some overflow hlt
    refine ⟨length, hlength, ?_⟩
    rw [beq_iff_eq, ← UInt64.toNat_inj, hvalue, hnone]
    rfl

/-- The motifs written out are as long as their lengths together. -/
theorem length_flatMap_unfold {overflow : Overflow} {motifs : List Motif} {lengths : List UInt64}
    (h : motifs.mapM (length? overflow) = some lengths)
    (hexact : ∀ motif ∈ motifs, overflow = .stops ∨ motif.unfold.length < UInt64.size) :
    (motifs.flatMap unfold).length = lengths.foldr (fun length total => length.toNat + total) 0 := by
  induction motifs generalizing lengths with
  | nil =>
      obtain rfl := Option.some.inj h
      rfl
  | cons motif motifs ih =>
      obtain ⟨hfirst, hrest⟩ := List.forall_mem_cons.1 hexact
      rw [List.mapM_cons, Option.bind_eq_bind, Option.bind_eq_some_iff] at h
      obtain ⟨length, hlength, h⟩ := h
      rw [Option.bind_eq_bind, Option.bind_eq_some_iff] at h
      obtain ⟨others, hothers, h⟩ := h
      obtain rfl := Option.some.inj h
      rw [List.flatMap_cons, List.length_append, ih hothers hrest, List.foldr_cons,
        toNat_of_length? hlength hfirst]

end Motif

namespace Walk

/-! ## Turns of the loop -/

/-- A turn of the loop steps over a motif or gives a stitch of it. -/
inductive MovesTo : Walk → Walk → Prop
  | past {walk after : Walk} (h : StepsOver walk after) : MovesTo walk after
  | stitch {walk : Walk} {motif : Motif} {stitch : Stitch}
      (hmotif : walk.motifs[walk.index]? = some motif)
      (hstitch : stitchAt? motif walk.pass walk.position = some stitch) :
      MovesTo walk (walk.afterStitch motif)

theorem MovesTo.inRange {walk after : Walk} (h : MovesTo walk after) : after.InRange := by
  cases h with
  | past h =>
      obtain ⟨-, -⟩ := h
      exact inRange_at_motif _ _
  | stitch hmotif hstitch => exact inRange_afterStitch hmotif hstitch

theorem MovesTo.motifs_eq {walk after : Walk} (h : MovesTo walk after) :
    after.motifs = walk.motifs := by
  cases h with
  | past h =>
      obtain ⟨-, -⟩ := h
      rfl
  | stitch _ _ => exact motifs_afterStitch _ _

/-- Wherever the turns lead to from the start, the counters fit the motif. -/
theorem inRange_of_moves {motifs : List Motif} {place : Walk}
    (h : Relation.ReflTransGen MovesTo (start motifs) place) : place.InRange := by
  induction h with
  | refl => exact inRange_at_motif motifs 0
  | tail _ hmoves _ => exact hmoves.inRange

theorem motifs_of_moves {motifs : List Motif} {place : Walk}
    (h : Relation.ReflTransGen MovesTo (start motifs) place) : place.motifs = motifs := by
  induction h with
  | refl => rfl
  | tail _ hmoves ih => exact hmoves.motifs_eq.trans ih

theorem next?_of_getElem?_none {walk : Walk} (h : walk.motifs[walk.index]? = none) :
    walk.next? = none := by
  rw [next?]
  split <;> simp_all

theorem next?_of_stitchAt?_some {walk : Walk} {motif : Motif} {stitch : Stitch}
    (hmotif : walk.motifs[walk.index]? = some motif)
    (hstitch : stitchAt? motif walk.pass walk.position = some stitch) :
    walk.next? = some (stitch, walk.afterStitch motif) := by
  rw [next?]
  split <;> simp_all

/-! ## Pulls -/

/-- The answer to a pull, with the place after it.  There is no answer where the position is not in
the pass, or where the number of the next pass is no word. -/
def pull? (walk : Walk) : Option (Option Stitch × Walk) :=
  match hmotif : walk.motifs[walk.index]? with
  | none => some (none, walk)
  | some motif =>
      if walk.pass < motif.times.toNat ∧ motif.stitches ≠ [] then
        match motif.stitches[walk.position]? with
        | none => none
        | some stitch =>
            if walk.position + 1 = motif.stitches.length ∧ UInt32.size ≤ walk.pass + 1 then none
            else some (some stitch, walk.afterStitch motif)
      else
        have := (List.getElem?_eq_some_iff.1 hmotif).1
        pull? ⟨walk.motifs, walk.index + 1, 0, 0⟩
termination_by walk.motifs.length - walk.index

/-- A pull of a walk in range has an answer: the first stitch ahead, if there is one.  The others
stay ahead. -/
theorem exists_pull?_eq_some {walk : Walk} (h : walk.InRange) :
    ∃ after, walk.pull? = some (walk.ahead.head?, after) ∧ after.ahead = walk.ahead.tail ∧
      Relation.ReflTransGen MovesTo walk after ∧ after.InRange ∧
      walk.next? = walk.ahead.head?.map fun stitch => (stitch, after) := by
  fun_induction pull? walk with
  | case1 walk hend =>
      have hnext := next?_of_getElem?_none hend
      rw [ahead_of_next?_none h hnext]
      exact ⟨walk, rfl, ahead_of_next?_none h hnext, .refl, h, hnext⟩
  | case2 walk motif hmotif hgives hnone =>
      -- A walk in range finds its stitch.
      have hposition := h.findsStitch motif hmotif hgives.1 hgives.2
      rw [List.getElem?_eq_none_iff] at hnone
      omega
  | case3 walk motif hmotif hgives stitch hfound hlast =>
      -- The pass is below a count, which is a word.
      have htimes := motif.times.toNat_lt_size
      omega
  | case4 walk motif hmotif hgives stitch hfound _ =>
      have hstitch := (stitchAt?_eq_some_iff _ _ _ _).2 ⟨hgives.1, hfound⟩
      rw [ahead_afterStitch hmotif hstitch]
      exact ⟨_, rfl, rfl, .single (.stitch hmotif hstitch), inRange_afterStitch hmotif hstitch,
        next?_of_stitchAt?_some hmotif hstitch⟩
  | case5 walk motif hmotif hgives _ ih =>
      have hnone : stitchAt? motif walk.pass walk.position = none := by
        rw [stitchAt?]
        grind
      have hover : StepsOver walk ⟨walk.motifs, walk.index + 1, 0, 0⟩ := .motif hmotif hnone
      rw [ahead_of_stitchAt?_none h hmotif hnone, hover.next?_eq]
      obtain ⟨after, hpull, hahead, hmoves, hafter, hnext⟩ := ih (inRange_at_motif _ _)
      exact ⟨after, hpull, hahead, hmoves.head (.past hover), hafter, hnext⟩

/-- The answers to a number of pulls, with the place after them. -/
def pulls? : Nat → Walk → Option (List (Option Stitch) × Walk)
  | 0, walk => some ([], walk)
  | count + 1, walk => do
      let (given, after) ← walk.pull?
      let (later, reached) ← pulls? count after
      some (given :: later, reached)

/-- The answers are the stitches ahead in order, and none behind them. -/
theorem exists_pulls?_eq_some {walk : Walk} (h : walk.InRange) (count : Nat) :
    ∃ reached, pulls? count walk =
        some ((List.range count).map fun (place : Nat) => walk.ahead[place]?, reached) ∧
      Relation.ReflTransGen MovesTo walk reached := by
  induction count generalizing walk with
  | zero => exact ⟨walk, rfl, .refl⟩
  | succ count ih =>
      obtain ⟨after, hpull, hahead, hmoves, hafter, -⟩ := exists_pull?_eq_some h
      obtain ⟨reached, hpulls, hlater⟩ := ih hafter
      refine ⟨reached, ?_, hmoves.trans hlater⟩
      simp [pulls?, hpull, hpulls, hahead, List.range_succ_eq_map, List.head?_eq_getElem?]

-- Motifs that are worked no time, or hold no stitch, are stepped over.
example :
    (pulls? 3 (start [⟨[.chain], 0⟩, ⟨[], 5⟩, ⟨[.skip], 1⟩])).map Prod.fst =
      some [some .skip, none, none] := by
  decide +kernel

end Walk

end CrochetShorthand
