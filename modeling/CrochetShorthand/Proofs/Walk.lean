import CrochetShorthand.Motif

/-!
# What a walk comes to

`Walk.ahead` writes out the stitches that are still in front of a walk: the rest of the pass
it is in, the later passes of its motif, and the later motifs.  At the start these are all
motifs written out.

A walk in range never passes the count of its motif, and stands at one of its stitches
whenever it stands behind the first.  Every pull of such a walk gives the first stitch ahead
and leaves the others (`ahead_of_next?_some`), and nothing is ahead when a pull gives none.
-/

namespace CrochetShorthand

namespace Walk

/-- The stitches that are still to come. -/
def ahead (walk : Walk) : List Stitch :=
  match walk.motifs.drop walk.index with
  | [] => []
  | motif :: later =>
      (List.replicate (motif.times.toNat - walk.pass) motif.stitches).flatten.drop walk.position ++
        later.flatMap Motif.unfold

/-- The pass and the position of a walk fit the motif that it stands at. -/
structure InRange (walk : Walk) : Prop where
  pass_le : ∀ motif, walk.motifs[walk.index]? = some motif → walk.pass ≤ motif.times.toNat
  position_lt : ∀ motif, walk.motifs[walk.index]? = some motif → 0 < walk.position →
    walk.position < motif.stitches.length

theorem inRange_at_motif (motifs : List Motif) (index : Nat) : InRange ⟨motifs, index, 0, 0⟩ :=
  ⟨fun _ _ => Nat.zero_le _, fun _ _ h => absurd h (Nat.lt_irrefl 0)⟩

theorem ahead_at_motif (motifs : List Motif) (index : Nat) :
    ahead ⟨motifs, index, 0, 0⟩ = (motifs.drop index).flatMap Motif.unfold := by
  rw [ahead]
  cases motifs.drop index with
  | nil => rfl
  | cons motif later => simp [Motif.unfold]

theorem ahead_start (motifs : List Motif) :
    (start motifs).ahead = motifs.flatMap Motif.unfold :=
  ahead_at_motif motifs 0

theorem ahead_of_getElem? {walk : Walk} {motif : Motif}
    (h : walk.motifs[walk.index]? = some motif) :
    walk.ahead =
      (List.replicate (motif.times.toNat - walk.pass) motif.stitches).flatten.drop walk.position ++
        (walk.motifs.drop (walk.index + 1)).flatMap Motif.unfold := by
  obtain ⟨hlt, rfl⟩ := List.getElem?_eq_some_iff.1 h
  rw [ahead, List.drop_eq_getElem_cons hlt]

theorem stitchAt?_eq_some_iff (motif : Motif) (pass position : Nat) (stitch : Stitch) :
    stitchAt? motif pass position = some stitch ↔
      pass < motif.times.toNat ∧ motif.stitches[position]? = some stitch := by
  unfold stitchAt?
  split
  · rename_i hpass
    simp [hpass]
  · rename_i hpass
    simp [hpass]

theorem motifs_afterStitch (walk : Walk) (motif : Motif) :
    (walk.afterStitch motif).motifs = walk.motifs := by
  unfold afterStitch
  split <;> rfl

/-- The current stitch is the first of those ahead. -/
theorem ahead_afterStitch {walk : Walk} {motif : Motif} {stitch : Stitch}
    (hmotif : walk.motifs[walk.index]? = some motif)
    (hstitch : stitchAt? motif walk.pass walk.position = some stitch) :
    walk.ahead = stitch :: (walk.afterStitch motif).ahead := by
  obtain ⟨hpass, hget⟩ := (stitchAt?_eq_some_iff _ _ _ _).1 hstitch
  obtain ⟨hposition, rfl⟩ := List.getElem?_eq_some_iff.1 hget
  have hpasses : motif.times.toNat - walk.pass = motif.times.toNat - (walk.pass + 1) + 1 := by
    omega
  have hle : ∀ n ≤ motif.stitches.length,
      (List.replicate (motif.times.toNat - walk.pass) motif.stitches).flatten.drop n =
        motif.stitches.drop n ++
          (List.replicate (motif.times.toNat - (walk.pass + 1)) motif.stitches).flatten := by
    intro n hn
    rw [hpasses, List.replicate_succ, List.flatten_cons, List.drop_append_of_le_length hn]
  rw [ahead_of_getElem? hmotif, hle _ (by omega), List.drop_eq_getElem_cons hposition]
  rw [List.cons_append, List.cons_append]
  congr 1
  unfold afterStitch
  split
  · -- The pass ends, and the next one starts with nothing dropped.
    rename_i hend
    rw [@ahead_of_getElem? ⟨walk.motifs, walk.index, walk.pass + 1, 0⟩ motif hmotif, hend]
    simp
  · rw [@ahead_of_getElem? ⟨walk.motifs, walk.index, walk.pass, walk.position + 1⟩ motif hmotif]
    dsimp only
    rw [hle (walk.position + 1) (by omega)]

theorem inRange_afterStitch {walk : Walk} {motif : Motif} {stitch : Stitch}
    (hmotif : walk.motifs[walk.index]? = some motif)
    (hstitch : stitchAt? motif walk.pass walk.position = some stitch) :
    (walk.afterStitch motif).InRange := by
  obtain ⟨hpass, hget⟩ := (stitchAt?_eq_some_iff _ _ _ _).1 hstitch
  obtain ⟨hposition, -⟩ := List.getElem?_eq_some_iff.1 hget
  unfold afterStitch
  split
  · constructor
    · intro found hfound
      obtain rfl := Option.some.inj (hfound.symm.trans hmotif)
      exact hpass
    · intro _ _ h
      exact absurd h (Nat.lt_irrefl 0)
  · constructor
    · intro found hfound
      obtain rfl := Option.some.inj (hfound.symm.trans hmotif)
      exact Nat.le_of_lt hpass
    · intro found hfound _
      obtain rfl := Option.some.inj (hfound.symm.trans hmotif)
      dsimp only
      omega

/-- A motif without a stitch at the place of the walk has none left. -/
theorem ahead_of_stitchAt?_none {walk : Walk} {motif : Motif} (h : walk.InRange)
    (hmotif : walk.motifs[walk.index]? = some motif)
    (hstitch : stitchAt? motif walk.pass walk.position = none) :
    walk.ahead = ahead ⟨walk.motifs, walk.index + 1, 0, 0⟩ := by
  rw [ahead_of_getElem? hmotif, ahead_at_motif]
  suffices hnone : (List.replicate (motif.times.toNat - walk.pass)
      motif.stitches).flatten.drop walk.position = [] by
    rw [hnone, List.nil_append]
  by_cases hpass : walk.pass < motif.times.toNat
  · -- Only an empty motif has no stitch at the place of a walk in range.
    have hposition : motif.stitches.length ≤ walk.position := by
      simpa [stitchAt?, hpass] using hstitch
    have hzero : walk.position = 0 := by
      rcases Nat.eq_zero_or_pos walk.position with hzero | hpos
      · exact hzero
      · have hlt := h.position_lt motif hmotif hpos
        omega
    have hempty : motif.stitches = [] := List.eq_nil_of_length_eq_zero (by omega)
    simp [hempty]
  · rw [show motif.times.toNat - walk.pass = 0 by omega]
    simp

theorem ahead_of_next?_none {walk : Walk} (h : walk.InRange) (hnext : walk.next? = none) :
    walk.ahead = [] := by
  fun_induction next? walk with
  | case1 walk hmotif =>
      rw [ahead, List.drop_of_length_le (List.getElem?_eq_none_iff.1 hmotif)]
  | case2 => contradiction
  | case3 walk motif hmotif hstitch _ ih =>
      rw [ahead_of_stitchAt?_none h hmotif hstitch]
      exact ih (inRange_at_motif _ _) hnext

/-- A pull gives the first stitch ahead and leaves the others. -/
theorem ahead_of_next?_some {walk after : Walk} {stitch : Stitch} (h : walk.InRange)
    (hnext : walk.next? = some (stitch, after)) :
    walk.ahead = stitch :: after.ahead ∧ after.InRange := by
  fun_induction next? walk with
  | case1 => contradiction
  | case2 walk motif hmotif found hstitch =>
      obtain ⟨rfl, rfl⟩ := Prod.mk.inj (Option.some.inj hnext)
      exact ⟨ahead_afterStitch hmotif hstitch, inRange_afterStitch hmotif hstitch⟩
  | case3 walk motif hmotif hstitch _ ih =>
      rw [ahead_of_stitchAt?_none h hmotif hstitch]
      exact ih (inRange_at_motif _ _) hnext

end Walk

end CrochetShorthand
