import CrochetShorthand.Stitch

/-!
# Motifs

A motif is a run of stitches worked a number of times.  A walk goes through a list of
motifs stitch by stitch, so that a motif worked four thousand million times costs no more
than its own entry.

The walk stands at a motif (`index`), in one of its passes (`pass`), before one of its
stitches (`position`).  Motifs that are worked no time, or hold no stitch, are stepped over.
`left` counts the stitches that are still to come, and `next?_left` says that every stitch
taken makes it smaller.
-/

namespace CrochetShorthand

/-- A run of stitches worked `times` times. -/
structure Motif where
  stitches : List Stitch
  times : UInt32
deriving DecidableEq, Repr

namespace Motif

/-- How many stitches a motif gives. -/
def count (motif : Motif) : Nat :=
  motif.stitches.length * motif.times.toNat

/-- How many stitches the motifs give together. -/
def countAll : List Motif → Nat
  | [] => 0
  | motif :: rest => motif.count + countAll rest

/-- The length of a motif: how many stitches it gives, as far as a word of 64 bits holds it. -/
def length (motif : Motif) : Nat :=
  motif.count % UInt64.size

/-- Whether the length of a motif is zero. -/
def isEmpty (motif : Motif) : Bool :=
  motif.length == 0

/-- The lengths of the motifs together, in a word of 64 bits. -/
def totalLength : List Motif → Nat
  | [] => 0
  | motif :: rest => (motif.length + totalLength rest) % UInt64.size

/-- All stitches of a motif, written out. -/
def unfold (motif : Motif) : List Stitch :=
  (List.replicate motif.times.toNat motif.stitches).flatten

end Motif

/-- A place in a list of motifs. -/
structure Walk where
  motifs : List Motif
  index : Nat
  pass : Nat
  position : Nat
deriving DecidableEq, Repr

namespace Walk

/-- The walk before the first stitch of the first motif. -/
def start (motifs : List Motif) : Walk :=
  ⟨motifs, 0, 0, 0⟩

/-- The stitch of a motif that stands at `position` in its pass number `pass`. -/
def stitchAt? (motif : Motif) (pass position : Nat) : Option Stitch :=
  if pass < motif.times.toNat then motif.stitches[position]? else none

/-- The place after one stitch of the current motif: the next stitch of the pass, or the start
of the next pass. -/
def afterStitch (walk : Walk) (motif : Motif) : Walk :=
  if walk.position + 1 = motif.stitches.length then
    ⟨walk.motifs, walk.index, walk.pass + 1, 0⟩
  else
    ⟨walk.motifs, walk.index, walk.pass, walk.position + 1⟩

/-- The next stitch and the place after it. -/
def next? (walk : Walk) : Option (Stitch × Walk) :=
  match hmotif : walk.motifs[walk.index]? with
  | none => none
  | some motif =>
      match stitchAt? motif walk.pass walk.position with
      | some stitch => some (stitch, walk.afterStitch motif)
      | none =>
          have := (List.getElem?_eq_some_iff.1 hmotif).1
          next? ⟨walk.motifs, walk.index + 1, 0, 0⟩
termination_by walk.motifs.length - walk.index

/-- How many stitches are still to come. -/
def left (walk : Walk) : Nat :=
  match walk.motifs.drop walk.index with
  | [] => 0
  | motif :: later =>
      (motif.times.toNat - walk.pass) * motif.stitches.length - walk.position +
        Motif.countAll later

theorem left_start (motifs : List Motif) : (start motifs).left = Motif.countAll motifs := by
  cases motifs with
  | nil => rfl
  | cons motif later =>
      simp [left, start, Motif.countAll, Motif.count, Nat.mul_comm]

theorem left_eq_of_getElem? {walk : Walk} {motif : Motif}
    (h : walk.motifs[walk.index]? = some motif) :
    walk.left = (motif.times.toNat - walk.pass) * motif.stitches.length - walk.position +
      Motif.countAll (walk.motifs.drop (walk.index + 1)) := by
  obtain ⟨hlt, rfl⟩ := List.getElem?_eq_some_iff.1 h
  rw [left, List.drop_eq_getElem_cons hlt]

/-- A place at the start of a motif has all the stitches from there on to come. -/
theorem left_at_motif (motifs : List Motif) (index : Nat) :
    (Walk.mk motifs index 0 0).left = Motif.countAll (motifs.drop index) := by
  cases hdrop : motifs.drop index with
  | nil => simp [left, hdrop, Motif.countAll]
  | cons motif later =>
      simp [left, hdrop, Motif.countAll, Motif.count, Nat.mul_comm]

/-- A stitch of the current motif leaves less to come. -/
theorem left_afterStitch {walk : Walk} {motif : Motif} {stitch : Stitch}
    (hmotif : walk.motifs[walk.index]? = some motif)
    (hstitch : stitchAt? motif walk.pass walk.position = some stitch) :
    (walk.afterStitch motif).left < walk.left := by
  obtain ⟨hpass, hposition⟩ : walk.pass < motif.times.toNat ∧
      walk.position < motif.stitches.length := by
    unfold stitchAt? at hstitch
    split at hstitch
    · exact ⟨by assumption, (List.getElem?_eq_some_iff.1 hstitch).1⟩
    · contradiction
  have hone : motif.stitches.length ≤
      (motif.times.toNat - walk.pass) * motif.stitches.length :=
    Nat.le_mul_of_pos_left _ (by omega)
  rw [left_eq_of_getElem? hmotif]
  unfold afterStitch
  split
  · rw [@left_eq_of_getElem? ⟨walk.motifs, walk.index, walk.pass + 1, 0⟩ motif hmotif]
    have hpasses : (motif.times.toNat - (walk.pass + 1)) * motif.stitches.length =
        (motif.times.toNat - walk.pass) * motif.stitches.length - motif.stitches.length := by
      rw [← Nat.sub_sub, Nat.sub_mul, Nat.one_mul]
    dsimp only
    omega
  · rw [@left_eq_of_getElem? ⟨walk.motifs, walk.index, walk.pass, walk.position + 1⟩ motif
      hmotif]
    dsimp only
    omega

/-- Every stitch taken leaves less to come. -/
theorem next?_left {walk after : Walk} {stitch : Stitch}
    (h : walk.next? = some (stitch, after)) : after.left < walk.left := by
  fun_induction next? walk with
  | case1 => contradiction
  | case2 walk motif hmotif found hstitch =>
      obtain ⟨rfl, rfl⟩ := Prod.mk.inj (Option.some.inj h)
      exact left_afterStitch hmotif hstitch
  | case3 walk motif hmotif _ _ ih =>
      have hrest := ih h
      rw [left_at_motif] at hrest
      rw [left_eq_of_getElem? hmotif]
      omega

/-- At most `count` stitches from here, and the place after them. -/
def take : Nat → Walk → List Stitch × Walk
  | 0, walk => ([], walk)
  | count + 1, walk =>
      match walk.next? with
      | none => ([], walk)
      | some (stitch, after) =>
          let taken := take count after
          (stitch :: taken.1, taken.2)

end Walk

end CrochetShorthand
