import Mathlib
import RubberOS.Proofs.CheckedGraphic

/-! # Rectangles and the intervals of the plane

A rectangle that shows something is an interval of the product order on `ℤ × ℤ`, and every other one is the empty
interval. The union of rectangles is the supremum of their intervals, so a sequence of unions is a supremum over its
arguments. The sizes are the differences of `int`: an operation whose differences leave `int` has no result.
-/

namespace RubberOS.Soundness.Rectangles

open Model Model.Gui

/-! ## The interval of a rectangle -/

/-- The rectangle shows a point. -/
def Shown (r : Rect) : Prop := 0 < r.width ∧ 0 < r.height

instance (r : Rect) : Decidable (Shown r) := inferInstanceAs (Decidable (_ ∧ _))

/-- The interval between the corners. -/
def corners (r : Rect) (shown : Shown r) : NonemptyInterval (ℤ × ℤ) where
  fst := (r.x, r.y)
  snd := (r.x + r.width - 1, r.y + r.height - 1)
  fst_le_snd := by
    have width := shown.1
    have height := shown.2
    constructor <;> dsimp only <;> omega

def extent (r : Rect) : Interval (ℤ × ℤ) := if shown : Shown r then (corners r shown : Interval (ℤ × ℤ)) else ⊥

section Extents

variable {a b r : Rect} {x y : ℤ}

private theorem mem_extent : (x, y) ∈ extent r ↔ rectContains r x y = true := by
  rw [rectContains_iff, extent]
  split_ifs with shown
  · change ((r.x, r.y) ≤ (x, y) ∧ (x, y) ≤ (r.x + r.width - 1, r.y + r.height - 1)) ↔ _
    rw [Prod.mk_le_mk, Prod.mk_le_mk]
    omega
  · rw [Shown] at shown
    refine iff_of_false (Set.notMem_empty _) ?_
    omega

/-- Points decide the order of intervals. -/
private theorem extent_le_iff : extent a ≤ extent b ↔
    ∀ x y, rectContains a x y = true → rectContains b x y = true := by
  rw [← Interval.coe_subset_coe]
  constructor
  · intro subset x y inside
    exact mem_extent.mp (subset (mem_extent.mpr inside))
  · rintro points ⟨x, y⟩ inside
    exact mem_extent.mpr (points x y (mem_extent.mp inside))

end Extents

/-! ## The rectangle of an interval -/

/-- The value is one of `int`. -/
def IsInt (n : ℤ) : Prop := -2 ^ 31 ≤ n ∧ n < 2 ^ 31

instance (n : ℤ) : Decidable (IsInt n) := inferInstanceAs (Decidable (_ ∧ _))

/-- The fields of a rectangle and its two far edges are values of `int`. -/
structure Fits (r : Rect) : Prop where
  x : IsInt r.x
  y : IsInt r.y
  width : IsInt r.width
  height : IsInt r.height
  right : IsInt (r.x + r.width)
  bottom : IsInt (r.y + r.height)

/-- The sizes are not negative, so only a size of zero hides a rectangle. -/
structure Sized (r : Rect) : Prop where
  width : 0 ≤ r.width
  height : 0 ≤ r.height

/-- The rectangle of an interval, with the sizes in `int`; the empty interval keeps the rectangle from before. -/
def ofExtent (start : Rect) : Interval (ℤ × ℤ) → Option Rect
  | none => some start
  | some s => do
    let width ← Checked.int (s.snd.1 + 1 - s.fst.1)
    let height ← Checked.int (s.snd.2 + 1 - s.fst.2)
    return ⟨s.fst.1, s.fst.2, width, height⟩

/-- The points that a rectangle with edges in `int` can show. -/
def plane : NonemptyInterval (ℤ × ℤ) where
  fst := (-2 ^ 31, -2 ^ 31)
  snd := (2 ^ 31 - 2, 2 ^ 31 - 2)
  fst_le_snd := by decide

section Intervals

variable {a b r start acc u : Rect} {x y : ℤ} {e f : Interval (ℤ × ℤ)} {s : NonemptyInterval (ℤ × ℤ)}

private theorem Sized.shown_iff (sized : Sized r) : Shown r ↔ ¬(r.width = 0 ∨ r.height = 0) := by
  have width := sized.width
  have height := sized.height
  rw [Shown]
  omega

private theorem ofExtent_coe :
    ofExtent start s = some u ↔ IsInt (s.snd.1 + 1 - s.fst.1) ∧ IsInt (s.snd.2 + 1 - s.fst.2) ∧
    ⟨s.fst.1, s.fst.2, s.snd.1 + 1 - s.fst.1, s.snd.2 + 1 - s.fst.2⟩ = u := by
  change (Checked.int (s.snd.1 + 1 - s.fst.1) >>= fun width => Checked.int (s.snd.2 + 1 - s.fst.2) >>= fun height =>
    some (Rect.mk s.fst.1 s.fst.2 width height)) = some u ↔ _
  simp only [Option.bind_eq_bind, Option.bind_eq_some_iff, Checked.int_eq_some, Option.some.injEq]
  constructor
  · rintro ⟨_, ⟨width, rfl⟩, _, ⟨height, rfl⟩, same⟩
    exact ⟨width, height, same⟩
  · rintro ⟨width, height, same⟩
    exact ⟨_, ⟨width, rfl⟩, _, ⟨height, rfl⟩, same⟩

private theorem int_of {value : ℤ} (fits : IsInt value) : Checked.int value = some value := if_pos fits

private theorem extent_of_shown (shown : Shown r) : extent r = corners r shown := dif_pos shown

private theorem extent_of_not_shown (hidden : ¬Shown r) : extent r = ⊥ := dif_neg hidden

/-- The order of intervals, coordinate by coordinate. -/
private theorem coe_le_iff {t : NonemptyInterval (ℤ × ℤ)} : (s : Interval (ℤ × ℤ)) ≤ t ↔
    (t.fst.1 ≤ s.fst.1 ∧ t.fst.2 ≤ s.fst.2) ∧ s.snd.1 ≤ t.snd.1 ∧ s.snd.2 ≤ t.snd.2 := by
  rw [Interval.coe_le_coe, NonemptyInterval.le_def, Prod.le_def, Prod.le_def]

private theorem extent_le_coe_iff : extent r ≤ s ↔ (Shown r → s.fst.1 ≤ r.x ∧ s.fst.2 ≤ r.y ∧
    r.x + r.width ≤ s.snd.1 + 1 ∧ r.y + r.height ≤ s.snd.2 + 1) := by
  by_cases shown : Shown r
  · rw [extent_of_shown shown, coe_le_iff, imp_iff_right shown]
    dsimp only [corners]
    omega
  · rw [extent_of_not_shown shown]
    exact iff_of_true bot_le fun visible => absurd visible shown

private theorem extent_le_plane (fits : Fits r) : extent r ≤ plane := by
  obtain ⟨⟨x, _⟩, ⟨y, _⟩, _, _, ⟨_, right⟩, _, bottom⟩ := fits
  rw [extent_le_coe_iff]
  intro _
  dsimp only [plane]
  omega

private theorem edges_of_le_plane (inside : (s : Interval (ℤ × ℤ)) ≤ plane) :
    (IsInt s.fst.1 ∧ IsInt s.fst.2) ∧ IsInt (s.snd.1 + 1) ∧ IsInt (s.snd.2 + 1) := by
  rw [coe_le_iff] at inside
  have order := s.fst_le_snd
  rw [Prod.le_def] at order
  simp only [IsInt]
  dsimp only [plane] at inside
  omega

private theorem extent_ofExtent (hidden : e = ⊥ → ¬Shown start) (value : ofExtent start e = some u) : extent u = e := by
  cases e with
  | bot =>
    cases value
    exact extent_of_not_shown (hidden rfl)
  | coe s =>
    obtain ⟨_, _, rfl⟩ := ofExtent_coe.mp value
    have order := s.fst_le_snd
    rw [Prod.le_def] at order
    have shown : Shown ⟨s.fst.1, s.fst.2, s.snd.1 + 1 - s.fst.1, s.snd.2 + 1 - s.fst.2⟩ := by
      constructor <;> dsimp only <;> omega
    rw [extent_of_shown shown, Interval.coe_inj]
    apply NonemptyInterval.ext
    apply Prod.ext
    · rfl
    · apply Prod.ext <;> dsimp only [corners] <;> omega

private theorem ofExtent_extent (fits : Fits r) : ofExtent r (extent r) = some r := by
  by_cases shown : Shown r
  · rw [extent_of_shown shown, ofExtent_coe]
    have width : r.x + r.width - 1 + 1 - r.x = r.width := by omega
    have height : r.y + r.height - 1 + 1 - r.y = r.height := by omega
    dsimp only [corners]
    rw [width, height]
    exact ⟨fits.width, fits.height, rfl⟩
  · rw [extent_of_not_shown shown]
    rfl

/-- Where a larger interval has a rectangle, a smaller one does. -/
private theorem ofExtent_mono (less : e ≤ f) (value : ofExtent start f = some u) : ∃ v, ofExtent start e = some v := by
  cases e with
  | bot => exact ⟨start, rfl⟩
  | coe s =>
    cases f with
    | bot => exact absurd less (WithBot.not_coe_le_bot s)
    | coe t =>
      obtain ⟨width, height, _⟩ := ofExtent_coe.mp value
      have inside := coe_le_iff.mp less
      have order := s.fst_le_snd
      rw [Prod.le_def] at order
      rw [IsInt] at width height
      refine ⟨_, ofExtent_coe.mpr ⟨?_, ?_, rfl⟩⟩
      · rw [IsInt]
        omega
      · rw [IsInt]
        omega

private theorem fits_ofExtent (fits : Fits start) (sized : Sized start) (edges : e ≤ plane)
    (value : ofExtent start e = some u) : Fits u ∧ Sized u := by
  cases e with
  | bot =>
    cases value
    exact ⟨fits, sized⟩
  | coe s =>
    obtain ⟨width, height, rfl⟩ := ofExtent_coe.mp value
    obtain ⟨⟨x, y⟩, right, bottom⟩ := edges_of_le_plane edges
    have order := s.fst_le_snd
    rw [Prod.le_def] at order
    have right' : s.fst.1 + (s.snd.1 + 1 - s.fst.1) = s.snd.1 + 1 := by omega
    have bottom' : s.fst.2 + (s.snd.2 + 1 - s.fst.2) = s.snd.2 + 1 := by omega
    rw [← right'] at right
    rw [← bottom'] at bottom
    refine ⟨⟨x, y, width, height, right, bottom⟩, ?_, ?_⟩ <;> dsimp only <;> omega

/-- A union goes to the supremum of the intervals. -/
private theorem rectUnion_ofExtent (hidden : e = ⊥ → start.width = 0 ∨ start.height = 0) (edges : e ≤ plane)
    (value : ofExtent start e = some acc) (fits : Fits a) (sized : Sized a) :
    Checked.rectUnion acc a = ofExtent start (e ⊔ extent a) := by
  rw [Checked.rectUnion]
  by_cases shown : Shown a
  · rw [if_neg (sized.shown_iff.mp shown), extent_of_shown shown]
    cases e with
    | bot =>
      cases value
      have own := ofExtent_extent fits
      rw [extent_of_shown shown] at own
      rw [if_pos (hidden rfl), bot_sup_eq]
      exact own.symm
    | coe s =>
      obtain ⟨_, _, rfl⟩ := ofExtent_coe.mp value
      have order := s.fst_le_snd
      rw [Prod.le_def] at order
      obtain ⟨_, right, bottom⟩ := edges_of_le_plane edges
      have visible : ¬(s.snd.1 + 1 - s.fst.1 = 0 ∨ s.snd.2 + 1 - s.fst.2 = 0) := by omega
      have right' : s.fst.1 + (s.snd.1 + 1 - s.fst.1) = s.snd.1 + 1 := by omega
      have bottom' : s.fst.2 + (s.snd.2 + 1 - s.fst.2) = s.snd.2 + 1 := by omega
      have width : max s.snd.1 (a.x + a.width - 1) + 1 = max (s.snd.1 + 1) (a.x + a.width) := by omega
      have height : max s.snd.2 (a.y + a.height - 1) + 1 = max (s.snd.2 + 1) (a.y + a.height) := by omega
      rw [if_neg visible]
      dsimp only
      rw [right', bottom', int_of right, int_of bottom, int_of fits.right, int_of fits.bottom]
      change _ = (Checked.int (max s.snd.1 (a.x + a.width - 1) + 1 - min s.fst.1 a.x) >>= fun width =>
        Checked.int (max s.snd.2 (a.y + a.height - 1) + 1 - min s.fst.2 a.y) >>= fun height =>
        some (Rect.mk (min s.fst.1 a.x) (min s.fst.2 a.y) width height))
      rw [width, height]
      rfl
  · have none : a.width = 0 ∨ a.height = 0 := by
      by_contra some
      exact shown (sized.shown_iff.mpr some)
    rw [if_pos none, extent_of_not_shown shown, sup_bot_eq, value]

end Intervals

/-! ## Sequences of unions -/

/-- The least interval above an interval and those of the arguments. -/
def hull (e : Interval (ℤ × ℤ)) (args : List Rect) : Interval (ℤ × ℤ) := args.foldl (fun e a => e ⊔ extent a) e

/-- The arguments of a sequence of unions. -/
def Arguments (args : List Rect) : Prop := ∀ a ∈ args, Fits a ∧ Sized a

/-- No far edge of a rectangle that shows something lies `2 ^ 31` or more behind a near edge of another one. -/
def Close (args : List Rect) : Prop :=
  ∀ p ∈ args, ∀ q ∈ args, Shown p → Shown q → p.x + p.width - q.x < 2 ^ 31 ∧ p.y + p.height - q.y < 2 ^ 31

section Unions

variable {a b r start acc u : Rect} {args args' : List Rect} {x y : ℤ} {e f : Interval (ℤ × ℤ)}

private theorem hull_le_iff : hull e args ≤ f ↔ e ≤ f ∧ ∀ a ∈ args, extent a ≤ f := by
  induction args generalizing e with
  | nil => exact (and_iff_left (fun _ member => absurd member List.not_mem_nil)).symm
  | cons a args ih =>
    rw [hull, List.foldl_cons]
    change hull (e ⊔ extent a) args ≤ f ↔ _
    rw [ih, sup_le_iff, List.forall_mem_cons, and_assoc]

private theorem le_hull : e ≤ hull e args := (hull_le_iff.mp le_rfl).1

private theorem hull_perm (perm : args.Perm args') : hull e args = hull e args' :=
  perm.foldl_eq' (fun a _ b _ e => sup_right_comm e (extent a) (extent b)) e

/-- A sequence of unions has a result exactly when the sizes of the hull are values of `int`. -/
private theorem unions_ofExtent (hidden : e = ⊥ → start.width = 0 ∨ start.height = 0) (edges : e ≤ plane)
    (value : ofExtent start e = some acc) (arguments : Arguments args) :
    args.foldlM Checked.rectUnion acc = ofExtent start (hull e args) := by
  induction args generalizing e acc with
  | nil => exact value.symm
  | cons a args ih =>
    obtain ⟨⟨fits, sized⟩, later⟩ := List.forall_mem_cons.mp arguments
    have step := rectUnion_ofExtent hidden edges value fits sized
    have hidden' : e ⊔ extent a = ⊥ → start.width = 0 ∨ start.height = 0 := fun none => hidden (sup_eq_bot_iff.mp none).1
    have edges' := sup_le edges (extent_le_plane fits)
    have whole : hull e (a :: args) = hull (e ⊔ extent a) args := rfl
    rw [List.foldlM_cons, step, whole]
    cases next : ofExtent start (e ⊔ extent a) with
    | some acc' => exact ih hidden' edges' next later
    | none =>
      cases final : ofExtent start (hull (e ⊔ extent a) args) with
      | none => rfl
      | some u =>
        obtain ⟨v, some⟩ := ofExtent_mono le_hull final
        rw [next] at some
        cases some

private theorem hull_le_plane (edges : e ≤ plane) (arguments : Arguments args) : hull e args ≤ plane :=
  hull_le_iff.mpr ⟨edges, fun a member => extent_le_plane (arguments a member).1⟩

end Unions

/-! ## Points -/

/-- `rect_contains` computes no value outside `int` and returns true. -/
def Inside (r : Rect) (x y : ℤ) : Prop := Checked.rectContains r x y = some true

/-- The rectangle shows what each of the arguments shows, and every rectangle that does so shows what it shows. -/
structure Bounds (args : List Rect) (u : Rect) : Prop where
  upper : ∀ a ∈ args, ∀ x y, Inside a x y → Inside u x y
  least : ∀ r, Fits r → (∀ a ∈ args, ∀ x y, Inside a x y → Inside r x y) → ∀ x y, Inside u x y → Inside r x y

section Points

variable {a b r start u : Rect} {args : List Rect} {x y : ℤ}

private theorem rectContains_of_fits (fits : Fits r) (x y : ℤ) :
    Checked.rectContains r x y = some (rectContains r x y) := by
  obtain ⟨inside, ran⟩ : ∃ inside, Checked.rectContains r x y = some inside := by
    rw [Checked.rectContains, int_of fits.right, int_of fits.bottom]
    split
    · rw [Option.bind_eq_bind, Option.bind_some]
      split <;> exact ⟨_, rfl⟩
    · exact ⟨_, rfl⟩
  rw [ran, Checked.rectContains_value ran]

private theorem inside_iff (fits : Fits r) : Inside r x y ↔ rectContains r x y = true := by
  rw [Inside, rectContains_of_fits fits, Option.some.injEq]

private theorem extent_le_iff_inside (left : Fits a) (right : Fits b) :
    extent a ≤ extent b ↔ ∀ x y, Inside a x y → Inside b x y := by
  simp only [extent_le_iff, inside_iff left, inside_iff right]

private theorem rectIntersect_fits (left : Fits a) (right : Fits b) (ran : Checked.rectIntersect a b = some r) :
    Fits r := by
  obtain ⟨x, y, _, _, farX, farY⟩ := left
  obtain ⟨x', y', _, _, farX', farY'⟩ := right
  simp only [Checked.rectIntersect, Option.bind_eq_bind, Option.bind_eq_some_iff, Checked.int_eq_some] at ran
  obtain ⟨_, ⟨_, rfl⟩, _, ⟨_, rfl⟩, _, ⟨width, rfl⟩, _, ⟨_, rfl⟩, _, ⟨_, rfl⟩, _, ⟨height, rfl⟩, ran⟩ := ran
  obtain rfl := Option.some.inj ran
  simp only [IsInt] at x y farX farY x' y' farX' farY'
  split_ifs with none <;> constructor <;> rw [IsInt] <;> dsimp only <;> omega

private theorem extent_eq_bot_iff (sized : Sized r) : extent r = ⊥ ↔ r.width = 0 ∨ r.height = 0 := by
  constructor
  · intro none
    by_contra some
    rw [extent_of_shown (sized.shown_iff.mpr some)] at none
    cases none
  · intro hidden
    exact extent_of_not_shown fun shown => sized.shown_iff.mp shown hidden

private theorem unions_eq (fits : Fits start) (sized : Sized start) (arguments : Arguments args) :
    args.foldlM Checked.rectUnion start = ofExtent start (hull (extent start) args) :=
  unions_ofExtent (extent_eq_bot_iff sized).mp (extent_le_plane fits) (ofExtent_extent fits) arguments

private theorem hull_extent_le_iff : hull (extent start) args ≤ f ↔ ∀ p ∈ start :: args, extent p ≤ f := by
  rw [hull_le_iff, List.forall_mem_cons]

/-- The sizes of the hull are values of `int` exactly when the arguments are close. -/
private theorem unions_some_iff (fits : Fits start) (sized : Sized start) (arguments : Arguments args) :
    (∃ u, args.foldlM Checked.rectUnion start = some u) ↔ Close (start :: args) := by
  have all : ∀ p ∈ start :: args, Fits p := List.forall_mem_cons.mpr ⟨fits, fun a member => (arguments a member).1⟩
  have below := hull_extent_le_iff.mp (le_refl (hull (extent start) args))
  have edges := hull_le_plane (extent_le_plane fits) arguments
  rw [unions_eq fits sized arguments]
  cases span : hull (extent start) args with
  | bot =>
    refine iff_of_true ⟨start, rfl⟩ fun p member q _ shown => ?_
    have none := below p member
    rw [span, extent_of_shown shown] at none
    exact absurd none (WithBot.not_coe_le_bot _)
  | coe s =>
    rw [span] at below edges
    constructor
    · rintro ⟨u, value⟩ p left q right shown shown'
      obtain ⟨⟨_, width⟩, ⟨_, height⟩, _⟩ := ofExtent_coe.mp value
      have far := extent_le_coe_iff.mp (below p left) shown
      have near := extent_le_coe_iff.mp (below q right) shown'
      omega
    · intro close
      obtain ⟨_, ⟨_, right⟩, _, bottom⟩ := edges_of_le_plane edges
      have order := s.fst_le_snd
      rw [Prod.le_def] at order
      -- the far edges of the hull against each near edge, then its near edges against its far ones
      have far : ∀ q ∈ start :: args, Shown q → s.snd.1 + 1 - q.x < 2 ^ 31 ∧ s.snd.2 + 1 - q.y < 2 ^ 31 := by
        intro q member shown
        obtain ⟨⟨x, _⟩, ⟨y, _⟩, _⟩ := all q member
        have room : ((-2 ^ 31, -2 ^ 31) : ℤ × ℤ) ≤ (q.x + 2 ^ 31 - 2, q.y + 2 ^ 31 - 2) := by
          constructor <;> dsimp only <;> omega
        have inside : hull (extent start) args ≤ NonemptyInterval.mk (_, _) room := by
          refine hull_extent_le_iff.mpr fun p member' => extent_le_coe_iff.mpr fun shown' => ?_
          obtain ⟨⟨x', _⟩, ⟨y', _⟩, _⟩ := all p member'
          have limit := close p member' q member shown' shown
          dsimp only
          omega
        rw [span, coe_le_iff] at inside
        dsimp only at inside
        omega
      have room : ((s.snd.1 + 2 - 2 ^ 31, s.snd.2 + 2 - 2 ^ 31) : ℤ × ℤ) ≤ (2 ^ 31 - 2, 2 ^ 31 - 2) := by
        constructor <;> dsimp only <;> omega
      have inside : hull (extent start) args ≤ NonemptyInterval.mk (_, _) room := by
        refine hull_extent_le_iff.mpr fun q member => extent_le_coe_iff.mpr fun shown => ?_
        have limit := far q member shown
        obtain ⟨_, _, _, _, ⟨_, right'⟩, _, bottom'⟩ := all q member
        dsimp only
        omega
      rw [span, coe_le_iff] at inside
      dsimp only at inside
      refine ⟨_, ofExtent_coe.mpr ⟨?_, ?_, rfl⟩⟩ <;> rw [IsInt] <;> omega

/-- The result of a sequence of unions spans the hull of its arguments. -/
private theorem unions_extent (fits : Fits start) (sized : Sized start) (arguments : Arguments args)
    (ran : args.foldlM Checked.rectUnion start = some u) : Fits u ∧ extent u = hull (extent start) args := by
  rw [unions_eq fits sized arguments] at ran
  have edges := hull_le_plane (extent_le_plane fits) arguments
  have above : extent start ≤ hull (extent start) args := le_hull
  refine ⟨(fits_ofExtent fits sized edges ran).1, extent_ofExtent ?_ ran⟩
  intro none shown
  have hidden := (extent_eq_bot_iff sized).mp (le_bot_iff.mp (none ▸ above))
  exact sized.shown_iff.mp shown hidden

private theorem unions_bounds (fits : Fits start) (sized : Sized start) (arguments : Arguments args)
    (ran : args.foldlM Checked.rectUnion start = some u) : Bounds (start :: args) u := by
  obtain ⟨result, extent⟩ := unions_extent fits sized arguments ran
  have all : ∀ a ∈ start :: args, Fits a := List.forall_mem_cons.mpr ⟨fits, fun a member => (arguments a member).1⟩
  have bounded := hull_le_iff.mp (le_refl (hull (Rectangles.extent start) args))
  constructor
  · intro a member
    rw [← extent_le_iff_inside (all a member) result, extent]
    rcases List.mem_cons.mp member with rfl | member
    · exact bounded.1
    · exact bounded.2 a member
  · intro r other above
    rw [← extent_le_iff_inside result other, extent, hull_le_iff]
    constructor
    · exact (extent_le_iff_inside fits other).mpr (above start List.mem_cons_self)
    · intro a member
      have later := List.mem_cons_of_mem start member
      exact (extent_le_iff_inside (all a later) other).mpr (above a later)

/-- A rectangle that shows nothing does not matter for a bounding box. -/
private theorem Bounds.tail (bounds : Bounds (a :: args) u) (hidden : extent a = ⊥) : Bounds args u := by
  have never : ∀ x y, ¬Inside a x y := by
    intro x y inside
    have shows : (x, y) ∈ extent a := mem_extent.mpr (Checked.rectContains_value inside).symm
    rw [hidden] at shows
    exact shows
  constructor
  · exact fun b member => bounds.upper b (List.mem_cons_of_mem a member)
  · intro r fits above
    exact bounds.least r fits (List.forall_mem_cons.mpr ⟨fun x y inside => absurd inside (never x y), above⟩)

/-- `rect_intersect` has a result exactly when the two differences are values of `int`. -/
private theorem rectIntersect_some_iff (left : Fits a) (right : Fits b) : (∃ r, Checked.rectIntersect a b = some r) ↔
    IsInt (min (a.x + a.width) (b.x + b.width) - max a.x b.x) ∧
    IsInt (min (a.y + a.height) (b.y + b.height) - max a.y b.y) := by
  rw [Checked.rectIntersect, int_of left.right, int_of left.bottom, int_of right.right, int_of right.bottom]
  simp only [Option.bind_eq_bind, Option.bind_some, Option.bind_eq_some_iff, Checked.int_eq_some]
  constructor
  · rintro ⟨r, _, ⟨width, rfl⟩, _, ⟨height, rfl⟩, _⟩
    exact ⟨width, height⟩
  · rintro ⟨width, height⟩
    exact ⟨_, _, ⟨width, rfl⟩, _, ⟨height, rfl⟩, rfl⟩

/-- Where the differences are values of `int`, a point lies in the intersection exactly when it lies in both
rectangles, the union of two rectangles is their bounding box, and a sequence of unions gives the bounding box of its
arguments, the same in every order. From an empty rectangle it is the box of the arguments alone. -/
theorem rectangle_laws :
    (∀ a b, Fits a → Fits b →
      ((∃ r, Checked.rectIntersect a b = some r) ↔ IsInt (min (a.x + a.width) (b.x + b.width) - max a.x b.x) ∧
        IsInt (min (a.y + a.height) (b.y + b.height) - max a.y b.y)) ∧
      ∀ r, Checked.rectIntersect a b = some r → ∀ x y, Inside r x y ↔ Inside a x y ∧ Inside b x y) ∧
    (∀ a b, Fits a → Sized a → Fits b → Sized b →
      ((∃ u, Checked.rectUnion a b = some u) ↔ Close [a, b]) ∧
      ∀ u, Checked.rectUnion a b = some u → Bounds [a, b] u) ∧
    ∀ start args, Fits start → Sized start → Arguments args →
      ((∃ u, args.foldlM Checked.rectUnion start = some u) ↔ Close (start :: args)) ∧
      ∀ u, args.foldlM Checked.rectUnion start = some u → Bounds (start :: args) u ∧
        (start.width = 0 ∨ start.height = 0 → Bounds args u) ∧
        ∀ args', args.Perm args' → args'.foldlM Checked.rectUnion start = some u := by
  refine ⟨fun a b left right => ⟨rectIntersect_some_iff left right, fun r ran x y => ?_⟩,
    fun a b left leftSized right rightSized => ?_, fun start args fits sized arguments => ?_⟩
  · rw [inside_iff left, inside_iff right, inside_iff (rectIntersect_fits left right ran), Checked.rectIntersect_value ran]
    exact rectContains_intersect
  · have single : Arguments [b] := List.forall_mem_singleton.mpr ⟨right, rightSized⟩
    have once : [b].foldlM Checked.rectUnion a = Checked.rectUnion a b := by rw [List.foldlM_cons]; exact bind_pure _
    rw [← once]
    exact ⟨unions_some_iff left leftSized single, fun u ran => unions_bounds left leftSized single ran⟩
  · refine ⟨unions_some_iff fits sized arguments, fun u ran => ?_⟩
    have bounds := unions_bounds fits sized arguments ran
    refine ⟨bounds, fun hidden => bounds.tail ((extent_eq_bot_iff sized).mpr hidden), fun args' perm => ?_⟩
    have arguments' : Arguments args' := fun b member => arguments b (perm.mem_iff.mpr member)
    rw [unions_eq fits sized arguments', ← hull_perm perm, ← unions_eq fits sized arguments, ran]

/-- Two damaged areas and an empty one, gathered from an empty rectangle. -/
theorem rectangle_laws_damage : Bounds [⟨10, 10, 5, 5⟩, ⟨0, 0, 0, 7⟩, ⟨20, 0, 3, 3⟩] ⟨10, 0, 13, 15⟩ := by
  have fits : Fits ⟨0, 0, 0, 0⟩ := by constructor <;> decide
  have arguments : Arguments [⟨10, 10, 5, 5⟩, ⟨0, 0, 0, 7⟩, ⟨20, 0, 3, 3⟩] := by
    refine List.forall_mem_cons.mpr ⟨?_, List.forall_mem_cons.mpr ⟨?_, List.forall_mem_singleton.mpr ?_⟩⟩
    all_goals refine ⟨?_, ?_⟩ <;> constructor <;> decide
  exact ((rectangle_laws.2.2 ⟨0, 0, 0, 0⟩ _ fits ⟨le_rfl, le_rfl⟩ arguments).2 _ rfl).2.1 (.inl rfl)

/-- Two rectangles of one pixel at the two ends of `int`: neither their intersection nor their union has sizes that
`int` holds. -/
theorem ends_of_int : Fits ⟨-2 ^ 31, 0, 1, 1⟩ ∧ Fits ⟨2 ^ 31 - 2, 0, 1, 1⟩ ∧
    ¬(∃ r, Checked.rectIntersect ⟨-2 ^ 31, 0, 1, 1⟩ ⟨2 ^ 31 - 2, 0, 1, 1⟩ = some r) ∧
    ¬∃ u, Checked.rectUnion ⟨-2 ^ 31, 0, 1, 1⟩ ⟨2 ^ 31 - 2, 0, 1, 1⟩ = some u := by
  have first : Fits ⟨-2 ^ 31, 0, 1, 1⟩ := by constructor <;> decide
  have second : Fits ⟨2 ^ 31 - 2, 0, 1, 1⟩ := by constructor <;> decide
  refine ⟨first, second, ?_, ?_⟩
  · rintro ⟨r, ran⟩
    cases ran
  · rintro ⟨u, ran⟩
    cases ran

end Points

end RubberOS.Soundness.Rectangles
