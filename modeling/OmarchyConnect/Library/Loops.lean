/-
# Checked loops over buffers

Reading, writing and cutting a list panics when an index is out of range. `Yields` says
that a checked computation does not panic, and what holds of its value. A counting loop
yields what each of its turns keeps. `Filled` is a plane that is stored row after row
and has its marked cells written.
-/

import Mathlib.Data.List.Basic
import Mathlib.Tactic.Ring

namespace OmarchyConnect.Library.Loops

/-- What a checked operation panics about. -/
inductive Panic
  | index
  | slice
  | split
  | length
  deriving DecidableEq

/-- A computation that may panic. -/
abbrev Checked := Except Panic

variable {α β σ : Type}

/-! ## Total correctness -/

/-- The computation does not panic, and its value has the property. -/
def Yields (result : Checked α) (P : α → Prop) : Prop :=
  ∃ value, result = .ok value ∧ P value

namespace Yields

variable {P Q : α → Prop}

/-- A value yields what holds of it. -/
theorem ok {value : α} (h : P value) : Yields (.ok value) P := ⟨value, rfl, h⟩

/-- Steps yield one after another. -/
theorem bind {result : Checked α} {rest : α → Checked β} {R : β → Prop}
    (hresult : Yields result P) (hrest : ∀ value, P value → Yields (rest value) R) :
    Yields (result >>= rest) R := by
  obtain ⟨value, rfl, hvalue⟩ := hresult
  exact hrest value hvalue

/-- What is yielded may be weakened. -/
theorem mono {result : Checked α} (hresult : Yields result P)
    (himp : ∀ value, P value → Q value) : Yields result Q := by
  obtain ⟨value, hvalue, hP⟩ := hresult
  exact ⟨value, hvalue, himp value hP⟩

end Yields

/-- `for i in 0..n`, with the loop's mutable variables as the state. -/
def forRange (turn : ℕ → σ → Checked σ) : ℕ → σ → Checked σ
  | 0, state => .ok state
  | n + 1, state => forRange turn n state >>= turn n

/-- The rule of the counting loop: what holds at the start and is kept by each turn
holds at the end. The invariant knows the number of turns taken. -/
theorem forRange_yields (Inv : ℕ → σ → Prop) {turn : ℕ → σ → Checked σ} {n : ℕ} {state : σ}
    (hstart : Inv 0 state)
    (hturn : ∀ i < n, ∀ state, Inv i state → Yields (turn i state) (Inv (i + 1))) :
    Yields (forRange turn n state) (Inv n) := by
  induction n with
  | zero => exact .ok hstart
  | succ n ih =>
      have hearlier := ih fun i hi => hturn i (Nat.lt_succ_of_lt hi)
      exact hearlier.bind (hturn n (Nat.lt_succ_self n))

/-- The rule of two nested counting loops. The invariant knows the row and the column. -/
theorem forRange_forRange_yields (Inv : ℕ → ℕ → σ → Prop) {turn : ℕ → ℕ → σ → Checked σ}
    {n m : ℕ} {state : σ} (hstart : Inv 0 0 state)
    (hturn : ∀ row < n, ∀ col < m, ∀ state, Inv row col state →
      Yields (turn row col state) (Inv row (col + 1)))
    (hnext : ∀ row state, Inv row m state → Inv (row + 1) 0 state) :
    Yields (forRange (fun row => forRange (turn row) m) n state) (Inv n 0) := by
  apply forRange_yields (fun row => Inv row 0) hstart
  intro row hrow state hstate
  have hrowDone : Yields (forRange (turn row) m state) (Inv row m) :=
    forRange_yields (Inv row) hstate (hturn row hrow)
  exact hrowDone.mono (hnext row)

/-- The rule of a list of events: what each step keeps holds at the end. -/
theorem foldlM_yields (Inv : σ → Prop) {step : σ → α → Checked σ} {state : σ} (hstart : Inv state)
    (hstep : ∀ state event, Inv state → Yields (step state event) Inv) (events : List α) :
    Yields (events.foldlM step state) Inv := by
  induction events generalizing state with
  | nil => exact .ok hstart
  | cons event events ih =>
      rw [List.foldlM_cons]
      exact (hstep state event hstart).bind fun next hnext => ih hnext

/-- Mapping a computation that yields over a list yields for each item. -/
theorem mapM_yields (R : α → β → Prop) {f : α → Checked β} {xs : List α}
    (h : ∀ x ∈ xs, Yields (f x) (R x)) : Yields (xs.mapM f) (List.Forall₂ R xs) := by
  induction xs with
  | nil => exact .ok .nil
  | cons x xs ih =>
      rw [List.mapM_cons]
      refine (h x List.mem_cons_self).bind fun y hy => ?_
      exact (ih fun x hx => h x (List.mem_cons_of_mem _ hx)).bind fun ys hys => .ok (.cons hy hys)

/-! ## Buffers -/

/-- `xs[i]`, with some value behind the end. -/
def nth [Inhabited α] (xs : List α) (i : ℕ) : α := xs.getD i default

section nth

variable [Inhabited α]

/-- Inside of a list `nth` is the item. -/
theorem nth_eq_getElem {xs : List α} {i : ℕ} (h : i < xs.length) : nth xs i = xs[i] := by
  simp [nth, h]

/-- Items of the first part keep their places. -/
theorem nth_append_left {xs : List α} (ys : List α) {i : ℕ} (h : i < xs.length) :
    nth (xs ++ ys) i = nth xs i := by
  simp [nth, List.getElem?_append_left h]

/-- Items of the second part are moved behind the first. -/
theorem nth_append_right (xs ys : List α) (i : ℕ) :
    nth (xs ++ ys) (xs.length + i) = nth ys i := by
  simp [nth, List.getElem?_append_right]

/-- Items behind a cut are moved to the front. -/
theorem nth_drop (xs : List α) (start i : ℕ) : nth (xs.drop start) i = nth xs (start + i) := by
  simp [nth]

/-- Items in front of a cut keep their places. -/
theorem nth_take {xs : List α} {n i : ℕ} (h : i < n) : nth (xs.take n) i = nth xs i := by
  simp [nth, h]

/-- All items of a replicated list are the same. -/
theorem nth_replicate {n i : ℕ} (h : i < n) (x : α) : nth (List.replicate n x) i = x := by
  simp [nth, h]

/-- Writing changes one item. -/
theorem nth_set {xs : List α} {i : ℕ} (h : i < xs.length) (x : α) (j : ℕ) :
    nth (xs.set i x) j = if i = j then x else nth xs j := by
  unfold nth
  rw [List.getD_eq_getElem?_getD, List.getElem?_set]
  split_ifs with heq
  · simp
  · simp

/-- Lists of one length are equal when they agree at every index. -/
theorem ext_nth {xs ys : List α} (hlength : xs.length = ys.length)
    (h : ∀ i < xs.length, nth xs i = nth ys i) : xs = ys := by
  apply List.ext_getElem hlength
  intro i hx hy
  rw [← nth_eq_getElem hx, ← nth_eq_getElem hy]
  exact h i hx

end nth

/-- `xs[i]`. -/
def read (xs : List α) (i : ℕ) : Checked α :=
  match xs[i]? with
  | some x => .ok x
  | none => .error .index

/-- `xs[i] = x`. -/
def write (xs : List α) (i : ℕ) (x : α) : Checked (List α) :=
  if i < xs.length then .ok (xs.set i x) else .error .index

/-- `xs[start..stop]`. -/
def slice (xs : List α) (start stop : ℕ) : Checked (List α) :=
  if start ≤ stop ∧ stop ≤ xs.length then .ok ((xs.drop start).take (stop - start))
  else .error .slice

/-- `xs.split_at(mid)`. -/
def splitAt (xs : List α) (mid : ℕ) : Checked (List α × List α) :=
  if mid ≤ xs.length then .ok (xs.take mid, xs.drop mid) else .error .split

/-- `xs[start..stop].copy_from_slice(src)`. -/
def copyInto (xs : List α) (start stop : ℕ) (src : List α) : Checked (List α) :=
  if start ≤ stop ∧ stop ≤ xs.length then
    if src.length = stop - start then .ok (xs.take start ++ src ++ xs.drop stop)
    else .error .length
  else .error .slice

/-- `xs[start..stop].swap_with_slice(&mut ys[..count])`. -/
def swapWithSlice (xs : List α) (start stop : ℕ) (ys : List α) (count : ℕ) :
    Checked (List α × List α) := do
  let part ← slice xs start stop
  let other ← slice ys 0 count
  let swapped ← copyInto xs start stop other
  let swapped' ← copyInto ys 0 count part
  .ok (swapped, swapped')

/-- A part that lies inside of a list has its length. -/
theorem length_slice {xs : List α} {start count : ℕ} (h : start + count ≤ xs.length) :
    ((xs.drop start).take count).length = count := by
  rw [List.length_take, List.length_drop]
  omega

section Specs

variable [Inhabited α]

/-- Reading inside of a list does not panic. -/
theorem read_eq {xs : List α} {i : ℕ} (h : i < xs.length) : read xs i = .ok (nth xs i) := by
  simp [read, h, nth_eq_getElem h]

/-- A slice inside of a list does not panic, and has the items of its range. -/
theorem slice_yields {xs : List α} {start stop : ℕ} (hle : start ≤ stop)
    (hstop : stop ≤ xs.length) :
    Yields (slice xs start stop) fun part =>
      part.length = stop - start ∧ ∀ i < stop - start, nth part i = nth xs (start + i) := by
  rw [slice, if_pos ⟨hle, hstop⟩]
  refine .ok ⟨length_slice (by omega), fun i hi => ?_⟩
  rw [nth_take hi, nth_drop]

/-- Splitting inside of a list does not panic, and has the items of the two parts. -/
theorem splitAt_yields {xs : List α} {mid : ℕ} (h : mid ≤ xs.length) :
    Yields (splitAt xs mid) fun (front, back) =>
      front.length = mid ∧ back.length = xs.length - mid ∧
        (∀ i < mid, nth front i = nth xs i) ∧ ∀ i, nth back i = nth xs (mid + i) := by
  rw [splitAt, if_pos h]
  refine .ok ⟨?_, List.length_drop, fun i hi => nth_take hi, fun i => nth_drop xs mid i⟩
  rw [List.length_take]
  exact Nat.min_eq_left h

/-- Copying into a range of the same length changes just the items of the range. -/
theorem copyInto_yields {xs src : List α} {start stop : ℕ} (hle : start ≤ stop)
    (hstop : stop ≤ xs.length) (hlength : src.length = stop - start) :
    Yields (copyInto xs start stop src) fun out =>
      out.length = xs.length ∧ ∀ i, nth out i =
        if start ≤ i ∧ i < stop then nth src (i - start) else nth xs i := by
  have hfront : (xs.take start).length = start := by
    rw [List.length_take]
    omega
  rw [copyInto, if_pos ⟨hle, hstop⟩, if_pos hlength, List.append_assoc]
  refine .ok ⟨?_, fun i => ?_⟩
  · simp only [List.length_append, List.length_drop]
    omega
  · by_cases hbefore : i < start
    · rw [if_neg (by omega), nth_append_left _ (by omega), nth_take hbefore]
    obtain ⟨j, rfl⟩ := Nat.exists_eq_add_of_le (Nat.not_lt.mp hbefore)
    have hskip := nth_append_right (xs.take start) (src ++ xs.drop stop) j
    rw [hfront] at hskip
    rw [hskip, Nat.add_sub_cancel_left]
    by_cases hinside : start + j < stop
    · rw [if_pos ⟨Nat.le_add_right _ _, hinside⟩, nth_append_left _ (by omega)]
    · obtain ⟨k, hk⟩ := Nat.exists_eq_add_of_le (Nat.not_lt.mp hinside)
      have hj : j = src.length + k := by omega
      rw [if_neg (fun h => hinside h.2), hj, nth_append_right, nth_drop, ← hj, hk]

/-- Swapping two ranges of the same length exchanges their items and changes no others. -/
theorem swapWithSlice_yields {xs ys : List α} {start stop count : ℕ} (hle : start ≤ stop)
    (hstop : stop ≤ xs.length) (hcount : count ≤ ys.length) (hsame : count = stop - start) :
    Yields (swapWithSlice xs start stop ys count) fun (swapped, swapped') =>
      swapped.length = xs.length ∧ swapped'.length = ys.length ∧
        (∀ i, nth swapped i = if start ≤ i ∧ i < stop then nth ys (i - start) else nth xs i) ∧
        ∀ i, nth swapped' i = if i < count then nth xs (start + i) else nth ys i := by
  refine (slice_yields hle hstop).bind fun part ⟨hpart, hpartCells⟩ => ?_
  refine (slice_yields (Nat.zero_le count) hcount).bind fun other ⟨hother, hotherCells⟩ => ?_
  refine (copyInto_yields hle hstop (by omega)).bind fun swapped ⟨hswapped, hcells⟩ => ?_
  refine (copyInto_yields (Nat.zero_le count) hcount (by omega)).bind
    fun swapped' ⟨hswapped', hcells'⟩ => ?_
  refine .ok ⟨hswapped, hswapped', fun i => ?_, fun i => ?_⟩
  · rw [hcells]
    split_ifs with hinside
    · rw [hotherCells _ (by omega), Nat.zero_add]
    · rfl
  · rw [hcells']
    simp only [Nat.zero_le, true_and, Nat.sub_zero]
    split_ifs with hinside
    · exact hpartCells i (by omega)
    · rfl

end Specs

/-- `xs[start..]`. -/
theorem slice_to_end {xs : List α} {start : ℕ} (h : start ≤ xs.length) :
    slice xs start xs.length = .ok (xs.drop start) := by
  rw [slice, if_pos ⟨h, le_rfl⟩, List.take_of_length_le (by rw [List.length_drop])]

/-! ## Planes -/

/-- The cells of a plane lie inside of it. -/
theorem cell_lt {w h r c : ℕ} (hr : r < h) (hc : c < w) : r * w + c < w * h := by
  calc r * w + c < r * w + w := Nat.add_lt_add_left hc _
    _ = w * (r + 1) := by ring
    _ ≤ w * h := Nat.mul_le_mul_left w hr

/-- Two cells of a plane lie at different places. -/
theorem cell_inj {w r c r' c' : ℕ} (hc : c < w) (hc' : c' < w)
    (heq : r * w + c = r' * w + c') : r = r' ∧ c = c' := by
  have hw : 0 < w := Nat.zero_lt_of_lt hc
  have hcol : (r * w + c) % w = (r' * w + c') % w := by rw [heq]
  rw [Nat.mul_add_mod_of_lt hc, Nat.mul_add_mod_of_lt hc'] at hcol
  subst hcol
  exact ⟨Nat.eq_of_mul_eq_mul_right hw (Nat.add_right_cancel heq), rfl⟩

/-- A place inside a plane is a cell of it. -/
theorem exists_cell {w h i : ℕ} (hi : i < w * h) : ∃ r < h, ∃ c < w, i = r * w + c := by
  have hw : 0 < w := Nat.pos_of_mul_pos_right (Nat.zero_lt_of_lt hi)
  refine ⟨i / w, Nat.div_lt_of_lt_mul hi, i % w, Nat.mod_lt i hw, ?_⟩
  rw [Nat.mul_comm]
  exact (Nat.div_add_mod i w).symm

/-- The cell comes before another when the rows are gone through one after another. -/
def Before (row col r c : ℕ) : Prop := r < row ∨ r = row ∧ c < col

/-- A cell that comes before the next column is that column or came before. -/
theorem Before.succ {row col r c : ℕ} (h : Before row (col + 1) r c) :
    Before row col r c ∨ r = row ∧ c = col := by
  unfold Before at *
  omega

/-- A cell that comes before the start of a row comes before the end of the row above. -/
theorem Before.of_next {row r c w : ℕ} (hc : c < w) (h : Before (row + 1) 0 r c) :
    Before row w r c := by
  unfold Before at *
  omega

/-- Nothing comes before the first cell. -/
theorem not_before_zero (r c : ℕ) : ¬ Before 0 0 r c := by
  simp [Before]

/-- A plane of `h` rows with the cells that are `done` written as `f` says. -/
structure Filled [Inhabited α] (w h : ℕ) (done : ℕ → ℕ → Prop) (f : ℕ → ℕ → α)
    (plane : List α) : Prop where
  length : plane.length = w * h
  cell : ∀ r < h, ∀ c < w, done r c → nth plane (r * w + c) = f r c

namespace Filled

variable [Inhabited α] {w h row col : ℕ} {done later : ℕ → ℕ → Prop} {f : ℕ → ℕ → α}
  {plane : List α}

/-- A plane of the right size is filled where nothing is marked. -/
theorem of_none (hlength : plane.length = w * h) (hnone : ∀ r c, ¬ done r c) :
    Filled w h done f plane :=
  ⟨hlength, fun r _ c _ hdone => absurd hdone (hnone r c)⟩

/-- A filled plane stays so when fewer cells are marked. -/
theorem mono (hplane : Filled w h done f plane) (himp : ∀ r < h, ∀ c < w, later r c → done r c) :
    Filled w h later f plane :=
  ⟨hplane.length, fun r hr c hc hlater => hplane.cell r hr c hc (himp r hr c hc hlater)⟩

/-- Writing a cell marks it and leaves the others. -/
theorem write (hplane : Filled w h done f plane) (hrow : row < h) (hcol : col < w)
    (hlater : ∀ r c, later r c → done r c ∨ r = row ∧ c = col) :
    Yields (write plane (row * w + col) (f row col)) (Filled w h later f) := by
  have hlt : row * w + col < plane.length := hplane.length ▸ cell_lt hrow hcol
  rw [Loops.write, if_pos hlt]
  refine .ok ⟨by rw [List.length_set, hplane.length], fun r hr c hc hdone => ?_⟩
  rw [nth_set hlt]
  split_ifs with heq
  · obtain ⟨rfl, rfl⟩ := cell_inj hcol hc heq
    rfl
  · rcases hlater r c hdone with hold | ⟨rfl, rfl⟩
    · exact hplane.cell r hr c hc hold
    · exact absurd rfl heq

/-- Copying a row marks it and leaves the others. -/
theorem copyRow (hplane : Filled w h (fun r _ => r < row) f plane) (hrow : row < h) {src : List α}
    (hlength : src.length = w) (hsrc : ∀ c < w, nth src c = f row c) :
    Yields (copyInto plane (row * w) (row * w + w) src)
      (Filled w h (fun r _ => r < row + 1) f) := by
  have hstop : row * w + w ≤ plane.length := by
    rw [hplane.length, Nat.mul_comm w h, ← Nat.succ_mul]
    exact Nat.mul_le_mul_right w hrow
  refine (copyInto_yields (Nat.le_add_right _ _) hstop (by omega)).mono fun out ⟨hout, hcells⟩ =>
    ⟨hout.trans hplane.length, fun r hr c hc hdone => ?_⟩
  rw [hcells]
  rcases Nat.lt_succ_iff_lt_or_eq.mp hdone with hearlier | rfl
  · have hlt : r * w + c < row * w := by
      calc r * w + c < w * row := cell_lt hearlier hc
        _ = row * w := Nat.mul_comm w row
    rw [if_neg (by omega)]
    exact hplane.cell r hr c hc hearlier
  · rw [if_pos (by omega), Nat.add_sub_cancel_left]
    exact hsrc c hc

/-- A row behind a plane makes a plane with a row more. -/
theorem appendRow (hplane : Filled w h (fun _ _ => True) f plane) {src : List α}
    (hlength : src.length = w) (hsrc : ∀ c < w, nth src c = f h c) :
    Filled w (h + 1) (fun _ _ => True) f (plane ++ src) := by
  have hplaneLength : plane.length = h * w := hplane.length.trans (Nat.mul_comm w h)
  refine ⟨?_, fun r hr c hc _ => ?_⟩
  · rw [List.length_append, hplane.length, hlength, Nat.mul_succ]
  · rcases Nat.lt_succ_iff_lt_or_eq.mp hr with hearlier | rfl
    · rw [nth_append_left src (hplane.length ▸ cell_lt hearlier hc)]
      exact hplane.cell r hearlier c hc trivial
    · rw [← hplaneLength, nth_append_right]
      exact hsrc c hc

end Filled

end OmarchyConnect.Library.Loops
