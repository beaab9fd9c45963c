/-
# Incremental splitters

A splitter looks at everything it holds, emits finished pieces and keeps the
rest. A reader that receives its input in chunks appends each chunk to what was
kept and splits again. When splitting a concatenation is the same as splitting
its front, keeping the rest and splitting that with the back, the chunks do not
matter: the reader ends where one split of the whole input ends.
-/

import Mathlib.Data.List.Basic
import Mathlib.Tactic

namespace OmarchyConnect.Library.Incremental

variable {α β : Type}

/-- Feed chunks one after another, starting from what is already kept. -/
def feed (step : List α → List α → List β × List α) (kept : List α) :
    List (List α) → List β × List α
  | [] => ([], kept)
  | chunk :: chunks =>
      let now := step kept chunk
      let later := feed step now.2 chunks
      (now.1 ++ later.1, later.2)

/-- Without chunks what is kept stays. -/
@[simp]
theorem feed_nil (step : List α → List α → List β × List α) (kept : List α) :
    feed step kept [] = ([], kept) := rfl

/-- The first chunk is split first. -/
theorem feed_cons (step : List α → List α → List β × List α) (kept chunk : List α)
    (chunks : List (List α)) :
    feed step kept (chunk :: chunks) =
      ((step kept chunk).1 ++ (feed step (step kept chunk).2 chunks).1,
        (feed step (step kept chunk).2 chunks).2) := rfl

/-- The last chunk is fed to what the others leave. -/
theorem feed_append_singleton (step : List α → List α → List β × List α) (kept : List α)
    (chunks : List (List α)) (chunk : List α) :
    feed step kept (chunks ++ [chunk]) =
      let before := feed step kept chunks
      (before.1 ++ (step before.2 chunk).1, (step before.2 chunk).2) := by
  induction chunks generalizing kept with
  | nil => simp [feed_cons]
  | cons first chunks ih =>
      rw [List.cons_append, feed_cons, ih, feed_cons]
      simp only [List.append_assoc]

/-- Splitting commutes with appending: the pieces of the front stay, and the rest
of the front is split again together with the back. -/
def IsIncremental (split : List α → List β × List α) : Prop :=
  ∀ front back,
    split (front ++ back) =
      ((split front).1 ++ (split ((split front).2 ++ back)).1,
        (split ((split front).2 ++ back)).2)

/-- Whatever the chunks are, feeding them from a buffer in which nothing is
finished gives what one split of everything gives. -/
theorem feed_eq_split {split : List α → List β × List α} (hsplit : IsIncremental split)
    {kept : List α} (hkept : split kept = ([], kept)) (chunks : List (List α)) :
    feed (fun buffer chunk => split (buffer ++ chunk)) kept chunks =
      split (kept ++ chunks.flatten) := by
  induction chunks generalizing kept with
  | nil => simp [hkept]
  | cons chunk chunks ih =>
      -- What is kept after a split holds nothing finished.
      have hidle : split (split (kept ++ chunk)).2 = ([], (split (kept ++ chunk)).2) := by
        have hagain := hsplit (kept ++ chunk) []
        simp only [List.append_nil] at hagain
        have hpieces := congrArg Prod.fst hagain
        have hrest := congrArg Prod.snd hagain
        simp only [List.self_eq_append_right] at hpieces
        exact Prod.ext hpieces hrest.symm
      rw [feed_cons, ih hidle, List.flatten_cons, ← List.append_assoc,
        hsplit (kept ++ chunk) chunks.flatten]

end OmarchyConnect.Library.Incremental
