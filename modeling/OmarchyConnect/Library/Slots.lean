/-
# One slot for each key

A list that holds at most one item for each key. A new item takes the place of the
one with its key, or a new place at the end.
-/

import Mathlib.Data.List.Basic
import Mathlib.Data.List.Nodup

namespace OmarchyConnect.Library.Slots

variable {α β κ : Type} [DecidableEq κ] (key : α → κ)

/-- Replace the first item of the same key, or add the item at the end. -/
def put : List α → α → List α
  | [], item => [item]
  | slot :: slots, item =>
      if key slot = key item then item :: slots else slot :: put slots item

/-- The items have different keys. -/
def Distinct (slots : List α) : Prop := (slots.map key).Nodup

/-- Without a slot of its key an item goes to the end. -/
theorem put_of_new {slots : List α} {item : α} (h : ∀ slot ∈ slots, key slot ≠ key item) :
    put key slots item = slots ++ [item] := by
  induction slots with
  | nil => rfl
  | cons slot slots ih =>
      have hslot := h slot (by simp)
      have hlater := ih fun other hother => h other (by simp [hother])
      rw [put, if_neg hslot, hlater, List.cons_append]

/-- The first slot of the key is replaced where it stands. -/
theorem put_of_slot {front back : List α} {slot item : α} (hslot : key slot = key item)
    (hfront : ∀ other ∈ front, key other ≠ key item) :
    put key (front ++ slot :: back) item = front ++ item :: back := by
  induction front with
  | nil => rw [List.nil_append, put, if_pos hslot, List.nil_append]
  | cons other front ih =>
      have hother := hfront other (by simp)
      have hlater := ih fun later hlater => hfront later (by simp [hlater])
      rw [List.cons_append, put, if_neg hother, hlater, List.cons_append]

/-- Either no slot has the key of the item, or there is a first one. -/
theorem exists_slot (slots : List α) (item : α) :
    (∀ slot ∈ slots, key slot ≠ key item) ∨
      ∃ front slot back, slots = front ++ slot :: back ∧ key slot = key item ∧
        ∀ other ∈ front, key other ≠ key item := by
  induction slots with
  | nil => exact Or.inl (by simp)
  | cons slot slots ih =>
      by_cases hslot : key slot = key item
      · exact Or.inr ⟨[], slot, slots, rfl, hslot, by simp⟩
      · cases ih with
        | inl hnone =>
            left
            intro other hother
            cases hother with
            | head => exact hslot
            | tail _ hlater => exact hnone other hlater
        | inr hsome =>
            obtain ⟨front, found, back, rfl, hfound, hfront⟩ := hsome
            refine Or.inr ⟨slot :: front, found, back, rfl, hfound, ?_⟩
            intro other hother
            cases hother with
            | head => exact hslot
            | tail _ hlater => exact hfront other hlater

/-- Items keep their own keys apart. -/
theorem Distinct.put {slots : List α} (h : Distinct key slots) (item : α) :
    Distinct key (put key slots item) := by
  cases exists_slot key slots item with
  | inl hnone =>
      rw [put_of_new key hnone, Distinct, List.map_append]
      refine List.nodup_append.mpr ⟨h, by simp, ?_⟩
      intro first hfirst second hsecond
      obtain ⟨slot, hslot, rfl⟩ := List.mem_map.mp hfirst
      have hsame : second = key item := by simpa using hsecond
      rw [hsame]
      exact hnone slot hslot
  | inr hsome =>
      obtain ⟨front, slot, back, rfl, hslot, hfront⟩ := hsome
      rw [put_of_slot key hslot hfront]
      rw [Distinct, List.map_append, List.map_cons, hslot] at h
      rw [Distinct, List.map_append, List.map_cons]
      exact h

/-- The item is there, and of the others those with other keys. -/
theorem mem_put {slots : List α} (h : Distinct key slots) {item other : α} :
    other ∈ put key slots item ↔ other = item ∨ (other ∈ slots ∧ key other ≠ key item) := by
  cases exists_slot key slots item with
  | inl hnone =>
      rw [put_of_new key hnone, List.mem_append, List.mem_singleton, or_comm]
      have hiff : other ∈ slots ↔ other ∈ slots ∧ key other ≠ key item :=
        ⟨fun hmem => ⟨hmem, hnone other hmem⟩, fun hboth => hboth.1⟩
      rw [hiff]
      simp
  | inr hsome =>
      obtain ⟨front, slot, back, rfl, hslot, hfront⟩ := hsome
      rw [put_of_slot key hslot hfront]
      have hback : ∀ later ∈ back, key later ≠ key item := by
        intro later hlater hsame
        rw [Distinct, List.map_append, List.map_cons, List.nodup_append] at h
        have hnot := (List.nodup_cons.mp h.2.1).1
        exact hnot (List.mem_map.mpr ⟨later, hlater, hsame.trans hslot.symm⟩)
      constructor
      · intro hmem
        rw [List.mem_append, List.mem_cons] at hmem
        obtain hmem | rfl | hmem := hmem
        · exact Or.inr ⟨by simp [hmem], hfront other hmem⟩
        · exact Or.inl rfl
        · exact Or.inr ⟨by simp [hmem], hback other hmem⟩
      · intro hmem
        obtain rfl | ⟨hmem, hne⟩ := hmem
        · simp
        · rw [List.mem_append, List.mem_cons] at hmem ⊢
          obtain hmem | rfl | hmem := hmem
          · exact Or.inl hmem
          · exact absurd hslot hne
          · exact Or.inr (Or.inr hmem)

/-- The keys stay as they are, or a new one comes to the end. -/
theorem keys_put (slots : List α) (item : α) :
    (put key slots item).map key =
      if key item ∈ slots.map key then slots.map key else slots.map key ++ [key item] := by
  cases exists_slot key slots item with
  | inl hnone =>
      have hnew : key item ∉ slots.map key := by
        intro hmem
        obtain ⟨slot, hslot, hsame⟩ := List.mem_map.mp hmem
        exact hnone slot hslot hsame
      rw [put_of_new key hnone, if_neg hnew, List.map_append, List.map_singleton]
  | inr hsome =>
      obtain ⟨front, slot, back, rfl, hslot, hfront⟩ := hsome
      have hold : key item ∈ (front ++ slot :: back).map key := by simp [hslot]
      rw [put_of_slot key hslot hfront, if_pos hold, List.map_append, List.map_append,
        List.map_cons, List.map_cons, hslot]

/-- Forgetting a part of the items that the keys do not depend on. -/
theorem map_put (f : β → α) (slots : List β) (item : β) :
    (put (fun slot => key (f slot)) slots item).map f = put key (slots.map f) (f item) := by
  induction slots with
  | nil => rfl
  | cons slot slots ih =>
      rw [put, List.map_cons, put]
      split_ifs with hslot
      · rw [List.map_cons]
      · rw [List.map_cons, ih]

/-! ## One key -/

/-- The items of one key, in their order. -/
def ofKey (k : κ) (items : List α) : List α := items.filter fun item => key item = k

/-- The items of a key in two lists. -/
theorem ofKey_append (k : κ) (front back : List α) :
    ofKey key k (front ++ back) = ofKey key k front ++ ofKey key k back := List.filter_append _ _

/-- An item is one of its own key. -/
theorem ofKey_singleton_self (item : α) : ofKey key (key item) [item] = [item] := by
  simp [ofKey]

/-- An item is none of another key. -/
theorem ofKey_singleton_of_ne {k : κ} {item : α} (h : key item ≠ k) : ofKey key k [item] = [] := by
  simp [ofKey, h]

/-- A new item is the only one of its key. -/
theorem ofKey_put_self {slots : List α} (h : Distinct key slots) (item : α) :
    ofKey key (key item) (put key slots item) = [item] := by
  cases exists_slot key slots item with
  | inl hnone =>
      have hempty : ofKey key (key item) slots = [] :=
        List.filter_eq_nil_iff.mpr fun slot hslot => by simp [hnone slot hslot]
      rw [put_of_new key hnone, ofKey_append, hempty, List.nil_append, ofKey_singleton_self]
  | inr hsome =>
      obtain ⟨front, slot, back, rfl, hslot, hfront⟩ := hsome
      have hbefore : ofKey key (key item) front = [] :=
        List.filter_eq_nil_iff.mpr fun other hother => by simp [hfront other hother]
      have hafter : ofKey key (key item) back = [] := by
        refine List.filter_eq_nil_iff.mpr fun later hlater => ?_
        rw [Distinct, List.map_append, List.map_cons, List.nodup_append] at h
        have hnot := (List.nodup_cons.mp h.2.1).1
        simp only [decide_eq_true_eq]
        exact fun hsame => hnot (List.mem_map.mpr ⟨later, hlater, hsame.trans hslot.symm⟩)
      rw [put_of_slot key hslot hfront, ← List.singleton_append, ofKey_append, ofKey_append,
        hbefore, hafter, ofKey_singleton_self]
      rfl

/-- The items of other keys stay as they are. -/
theorem ofKey_put_of_ne {k : κ} (slots : List α) {item : α} (h : key item ≠ k) :
    ofKey key k (put key slots item) = ofKey key k slots := by
  induction slots with
  | nil => exact ofKey_singleton_of_ne key h
  | cons slot slots ih =>
      rw [put]
      split_ifs with hslot
      · have hold : key slot ≠ k := hslot.trans_ne h
        simp [ofKey, h, hold]
      · rw [← List.singleton_append, ofKey_append, ih, ← ofKey_append, List.singleton_append]

/-- There is one slot for a key at most. -/
theorem length_ofKey_le_one {slots : List α} (h : Distinct key slots) (k : κ) :
    (ofKey key k slots).length ≤ 1 := by
  induction slots with
  | nil => exact Nat.zero_le 1
  | cons slot slots ih =>
      obtain ⟨hnew, hrest⟩ := List.nodup_cons.mp h
      rw [← List.singleton_append, ofKey_append]
      by_cases hkey : key slot = k
      · subst hkey
        have hempty : ofKey key (key slot) slots = [] := by
          refine List.filter_eq_nil_iff.mpr fun later hlater => ?_
          simp only [decide_eq_true_eq]
          exact fun hsame => hnew (List.mem_map.mpr ⟨later, hlater, hsame⟩)
        have hone : ofKey key (key slot) [slot] ++ ofKey key (key slot) slots = [slot] := by
          rw [ofKey_singleton_self, hempty, List.append_nil]
        exact Nat.le_of_eq (congrArg List.length hone)
      · rw [ofKey_singleton_of_ne key hkey, List.nil_append]
        exact ih hrest

/-! ## What becomes of the items of one key

Items are put into slots, and now and then all slots are taken. -/

/-- Of the items of a key those that were taken, and then the one in the slot, come in the
order in which they were put, each once at most, and the newest is not lost. -/
structure Newest (k : κ) (given taken slots : List α) : Prop where
  order : (ofKey key k (taken ++ slots)).Sublist (ofKey key k given)
  last : (ofKey key k (taken ++ slots)).getLast? = (ofKey key k given).getLast?

/-- At first nothing was given. -/
theorem Newest.start (k : κ) : Newest key k [] [] [] := ⟨List.Sublist.refl _, rfl⟩

variable {key} in
/-- A new item of the key takes the place of the older one. -/
theorem Newest.put {k : κ} {given taken slots : List α} (h : Newest key k given taken slots)
    (hdistinct : Distinct key slots) (item : α) :
    Newest key k (given ++ [item]) taken (put key slots item) := by
  by_cases hkey : key item = k
  · subst hkey
    have hslots := ofKey_put_self key hdistinct item
    constructor
    · rw [ofKey_append, ofKey_append, hslots, ofKey_singleton_self]
      refine List.Sublist.append ?_ (List.Sublist.refl _)
      refine List.Sublist.trans ?_ h.order
      rw [ofKey_append]
      exact List.sublist_append_left _ _
    · rw [ofKey_append, ofKey_append, hslots, ofKey_singleton_self, List.getLast?_concat,
        List.getLast?_concat]
  · have hslots := ofKey_put_of_ne key slots hkey
    have hgiven := ofKey_singleton_of_ne key hkey
    constructor
    · rw [ofKey_append, ofKey_append, hslots, hgiven, List.append_nil, ← ofKey_append]
      exact h.order
    · rw [ofKey_append, ofKey_append, hslots, hgiven, List.append_nil, ← ofKey_append]
      exact h.last

variable {key} in
/-- Taking hands out what is in the slots. -/
theorem Newest.take {k : κ} {given taken slots : List α} (h : Newest key k given taken slots) :
    Newest key k given (taken ++ slots) [] := by
  constructor
  · rw [List.append_nil]
    exact h.order
  · rw [List.append_nil]
    exact h.last

end OmarchyConnect.Library.Slots
