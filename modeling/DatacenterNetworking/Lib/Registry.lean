/-
  DatacenterNetworking.Lib.Registry

  A table of entries with keys, some of them open, and the set of the keys in use.
  Keys are handed out again, so that an entry that is closed may have the key of
  one that is open.

  `Registered` says that the open entries have keys of their own, all in use.  It
  survives an entry that is opened under a key that is not in use, one that is
  changed, and one that is closed and gives up its key.
-/

import Mathlib.Data.Finset.Card

namespace DatacenterNetworking

variable {κ β : Type*} {isOpen : β → Prop} {table : List (κ × β)} {live : Finset κ}

/-- The open entries of the table have keys of their own, which are in use. -/
structure Registered (isOpen : β → Prop) (table : List (κ × β)) (live : Finset κ) : Prop where
  mem (i : Nat) (e : κ × β) (he : table[i]? = some e) (hopen : isOpen e.2) : e.1 ∈ live
  apart (i j : Nat) (e e' : κ × β) (he : table[i]? = some e) (he' : table[j]? = some e')
    (hopen : isOpen e.2) (hopen' : isOpen e'.2) (hkey : e.1 = e'.1) : i = j

namespace Registered

theorem nil : Registered isOpen ([] : List (κ × β)) live where
  mem := fun i e he => by simp at he
  apart := fun i j e e' he => by simp at he

/-- An entry is changed, and is open only if it was open before. -/
theorem set (h : Registered isOpen table live) {i : Nat} {e : κ × β} (he : table[i]? = some e)
    {b : β} (hopen : isOpen b → isOpen e.2) : Registered isOpen (table.set i (e.1, b)) live := by
  -- every open entry was open before, under the same key
  have hback : ∀ (j : Nat) (x : κ × β), (table.set i (e.1, b))[j]? = some x → isOpen x.2 →
      ∃ y, table[j]? = some y ∧ y.1 = x.1 ∧ isOpen y.2 := by
    intro j x hx hxopen
    rw [List.getElem?_set] at hx
    split_ifs at hx with hij hlt
    · cases hx
      exact ⟨e, hij ▸ he, rfl, hopen hxopen⟩
    · exact ⟨x, hx, rfl, hxopen⟩
  constructor
  · intro j x hx hxopen
    obtain ⟨y, hy, hkey, hyopen⟩ := hback j x hx hxopen
    rw [← hkey]
    exact h.mem j y hy hyopen
  · intro j k x x' hx hx' hxopen hxopen' hkey
    obtain ⟨y, hy, hykey, hyopen⟩ := hback j x hx hxopen
    obtain ⟨y', hy', hykey', hyopen'⟩ := hback k x' hx' hxopen'
    exact h.apart j k y y' hy hy' hyopen hyopen' (hykey.trans (hkey.trans hykey'.symm))

variable [DecidableEq κ]

/-- An open entry is closed, and its key is free again. -/
theorem close (h : Registered isOpen table live) {i : Nat} {e : κ × β} (he : table[i]? = some e)
    (hopen : isOpen e.2) {b : β} (hclosed : ¬ isOpen b) :
    Registered isOpen (table.set i (e.1, b)) (live.erase e.1) := by
  have hset := h.set he (b := b) fun hb => absurd hb hclosed
  refine ⟨fun j x hx hxopen => ?_, hset.apart⟩
  refine Finset.mem_erase.mpr ⟨fun hkey => ?_, hset.mem j x hx hxopen⟩
  -- the entry with that key is the one that was closed
  rw [List.getElem?_set] at hx
  split_ifs at hx with hij hlt
  · cases hx
    exact hclosed hxopen
  · exact hij (h.apart i j e x he hx hopen hxopen hkey.symm)

/-- An entry is added under a key that is not in use. -/
theorem append (h : Registered isOpen table live) {x : κ × β} (hfree : x.1 ∉ live) :
    Registered isOpen (table ++ [x]) (insert x.1 live) := by
  -- an entry of the longer table is an old one or the last
  have hcases : ∀ (j : Nat) (y : κ × β), (table ++ [x])[j]? = some y →
      table[j]? = some y ∨ (j = table.length ∧ y = x) := by
    intro j y hy
    rw [List.getElem?_append] at hy
    split_ifs at hy with hlt
    · exact Or.inl hy
    · have hmem := List.mem_of_getElem? hy
      have hlen := (List.getElem?_eq_some_iff.mp hy).1
      rw [List.length_singleton] at hlen
      exact Or.inr ⟨by omega, List.mem_singleton.mp hmem⟩
  -- the new key was free, so no open entry had it
  have hne : ∀ (j : Nat) (y : κ × β), table[j]? = some y → isOpen y.2 → y.1 ≠ x.1 :=
    fun j y hy hyopen hkey => hfree (hkey ▸ h.mem j y hy hyopen)
  constructor
  · intro j y hy hyopen
    rcases hcases j y hy with hold | ⟨-, rfl⟩
    · exact Finset.mem_insert_of_mem (h.mem j y hold hyopen)
    · exact Finset.mem_insert_self _ _
  · intro j k y y' hy hy' hyopen hyopen' hkey
    rcases hcases j y hy with hold | ⟨hj, rfl⟩
    · rcases hcases k y' hy' with hold' | ⟨-, rfl⟩
      · exact h.apart j k y y' hold hold' hyopen hyopen' hkey
      · exact absurd hkey (hne j y hold hyopen)
    · rcases hcases k y' hy' with hold' | ⟨hk, -⟩
      · exact absurd hkey.symm (hne k y' hold' hyopen')
      · rw [hj, hk]

end Registered

/-- A new key makes the set larger by one, and only a new one does. -/
theorem card_insert_iff [DecidableEq κ] {x : κ} :
    (insert x live).card = live.card + 1 ↔ x ∉ live := by
  rw [Finset.card_insert_eq_ite]
  split_ifs with hmem
  · exact iff_of_false (by omega) (not_not.mpr hmem)
  · exact iff_of_true rfl hmem

end DatacenterNetworking
