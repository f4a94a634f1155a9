import LineShell.System.Descriptors
import Mathlib.Logic.Function.Basic

/-!
# Descriptor tables as functions

A `Table` says which handle every number has. Each operation on `Descriptors` changes it in
few places, told here with `Function.update`. `Descriptors.install_fresh` : a handle that
was put under a free number and moved to another leaves nothing under the first.
-/

namespace LineShell

/-- Which handle every number has. -/
abbrev Table := Nat → Option Handle

/-- A handle of a table with one more is that, or it was there before. -/
theorem Table.eq_or_of_update {T : Table} {h k : Handle} {i n : Nat}
    (hk : Function.update T i (some h) n = some k) : k = h ∨ T n = some k := by
  rw [Function.update_apply] at hk
  split at hk
  · exact .inl (Option.some.inj hk).symm
  · exact .inr hk

namespace Descriptors

variable {t u : Descriptors} {T : Table} {h : Handle} {limit source n : Nat}

theorem get?_set_eq (t : Descriptors) (n : Nat) (h : Handle) :
    (t.set n h).get? = Function.update t.get? n (some h) := by
  ext1 m
  rw [get?_set, Function.update_apply]

theorem get?_close_eq (t : Descriptors) (n : Nat) :
    (t.close n).get? = Function.update t.get? n none := by
  ext1 m
  rw [get?_close, Function.update_apply]

theorem holds_iff (t : Descriptors) (stream : Stream) :
    t.holds stream = true ↔ ∃ n h, t.get? n = some h ∧ h.stream = stream := by
  rw [holds, List.any_eq_true]
  constructor
  · rintro ⟨slot, hmem, hslot⟩
    obtain ⟨h, rfl, hs⟩ := (Option.any_eq_true _ _).mp hslot
    obtain ⟨n, hn⟩ := List.mem_iff_getElem?.mp hmem
    exact ⟨n, h, by rw [get?, hn]; rfl, by simpa using hs⟩
  · rintro ⟨n, h, hn, hs⟩
    rw [get?, Option.join_eq_some_iff] at hn
    exact ⟨some h, List.mem_of_getElem? hn, by simpa using hs⟩

/-- What a new number gives back when it is closed. -/
theorem get?_close_fresh (ht : t.get? = Function.update T source (some h)) (hT : T source = none) :
    (t.close source).get? = T := by
  rw [get?_close_eq, ht, Function.update_idem, Function.update_eq_self_iff, hT]

/-- Moving a handle from a free number leaves the other numbers alone. -/
theorem install_fresh {target : Int} (ht : t.get? = Function.update T source (some h))
    (hT : T source = none) (hi : t.install limit source target = .ok u) :
    u.get? = Function.update T target.toNat (some { h with closeOnExec := false }) := by
  have hs : t.get? source = some h := by rw [ht, Function.update_self]
  rw [install, hs] at hi
  dsimp only at hi
  split at hi
  · rename_i heq
    obtain rfl := Except.ok.inj hi
    have hn : target.toNat = source := by omega
    rw [hn, get?_set_eq, ht, Function.update_idem]
  · rename_i hne
    split at hi
    · rename_i hrange
      obtain rfl := Except.ok.inj hi
      have hn : target.toNat ≠ source := by omega
      have hself : Function.update T source none = T := Function.update_eq_self_iff.mpr hT.symm
      rw [get?_close_eq, get?_set_eq, ht, Function.update_comm hn, Function.update_idem, hself]
    · cases hi

theorem add_ok (hadd : t.add limit h = .ok (n, u)) :
    t.get? n = none ∧ u.get? = Function.update t.get? n (some h) := by
  rw [add] at hadd
  split at hadd
  · obtain ⟨rfl, rfl⟩ := Prod.mk.inj (Except.ok.inj hadd)
    exact ⟨t.get?_lowestFree, get?_set_eq t _ h⟩
  · cases hadd

theorem lt_of_add (hadd : t.add limit h = .ok (n, u)) : n < limit := by
  rw [add] at hadd
  split at hadd
  · obtain ⟨rfl, -⟩ := Prod.mk.inj (Except.ok.inj hadd)
    assumption
  · cases hadd

/-- The ends of a new pipe are added one after the other. -/
theorem exists_add_of_addPipe {pipe reading writing : Nat}
    (hadd : t.addPipe limit pipe = .ok (reading, writing, u)) :
    ∃ v, t.add limit { stream := .pipeReader pipe } = .ok (reading, v) ∧
      v.add limit { stream := .pipeWriter pipe } = .ok (writing, u) := by
  rw [addPipe] at hadd
  rcases hr : t.add limit { stream := .pipeReader pipe } with e | ⟨r, v⟩
  · rw [hr] at hadd
    cases hadd
  rcases hw : v.add limit { stream := .pipeWriter pipe } with e | ⟨w, u'⟩
  · simp only [hr, hw, bind, Except.bind] at hadd
    cases hadd
  · simp only [hr, hw, bind, Except.bind, pure, Except.pure] at hadd
    obtain ⟨rfl, hrest⟩ := Prod.mk.inj (Except.ok.inj hadd)
    obtain ⟨rfl, rfl⟩ := Prod.mk.inj hrest
    exact ⟨v, rfl, hw⟩

/-- The ends of a new pipe are under two numbers that were free. -/
theorem addPipe_ok {pipe reading writing : Nat}
    (hadd : t.addPipe limit pipe = .ok (reading, writing, u)) :
    t.get? reading = none ∧ t.get? writing = none ∧ reading ≠ writing ∧
      u.get? = Function.update
        (Function.update t.get? reading (some { stream := .pipeReader pipe }))
        writing (some { stream := .pipeWriter pipe }) := by
  obtain ⟨v, hr, hw⟩ := exists_add_of_addPipe hadd
  obtain ⟨hfree, hv⟩ := add_ok hr
  obtain ⟨hfree', hu⟩ := add_ok hw
  have hne : reading ≠ writing := by
    rintro rfl
    rw [hv, Function.update_self] at hfree'
    cases hfree'
  refine ⟨hfree, ?_, hne, by rw [hu, hv]⟩
  rwa [hv, Function.update_of_ne hne.symm] at hfree'

/-- Where a pipe was made, two numbers were to be had. -/
theorem two_le_of_addPipe {pipe reading writing : Nat}
    (hadd : t.addPipe limit pipe = .ok (reading, writing, u)) : 2 ≤ limit := by
  obtain ⟨v, hr, hw⟩ := exists_add_of_addPipe hadd
  have hne := (addPipe_ok hadd).2.2.1
  have hreading := lt_of_add hr
  have hwriting := lt_of_add hw
  omega

end Descriptors

end LineShell
