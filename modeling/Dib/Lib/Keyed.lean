import Mathlib.Data.List.Perm.Basic
import Mathlib.Data.List.Nodup

/-!
# Lists with distinct keys

Settings that are given one after the other, each for a key of its own, and applied in a fold.

* `foldl_eq_of_perm`: the order does not matter when settings of different keys commute;
* `foldl_of_mem`, `foldl_of_forall_ne`: what only the setting for one key writes;
* `swapped_of_ne`: two orders of the settings for two keys are the same, or turned around;
* `forall_key_iff`: the one setting for a key;
* `eraseP_eq_filter`, `filter_flatMap_eq`: the one with a key taken out, and what goes with it from
  what all of them put together.
-/

set_option autoImplicit false

namespace Keyed

variable {α β κ : Type*} {key : β → κ} {l l' : List β}

theorem foldl_eq_of_perm {f : α → β → α} (hperm : l.Perm l') (hdistinct : (l.map key).Nodup)
    (hcomm : ∀ a {x y}, key x ≠ key y → f (f a x) y = f (f a y) x) (a : α) :
    l.foldl f a = l'.foldl f a := by
  refine hperm.foldl_eq' (fun x hx y hy a => ?_) a
  by_cases h : key x = key y
  · rw [List.inj_on_of_nodup_map hdistinct hx hy h]
  · exact hcomm a h

theorem foldl_of_forall_ne {γ : Type*} {f : α → β → α} {π : α → γ} {k : κ}
    (hframe : ∀ x ∈ l, ∀ a, key x ≠ k → π (f a x) = π a) (hne : ∀ x ∈ l, key x ≠ k) (a : α) :
    π (l.foldl f a) = π a := by
  induction l generalizing a with
  | nil => rfl
  | cons x l ih =>
    rw [List.forall_mem_cons] at hframe hne
    rw [List.foldl_cons, ih hframe.2 hne.2, hframe.1 a hne.1]

theorem foldl_of_mem {γ : Type*} {f : α → β → α} {π : α → γ} {v : β → γ} {x : β}
    (hdistinct : (l.map key).Nodup) (hx : x ∈ l) (hwrite : ∀ a, π (f a x) = v x)
    (hframe : ∀ y ∈ l, ∀ a, key y ≠ key x → π (f a y) = π a) (a : α) :
    π (l.foldl f a) = v x := by
  induction l generalizing a with
  | nil => cases hx
  | cons y l ih =>
    obtain ⟨hy, hl⟩ := List.nodup_cons.mp hdistinct
    rw [List.forall_mem_cons] at hframe
    rw [List.foldl_cons]
    rcases List.mem_cons.mp hx with rfl | hx
    · have hne : ∀ z ∈ l, key z ≠ key x := fun z hz h => hy (h ▸ List.mem_map_of_mem hz)
      rw [foldl_of_forall_ne hframe.2 hne, hwrite]
    · exact ih hl hx hframe.2 (f a y)

theorem swapped_of_ne {k k' : κ} (hperm : l.Perm l') (hdistinct : (l.map key).Nodup)
    (hkeys : ∀ x ∈ l, key x = k ∨ key x = k') (hne : l ≠ l') :
    ∃ x x', key x = k ∧ key x' = k' ∧
      (l = [x, x'] ∧ l' = [x', x] ∨ l = [x', x] ∧ l' = [x, x']) := by
  have hlen : l.length ≤ 2 := by
    have hsub : l.map key ⊆ [k, k'] := by
      intro i hi
      obtain ⟨x, hx, rfl⟩ := List.mem_map.mp hi
      simpa using hkeys x hx
    simpa using (List.subperm_of_subset hdistinct hsub).length_le
  match l, hlen with
  | [], _ => exact absurd hperm.nil_eq hne
  | [x], _ => exact absurd (List.perm_singleton.mp hperm.symm).symm hne
  | [x, y], _ =>
    have hkey : key x ≠ key y := by simpa using hdistinct
    have hl' : l' = [y, x] := by
      obtain ⟨z, w, rfl⟩ := List.length_eq_two.mp hperm.length_eq.symm
      have hz : z ∈ [x, y] := hperm.mem_iff.mpr List.mem_cons_self
      rcases List.mem_pair.mp hz with rfl | rfl
      · have hw := List.perm_singleton.mp ((List.perm_cons z).mp hperm.symm)
        exact absurd (by rw [hw]) hne
      · have hw := List.perm_singleton.mp
          ((List.perm_cons z).mp (hperm.symm.trans (List.Perm.swap z x [])))
        rw [hw]
    subst hl'
    rcases hkeys x List.mem_cons_self with hx | hx
    · refine ⟨x, y, hx, ?_, .inl ⟨rfl, rfl⟩⟩
      exact (hkeys y (by simp)).resolve_left fun hy => hkey (hx.trans hy.symm)
    · refine ⟨y, x, ?_, hx, .inr ⟨rfl, rfl⟩⟩
      exact (hkeys y (by simp)).resolve_right fun hy => hkey (hx.trans hy.symm)

theorem forall_key_iff {x x' : β} (hne : key x ≠ key x') (hl : l = [x, x'] ∨ l = [x', x])
    (P : β → Prop) : (∀ y ∈ l, key y = key x → P y) ↔ P x := by
  rcases hl with rfl | rfl <;> simp [hne.symm]

theorem eraseP_eq_filter [DecidableEq κ] (hdistinct : (l.map key).Nodup) (k : κ) :
    (l.eraseP fun x => key x = k) = l.filter fun x => key x ≠ k := by
  induction l with
  | nil => rfl
  | cons x l ih =>
    obtain ⟨hx, hl⟩ := List.nodup_cons.mp hdistinct
    by_cases h : key x = k
    · have hrest : ∀ y ∈ l, key y ≠ k := fun y hy hk =>
        hx (h.trans hk.symm ▸ List.mem_map_of_mem hy)
      rw [List.eraseP_cons_of_pos (by simpa using h), List.filter_cons_of_neg (by simpa using h),
        List.filter_eq_self.mpr fun y hy => by simpa using hrest y hy]
    · rw [List.eraseP_cons_of_neg (by simpa using h), List.filter_cons_of_pos (by simpa using h),
        ih hl]

theorem filter_flatMap_eq {f : β → List α} {p : α → Bool} {q : β → Bool}
    (h : ∀ b ∈ l, ∀ a ∈ f b, p a = q b) : (l.flatMap f).filter p = (l.filter q).flatMap f := by
  induction l with
  | nil => rfl
  | cons b l ih =>
    rw [List.flatMap_cons, List.filter_append, ih fun c hc => h c (List.mem_cons_of_mem _ hc)]
    have hb := h b List.mem_cons_self
    cases hq : q b with
    | true =>
      rw [List.filter_cons_of_pos hq, List.flatMap_cons,
        List.filter_eq_self.mpr fun a ha => (hb a ha).trans hq]
    | false =>
      rw [List.filter_cons_of_neg (by simp [hq]),
        List.filter_eq_nil_iff.mpr fun a ha => by simp [hb a ha, hq], List.nil_append]

end Keyed
