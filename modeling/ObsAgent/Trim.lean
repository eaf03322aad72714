import Mathlib.Data.List.Infix

/-! Lists that are trimmed at the far end until they are acceptable: a queue with its
newest element first that gives up oldest elements. -/
namespace Trim

variable {α β : Type*}

def trim (ok : List α → Prop) [DecidablePred ok] (l : List α) : List α :=
  if ok l then l else if l = [] then l else trim ok l.dropLast
termination_by l.length
decreasing_by
  rename_i hne
  have := List.length_pos_iff.mpr hne
  simp only [List.length_dropLast]
  omega

theorem trim_leads (ok : List α → Prop) [DecidablePred ok] (l : List α) : trim ok l <+: l := by
  fun_induction trim ok l with
  | case1 => exact List.prefix_refl _
  | case2 => exact List.prefix_refl _
  | case3 l _ _ ih => exact ih.trans (List.dropLast_prefix l)

/-- The longest acceptable initial run. -/
structure Longest (ok : List α → Prop) (l r : List α) : Prop where
  leads : r <+: l
  accepted : ok r
  longest : ∀ m, m <+: l → ok m → m <+: r

theorem Longest.unique {ok : List α → Prop} {l r s : List α} (hr : Longest ok l r)
    (hs : Longest ok l s) : r = s :=
  (hs.longest r hr.leads hr.accepted).eq_of_length_le (hr.longest s hs.leads hs.accepted).length_le

theorem trim_longest {ok : List α → Prop} [DecidablePred ok] (hnil : ok []) (l : List α) :
    Longest ok l (trim ok l) := by
  fun_induction trim ok l with
  | case1 l hl => exact ⟨List.prefix_refl _,hl,fun m hm _ => hm⟩
  | case2 hl => exact absurd hnil hl
  | case3 l hl _ ih =>
    refine ⟨ih.leads.trans (List.dropLast_prefix l),ih.accepted,fun m hm hok => ?_⟩
    refine ih.longest m ?_ hok
    have hne : m.length ≠ l.length := fun h => hl (hm.eq_of_length h ▸ hok)
    have hle := hm.length_le
    refine List.prefix_of_prefix_length_le hm (List.dropLast_prefix l) ?_
    rw [List.length_dropLast]
    omega

theorem Longest.map {ok : List β → Prop} {l r : List α} (f : α → β)
    (h : Longest (fun m => ok (m.map f)) l r) : Longest ok (l.map f) (r.map f) := by
  refine ⟨h.leads.map f,h.accepted,fun m hm hok => ?_⟩
  have htake := List.prefix_iff_eq_take.mp hm
  rw [← List.map_take] at htake
  rw [htake]
  exact (h.longest _ (List.take_prefix _ _) (by rwa [← htake])).map f

end Trim
