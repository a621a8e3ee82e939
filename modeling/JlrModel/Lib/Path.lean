import JlrModel.Lib.Text

-- Absolute paths, compared as texts and by their components.

namespace Path

-- What is between the slashes.
def components (p : String) : List (List Char) :=
  (p.toList.splitOn '/').filter (· ≠ [])

-- `a` is a directory on the way to `b`.
def Ancestor (a b : String) : Prop :=
  ∃ rest, rest ≠ [] ∧ components b = components a ++ rest

-- A path that starts with a slash and has no other one than between two components.
structure Canonical (p : String) : Prop where
  absolute : p.toList.head? = some '/'
  parts    : p = "/" ∨ [] ∉ (p.toList.splitOn '/').tail

variable {a b p : String} {t : List Char} {xs ys : List (List Char)}

theorem components_root : components "/" = [] := by
  decide

theorem intercalate_append (hx : xs ≠ []) (hy : ys ≠ []) :
    ['/'].intercalate (xs ++ ys) = ['/'].intercalate xs ++ '/' :: ['/'].intercalate ys := by
  induction xs
  case nil => contradiction
  case cons x xs ih =>
    cases xs
    case nil =>
      rw [List.singleton_append, List.intercalate_cons_of_ne_nil hy, List.intercalate_singleton, List.append_assoc]
      rfl
    case cons x' xs =>
      rw [List.cons_append, List.cons_append, List.intercalate_cons_cons, List.intercalate_cons_cons,
        ← List.cons_append, ih (List.cons_ne_nil _ _)]
      simp only [List.append_assoc]

-- What is added behind a slash adds components.
theorem components_append (h : a.toList = b.toList ++ '/' :: t) : components b <+: components a := by
  rw [components, components, h, List.splitOn_append_cons_self, List.filter_append]
  exact List.prefix_append _ _

namespace Canonical

theorem spelled (h : Canonical p) :
    p = "/" ∨ components p ≠ [] ∧ p.toList = '/' :: ['/'].intercalate (components p) := by
  refine h.parts.imp_right fun hn => ?_
  have ⟨r, hr⟩ := List.head?_eq_some_iff.mp h.absolute
  rw [hr, Text.splitOn_cons_self, List.tail_cons] at hn
  have hc : components p = r.splitOn '/' := by
    rw [components, hr, Text.splitOn_cons_self, List.filter_cons_of_neg (by simp), List.filter_eq_self]
    exact fun x hx => decide_eq_true fun he => hn (he ▸ hx)
  rw [hc, List.intercalate_splitOn]
  exact ⟨List.splitOn_ne_nil _ _, hr⟩

-- A path is below another one exactly if it has all of its components.
theorem prefix_iff (ha : Canonical a) (hb : Canonical b) :
    components b <+: components a ↔ b = "/" ∨ a = b ∨ ∃ t, a.toList = b.toList ++ '/' :: t := by
  constructor
  · rintro ⟨rest, hr⟩
    refine hb.spelled.imp_right fun ⟨hn, hb⟩ => ?_
    have ⟨_, ha⟩ := ha.spelled.resolve_left fun h => hn <| by
      rw [h, components_root] at hr
      exact (List.append_eq_nil_iff.mp hr).left
    rw [← hr] at ha
    by_cases he : rest = []
    case pos =>
      rw [he, List.append_nil, ← hb] at ha
      exact .inl (String.toList_inj.mp ha)
    case neg =>
      rw [intercalate_append hn he, ← List.cons_append, ← hb] at ha
      exact .inr ⟨_, ha⟩
  · rintro (rfl | rfl | ⟨t, ht⟩)
    · exact components_root ▸ List.nil_prefix
    · exact List.prefix_rfl
    · exact components_append ht

theorem eq_of_components (ha : Canonical a) (hb : Canonical b) (h : components a = components b) : a = b := by
  obtain rfl | ⟨hn, ha⟩ := ha.spelled
  · rw [components_root] at h
    exact (hb.spelled.resolve_right fun hn => hn.left h.symm).symm
  · have ⟨_, hb⟩ := hb.spelled.resolve_left fun hb => hn (by rw [h, hb, components_root])
    exact String.toList_inj.mp (by rw [ha, hb, h])

-- The same, or one on the way to the other.
theorem related_iff (ha : Canonical a) (hb : Canonical b) :
    components a <+: components b ∨ components b <+: components a ↔ a = b ∨ Ancestor a b ∨ Ancestor b a := by
  constructor
  · rintro (⟨rest, h⟩ | ⟨rest, h⟩)
    · by_cases hr : rest = []
      case pos => exact .inl (ha.eq_of_components hb (by rw [← h, hr, List.append_nil]))
      case neg => exact .inr (.inl ⟨rest, hr, h.symm⟩)
    · by_cases hr : rest = []
      case pos => exact .inl (ha.eq_of_components hb (by rw [← h, hr, List.append_nil]))
      case neg => exact .inr (.inr ⟨rest, hr, h.symm⟩)
  · rintro (rfl | ⟨rest, _, h⟩ | ⟨rest, _, h⟩)
    · exact .inl List.prefix_rfl
    · exact .inl ⟨rest, h.symm⟩
    · exact .inr ⟨rest, h.symm⟩

end Canonical

end Path
