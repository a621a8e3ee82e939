import JlrModel.Cell.Assembly
import JlrModel.Lib.Path
import JlrModel.Model.Theorems.Capability

-- The private root is put together where it hides no grant.

open Path (Canonical Ancestor)

theorem Capability.NormalPath.canonical {p : String} (h : NormalPath p) : Path.Canonical p where
  absolute := h.absolute
  parts    := h.parts.imp_right fun hp hm => by
    have hs : String.ofList [] ∈ (Text.split '/' p).tail := by
      rw [Text.split, ← List.map_tail]
      exact List.mem_map_of_mem hm
    exact (hp _ hs).left rfl

namespace Assembly

variable {a b d p : String}

-- The test on texts is a test on components.
theorem within_iff (ha : Canonical a) (hb : Canonical b) :
    within a b ↔ Path.components b <+: Path.components a := by
  have ht : (Text.stripPrefix b a).any (Text.startsWith · "/") ↔ ∃ t, a.toList = b.toList ++ '/' :: t := by
    simp only [Text.stripPrefix, Text.startsWith]
    constructor
    · intro h
      split at h
      case isTrue hp =>
        rw [Option.any_some, decide_eq_true_iff, String.toList_ofList, String.toList_ofList] at h
        obtain ⟨t, ht⟩ := h
        exact ⟨t, by rw [← List.prefix_iff_eq_append.mp hp, ← ht, List.singleton_append]⟩
      case isFalse => contradiction
    · rintro ⟨t, ht⟩
      rw [ht, if_pos (List.prefix_append _ _), List.drop_left, Option.any_some, decide_eq_true_iff,
        String.toList_ofList, String.toList_ofList]
      exact List.prefix_append ['/'] t
  rw [Canonical.prefix_iff ha hb, within, decide_eq_true_iff, ht]

theorem overlaps_iff (hd : Canonical d) (hp : Canonical p) :
    overlaps d p ↔ d = p ∨ Ancestor d p ∨ Ancestor p d := by
  rw [overlaps, decide_eq_true_iff, within_iff hp hd, within_iff hd hp, Canonical.related_iff hd hp]

theorem canonical_candidates (h : d ∈ CANDIDATES) : Canonical d := by
  have hc : CANDIDATES.all fun d => d.toList.head? = some '/' ∧ [] ∉ (d.toList.splitOn '/').tail := by decide
  have hc := of_decide_eq_true (List.all_eq_true.mp hc d h)
  exact ⟨hc.left, .inr hc.right⟩

theorem mem_granted {spec : CellSpec} :
    p ∈ spec.granted ↔ .fsRead p ∈ spec.capabilities ∨ .fsWrite p ∈ spec.capabilities := by
  rw [CellSpec.granted, List.mem_filterMap]
  constructor
  · rintro ⟨c, hc, he⟩
    split at he
    case h_1 => exact .inl (Option.some.inj he ▸ hc)
    case h_2 => exact .inr (Option.some.inj he ▸ hc)
    case h_3 => contradiction
  · rintro (h | h)
    · exact ⟨_, h, rfl⟩
    · exact ⟨_, h, rfl⟩

-- A directory that is chosen is not a granted path, on the way to one or below one. If none is chosen, each of those
-- that exist is.
theorem root_hides_no_grant (isDir : String → Bool) (spec : CellSpec)
    (h : ∀ c ∈ spec.capabilities, ∃ s, Capability.parse s = .ok c) :
    (∀ d, assemblyDir isDir spec = .ok d → isDir d ∧
      ∀ p, .fsRead p ∈ spec.capabilities ∨ .fsWrite p ∈ spec.capabilities →
        d ≠ p ∧ ¬ Ancestor d p ∧ ¬ Ancestor p d) ∧
    ∀ e, assemblyDir isDir spec = .error e → ∀ d ∈ CANDIDATES, isDir d →
      ∃ p, (.fsRead p ∈ spec.capabilities ∨ .fsWrite p ∈ spec.capabilities) ∧
        (d = p ∨ Ancestor d p ∨ Ancestor p d) := by
  have hn {p : String} (hg : p ∈ spec.granted) : Canonical p := by
    obtain hg | hg := mem_granted.mp hg
    · have ⟨s, hs⟩ := h _ hg
      exact (Capability.validatePath_normal (Capability.parse_canonical hs)).canonical
    · have ⟨s, hs⟩ := h _ hg
      exact (Capability.validatePath_normal (Capability.parse_canonical hs)).canonical
  constructor
  · intro d hd
    have hf := Except.okOr_eq_ok.mp hd
    have hc := List.find?_some hf
    have ⟨hi, hg⟩ : isDir d ∧ ¬ spec.granted.any (overlaps d) := of_decide_eq_true hc
    refine ⟨hi, fun p hp => ?_⟩
    have hp := mem_granted.mpr hp
    have ho : ¬ overlaps d p := fun ho => hg (List.any_eq_true.mpr ⟨p, hp, ho⟩)
    rwa [overlaps_iff (canonical_candidates (List.mem_of_find?_eq_some hf)) (hn hp), not_or, not_or] at ho
  · intro e he d hd hi
    have hf : CANDIDATES.find? (fun d => isDir d ∧ ¬ spec.granted.any (overlaps d)) = none := by
      rw [assemblyDir] at he
      cases hc : CANDIDATES.find? (fun d => isDir d ∧ ¬ spec.granted.any (overlaps d))
      case none => rfl
      case some => rw [hc] at he; contradiction
    have ho := List.find?_eq_none.mp hf d hd
    rw [decide_eq_true_iff, not_and_not_right] at ho
    have ⟨p, hp, ho⟩ := List.any_eq_true.mp (ho hi)
    exact ⟨p, mem_granted.mp hp, (overlaps_iff (canonical_candidates hd) (hn hp)).mp ho⟩

namespace Granted

-- A cell that reads below `/tmp`.
def spec : CellSpec where
  cls          := .cell1
  network      := .none
  capabilities := [.fsRead "/tmp/data", .devAudio]
  memoryBytes  := none
  pidsMax      := none
  cpuSecs      := none
  wallSecs     := none
  nofile       := none
  tmpMib       := 16
  hostname     := "cell"
  mandatory    := []
  env          := []
  argv         := ["/bin/true"]

theorem parsed_spec : ∀ c ∈ spec.capabilities, ∃ s, Capability.parse s = .ok c := by
  simp only [spec, List.forall_mem_cons]
  exact ⟨⟨"FS_READ:/tmp/data", by decide⟩, ⟨"DEV_AUDIO", by decide⟩, nofun⟩

theorem root_hides_no_grant_tmp :
    assemblyDir (fun _ => true) spec = .ok "/mnt" ∧
    "/mnt" ≠ "/tmp/data" ∧ ¬ Ancestor "/mnt" "/tmp/data" ∧ ¬ Ancestor "/tmp/data" "/mnt" :=
  have h : assemblyDir (fun _ => true) spec = .ok "/mnt" := by decide
  ⟨h, ((root_hides_no_grant (fun _ => true) spec parsed_spec).left "/mnt" h).right "/tmp/data"
    (.inl List.mem_cons_self)⟩

end Granted

end Assembly
